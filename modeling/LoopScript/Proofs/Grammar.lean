/-
# LoopScript.Proofs.Grammar — which token sequences are programs, and what their trees are

The grammar of the language, said without a parser. Each relation below takes a token sequence and
what it stands for:

* `Expression s ts e` — `ts` is an expression of stratum `s`, and its tree is `e`. The strata run
  from the four levels of binary operators, loosest first, over negations to primaries. An operation
  of a level has an operation of the same level or an operand on its left, and an operand (something
  of the next stratum) on its right: this is what grouping to the left means. Parentheses leave no
  node.
* `Call ts name args` — a name and its arguments in parentheses.
* `Line ts stmts` — one line, which has one statement, or none if it is a lone semicolon.
* `Lines ts stmts` — lines one after the other. A program is such a sequence.
* `Block`, `Clause` and `Alternative` — a body in braces, what follows the word that opens a loop or a
  branch, and what follows `else`.

A semicolon may end an assignment or a call, and it may stand alone, so a token sequence can have two
derivations; `LoopScript.Proofs.Parser` shows that they never give two trees.
-/
import LoopScript.Tree.Parser

namespace LoopScript.Grammar

set_option autoImplicit false

/-- The strata of expressions, from the loosest to the tightest. -/
inductive Stratum where
  | binary (level : Level)
  | negated
  | primary
deriving DecidableEq, Repr

/-- The stratum of the operands of a level: the next one. -/
def operandOf : Level → Stratum
  | .boolean => .binary .comparison
  | .comparison => .binary .additive
  | .additive => .binary .multiplicative
  | .multiplicative => .negated

def Stratum.whole : Stratum := .binary .boolean

inductive Constant : Token.Kind → LiteralKind → Prop where
  | integer : Constant .integer .integer
  | float : Constant .float .float
  | string : Constant .string .string
  | bool : Constant .bool .bool
  | null : Constant .null .null

/-! ## Expressions -/

mutual

/-- An expression of a stratum, and its tree. -/
inductive Expression : Stratum → List Token → Expr → Prop where
  | operand {level : Level} {ts : List Token} {e : Expr} :
      Expression (operandOf level) ts e → Expression (.binary level) ts e
  | operation {level : Level} {op : Operator} {t : Token} {ls rs : List Token} {left right : Expr} :
      t.kind = .operator op → op.level? = some level →
      Expression (.binary level) ls left → Expression (operandOf level) rs right →
      Expression (.binary level) (ls ++ t :: rs) (.binary level op left right t.pos)
  | plain {ts : List Token} {e : Expr} : Expression .primary ts e → Expression .negated ts e
  | negation {t : Token} {ts : List Token} {e : Expr} :
      t.kind = .bang → Expression .negated ts e →
      Expression .negated (t :: ts) (.negation e t.pos)
  | constant {t : Token} {kind : LiteralKind} :
      Constant t.kind kind → Expression .primary [t] (.literal kind t.text t.pos)
  | name {t : Token} : t.kind = .identifier → Expression .primary [t] (.name t.text t.pos)
  | call {ts : List Token} {name : Token} {args : List Expr} :
      Call ts name args → Expression .primary ts (.call name.text args name.pos)
  | group {opening closing : Token} {ts : List Token} {e : Expr} :
      opening.kind = .openParen → Expression .whole ts e → closing.kind = .closeParen →
      Expression .primary (opening :: ts ++ [closing]) e

/-- One expression or more, with commas between them. -/
inductive Expressions : List Token → List Expr → Prop where
  | last {ts : List Token} {e : Expr} : Expression .whole ts e → Expressions ts [e]
  | more {comma : Token} {ts us : List Token} {e : Expr} {es : List Expr} :
      Expression .whole ts e → comma.kind = .comma → Expressions us es →
      Expressions (ts ++ comma :: us) (e :: es)

inductive Call : List Token → Token → List Expr → Prop where
  | empty {name opening closing : Token} :
      name.kind = .identifier → opening.kind = .openParen → closing.kind = .closeParen →
      Call [name, opening, closing] name []
  | arguments {name opening closing : Token} {ts : List Token} {args : List Expr} :
      name.kind = .identifier → opening.kind = .openParen → Expressions ts args →
      closing.kind = .closeParen → Call (name :: opening :: ts ++ [closing]) name args

end

/-! ## Statements -/

/-- What may end an assignment or a call: a semicolon, or nothing. -/
inductive Ending : List Token → Prop where
  | nothing : Ending []
  | semicolon {t : Token} : t.kind = .semicolon → Ending [t]

mutual

/-- One line, and its statement if it has one. -/
inductive Line : List Token → List Stmt → Prop where
  | lone {t : Token} : t.kind = .semicolon → Line [t] []
  | assignment {name equals : Token} {ts ending : List Token} {e : Expr} :
      name.kind = .identifier → equals.kind = .assign → Expression .whole ts e → Ending ending →
      Line (name :: equals :: ts ++ ending) [.assign name.text e name.pos]
  | call {name : Token} {ts ending : List Token} {args : List Expr} :
      Call ts name args → Ending ending → Line (ts ++ ending) [.call name.text args name.pos]
  | branch {word : Token} {ts : List Token} {c : Parser.Clause} :
      word.kind = .ifWord → Clause ts c →
      Line (word :: ts) [.branch c.condition c.body c.bodyPos c.alternative word.pos]
  | loop {word : Token} {ts : List Token} {c : Parser.Clause} :
      word.kind = .loopWord → Clause ts c →
      Line (word :: ts) [.loop word.text c.condition c.body c.bodyPos c.alternative word.pos]

/-- Lines one after the other, and their statements. -/
inductive Lines : List Token → List Stmt → Prop where
  | nil : Lines [] []
  | cons {ts us : List Token} {one more : List Stmt} :
      Line ts one → Lines us more → Lines (ts ++ us) (one ++ more)

/-- Lines in braces, and where the opening brace stands. -/
inductive Block : List Token → List Stmt → Position → Prop where
  | braces {opening closing : Token} {ts : List Token} {body : List Stmt} :
      opening.kind = .openBrace → Lines ts body → closing.kind = .closeBrace →
      Block (opening :: ts ++ [closing]) body opening.pos

inductive Clause : List Token → Parser.Clause → Prop where
  | plain {ts us : List Token} {condition : Expr} {body : List Stmt} {pos : Position} :
      Expression .whole ts condition → Block us body pos →
      Clause (ts ++ us) ⟨condition, body, pos, none⟩
  | otherwise {word : Token} {ts us vs : List Token} {condition : Expr} {body : List Stmt}
      {pos : Position} {other : Stmt} :
      Expression .whole ts condition → Block us body pos → word.kind = .elseWord →
      Alternative vs other → Clause (ts ++ us ++ word :: vs) ⟨condition, body, pos, some other⟩

inductive Alternative : List Token → Stmt → Prop where
  | block {ts : List Token} {body : List Stmt} {pos : Position} :
      Block ts body pos → Alternative ts (.block body pos)
  | branch {word : Token} {ts : List Token} {c : Parser.Clause} :
      word.kind = .ifWord → Clause ts c →
      Alternative (word :: ts) (.branch c.condition c.body c.bodyPos c.alternative word.pos)

end

/-- Lines after lines are lines. -/
theorem Lines.append {ts us : List Token} {p q : List Stmt} :
    Lines ts p → Lines us q → Lines (ts ++ us) (p ++ q)
  | .nil, second => second
  | .cons line lines, second => by
      rw [List.append_assoc, List.append_assoc]
      exact .cons line (lines.append second)

/-- One line is lines. -/
theorem Line.lines {ts : List Token} {ss : List Stmt} (line : Line ts ss) : Lines ts ss := by
  have lines := Lines.cons line .nil
  rwa [List.append_nil, List.append_nil] at lines

/-! ## Tokens of a derivation -/

/-- Neither of the classes that stand for what cannot be read. -/
def Legal : Token.Kind → Prop
  | .illegal => False
  | .unterminated => False
  | _ => True

theorem legal_iff {kind : Token.Kind} : Legal kind ↔ kind ≠ .illegal ∧ kind ≠ .unterminated := by
  cases kind <;> simp [Legal]

instance : DecidablePred Legal := fun _ => decidable_of_iff _ legal_iff.symm

def AllLegal (ts : List Token) : Prop := ∀ t ∈ ts, Legal t.kind

instance : DecidablePred AllLegal := fun ts => inferInstanceAs (Decidable (∀ t ∈ ts, Legal t.kind))

theorem AllLegal.cons {t : Token} {ts : List Token} {kind : Token.Kind} (same : t.kind = kind)
    (legal : Legal kind) (rest : AllLegal ts) : AllLegal (t :: ts) :=
  List.forall_mem_cons.mpr ⟨same ▸ legal, rest⟩

theorem AllLegal.append {ts us : List Token} (first : AllLegal ts) (second : AllLegal us) :
    AllLegal (ts ++ us) :=
  List.forall_mem_append.mpr ⟨first, second⟩

theorem AllLegal.single {t : Token} {kind : Token.Kind} (same : t.kind = kind) (legal : Legal kind) :
    AllLegal [t] :=
  .cons same legal nofun

theorem Constant.legal {kind : Token.Kind} {literal : LiteralKind} (constant : Constant kind literal) :
    Legal kind := by
  cases constant <;> trivial

mutual

theorem Expression.legal {s : Stratum} {ts : List Token} {e : Expr} : Expression s ts e → AllLegal ts
  | .operand operand => operand.legal
  | .operation kind _ left right => left.legal.append (.cons kind trivial right.legal)
  | .plain primary => primary.legal
  | .negation kind operand => .cons kind trivial operand.legal
  | .constant constant => .single rfl constant.legal
  | .name kind => .single kind trivial
  | .call call => call.legal
  | .group opening inner closing =>
      (AllLegal.cons opening trivial inner.legal).append (.single closing trivial)

theorem Expressions.legal {ts : List Token} {es : List Expr} : Expressions ts es → AllLegal ts
  | .last e => e.legal
  | .more e comma rest => e.legal.append (.cons comma trivial rest.legal)

theorem Call.legal {ts : List Token} {name : Token} {args : List Expr} : Call ts name args → AllLegal ts
  | .empty name opening closing =>
      .cons name trivial (.cons opening trivial (.single closing trivial))
  | .arguments name opening args closing =>
      (AllLegal.cons name trivial (.cons opening trivial args.legal)).append (.single closing trivial)

end

theorem Ending.legal {ts : List Token} : Ending ts → AllLegal ts
  | .nothing => nofun
  | .semicolon kind => .single kind trivial

mutual

theorem Line.legal {ts : List Token} {ss : List Stmt} : Line ts ss → AllLegal ts
  | .lone kind => .single kind trivial
  | .assignment name equals value ending =>
      (AllLegal.cons name trivial (.cons equals trivial value.legal)).append ending.legal
  | .call call ending => call.legal.append ending.legal
  | .branch word clause => .cons word trivial clause.legal
  | .loop word clause => .cons word trivial clause.legal

/-- Every token of a derivation is legal. -/
theorem Lines.legal {ts : List Token} {ss : List Stmt} : Lines ts ss → AllLegal ts
  | .nil => nofun
  | .cons line rest => line.legal.append rest.legal

theorem Block.legal {ts : List Token} {body : List Stmt} {pos : Position} :
    Block ts body pos → AllLegal ts
  | .braces opening body closing =>
      (AllLegal.cons opening trivial body.legal).append (.single closing trivial)

theorem Clause.legal {ts : List Token} {c : Parser.Clause} : Clause ts c → AllLegal ts
  | .plain condition body => condition.legal.append body.legal
  | .otherwise condition body word other =>
      (condition.legal.append body.legal).append (.cons word trivial other.legal)

theorem Alternative.legal {ts : List Token} {s : Stmt} : Alternative ts s → AllLegal ts
  | .block block => block.legal
  | .branch word clause => .cons word trivial clause.legal

end

end LoopScript.Grammar
