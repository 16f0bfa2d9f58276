/-
# LoopScript.Proofs.Tree.Marks — every token is accounted for in the tree, once and in its place

A node stands for one token of the source: for the name it assigns to or calls, for its literal, its
operator, the word that opens it or its opening brace. The `Mark` of a node is the text and the place of
that token. `Program.marks` lists the marks of a tree in the order of the source: operands around their
operator, and everything else behind the node it belongs to.

These are the tokens of the source, without those that only separate or enclose (`marks_eq_tokens`).
The grammar hands every such token to exactly one node (`Lines.marks`). Some nodes keep no text; what
they stand for is then known from the class of the token, since the signs and words of the language are
spelled in one way each (`spelled_of_mem_tokens`).
-/
import LoopScript.Proofs.Parser
import LoopScript.Proofs.Token.Tiling

namespace LoopScript

set_option autoImplicit false

/-- A text and where it stands. -/
structure Mark where
  text : Text
  pos : Position
deriving DecidableEq, Repr

def Token.mark (t : Token) : Mark := ⟨t.text, t.pos⟩

/-- The classes of tokens that separate or enclose, and stand for no node. -/
def Token.separators : List Token.Kind :=
  [.assign, .openParen, .closeParen, .closeBrace, .comma, .semicolon, .elseWord]

/-! ## The marks of a tree -/

mutual

/-- The marks of an expression; an operator stands between its operands. -/
def Expr.marks : Expr → List Mark
  | .name id pos => [⟨id, pos⟩]
  | .literal _ text pos => [⟨text, pos⟩]
  | .call callee args pos => ⟨callee, pos⟩ :: Expr.marksAll args
  | .binary _ op left right pos => left.marks ++ ⟨op.spelling, pos⟩ :: right.marks
  | .negation operand pos => ⟨utf8 "!", pos⟩ :: operand.marks

def Expr.marksAll : List Expr → List Mark
  | [] => []
  | e :: rest => e.marks ++ Expr.marksAll rest

end

mutual

/-- The marks of a statement. A body stands for its opening brace. -/
def Stmt.marks : Stmt → List Mark
  | .assign target value pos => ⟨target, pos⟩ :: value.marks
  | .call callee args pos => ⟨callee, pos⟩ :: Expr.marksAll args
  | .block body pos => ⟨utf8 "\x7b", pos⟩ :: Stmt.marksAll body
  | .loop word condition body bodyPos alternative pos =>
      ⟨word, pos⟩ :: condition.marks ++ ⟨utf8 "\x7b", bodyPos⟩ :: Stmt.marksAll body ++
        Stmt.marksOther alternative
  | .branch condition body bodyPos alternative pos =>
      ⟨utf8 "if", pos⟩ :: condition.marks ++ ⟨utf8 "\x7b", bodyPos⟩ :: Stmt.marksAll body ++
        Stmt.marksOther alternative

def Stmt.marksAll : List Stmt → List Mark
  | [] => []
  | s :: rest => s.marks ++ Stmt.marksAll rest

def Stmt.marksOther : Option Stmt → List Mark
  | none => []
  | some s => s.marks

end

def Program.marks (p : Program) : List Mark := Stmt.marksAll p

theorem Stmt.marksAll_append : ∀ ss us : List Stmt, marksAll (ss ++ us) = marksAll ss ++ marksAll us
  | [], _ => rfl
  | s :: rest, us => by
      rw [List.cons_append, marksAll, marksAll, marksAll_append rest us, List.append_assoc]

/-- An expression stands where one of its marks does. -/
theorem Expr.pos_mem_marks (e : Expr) : ∃ m ∈ e.marks, m.pos = e.pos := by
  cases e with
  | name | literal | call | negation => exact ⟨_, List.mem_cons_self, rfl⟩
  | binary level op left right pos =>
      exact ⟨⟨op.spelling, pos⟩, List.mem_append_right _ List.mem_cons_self, rfl⟩

namespace Token

/-! ## How tokens are spelled -/

/-- The one spelling of the signs and words of the language, whose operators belong to its levels; other
classes have many spellings. -/
def Kind.SpelledAs (text : Text) : Kind → Prop
  | .operator op => text = op.spelling ∧ op.level? ≠ none
  | .assign => text = utf8 "="
  | .bang => text = utf8 "!"
  | .comma => text = utf8 ","
  | .semicolon => text = utf8 ";"
  | .openParen => text = utf8 "("
  | .closeParen => text = utf8 ")"
  | .openBrace => text = utf8 "\x7b"
  | .closeBrace => text = utf8 "\x7d"
  | .ifWord => text = utf8 "if"
  | .elseWord => text = utf8 "else"
  | _ => True

/-- The token is spelled as its class asks. -/
def Spelled (t : Token) : Prop := t.kind.SpelledAs t.text

namespace Spelled

variable {t : Token} (spelled : t.Spelled)
include spelled

theorem as {kind : Kind} (same : t.kind = kind) : kind.SpelledAs t.text := same ▸ spelled

theorem operator {op : Operator} (same : t.kind = .operator op) : t.text = op.spelling :=
  (spelled.as same).1

theorem bang (same : t.kind = .bang) : t.text = utf8 "!" := spelled.as same

theorem openBrace (same : t.kind = .openBrace) : t.text = utf8 "\x7b" := spelled.as same

theorem ifWord (same : t.kind = .ifWord) : t.text = utf8 "if" := spelled.as same

end Spelled

theorem singleKind?_spelled {c : Char} {kind : Kind} (found : singleKind? c = some kind) :
    c.toNat < 0x80 ∧ kind.SpelledAs (String.utf8EncodeChar c) := by
  unfold singleKind? at found
  split at found <;> cases found <;> exact ⟨by decide, by trivial⟩

theorem doubleKinds?_spelled {c : Char} {double single : Kind}
    (found : doubleKinds? c = some (double, single)) :
    c.toNat < 0x80 ∧ single.SpelledAs (String.utf8EncodeChar c) ∧
      double.SpelledAs (String.utf8EncodeChar c ++ String.utf8EncodeChar '=') := by
  unfold doubleKinds? at found
  split at found <;> cases found <;>
    exact ⟨by decide, by trivial, by trivial⟩

theorem ofWord_spelled (word : Text) : (Kind.ofWord word).SpelledAs word := by
  unfold Kind.ofWord
  repeat' split
  all_goals trivial

open Glyph

theorem bytesOf_single (g : Glyph) : bytesOf [g] = g.bytes := List.append_nil _

theorem readEquals_spelled {g : Glyph} {rest : List Glyph} {double single : Kind}
    (genuine : Genuine (g :: rest)) (found : doubleKinds? g.char = some (double, single)) :
    (readEquals double single g rest).1.Spelled := by
  obtain ⟨ascii, alone, both⟩ := doubleKinds?_spelled found
  have bytes := bytes_of_ascii genuine List.mem_cons_self ascii
  rw [← bytes] at alone both
  cases rest with
  | nil =>
      rw [readEquals, take, bytesOf_single]
      exact alone
  | cons h rest =>
      rw [readEquals]
      split
      · next equals =>
          have other := bytes_of_ascii genuine (List.mem_cons_of_mem g List.mem_cons_self)
            (by rw [equals]; decide)
          rw [equals] at other
          rw [take, bytesOf_cons, bytesOf_single, other]
          exact both
      · rw [take, bytesOf_single]
        exact alone

/-- A token that is read is spelled as its class asks. -/
theorem read_spelled {g : Glyph} {rest : List Glyph} (genuine : Genuine (g :: rest)) :
    (read g rest).1.Spelled := by
  unfold read
  split
  · next kind _ found =>
      obtain ⟨ascii, spelled⟩ := singleKind?_spelled found
      rw [take, bytesOf_single, bytes_of_ascii genuine List.mem_cons_self ascii]
      exact spelled
  · next found => exact readEquals_spelled genuine found
  · split
    · unfold readString
      split <;> trivial
    · split
      · exact ofWord_spelled _
      · split
        · unfold readNumber
          dsimp only
          repeat' split
          all_goals trivial
        · trivial

/-- A token is what is read at one of the glyphs, which is no blank. -/
theorem read_of_mem_tokensOf (gs : List Glyph) (genuine : Genuine gs) : ∀ t ∈ tokensOf gs,
    ∃ front g rest, gs = front ++ g :: rest ∧ isBlank g.char = false ∧ t = (read g rest).1 := by
  fun_induction tokensOf gs with
  | case1 gs done => exact fun t member => absurd member List.not_mem_nil
  | case2 gs g rest found ih =>
      obtain ⟨blanks, same, -⟩ := gap_of_skipBlanks gs genuine
      rw [skipBlanks] at found
      rw [found] at same
      rw [same] at genuine
      have ahead : Genuine (g :: rest) := genuine.parts.2
      obtain ⟨more, behind, -⟩ := taken_read ahead
      have after : Genuine (read g rest).2 := by
        have whole := ahead.tail
        rw [behind] at whole
        exact whole.parts.2
      intro t member
      rcases List.mem_cons.mp member with rfl | later
      · exact ⟨blanks, g, rest, same, skipBlanksIn_cons gs false found, rfl⟩
      · obtain ⟨front, h, others, split, visible, read⟩ := ih after t later
        refine ⟨blanks ++ g :: more ++ front, h, others, ?_, visible, read⟩
        rw [same, behind, split]
        simp

/-- The signs and words of a source are spelled as their classes ask. -/
theorem spelled_of_mem_tokens {source : Text} {t : Token} (member : t ∈ tokens source) : t.Spelled := by
  have genuine := genuine_ofText source
  obtain ⟨front, g, rest, split, -, rfl⟩ := read_of_mem_tokensOf _ genuine t member
  rw [split] at genuine
  exact read_spelled genuine.parts.2

/-! ## The tokens that are marks -/

/-- The marks of the tokens that stand for nodes. -/
def marksOf (ts : List Token) : List Mark := (ts.filter fun t => t.kind ∉ separators).map mark

theorem marksOf_append (ts us : List Token) : marksOf (ts ++ us) = marksOf ts ++ marksOf us := by
  simp [marksOf]

theorem marksOf_separator {t : Token} (separates : t.kind ∈ separators) (ts : List Token) :
    marksOf (t :: ts) = marksOf ts := by
  simp [marksOf, separates]

theorem marksOf_node {t : Token} (stands : t.kind ∉ separators) (ts : List Token) :
    marksOf (t :: ts) = t.mark :: marksOf ts := by
  simp [marksOf, stands]

end Token

namespace Grammar

open Token

def AllSpelled (ts : List Token) : Prop := ∀ t ∈ ts, t.Spelled

theorem AllSpelled.parts {ts us : List Token} (all : AllSpelled (ts ++ us)) :
    AllSpelled ts ∧ AllSpelled us :=
  List.forall_mem_append.mp all

theorem AllSpelled.uncons {t : Token} {ts : List Token} (all : AllSpelled (t :: ts)) :
    t.Spelled ∧ AllSpelled ts :=
  List.forall_mem_cons.mp all

theorem marksOf_single {t : Token} (stands : t.kind ∉ separators) : marksOf [t] = [t.mark] :=
  marksOf_node stands []

theorem marksOf_closed {t : Token} (separates : t.kind ∈ separators) (ts : List Token) :
    marksOf (ts ++ [t]) = marksOf ts := by
  rw [marksOf_append, marksOf_separator separates]
  exact List.append_nil _

theorem Constant.stands {kind : Token.Kind} {literal : LiteralKind} (constant : Constant kind literal) :
    kind ∉ separators := by
  cases constant <;> decide

mutual

/-- The marks of an expression are those of its tokens. -/
theorem Expression.marks {s : Stratum} {ts : List Token} {e : Expr} :
    Expression s ts e → AllSpelled ts → e.marks = marksOf ts
  | .operand derived, spelled => derived.marks spelled
  | .operation kind _ left right, spelled => by
      obtain ⟨first, second⟩ := spelled.parts
      obtain ⟨operator, last⟩ := second.uncons
      rw [marksOf_append, marksOf_node (by rw [kind]; simp [separators]), ← left.marks first,
        ← right.marks last, mark, operator.operator kind, Expr.marks]
  | .plain derived, spelled => derived.marks spelled
  | .negation kind derived, spelled => by
      obtain ⟨bang, operand⟩ := spelled.uncons
      rw [marksOf_node (by rw [kind]; decide), ← derived.marks operand, mark, bang.bang kind, Expr.marks]
  | .constant constant, _ => by
      rw [marksOf_single constant.stands]
      rfl
  | .name kind, _ => by
      rw [marksOf_single (by rw [kind]; decide)]
      rfl
  | .call derived, spelled => derived.marks spelled
  | .group opening derived closing, spelled => by
      obtain ⟨-, inner⟩ := spelled.parts.1.uncons
      rw [marksOf_closed (by rw [closing]; decide), marksOf_separator (by rw [opening]; decide)]
      exact derived.marks inner

theorem Expressions.marks {ts : List Token} {es : List Expr} :
    Expressions ts es → AllSpelled ts → Expr.marksAll es = marksOf ts
  | .last derived, spelled => by
      rw [← derived.marks spelled]
      exact List.append_nil _
  | .more derived comma rest, spelled => by
      obtain ⟨first, others⟩ := spelled.parts
      obtain ⟨-, later⟩ := others.uncons
      rw [marksOf_append, marksOf_separator (by rw [comma]; decide), ← derived.marks first,
        ← rest.marks later, Expr.marksAll]

/-- A call begins with the mark of its name. -/
theorem Call.marks {ts : List Token} {name : Token} {args : List Expr} :
    Call ts name args → AllSpelled ts → name.mark :: Expr.marksAll args = marksOf ts
  | .empty kind opening closing, _ => by
      rw [marksOf_node (by rw [kind]; decide), marksOf_separator (by rw [opening]; decide),
        marksOf_separator (by rw [closing]; decide)]
      rfl
  | .arguments kind opening derived closing, spelled => by
      obtain ⟨-, behind⟩ := spelled.parts.1.uncons
      obtain ⟨-, inner⟩ := behind.uncons
      rw [marksOf_closed (by rw [closing]; decide), marksOf_node (by rw [kind]; decide),
        marksOf_separator (by rw [opening]; decide), derived.marks inner]

end

theorem Ending.marks {ts : List Token} : Ending ts → marksOf ts = []
  | .nothing => rfl
  | .semicolon kind => marksOf_separator (by rw [kind]; decide) []

mutual

theorem Line.marks {ts : List Token} {ss : List Stmt} :
    Line ts ss → AllSpelled ts → Stmt.marksAll ss = marksOf ts
  | .lone kind, _ => by
      rw [marksOf_separator (by rw [kind]; decide)]
      rfl
  | .assignment kind equals value ending, spelled => by
      obtain ⟨-, behind⟩ := spelled.parts.1.uncons
      obtain ⟨-, inner⟩ := behind.uncons
      rw [marksOf_append, ending.marks, List.append_nil, marksOf_node (by rw [kind]; decide),
        marksOf_separator (by rw [equals]; decide), ← value.marks inner]
      exact List.append_nil _
  | .call call ending, spelled => by
      rw [marksOf_append, ending.marks, List.append_nil, ← call.marks spelled.parts.1]
      exact List.append_nil _
  | .branch kind clause, spelled => by
      obtain ⟨word, behind⟩ := spelled.uncons
      rw [marksOf_node (by rw [kind]; decide), ← clause.marks behind, mark, word.ifWord kind]
      simp [Stmt.marksAll, Stmt.marks]
  | .loop kind clause, spelled => by
      obtain ⟨-, behind⟩ := spelled.uncons
      rw [marksOf_node (by rw [kind]; decide), ← clause.marks behind, mark]
      simp [Stmt.marksAll, Stmt.marks]

/-- The marks of a program are those of its tokens. -/
theorem Lines.marks {ts : List Token} {ss : List Stmt} :
    Lines ts ss → AllSpelled ts → Stmt.marksAll ss = marksOf ts
  | .nil, _ => rfl
  | .cons line rest, spelled => by
      obtain ⟨first, later⟩ := spelled.parts
      rw [Stmt.marksAll_append, marksOf_append, line.marks first, rest.marks later]

theorem Block.marks {ts : List Token} {body : List Stmt} {pos : Position} :
    Block ts body pos → AllSpelled ts → ⟨utf8 "\x7b", pos⟩ :: Stmt.marksAll body = marksOf ts
  | .braces kind lines closing, spelled => by
      obtain ⟨opening, inner⟩ := spelled.parts.1.uncons
      rw [marksOf_closed (by rw [closing]; decide), marksOf_node (by rw [kind]; decide),
        ← lines.marks inner, mark, opening.openBrace kind]

/-- A condition, the brace of the body, the body, and the alternative. -/
theorem Clause.marks {ts : List Token} {c : Parser.Clause} : Clause ts c → AllSpelled ts →
    c.condition.marks ++ ⟨utf8 "\x7b", c.bodyPos⟩ :: Stmt.marksAll c.body ++
      Stmt.marksOther c.alternative = marksOf ts
  | .plain condition body, spelled => by
      obtain ⟨first, second⟩ := spelled.parts
      rw [marksOf_append, ← condition.marks first, ← body.marks second]
      exact List.append_nil _
  | .otherwise condition body word other, spelled => by
      obtain ⟨front, behind⟩ := spelled.parts
      obtain ⟨first, second⟩ := front.parts
      obtain ⟨-, last⟩ := behind.uncons
      rw [marksOf_append, marksOf_append, marksOf_separator (by rw [word]; decide),
        ← condition.marks first, ← body.marks second, ← other.marks last]
      rfl

theorem Alternative.marks {ts : List Token} {s : Stmt} :
    Alternative ts s → AllSpelled ts → s.marks = marksOf ts
  | .block block, spelled => block.marks spelled
  | .branch kind clause, spelled => by
      obtain ⟨word, behind⟩ := spelled.uncons
      rw [marksOf_node (by rw [kind]; decide), ← clause.marks behind, mark, word.ifWord kind]
      simp [Stmt.marks]

end

end Grammar

/-- The marks of a program that was read are those of its tokens. -/
theorem Program.marks_of_read {source : Text} {p : Program} (read : Program.read source = .ok p) :
    p.marks = Token.marksOf (Token.tokens source) :=
  (Program.read_eq_ok.mp read).marks fun _ member => Token.spelled_of_mem_tokens member

namespace Script

/-- **Every token of a source that compiles is accounted for in the tree, once and in its place.** The
marks of the tree, in the order of the source, are the tokens with the same texts and places, but for
those that separate or enclose: `=`, parentheses, closing braces, commas, semicolons and `else`. -/
theorem marks_eq_tokens {source : Text} {script : Script}
    (compiled : Script.compile source = .ok script) :
    Program.marks script.program =
      ((Token.tokens source).filter fun t => t.kind ∉ Token.separators).map Token.mark :=
  Program.marks_of_read (compile_eq_ok.mp compiled).1

/-- A loop with every kind of node in it, an alternative that is a branch, and a comment. -/
def nested : Text :=
  utf8 "until ! ( a and b ) == f ( 1 , g ( ) ) \x7b # \x7b\n;y = 'x' * 2.5;\x7d else if null \x7b\x7d else \x7b f ( y ) \x7d"

/-- The marks of the nested source, each operator between its operands, and each brace before its body. -/
theorem marks_eq_tokens_nested :
    ∃ script, Script.compile nested = .ok script ∧
      Program.marks script.program =
        ((Token.tokens nested).filter fun t => t.kind ∉ Token.separators).map Token.mark ∧
      (Program.marks script.program).map Mark.text =
        ["until", "!", "a", "and", "b", "==", "f", "1", "g", "\x7b", "y", "'x'", "*", "2.5", "if", "null",
          "\x7b", "\x7b", "f", "y"].map utf8 := by
  have computed : ((Script.compile nested).toOption.any fun script =>
      decide ((Program.marks script.program).map Mark.text =
        ["until", "!", "a", "and", "b", "==", "f", "1", "g", "\x7b", "y", "'x'", "*", "2.5", "if", "null",
          "\x7b", "\x7b", "f", "y"].map utf8)) = true := by decide +kernel
  obtain ⟨script, found, texts⟩ := (Option.any_eq_true _ _).mp computed
  have compiled := toOption_compile.mp found
  exact ⟨script, compiled, marks_eq_tokens compiled, of_decide_eq_true texts⟩

end Script

end LoopScript
