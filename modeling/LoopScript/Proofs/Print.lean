/-
# LoopScript.Proofs.Print — a tree that is written down is read back

A printer for trees, against `LoopScript.Tree.Parser`. `Program.print` writes the lexemes of a program with
a space between each two. Parentheses stand exactly where the tree would otherwise be read differently:
around a left operand that binds more loosely than the operator, around a right operand that binds no more
tightly, and around an operation that is negated (`Expr.lexemes`).

Trees built by hand need not come from any source: a name may be a reserved word, an operator may stand in
a node of another level, a block may stand alone. `WellFormed` rules these out, and what is left is read
back as it was, but for the positions (`compile_print`). The proof goes through the grammar: the tokens of
the printed text are the lexemes (`LoopScript.Proofs.Token.Layout`), and tokens with these lexemes are
derivable as the tree (`Expr.spells`, `Stmt.spellsAll`), because the parentheses put each operand in the
stratum where the grammar asks for it.
-/
import LoopScript.Proofs.Parser
import LoopScript.Proofs.Token.Layout

namespace LoopScript

set_option autoImplicit false

/-! ## Trees that can be written -/

def Text.IsName (t : Text) : Prop := t.IsWord ∧ t ∉ Token.keywords

/-- The texts that literals of a kind are written as. -/
inductive LiteralKind.Spelled : LiteralKind → Text → Prop where
  | integer {t : Text} : t.IsNumeral → Spelled .integer t
  | float {whole fraction : Text} :
      whole.IsNumeral → fraction.IsNumeral → Spelled .float (whole ++ utf8 "." ++ fraction)
  | string {quote : UInt8} {content : Text} :
      quote ∈ utf8 "\"'" → quote ∉ content → Spelled .string (quote :: content ++ [quote])
  | bool {t : Text} : t = utf8 "true" ∨ t = utf8 "false" → Spelled .bool t
  | null : Spelled .null (utf8 "null")

mutual

/-- Names are names, literals are spelled as their kind asks, and operators stand in nodes of their
level. -/
def Expr.WellFormed : Expr → Prop
  | .name id _ => id.IsName
  | .literal kind text _ => kind.Spelled text
  | .call callee args _ => callee.IsName ∧ Expr.AllWellFormed args
  | .binary level op left right _ => op.level? = some level ∧ left.WellFormed ∧ right.WellFormed
  | .negation operand _ => operand.WellFormed

def Expr.AllWellFormed : List Expr → Prop
  | [] => True
  | e :: rest => e.WellFormed ∧ Expr.AllWellFormed rest

end

mutual

/-- A statement as it may stand in a list: no block by itself, and loops are opened by one of the two
words for it. -/
def Stmt.WellFormed : Stmt → Prop
  | .assign target value _ => target.IsName ∧ value.WellFormed
  | .call callee args _ => callee.IsName ∧ Expr.AllWellFormed args
  | .block _ _ => False
  | .loop word condition body _ alternative _ =>
      (word = utf8 "while" ∨ word = utf8 "until") ∧ condition.WellFormed ∧ Stmt.AllWellFormed body ∧
        Stmt.OtherWellFormed alternative
  | .branch condition body _ alternative _ =>
      condition.WellFormed ∧ Stmt.AllWellFormed body ∧ Stmt.OtherWellFormed alternative

def Stmt.AllWellFormed : List Stmt → Prop
  | [] => True
  | s :: rest => s.WellFormed ∧ Stmt.AllWellFormed rest

/-- An alternative is absent, a block or a branch. -/
def Stmt.OtherWellFormed : Option Stmt → Prop
  | none => True
  | some (.block body _) => Stmt.AllWellFormed body
  | some (.branch condition body _ alternative _) =>
      condition.WellFormed ∧ Stmt.AllWellFormed body ∧ Stmt.OtherWellFormed alternative
  | some _ => False

end

/-! ## The lexemes of a tree -/

namespace Lexeme

def name (id : Text) : Lexeme := ⟨.identifier, id⟩
def equals : Lexeme := ⟨.assign, utf8 "="⟩
def bang : Lexeme := ⟨.bang, utf8 "!"⟩
def comma : Lexeme := ⟨.comma, utf8 ","⟩
def semicolon : Lexeme := ⟨.semicolon, utf8 ";"⟩
def openParen : Lexeme := ⟨.openParen, utf8 "("⟩
def closeParen : Lexeme := ⟨.closeParen, utf8 ")"⟩
def openBrace : Lexeme := ⟨.openBrace, utf8 "\x7b"⟩
def closeBrace : Lexeme := ⟨.closeBrace, utf8 "\x7d"⟩
def ifWord : Lexeme := ⟨.ifWord, utf8 "if"⟩
def elseWord : Lexeme := ⟨.elseWord, utf8 "else"⟩

def grouped (needed : Bool) (ls : List Lexeme) : List Lexeme :=
  if needed then openParen :: ls ++ [closeParen] else ls

def braced (ls : List Lexeme) : List Lexeme := openBrace :: ls ++ [closeBrace]

end Lexeme

def LiteralKind.token : LiteralKind → Token.Kind
  | .integer => .integer
  | .float => .float
  | .string => .string
  | .bool => .bool
  | .null => .null
  | .other => .illegal

/-- How tightly an expression holds together: as its operator binds, and more than any operator if it is
none. -/
def Expr.rank : Expr → Nat
  | .binary level _ _ _ _ => level.rank
  | _ => 5

mutual

def Expr.lexemes : Expr → List Lexeme
  | .name id _ => [.name id]
  | .literal kind text _ => [⟨kind.token, text⟩]
  | .call callee args _ => .name callee :: .openParen :: Expr.lexemesAll args ++ [.closeParen]
  | .binary level op left right _ =>
      Lexeme.grouped (left.rank < level.rank) left.lexemes ++
        ⟨.operator op, op.spelling⟩ :: Lexeme.grouped (right.rank ≤ level.rank) right.lexemes
  | .negation operand _ => .bang :: Lexeme.grouped (operand.rank < 5) operand.lexemes

/-- The lexemes of arguments, with commas between them. -/
def Expr.lexemesAll : List Expr → List Lexeme
  | [] => []
  | [e] => e.lexemes
  | e :: next :: rest => e.lexemes ++ .comma :: Expr.lexemesAll (next :: rest)

end

mutual

def Stmt.lexemes : Stmt → List Lexeme
  | .assign target value _ => .name target :: .equals :: value.lexemes
  | .call callee args _ => .name callee :: .openParen :: Expr.lexemesAll args ++ [.closeParen]
  | .block body _ => Lexeme.braced (Stmt.lexemesAll body)
  | .loop word condition body _ alternative _ =>
      ⟨.loopWord, word⟩ :: condition.lexemes ++ Lexeme.braced (Stmt.lexemesAll body) ++
        Stmt.lexemesOther alternative
  | .branch condition body _ alternative _ =>
      .ifWord :: condition.lexemes ++ Lexeme.braced (Stmt.lexemesAll body) ++ Stmt.lexemesOther alternative

def Stmt.lexemesAll : List Stmt → List Lexeme
  | [] => []
  | s :: rest => s.lexemes ++ Stmt.lexemesAll rest

def Stmt.lexemesOther : Option Stmt → List Lexeme
  | none => []
  | some s => .elseWord :: s.lexemes

end

def Program.print (p : Program) : Text := Lexeme.spaced (Stmt.lexemesAll p)

/-! ## Trees without positions -/

/-- No position is kept. -/
def Position.forget (_ : Position) : Position := .nowhere

def Expr.unplaced (e : Expr) : Expr := e.relocate .forget

def Stmt.unplaced (s : Stmt) : Stmt := s.relocate .forget

def Program.unplaced (p : Program) : Program := p.map Stmt.unplaced

/-! ## The lexemes stand for themselves -/

namespace Lexeme

/-- The signs and words that stand for nothing but themselves. -/
def fixed : List Lexeme :=
  [equals, bang, comma, openParen, closeParen, openBrace, closeBrace, ifWord, elseWord]

theorem fixed_stands {l : Lexeme} (member : l ∈ fixed) : l.Stands := by
  simp only [fixed, List.mem_cons, List.not_mem_nil, or_false] at member
  rcases member with rfl | rfl | rfl | rfl | rfl | rfl | rfl | rfl | rfl <;>
    exact ⟨by decide, fun p => ⟨_, _, rfl, rfl, rfl⟩⟩

theorem semicolon_stands : semicolon.Stands := ⟨by decide, fun p => ⟨_, _, rfl, rfl, rfl⟩⟩

theorem name_stands {id : Text} (isName : id.IsName) : (name id).Stands := by
  obtain ⟨word, free⟩ := isName
  have kind : Token.Kind.ofWord id = .identifier := by
    simp only [Token.keywords, List.mem_cons, List.not_mem_nil, or_false, not_or] at free
    simp [Token.Kind.ofWord, free]
  have stands := word_stands word
  rwa [kind] at stands

theorem literal_stands {kind : LiteralKind} {text : Text} (spelled : kind.Spelled text) :
    Stands ⟨kind.token, text⟩ := by
  cases spelled with
  | integer numeral => exact integer_stands numeral
  | float whole fraction =>
      rw [List.append_assoc]
      exact float_stands whole fraction
  | string quote absent => exact string_stands quote absent
  | bool either =>
      rcases either with rfl | rfl <;> exact ⟨by decide, fun p => ⟨_, _, rfl, rfl, rfl⟩⟩
  | null => exact ⟨by decide, fun p => ⟨_, _, rfl, rfl, rfl⟩⟩

theorem loopWord_stands {word : Text} (either : word = utf8 "while" ∨ word = utf8 "until") :
    Stands ⟨.loopWord, word⟩ := by
  rcases either with rfl | rfl <;> exact ⟨by decide, fun p => ⟨_, _, rfl, rfl, rfl⟩⟩

def AllStand (ls : List Lexeme) : Prop := ∀ l ∈ ls, l.Stands

theorem AllStand.cons {l : Lexeme} {ls : List Lexeme} (first : l.Stands) (others : AllStand ls) :
    AllStand (l :: ls) :=
  List.forall_mem_cons.mpr ⟨first, others⟩

theorem AllStand.append {ls ms : List Lexeme} (first : AllStand ls) (second : AllStand ms) :
    AllStand (ls ++ ms) :=
  List.forall_mem_append.mpr ⟨first, second⟩

theorem AllStand.grouped {ls : List Lexeme} (inner : AllStand ls) (needed : Bool) :
    AllStand (Lexeme.grouped needed ls) := by
  cases needed with
  | false => exact inner
  | true =>
      exact (AllStand.cons (fixed_stands (by decide)) inner).append
        (.cons (fixed_stands (by decide)) nofun)

theorem AllStand.braced {ls : List Lexeme} (inner : AllStand ls) : AllStand (Lexeme.braced ls) :=
  (AllStand.cons (fixed_stands (by decide)) inner).append (.cons (fixed_stands (by decide)) nofun)

/-- A name and a list in parentheses. -/
theorem AllStand.call {callee : Text} {ls : List Lexeme} (isName : callee.IsName) (inner : AllStand ls) :
    AllStand (name callee :: openParen :: ls ++ [closeParen]) :=
  (AllStand.cons (name_stands isName) (.cons (fixed_stands (by decide)) inner)).append
    (.cons (fixed_stands (by decide)) nofun)

end Lexeme

open Lexeme (AllStand)

mutual

theorem Expr.lexemes_stand : ∀ {e : Expr}, e.WellFormed → AllStand e.lexemes
  | .name _ _, isName => .cons (Lexeme.name_stands isName) nofun
  | .literal _ _ _, spelled => .cons (Lexeme.literal_stands spelled) nofun
  | .call _ _ _, ⟨isName, args⟩ => .call isName (Expr.lexemesAll_stand args)
  | .binary _ _ _ _ _, ⟨known, left, right⟩ =>
      ((Expr.lexemes_stand left).grouped _).append
        (.cons (operator_stands known) ((Expr.lexemes_stand right).grouped _))
  | .negation operand _, wf =>
      .cons (Lexeme.fixed_stands (by decide)) ((Expr.lexemes_stand (e := operand) wf).grouped _)

theorem Expr.lexemesAll_stand : ∀ {es : List Expr}, Expr.AllWellFormed es → AllStand (Expr.lexemesAll es)
  | [], _ => nofun
  | [_], ⟨only, _⟩ => Expr.lexemes_stand only
  | _ :: _ :: _, ⟨first, others⟩ =>
      (Expr.lexemes_stand first).append
        (.cons (Lexeme.fixed_stands (by decide)) (Expr.lexemesAll_stand others))

end

mutual

theorem Stmt.lexemes_stand : ∀ {s : Stmt}, s.WellFormed → AllStand s.lexemes
  | .assign _ _ _, ⟨isName, value⟩ =>
      .cons (Lexeme.name_stands isName) (.cons (Lexeme.fixed_stands (by decide)) (Expr.lexemes_stand value))
  | .call _ _ _, ⟨isName, args⟩ => .call isName (Expr.lexemesAll_stand args)
  | .loop _ _ _ _ _ _, ⟨either, condition, body, other⟩ =>
      ((AllStand.cons (Lexeme.loopWord_stands either) (Expr.lexemes_stand condition)).append
        (Stmt.lexemesAll_stand body).braced).append (Stmt.lexemesOther_stand other)
  | .branch _ _ _ _ _, ⟨condition, body, other⟩ =>
      ((AllStand.cons (Lexeme.fixed_stands (by decide)) (Expr.lexemes_stand condition)).append
        (Stmt.lexemesAll_stand body).braced).append (Stmt.lexemesOther_stand other)

theorem Stmt.lexemesAll_stand : ∀ {ss : List Stmt}, Stmt.AllWellFormed ss → AllStand (Stmt.lexemesAll ss)
  | [], _ => nofun
  | _ :: _, ⟨first, others⟩ => (Stmt.lexemes_stand first).append (Stmt.lexemesAll_stand others)

theorem Stmt.lexemesOther_stand : ∀ {other : Option Stmt}, Stmt.OtherWellFormed other →
    AllStand (Stmt.lexemesOther other)
  | none, _ => nofun
  | some (.block _ _), body =>
      .cons (Lexeme.fixed_stands (by decide)) (Stmt.lexemesAll_stand body).braced
  | some (.branch condition body bodyPos alternative pos), wf =>
      .cons (Lexeme.fixed_stands (by decide))
        (Stmt.lexemes_stand (s := .branch condition body bodyPos alternative pos) wf)

end

/-! ## Tokens with the lexemes of a tree are derivable as it -/

namespace Grammar

/-- Wherever the lexemes stand, their tokens are derivable, and as what `x` is but for positions. -/
def Spells {α : Type} (derive : List Token → α → Prop) (bare : α → α) (ls : List Lexeme) (x : α) : Prop :=
  ∀ ts : List Token, ts.map Token.lexeme = ls → ∃ y, derive ts y ∧ bare y = bare x

theorem tokens_of_cons {ts : List Token} {l : Lexeme} {ls : List Lexeme}
    (same : ts.map Token.lexeme = l :: ls) :
    ∃ t rest, ts = t :: rest ∧ t.kind = l.kind ∧ t.text = l.text ∧ rest.map Token.lexeme = ls := by
  obtain ⟨t, rest, rfl, first, others⟩ := List.map_eq_cons_iff.mp same
  exact ⟨t, rest, rfl, congrArg Lexeme.kind first, congrArg Lexeme.text first, others⟩

theorem tokens_of_single {ts : List Token} {l : Lexeme} (same : ts.map Token.lexeme = [l]) :
    ∃ t, ts = [t] ∧ t.kind = l.kind ∧ t.text = l.text := by
  obtain ⟨t, rest, rfl, kind, text, none⟩ := tokens_of_cons same
  rw [List.map_eq_nil_iff.mp none]
  exact ⟨t, rfl, kind, text⟩

/-- Tokens between an opening and a closing one. -/
theorem tokens_of_enclosed {ts : List Token} {opening closing : Lexeme} {ls : List Lexeme}
    (same : ts.map Token.lexeme = opening :: ls ++ [closing]) :
    ∃ first inner last, ts = first :: inner ++ [last] ∧ first.kind = opening.kind ∧
      inner.map Token.lexeme = ls ∧ last.kind = closing.kind := by
  obtain ⟨front, back, rfl, before, behind⟩ := List.map_eq_append_iff.mp same
  obtain ⟨first, inner, rfl, firstKind, -, middle⟩ := tokens_of_cons before
  obtain ⟨last, rfl, lastKind, -⟩ := tokens_of_single behind
  exact ⟨first, inner, last, rfl, firstKind, middle, lastKind⟩

theorem Spells.loosen {m n : Nat} {ls : List Lexeme} {e : Expr} (le : m ≤ n)
    (tight : Spells (Expression (.above n)) Expr.unplaced ls e) :
    Spells (Expression (.above m)) Expr.unplaced ls e := by
  intro ts same
  obtain ⟨e', derived, bare⟩ := tight ts same
  exact ⟨e', derived.loosen le, bare⟩

/-- An operand in parentheses fits anywhere; without them it has to bind more tightly than `n`. -/
theorem Spells.grouped {n : Nat} {ls : List Lexeme} {e : Expr} {loose : Prop} [Decidable loose]
    (inner : Spells (Expression (.above (e.rank - 1))) Expr.unplaced ls e)
    (fits : ¬ loose → n < e.rank) :
    Spells (Expression (.above n)) Expr.unplaced (Lexeme.grouped loose ls) e := by
  by_cases needed : loose
  · intro ts same
    rw [decide_eq_true needed] at same
    obtain ⟨opening, mid, closing, rfl, opens, middle, closes⟩ := tokens_of_enclosed same
    obtain ⟨e', derived, bare⟩ := inner.loosen (Nat.zero_le _) mid middle
    have tight : Expression (.above (n + 4)) (opening :: mid ++ [closing]) e' :=
      .plain (.group opens derived closes)
    exact ⟨e', tight.loosen (by omega), bare⟩
  · rw [decide_eq_false needed]
    exact inner.loosen (by have := fits needed; omega)

/-- A name and its arguments in parentheses. -/
theorem Spells.call {callee : Text} {args : List Expr} (known : args = [] ∨
      Spells Expressions (Expr.relocate.relocateAll .forget) (Expr.lexemesAll args) args)
    {ts : List Token} (same : ts.map Token.lexeme =
      Lexeme.name callee :: Lexeme.openParen :: Expr.lexemesAll args ++ [Lexeme.closeParen]) :
    ∃ name args', Call ts name args' ∧ name.text = callee ∧
      Expr.relocate.relocateAll .forget args' = Expr.relocate.relocateAll .forget args := by
  obtain ⟨name, behind, rfl, nameKind, text, others⟩ := tokens_of_cons same
  obtain ⟨opening, inner, closing, rfl, opens, middle, closes⟩ := tokens_of_enclosed others
  rcases known with rfl | spelled
  · rw [List.map_eq_nil_iff.mp middle]
    exact ⟨name, [], .empty nameKind opens closes, text, rfl⟩
  · obtain ⟨args', derived, bare⟩ := spelled inner middle
    exact ⟨name, args', .arguments nameKind opens derived closes, text, bare⟩

end Grammar

open Grammar

theorem LiteralKind.Spelled.constant {kind : LiteralKind} {text : Text} (spelled : kind.Spelled text) :
    Constant kind.token kind := by
  cases spelled <;> constructor

mutual

/-- Tokens with the lexemes of an expression are derivable as it, in the stratum of its operator. -/
theorem Expr.spells : ∀ {e : Expr}, e.WellFormed →
    Spells (Expression (.above (e.rank - 1))) Expr.unplaced e.lexemes e
  | .name _ _, _, ts, same => by
      obtain ⟨t, rfl, kind, rfl⟩ := tokens_of_single same
      exact ⟨_, .plain (.name kind), rfl⟩
  | .literal _ _ _, spelled, ts, same => by
      obtain ⟨t, rfl, kind, rfl⟩ := tokens_of_single same
      exact ⟨_, .plain (.constant (kind ▸ spelled.constant)), rfl⟩
  | .call callee args _, ⟨_, wf⟩, ts, same => by
      obtain ⟨name, args', derived, rfl, bare⟩ := Spells.call (Expr.spellsAll wf) same
      refine ⟨_, .plain (.call derived), ?_⟩
      rw [unplaced, unplaced, relocate, relocate, bare]
      rfl
  | .binary level op left right _, ⟨known, wfLeft, wfRight⟩, ts, same => by
      obtain ⟨ls, more, rfl, leftLexemes, others⟩ := List.map_eq_append_iff.mp same
      obtain ⟨t, rs, rfl, kind, -, rightLexemes⟩ := tokens_of_cons others
      have positive := level.rank_pos
      obtain ⟨left', leftDerived, leftBare⟩ :=
        (Expr.spells wfLeft).grouped (n := level.rank - 1) (by omega) ls leftLexemes
      obtain ⟨right', rightDerived, rightBare⟩ :=
        (Expr.spells wfRight).grouped (n := level.rank) (by omega) rs rightLexemes
      rw [above_rank_pred] at leftDerived
      rw [above_rank] at rightDerived
      refine ⟨.binary level op left' right' t.pos, ?_, ?_⟩
      · rw [rank, above_rank_pred]
        exact .operation kind known leftDerived rightDerived
      · rw [unplaced] at leftBare rightBare
        rw [unplaced, unplaced, relocate, relocate, leftBare, rightBare]
        rfl
  | .negation operand _, wf, ts, same => by
      obtain ⟨t, rest, rfl, kind, -, others⟩ := tokens_of_cons same
      obtain ⟨e', derived, bare⟩ :=
        (Expr.spells (e := operand) wf).grouped (n := 4) (by omega) rest others
      refine ⟨_, .negation kind derived, ?_⟩
      rw [unplaced] at bare
      rw [unplaced, unplaced, relocate, relocate, bare]
      rfl

theorem Expr.spellsAll : ∀ {es : List Expr}, Expr.AllWellFormed es → es = [] ∨
    Spells Expressions (Expr.relocate.relocateAll .forget) (Expr.lexemesAll es) es
  | [], _ => .inl rfl
  | [e], ⟨wf, _⟩ => by
      refine .inr fun ts same => ?_
      obtain ⟨e', derived, bare⟩ := (Expr.spells wf).loosen (Nat.zero_le _) ts same
      exact ⟨[e'], .last derived, congrArg (fun e => [e]) bare⟩
  | e :: next :: rest, ⟨wf, others⟩ => by
      refine .inr fun ts same => ?_
      obtain ⟨front, behind, rfl, first, more⟩ := List.map_eq_append_iff.mp same
      obtain ⟨comma, back, rfl, kind, -, last⟩ := tokens_of_cons more
      obtain ⟨e', derived, bare⟩ := (Expr.spells wf).loosen (Nat.zero_le _) front first
      have spelled := (Expr.spellsAll others).resolve_left (List.cons_ne_nil _ _)
      obtain ⟨es', derivedAll, bareAll⟩ := spelled back last
      refine ⟨e' :: es', .more derived kind derivedAll, ?_⟩
      rw [unplaced] at bare
      rw [relocate.relocateAll, relocate.relocateAll, bare, bareAll]
      rfl

end

namespace Grammar

/-- A body in braces. -/
theorem Spells.braced {ls : List Lexeme} {body : List Stmt}
    (inner : Spells Lines (Stmt.relocate.relocateAll .forget) ls body)
    {ts : List Token} (same : ts.map Token.lexeme = Lexeme.braced ls) :
    ∃ body' pos, Block ts body' pos ∧ Stmt.relocate.relocateAll .forget body' =
      Stmt.relocate.relocateAll .forget body := by
  obtain ⟨opening, mid, closing, rfl, opens, middle, closes⟩ := tokens_of_enclosed same
  obtain ⟨body', derived, bare⟩ := inner mid middle
  exact ⟨body', opening.pos, .braces opens derived closes, bare⟩

/-- An alternative that is there or not. -/
def Spells.Other (other : Option Stmt) : Prop :=
  ∀ s ∈ other, Spells Alternative Stmt.unplaced s.lexemes s

/-- What follows the word that opens a loop or a branch. -/
theorem Spells.clause {c : Parser.Clause} {ls : List Lexeme} (wf : c.condition.WellFormed)
    (body : Spells Lines (Stmt.relocate.relocateAll .forget) ls c.body)
    (other : Spells.Other c.alternative) :
    Spells Clause (relocateClause .forget)
      (c.condition.lexemes ++ Lexeme.braced ls ++ Stmt.lexemesOther c.alternative) c := by
  intro ts same
  obtain ⟨front, back, rfl, before, behind⟩ := List.map_eq_append_iff.mp same
  obtain ⟨first, braces, rfl, conditionLexemes, bodyLexemes⟩ := List.map_eq_append_iff.mp before
  obtain ⟨condition', derived, bare⟩ :=
    (Expr.spells wf).loosen (Nat.zero_le _) first conditionLexemes
  obtain ⟨body', pos, block, bareBody⟩ := body.braced bodyLexemes
  rw [Expr.unplaced] at bare
  obtain ⟨condition, body, bodyPos, alternative⟩ := c
  cases alternative with
  | none =>
      rw [List.map_eq_nil_iff.mp behind, List.append_nil]
      refine ⟨_, .plain derived block, ?_⟩
      simp only [relocateClause, bare, bareBody]
      rfl
  | some s =>
      obtain ⟨word, last, rfl, kind, -, lexemes⟩ := tokens_of_cons behind
      obtain ⟨s', chosen, bareOther⟩ := other s rfl last lexemes
      refine ⟨_, .otherwise derived block kind chosen, ?_⟩
      rw [Stmt.unplaced] at bareOther
      simp only [relocateClause, bare, bareBody, Stmt.relocate.relocateOpt, bareOther]
      rfl

/-- A branch, as a line or as an alternative. -/
theorem Spells.branch {condition : Expr} {body : List Stmt} {bodyPos pos : Position}
    {alternative : Option Stmt} (wf : condition.WellFormed)
    (inner : Spells Lines (Stmt.relocate.relocateAll .forget) (Stmt.lexemesAll body) body)
    (other : Spells.Other alternative) {ts : List Token}
    (same : ts.map Token.lexeme = (Stmt.branch condition body bodyPos alternative pos).lexemes) :
    ∃ word rest c, ts = word :: rest ∧ word.kind = .ifWord ∧ Clause rest c ∧
      (Stmt.branch c.condition c.body c.bodyPos c.alternative word.pos).unplaced =
        (Stmt.branch condition body bodyPos alternative pos).unplaced := by
  obtain ⟨word, rest, rfl, kind, -, others⟩ := tokens_of_cons same
  obtain ⟨c, derived, bare⟩ :=
    Spells.clause (c := ⟨condition, body, bodyPos, alternative⟩) wf inner other rest others
  simp only [relocateClause, Parser.Clause.mk.injEq] at bare
  refine ⟨word, rest, c, rfl, kind, derived, ?_⟩
  simp only [Stmt.unplaced, Stmt.relocate, bare, Position.forget]

/-- A loop is a line. -/
theorem Spells.loop {word : Text} {condition : Expr} {body : List Stmt} {bodyPos pos : Position}
    {alternative : Option Stmt} {ls : List Lexeme} (wf : condition.WellFormed)
    (inner : Spells Lines (Stmt.relocate.relocateAll .forget) ls body)
    (other : Spells.Other alternative) :
    Spells (fun ts s => Line ts [s]) Stmt.unplaced
      (⟨.loopWord, word⟩ :: condition.lexemes ++ Lexeme.braced ls ++ Stmt.lexemesOther alternative)
      (.loop word condition body bodyPos alternative pos) := by
  intro ts same
  obtain ⟨t, rest, rfl, kind, rfl, others⟩ := tokens_of_cons same
  obtain ⟨c, derived, bare⟩ :=
    Spells.clause (c := ⟨condition, body, bodyPos, alternative⟩) wf inner other rest others
  simp only [relocateClause, Parser.Clause.mk.injEq] at bare
  exact ⟨_, .loop kind derived, by simp only [Stmt.unplaced, Stmt.relocate, bare, Position.forget]⟩

/-- A statement on a line of its own. -/
theorem Spells.line {ls : List Lexeme} {s : Stmt}
    (one : Spells (fun ts s => Line ts [s]) Stmt.unplaced ls s) :
    Spells Lines (Stmt.relocate.relocateAll .forget) ls [s] := by
  intro ts same
  obtain ⟨s', line, bare⟩ := one ts same
  exact ⟨[s'], line.lines, congrArg (fun s => [s]) bare⟩

/-- A semicolon may stand between statements. -/
theorem Spells.separated {ls ms : List Lexeme} {ss us : List Stmt}
    (first : Spells Lines (Stmt.relocate.relocateAll .forget) ls ss)
    (second : Spells Lines (Stmt.relocate.relocateAll .forget) ms us) :
    Spells Lines (Stmt.relocate.relocateAll .forget) (ls ++ .semicolon :: ms) (ss ++ us) := by
  intro ts same
  obtain ⟨front, behind, rfl, before, after⟩ := List.map_eq_append_iff.mp same
  obtain ⟨semicolon, back, rfl, kind, -, last⟩ := tokens_of_cons after
  obtain ⟨ss', lines, bare⟩ := first front before
  obtain ⟨us', others, bareOthers⟩ := second back last
  refine ⟨ss' ++ us', lines.append (.cons (.lone kind) others), ?_⟩
  simp only [Stmt.relocateAll_eq, List.map_append] at bare bareOthers ⊢
  rw [bare, bareOthers]

end Grammar

mutual

/-- Tokens with the lexemes of a statement are a line with that statement. -/
theorem Stmt.spells : ∀ {s : Stmt}, s.WellFormed →
    Spells (fun ts s => Line ts [s]) Stmt.unplaced s.lexemes s
  | .assign _ _ _, ⟨_, wf⟩, ts, same => by
      obtain ⟨name, behind, rfl, kind, rfl, others⟩ := tokens_of_cons same
      obtain ⟨equals, rest, rfl, sign, -, lexemes⟩ := tokens_of_cons others
      obtain ⟨value, derived, bare⟩ := (Expr.spells wf).loosen (Nat.zero_le _) rest lexemes
      have line := Line.assignment kind sign derived .nothing
      rw [List.append_nil] at line
      refine ⟨_, line, ?_⟩
      rw [Expr.unplaced] at bare
      rw [unplaced, unplaced, relocate, relocate, bare]
      rfl
  | .call _ _ _, ⟨_, wf⟩, ts, same => by
      obtain ⟨name, args, derived, rfl, bare⟩ := Spells.call (Expr.spellsAll wf) same
      have line := Line.call derived .nothing
      rw [List.append_nil] at line
      refine ⟨_, line, ?_⟩
      rw [unplaced, unplaced, relocate, relocate, bare]
      rfl
  | .loop _ _ _ _ _ _, ⟨_, wf, wfBody, wfOther⟩, ts, same =>
      Spells.loop wf (Stmt.spellsAll wfBody) (Stmt.spellsOther wfOther) ts same
  | .branch _ _ _ _ _, ⟨wf, wfBody, wfOther⟩, ts, same => by
      obtain ⟨word, rest, c, rfl, kind, derived, bare⟩ :=
        Spells.branch wf (Stmt.spellsAll wfBody) (Stmt.spellsOther wfOther) same
      exact ⟨_, .branch kind derived, bare⟩

theorem Stmt.spellsAll : ∀ {ss : List Stmt}, Stmt.AllWellFormed ss →
    Spells Lines (Stmt.relocate.relocateAll .forget) (Stmt.lexemesAll ss) ss
  | [], _, ts, same => by
      rw [List.map_eq_nil_iff.mp same]
      exact ⟨[], .nil, rfl⟩
  | s :: rest, ⟨wf, others⟩, ts, same => by
      obtain ⟨front, back, rfl, first, more⟩ := List.map_eq_append_iff.mp same
      obtain ⟨s', line, bare⟩ := Stmt.spells wf front first
      obtain ⟨ss', lines, bareAll⟩ := Stmt.spellsAll others back more
      refine ⟨[s'] ++ ss', .cons line lines, ?_⟩
      rw [unplaced] at bare
      simp only [List.cons_append, List.nil_append, relocate.relocateAll, bare, bareAll]
      rfl

theorem Stmt.spellsOther : ∀ {other : Option Stmt}, Stmt.OtherWellFormed other → Spells.Other other
  | none, _ => nofun
  | some (.block body pos), wf => by
      rintro _ ⟨⟩ ts same
      obtain ⟨body', pos', block, bare⟩ := (Stmt.spellsAll (show Stmt.AllWellFormed body from wf)).braced same
      exact ⟨_, .block block, by simp only [unplaced, relocate, bare, Position.forget]⟩
  | some (.branch _ _ _ _ _), ⟨wf, wfBody, wfOther⟩ => by
      rintro _ ⟨⟩ ts same
      obtain ⟨word, rest, c, rfl, kind, derived, bare⟩ :=
        Spells.branch wf (Stmt.spellsAll wfBody) (Stmt.spellsOther wfOther) same
      exact ⟨_, .branch kind derived, bare⟩

end

/-! ## Printing and compiling -/

/-- **A program that is printed and compiled is the program that was printed, but for its positions.** -/
theorem Program.compile_print {p : Program} (wf : Stmt.AllWellFormed p) :
    ∃ script, Script.compile p.print = .ok script ∧ script.program.unplaced = p.unplaced := by
  have lexemes : (Token.tokens p.print).map Token.lexeme = Stmt.lexemesAll p :=
    Token.tokens_spaced (Stmt.lexemesAll_stand wf)
  obtain ⟨q, lines, bare⟩ := Stmt.spellsAll wf _ lexemes
  rw [Stmt.relocateAll_eq, Stmt.relocateAll_eq] at bare
  exact ⟨⟨p.print, q⟩, Script.compile_eq_ok.mpr ⟨Program.read_eq_ok.mpr lines, rfl⟩, bare⟩

/-- A program with what needs care: an operation on the right of another of its level, one that is
negated, strings that hold the other quote, a hash sign, a brace and a line feed, and a loop with an
alternative that has one itself. -/
def Program.intricate : Program :=
  let here : Position := .start
  let name (id : String) : Expr := .name (utf8 id) here
  let literal (kind : LiteralKind) (text : String) : Expr := .literal kind (utf8 text) here
  [.loop (utf8 "until")
    (.binary .boolean .xor
      (.negation (.binary .comparison .eq (name "a") (literal .integer "1") here) here) (name "b") here)
    [.assign (utf8 "x") (.binary .additive .sub (name "a")
        (.binary .additive .sub (name "b") (literal .float "2.50") here) here) here,
      .call (utf8 "say") [literal .string "'\"#\x7b'", .call (utf8 "f") [] here] here]
    here
    (some (.branch (literal .null "null") [] here
      (some (.block [.assign (utf8 "y") (literal .string "\"'\n\"") here] here)) here))
    here]

theorem Program.intricate_wellFormed : Stmt.AllWellFormed intricate := by
  have names : ∀ id ∈ [utf8 "a", utf8 "b", utf8 "x", utf8 "say", utf8 "f", utf8 "y"], id.IsName := by
    intro id member
    simp only [List.mem_cons, List.not_mem_nil, or_false] at member
    rcases member with rfl | rfl | rfl | rfl | rfl | rfl <;>
      exact ⟨⟨_, _, rfl, by decide, by decide +kernel⟩, by decide⟩
  have one : LiteralKind.Spelled .integer (utf8 "1") := .integer ⟨by decide, by decide +kernel⟩
  have decimal : LiteralKind.Spelled .float (utf8 "2.50") :=
    @LiteralKind.Spelled.float (utf8 "2") (utf8 "50") ⟨by decide, by decide +kernel⟩
      ⟨by decide, by decide +kernel⟩
  have single : LiteralKind.Spelled .string (utf8 "'\"#\x7b'") :=
    @LiteralKind.Spelled.string 39 (utf8 "\"#\x7b") (by decide) (by decide)
  have double : LiteralKind.Spelled .string (utf8 "\"'\n\"") :=
    @LiteralKind.Spelled.string 34 (utf8 "'\n") (by decide) (by decide)
  -- The loop with its condition, its two statements, and the branch behind it with its two bodies.
  refine ⟨⟨.inr rfl, ⟨rfl, ⟨rfl, ?_, one⟩, ?_⟩, ⟨⟨?_, rfl, ?_, rfl, ?_, decimal⟩,
    ⟨?_, single, ⟨?_, trivial⟩, trivial⟩, trivial⟩, .null, trivial, ⟨?_, double⟩, trivial⟩, trivial⟩
  all_goals exact names _ (by decide)

/-- The program, the text that is printed for it, and what that text is read as. -/
theorem Program.compile_print_intricate :
    Stmt.AllWellFormed intricate ∧
    intricate.print = utf8 ("until ! ( a == 1 ) xor b \x7b x = a - ( b - 2.50 ) " ++
      "say ( '\"#\x7b' , f ( ) ) \x7d else if null \x7b \x7d else \x7b y = \"'\n\" \x7d") ∧
    ∃ script, Script.compile intricate.print = .ok script ∧ script.program.unplaced = intricate.unplaced :=
  ⟨intricate_wellFormed, by decide +kernel, compile_print intricate_wellFormed⟩

end LoopScript
