/-
# LoopScript.Proofs.WellFormed — what is read is well formed, and runs into no branch kept for trees by hand

The evaluator takes any tree, also one that no source has: with an operator in a node of another level,
with a literal of no kind, or with a literal whose text is none of its kind. For these it has errors of
its own. A tree that was read has none of them (`Program.wellFormed_of_read`). The shapes of the tokens
(`LoopScript.Proofs.Token.Shape`) say what names, literals and loop words look like, and the grammar says
the rest: which operators a node can have, and where blocks stand.

`Cause.Ordinary` lists what is left for a run to end in, where calls display. A literal can then be at
fault in one way only: an integer is made of digits, so it is refused just when it is too large
(`Decimal.integer?_eq_none`). `compiled_wellFormed` states both, the second in the words of the errors.
-/
import LoopScript.Proofs.Decimal.Numeral
import LoopScript.Proofs.Eval.Relocation
import LoopScript.Proofs.Token.Shape

namespace LoopScript

set_option autoImplicit false

/-! ## Trees that are read -/

theorem Expr.AllWellFormed.of_mem : ∀ {es : List Expr}, AllWellFormed es → ∀ e ∈ es, e.WellFormed
  | _ :: _, all, e, member => by
      rcases List.mem_cons.mp member with rfl | member
      · exact all.1
      · exact of_mem all.2 e member

theorem Stmt.AllWellFormed.of_mem : ∀ {ss : List Stmt}, AllWellFormed ss → ∀ s ∈ ss, s.WellFormed
  | _ :: _, all, s, member => by
      rcases List.mem_cons.mp member with rfl | member
      · exact all.1
      · exact of_mem all.2 s member

theorem Stmt.AllWellFormed.append : ∀ {ss us : List Stmt}, AllWellFormed ss → AllWellFormed us →
    AllWellFormed (ss ++ us)
  | [], _, _, second => second
  | _ :: _, _, first, second => ⟨first.1, first.2.append second⟩

namespace Grammar

def AllShaped (ts : List Token) : Prop := ∀ t ∈ ts, t.Shaped

theorem AllShaped.parts {ts us : List Token} (all : AllShaped (ts ++ us)) : AllShaped ts ∧ AllShaped us :=
  List.forall_mem_append.mp all

theorem AllShaped.uncons {t : Token} {ts : List Token} (all : AllShaped (t :: ts)) :
    t.Shaped ∧ AllShaped ts :=
  List.forall_mem_cons.mp all

/-- A token that is a literal is spelled as its kind asks. -/
theorem Constant.spelled {kind : Token.Kind} {literal : LiteralKind} {text : Text}
    (constant : Constant kind literal) (shaped : kind.Shaped text) : literal.Spelled text := by
  cases constant <;> exact shaped

mutual

theorem Expression.wellFormed {s : Stratum} {ts : List Token} {e : Expr} :
    Expression s ts e → AllShaped ts → e.WellFormed
  | .operand derived, shaped => derived.wellFormed shaped
  | .operation _ known left right, shaped => by
      obtain ⟨first, second⟩ := shaped.parts
      exact ⟨known, left.wellFormed first, right.wellFormed second.uncons.2⟩
  | .plain derived, shaped => derived.wellFormed shaped
  | .negation _ derived, shaped => derived.wellFormed shaped.uncons.2
  | .constant constant, shaped => constant.spelled shaped.uncons.1
  | .name kind, shaped => shaped.uncons.1.as kind
  | .call derived, shaped => derived.wellFormed shaped
  | .group _ derived _, shaped => derived.wellFormed shaped.parts.1.uncons.2

theorem Expressions.wellFormed {ts : List Token} {es : List Expr} :
    Expressions ts es → AllShaped ts → Expr.AllWellFormed es
  | .last derived, shaped => ⟨derived.wellFormed shaped, trivial⟩
  | .more derived _ more, shaped => by
      obtain ⟨first, others⟩ := shaped.parts
      exact ⟨derived.wellFormed first, more.wellFormed others.uncons.2⟩

theorem Call.wellFormed {ts : List Token} {name : Token} {args : List Expr} :
    Call ts name args → AllShaped ts → name.text.IsName ∧ Expr.AllWellFormed args
  | .empty kind _ _, shaped => ⟨shaped.uncons.1.as kind, trivial⟩
  | .arguments kind _ derived _, shaped => by
      obtain ⟨name, behind⟩ := shaped.parts.1.uncons
      exact ⟨name.as kind, derived.wellFormed behind.uncons.2⟩

end

mutual

theorem Line.wellFormed {ts : List Token} {one : List Stmt} :
    Line ts one → AllShaped ts → Stmt.AllWellFormed one
  | .lone _, _ => trivial
  | .assignment kind _ value _, shaped => by
      obtain ⟨name, behind⟩ := shaped.parts.1.uncons
      exact ⟨⟨name.as kind, value.wellFormed behind.uncons.2⟩, trivial⟩
  | .call derived _, shaped => ⟨derived.wellFormed shaped.parts.1, trivial⟩
  | .branch _ derived, shaped => ⟨derived.wellFormed shaped.uncons.2, trivial⟩
  | .loop kind derived, shaped => by
      obtain ⟨word, behind⟩ := shaped.uncons
      exact ⟨⟨word.as kind, derived.wellFormed behind⟩, trivial⟩

theorem Lines.wellFormed {ts : List Token} {p : List Stmt} :
    Lines ts p → AllShaped ts → Stmt.AllWellFormed p
  | .nil, _ => trivial
  | .cons line lines, shaped => by
      obtain ⟨first, others⟩ := shaped.parts
      exact (line.wellFormed first).append (lines.wellFormed others)

theorem Block.wellFormed {ts : List Token} {body : List Stmt} {pos : Position} :
    Block ts body pos → AllShaped ts → Stmt.AllWellFormed body
  | .braces _ derived _, shaped => derived.wellFormed shaped.parts.1.uncons.2

theorem Clause.wellFormed {ts : List Token} {c : Parser.Clause} : Clause ts c → AllShaped ts →
    c.condition.WellFormed ∧ Stmt.AllWellFormed c.body ∧ Stmt.OtherWellFormed c.alternative
  | .plain condition body, shaped => by
      obtain ⟨first, second⟩ := shaped.parts
      exact ⟨condition.wellFormed first, body.wellFormed second, trivial⟩
  | .otherwise condition body _ other, shaped => by
      obtain ⟨front, behind⟩ := shaped.parts
      obtain ⟨first, second⟩ := front.parts
      exact ⟨condition.wellFormed first, body.wellFormed second, other.wellFormed behind.uncons.2⟩

theorem Alternative.wellFormed {ts : List Token} {s : Stmt} :
    Alternative ts s → AllShaped ts → Stmt.OtherWellFormed (some s)
  | .block body, shaped => body.wellFormed shaped
  | .branch _ derived, shaped => derived.wellFormed shaped.uncons.2

end

end Grammar

/-- A program that was read is well formed. -/
theorem Program.wellFormed_of_read {source : Text} {p : Program} (read : Program.read source = .ok p) :
    Stmt.AllWellFormed p :=
  (Program.read_eq_ok.mp read).wellFormed fun _ member => Token.shaped_of_mem_tokens member

/-! ## What is left to fail -/

/-- Digits are refused as an integer only if their value does not fit. -/
theorem Decimal.integer?_eq_none {t : Text} (numeral : t.IsNumeral) (refused : integer? t = none) :
    integerLimit ≤ Text.decimalValue t := by
  rw [integer?_of_numeral numeral] at refused
  split at refused
  · cases refused
  · next large => exact Nat.not_lt.mp large

/-- What a run of a well-formed program can end in, where calls display: a fault, something that can be
written but not run, a number that does not fit, or a write that the sink refuses. -/
def Cause.Ordinary : Cause → Prop
  | .fault _ => True
  | .unsupported (.additive _) => False
  | .unsupported (.literal _) => False
  | .unsupported (.comparison op) => op.level? = some .comparison
  | .unsupported _ => True
  | .invalidInteger text => text.IsNumeral ∧ Decimal.integerLimit ≤ Text.decimalValue text
  | .invalidFloat text => LiteralKind.float.Spelled text
  | .host kind message => kind = .other ∧ ∃ refusal, message = (Host.refused refusal).message

namespace Eval

theorem literal_ordinary {kind : LiteralKind} {text : Text} {cause : Cause}
    (spelled : kind.Spelled text) (failed : literal kind text = .error cause) : cause.Ordinary := by
  cases spelled with
  | integer numeral =>
      simp only [literal] at failed
      split at failed
      · cases failed
      · next refused =>
          cases failed
          exact ⟨numeral, Decimal.integer?_eq_none numeral refused⟩
  | float whole fraction =>
      simp only [literal] at failed
      split at failed
      · cases failed
      · cases failed
        exact .float whole fraction
  | string | bool | null => cases failed

/-- A well-formed expression ends in ordinary errors only. -/
theorem Raises.ordinary {env : Env} {e : Expr} {cause : Cause} {place : Position}
    (raised : Raises env e cause place) : e.WellFormed → cause.Ordinary := by
  induction raised with
  | literal failed => exact fun spelled => literal_ordinary spelled failed
  | argument member _ ih => exact fun wf => ih (wf.2.of_mem _ member)
  | left _ _ ih => exact fun wf => ih wf.2.1
  | right _ _ ih => exact fun wf => ih wf.2.2
  | @additive op _ _ _ notAdd notJoin notSub =>
      intro wf
      have level : op.level? = some .additive := wf.1
      cases op <;> contradiction
  | comparison => exact fun wf => wf.1
  | refused refusal => exact fun _ => ⟨rfl, refusal, rfl⟩
  | unbound | unboundCallee | notAFunction | operands | product | boolean | negation =>
      exact fun _ => trivial

/-- A well-formed statement, or alternative, ends in ordinary errors only. -/
theorem StmtRaises.ordinary {I : Env → Prop} {s : Stmt} {cause : Cause} {place : Position}
    (raised : StmtRaises I s cause place) :
    s.WellFormed ∨ Stmt.OtherWellFormed (some s) → cause.Ordinary := by
  induction raised with
  | value _ raised =>
      rintro (wf | wf)
      · exact raised.ordinary wf.2
      · exact wf.elim
  | call _ raised =>
      rintro (wf | wf)
      · exact raised.ordinary wf
      · exact wf.elim
  | block member _ ih =>
      rintro (wf | wf)
      · exact wf.elim
      · exact ih (.inl (Stmt.AllWellFormed.of_mem wf _ member))
  | condition _ raised =>
      rintro (wf | wf)
      · exact raised.ordinary wf.2.1
      · exact wf.elim
  | test => exact fun _ => trivial
  | body member _ ih =>
      rintro (wf | wf)
      · exact ih (.inl (wf.2.2.1.of_mem _ member))
      · exact wf.elim
  | alternative _ ih =>
      rintro (wf | wf)
      · exact ih (.inr wf.2.2.2)
      · exact wf.elim
  | branch => exact fun _ => trivial

end Eval

/-! ## In the words of the errors -/

/-- Texts with two different bytes at one place are different. -/
theorem Text.ne_of_byte (i : Nat) {s t : Text} {b c : UInt8} (first : s[i]? = some b)
    (second : t[i]? = some c) (differ : b ≠ c) : s ≠ t := by
  rintro rfl
  rw [first] at second
  exact differ (Option.some.inj second)

/-- What can be written but not run, in trees that are well formed. -/
def Unsupported.ordinary : List Unsupported :=
  [.product, .boolean, .negation, .branch, .comparison .eq, .comparison .ne, .comparison .lt,
    .comparison .le, .comparison .gt, .comparison .ge]

namespace Cause.Ordinary

/-- An ordinary cause that is about neither a literal nor something that cannot be run is worded with a
first letter of its own. -/
theorem worded {cause : Cause} (ordinary : cause.Ordinary) :
    (∃ u ∈ Unsupported.ordinary, cause.message = u.message) ∨
    (∃ text, cause.message = utf8 "invalid integer literal " ++ text ∧ text.IsNumeral ∧
      Decimal.integerLimit ≤ Text.decimalValue text) ∨
    (∃ text, cause.message = utf8 "invalid float literal " ++ text) ∨
    ∃ b ∈ utf8 "vfcD", cause.message[0]? = some b := by
  cases cause with
  | fault f =>
      refine .inr (.inr (.inr ?_))
      cases f with
      | unboundVariable | notAFunction | notABoolean => exact ⟨118, by decide, rfl⟩
      | unboundFunction => exact ⟨102, by decide, rfl⟩
      | cannotAdd | cannotSubtract | cannotCompare => exact ⟨99, by decide, rfl⟩
  | unsupported u =>
      refine .inl ⟨u, ?_, rfl⟩
      cases u with
      | product | boolean | negation | branch => decide
      | additive | literal => exact ordinary.elim
      | comparison op =>
          have level : op.level? = some .comparison := ordinary
          cases op with
          | eq | ne | lt | le | gt | ge => decide
          | _ => cases level
  | invalidInteger text => exact .inr (.inl ⟨text, rfl, ordinary⟩)
  | invalidFloat text => exact .inr (.inr (.inl ⟨text, rfl⟩))
  | host kind message =>
      obtain ⟨-, refusal, rfl⟩ := ordinary
      exact .inr (.inr (.inr ⟨68, by decide, rfl⟩))

/-- The words of an ordinary cause are none of those kept for trees by hand. -/
theorem not_defensive {cause : Cause} (ordinary : cause.Ordinary) :
    (∀ op, cause.message ≠ utf8 "unsupported additive operator " ++ op) ∧
    (∀ kind, cause.message ≠ utf8 "unsupported " ++ kind ++ utf8 " literal") ∧
    ∀ text, cause.message = utf8 "invalid integer literal " ++ text →
      text.IsNumeral ∧ Decimal.integerLimit ≤ Text.decimalValue text := by
  have texts : ∀ u ∈ Unsupported.ordinary, u.message[0]? = some 117 ∧
      ¬ utf8 "unsupported additive operator " <+: u.message ∧ ¬ utf8 " literal" <:+ u.message := by
    decide +kernel
  have letters : ∀ b ∈ utf8 "vfcD", b ≠ 117 ∧ b ≠ 105 := by decide +kernel
  have additive (op : Text) : (utf8 "unsupported additive operator " ++ op)[0]? = some 117 := rfl
  have literal (kind : Text) : (utf8 "unsupported " ++ kind ++ utf8 " literal")[0]? = some 117 := rfl
  have integer (text : Text) : (utf8 "invalid integer literal " ++ text)[0]? = some 105 := rfl
  have float (text : Text) : (utf8 "invalid float literal " ++ text)[0]? = some 105 := rfl
  rcases ordinary.worded with ⟨u, listed, same⟩ | ⟨text, same, large⟩ | ⟨text, same⟩ | ⟨b, listed, head⟩
  · obtain ⟨head, begins, ends⟩ := texts u listed
    rw [same]
    refine ⟨fun op other => begins ⟨op, other.symm⟩, fun kind other => ends ⟨_, other.symm⟩, ?_⟩
    intro text other
    exact absurd other (Text.ne_of_byte 0 head (integer text) (by decide))
  · rw [same]
    refine ⟨fun op => Text.ne_of_byte 0 (integer text) (additive op) (by decide),
      fun kind => Text.ne_of_byte 0 (integer text) (literal kind) (by decide), fun other equal => ?_⟩
    rw [← List.append_cancel_left equal]
    exact large
  · rw [same]
    refine ⟨fun op => Text.ne_of_byte 0 (float text) (additive op) (by decide),
      fun kind => Text.ne_of_byte 0 (float text) (literal kind) (by decide), fun other equal => ?_⟩
    exact absurd equal (Text.ne_of_byte 8 (b := 102) (c := 105) rfl rfl (by decide))
  · obtain ⟨notUnsupported, notInvalid⟩ := letters b listed
    refine ⟨fun op => Text.ne_of_byte 0 head (additive op) notUnsupported,
      fun kind => Text.ne_of_byte 0 head (literal kind) notUnsupported, fun text equal => ?_⟩
    exact absurd equal (Text.ne_of_byte 0 head (integer text) notInvalid)

end Cause.Ordinary

namespace Script

/-- **What compiles is well formed, and its runs never end in an error kept for trees made by hand.** In
the tree of a source that compiles names are names and not reserved, literals have texts of their kinds,
operators stand in nodes of their levels, loops are opened by one of the two words for it, and a block
stands only as a body or as an alternative, which else is a branch. So no run of it, from any state in
which the only functions are those that display, ends in an error about an additive operator or about a
kind of literal; and if it ends in an error about an integer, then that is digits whose value is `2 ^ 63`
or more. -/
theorem compiled_wellFormed {source : Text} {script : Script}
    (compiled : Script.compile source = .ok script) :
    Stmt.AllWellFormed script.program ∧
    ∀ (budget : Nat) (x y : Execution) (e : RuntimeError), x.env.Plain →
      script.run budget x = .error e y →
        (∀ op, e.detail ≠ utf8 "unsupported additive operator " ++ op) ∧
        (∀ kind, e.detail ≠ utf8 "unsupported " ++ kind ++ utf8 " literal") ∧
        ∀ text, e.detail = utf8 "invalid integer literal " ++ text →
          text.IsNumeral ∧ Decimal.integerLimit ≤ Text.decimalValue text := by
  obtain ⟨read, -⟩ := compile_eq_ok.mp compiled
  have wellFormed := Program.wellFormed_of_read read
  refine ⟨wellFormed, fun budget x y e plain ran => ?_⟩
  obtain ⟨z, ended, -⟩ := runWith_eq_error ran
  have met := Eval.meets_stmts (fun _ plain => plain) (Host.host_tame_spent budget) budget script.program
    { x with source := some script.source } plain fun n _ => Eval.plain_assignable n
  rw [ended] at met
  obtain ⟨⟨s, member, raised⟩, -⟩ := met
  exact (raised.ordinary (.inl (wellFormed.of_mem s member))).not_defensive

/-- A loop with every kind of literal and a branch as its alternative; the number in its body has leading
zeros and is too large by one. -/
def oversized : Text :=
  utf8 "_n1 = 7\nuntil _n1 < 3 \x7b\n  n = '\"' & 0009223372036854775808;\n\x7d else if !true * null \x7b\x7d else \x7b f(2.50) \x7d"

/-- The tree is well formed, and the run ends at the number. -/
theorem compiled_wellFormed_oversized :
    ∃ (script : Script) (e : RuntimeError) (y : Execution),
      Script.compile oversized = .ok script ∧ Stmt.AllWellFormed script.program ∧
      Engine.initial.builtins.Plain ∧
      script.run 2 (Engine.initial.newExecution (.empty none)) = .error e y ∧
      e.detail = utf8 "invalid integer literal " ++ utf8 "0009223372036854775808" ∧
      (utf8 "0009223372036854775808").IsNumeral ∧
      Decimal.integerLimit ≤ Text.decimalValue (utf8 "0009223372036854775808") := by
  have computed : ((Script.compile oversized).toOption.any fun script =>
      (script.run 2 (Engine.initial.newExecution (.empty none))).failed.any fun ended =>
        decide (ended.1.detail = utf8 "invalid integer literal " ++ utf8 "0009223372036854775808")) =
          true := by decide +kernel
  obtain ⟨script, found, checked⟩ := (Option.any_eq_true _ _).mp computed
  obtain ⟨⟨e, y⟩, failed, worded⟩ := (Option.any_eq_true _ _).mp checked
  have compiled := toOption_compile.mp found
  have ran := Outcome.failed_eq_some.mp failed
  have detail := of_decide_eq_true worded
  obtain ⟨wellFormed, runs⟩ := compiled_wellFormed compiled
  obtain ⟨-, -, large⟩ := runs 2 _ y e .initial ran
  exact ⟨script, e, y, compiled, wellFormed, .initial, ran, detail, large _ detail⟩

end Script

end LoopScript
