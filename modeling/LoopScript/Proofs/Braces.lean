/-
# LoopScript.Proofs.Braces — the count of open braces agrees with the grammar

Braces stand only around bodies, in pairs (`Grammar.Lines.balanced`), so the tokens of a program open as
many braces as they close, and no beginning of them closes more than it opens. Since a source that is cut
off anywhere has no brace of its own (`Token.tokens_cut`), the same holds for the beginnings of the source
itself, byte for byte.

An interactive session waits for more lines while braces are open. It therefore never waits where the
lines so far are a program, and a text that closes too many braces is the beginning of none.
-/
import LoopScript.Console.Basic
import LoopScript.Proofs.Parser
import LoopScript.Proofs.Token.Cut

namespace LoopScript

set_option autoImplicit false

namespace Token

/-! ## Counting -/

/-- What a token adds to the number of open braces. -/
def opens (t : Token) : Int :=
  match t.kind with
  | .openBrace => 1
  | .closeBrace => -1
  | _ => 0

theorem opens_openBrace {t : Token} (kind : t.kind = .openBrace) : t.opens = 1 := by
  rw [opens, kind]

theorem opens_closeBrace {t : Token} (kind : t.kind = .closeBrace) : t.opens = -1 := by
  rw [opens, kind]

theorem Braceless.opens_eq_zero {t : Token} (braceless : t.Braceless) : t.opens = 0 := by
  obtain ⟨notOpening, notClosing⟩ := braceless
  unfold opens
  split
  · next kind => exact absurd kind notOpening
  · next kind => exact absurd kind notClosing
  · rfl

theorem openBracesOf_eq_foldl (ts : List Token) :
    openBracesOf ts = ts.foldl (fun depth t => depth + t.opens) 0 := by
  unfold openBracesOf
  congr
  funext depth t
  unfold opens
  cases t.kind with
  | openBrace | closeBrace => rfl
  | _ => exact (Int.add_zero depth).symm

/-- Counting on from a depth adds the count to that depth. -/
theorem foldl_opens (ts : List Token) (depth : Int) :
    ts.foldl (fun depth t => depth + t.opens) depth = depth + openBracesOf ts := by
  rw [openBracesOf_eq_foldl]
  induction ts generalizing depth with
  | nil => exact (Int.add_zero depth).symm
  | cons t rest ih =>
      rw [List.foldl_cons, List.foldl_cons, ih (depth + t.opens), ih (0 + t.opens)]
      omega

@[simp]
theorem openBracesOf_nil : openBracesOf [] = 0 := rfl

@[simp]
theorem openBracesOf_cons (t : Token) (ts : List Token) :
    openBracesOf (t :: ts) = t.opens + openBracesOf ts := by
  rw [openBracesOf_eq_foldl, List.foldl_cons, foldl_opens, Int.zero_add]

@[simp]
theorem openBracesOf_append (ts us : List Token) :
    openBracesOf (ts ++ us) = openBracesOf ts + openBracesOf us := by
  rw [openBracesOf_eq_foldl, List.foldl_append, foldl_opens, ← openBracesOf_eq_foldl]

theorem openBracesOf_braceless {ts : List Token} (braceless : ∀ t ∈ ts, t.Braceless) :
    openBracesOf ts = 0 := by
  induction ts with
  | nil => rfl
  | cons t rest ih =>
      obtain ⟨first, others⟩ := List.forall_mem_cons.mp braceless
      simp [first.opens_eq_zero, ih others]

/-! ## Balance -/

/-- As many braces are closed as are opened, and never more so far. -/
structure Balanced (ts : List Token) : Prop where
  closed : openBracesOf ts = 0
  nonneg : ∀ us vs, ts = us ++ vs → 0 ≤ openBracesOf us

namespace Balanced

variable {ts us : List Token}

theorem of_braceless (braceless : ∀ t ∈ ts, t.Braceless) : Balanced ts := by
  refine ⟨openBracesOf_braceless braceless, ?_⟩
  rintro us vs rfl
  exact Int.le_of_eq
    (openBracesOf_braceless fun t inside => braceless t (List.mem_append_left vs inside)).symm

theorem nil : Balanced [] := of_braceless (List.forall_mem_nil _)

theorem append (first : Balanced ts) (second : Balanced us) : Balanced (ts ++ us) := by
  constructor
  · rw [openBracesOf_append, first.closed, second.closed, Int.add_zero]
  · intro beginning others split
    rcases List.append_eq_append_iff.mp split with ⟨more, rfl, same⟩ | ⟨more, same, rfl⟩
    · -- The beginning ends in the second part.
      have counted := second.nonneg more others same
      rw [openBracesOf_append, first.closed]
      omega
    · exact first.nonneg beginning more same

theorem cons {t : Token} (first : t.Braceless) (rest : Balanced ts) : Balanced (t :: ts) := by
  have single : Balanced [t] := of_braceless (by simpa using first)
  exact single.append rest

/-- A balanced sequence stays so between two braces. -/
theorem braced {opening closing : Token} (inner : Balanced ts) (opens : opening.kind = .openBrace)
    (closes : closing.kind = .closeBrace) : Balanced (opening :: ts ++ [closing]) := by
  have one := opens_openBrace opens
  have less := opens_closeBrace closes
  constructor
  · simp [one, less, inner.closed]
  · intro beginning others split
    cases beginning with
    | nil => simp
    | cons t more =>
        obtain ⟨rfl, inside⟩ := List.cons.inj split
        rw [openBracesOf_cons, one]
        rcases List.append_eq_append_iff.mp inside with ⟨last, rfl, same⟩ | ⟨last, same, rfl⟩
        · -- Only the closing brace can follow the inner sequence.
          rcases List.append_eq_singleton_iff.mp same.symm with ⟨rfl, -⟩ | ⟨rfl, -⟩
          · simp [inner.closed]
          · simp [inner.closed, less]
        · have counted := inner.nonneg more last same
          omega

end Balanced

end Token

/-! ## The grammar -/

namespace Grammar

open Token (Balanced braceless_of_kind)

theorem Constant.braceless {t : Token} {kind : LiteralKind} (constant : Constant t.kind kind) :
    t.Braceless := by
  cases same : t.kind with
  | openBrace | closeBrace =>
      rw [same] at constant
      cases constant
  | _ => exact braceless_of_kind same

mutual

/-- No brace stands in an expression. -/
theorem Expression.balanced {s : Stratum} {ts : List Token} {e : Expr} : Expression s ts e → Balanced ts
  | .operand operand => operand.balanced
  | .operation kind _ left right =>
      left.balanced.append (right.balanced.cons (braceless_of_kind kind))
  | .plain primary => primary.balanced
  | .negation kind operand => operand.balanced.cons (braceless_of_kind kind)
  | .constant constant => Balanced.nil.cons constant.braceless
  | .name kind => Balanced.nil.cons (braceless_of_kind kind)
  | .call call => call.balanced
  | .group opening inner closing =>
      (inner.balanced.cons (braceless_of_kind opening)).append
        (Balanced.nil.cons (braceless_of_kind closing))

theorem Expressions.balanced {ts : List Token} {es : List Expr} : Expressions ts es → Balanced ts
  | .last e => e.balanced
  | .more e comma rest =>
      e.balanced.append (rest.balanced.cons (braceless_of_kind comma))

theorem Call.balanced {ts : List Token} {name : Token} {args : List Expr} :
    Call ts name args → Balanced ts
  | .empty name opening closing =>
      ((Balanced.nil.cons (braceless_of_kind closing)).cons
        (braceless_of_kind opening)).cons (braceless_of_kind name)
  | .arguments name opening args closing =>
      ((args.balanced.cons (braceless_of_kind opening)).cons
        (braceless_of_kind name)).append
          (Balanced.nil.cons (braceless_of_kind closing))

end

theorem Ending.balanced {ts : List Token} : Ending ts → Balanced ts
  | .nothing => .nil
  | .semicolon kind => Balanced.nil.cons (braceless_of_kind kind)

mutual

theorem Line.balanced {ts : List Token} {ss : List Stmt} : Line ts ss → Balanced ts
  | .lone kind => Balanced.nil.cons (braceless_of_kind kind)
  | .assignment name equals value ending =>
      ((value.balanced.cons (braceless_of_kind equals)).cons
        (braceless_of_kind name)).append ending.balanced
  | .call call ending => call.balanced.append ending.balanced
  | .branch word clause => clause.balanced.cons (braceless_of_kind word)
  | .loop word clause => clause.balanced.cons (braceless_of_kind word)

/-- The braces of a program stand in pairs. -/
theorem Lines.balanced {ts : List Token} {ss : List Stmt} : Lines ts ss → Balanced ts
  | .nil => .nil
  | .cons line rest => line.balanced.append rest.balanced

theorem Block.balanced {ts : List Token} {body : List Stmt} {pos : Position} :
    Block ts body pos → Balanced ts
  | .braces opening body closing => body.balanced.braced opening closing

theorem Clause.balanced {ts : List Token} {c : Parser.Clause} : Clause ts c → Balanced ts
  | .plain condition body => condition.balanced.append body.balanced
  | .otherwise condition body word other =>
      (condition.balanced.append body.balanced).append
        (other.balanced.cons (braceless_of_kind word))

theorem Alternative.balanced {ts : List Token} {s : Stmt} : Alternative ts s → Balanced ts
  | .block block => block.balanced
  | .branch word clause => clause.balanced.cons (braceless_of_kind word)

end

end Grammar

namespace Script

open Token (openBraces)

theorem balanced_of_compile {source : Text} {script : Script} (compiled : compile source = .ok script) :
    Token.Balanced (Token.tokens source) :=
  (Program.read_eq_ok.mp (compile_eq_ok.mp compiled).1).balanced

/-- No beginning of a source that compiles closes more braces than it opens. -/
theorem openBraces_nonneg {a b : Text} {script : Script} (compiled : compile (a ++ b) = .ok script) :
    0 ≤ openBraces a := by
  obtain ⟨ts, us, vs, before, whole, braceless⟩ := Token.tokens_cut a b
  have counted := (balanced_of_compile compiled).nonneg ts vs whole
  rw [openBraces, before, Token.openBracesOf_append, Token.openBracesOf_braceless braceless]
  omega

/-- **The count of open braces agrees with the grammar.** A source that compiles has no brace open, and no
beginning of it, cut at any byte, closes more braces than it opens. So a session runs the lines it has, as
soon as together they compile, and does not wait for more; and no continuation of a text that closes too
many braces compiles. -/
theorem braces_agree (source : Text) :
    (∀ script, compile source = .ok script →
      openBraces source = 0 ∧ (∀ a b, source = a ++ b → 0 ≤ openBraces a) ∧
      ∀ (budget : Nat) (c : Console) (line : Text), Text.joinLines (c.pending ++ [line]) = source →
        c.addLine budget line =
          { c with pending := [], prompt := .main }.evaluate budget source) ∧
    (openBraces source < 0 → ∀ (more : Text) (script : Script), compile (source ++ more) ≠ .ok script) := by
  constructor
  · intro script compiled
    have closed : openBraces source = 0 := (balanced_of_compile compiled).closed
    refine ⟨closed, ?_, ?_⟩
    · rintro a b rfl
      exact openBraces_nonneg compiled
    · rintro budget c line rfl
      have none : ¬ 0 < openBraces (Text.joinLines (c.pending ++ [line])) := by omega
      simp only [Console.addLine, none, if_false]
  · intro negative more script compiled
    have counted := openBraces_nonneg compiled
    omega

/-- A loop that displays a closing brace and an accented letter. -/
def braced : Text := utf8 "while true \x7b DISPLAY(\"\x7dé\") \x7d"

/-- The loop compiles, so no brace is open at its end, and a cut inside the letter, which leaves the string
without an end, has none closed too many; while nothing that begins with a closing brace compiles. -/
theorem braces_agree_cut_letter :
    (∃ script, compile braced = .ok script) ∧ openBraces braced = 0 ∧ 0 ≤ openBraces (braced.take 24) ∧
      ∀ more script, compile (utf8 "\x7d" ++ more) ≠ .ok script := by
  have computed : (compile braced).toOption.isSome = true := by decide +kernel
  obtain ⟨script, found⟩ := Option.isSome_iff_exists.mp computed
  have compiled := toOption_compile.mp found
  obtain ⟨closed, cut, -⟩ := (braces_agree braced).1 script compiled
  have negative : openBraces (utf8 "\x7d") < 0 := by decide +kernel
  exact ⟨⟨script, compiled⟩, closed, cut _ _ (List.take_append_drop 24 braced).symm,
    (braces_agree (utf8 "\x7d")).2 negative⟩

end Script

end LoopScript
