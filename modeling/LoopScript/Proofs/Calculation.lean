/-
# LoopScript.Proofs.Calculation — integers are computed exactly, modulo `2 ^ 64`

A `Calculation` is what can be written with integers: numerals, names and parentheses, with `+`, `&` and `-`
between them. Its `value` is the integer that it stands for in arithmetic: the signs group to the left, the
ampersand adds, and nothing is too large. The syntax is said here by itself, so that the value owes nothing to
the parser.

Tokens with the lexemes of a calculation are an expression whose evaluation comes to that value as a 64-bit
integer, or to the error of the first literal that is too large (`answer`). The induction is over the
calculation, with the derivation of the expression and what it evaluates to side by side
(`Calculation.evaluated`); one operation puts two answers together (`eval_operation`), because taking an
integer to its 64 bits commutes with adding and subtracting.
-/
import LoopScript.Proofs.Decimal.Numeral
import LoopScript.Proofs.Eval.Innermost
import LoopScript.Proofs.Token.Normal
import LoopScript.Proofs.Written

namespace LoopScript

set_option autoImplicit false

/-! ## Calculations -/

inductive Sign where
  | plus
  | ampersand
  | minus
deriving DecidableEq, Repr

namespace Sign

def operator : Sign → Operator
  | .plus => .add
  | .ampersand => .join
  | .minus => .sub

def apply : Sign → Int → Int → Int
  | .plus, a, b | .ampersand, a, b => a + b
  | .minus, a, b => a - b

theorem level (sign : Sign) : sign.operator.level? = some .additive := by cases sign <;> rfl

end Sign

mutual

/-- What stands on one side of a sign. -/
inductive Summand where
  | literal (digits : Text) (isNumeral : digits.IsNumeral)
  | name (id : Text) (isName : id.IsName)
  | group (inner : Calculation)

/-- Summands with signs between them. -/
inductive Calculation where
  | single (only : Summand)
  | more (front : Calculation) (sign : Sign) (last : Summand)

end

/-- A number as a literal, with zeros in front. -/
def Summand.number (zeros n : Nat) : Summand :=
  .literal (List.replicate zeros 48 ++ Text.ofNat n) ((Text.isNumeral_ofNat n).zeros zeros)

mutual

def Summand.lexemes : Summand → List Lexeme
  | .literal digits _ => [⟨.integer, digits⟩]
  | .name id _ => [.name id]
  | .group inner => .openParen :: inner.lexemes ++ [.closeParen]

def Calculation.lexemes : Calculation → List Lexeme
  | .single only => only.lexemes
  | .more front sign last =>
      front.lexemes ++ ⟨.operator sign.operator, sign.operator.spelling⟩ :: last.lexemes

end

mutual

def Summand.value (numbers : Text → Int64) : Summand → Int
  | .literal digits _ => Text.decimalValue digits
  | .name id _ => (numbers id).toInt
  | .group inner => inner.value numbers

/-- The integer that a calculation stands for, if names stand for `numbers`. -/
def Calculation.value (numbers : Text → Int64) : Calculation → Int
  | .single only => only.value numbers
  | .more front sign last => sign.apply (front.value numbers) (last.value numbers)

end

/-- Zeros in front of a literal change nothing. -/
theorem Summand.value_number (numbers : Text → Int64) (zeros n : Nat) :
    (number zeros n).value numbers = n := by
  rw [number, value, Text.decimalValue_zeros, Text.decimalValue_ofNat]

namespace Lexeme

/-- The names among the lexemes are bound to the numbers. -/
def Bound (numbers : Text → Int64) (x : Execution) (ls : List Lexeme) : Prop :=
  ∀ l ∈ ls, l.kind = .identifier → x.env.get? l.text = some (.int (numbers l.text))

def oversized (l : Lexeme) : Bool :=
  l.kind = .integer ∧ Decimal.integerLimit ≤ Text.decimalValue l.text

end Lexeme

/-- The first token that is a literal above the largest integer. -/
def Token.firstOversized (ts : List Token) : Option Token := ts.find? fun t => t.lexeme.oversized

namespace Token

theorem firstOversized_cons {t : Token} {kind : Kind} (same : t.kind = kind)
    (other : decide (kind = .integer) = false) (ts : List Token) :
    firstOversized (t :: ts) = firstOversized ts := by
  have fits : t.lexeme.oversized = false := by
    simp [Lexeme.oversized, lexeme, same, of_decide_eq_false other]
  rw [firstOversized, List.find?_cons_of_neg (by simp [fits]), firstOversized]

theorem firstOversized_append (ts us : List Token) :
    firstOversized (ts ++ us) = (firstOversized ts).or (firstOversized us) := List.find?_append

/-- Parentheses are no literals. -/
theorem firstOversized_group {opening closing : Token} (opens : opening.kind = .openParen)
    (closes : closing.kind = .closeParen) (ts : List Token) :
    firstOversized (opening :: ts ++ [closing]) = firstOversized ts := by
  rw [firstOversized_append, firstOversized_cons opens rfl, firstOversized_cons closes rfl]
  exact Option.or_none

theorem firstOversized_eq_none {ts : List Token} :
    firstOversized ts = none ↔ ∀ l ∈ ts.map lexeme, l.oversized = false := by
  simp [firstOversized, List.find?_eq_none]

end Token

def Calculation.Fits (c : Calculation) : Prop := ∀ l ∈ c.lexemes, l.oversized = false

/-! ## The lexemes stand for themselves -/

mutual

theorem Summand.lexemes_stand : ∀ s : Summand, Lexeme.AllStand s.lexemes
  | .literal _ isNumeral => .cons (Lexeme.literal_stands (.integer isNumeral)) nofun
  | .name _ isName => .cons (Lexeme.name_stands isName) nofun
  | .group inner =>
      (Lexeme.AllStand.cons (Lexeme.fixed_stands (by decide)) inner.lexemes_stand).append
        (.cons (Lexeme.fixed_stands (by decide)) nofun)

theorem Calculation.lexemes_stand : ∀ c : Calculation, Lexeme.AllStand c.lexemes
  | .single only => only.lexemes_stand
  | .more front sign last =>
      front.lexemes_stand.append (.cons (operator_stands sign.level) last.lexemes_stand)

end

/-! ## Evaluation -/

namespace Calculation

/-- What evaluation of tokens comes to that stand for an integer: its 64 bits, or the error of the first
literal that is too large. -/
def answer (x : Execution) (ts : List Token) (v : Int) : Outcome RuntimeError Value :=
  match Token.firstOversized ts with
  | none => .ok (.int (Int64.ofInt v)) x
  | some t => .error ⟨.invalidInteger t.text, t.pos, x.frameAt t.pos⟩ x

/-- The operators add and subtract the 64 bits of integers. -/
theorem additive_apply (sign : Sign) (v w : Int) (pos : Position) (x : Execution) :
    Eval.additive sign.operator (.int (Int64.ofInt v)) (.int (Int64.ofInt w)) pos x =
      .ok (.int (Int64.ofInt (sign.apply v w))) x := by
  cases sign with
  | plus | ampersand =>
      rw [Sign.apply, Int64.ofInt_add]
      rfl
  | minus =>
      rw [Sign.apply, Int64.ofInt_sub]
      rfl

variable {host : Host} {x : Execution}

/-- The answers of two operands make that of the operation. The left one is evaluated first, so its error
is the one that counts. -/
theorem eval_operation {sign : Sign} {left right : Expr} {ls rs : List Token} {v w : Int} {t : Token}
    (kind : t.kind = .operator sign.operator)
    (first : Eval.expr host left x = answer x ls v) (second : Eval.expr host right x = answer x rs w) :
    Eval.expr host (.binary .additive sign.operator left right t.pos) x =
      answer x (ls ++ t :: rs) (sign.apply v w) := by
  have joined : Token.firstOversized (ls ++ t :: rs) =
      (Token.firstOversized ls).or (Token.firstOversized rs) := by
    rw [Token.firstOversized_append, Token.firstOversized_cons kind rfl]
  rw [answer] at first second
  rw [answer, joined, Eval.expr]
  cases before : Token.firstOversized ls with
  | some u =>
      rw [before] at first
      exact Run.bind_of_error first
  | none =>
      rw [before] at first
      rw [Run.bind_of_ok first, Option.none_or]
      cases behind : Token.firstOversized rs with
      | some u =>
          rw [behind] at second
          exact Run.bind_of_error second
      | none =>
          rw [behind] at second
          rw [Run.bind_of_ok second]
          exact additive_apply sign v w t.pos x

/-- A literal comes to its number, or to an error if that is too large. -/
theorem eval_literal {t : Token} (isNumeral : t.text.IsNumeral) (kind : t.kind = .integer) :
    Eval.expr host (.literal .integer t.text t.pos) x = answer x [t] (Text.decimalValue t.text) := by
  have asked : t.lexeme.oversized = decide (Decimal.integerLimit ≤ Text.decimalValue t.text) := by
    simp [Lexeme.oversized, Token.lexeme, kind]
  rw [Eval.expr, Eval.literal_integer isNumeral, answer, Token.firstOversized]
  by_cases small : Text.decimalValue t.text < Decimal.integerLimit
  · rw [if_pos small, List.find?_cons_of_neg (by simp [asked, small])]
    rfl
  · rw [if_neg small, List.find?_cons_of_pos (by simp [asked, Nat.not_lt.mp small])]
    rfl

/-- A name comes to its number. -/
theorem eval_name {numbers : Text → Int64} {t : Token} (kind : t.kind = .identifier)
    (bound : x.env.get? t.text = some (.int (numbers t.text))) :
    Eval.expr host (.name t.text t.pos) x = answer x [t] (numbers t.text).toInt := by
  rw [Eval.expr, Eval.variableValue, Env.lookup, bound, answer, Token.firstOversized_cons kind rfl,
    Int64.ofInt_toInt]
  rfl

end Calculation

open Grammar in
mutual

/-- Tokens with the lexemes of a summand are an expression that comes to its value. -/
theorem Summand.evaluated : ∀ (s : Summand) (ts : List Token), ts.map Token.lexeme = s.lexemes →
    ∃ e, Expression .primary ts e ∧ ∀ host x numbers, Lexeme.Bound numbers x s.lexemes →
      Eval.expr host e x = Calculation.answer x ts (s.value numbers)
  | .literal digits isNumeral, ts, same => by
      obtain ⟨t, rfl, kind, rfl⟩ := tokens_of_single same
      exact ⟨_, .constant (kind ▸ .integer), fun _ _ _ _ => Calculation.eval_literal isNumeral kind⟩
  | .name id isName, ts, same => by
      obtain ⟨t, rfl, kind, rfl⟩ := tokens_of_single same
      exact ⟨_, .name kind, fun _ _ _ bound =>
        Calculation.eval_name kind (bound _ List.mem_cons_self rfl)⟩
  | .group inner, ts, same => by
      obtain ⟨opening, mid, closing, rfl, opens, middle, closes⟩ := tokens_of_enclosed same
      obtain ⟨e, derived, comes⟩ := Calculation.evaluated inner mid middle
      refine ⟨e, .group opens (.operand (.operand derived)) closes, fun host x numbers bound => ?_⟩
      rw [Calculation.answer, Token.firstOversized_group opens closes]
      exact comes host x numbers fun l member => bound l
        (List.mem_append_left _ (List.mem_cons_of_mem _ member))

/-- Tokens with the lexemes of a calculation are an expression that comes to its value. -/
theorem Calculation.evaluated : ∀ (c : Calculation) (ts : List Token), ts.map Token.lexeme = c.lexemes →
    ∃ e, Expression (.binary .additive) ts e ∧ ∀ host x numbers, Lexeme.Bound numbers x c.lexemes →
      Eval.expr host e x = Calculation.answer x ts (c.value numbers)
  | .single only, ts, same => by
      obtain ⟨e, derived, comes⟩ := Summand.evaluated only ts same
      exact ⟨e, .operand (.operand (.plain derived)), comes⟩
  | .more front sign last, ts, same => by
      obtain ⟨ls, behind, rfl, before, others⟩ := List.map_eq_append_iff.mp same
      obtain ⟨t, rs, rfl, kind, -, after⟩ := tokens_of_cons others
      obtain ⟨left, leftDerived, leftComes⟩ := Calculation.evaluated front ls before
      obtain ⟨right, rightDerived, rightComes⟩ := Summand.evaluated last rs after
      refine ⟨_, .operation kind sign.level leftDerived (.operand (.plain rightDerived)),
        fun host x numbers bound => ?_⟩
      have first := leftComes host x numbers fun l member => bound l (List.mem_append_left _ member)
      have second := rightComes host x numbers fun l member => bound l
        (List.mem_append_right _ (List.mem_cons_of_mem _ member))
      exact Calculation.eval_operation kind first second

end

/-! ## Scripts -/

namespace Script

/-- What a script comes to that evaluates one calculation: `after`, if every literal in its source fits, and
else the error of the first one that does not. -/
def ending (source : Text) (x after : Execution) : Outcome RuntimeError Unit :=
  match Token.firstOversized (Token.tokens source) with
  | none => .ok () after
  | some t => .error ⟨.invalidInteger t.text, t.pos, codeFrame source t.pos⟩ x

/-- The two endings, told by the calculation. -/
theorem ending_cases {c : Calculation} {source : Text}
    (fits : Token.firstOversized (Token.tokens source) = none ↔ c.Fits) (x after : Execution) :
    (c.Fits → ending source x after = .ok () after) ∧
    (¬ c.Fits → ∃ t, Token.firstOversized (Token.tokens source) = some t ∧
      ending source x after = .error ⟨.invalidInteger t.text, t.pos, codeFrame source t.pos⟩ x) := by
  rw [ending, ← fits]
  cases Token.firstOversized (Token.tokens source) with
  | none => exact ⟨fun _ => rfl, fun some => absurd rfl some⟩
  | some t => exact ⟨fun none => absurd none (Option.some_ne_none t), fun _ => ⟨t, rfl, rfl⟩⟩

/-- Assigning a calculation binds the name to its value. -/
theorem run_calculation {target source : Text} {c : Calculation} (isName : target.IsName)
    (laid : Lexeme.Laid (.name target :: .equals :: c.lexemes) source) :
    ∃ script, compile source = .ok script ∧
      (Token.firstOversized (Token.tokens source) = none ↔ c.Fits) ∧
      ∀ numbers budget x, Lexeme.Bound numbers x c.lexemes →
        script.run budget x =
          ending source x (x.define target (.int (Int64.ofInt (c.value numbers)))) := by
  have stand : Lexeme.AllStand (.name target :: .equals :: c.lexemes) :=
    .cons (Lexeme.name_stands isName) (.cons (Lexeme.fixed_stands (by decide)) c.lexemes_stand)
  obtain ⟨name, behind, tokens, nameKind, rfl, others⟩ :=
    Grammar.tokens_of_cons (Token.tokens_laid laid stand)
  obtain ⟨equals, ts, rfl, sign, -, same⟩ := Grammar.tokens_of_cons others
  obtain ⟨e, derived, comes⟩ := c.evaluated ts same
  have first : Token.firstOversized (Token.tokens source) = Token.firstOversized ts := by
    rw [tokens, Token.firstOversized_cons nameKind rfl, Token.firstOversized_cons sign rfl]
  have line := Grammar.Line.assignment nameKind sign (.operand (.operand derived)) .nothing
  rw [List.append_nil, ← tokens] at line
  refine ⟨⟨source, _⟩, compile_eq_ok.mpr ⟨Program.read_eq_ok.mpr line.lines, rfl⟩, ?_,
    fun numbers budget x bound => ?_⟩
  · rw [first, Token.firstOversized_eq_none, same, Calculation.Fits]
  · have value := comes (host budget) (x.under (some source)) numbers bound
    rw [Calculation.answer] at value
    rw [run_one, ending, first]
    cases fits : Token.firstOversized ts with
    | none =>
        rw [fits] at value
        rw [Eval.stmt_assign value]
        rfl
    | some t =>
        rw [fits] at value
        rw [Eval.stmt_assign_fails value]
        rfl

/-- Displaying a calculation writes the decimal of its value. -/
theorem display_calculation {source : Text} {c : Calculation}
    (laid : Lexeme.Laid (.name Engine.displayName :: .openParen :: c.lexemes ++ [.closeParen]) source) :
    ∃ script, compile source = .ok script ∧
      (Token.firstOversized (Token.tokens source) = none ↔ c.Fits) ∧
      ∀ numbers budget x sink, Lexeme.Bound numbers x c.lexemes →
        (c.Fits → x.CanDisplay ∧ x.sink.write
          (Text.ofInt (Int64.ofInt (c.value numbers)).toInt ++ [Text.newline]) = .ok sink) →
        script.run (budget + 1) x = ending source x { x with sink := sink } := by
  have stand : Lexeme.AllStand (.name Engine.displayName :: .openParen :: c.lexemes ++ [.closeParen]) :=
    Lexeme.AllStand.call Engine.displayName_isName c.lexemes_stand
  obtain ⟨name, behind, tokens, nameKind, text, others⟩ :=
    Grammar.tokens_of_cons (Token.tokens_laid laid stand)
  obtain ⟨opening, ts, closing, rfl, opens, same, closes⟩ := Grammar.tokens_of_enclosed others
  obtain ⟨e, derived, comes⟩ := c.evaluated ts same
  have first : Token.firstOversized (Token.tokens source) = Token.firstOversized ts := by
    rw [tokens, Token.firstOversized_cons nameKind rfl, Token.firstOversized_group opens closes]
  have fits : Token.firstOversized ts = none ↔ c.Fits := by
    rw [Token.firstOversized_eq_none, same, Calculation.Fits]
  have named : name.text = Engine.displayName := text
  have line := Grammar.Line.call
    (.arguments nameKind opens (.last (.operand (.operand derived))) closes) .nothing
  rw [List.append_nil, named, List.cons_append, ← tokens] at line
  refine ⟨⟨source, _⟩, compile_eq_ok.mpr ⟨Program.read_eq_ok.mpr line.lines, rfl⟩, first ▸ fits,
    fun numbers budget x sink bound taken => ?_⟩
  have value := comes (host (budget + 1)) (x.under (some source)) numbers bound
  rw [← fits] at taken
  rw [Calculation.answer] at value
  rw [run_one, ending, first]
  cases found : Token.firstOversized ts with
  | none =>
      rw [found] at value
      obtain ⟨displays, written⟩ := taken found
      have shown : (x.under (some source)).CanDisplay := displays
      rw [Eval.stmt_display shown value written]
      rfl
  | some t =>
      rw [found] at value
      rw [Eval.stmt_call_fails value]
      rfl

/-- A literal above the largest integer ends every run that evaluates it, at that literal. -/
theorem oversized_ends {host : Host} {budget : Nat} {script : Script} {x y : Execution} {text : Text}
    {pos : Position} (isNumeral : text.IsNumeral) (large : Decimal.integerLimit ≤ Text.decimalValue text)
    (evaluated : Eval.During host budget (.stmts script.program) { x with source := some script.source }
      (.expr (.literal .integer text pos)) y) :
    script.runWith host budget x =
      .error ⟨.invalidInteger text, pos, y.frameAt pos⟩ { y with source := x.source } := by
  have fails : (Eval.Task.expr (.literal .integer text pos)).outcome host budget y =
      .error ⟨.invalidInteger text, pos, y.frameAt pos⟩ y := by
    rw [Eval.Task.outcome, Eval.expr, Eval.literal_integer isNumeral, if_neg (Nat.not_lt.mpr large)]
    rfl
  have ended := Outcome.ending_eq_error.mp (evaluated.fails fails)
  rw [runWith, ended]
  rfl

end Script

/-- **Integers are computed exactly, modulo `2 ^ 64`.** Take any calculation and any numbers that its names
are bound to, and let `i` be the 64-bit integer that is congruent to the exact value. However the assignment
of the calculation is laid out, the source compiles; if no literal is above `2 ^ 63 - 1`, running it binds
the name to `i`, and else the run ends with the error of the first literal that is, and leaves everything as
it was. Displaying the calculation writes `i` in decimal form and a line feed, or ends in the same way.

Zeros in front of a literal change nothing. In whatever program, and wherever in it, a literal above
`2 ^ 63 - 1` ends the run as soon as it is evaluated. -/
theorem calculation_exact :
    (∀ (c : Calculation) (numbers : Text → Int64), ∃ i : Int64,
      i.toInt = (c.value numbers).bmod Int64.size ∧ (Text.ofInt i.toInt).IsDecimalOf i.toInt ∧
      (∀ target source : Text, target.IsName →
        Lexeme.Laid (.name target :: .equals :: c.lexemes) source →
        ∃ script, Script.compile source = .ok script ∧
          ∀ (budget : Nat) (x : Execution), Lexeme.Bound numbers x c.lexemes →
            (c.Fits → script.run budget x = .ok () (x.define target (.int i))) ∧
            (¬ c.Fits → ∃ t, Token.firstOversized (Token.tokens source) = some t ∧
              script.run budget x =
                .error ⟨.invalidInteger t.text, t.pos, codeFrame source t.pos⟩ x)) ∧
      (∀ source : Text,
        Lexeme.Laid (.name Engine.displayName :: .openParen :: c.lexemes ++ [.closeParen]) source →
        ∃ script, Script.compile source = .ok script ∧
          ∀ (budget : Nat) (x : Execution), Lexeme.Bound numbers x c.lexemes →
            (c.Fits → x.CanDisplay →
              ∀ sink, x.sink.write (Text.ofInt i.toInt ++ [Text.newline]) = .ok sink →
                script.run (budget + 1) x = .ok () { x with sink := sink }) ∧
            (¬ c.Fits → ∃ t, Token.firstOversized (Token.tokens source) = some t ∧
              script.run (budget + 1) x =
                .error ⟨.invalidInteger t.text, t.pos, codeFrame source t.pos⟩ x))) ∧
    (∀ (numbers : Text → Int64) (zeros n : Nat), (Summand.number zeros n).value numbers = n) ∧
    ∀ (host : Host) (budget : Nat) (script : Script) (x y : Execution) (text : Text) (pos : Position),
      text.IsNumeral → Decimal.integerLimit ≤ Text.decimalValue text →
      Eval.During host budget (.stmts script.program) { x with source := some script.source }
        (.expr (.literal .integer text pos)) y →
      script.runWith host budget x =
        .error ⟨.invalidInteger text, pos, y.frameAt pos⟩ { y with source := x.source } := by
  refine ⟨fun c numbers => ⟨Int64.ofInt (c.value numbers), Int64.toInt_ofInt, Text.isDecimalOf_ofInt _,
    fun target source isName laid => ?_, fun source laid => ?_⟩, Summand.value_number,
    fun host budget script x y text pos => Script.oversized_ends⟩
  · obtain ⟨script, compiled, fits, runs⟩ := Script.run_calculation isName laid
    refine ⟨script, compiled, fun budget x bound => ?_⟩
    rw [runs numbers budget x bound]
    exact Script.ending_cases fits x _
  · obtain ⟨script, compiled, fits, runs⟩ := Script.display_calculation laid
    refine ⟨script, compiled, fun budget x bound => ⟨fun small displays sink written => ?_, fun large => ?_⟩⟩
    · rw [runs numbers budget x sink bound fun _ => ⟨displays, written⟩]
      exact (Script.ending_cases fits x _).1 small
    · rw [runs numbers budget x x.sink bound fun small => absurd small large]
      exact (Script.ending_cases fits x _).2 large

/-- `007+(n & 9223372036854775807) - 3-n` -/
def Calculation.wrapping : Calculation :=
  have isName : (utf8 "n").IsName := ⟨⟨_, _, rfl, by decide, by decide +kernel⟩, by decide⟩
  .more (.more (.more (.single (.number 2 7))
    .plus (.group (.more (.single (.name (utf8 "n") isName)) .ampersand (.number 0 9223372036854775807))))
    .minus (.number 0 3))
    .minus (.name (utf8 "n") isName)

/-- `1 - (9223372036854775808 + 9223372036854775809)` -/
def Calculation.wide : Calculation :=
  .more (.single (.number 0 1)) .minus
    (.group (.more (.single (.number 0 9223372036854775808)) .plus (.number 0 9223372036854775809)))

/-- A sum that exceeds 64 bits and wraps around, and the display of one in which two literals do. -/
theorem calculation_exact_wraps :
    ∃ (sum display : Script) (x : Execution), x.env.get? (utf8 "n") = some (.int 5) ∧
      Script.compile (utf8 "r = 007+(n & 9223372036854775807) - 3-n # wraps") = .ok sum ∧
      sum.run 0 x = .ok () (x.define (utf8 "r") (.int (-9223372036854775805))) ∧
      Script.compile (utf8 "DISPLAY(1 - (9223372036854775808 + 9223372036854775809))") = .ok display ∧
      display.run 1 x = .error ⟨.invalidInteger (utf8 "9223372036854775808"), ⟨1, 14⟩,
        codeFrame (utf8 "DISPLAY(1 - (9223372036854775808 + 9223372036854775809))") ⟨1, 14⟩⟩ x := by
  have isName : (utf8 "r").IsName := ⟨⟨_, _, rfl, by decide, by decide +kernel⟩, by decide⟩
  have sumLaid : Lexeme.Laid (.name (utf8 "r") :: .equals :: Calculation.wrapping.lexemes)
      (utf8 "r = 007+(n & 9223372036854775807) - 3-n # wraps") :=
    Token.laid_of_tokens (by decide +kernel) (by decide +kernel)
  have wideLaid : Lexeme.Laid
      (.name Engine.displayName :: .openParen :: Calculation.wide.lexemes ++ [.closeParen])
      (utf8 "DISPLAY(1 - (9223372036854775808 + 9223372036854775809))") :=
    Token.laid_of_tokens (by decide +kernel) (by decide +kernel)
  let x : Execution := (Engine.initial.newExecution (.empty none)).define (utf8 "n") (.int 5)
  have five : x.env.get? (utf8 "n") = some (.int 5) := by
    rw [show x.env = Table.insert _ (utf8 "n") (.int 5) from rfl, Table.get?_insert, if_pos rfl]
  have sumFits : Calculation.wrapping.Fits := by
    unfold Calculation.Fits
    decide +kernel
  have wideFits : ¬ Calculation.wide.Fits := by
    unfold Calculation.Fits
    decide +kernel
  have bound : ∀ ls : List Lexeme, (∀ l ∈ ls, l.kind = .identifier → l.text = utf8 "n") →
      Lexeme.Bound (fun _ => 5) x ls := by
    intro ls only l member kind
    rw [only l member kind, five]
  obtain ⟨i, value, -, assigns, -⟩ := calculation_exact.1 .wrapping fun _ => 5
  obtain ⟨_, -, -, -, shows⟩ := calculation_exact.1 .wide fun _ => 5
  obtain ⟨sum, compiled, runs⟩ := assigns _ _ isName sumLaid
  obtain ⟨display, compiledDisplay, fails⟩ := shows _ wideLaid
  have wrapped : i = -9223372036854775805 := by
    refine Int64.toInt_inj.mp (value.trans ?_)
    decide +kernel
  obtain ⟨t, first, failed⟩ := (fails 0 x (bound _ (by decide +kernel))).2 wideFits
  have found : Token.firstOversized (Token.tokens
      (utf8 "DISPLAY(1 - (9223372036854775808 + 9223372036854775809))")) =
      some ⟨.integer, utf8 "9223372036854775808", ⟨1, 14⟩⟩ := by decide +kernel
  cases found.symm.trans first
  have ended := (runs 0 x (bound _ (by decide +kernel))).1 sumFits
  rw [wrapped] at ended
  exact ⟨sum, display, x, five, compiled, ended, compiledDisplay, failed⟩

end LoopScript
