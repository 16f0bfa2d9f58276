/-
# LoopScript.Proofs.Counting — a counting loop counts

The source `counting a b` counts from `a` up to below `b` and displays each number. Its loop keeps one
invariant: before a test the counter is bound to a number `c`, and what was written since the loop began is
the numbers from `a` to below `c` (`counted`). One pass adds `c` to the written lines and one to the counter
(`pass_counts`). The body runs while the counter is less than `b`, so the sum is at most `b` and never reaches
`2 ^ 63`, where it would wrap around. As many passes are made as there are numbers (`passes_count`), and that
many are enough budget for the whole run (`counting_exact`).
-/
import LoopScript.Proofs.Decimal.Numeral
import LoopScript.Proofs.Eval.Loop
import LoopScript.Proofs.Token.Normal
import LoopScript.Proofs.Written

namespace LoopScript

set_option autoImplicit false

/-- The source that displays the numbers from `a` to below `b`. -/
def Script.counting (a b : Nat) : Text :=
  utf8 "x = " ++ Text.ofNat a ++ utf8 " ; while x < " ++ Text.ofNat b ++
    utf8 " \x7b DISPLAY(x) ; x = x + 1 \x7d"

namespace Counting

/-! ## The tree -/

def counter : Text := utf8 "x"

def value : Expr := .name counter .nowhere

def numeral (n : Nat) : Expr := .literal .integer (Text.ofNat n) .nowhere

def condition (b : Nat) : Expr := .binary .comparison .lt value (numeral b) .nowhere

def display : Stmt := .call Engine.displayName [value] .nowhere

def increase : Stmt := .assign counter (.binary .additive .add value (numeral 1) .nowhere) .nowhere

def start (a : Nat) : Stmt := .assign counter (numeral a) .nowhere

def loop (b : Nat) : Stmt :=
  .loop (utf8 "while") (condition b) [display, increase] .nowhere none .nowhere

def bodyLexemes : List Lexeme := display.lexemes ++ .semicolon :: increase.lexemes

/-- The lexemes of the loop, with the semicolon in its body. -/
def loopLexemes (b : Nat) : List Lexeme :=
  ⟨.loopWord, utf8 "while"⟩ :: (condition b).lexemes ++ Lexeme.braced bodyLexemes

def lexemes (a b : Nat) : List Lexeme := (start a).lexemes ++ .semicolon :: loopLexemes b

theorem counter_isName : counter.IsName := ⟨⟨_, _, rfl, by decide, by decide +kernel⟩, by decide⟩

theorem numeral_wellFormed (n : Nat) : (numeral n).WellFormed := .integer (Text.isNumeral_ofNat n)

theorem condition_wellFormed (b : Nat) : (condition b).WellFormed :=
  ⟨rfl, counter_isName, numeral_wellFormed b⟩

theorem display_wellFormed : display.WellFormed :=
  ⟨Engine.displayName_isName, counter_isName, trivial⟩

theorem increase_wellFormed : increase.WellFormed :=
  ⟨counter_isName, rfl, counter_isName, numeral_wellFormed 1⟩

theorem start_wellFormed (a : Nat) : (start a).WellFormed := ⟨counter_isName, numeral_wellFormed a⟩

theorem lexemes_stand (a b : Nat) : Lexeme.AllStand (lexemes a b) := by
  have body : Lexeme.AllStand bodyLexemes :=
    (Stmt.lexemes_stand display_wellFormed).append
      (.cons Lexeme.semicolon_stands (Stmt.lexemes_stand increase_wellFormed))
  have whole : Lexeme.AllStand (loopLexemes b) :=
    (Lexeme.AllStand.cons (Lexeme.loopWord_stands (.inl rfl))
      (Expr.lexemes_stand (condition_wellFormed b))).append body.braced
  exact (Stmt.lexemes_stand (start_wellFormed a)).append (.cons Lexeme.semicolon_stands whole)

open Grammar in
/-- The lexemes are those of the two statements. -/
theorem lexemes_spell (a b : Nat) :
    Spells Lines (Stmt.relocate.relocateAll .forget) (lexemes a b) [start a, loop b] := by
  have body : Spells Lines (Stmt.relocate.relocateAll .forget) bodyLexemes [display, increase] :=
    Spells.separated (Stmt.spells display_wellFormed).line (Stmt.spells increase_wellFormed).line
  have whole : Spells (fun ts s => Line ts [s]) Stmt.unplaced
      (loopLexemes b ++ Stmt.lexemesOther none) (loop b) :=
    Spells.loop (condition_wellFormed b) body fun s none => absurd none (Option.not_mem_none s)
  rw [show Stmt.lexemesOther none = [] from rfl, List.append_nil] at whole
  exact Spells.separated (Stmt.spells (start_wellFormed a)).line whole.line

/-- The source lays the lexemes out. -/
theorem laid_counting (a b : Nat) : Lexeme.Laid (lexemes a b) (Script.counting a b) := by
  have body : Lexeme.Laid (Lexeme.braced bodyLexemes) (utf8 "\x7b DISPLAY(x) ; x = x + 1 \x7d") :=
    Token.laid_of_tokens (by decide +kernel) (by decide +kernel)
  have text : Script.counting a b =
      counter ++ Text.space :: (utf8 "=" ++ Text.space :: (Text.ofNat a ++ Text.space ::
        (utf8 ";" ++ Text.space :: (utf8 "while" ++ Text.space :: (counter ++ Text.space ::
          (utf8 "<" ++ Text.space :: (Text.ofNat b ++ Text.space ::
            utf8 "\x7b DISPLAY(x) ; x = x + 1 \x7d"))))))) := by
    simp only [Script.counting, List.append_assoc]
    rfl
  rw [text]
  exact (((((((body.word ⟨.integer, Text.ofNat b⟩).word ⟨.operator .lt, utf8 "<"⟩).word
    (.name counter)).word ⟨.loopWord, utf8 "while"⟩).word .semicolon).word
      ⟨.integer, Text.ofNat a⟩).word .equals).word (.name counter)

/-! ## One pass -/

def lines (c n : Nat) : List Text := (List.range' c n).map fun k => Text.ofNat k ++ [Text.newline]

/-- What `n` passes make of an execution that is about to test the counter at `c`. -/
def counted (x : Execution) (c n : Nat) : Execution :=
  { x with
    env := x.env.insert counter (.int (Int64.ofNat (c + n)))
    sink := { x.sink with written := x.sink.written ++ (lines c n).toArray } }

/-- The counter is at `c`, and everything can be displayed. -/
structure At (x : Execution) (c : Nat) : Prop where
  bound : x.env.get? counter = some (.int (Int64.ofNat c))
  displays : x.CanDisplay
  unlimited : x.sink.limit = none

variable {x : Execution} {b c : Nat}

theorem At.counted (holds : At x c) (n : Nat) : At (counted x c n) (c + n) where
  bound := by rw [Counting.counted, Table.get?_insert, if_pos rfl]
  displays := holds.displays.define (by decide) _
  unlimited := holds.unlimited

/-- Passes after passes. -/
theorem counted_counted (x : Execution) (c m n : Nat) :
    counted (counted x c m) (c + m) n = counted x c (m + n) := by
  have lists : lines c m ++ lines (c + m) n = lines c (m + n) := by
    rw [lines, lines, lines, ← List.map_append, List.range'_append_1]
  simp only [counted, Table.insert_insert, Array.append_assoc, List.append_toArray, lists,
    Nat.add_assoc]

variable {host : Host}

theorem expr_value (bound : x.env.get? counter = some (.int (Int64.ofNat c))) :
    Eval.expr host value x = .ok (.int (Int64.ofNat c)) x := by
  rw [value, Eval.expr, Eval.variableValue, Env.lookup, bound]
  rfl

theorem expr_numeral {n : Nat} (fits : n < Decimal.integerLimit) :
    Eval.expr host (numeral n) x = .ok (.int (Int64.ofNat n)) x := by
  rw [numeral, Eval.expr, Eval.literal_integer (Text.isNumeral_ofNat n), Text.decimalValue_ofNat,
    if_pos fits]
  rfl

/-- Numbers that fit are what their integers are. -/
theorem toInt_ofNat {n : Nat} (fits : n < Decimal.integerLimit) : (Int64.ofNat n).toInt = n :=
  Int64.toInt_ofNat_of_lt fits

theorem test_condition (holds : At x c) (here : c < Decimal.integerLimit)
    (there : b < Decimal.integerLimit) :
    Eval.test host (utf8 "while") (condition b) x = .ok (decide (c < b)) x := by
  have less : Int64.ofNat c < Int64.ofNat b ↔ c < b := by
    rw [Int64.lt_iff_toInt_lt, toInt_ofNat here, toInt_ofNat there, Int.ofNat_lt]
  have compared : Eval.expr host (condition b) x = .ok (.bool (decide (c < b))) x := by
    rw [condition, Eval.expr, Run.bind_of_ok (expr_value holds.bound),
      Run.bind_of_ok (expr_numeral there), ← decide_eq_decide.mpr less]
    rfl
  rw [Eval.test_apply, compared]
  simp

theorem render_ofNat {n : Nat} (fits : n < Decimal.integerLimit) :
    (Value.int (Int64.ofNat n)).render = Text.ofNat n := by
  rw [Value.render, toInt_ofNat fits, Text.ofInt, if_neg (Int.not_lt.mpr (Int.natCast_nonneg n)),
    Int.natAbs_natCast]

/-- What displaying the counter at `c` makes of an execution. -/
def shown (x : Execution) (c : Nat) : Execution :=
  { x with sink := { x.sink with written := x.sink.written.push (Text.ofNat c ++ [Text.newline]) } }

theorem display_counts {budget passes : Nat} (holds : At x c) (fits : c < Decimal.integerLimit) :
    Eval.stmt (LoopScript.host (budget + 1)) passes display x = .ok () (shown x c) := by
  refine Eval.stmt_display holds.displays (expr_value holds.bound) ?_
  simp [Sink.write, holds.unlimited, render_ofNat fits]

theorem increase_counts {passes : Nat} (bound : x.env.get? counter = some (.int (Int64.ofNat c))) :
    Eval.stmt host passes increase x = .ok () (x.define counter (.int (Int64.ofNat (c + 1)))) := by
  refine Eval.stmt_assign ?_
  rw [Eval.expr, Run.bind_of_ok (expr_value bound), Run.bind_of_ok (expr_numeral (by decide)),
    Int64.ofNat_add]
  rfl

/-- A pass displays the counter and adds one to it. -/
theorem pass_counts {budget passes : Nat} (holds : At x c) (next : c + 1 < Decimal.integerLimit) :
    Eval.stmts (LoopScript.host (budget + 1)) passes [display, increase] x = .ok () (counted x c 1) := by
  have after : (shown x c).env.get? counter = some (.int (Int64.ofNat c)) := holds.bound
  have state : (shown x c).define counter (.int (Int64.ofNat (c + 1))) = counted x c 1 := by
    simp [shown, counted, lines, Execution.define]
  rw [Eval.stmts, Run.bind_of_ok (display_counts holds (Nat.lt_of_succ_lt next)), Eval.stmts,
    Run.bind_of_ok (increase_counts after), state]
  rfl

/-! ## The loop -/

/-- From a counter below `b` on, as many passes are made as there are numbers up to `b`. -/
theorem passes_count {budget passes : Nat} (last : b < Decimal.integerLimit) :
    ∀ (n c left : Nat) (x : Execution), c + (n + 1) = b → n < left → At x c →
      Eval.repeatWhile (Eval.test (LoopScript.host (budget + 1)) (utf8 "while") (condition b))
        (Eval.stmts (LoopScript.host (budget + 1)) passes [display, increase]) left x =
          .ok () (counted x c (n + 1))
  | n, c, 0, _, _, enough, _ => absurd enough (Nat.not_lt_zero n)
  | n, c, left + 1, x, reaches, enough, holds => by
      have after : At (counted x c 1) (c + 1) := holds.counted 1
      have tested : Eval.test (LoopScript.host (budget + 1)) (utf8 "while") (condition b)
          (counted x c 1) = .ok (decide (c + 1 < b)) (counted x c 1) :=
        test_condition after (by omega) last
      rw [Eval.repeatWhile_succ, Run.bind_of_ok (pass_counts holds (by omega)), Run.bind_of_ok tested]
      cases n with
      | zero =>
          rw [decide_eq_false (by omega)]
          rfl
      | succ n =>
          rw [decide_eq_true (by omega), if_pos rfl,
            passes_count last n (c + 1) left _ (by omega) (by omega) after, counted_counted,
            Nat.add_comm 1]

/-- The loop counts from where the counter is to `b`, if it is not there yet. -/
theorem loop_counts {budget passes : Nat} (here : c < Decimal.integerLimit)
    (last : b < Decimal.integerLimit) (enough : b - c ≤ passes) (holds : At x c) :
    Eval.stmt (LoopScript.host (budget + 1)) passes (loop b) x = .ok () (counted x c (b - c)) := by
  have tested : Eval.test (LoopScript.host (budget + 1)) (utf8 "while") (condition b) x =
      .ok (decide (c < b)) x := test_condition holds here last
  rw [loop, Eval.stmt, Run.bind_of_ok tested]
  by_cases below : c < b
  · rw [decide_eq_true below, if_pos rfl,
      passes_count last (b - c - 1) c passes x (by omega) (by omega) holds, Nat.sub_add_cancel (by omega)]
  · have none : b - c = 0 := by omega
    have same : counted x c 0 = x := by
      have bound : x.env.insert counter (.int (Int64.ofNat c)) = x.env :=
        Table.insert_of_get? holds.bound
      simp [counted, lines, bound]
    rw [decide_eq_false below, none, same]
    rfl

/-- The whole program sets the counter and counts. -/
theorem program_counts {a budget passes : Nat} (first : a < Decimal.integerLimit)
    (last : b < Decimal.integerLimit) (enough : b - a ≤ passes) (displays : x.CanDisplay)
    (unlimited : x.sink.limit = none) :
    Eval.stmts (LoopScript.host (budget + 1)) passes [start a, loop b] x =
      .ok () (counted x a (b - a)) := by
  have started : Eval.stmt (LoopScript.host (budget + 1)) passes (start a) x =
      .ok () (x.define counter (.int (Int64.ofNat a))) := Eval.stmt_assign (expr_numeral first)
  have bound : (x.define counter (.int (Int64.ofNat a))).env.get? counter =
      some (.int (Int64.ofNat a)) := by
    rw [Execution.define, Table.get?_insert, if_pos rfl]
  have holds : At (x.define counter (.int (Int64.ofNat a))) a :=
    ⟨bound, displays.define (by decide) _, unlimited⟩
  have state : counted (x.define counter (.int (Int64.ofNat a))) a (b - a) = counted x a (b - a) := by
    simp only [counted, Execution.define, Table.insert_insert]
  rw [Eval.stmts, Run.bind_of_ok started, Eval.stmts,
    Run.bind_of_ok (loop_counts first last enough holds), state]
  rfl

end Counting

open Counting in
/-- **A counting loop counts.** Let `a` and `b` be integers from zero to `2 ^ 63 - 1`. The source that counts
from `a` while the counter is less than `b` compiles, and with any budget above the number of its passes it
completes: it has written the decimals of the numbers from `a` to `b - 1`, each on a line of its own, and none
if `b` is not above `a`, and the name is bound to the larger of `a` and `b`. This is so up to the largest
integer, where one more pass would wrap around. -/
theorem counting_exact {a b : Nat} (first : a < Decimal.integerLimit) (last : b < Decimal.integerLimit) :
    (Int64.ofNat (max a b)).toInt = ((max a b : Nat) : Int) ∧
    ∃ script : Script, Script.compile (Script.counting a b) = .ok script ∧
      ∀ (budget : Nat) (x : Execution), b - a < budget → x.CanDisplay → x.sink.limit = none →
        script.run budget x = .ok ()
          { x with
            env := x.env.insert (utf8 "x") (.int (Int64.ofNat (max a b)))
            sink := { x.sink with
              written := x.sink.written ++
                ((List.range' a (b - a)).map fun n => Text.ofNat n ++ [Text.newline]).toArray } } := by
  have highest : a + (b - a) = max a b := by omega
  refine ⟨toInt_ofNat (highest ▸ by omega), ?_⟩
  obtain ⟨script, compiled, -, runs⟩ :=
    Script.run_laid (lexemes_stand a b) (lexemes_spell a b) (laid_counting a b)
  refine ⟨script, compiled, fun budget x enough displays unlimited => ?_⟩
  cases budget with
  | zero => exact absurd enough (Nat.not_lt_zero _)
  | succ budget =>
      have counts : Eval.stmts (host (budget + 1)) (budget + 1) [start a, loop b]
          (x.under (some (Script.counting a b))) = .ok () _ :=
        program_counts first last (Nat.le_of_lt enough) displays unlimited
      have ended := runs (Script.run_of_stmts counts)
      rw [counted, highest] at ended
      exact ended

/-- Counting up to the largest integer, from two below it. -/
theorem counting_exact_largest :
    9223372036854775805 < Decimal.integerLimit ∧ 9223372036854775807 < Decimal.integerLimit ∧
    ∃ (script : Script) (x : Execution),
      Script.compile (utf8 ("x = 9223372036854775805 ; while x < 9223372036854775807 " ++
        "\x7b DISPLAY(x) ; x = x + 1 \x7d")) = .ok script ∧
      script.run 3 (Engine.initial.newExecution (.empty none)) = .ok () x ∧
      x.sink.contents = utf8 "9223372036854775805\n9223372036854775806\n" ∧
      x.env.get? (utf8 "x") = some (.int 9223372036854775807) := by
  have first : 9223372036854775805 < Decimal.integerLimit := by decide
  have last : 9223372036854775807 < Decimal.integerLimit := by decide
  have text : Script.counting 9223372036854775805 9223372036854775807 =
      utf8 ("x = 9223372036854775805 ; while x < 9223372036854775807 " ++
        "\x7b DISPLAY(x) ; x = x + 1 \x7d") := by decide +kernel
  obtain ⟨-, script, compiled, runs⟩ := counting_exact first last
  rw [text] at compiled
  have ended := runs 3 (Engine.initial.newExecution (.empty none)) (by decide)
    (Execution.canDisplay_initial _) rfl
  refine ⟨first, last, script, _, compiled, ended, by decide +kernel, ?_⟩
  rw [Table.get?_insert, if_pos rfl]
  rfl

end LoopScript
