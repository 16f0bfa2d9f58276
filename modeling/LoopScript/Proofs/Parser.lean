/-
# LoopScript.Proofs.Parser — reading accepts exactly the grammar and builds its one tree

`Program.read` against `LoopScript.Proofs.Grammar`. `readTokens_clean_iff` joins the two directions for
any token sequence: reading gives the program `p` without a diagnostic just when `p` is the tree of some
derivation. Since reading is a function, no sequence has two trees (`lines_unique`), although a
semicolon may be derived in two ways. The budget, never spent, does not show in either statement.
-/
import LoopScript.Host
import LoopScript.Proofs.Parser.Budget
import LoopScript.Proofs.Parser.Completeness

namespace LoopScript

set_option autoImplicit false

namespace Program

open Grammar

/-- What is read without a diagnostic has a value, and the value is the tree of all the tokens. -/
theorem lines_of_readTokens {stop : Position} {ts : List Token}
    (clean : (readTokens stop ts).errors = []) :
    ∃ p, (readTokens stop ts).value = some p ∧ Lines ts p := by
  obtain ⟨taken, p, split, value, lines, finished⟩ :=
    Parser.statements_sound (readTokens_eq stop ts) clean
  rcases finished with done | ⟨nested, -⟩
  · rw [done, List.append_nil] at split
    exact ⟨p, value, split ▸ lines⟩
  · cases nested

/-- Derivable tokens are read as their tree. -/
theorem readTokens_of_lines (stop : Position) {ts : List Token} {p : Program} (lines : Lines ts p) :
    readTokens stop ts = ⟨some p, [], []⟩ := by
  have ample : 4 * (ts ++ []).length + 2 ≤ readBudget ts.length := by
    rw [List.append_nil, readBudget]
    omega
  have finished : Parser.LinesEnd false [] := .inl rfl
  have read := Parser.reads_of_lines stop finished lines (readBudget ts.length) ample
  rw [List.append_nil, readTokens_eq] at read
  exact Option.some.inj read

/-- Reading gives `p` without a diagnostic just when `p` is the tree of the tokens. -/
theorem readTokens_clean_iff (stop : Position) (ts : List Token) (p : Program) :
    (readTokens stop ts).value = some p ∧ (readTokens stop ts).errors = [] ↔ Lines ts p := by
  constructor
  · rintro ⟨value, clean⟩
    obtain ⟨q, found, lines⟩ := lines_of_readTokens clean
    rw [value] at found
    cases found
    exact lines
  · intro lines
    rw [readTokens_of_lines stop lines]
    exact ⟨rfl, rfl⟩

/-- A token sequence has at most one tree. -/
theorem lines_unique {ts : List Token} {p q : Program} (first : Lines ts p) (second : Lines ts q) :
    p = q := by
  have same := (readTokens_of_lines .start first).symm.trans (readTokens_of_lines .start second)
  cases same
  rfl

/-- A source is a program just when its tokens have a tree, and then it is read as that tree. -/
theorem read_eq_ok {source : Text} {p : Program} :
    read source = .ok p ↔ Lines (Token.tokens source) p := by
  rw [← readTokens_clean_iff (endOf source), read]
  split
  · next value clean => simp [value, clean]
  · next other =>
      constructor
      · intro impossible
        cases impossible
      · rintro ⟨value, clean⟩
        exact (other p value clean).elim

/-- **Reading accepts exactly the grammar and builds the one tree it gives.** No diagnostic is
reported just when the tokens of the source are derivable as lines; the program that is read is then
the tree of the derivation; and all derivations of one source have the same tree. -/
theorem read_exactly_derivable (source : Text) :
    ((readTokens (endOf source) (Token.tokens source)).errors = [] ↔
      ∃ p, Lines (Token.tokens source) p) ∧
    (∀ p, read source = .ok p ↔ Lines (Token.tokens source) p) ∧
    (∀ p q, Lines (Token.tokens source) p → Lines (Token.tokens source) q → p = q) := by
  refine ⟨⟨fun clean => ?_, ?_⟩, fun p => read_eq_ok, fun p q => lines_unique⟩
  · obtain ⟨p, -, lines⟩ := lines_of_readTokens clean
    exact ⟨p, lines⟩
  · rintro ⟨p, lines⟩
    rw [readTokens_of_lines _ lines]

end Program

/-- Compiling a source reads its program and keeps the source. -/
theorem Script.compile_eq_ok {source : Text} {script : Script} :
    compile source = .ok script ↔ Program.read source = .ok script.program ∧ script.source = source := by
  rw [compile]
  cases Program.read source with
  | ok p =>
      constructor
      · rintro ⟨⟩
        exact ⟨rfl, rfl⟩
      · rintro ⟨⟨⟩, rfl⟩
        rfl
  | error ds =>
      constructor
      · rintro ⟨⟩
      · rintro ⟨⟨⟩, -⟩

theorem Script.toOption_compile {source : Text} {script : Script} :
    (compile source).toOption = some script ↔ compile source = .ok script := by
  cases compile source <;> simp [Except.toOption]

end LoopScript
