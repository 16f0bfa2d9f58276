/-
# LoopScript.Proofs.Written — a program that is written down runs as its tree

A source that lays out lexemes of a program compiles to that program, but for the positions
(`compile_laid`): those that a printer would write, or others that are derivable as it, with semicolons for
instance. Runs hand positions on to errors and do nothing else with them, so two scripts with the same
tree up to positions run alike (`runWith_unplaced`). What a source does can therefore be computed on a tree
that has no positions (`run_laid`).

Most programs that are run this way display something. `Execution.CanDisplay` says that the name for it is
bound to a function that does it, and `stmt_display` what such a call comes to.
-/
import LoopScript.Proofs.Host.Sealed
import LoopScript.Proofs.Print

namespace LoopScript

set_option autoImplicit false

/-- Runs that are carried over to the same outcome have the same value or the same cause of an error, and
reach the same execution. -/
theorem Outcome.CarriedBy.join {α : Type} {R S T : RuntimeError → RuntimeError → Prop}
    {first second third : Outcome RuntimeError α} (left : first.CarriedBy R id third)
    (right : second.CarriedBy S id third) (meet : ∀ {d e e'}, R d e' → S e e' → T d e) :
    first.CarriedBy T id second := by
  cases left with
  | completed a y =>
      generalize same : id y = z at right
      cases right with
      | completed a w =>
          obtain rfl : y = w := same
          exact .completed a y
  | failed y related =>
      generalize same : id y = z at right
      cases right with
      | failed w others =>
          obtain rfl : y = w := same
          exact .failed y (meet related others)
  | exhausted =>
      cases right with
      | exhausted => exact .exhausted

namespace Script

/-- A source that lays out lexemes of a program compiles to it, but for the positions. -/
theorem compile_laid {p : Program} {ls : List Lexeme} (stand : Lexeme.AllStand ls)
    (spells : Grammar.Spells Grammar.Lines (Stmt.relocate.relocateAll .forget) ls p) {source : Text}
    (laid : Lexeme.Laid ls source) :
    ∃ script, compile source = .ok script ∧ script.program.unplaced = p.unplaced := by
  obtain ⟨q, lines, bare⟩ := spells _ (Token.tokens_laid laid stand)
  rw [Stmt.relocateAll_eq, Stmt.relocateAll_eq] at bare
  exact ⟨⟨source, q⟩, compile_eq_ok.mpr ⟨Program.read_eq_ok.mpr lines, rfl⟩, bare⟩

variable {host : Host}

/-- Scripts with the same tree up to positions run alike, but for the places of errors. -/
theorem runWith_unplaced (sealed : host.Sealed) {first second : Script}
    (same : first.program.unplaced = second.program.unplaced) (budget : Nat) (x : Execution) :
    (first.runWith host budget x).CarriedBy (fun e e' => e'.cause = e.cause) id
      (second.runWith host budget x) := by
  -- Both are carried over to the tree without positions.
  have left : (first.runWith host budget x).CarriedBy _ id
      (runWith host budget ⟨[], second.program.unplaced⟩ x) :=
    sealed.runWith_carried (f := .forget) same.symm budget x
  have right : (second.runWith host budget x).CarriedBy _ id
      (runWith host budget ⟨[], second.program.unplaced⟩ x) :=
    sealed.runWith_carried (f := .forget) rfl budget x
  exact left.join right fun first second => second.cause.symm.trans first.cause

/-- A script completes if its statements do. -/
theorem run_of_stmts {source : Text} {p : Program} {budget : Nat} {x y : Execution}
    (ended : Eval.stmts (LoopScript.host budget) budget p (x.under (some source)) = .ok () y) :
    run budget ⟨source, p⟩ x = .ok () (y.under x.source) := by
  rw [Execution.under] at ended
  rw [run, runWith, ended]
  rfl

/-- A script of one statement runs as the statement does. -/
theorem run_one (source : Text) (s : Stmt) (budget : Nat) (x : Execution) :
    run budget ⟨source, [s]⟩ x =
      (Eval.stmt (LoopScript.host budget) budget s (x.under (some source))).mapReached
        (Execution.under x.source) := by
  have alone : ∀ y, Eval.stmts (LoopScript.host budget) budget [s] y =
      Eval.stmt (LoopScript.host budget) budget s y := by
    intro y
    rw [Eval.stmts, Run.bind_apply]
    cases Eval.stmt (LoopScript.host budget) budget s y <;> rfl
  rw [run, runWith, alone]
  rfl

theorem run_single {source : Text} {s : Stmt} {budget : Nat} {x y : Execution}
    (ended : Eval.stmt (LoopScript.host budget) budget s (x.under (some source)) = .ok () y) :
    run budget ⟨source, [s]⟩ x = .ok () (y.under x.source) := by
  rw [run_one, ended]
  rfl

/-- The functions of the language do not see the running script. -/
theorem host_sealed (budget : Nat) : (LoopScript.host budget).Sealed := by
  rw [host_eq_toHost]
  exact Procedures.standard.toHost_sealed budget

/-- A source that lays out lexemes of a program completes as the tree does. -/
theorem run_laid {p : Program} {ls : List Lexeme} (stand : Lexeme.AllStand ls)
    (spells : Grammar.Spells Grammar.Lines (Stmt.relocate.relocateAll .forget) ls p) {source : Text}
    (laid : Lexeme.Laid ls source) :
    ∃ script, compile source = .ok script ∧ script.program.unplaced = p.unplaced ∧
      ∀ {budget : Nat} {x y : Execution}, run budget ⟨source, p⟩ x = .ok () y →
        script.run budget x = .ok () y := by
  obtain ⟨script, compiled, same⟩ := compile_laid stand spells laid
  refine ⟨script, compiled, same, fun {budget x y} ended => ?_⟩
  have bare : (⟨source, p⟩ : Script).program.unplaced = script.program.unplaced := same.symm
  have alike := runWith_unplaced (host_sealed budget) bare budget x
  rw [run] at ended ⊢
  rw [ended] at alike
  generalize script.runWith (LoopScript.host budget) budget x = o at alike
  cases alike
  rfl

end Script

/-! ## Assigning and displaying -/

/-- Assigning binds the name to the value. -/
theorem Eval.stmt_assign {host : Host} {budget : Nat} {target : Text} {e : Expr} {pos : Position}
    {v : Value} {x y : Execution} (value : Eval.expr host e x = .ok v y) :
    Eval.stmt host budget (.assign target e pos) x = .ok () (y.define target v) := by
  rw [Eval.stmt]
  exact Run.bind_of_ok value

theorem Eval.stmt_assign_fails {host : Host} {budget : Nat} {target : Text} {e : Expr} {pos : Position}
    {err : RuntimeError} {x y : Execution} (failed : Eval.expr host e x = .error err y) :
    Eval.stmt host budget (.assign target e pos) x = .error err y := by
  rw [Eval.stmt]
  exact Run.bind_of_error failed

theorem Engine.displayName_isName : displayName.IsName :=
  ⟨⟨_, _, rfl, by decide, by decide +kernel⟩, by decide⟩

/-- The name for displaying is bound to a function that displays. -/
def Execution.CanDisplay (x : Execution) : Prop :=
  ∃ f : Function, x.env.get? Engine.displayName = some (.function f) ∧ f.action = .display

namespace Execution

theorem CanDisplay.define {x : Execution} (displays : x.CanDisplay) {name : Text}
    (other : name ≠ Engine.displayName) (v : Value) : (x.define name v).CanDisplay := by
  obtain ⟨f, bound, action⟩ := displays
  refine ⟨f, ?_, action⟩
  rw [Execution.define, Table.get?_insert, if_neg other.symm, bound]

/-- A fresh execution can display. -/
theorem canDisplay_initial (sink : Sink) : (Engine.initial.newExecution sink).CanDisplay := by
  refine ⟨⟨0, Engine.displayName, .display⟩, ?_, rfl⟩
  rw [Engine.newExecution, Engine.initial, Engine.register, Table.get?_insert, if_pos rfl]

end Execution

/-- Displaying the value of an expression writes it on a line of its own. -/
theorem Eval.stmt_display {budget passes : Nat} {e : Expr} {pos : Position} {v : Value} {x : Execution}
    {sink : Sink} (displays : x.CanDisplay)
    (value : Eval.expr (host (budget + 1)) e x = .ok v x)
    (taken : x.sink.write (v.render ++ [Text.newline]) = .ok sink) :
    Eval.stmt (host (budget + 1)) passes (.call Engine.displayName [e] pos) x =
      .ok () { x with sink := sink } := by
  obtain ⟨f, bound, action⟩ := displays
  have values : Eval.exprs (host (budget + 1)) [e] x = .ok [v] x := by
    rw [Eval.exprs, Run.bind_of_ok value]
    rfl
  have found : x.env.lookupFunction Engine.displayName = .ok f := by
    rw [Env.lookupFunction, bound]
  have written : Host.display [v] x = .ok .null { x with sink := sink } := by
    simp only [Host.display, taken]
    rfl
  have called : Eval.invoke (host (budget + 1)) Engine.displayName [v] pos x =
      .ok .null { x with sink := sink } := by
    rw [Eval.invoke, found]
    dsimp only
    rw [Run.placedAt, Host.host_display action, written]
    rfl
  rw [Eval.stmt, Run.bind_of_ok values, Run.bind_of_ok called]
  rfl

/-- A call whose argument fails is not made. -/
theorem Eval.stmt_call_fails {host : Host} {passes : Nat} {callee : Text} {e : Expr} {pos : Position}
    {err : RuntimeError} {x y : Execution} (failed : Eval.expr host e x = .error err y) :
    Eval.stmt host passes (.call callee [e] pos) x = .error err y := by
  have values : Eval.exprs host [e] x = .error err y := by
    rw [Eval.exprs]
    exact Run.bind_of_error failed
  rw [Eval.stmt]
  exact Run.bind_of_error values

/-- A source that lays out the display of an expression writes the value of the expression. -/
theorem Script.run_display {e : Expr} (wf : e.WellFormed) {source : Text}
    (laid : Lexeme.Laid (.name Engine.displayName :: .openParen :: e.lexemes ++ [.closeParen]) source) :
    ∃ script, compile source = .ok script ∧
      ∀ {budget : Nat} {v : Value} {x : Execution} {sink : Sink}, x.CanDisplay →
        Eval.expr (host (budget + 1)) e (x.under (some source)) = .ok v (x.under (some source)) →
        x.sink.write (v.render ++ [Text.newline]) = .ok sink →
        script.run (budget + 1) x = .ok () { x with sink := sink } := by
  have written : Stmt.AllWellFormed [.call Engine.displayName [e] .nowhere] :=
    ⟨⟨Engine.displayName_isName, wf, trivial⟩, trivial⟩
  have shape : Stmt.lexemesAll [.call Engine.displayName [e] .nowhere] =
      .name Engine.displayName :: .openParen :: e.lexemes ++ [.closeParen] := List.append_nil _
  obtain ⟨script, compiled, -, runs⟩ :=
    run_laid (Stmt.lexemesAll_stand written) (Stmt.spellsAll written) (shape ▸ laid)
  refine ⟨script, compiled, fun {budget v x sink} displays value taken => ?_⟩
  have ended : Eval.stmt (host (budget + 1)) (budget + 1) (.call Engine.displayName [e] .nowhere)
      (x.under (some source)) = .ok () { x.under (some source) with sink := sink } :=
    Eval.stmt_display displays value taken
  exact runs (run_single ended)

end LoopScript
