/-
# LoopScript.Proofs.Host.Sealed — a function of the host does not see which script calls it

A procedure looks at the bindings and at what its own steps come to. None of these depends on the running
script: a script that it runs puts its own source in place for the time of that run. So the same call under
another script does the same and leaves that script in place (`toHost_sealed`).

What a script does is therefore settled by its tree, whatever the functions of the host do. Under another
source, with its nodes at other positions, it binds and writes the same, and an error that ends it has the
same cause (`runWith_carried`). That error is moved along if it is one of the script itself. It is the very
same if a function of the host hands it on from a script that it ran.
-/
import LoopScript.Proofs.Eval.Relocation
import LoopScript.Proofs.Host.Procedure

namespace LoopScript

set_option autoImplicit false

/-- No call depends on the running script. -/
def Host.Sealed (host : Host) : Prop :=
  ∀ (fn : Function) (args : List Value) (source : Option Text) (x : Execution),
    host fn args (x.under source) = (host fn args x).mapReached (Execution.under source)

/-- An error of a run elsewhere: it is moved, or it is the same if it comes out of another script. -/
def RuntimeError.Carried (f : Position → Position) (source : Option Text) (e e' : RuntimeError) : Prop :=
  e' = e.relocate f source ∨ e' = e

theorem RuntimeError.Carried.cause {f : Position → Position} {source : Option Text}
    {e e' : RuntimeError} (carried : e.Carried f source e') : e'.cause = e.cause := by
  rcases carried with rfl | rfl <;> rfl

namespace Procedure

variable {host : Host} {budget : Nat}

/-- A script that is run puts its own source in the place of whichever one is there. -/
theorem runWith_under (script : Script) (source : Option Text) (x : Execution) :
    script.runWith host budget (x.under source) =
      (script.runWith host budget x).mapReached (Execution.under source) := by
  have inner : { x.under source with source := some script.source } =
      { x with source := some script.source } := rfl
  rw [Script.runWith, Script.runWith, inner]
  cases Eval.stmts host budget script.program { x with source := some script.source } <;> rfl

/-- The steps of a procedure are the same under another script. -/
theorem perform_under (sealed : host.Sealed) (source : Option Text) (p : Procedure) :
    ∀ x : Execution, p.perform host budget (x.under source) =
      (p.perform host budget x).mapReached (Execution.under source) := by
  induction p with
  | give v => exact fun x => rfl
  | fail failure => exact fun x => rfl
  | look next ih => exact fun x => ih x.env x
  | define name v next ih => exact fun x => ih (x.define name v)
  | write t next ih =>
      intro x
      have same : (x.under source).sink = x.sink := rfl
      simp only [perform, same]
      cases x.sink.write t with
      | ok sink => exact ih none { x with sink := sink }
      | error refusal => exact ih (some refusal) x
  | call f args next ih =>
      intro x
      simp only [perform]
      rw [sealed f args source x]
      cases host f args x with
      | ok v y => exact ih (.ok v) y
      | error failure y => exact ih (.error failure) y
      | exhausted => rfl
  | run script next ih =>
      intro x
      simp only [perform]
      rw [runWith_under script source x]
      cases script.runWith host budget x with
      | ok _ y => exact ih none y
      | error e y => exact ih (some e) y
      | exhausted => rfl

end Procedure

/-- Functions of the host do not see the running script. -/
theorem Procedures.toHost_sealed (procedures : Procedures) : ∀ budget : Nat,
    (procedures.toHost budget).Sealed
  | 0 => fun _ _ _ _ => rfl
  | budget + 1 => fun f args source x =>
      Procedure.perform_under (procedures.toHost_sealed budget) source (procedures f args) x

namespace Host.Sealed

variable {host : Host} {f : Position → Position}

/-- A host of functions that do not see the running script carries runs over, whatever is bound. -/
theorem carries (sealed : host.Sealed) (source : Option Text) :
    host.Carries f source (fun _ => True) (RuntimeError.Carried f source) where
  raises _ := .inl rfl
  calls {_ fn args pos x} _ _ := by
    rw [Run.placedAt, Run.placedAt, sealed fn args source x]
    cases host fn args x with
    | ok v y => exact .completed v y
    | error failure y =>
        cases failure with
        | runtime e => exact .failed y (.inr rfl)
        | plain | sentinel | fault | wrapped => exact .failed y (.inl rfl)
    | exhausted => exact .exhausted
  expr _ _ := trivial
  exprs _ _ := trivial
  test _ _ := trivial
  stmt _ _ := trivial
  stmts _ _ := trivial

/-- A script with its nodes at other positions of another source does the same. -/
theorem runWith_carried (sealed : host.Sealed) {first second : Script}
    (moved : second.program = first.program.map (Stmt.relocate f)) (budget : Nat) (x : Execution) :
    (first.runWith host budget x).CarriedBy (RuntimeError.Carried f (some second.source)) id
      (second.runWith host budget x) := by
  have carries := sealed.carries (f := f) (some second.source)
  have carried :=
    Eval.stmts_carried carries budget first.program { x with source := some first.source } trivial
  rw [Stmt.relocateAll_eq, ← moved] at carried
  have inner : Execution.under (some second.source) { x with source := some first.source } =
      { x with source := some second.source } := rfl
  rw [inner] at carried
  rw [Script.runWith, Script.runWith]
  generalize Eval.stmts host budget first.program { x with source := some first.source } = o at carried
  generalize Eval.stmts host budget second.program { x with source := some second.source } = o'
    at carried
  cases carried with
  | completed a y => exact .completed a (y.under x.source)
  | failed y related => exact .failed (y.under x.source) related
  | exhausted => exact .exhausted

end Host.Sealed

end LoopScript
