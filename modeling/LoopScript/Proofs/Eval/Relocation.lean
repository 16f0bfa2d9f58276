/-
# LoopScript.Proofs.Eval.Relocation — a run elsewhere in another source

A program that stands at other positions of another source does the same: it binds and writes the same,
and if it ends in an error, that error has the same cause. Positions and the source are only handed on, to
errors.

How an error shows the other place depends on what the functions of the host do with errors of their own,
so the induction over programs (`stmts_carried`) leaves open how the errors of the two runs are related
(`Outcome.CarriedBy`), and asks for what the host has to keep to (`Host.Carries`).

Where the bindings are plain, all functions display, and every error is one of the program: it keeps its
cause and is moved along (`Outcome.relocate`, `stmts_relocate`). With the identity for a map only the source
changes (`stmts_under`).
-/
import LoopScript.Proofs.Eval.Raises
import LoopScript.Proofs.Relocation

namespace LoopScript

set_option autoImplicit false

/-- The same execution with another script running. -/
def Execution.under (source : Option Text) (x : Execution) : Execution := { x with source := source }

/-- The same cause at another position, with the line there of another source. -/
def RuntimeError.relocate (f : Position → Position) (source : Option Text) (e : RuntimeError) :
    RuntimeError :=
  ⟨e.cause, f e.pos, match source with
    | some source => codeFrame source (f e.pos)
    | none => []⟩

/-- The same outcome of a run elsewhere: an error keeps its cause and is moved. -/
def Outcome.relocate {α : Type} (f : Position → Position) (source : Option Text) :
    Outcome RuntimeError α → Outcome RuntimeError α
  | .ok a y => .ok a (y.under source)
  | .error e y => .error (e.relocate f source) (y.under source)
  | .exhausted => .exhausted

/-- The outcomes of two runs of which the second is the first elsewhere: the same value, or errors that are
related, and the execution that the first reaches, as `g` carries it over. -/
inductive Outcome.CarriedBy {α : Type} (R : RuntimeError → RuntimeError → Prop)
    (g : Execution → Execution) : Outcome RuntimeError α → Outcome RuntimeError α → Prop where
  | completed (a : α) (y : Execution) : CarriedBy R g (.ok a y) (.ok a (g y))
  | failed {e e' : RuntimeError} (y : Execution) :
      R e e' → CarriedBy R g (.error e y) (.error e' (g y))
  | exhausted : CarriedBy R g .exhausted .exhausted

/-- What a host keeps to where runs are carried over to other positions and another source: errors of the
program and of calls are related, and what holds of the bindings stays so. -/
structure Host.Carries (host : Host) (f : Position → Position) (source : Option Text) (I : Env → Prop)
    (R : RuntimeError → RuntimeError → Prop) : Prop where
  raises (e : RuntimeError) : R e (e.relocate f source)
  calls {callee : Text} {fn : Function} {args : List Value} {pos : Position} {x : Execution} :
    I x.env → x.env.get? callee = some (.function fn) →
      Outcome.CarriedBy R (.under source) (Run.placedAt (host fn args) pos x)
        (Run.placedAt (host fn args) (f pos) (x.under source))
  expr {e : Expr} {v : Value} {x y : Execution} : I x.env → Eval.expr host e x = .ok v y → I y.env
  exprs {es : List Expr} {vs : List Value} {x y : Execution} :
    I x.env → Eval.exprs host es x = .ok vs y → I y.env
  test {word : Text} {condition : Expr} {more : Bool} {x y : Execution} :
    I x.env → Eval.test host word condition x = .ok more y → I y.env
  stmt {budget : Nat} {s : Stmt} {x y : Execution} :
    I x.env → Eval.stmt host budget s x = .ok () y → I y.env
  stmts {budget : Nat} {ss : List Stmt} {x y : Execution} :
    I x.env → Eval.stmts host budget ss x = .ok () y → I y.env

variable {f : Position → Position} {source : Option Text} {I : Env → Prop}
variable {R : RuntimeError → RuntimeError → Prop}

namespace Run

variable {α β : Type}

theorem carried_bind {r r' : Run RuntimeError α} {next next' : α → Run RuntimeError β} {x : Execution}
    (first : (r x).CarriedBy R (.under source) (r' (x.under source)))
    (after : ∀ a y, r x = .ok a y → (next a y).CarriedBy R (.under source) (next' a (y.under source))) :
    ((r >>= next) x).CarriedBy R (.under source) ((r' >>= next') (x.under source)) := by
  rw [bind_apply, bind_apply]
  generalize reached : r x = o at first
  generalize r' (x.under source) = o' at first
  cases first with
  | completed a y => exact after a y reached
  | failed y related => exact .failed y related
  | exhausted => exact .exhausted

theorem carried_raise (raises : ∀ e : RuntimeError, R e (e.relocate f source)) (cause : Cause)
    (pos : Position) (x : Execution) :
    Outcome.CarriedBy R (.under source) (raise cause pos x : Outcome RuntimeError α)
      (raise cause (f pos) (x.under source)) :=
  .failed x (raises ⟨cause, pos, x.frameAt pos⟩)

theorem carried_ofFault (raises : ∀ e : RuntimeError, R e (e.relocate f source))
    (result : Except Fault α) (pos : Position) (x : Execution) :
    (ofFault result pos x).CarriedBy R (.under source) (ofFault result (f pos) (x.under source)) := by
  cases result with
  | ok a => exact .completed a x
  | error fault => exact carried_raise raises (.fault fault) pos x

end Run

namespace Eval

variable {host : Host}

theorem additive_carried (raises : ∀ e : RuntimeError, R e (e.relocate f source)) (op : Operator)
    (a b : Value) (pos : Position) (x : Execution) :
    (additive op a b pos x).CarriedBy R (.under source) (additive op a b (f pos) (x.under source)) := by
  unfold additive
  split
  · exact Run.carried_ofFault raises _ pos x
  · exact Run.carried_ofFault raises _ pos x
  · exact Run.carried_ofFault raises _ pos x
  · exact Run.carried_raise raises _ pos x

theorem comparison_carried (raises : ∀ e : RuntimeError, R e (e.relocate f source)) (op : Operator)
    (a b : Value) (pos : Position) (x : Execution) :
    (comparison op a b pos x).CarriedBy R (.under source) (comparison op a b (f pos) (x.under source)) := by
  unfold comparison
  split
  · exact Run.carried_ofFault raises _ pos x
  · exact Run.carried_raise raises _ pos x

theorem invoke_carried (carries : host.Carries f source I R) (callee : Text) (values : List Value)
    (pos : Position) {x : Execution} (holds : I x.env) :
    (invoke host callee values pos x).CarriedBy R (.under source)
      (invoke host callee values (f pos) (x.under source)) := by
  have same : (x.under source).env = x.env := rfl
  rw [invoke, invoke, same]
  unfold Env.lookupFunction
  cases found : x.env.get? callee with
  | none => exact Run.carried_raise carries.raises _ pos x
  | some v =>
      cases v with
      | function fn => exact carries.calls holds found
      | _ => exact Run.carried_raise carries.raises _ pos x

mutual

theorem expr_carried (carries : host.Carries f source I R) : ∀ (e : Expr) (x : Execution), I x.env →
    (expr host e x).CarriedBy R (.under source) (expr host (e.relocate f) (x.under source))
  | .name id pos, x, _ => by
      rw [Expr.relocate, expr, expr]
      exact Run.carried_ofFault carries.raises _ pos x
  | .literal kind text pos, x, _ => by
      rw [Expr.relocate, expr, expr]
      cases literal kind text with
      | ok v => exact .completed v x
      | error cause => exact Run.carried_raise carries.raises cause pos x
  | .call callee args pos, x, holds => by
      rw [Expr.relocate, expr, expr]
      refine Run.carried_bind (exprs_carried carries args x holds) fun values y ended => ?_
      exact invoke_carried carries callee values pos (carries.exprs holds ended)
  | .binary .additive op left right pos, x, holds => by
      rw [Expr.relocate, expr, expr]
      refine Run.carried_bind (expr_carried carries left x holds) fun a y ended => ?_
      refine Run.carried_bind (expr_carried carries right y (carries.expr holds ended)) ?_
      exact fun b z _ => additive_carried carries.raises op a b pos z
  | .binary .comparison op left right pos, x, holds => by
      rw [Expr.relocate, expr, expr]
      refine Run.carried_bind (expr_carried carries left x holds) fun a y ended => ?_
      refine Run.carried_bind (expr_carried carries right y (carries.expr holds ended)) ?_
      exact fun b z _ => comparison_carried carries.raises op a b pos z
  | .binary .multiplicative _ _ _ pos, x, _ => Run.carried_raise carries.raises _ pos x
  | .binary .boolean _ _ _ pos, x, _ => Run.carried_raise carries.raises _ pos x
  | .negation _ pos, x, _ => Run.carried_raise carries.raises _ pos x

theorem exprs_carried (carries : host.Carries f source I R) : ∀ (es : List Expr) (x : Execution), I x.env →
    (exprs host es x).CarriedBy R (.under source)
      (exprs host (Expr.relocate.relocateAll f es) (x.under source))
  | [], x, _ => .completed [] x
  | e :: rest, x, holds => by
      rw [Expr.relocate.relocateAll, exprs, exprs]
      refine Run.carried_bind (expr_carried carries e x holds) fun v y ended => ?_
      exact Run.carried_bind (exprs_carried carries rest y (carries.expr holds ended))
        fun vs z _ => .completed (v :: vs) z

end

theorem test_carried (carries : host.Carries f source I R) (word : Text) (condition : Expr) {x : Execution}
    (holds : I x.env) :
    (test host word condition x).CarriedBy R (.under source)
      (test host word (condition.relocate f) (x.under source)) := by
  rw [test, test, Expr.pos_relocate]
  exact Run.carried_bind (expr_carried carries condition x holds)
    fun v y _ => Run.carried_ofFault carries.raises _ condition.pos y

/-- A loop elsewhere makes the same passes, if its test and its body do the same there. -/
theorem repeatWhile_carried {again again' : Run RuntimeError Bool} {body body' : Run RuntimeError Unit}
    (tests : ∀ x, I x.env → (again x).CarriedBy R (.under source) (again' (x.under source)))
    (bodies : ∀ x, I x.env → (body x).CarriedBy R (.under source) (body' (x.under source)))
    (tested : ∀ x more y, I x.env → again x = .ok more y → I y.env)
    (passed : ∀ x y, I x.env → body x = .ok () y → I y.env) :
    ∀ (budget : Nat) (x : Execution), I x.env →
      (repeatWhile again body budget x).CarriedBy R (.under source)
        (repeatWhile again' body' budget (x.under source))
  | 0, _, _ => .exhausted
  | budget + 1, x, holds => by
      rw [repeatWhile_succ, repeatWhile_succ]
      refine Run.carried_bind (bodies x holds) fun _ y ended => ?_
      have afterPass := passed x y holds ended
      refine Run.carried_bind (tests y afterPass) fun more z ended => ?_
      cases more with
      | true =>
          exact repeatWhile_carried tests bodies tested passed budget z
            (tested y true z afterPass ended)
      | false => exact .completed () z

mutual

theorem stmt_carried (carries : host.Carries f source I R) (budget : Nat) : ∀ (s : Stmt) (x : Execution),
    I x.env →
    (stmt host budget s x).CarriedBy R (.under source) (stmt host budget (s.relocate f) (x.under source))
  | .assign target value pos, x, holds => by
      rw [Stmt.relocate, stmt, stmt]
      exact Run.carried_bind (expr_carried carries value x holds)
        fun v y _ => .completed () (y.define target v)
  | .call callee args pos, x, holds => by
      rw [Stmt.relocate, stmt_call, stmt_call]
      exact Run.carried_bind (expr_carried carries (.call callee args pos) x holds)
        fun v y _ => .completed () y
  | .block body pos, x, holds => by
      rw [Stmt.relocate, stmt, stmt]
      exact stmts_carried carries budget body x holds
  | .loop word condition body bodyPos alternative pos, x, holds => by
      rw [Stmt.relocate, stmt, stmt]
      refine Run.carried_bind (test_carried carries word condition holds) fun more y ended => ?_
      have afterTest : I y.env := carries.test holds ended
      cases more with
      | true =>
          refine repeatWhile_carried ?_ ?_ ?_ ?_ budget y afterTest
          · exact fun z holds => test_carried carries word condition holds
          · exact fun z holds => stmts_carried carries budget body z holds
          · exact fun z more w holds ended => carries.test holds ended
          · exact fun z w holds ended => carries.stmts holds ended
      | false => exact otherwise_carried carries budget alternative y afterTest
  | .branch _ _ _ _ pos, x, _ => Run.carried_raise carries.raises _ pos x

/-- Statements elsewhere in another source do the same, up to their errors. -/
theorem stmts_carried (carries : host.Carries f source I R) (budget : Nat) :
    ∀ (ss : List Stmt) (x : Execution), I x.env →
    (stmts host budget ss x).CarriedBy R (.under source)
      (stmts host budget (Stmt.relocate.relocateAll f ss) (x.under source))
  | [], x, _ => .completed () x
  | s :: rest, x, holds => by
      rw [Stmt.relocate.relocateAll, stmts, stmts]
      refine Run.carried_bind (stmt_carried carries budget s x holds) fun _ y ended => ?_
      exact stmts_carried carries budget rest y (carries.stmt holds ended)

theorem otherwise_carried (carries : host.Carries f source I R) (budget : Nat) :
    ∀ (alternative : Option Stmt) (x : Execution), I x.env →
    (otherwise host budget alternative x).CarriedBy R (.under source)
      (otherwise host budget (Stmt.relocate.relocateOpt f alternative) (x.under source))
  | none, x, _ => .completed () x
  | some s, x, holds => by
      rw [Stmt.relocate.relocateOpt, otherwise, otherwise]
      exact stmt_carried carries budget s x holds

end

end Eval

/-! ## Plain bindings -/

/-- A call of a function that displays does not depend on the running script. -/
def Host.Portable (host : Host) : Prop :=
  ∀ (fn : Function) (args : List Value) (source : Option Text) (x : Execution), fn.action = .display →
    host fn args (x.under source) = (host fn args x).mapReached (Execution.under source)

namespace Host

theorem display_under (source : Option Text) : ∀ (args : List Value) (x : Execution),
    display args (x.under source) = (display args x).mapReached (Execution.under source)
  | [], _ => rfl
  | v :: rest, x => by
      have same : (x.under source).sink = x.sink := rfl
      unfold display
      rw [same]
      cases x.sink.write (v.render ++ [Text.newline]) with
      | error refusal => rfl
      | ok sink => exact display_under source rest { x with sink := sink }

theorem host_portable : ∀ budget : Nat, Portable (LoopScript.host budget)
  | 0 => fun _ _ _ _ _ => rfl
  | budget + 1 => by
      intro fn args source x displays
      simp only [LoopScript.host, displays]
      exact display_under source args x

end Host

namespace Eval

variable {host : Host}

theorem plain_assignable (name : Text) : Assignable Env.Plain name :=
  fun _ _ plain value => plain.insert name value

variable (tame : host.Tame True)
include tame

theorem stmt_plain {budget : Nat} {s : Stmt} {x y : Execution} (plain : x.env.Plain)
    (ended : stmt host budget s x = .ok () y) : y.env.Plain :=
  stmt_keeps (fun _ plain => plain) tame plain (fun n _ => plain_assignable n) ended

theorem stmts_plain {budget : Nat} {ss : List Stmt} {x y : Execution} (plain : x.env.Plain)
    (ended : stmts host budget ss x = .ok () y) : y.env.Plain :=
  stmts_keeps (fun _ plain => plain) tame plain (fun n _ => plain_assignable n) ended

variable (portable : host.Portable)
include portable

/-- Where the bindings are plain, every error is one of the program, and it is moved. -/
theorem carries_plain :
    host.Carries f source Env.Plain fun e e' => e' = e.relocate f source where
  raises _ := rfl
  calls {callee fn args pos x} plain found := by
    have displays : fn.action = .display := plain callee _ found
    have met := tame fn args x displays
    rw [Run.placedAt, Run.placedAt, portable fn args source x displays]
    cases called : host fn args x with
    | ok v y => exact .completed v y
    | error failure y =>
        rw [called] at met
        obtain ⟨⟨refusal, -, rfl⟩, -⟩ := met
        exact .failed y rfl
    | exhausted => exact .exhausted
  expr plain ended := expr_env tame plain ended ▸ plain
  exprs plain ended := exprs_env tame plain ended ▸ plain
  test plain ended := test_env tame plain ended ▸ plain
  stmt plain ended := stmt_plain tame plain ended
  stmts plain ended := stmts_plain tame plain ended

/-- Statements elsewhere in another source do the same. -/
theorem stmts_relocate (budget : Nat) (ss : List Stmt) (x : Execution) (plain : x.env.Plain) :
    stmts host budget (Stmt.relocate.relocateAll f ss) (x.under source) =
      (stmts host budget ss x).relocate f source := by
  have carries : host.Carries f source Env.Plain fun e e' => e' = e.relocate f source :=
    carries_plain tame portable
  have carried := stmts_carried carries budget ss x plain
  generalize stmts host budget ss x = o at carried
  generalize stmts host budget (Stmt.relocate.relocateAll f ss) (x.under source) = o' at carried
  cases carried with
  | completed a y => rfl
  | failed y related =>
      rw [related]
      rfl
  | exhausted => rfl

/-- Statements under another source do the same. -/
theorem stmts_under (budget : Nat) (ss : List Stmt) (source : Option Text) {x : Execution}
    (plain : x.env.Plain) :
    stmts host budget ss (x.under source) = (stmts host budget ss x).relocate id source := by
  have moved : stmts host budget (Stmt.relocate.relocateAll id ss) (x.under source) =
      (stmts host budget ss x).relocate id source := stmts_relocate tame portable budget ss x plain
  rw [Stmt.relocateAll_id] at moved
  exact moved

omit tame portable

/-- Statements after statements run one after the other. -/
theorem stmts_append (budget : Nat) : ∀ ss ts : List Stmt,
    stmts host budget (ss ++ ts) = (do stmts host budget ss; stmts host budget ts)
  | [], ts => rfl
  | s :: rest, ts => by
      funext x
      rw [List.cons_append, stmts, stmts, stmts_append budget rest ts]
      simp only [Run.bind_apply]
      cases stmt host budget s x <;> rfl

end Eval

end LoopScript
