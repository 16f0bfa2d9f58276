/-
# LoopScript.Proofs.Eval.Steady — what no run can undo

A run changes its execution in few ways: it binds names, writes lines, and puts the source of a script
that it runs in the place of the running one until that script has ended. A relation between earlier and
later executions that allows for these steps is `Steady`, and it then holds between the execution a run
begins in and the one it reaches, with a value or with an error (`stmts_within`, `run_within`). This is
so for every function of the host, those that bind names and run scripts among them.

What runs write is one such relation (`Execution.Grows`): they add lines and take none back.
-/
import LoopScript.Proofs.Eval.Reach

namespace LoopScript

set_option autoImplicit false

/-- A relation that holds along a run if it allows for binding a name, writing a line, and running a
script. -/
structure Steady (P : Execution → Execution → Prop) : Prop where
  refl : ∀ x, P x x
  trans : ∀ {x y z}, P x y → P y z → P x z
  binds : ∀ x name v, P x (x.define name v)
  writes : ∀ {x : Execution} {v : Value} {sink : Sink},
    x.sink.write (v.render ++ [Text.newline]) = .ok sink → P x { x with sink := sink }
  nests : ∀ {x y : Execution} {source : Option Text},
    P { x with source := source } y → P x { y with source := x.source }

/-- The executions that a run reaches are related to the one it begins in. -/
def Run.Within {ε α : Type} (P : Execution → Execution → Prop) (r : Run ε α) : Prop :=
  ∀ x y, (r x).Reaches y → P x y

/-! ## Reaching -/

namespace Outcome

variable {ε δ α : Type} {o : Outcome ε α} {y : Execution}

theorem reaches_mapError {f : Execution → ε → δ} : (o.mapError f).Reaches y ↔ o.Reaches y := by
  cases o <;> exact Iff.rfl

theorem reaches_mapReached {f : Execution → Execution} :
    (o.mapReached f).Reaches y ↔ ∃ z, o.Reaches z ∧ y = f z := by
  cases o with
  | ok a z => exact ⟨fun reached => ⟨z, rfl, reached⟩, by rintro ⟨_, rfl, rfl⟩; rfl⟩
  | error e z => exact ⟨fun reached => ⟨z, rfl, reached⟩, by rintro ⟨_, rfl, rfl⟩; rfl⟩
  | exhausted => exact ⟨False.elim, by rintro ⟨_, reached, -⟩; exact reached⟩

end Outcome

namespace Run

variable {ε α β : Type} {P : Execution → Execution → Prop} {r : Run ε α} {next : α → Run ε β}

/-- One run after the other ends where the first fails, or else where the second ends. -/
theorem reaches_bind {x y : Execution} (reached : ((r >>= next) x).Reaches y) :
    (∃ a z, r x = .ok a z ∧ (next a z).Reaches y) ∨ ∃ e, r x = .error e y := by
  rw [bind_apply] at reached
  cases ended : r x with
  | ok a z =>
      rw [ended] at reached
      exact .inl ⟨a, z, rfl, reached⟩
  | error e z =>
      rw [ended] at reached
      cases reached
      exact .inr ⟨e, rfl⟩
  | exhausted =>
      rw [ended] at reached
      exact reached.elim

theorem Within.of_ok {x y : Execution} {a : α} (within : r.Within P) (ended : r x = .ok a y) : P x y :=
  within x y (by rw [ended]; rfl)

end Run

/-! ## Runs -/

section

variable {P : Execution → Execution → Prop} (steady : Steady P)
include steady

namespace Run

variable {ε α β : Type} {r : Run ε α} {next : α → Run ε β}

theorem pure_within (a : α) : (Run.pure a : Run ε α).Within P := by
  rintro _ x rfl
  exact steady.refl x

theorem fail_within (e : ε) : (Run.fail e : Run ε α).Within P := by
  rintro _ x rfl
  exact steady.refl x

theorem raise_within (cause : Cause) (pos : Position) :
    (Run.raise cause pos : Run RuntimeError α).Within P := by
  rintro _ x rfl
  exact steady.refl x

theorem ofFault_within (result : Except Fault α) (pos : Position) :
    (Run.ofFault result pos).Within P := by
  cases result with
  | ok a => exact pure_within steady a
  | error f => exact raise_within steady _ pos

theorem bind_within (first : r.Within P) (after : ∀ a, (next a).Within P) : (r >>= next).Within P := by
  intro x y reached
  rcases reaches_bind reached with ⟨a, z, ended, reached⟩ | ⟨e, failed⟩
  · exact steady.trans (first.of_ok ended) (after a z y reached)
  · exact first x y (by rw [failed]; rfl)

end Run

namespace Eval

theorem additive_within (op : Operator) (a b : Value) (pos : Position) :
    (additive op a b pos).Within P := by
  unfold additive
  split
  · exact Run.ofFault_within steady _ pos
  · exact Run.ofFault_within steady _ pos
  · exact Run.ofFault_within steady _ pos
  · exact Run.raise_within steady _ pos

theorem comparison_within (op : Operator) (a b : Value) (pos : Position) :
    (comparison op a b pos).Within P := by
  unfold comparison
  split
  · exact Run.ofFault_within steady _ pos
  · exact Run.raise_within steady _ pos

theorem repeatWhile_within {again : Run RuntimeError Bool} {body : Run RuntimeError Unit}
    (tests : again.Within P) (passes : body.Within P) :
    ∀ budget : Nat, (repeatWhile again body budget).Within P
  | 0 => fun _ _ => False.elim
  | budget + 1 => by
      rw [repeatWhile_succ]
      refine Run.bind_within steady passes fun _ => Run.bind_within steady tests fun more => ?_
      cases more with
      | true => exact repeatWhile_within tests passes budget
      | false => exact Run.pure_within steady ()

variable {host : Host}

theorem invoke_within (calls : ∀ f args, (host f args).Within P) (callee : Text) (values : List Value)
    (pos : Position) :
    (invoke host callee values pos).Within P := by
  intro x y reached
  unfold invoke at reached
  cases found : x.env.lookupFunction callee with
  | ok f =>
      rw [found] at reached
      exact calls f values x y (Outcome.reaches_mapError.mp reached)
  | error fault =>
      rw [found] at reached
      exact Run.raise_within steady _ pos x y reached

mutual

theorem expr_within (calls : ∀ f args, (host f args).Within P) : ∀ e : Expr, (expr host e).Within P
  | .name id pos => by
      intro x y reached
      rw [expr, variableValue] at reached
      exact Run.ofFault_within steady _ pos x y reached
  | .literal kind text pos => by
      rw [expr]
      cases literal kind text with
      | ok v => exact Run.pure_within steady v
      | error cause => exact Run.raise_within steady cause pos
  | .call callee args pos => by
      rw [expr]
      exact Run.bind_within steady (exprs_within calls args) fun values =>
        invoke_within steady calls callee values pos
  | .binary .additive op left right pos => by
      rw [expr]
      exact Run.bind_within steady (expr_within calls left) fun a =>
        Run.bind_within steady (expr_within calls right) fun b => additive_within steady op a b pos
  | .binary .comparison op left right pos => by
      rw [expr]
      exact Run.bind_within steady (expr_within calls left) fun a =>
        Run.bind_within steady (expr_within calls right) fun b => comparison_within steady op a b pos
  | .binary .multiplicative _ _ _ pos => Run.raise_within steady _ pos
  | .binary .boolean _ _ _ pos => Run.raise_within steady _ pos
  | .negation _ pos => Run.raise_within steady _ pos

theorem exprs_within (calls : ∀ f args, (host f args).Within P) :
    ∀ es : List Expr, (exprs host es).Within P
  | [] => Run.pure_within steady []
  | e :: rest => by
      rw [exprs]
      exact Run.bind_within steady (expr_within calls e) fun v =>
        Run.bind_within steady (exprs_within calls rest) fun vs => Run.pure_within steady (v :: vs)

end

theorem test_within (calls : ∀ f args, (host f args).Within P) (word : Text) (condition : Expr) :
    (test host word condition).Within P :=
  Run.bind_within steady (expr_within steady calls condition) fun v =>
    Run.ofFault_within steady (goesOn word v) condition.pos

mutual

theorem stmt_within (calls : ∀ f args, (host f args).Within P) (budget : Nat) :
    ∀ s : Stmt, (stmt host budget s).Within P
  | .assign target value pos => by
      rw [stmt]
      refine Run.bind_within steady (expr_within steady calls value) fun v => ?_
      rintro x _ rfl
      exact steady.binds x target v
  | .call callee args pos => by
      rw [stmt_call]
      exact Run.bind_within steady (expr_within steady calls (.call callee args pos)) fun _ =>
        Run.pure_within steady ()
  | .block body pos => by
      rw [stmt]
      exact stmts_within calls budget body
  | .loop word condition body bodyPos alternative pos => by
      rw [stmt]
      refine Run.bind_within steady (test_within steady calls word condition) fun more => ?_
      cases more with
      | true =>
          exact repeatWhile_within steady (test_within steady calls word condition)
            (stmts_within calls budget body) budget
      | false => exact otherwise_within calls budget alternative
  | .branch _ _ _ _ pos => by
      rw [stmt]
      exact Run.raise_within steady _ pos

/-- Statements reach what is related to where they begin, if calls do. -/
theorem stmts_within (calls : ∀ f args, (host f args).Within P) (budget : Nat) :
    ∀ ss : List Stmt, (stmts host budget ss).Within P
  | [] => Run.pure_within steady ()
  | s :: rest => by
      rw [stmts]
      exact Run.bind_within steady (stmt_within calls budget s) fun _ => stmts_within calls budget rest

theorem otherwise_within (calls : ∀ f args, (host f args).Within P) (budget : Nat) :
    ∀ alternative : Option Stmt, (otherwise host budget alternative).Within P
  | none => Run.pure_within steady ()
  | some s => by
      rw [otherwise]
      exact stmt_within calls budget s

end

end Eval

section

variable {host : Host} (calls : ∀ f args, (host f args).Within P)
include calls

/-- A task begins others in executions that are related to where it begins itself. -/
theorem Eval.Begins.within {budget : Nat} {t u : Task} {x y : Execution}
    (begins : Begins host budget t x u y) : P x y := by
  cases begins with
  | right _ ended => exact (expr_within steady calls _).of_ok ended
  | next ended => exact (expr_within steady calls _).of_ok ended
  | enter tested => exact (test_within steady calls _ _).of_ok tested
  | alternative tested => exact (test_within steady calls _ _).of_ok tested
  | again passed => exact (stmts_within steady calls budget _).of_ok passed
  | another passed tested =>
      exact steady.trans ((stmts_within steady calls budget _).of_ok passed)
        ((test_within steady calls _ _).of_ok tested)
  | tail ended => exact (stmt_within steady calls budget _).of_ok ended
  | arguments | left | first | value | call | block | condition | body | other | head =>
      exact steady.refl _

theorem Eval.During.within {budget : Nat} {t u : Task} {x y : Execution}
    (during : During host budget t x u y) : P x y := by
  induction during with
  | itself => exact steady.refl x
  | inner _ begins ih => exact steady.trans ih (begins.within steady calls)

end

theorem Script.runWith_within {host : Host} (calls : ∀ f args, (host f args).Within P) (budget : Nat)
    (script : Script) : (script.runWith host budget).Within P := by
  intro x y reached
  obtain ⟨z, ended, rfl⟩ := Outcome.reaches_mapReached.mp reached
  exact steady.nests (Eval.stmts_within steady calls budget script.program _ z ended)

/-! ## Functions of the host -/

namespace Host

theorem display_within : ∀ args : List Value, (display args).Within P
  | [] => Run.pure_within steady Value.null
  | v :: rest => by
      intro x y reached
      simp only [display] at reached
      cases wrote : x.sink.write (v.render ++ [Text.newline]) with
      | ok sink =>
          rw [wrote] at reached
          exact steady.trans (steady.writes wrote) (display_within rest _ y reached)
      | error refusal =>
          rw [wrote] at reached
          cases reached
          exact steady.refl x

theorem lookupNamed_within (v : Value) : (lookupNamed v).Within P := by
  intro x y reached
  unfold lookupNamed at reached
  cases found : x.env.lookup v.render with
  | ok value =>
      rw [found] at reached
      cases reached
      exact steady.refl x
  | error fault =>
      rw [found] at reached
      cases reached
      exact steady.refl x

theorem evalNamed_within {run : Script → Run RuntimeError Unit} (runs : ∀ script, (run script).Within P)
    (source : Text) (result : Value) : (evalNamed run source result).Within P := by
  intro x y reached
  unfold evalNamed at reached
  cases compiled : Script.compile source with
  | error ds =>
      rw [compiled] at reached
      cases reached
      exact steady.refl x
  | ok script =>
      rw [compiled] at reached
      dsimp only at reached
      refine runs script x y ?_
      cases ended : run script x with
      | ok _ z | error _ z | exhausted =>
          rw [ended] at reached
          exact reached

omit steady in
theorem labelled_within {r : Run Failure Value} (within : r.Within P) : (labelled r).Within P :=
  fun x y reached => within x y (Outcome.reaches_mapError.mp reached)

/-- Every function of the host reaches what is related to where it is called. -/
theorem host_within : ∀ (budget : Nat) (f : Function) (args : List Value),
    (LoopScript.host budget f args).Within P
  | 0, _, _ => fun _ _ => False.elim
  | budget + 1, f, args => by
      have calls := host_within budget
      have runs : ∀ script : Script, (script.runWith (LoopScript.host budget) budget).Within P :=
        Script.runWith_within steady calls budget
      unfold LoopScript.host
      dsimp only
      cases f.action with
      | display => exact display_within steady args
      | count | first | kind | inspect | equal => exact Run.pure_within steady _
      | fail => exact Run.fail_within steady _
      | define =>
          rintro x _ rfl
          exact steady.binds x _ _
      | lookup => exact lookupNamed_within steady _
      | wrapLookup => exact labelled_within (lookupNamed_within steady _)
      | eval => exact evalNamed_within steady runs _ _
      | wrapEval => exact labelled_within (evalNamed_within steady runs _ _)
      | call =>
          intro x y reached
          dsimp only at reached
          cases found : x.env.lookupFunction (arg args 0).render with
          | ok g =>
              rw [found] at reached
              exact calls g (args.drop 1) x y reached
          | error fault =>
              rw [found] at reached
              cases reached
              exact steady.refl x

end Host

/-- A script reaches what is related to where it is run. -/
theorem Script.run_within (budget : Nat) (script : Script) : (script.run budget).Within P :=
  script.runWith_within steady (Host.host_within steady budget) budget

end

/-! ## What is written -/

def Value.line (v : Value) : Text := v.render ++ [Text.newline]

/-- Values have been displayed since, and nothing that was written has been taken back. -/
def Execution.Grows (x y : Execution) : Prop :=
  ∃ values : List Value, y.sink.written.toList = x.sink.written.toList ++ values.map Value.line

theorem Execution.grows_steady : Steady Execution.Grows where
  refl x := ⟨[], (List.append_nil _).symm⟩
  trans := by
    rintro x y z ⟨first, left⟩ ⟨second, right⟩
    exact ⟨first ++ second, by rw [right, left, List.map_append, List.append_assoc]⟩
  binds x name v := ⟨[], (List.append_nil _).symm⟩
  writes {x v sink} wrote := by
    refine ⟨[v], ?_⟩
    rw [Host.written_of_write wrote, Array.toList_push]
    rfl
  nests grows := grows

theorem Execution.Grows.size_le {x y : Execution} (grows : x.Grows y) :
    x.sink.written.size ≤ y.sink.written.size := by
  obtain ⟨values, same⟩ := grows
  have longer := congrArg List.length same
  rw [List.length_append, Array.length_toList, Array.length_toList] at longer
  omega

/-- A sink that takes every write goes on to do so. -/
theorem Sink.unlimited_of_write {s next : Sink} {t : Text} (wrote : s.write t = .ok next)
    (unlimited : s.limit = none) : next.limit = none := by
  rw [write, unlimited] at wrote
  cases wrote
  rfl

theorem Sink.unlimited_steady :
    Steady fun x y : Execution => x.sink.limit = none → y.sink.limit = none where
  refl _ := id
  trans first second := second ∘ first
  binds _ _ _ := id
  writes := Sink.unlimited_of_write
  nests keeps := keeps

end LoopScript
