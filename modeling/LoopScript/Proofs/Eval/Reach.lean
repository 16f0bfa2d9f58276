/-
# LoopScript.Proofs.Eval.Reach — the states a run passes through

Running a program is evaluating its parts one inside the other. A `Task` is such a part, a loop with the
passes it has left among them, and `Begins` says which tasks a task begins in turn and in which state:
an operand after the one before it, a pass of a loop after the test before it. `During` follows tasks
into tasks. The states of a run are those in which some task begins or ends (`Visits`).

`During.keeps` and `Ends.keeps` carry a property of the bindings to all of them, if every assignment of
the program keeps it.
-/
import LoopScript.Proofs.Eval.Raises

namespace LoopScript

set_option autoImplicit false

/-- The run has ended, with a value or an error, and this is the execution reached. -/
def Outcome.Reaches {ε α : Type} : Outcome ε α → Execution → Prop
  | .ok _ reached, y => y = reached
  | .error _ reached, y => y = reached
  | .exhausted, _ => False

theorem Outcome.Meets.reaches {ε α : Type} {spent : Prop} {ok : α → Execution → Prop}
    {err : ε → Execution → Prop} {P : Execution → Prop} {o : Outcome ε α} {y : Execution}
    (meets : o.Meets spent ok err) (reached : o.Reaches y) (afterOk : ∀ a z, ok a z → P z)
    (afterErr : ∀ e z, err e z → P z) : P y := by
  cases o with
  | ok a z => cases reached; exact afterOk a y meets
  | error e z => cases reached; exact afterErr e y meets
  | exhausted => exact reached.elim

namespace Eval

/-- A part of a program that is being run. -/
inductive Task where
  | expr (e : Expr)
  | exprs (es : List Expr)
  | stmt (s : Stmt)
  | stmts (ss : List Stmt)
  | otherwise (alternative : Option Stmt)
  | passes (word : Text) (condition : Expr) (body : List Stmt) (left : Nat)

namespace Task

/-- The names a task may bind. -/
def targets : Task → List Text
  | .expr _ => []
  | .exprs _ => []
  | .stmt s => s.targets
  | .stmts ss => Stmt.targets.targetsAll ss
  | .otherwise alternative => Stmt.targets.targetsOpt alternative
  | .passes _ _ body _ => Stmt.targets.targetsAll body

/-- Begun in `x`, the task ends in `y`, with a value or an error. -/
def Ends (host : Host) (budget : Nat) : Task → Execution → Execution → Prop
  | .expr e, x, y => (Eval.expr host e x).Reaches y
  | .exprs es, x, y => (Eval.exprs host es x).Reaches y
  | .stmt s, x, y => (Eval.stmt host budget s x).Reaches y
  | .stmts ss, x, y => (Eval.stmts host budget ss x).Reaches y
  | .otherwise alternative, x, y => (Eval.otherwise host budget alternative x).Reaches y
  | .passes word condition body left, x, y =>
      (repeatWhile (test host word condition) (Eval.stmts host budget body) left x).Reaches y

end Task

/-- Begun in one state, a task begins another task, in the same state or a later one. -/
inductive Begins (host : Host) (budget : Nat) : Task → Execution → Task → Execution → Prop where
  | arguments {callee : Text} {args : List Expr} {pos : Position} {x : Execution} :
      Begins host budget (.expr (.call callee args pos)) x (.exprs args) x
  | left {level : Level} {op : Operator} {left right : Expr} {pos : Position} {x : Execution} :
      level = .additive ∨ level = .comparison →
      Begins host budget (.expr (.binary level op left right pos)) x (.expr left) x
  | right {level : Level} {op : Operator} {left right : Expr} {pos : Position} {v : Value}
      {x y : Execution} :
      level = .additive ∨ level = .comparison → expr host left x = .ok v y →
      Begins host budget (.expr (.binary level op left right pos)) x (.expr right) y
  | first {e : Expr} {rest : List Expr} {x : Execution} :
      Begins host budget (.exprs (e :: rest)) x (.expr e) x
  | next {e : Expr} {rest : List Expr} {v : Value} {x y : Execution} :
      expr host e x = .ok v y → Begins host budget (.exprs (e :: rest)) x (.exprs rest) y
  | value {target : Text} {value : Expr} {pos : Position} {x : Execution} :
      Begins host budget (.stmt (.assign target value pos)) x (.expr value) x
  | call {callee : Text} {args : List Expr} {pos : Position} {x : Execution} :
      Begins host budget (.stmt (.call callee args pos)) x (.expr (.call callee args pos)) x
  | block {body : List Stmt} {pos : Position} {x : Execution} :
      Begins host budget (.stmt (.block body pos)) x (.stmts body) x
  | condition {word : Text} {condition : Expr} {body : List Stmt} {bodyPos pos : Position}
      {alternative : Option Stmt} {x : Execution} :
      Begins host budget (.stmt (.loop word condition body bodyPos alternative pos)) x
        (.expr condition) x
  | enter {word : Text} {condition : Expr} {body : List Stmt} {bodyPos pos : Position}
      {alternative : Option Stmt} {x y : Execution} :
      test host word condition x = .ok true y →
      Begins host budget (.stmt (.loop word condition body bodyPos alternative pos)) x
        (.passes word condition body budget) y
  | alternative {word : Text} {condition : Expr} {body : List Stmt} {bodyPos pos : Position}
      {alternative : Option Stmt} {x y : Execution} :
      test host word condition x = .ok false y →
      Begins host budget (.stmt (.loop word condition body bodyPos alternative pos)) x
        (.otherwise alternative) y
  | body {word : Text} {condition : Expr} {body : List Stmt} {left : Nat} {x : Execution} :
      Begins host budget (.passes word condition body (left + 1)) x (.stmts body) x
  | again {word : Text} {condition : Expr} {body : List Stmt} {left : Nat} {x y : Execution} :
      stmts host budget body x = .ok () y →
      Begins host budget (.passes word condition body (left + 1)) x (.expr condition) y
  | another {word : Text} {condition : Expr} {body : List Stmt} {left : Nat} {x y z : Execution} :
      stmts host budget body x = .ok () y → test host word condition y = .ok true z →
      Begins host budget (.passes word condition body (left + 1)) x
        (.passes word condition body left) z
  | other {s : Stmt} {x : Execution} : Begins host budget (.otherwise (some s)) x (.stmt s) x
  | head {s : Stmt} {rest : List Stmt} {x : Execution} :
      Begins host budget (.stmts (s :: rest)) x (.stmt s) x
  | tail {s : Stmt} {rest : List Stmt} {x y : Execution} :
      stmt host budget s x = .ok () y → Begins host budget (.stmts (s :: rest)) x (.stmts rest) y

/-- While the task `t`, begun in `x`, is run, another task is begun in some state. -/
inductive During (host : Host) (budget : Nat) (t : Task) (x : Execution) : Task → Execution → Prop where
  | itself : During host budget t x t x
  | inner {u v : Task} {y z : Execution} :
      During host budget t x u y → Begins host budget u y v z → During host budget t x v z

section Invariant

variable {I : Env → Prop} {host : Host} {budget : Nat} {t u : Task} {x y : Execution}
variable (plain : ∀ env, I env → env.Plain) (tame : host.Tame True)
include plain tame

/-- A task begins others where the property still holds, and these bind no other names. -/
theorem Begins.keeps (begins : Begins host budget t x u y) (holds : I x.env)
    (keeps : ∀ n ∈ t.targets, Assignable I n) : I y.env ∧ ∀ n ∈ u.targets, Assignable I n := by
  cases begins with
  | arguments => exact ⟨holds, nofun⟩
  | left => exact ⟨holds, nofun⟩
  | right _ ended => exact ⟨expr_env tame (plain _ holds) ended ▸ holds, nofun⟩
  | first => exact ⟨holds, nofun⟩
  | next ended => exact ⟨expr_env tame (plain _ holds) ended ▸ holds, nofun⟩
  | value => exact ⟨holds, nofun⟩
  | call => exact ⟨holds, nofun⟩
  | block => exact ⟨holds, keeps⟩
  | condition => exact ⟨holds, nofun⟩
  | enter ended =>
      exact ⟨test_env tame (plain _ holds) ended ▸ holds,
        fun n member => keeps n (List.mem_append_left _ member)⟩
  | alternative ended =>
      exact ⟨test_env tame (plain _ holds) ended ▸ holds,
        fun n member => keeps n (List.mem_append_right _ member)⟩
  | body => exact ⟨holds, keeps⟩
  | again passed => exact ⟨stmts_keeps plain tame holds keeps passed, nofun⟩
  | another passed tested =>
      have after := stmts_keeps plain tame holds keeps passed
      exact ⟨test_env tame (plain _ after) tested ▸ after, keeps⟩
  | other => exact ⟨holds, keeps⟩
  | head => exact ⟨holds, fun n member => keeps n (List.mem_append_left _ member)⟩
  | tail ended =>
      exact ⟨stmt_keeps plain tame holds (fun n member => keeps n (List.mem_append_left _ member)) ended,
        fun n member => keeps n (List.mem_append_right _ member)⟩

/-- What the assignments of a task keep holds wherever a task is begun while it is run. -/
theorem During.keeps (during : During host budget t x u y) (holds : I x.env)
    (keeps : ∀ n ∈ t.targets, Assignable I n) : I y.env ∧ ∀ n ∈ u.targets, Assignable I n := by
  induction during with
  | itself => exact ⟨holds, keeps⟩
  | inner _ begins ih => exact begins.keeps plain tame ih.1 ih.2

/-- What the assignments of a task keep holds where the task ends, also where it ends in an error. -/
theorem Task.Ends.keeps (ends : t.Ends host budget x y) (holds : I x.env)
    (keeps : ∀ n ∈ t.targets, Assignable I n) : I y.env := by
  cases t with
  | expr e =>
      exact (meets_expr tame e x (plain _ holds)).reaches ends
        (fun _ _ met => met.2.env ▸ holds) fun _ _ fails => fails.2.2.env ▸ holds
  | exprs es =>
      exact (meets_exprs tame es x (plain _ holds)).reaches ends
        (fun _ _ writes => writes.env ▸ holds) fun _ _ fails => fails.2.2.env ▸ holds
  | stmt s =>
      exact (meets_stmt plain tame budget s x holds keeps).reaches ends
        (fun _ _ goes => goes.env) fun _ _ ended => ended.2.2.env
  | stmts ss =>
      exact (meets_stmts plain tame budget ss x holds keeps).reaches ends
        (fun _ _ goes => goes.env) fun _ _ ended => ended.2.2.env
  | otherwise alternative =>
      exact (meets_otherwise plain tame budget alternative x holds keeps).reaches ends
        (fun _ _ goes => goes.env) fun _ _ ended => ended.2.2.env
  | passes word condition body left =>
      have tests : ∀ z, I z.env →
          (test host word condition z).Meets True (fun _ w => I w.env) (fun _ w => I w.env) :=
        fun z holds => (meets_test tame plain word condition [] condition.pos none condition.pos
          (.refl holds)).mono (fun _ _ goes => goes.env) fun _ _ ended => ended.2.2.env
      have bodies : ∀ z, I z.env →
          (Eval.stmts host budget body z).Meets True (fun _ w => I w.env) (fun _ w => I w.env) :=
        fun z holds => (meets_stmts plain tame budget body z holds keeps).mono
          (fun _ _ goes => goes.env) fun _ _ ended => ended.2.2.env
      exact (meets_repeatWhile tests bodies left x holds).reaches ends (fun _ _ holds => holds)
        fun _ _ holds => holds

end Invariant

end Eval

namespace Script

/-- The run of the script from `x` passes through `y`: some part of the program begins or ends there. -/
def Visits (host : Host) (budget : Nat) (script : Script) (x y : Execution) : Prop :=
  ∃ (t : Eval.Task) (z : Execution),
    Eval.During host budget (.stmts script.program) { x with source := some script.source } t z ∧
      (y = z ∨ t.Ends host budget z y)

/-- What the assignments of a program keep holds in every state of its runs. -/
theorem Visits.keeps {I : Env → Prop} {host : Host} {budget : Nat} {script : Script} {x y : Execution}
    (plain : ∀ env, I env → env.Plain) (tame : host.Tame True)
    (visits : script.Visits host budget x y) (holds : I x.env)
    (keeps : ∀ n ∈ Stmt.targets.targetsAll script.program, Eval.Assignable I n) : I y.env := by
  obtain ⟨t, z, during, rfl | ends⟩ := visits
  · exact (during.keeps plain tame holds keeps).1
  · have begun := during.keeps plain tame holds keeps
    exact ends.keeps plain tame begun.1 begun.2

end Script

end LoopScript
