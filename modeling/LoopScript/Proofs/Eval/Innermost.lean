/-
# LoopScript.Proofs.Eval.Innermost — an error is that of the innermost part that fails

A task that begins another one comes to what that one comes to, unless that one completes
(`Begins.interrupted`). So an error passes outwards as it is, through operators, calls, blocks and loops,
and every task that fails during a run fails with the error of the run (`During.fails`).

A task is innermost if the tasks it begins complete. Tasks grow smaller inwards (`Begins.smaller`), so a
task that fails has an innermost one that does (`exists_innermost`), and this one raises the error at its
own place, unless it is a call whose function fails with an error of a script (`Innermost.raised`). The
place is that of an expression or a branch, or that of the condition of a loop. All these are places of
nodes, hence of tokens, and so the frame of the error shows a line of the source.
-/
import LoopScript.Proofs.Eval.Reach
import LoopScript.Proofs.Eval.Relocation
import LoopScript.Proofs.Frame

namespace LoopScript

set_option autoImplicit false

namespace Outcome

variable {ε α : Type}

/-- How a run ended, its value left out. -/
def ending : Outcome ε α → Outcome ε Unit
  | .ok _ x => .ok () x
  | .error e x => .error e x
  | .exhausted => .exhausted

theorem ending_eq_ok {o : Outcome ε α} {y : Execution} : o.ending = .ok () y ↔ ∃ a, o = .ok a y := by
  cases o <;> simp [ending]

theorem ending_eq_error {o : Outcome ε α} {e : ε} {y : Execution} :
    o.ending = .error e y ↔ o = .error e y := by
  cases o <;> simp [ending]

theorem reaches_ending {o : Outcome ε α} {y : Execution} : o.ending.Reaches y ↔ o.Reaches y := by
  cases o <;> exact Iff.rfl

end Outcome

namespace Run

variable {ε α β : Type} {r : Run ε α} {next : α → Run ε β} {x y : Execution}

/-- What follows a run that does not complete is not begun. -/
theorem ending_bind (stops : ∀ z, (r x).ending ≠ .ok () z) : ((r >>= next) x).ending = (r x).ending := by
  rw [bind_apply]
  cases ended : r x with
  | ok a y =>
      rw [ended] at stops
      exact absurd rfl (stops y)
  | error e y => rfl
  | exhausted => rfl

end Run

namespace Eval

namespace Task

def outcome (host : Host) (budget : Nat) : Task → Run RuntimeError Unit
  | .expr e, x => (Eval.expr host e x).ending
  | .exprs es, x => (Eval.exprs host es x).ending
  | .stmt s, x => (Eval.stmt host budget s x).ending
  | .stmts ss, x => (Eval.stmts host budget ss x).ending
  | .otherwise alternative, x => (Eval.otherwise host budget alternative x).ending
  | .passes word condition body left, x =>
      (repeatWhile (test host word condition) (Eval.stmts host budget body) left x).ending

/-- The tasks that a task begins complete, so that it is the task itself that fails if it does. -/
def Innermost (host : Host) (budget : Nat) (t : Task) (x : Execution) : Prop :=
  ∀ u y, Begins host budget t x u y → ∃ z, u.outcome host budget y = .ok () z

/-- Where a task raises errors of its own. Blocks, assignments and lists of other parts raise none. -/
def place? : Task → Option Position
  | .expr e => some e.pos
  | .stmt (.loop _ condition _ _ _ _) => some condition.pos
  | .stmt (.branch _ _ _ _ pos) => some pos
  | .passes _ condition _ _ => some condition.pos
  | _ => none

/-- The marks of the part of the program that a task runs. -/
def marks : Task → List Mark
  | .expr e => e.marks
  | .exprs es => Expr.marksAll es
  | .stmt s => s.marks
  | .stmts ss => Stmt.marksAll ss
  | .otherwise alternative => Stmt.marksOther alternative
  | .passes _ condition body _ => condition.marks ++ Stmt.marksAll body

/-- How much there is to run, but for the passes of a loop. -/
noncomputable def size : Task → Nat
  | .expr e => sizeOf e
  | .exprs es => sizeOf es
  | .stmt s => sizeOf s + 1
  | .stmts ss => sizeOf ss
  | .otherwise alternative => sizeOf alternative + 1
  | .passes _ condition body _ => sizeOf condition + sizeOf body + 1

def left : Task → Nat
  | .passes _ _ _ left => left
  | _ => 0

theorem place_mem_marks {t : Task} {pos : Position} (place : t.place? = some pos) :
    ∃ m ∈ t.marks, m.pos = pos := by
  cases t with
  | expr e =>
      cases place
      exact e.pos_mem_marks
  | stmt s =>
      cases s with
      | loop word condition body bodyPos alternative own =>
          cases place
          obtain ⟨m, member, same⟩ := condition.pos_mem_marks
          exact ⟨m, by simp [marks, Stmt.marks, member], same⟩
      | branch condition body bodyPos alternative own =>
          cases place
          exact ⟨⟨utf8 "if", pos⟩, by simp [marks, Stmt.marks], rfl⟩
      | assign | call | block => cases place
  | passes word condition body left =>
      cases place
      obtain ⟨m, member, same⟩ := condition.pos_mem_marks
      exact ⟨m, List.mem_append_left _ member, same⟩
  | exprs | stmts | otherwise => cases place

end Task

section

variable {host : Host} {budget : Nat} {t u v : Task} {x y z : Execution}

/-! ## Inwards -/

/-- A task begins smaller tasks, and a pass of a loop is followed by fewer. -/
theorem Begins.smaller (begins : Begins host budget t x u y) :
    u.size < t.size ∨ u.size = t.size ∧ u.left < t.left := by
  cases begins with
  | another => exact .inr ⟨rfl, Nat.lt_succ_self _⟩
  | @head s rest =>
      left
      have some : 0 < sizeOf rest := by
        cases rest with
        | nil => exact Nat.one_pos
        | cons s more =>
            rw [List.cons.sizeOf_spec]
            omega
      simp only [Task.size, List.cons.sizeOf_spec]
      omega
  | _ =>
      left
      simp [Task.size] <;> omega

/-- What a task begins is a part of what it runs. -/
theorem Begins.marks_subset (begins : Begins host budget t x u y) : u.marks ⊆ t.marks := by
  intro m member
  cases begins with
  | enter =>
      rcases List.mem_append.mp member with tested | run
      · simp [Task.marks, Stmt.marks, tested]
      · simp [Task.marks, Stmt.marks, run]
  | call | another | other => exact member
  | _ =>
      simp only [Task.marks] at member
      simp [Task.marks, Expr.marks, Expr.marksAll, Stmt.marks, Stmt.marksAll, member]

theorem During.marks_subset (during : During host budget t x u y) : u.marks ⊆ t.marks := by
  induction during with
  | itself => exact List.Subset.refl _
  | inner _ begins ih => exact List.Subset.trans begins.marks_subset ih

theorem During.trans (first : During host budget t x u y) (second : During host budget u y v z) :
    During host budget t x v z := by
  induction second with
  | itself => exact first
  | inner _ begins ih => exact .inner ih begins

/-! ## Outwards -/

/-- A test stops where its condition does. -/
theorem ending_test {word : Text} {condition : Expr}
    (stops : ∀ z, (expr host condition x).ending ≠ .ok () z) :
    (test host word condition x).ending = (expr host condition x).ending :=
  Run.ending_bind stops

/-- A task that begins another comes to what that one comes to, unless that one completes. -/
theorem Begins.interrupted (begins : Begins host budget t x u y)
    (stops : ∀ z, u.outcome host budget y ≠ .ok () z) :
    t.outcome host budget x = u.outcome host budget y := by
  cases begins with
  | arguments =>
      simp only [Task.outcome] at stops ⊢
      rw [expr]
      exact Run.ending_bind stops
  | left evaluated =>
      simp only [Task.outcome] at stops ⊢
      rcases evaluated with rfl | rfl <;> rw [expr] <;> exact Run.ending_bind stops
  | right evaluated first =>
      simp only [Task.outcome] at stops ⊢
      rcases evaluated with rfl | rfl <;> rw [expr, Run.bind_of_ok first] <;>
        exact Run.ending_bind stops
  | first =>
      simp only [Task.outcome] at stops ⊢
      rw [exprs]
      exact Run.ending_bind stops
  | next first =>
      simp only [Task.outcome] at stops ⊢
      rw [exprs, Run.bind_of_ok first]
      exact Run.ending_bind stops
  | value =>
      simp only [Task.outcome] at stops ⊢
      rw [stmt]
      exact Run.ending_bind stops
  | call =>
      simp only [Task.outcome] at stops ⊢
      rw [stmt_call]
      exact Run.ending_bind stops
  | block | other => simp only [Task.outcome, stmt, otherwise]
  | condition =>
      simp only [Task.outcome] at stops ⊢
      rw [stmt, Run.ending_bind, ending_test stops]
      rwa [ending_test stops]
  | enter tested | alternative tested =>
      simp only [Task.outcome]
      rw [stmt, Run.bind_of_ok tested]
      rfl
  | body =>
      simp only [Task.outcome] at stops ⊢
      rw [repeatWhile_succ]
      exact Run.ending_bind stops
  | again passed =>
      simp only [Task.outcome] at stops ⊢
      rw [repeatWhile_succ, Run.bind_of_ok passed, Run.ending_bind, ending_test stops]
      rwa [ending_test stops]
  | another passed tested =>
      simp only [Task.outcome]
      rw [repeatWhile_succ, Run.bind_of_ok passed, Run.bind_of_ok tested]
      rfl
  | head =>
      simp only [Task.outcome] at stops ⊢
      rw [stmts]
      exact Run.ending_bind stops
  | tail first =>
      simp only [Task.outcome]
      rw [stmts, Run.bind_of_ok first]

/-- An error passes outwards as it is. -/
theorem During.fails {e : RuntimeError} (during : During host budget t x u y)
    (fails : u.outcome host budget y = .error e z) : t.outcome host budget x = .error e z := by
  induction during with
  | itself => exact fails
  | inner _ begins ih =>
      refine ih ((begins.interrupted ?_).trans fails)
      intro w completes
      rw [fails] at completes
      cases completes

end

/-- A task that fails has an innermost task that fails, with the same error. -/
theorem exists_innermost {host : Host} {budget : Nat} {t : Task} {x y : Execution} {e : RuntimeError}
    (fails : t.outcome host budget x = .error e y) :
    ∃ u z, During host budget t x u z ∧ u.Innermost host budget z ∧
      u.outcome host budget z = .error e y := by
  by_cases innermost : t.Innermost host budget x
  · exact ⟨t, x, .itself, innermost, fails⟩
  · simp only [Task.Innermost, not_forall, not_exists] at innermost
    obtain ⟨u, z, begins, stops⟩ := innermost
    have inner : u.outcome host budget z = .error e y := (begins.interrupted stops).symm.trans fails
    have smaller := begins.smaller
    obtain ⟨v, w, during, found⟩ := exists_innermost inner
    exact ⟨v, w, (During.inner .itself begins).trans during, found⟩
termination_by (t.size, t.left)
decreasing_by
  rcases smaller with less | ⟨same, fewer⟩
  · exact Prod.Lex.left _ _ less
  · rw [same]
    exact Prod.Lex.right _ fewer

/-! ## Where errors are raised -/

/-- The error arose at a position, in the execution reached, and shows the line of the running script
there. -/
structure RaisedAt (pos : Position) (e : RuntimeError) (y : Execution) : Prop where
  place : e.pos = pos
  frame : e.frame = y.frameAt pos

/-- The task is a call, and the function that it calls fails with this very error. -/
def Task.Relays (host : Host) (t : Task) (x : Execution) (e : RuntimeError) (y : Execution) : Prop :=
  ∃ callee args pos values z f, t = .expr (.call callee args pos) ∧
    Eval.exprs host args x = .ok values z ∧ z.env.lookupFunction callee = .ok f ∧
    host f values z = .error (.runtime e) y

section

variable {host : Host} {x y : Execution} {e : RuntimeError} {pos : Position}

theorem raise_raised {α : Type} {cause : Cause}
    (failed : (Run.raise cause pos : Run RuntimeError α) x = .error e y) : RaisedAt pos e y := by
  cases failed
  exact ⟨rfl, rfl⟩

theorem ofFault_raised {α : Type} {result : Except Fault α}
    (failed : Run.ofFault result pos x = .error e y) : RaisedAt pos e y := by
  cases result with
  | ok a => cases failed
  | error f => exact raise_raised failed

theorem additive_raised {op : Operator} {a b : Value} (failed : additive op a b pos x = .error e y) :
    RaisedAt pos e y := by
  unfold additive at failed
  split at failed
  · exact ofFault_raised failed
  · exact ofFault_raised failed
  · exact ofFault_raised failed
  · exact raise_raised failed

theorem comparison_raised {op : Operator} {a b : Value}
    (failed : comparison op a b pos x = .error e y) : RaisedAt pos e y := by
  unfold comparison at failed
  split at failed
  · exact ofFault_raised failed
  · exact raise_raised failed

/-- A call fails at its own place, unless the function fails with an error of a script. -/
theorem invoke_raised {callee : Text} {args : List Value}
    (failed : invoke host callee args pos x = .error e y) :
    RaisedAt pos e y ∨
      ∃ f, x.env.lookupFunction callee = .ok f ∧ host f args x = .error (.runtime e) y := by
  unfold invoke at failed
  cases found : x.env.lookupFunction callee with
  | error fault =>
      rw [found] at failed
      exact .inl (raise_raised failed)
  | ok f =>
      rw [found] at failed
      simp only [Run.placedAt] at failed
      cases ended : host f args x with
      | error failure z =>
          rw [ended] at failed
          cases failed
          cases failure with
          | runtime inner => exact .inr ⟨f, rfl, ended⟩
          | plain | sentinel | fault | wrapped => exact .inl ⟨rfl, rfl⟩
      | ok v z =>
          rw [ended] at failed
          cases failed
      | exhausted =>
          rw [ended] at failed
          cases failed

/-- A test whose condition has a value fails at the condition. -/
theorem test_raised {word : Text} {condition : Expr} {v : Value} {z : Execution}
    (evaluated : expr host condition x = .ok v z) (failed : test host word condition x = .error e y) :
    RaisedAt condition.pos e y := by
  rw [test, Run.bind_of_ok evaluated] at failed
  exact ofFault_raised failed

end

namespace Task.Innermost

variable {host : Host} {budget : Nat} {x y : Execution} {err : RuntimeError}

/-- The operands of an operation have values, so it is the operation that fails. -/
theorem operation {level : Level} {op : Operator} {left right : Expr} {pos : Position}
    (evaluated : level = .additive ∨ level = .comparison)
    (innermost : Innermost host budget (.expr (.binary level op left right pos)) x)
    {operate : Value → Value → Run RuntimeError Value}
    (place : ∀ a b z, operate a b z = .error err y → RaisedAt pos err y)
    (fails : (do
      let a ← Eval.expr host left
      let b ← Eval.expr host right
      operate a b : Run RuntimeError Value) x = .error err y) : RaisedAt pos err y := by
  obtain ⟨z, first⟩ := innermost _ _ (.left evaluated)
  obtain ⟨a, first⟩ := Outcome.ending_eq_ok.mp first
  obtain ⟨w, second⟩ := innermost _ _ (.right evaluated first)
  obtain ⟨b, second⟩ := Outcome.ending_eq_ok.mp second
  rw [Run.bind_of_ok first, Run.bind_of_ok second] at fails
  exact place a b w fails

/-- An expression whose parts have values fails at its own place, or with an error that the function it
calls fails with. -/
theorem expr_raised {e : Expr} (innermost : Innermost host budget (.expr e) x)
    (fails : Eval.expr host e x = .error err y) :
    RaisedAt e.pos err y ∨ (Task.expr e).Relays host x err y := by
  cases e with
  | name id pos =>
      rw [Eval.expr, variableValue] at fails
      exact .inl (ofFault_raised fails)
  | literal kind text pos =>
      simp only [Eval.expr] at fails
      cases read : literal kind text with
      | ok v =>
          rw [read] at fails
          cases fails
      | error cause =>
          rw [read] at fails
          exact .inl (raise_raised fails)
  | call callee args pos =>
      obtain ⟨z, values⟩ := innermost _ _ .arguments
      obtain ⟨vs, values⟩ := Outcome.ending_eq_ok.mp values
      rw [Eval.expr, Run.bind_of_ok values] at fails
      rcases invoke_raised fails with raised | ⟨f, found, failed⟩
      · exact .inl raised
      · exact .inr ⟨callee, args, pos, vs, z, f, rfl, values, found, failed⟩
  | binary level op left right pos =>
      left
      cases level with
      | additive =>
          rw [Eval.expr] at fails
          exact innermost.operation (.inl rfl) (fun _ _ _ => additive_raised) fails
      | comparison =>
          rw [Eval.expr] at fails
          exact innermost.operation (.inr rfl) (fun _ _ _ => comparison_raised) fails
      | multiplicative | boolean =>
          rw [Eval.expr] at fails
          exact raise_raised fails
  | negation operand pos =>
      rw [Eval.expr] at fails
      exact .inl (raise_raised fails)

/-- A statement whose parts complete fails only as a loop or a branch, at its own place. -/
theorem stmt_raised {s : Stmt} (innermost : Innermost host budget (.stmt s) x)
    (fails : Eval.stmt host budget s x = .error err y) :
    ∃ pos, (Task.stmt s).place? = some pos ∧ RaisedAt pos err y := by
  cases s with
  | assign target value pos =>
      obtain ⟨z, valued⟩ := innermost _ _ .value
      obtain ⟨v, valued⟩ := Outcome.ending_eq_ok.mp valued
      rw [Eval.stmt] at fails
      exact nomatch (Run.bind_of_ok valued).symm.trans fails
  | call callee args pos =>
      obtain ⟨z, called⟩ := innermost _ _ .call
      obtain ⟨v, called⟩ := Outcome.ending_eq_ok.mp called
      rw [stmt_call, Run.bind_of_ok called] at fails
      cases fails
  | block body pos =>
      obtain ⟨z, ran⟩ := innermost _ _ .block
      obtain ⟨_, ran⟩ := Outcome.ending_eq_ok.mp ran
      rw [Eval.stmt, ran] at fails
      cases fails
  | loop word condition body bodyPos alternative pos =>
      obtain ⟨z, valued⟩ := innermost _ _ .condition
      obtain ⟨v, valued⟩ := Outcome.ending_eq_ok.mp valued
      rw [Eval.stmt] at fails
      cases tested : test host word condition x with
      | ok more w =>
          -- What follows the test is begun, so it completes.
          rw [Run.bind_of_ok tested] at fails
          cases more with
          | true =>
              obtain ⟨_, ran⟩ := innermost _ _ (.enter tested)
              obtain ⟨_, ran⟩ := Outcome.ending_eq_ok.mp ran
              exact nomatch ran.symm.trans fails
          | false =>
              obtain ⟨_, ran⟩ := innermost _ _ (.alternative tested)
              obtain ⟨_, ran⟩ := Outcome.ending_eq_ok.mp ran
              exact nomatch ran.symm.trans fails
      | error e w =>
          rw [Run.bind_apply, tested] at fails
          cases fails
          exact ⟨condition.pos, rfl, test_raised valued tested⟩
      | exhausted =>
          rw [Run.bind_apply, tested] at fails
          cases fails
  | branch condition body bodyPos alternative pos =>
      rw [Eval.stmt] at fails
      exact ⟨pos, rfl, raise_raised fails⟩

/-- A loop whose body and whose condition complete fails at the condition. -/
theorem passes_raised {word : Text} {condition : Expr} {body : List Stmt} {left : Nat}
    (innermost : Innermost host budget (.passes word condition body left) x)
    (fails : repeatWhile (test host word condition) (Eval.stmts host budget body) left x = .error err y) :
    RaisedAt condition.pos err y := by
  cases left with
  | zero => cases fails
  | succ left =>
      obtain ⟨z, ran⟩ := innermost _ _ .body
      obtain ⟨_, ran⟩ := Outcome.ending_eq_ok.mp ran
      obtain ⟨w, valued⟩ := innermost _ _ (.again ran)
      obtain ⟨v, valued⟩ := Outcome.ending_eq_ok.mp valued
      rw [repeatWhile_succ, Run.bind_of_ok ran] at fails
      cases tested : test host word condition z with
      | ok more w =>
          rw [Run.bind_of_ok tested] at fails
          cases more with
          | true =>
              obtain ⟨_, again⟩ := innermost _ _ (.another ran tested)
              obtain ⟨_, again⟩ := Outcome.ending_eq_ok.mp again
              exact nomatch again.symm.trans fails
          | false => cases fails
      | error e w =>
          rw [Run.bind_apply, tested] at fails
          cases fails
          exact test_raised valued tested
      | exhausted =>
          rw [Run.bind_apply, tested] at fails
          cases fails

/-- A task whose parts complete, and which fails, raises the error at its own place, or is a call that
hands on the error its function fails with. -/
theorem raised {t : Task} (innermost : t.Innermost host budget x)
    (fails : t.outcome host budget x = .error err y) :
    (∃ pos, t.place? = some pos ∧ RaisedAt pos err y) ∨ t.Relays host x err y := by
  cases t with
  | expr e =>
      exact (innermost.expr_raised (Outcome.ending_eq_error.mp fails)).imp_left fun raised =>
        ⟨e.pos, rfl, raised⟩
  | stmt s => exact .inl (innermost.stmt_raised (Outcome.ending_eq_error.mp fails))
  | passes word condition body left =>
      exact .inl ⟨condition.pos, rfl, innermost.passes_raised (Outcome.ending_eq_error.mp fails)⟩
  | exprs es =>
      have fails := Outcome.ending_eq_error.mp fails
      cases es with
      | nil => cases fails
      | cons e rest =>
          obtain ⟨z, first⟩ := innermost _ _ .first
          obtain ⟨v, first⟩ := Outcome.ending_eq_ok.mp first
          obtain ⟨w, others⟩ := innermost _ _ (.next first)
          obtain ⟨vs, others⟩ := Outcome.ending_eq_ok.mp others
          rw [Eval.exprs, Run.bind_of_ok first, Run.bind_of_ok others] at fails
          cases fails
  | stmts ss =>
      have fails := Outcome.ending_eq_error.mp fails
      cases ss with
      | nil => cases fails
      | cons s rest =>
          obtain ⟨z, first⟩ := innermost _ _ .head
          obtain ⟨_, first⟩ := Outcome.ending_eq_ok.mp first
          obtain ⟨w, others⟩ := innermost _ _ (.tail first)
          obtain ⟨_, others⟩ := Outcome.ending_eq_ok.mp others
          rw [Eval.stmts, Run.bind_of_ok first, others] at fails
          cases fails
  | otherwise alternative =>
      have fails := Outcome.ending_eq_error.mp fails
      cases alternative with
      | none => cases fails
      | some s =>
          obtain ⟨z, ran⟩ := innermost _ _ .other
          obtain ⟨_, ran⟩ := Outcome.ending_eq_ok.mp ran
          rw [Eval.otherwise, ran] at fails
          cases fails

/-- Where the only functions are those that display, which do not fail with an error of a script, a task
whose parts complete, and which fails, raises the error at its own place. -/
theorem place (tame : host.Tame True) (plain : x.env.Plain) {t : Task}
    (innermost : t.Innermost host budget x) (fails : t.outcome host budget x = .error err y) :
    t.place? = some err.pos := by
  rcases innermost.raised fails with ⟨pos, place, raised⟩ | relays
  · rw [place, raised.place]
  · obtain ⟨callee, args, pos, values, z, f, rfl, evaluated, found, failed⟩ := relays
    have same := exprs_env tame plain evaluated
    unfold Env.lookupFunction at found
    split at found
    · next g bound =>
        cases found
        have called := tame f values z ((same ▸ plain) callee _ bound)
        rw [failed] at called
        obtain ⟨⟨refusal, -, same⟩, -⟩ := called
        cases same
    · cases found
    · cases found

end Task.Innermost

end Eval

namespace Script

/-- **An error of a run is that of the innermost part that fails, and well placed.** Let a source that
compiles be run, from any state in which the only functions are those that display, and end in an error.
Its kind is one of four, its position is that of a node of the tree, and its frame is the one of that
position, which there is. Some part of the program was begun of which all parts completed, and which
raised this very error, at its own place; and every part that failed during the run did so with it. -/
theorem error_innermost {source : Text} {script : Script} {budget : Nat} {x y : Execution}
    {e : RuntimeError} (compiled : Script.compile source = .ok script) (plain : x.env.Plain)
    (ran : script.run budget x = .error e y) :
    e.kind.label ∈ ["NameError", "TypeError", "UnsupportedOperation", "RuntimeError"].map utf8 ∧
    (∃ m ∈ Program.marks script.program, m.pos = e.pos) ∧
    e.frame = codeFrame source e.pos ∧ e.frame ≠ [] ∧
    (∃ t z z', Eval.During (host budget) budget (.stmts script.program) { x with source := some source }
        t z ∧ t.Innermost (host budget) budget z ∧ t.outcome (host budget) budget z = .error e z' ∧
      t.place? = some e.pos) ∧
    ∀ t z e' z', Eval.During (host budget) budget (.stmts script.program)
        { x with source := some source } t z →
      t.outcome (host budget) budget z = .error e' z' → e' = e ∧ y = { z' with source := x.source } := by
  obtain ⟨read, rfl⟩ := compile_eq_ok.mp compiled
  obtain ⟨reached, failed, rfl⟩ := runWith_eq_error ran
  have tame := Host.host_tame_spent budget
  have fails : (Eval.Task.stmts script.program).outcome (host budget) budget
      { x with source := some script.source } = .error e reached := Outcome.ending_eq_error.mpr failed
  obtain ⟨t, z, during, innermost, raised⟩ := Eval.exists_innermost fails
  have begun := (during.keeps (fun _ plain => plain) tame plain fun n _ => Eval.plain_assignable n).1
  have place := innermost.place tame begun raised
  obtain ⟨m, member, same⟩ := Eval.Task.place_mem_marks place
  have node : m ∈ Program.marks script.program := during.marks_subset member
  have met := Eval.meets_stmts (fun _ plain => plain) tame budget script.program
    { x with source := some script.source } plain fun n _ => Eval.plain_assignable n
  rw [failed] at met
  obtain ⟨⟨s, -, raises⟩, framed, -⟩ := met
  refine ⟨?_, ⟨m, node, same⟩, framed, ?_, ⟨t, z, reached, during, innermost, raised, place⟩, ?_⟩
  · exact List.mem_map_of_mem (f := ErrorKind.label) raises.kind_mem
  · rw [Program.marks_of_read read] at node
    obtain ⟨token, kept, rfl⟩ := List.mem_map.mp node
    rw [framed, ← same]
    exact Token.codeFrame_ne_nil (List.mem_filter.mp kept).1
  · intro u w e' z' begins other
    have outer := begins.fails other
    rw [fails] at outer
    cases outer
    exact ⟨rfl, rfl⟩

/-- A loop whose second pass subtracts null, inside a subtraction inside a call. -/
def slipping : Text :=
  utf8 "n = 0\nm = 1\nwhile n < 2 \x7b\n  DISPLAY(1 - (n - m))\n  m = null\n  n = n + 1\n\x7d"

/-- The error is raised at the inner subtraction, which stands in the fourth line. -/
theorem error_innermost_second_pass :
    ∃ (script : Script) (e : RuntimeError) (y : Execution),
      Script.compile slipping = .ok script ∧
      script.run 3 (Engine.initial.newExecution (.empty none)) = .error e y ∧
      e.pos = ⟨4, 18⟩ ∧ e.kind = .type ∧ e.frame = codeFrame slipping ⟨4, 18⟩ ∧ e.frame ≠ [] ∧
      ∃ t z z', Eval.During (host 3) 3 (.stmts script.program)
          { Engine.initial.newExecution (.empty none) with source := some slipping } t z ∧
        t.Innermost (host 3) 3 z ∧ t.outcome (host 3) 3 z = .error e z' ∧ t.place? = some ⟨4, 18⟩ := by
  have computed : ((Script.compile slipping).toOption.any fun script =>
      (script.run 3 (Engine.initial.newExecution (.empty none))).failed.any fun ended =>
        decide (ended.1.pos = ⟨4, 18⟩ ∧ ended.1.kind = .type)) = true := by decide +kernel
  obtain ⟨script, found, checked⟩ := (Option.any_eq_true _ _).mp computed
  obtain ⟨⟨e, y⟩, failed, placed⟩ := (Option.any_eq_true _ _).mp checked
  obtain ⟨pos, kind⟩ := of_decide_eq_true placed
  have compiled := toOption_compile.mp found
  have ran := Outcome.failed_eq_some.mp failed
  obtain ⟨-, -, frame, framed, innermost, -⟩ := error_innermost compiled .initial ran
  dsimp only at pos
  rw [pos] at frame innermost
  exact ⟨script, e, y, compiled, ran, pos, kind, frame, framed, innermost⟩

end Script

end LoopScript
