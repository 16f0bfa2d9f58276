/-
# LoopScript.Proofs.Lint.Precision — what a warning is about fails wherever it is reached

The names that count as bound (`Lint.bound`) are all that a run can ever bind: a fresh execution binds
the functions of the engine, and the program assigns only to its targets. So `Within` holds in every
state of a run, and a name that nothing binds is absent in all of them.

Every form of expression that is evaluated evaluates all its operands, so a warning at any depth makes
the whole expression fail (`expr_fails`). `warned_fails` states this for all states of all runs, and that
a program whose statements are `Doomed` at the top level does not complete.
-/
import LoopScript.Proofs.Eval.Reach
import LoopScript.Proofs.Lint.Soundness

namespace LoopScript

set_option autoImplicit false

/-- The run gives no value; its budget is spent only if `spent`. -/
def Outcome.Fails {ε α : Type} (spent : Prop) (o : Outcome ε α) : Prop :=
  o.Meets spent (fun _ _ => False) (fun _ _ => True)

theorem Outcome.Fails.error {ε α : Type} {o : Outcome ε α} (fails : o.Fails False) :
    ∃ e y, o = .error e y := by
  cases o with
  | ok a y => exact fails.elim
  | error e y => exact ⟨e, y, rfl⟩
  | exhausted => exact fails.elim

theorem Run.fails_bind {ε α β : Type} {spent : Prop} {r : Run ε α} {next : α → Run ε β} {x : Execution}
    (fails : (r x).Fails spent) : ((r >>= next) x).Fails spent :=
  Run.meets_bind fails fun _ _ given => given.elim

namespace Lint

theorem eq_false_of_warnIfNot {fine : Bool} {pos : Position} {cause : Cause}
    (warned : warnIfNot fine pos cause ≠ []) : fine = false := by
  cases fine with
  | true => exact absurd rfl warned
  | false => rfl

/-- A statement that fails whenever it is reached: its value, its call or its condition has a warning,
or it is a branch. -/
def Doomed (isBound : Text → Bool) : Stmt → Prop
  | .assign _ value _ => ofExpr isBound value ≠ []
  | .call callee args pos => ofExpr isBound (.call callee args pos) ≠ []
  | .loop _ condition _ _ _ _ => ofExpr isBound condition ≠ []
  | .branch _ _ _ _ _ => True
  | .block _ _ => False

instance (isBound : Text → Bool) : DecidablePred (Doomed isBound)
  | .assign _ value _ => inferInstanceAs (Decidable (ofExpr isBound value ≠ []))
  | .call callee args pos => inferInstanceAs (Decidable (ofExpr isBound (.call callee args pos) ≠ []))
  | .loop _ condition _ _ _ _ => inferInstanceAs (Decidable (ofExpr isBound condition ≠ []))
  | .branch _ _ _ _ _ => inferInstanceAs (Decidable True)
  | .block _ _ => inferInstanceAs (Decidable False)

end Lint

namespace Eval

/-- Bound functions display, and a name that does not count as bound is not bound. -/
structure Within (isBound : Text → Bool) (env : Env) : Prop where
  plain : env.Plain
  absent : ∀ n, isBound n = false → env.get? n = none

theorem Within.assignable {isBound : Text → Bool} {name : Text} (counted : isBound name = true) :
    Assignable (Within isBound) name := by
  intro env v within value
  refine ⟨within.plain.insert name value, fun n unbound => ?_⟩
  rw [Table.get?_insert, if_neg]
  · exact within.absent n unbound
  · rintro rfl
    rw [counted] at unbound
    cases unbound

variable {isBound : Text → Bool} {spent : Prop} {host : Host}

/-- Two operands and an operation on them fail if one of the three does. -/
theorem operands_fail {left right : Expr} {operate : Value → Value → Run RuntimeError Value}
    {x : Execution} (tame : host.Tame spent) (within : Within isBound x.env)
    (fails : (expr host left x).Fails spent ∨
      (∀ y, Within isBound y.env → (expr host right y).Fails spent) ∨
      ∀ a b y, (operate a b y).Fails spent) :
    ((do
      let a ← expr host left
      let b ← expr host right
      operate a b : Run RuntimeError Value) x).Fails spent := by
  rcases fails with left | fails
  · exact Run.fails_bind left
  refine Run.meets_bind ((meets_expr tame left x within.plain).mono (fun _ _ met => met.2) ?_)
    fun a y writes => ?_
  · exact fun _ _ _ => trivial
  have withinLeft : Within isBound y.env := writes.env ▸ within
  rcases fails with right | operation
  · exact Run.fails_bind (right y withinLeft)
  · refine Run.meets_bind ((meets_expr tame right y withinLeft.plain).mono (fun _ _ met => met.2) ?_)
      fun b z _ => operation a b z
    exact fun _ _ _ => trivial

theorem comparison_fails {op : Operator} (notLess : op ≠ .lt) (a b : Value) (pos : Position)
    (x : Execution) : (comparison op a b pos x).Fails spent := by
  unfold comparison
  split
  · exact absurd rfl notLess
  · trivial

mutual

/-- An expression with a warning gives no value. -/
theorem expr_fails (tame : host.Tame spent) : ∀ (e : Expr) (x : Execution), Within isBound x.env →
    Lint.ofExpr isBound e ≠ [] → (expr host e x).Fails spent
  | .name id pos, x, within, warned => by
      have absent := within.absent id (Lint.eq_false_of_warnIfNot warned)
      rw [expr, variableValue, Env.lookup, absent]
      trivial
  | .literal _ _ _, _, _, warned => absurd rfl warned
  | .call callee args pos, x, within, warned => by
      rw [expr]
      by_cases clean : Lint.ofExprs isBound args = []
      · -- The arguments leave the bindings alone, so the name is still absent when it is looked up.
        rw [Lint.ofExpr, clean, List.append_nil] at warned
        refine Run.meets_bind ((meets_exprs tame args x within.plain).mono (fun _ _ writes => writes)
          fun _ _ _ => trivial) fun values y writes => ?_
        have absent := within.absent callee (Lint.eq_false_of_warnIfNot warned)
        rw [← writes.env] at absent
        rw [invoke, Env.lookupFunction, absent]
        trivial
      · exact Run.fails_bind (exprs_fail tame args x within clean)
  | .binary .additive op left right pos, x, within, warned => by
      rw [expr]
      refine operands_fail tame within ?_
      by_cases clean : Lint.ofExpr isBound left = []
      · rw [Lint.ofExpr, clean] at warned
        exact .inr (.inl fun y within => expr_fails tame right y within warned)
      · exact .inl (expr_fails tame left x within clean)
  | .binary .comparison op left right pos, x, within, warned => by
      rw [expr]
      refine operands_fail tame within ?_
      by_cases clean : Lint.ofExpr isBound left = []
      · by_cases less : op = .lt
        · rw [Lint.ofExpr, clean, less] at warned
          exact .inr (.inl fun y within => expr_fails tame right y within warned)
        · exact .inr (.inr fun a b => comparison_fails less a b pos)
      · exact .inl (expr_fails tame left x within clean)
  | .binary .multiplicative _ _ _ _, _, _, _ => trivial
  | .binary .boolean _ _ _ _, _, _, _ => trivial
  | .negation _ _, _, _, _ => trivial

/-- Expressions one of which has a warning give no values. -/
theorem exprs_fail (tame : host.Tame spent) : ∀ (es : List Expr) (x : Execution),
    Within isBound x.env → Lint.ofExprs isBound es ≠ [] → (exprs host es x).Fails spent
  | [], _, _, warned => absurd rfl warned
  | e :: rest, x, within, warned => by
      rw [exprs]
      by_cases clean : Lint.ofExpr isBound e = []
      · rw [Lint.ofExprs, clean, List.nil_append] at warned
        refine Run.meets_bind ((meets_expr tame e x within.plain).mono (fun _ _ met => met.2)
          fun _ _ _ => trivial) fun v y writes => ?_
        exact Run.fails_bind (exprs_fail tame rest y (writes.env ▸ within) warned)
      · exact Run.fails_bind (expr_fails tame e x within clean)

end

theorem stmt_fails (tame : host.Tame spent) (budget : Nat) {s : Stmt} {x : Execution}
    (within : Within isBound x.env) (doomed : Lint.Doomed isBound s) :
    (stmt host budget s x).Fails spent := by
  cases s with
  | assign target value pos =>
      rw [stmt]
      exact Run.fails_bind (expr_fails tame value x within doomed)
  | call callee args pos =>
      rw [stmt_call]
      exact Run.fails_bind (expr_fails tame (.call callee args pos) x within doomed)
  | block body pos => exact doomed.elim
  | loop word condition body bodyPos alternative pos =>
      rw [stmt, test]
      exact Run.fails_bind (Run.fails_bind (expr_fails tame condition x within doomed))
  | branch condition body bodyPos alternative pos => trivial

/-- Statements one of which is doomed do not complete, whatever the others do. -/
theorem stmts_fail (tame : host.Tame True) (budget : Nat) : ∀ (ss : List Stmt) (x : Execution),
    Within isBound x.env → (∀ n ∈ Stmt.targets.targetsAll ss, isBound n = true) →
      (∃ s ∈ ss, Lint.Doomed isBound s) → (stmts host budget ss x).Fails True
  | s :: rest, x, within, counted, ⟨s', member, doomed⟩ => by
      rw [stmts]
      rcases List.mem_cons.mp member with rfl | member
      · exact Run.fails_bind (stmt_fails tame budget within doomed)
      · have first := meets_stmt (fun _ within => within.plain) tame budget s x within fun n target =>
          Within.assignable (counted n (List.mem_append_left _ target))
        refine Run.meets_bind (first.mono (fun _ _ goes => goes) fun _ _ _ => trivial)
          fun _ y goes => ?_
        exact stmts_fail tame budget rest y goes.env
          (fun n target => counted n (List.mem_append_right _ target)) ⟨s', member, doomed⟩

theorem within_initial (program : Program) :
    Within (Lint.bound Engine.initial.builtins.names program) Engine.initial.builtins := by
  refine ⟨Env.Plain.initial, fun n unbound => ?_⟩
  cases found : Engine.initial.builtins.get? n with
  | none => rfl
  | some v =>
      have named : n ∈ Engine.initial.builtins.names :=
        Table.mem_names.mpr (by rw [found]; rfl)
      rw [Lint.bound_iff.mpr (.inl named)] at unbound
      cases unbound

theorem bound_of_target {builtins : List Text} {program : Program} :
    ∀ n ∈ Stmt.targets.targetsAll program, Lint.bound builtins program n = true := by
  intro n target
  rw [Stmt.targetsAll_eq] at target
  exact Lint.bound_iff.mpr (.inr target)

end Eval

namespace Script

/-- **A warning is no false alarm.** Take any state that a run of a script passes through, from a fresh
execution of an engine that can only display. An expression with a warning ends in an error there, and
so does every branch. A script that has a warning in an assigned value, a call or the condition of a loop
at its top level, or a branch there, does not complete. -/
theorem warned_fails (script : Script) :
    (∀ (budget : Nat) (sink : Sink) (y : Execution),
      script.Visits (host budget) budget (Engine.initial.newExecution sink) y →
        (∀ e : Expr,
          Lint.ofExpr (Lint.bound Engine.initial.builtins.names script.program) e ≠ [] →
            ∀ n : Nat, ∃ err z, Eval.expr (host (n + 1)) e y = .error err z) ∧
        ∀ (condition : Expr) (body : List Stmt) (bodyPos : Position) (alternative : Option Stmt)
          (pos : Position) (n m : Nat), ∃ err z,
            Eval.stmt (host n) m (.branch condition body bodyPos alternative pos) y = .error err z) ∧
    ((∃ s ∈ script.program,
        Lint.Doomed (Lint.bound Engine.initial.builtins.names script.program) s) →
      ∀ (budget : Nat) (sink : Sink) (y : Execution),
        script.run budget (Engine.initial.newExecution sink) ≠ .ok () y) := by
  have within := Eval.within_initial script.program
  constructor
  · intro budget sink y visits
    have reached := visits.keeps (fun _ within => within.plain) (Host.host_tame_spent budget) within
      fun n target => Eval.Within.assignable (Eval.bound_of_target n target)
    constructor
    · intro e warned n
      exact (Eval.expr_fails (Host.host_tame n) e y reached warned).error
    · intro condition body bodyPos alternative pos n m
      exact ⟨_, _, rfl⟩
  · intro doomed budget sink y completed
    obtain ⟨z, ended, -⟩ := runWith_eq_ok completed
    have fails := Eval.stmts_fail (Host.host_tame_spent budget) budget script.program
      { Engine.initial.newExecution sink with source := some script.source } within
      Eval.bound_of_target doomed
    rw [ended] at fails
    exact fails

/-- A name that is never assigned, used after the bindings have changed: the run ends in an error, the
name fails in the state where it ends, and no run completes. -/
theorem warned_fails_never_assigned :
    ∃ (script : Script) (y : Execution),
      Script.compile (utf8 "n = 1\nDISPLAY(n + m)") = .ok script ∧
      script.Visits (host 2) 2 (Engine.initial.newExecution (.empty none)) y ∧
      (y.env.get? (utf8 "n")).isSome ∧
      Lint.ofExpr (Lint.bound Engine.initial.builtins.names script.program)
        (.name (utf8 "m") ⟨2, 13⟩) ≠ [] ∧
      (∃ err z, Eval.expr (host 1) (.name (utf8 "m") ⟨2, 13⟩) y = .error err z) ∧
      ∀ z, script.run 2 (Engine.initial.newExecution (.empty none)) ≠ .ok () z := by
  have computed : ((Script.compile (utf8 "n = 1\nDISPLAY(n + m)")).toOption.any fun script =>
      let isBound := Lint.bound Engine.initial.builtins.names script.program
      decide (Lint.ofExpr isBound (.name (utf8 "m") ⟨2, 13⟩) ≠ [] ∧
        ∃ s ∈ script.program, Lint.Doomed isBound s) &&
      (Eval.stmts (host 2) 2 script.program { Engine.initial.newExecution (.empty none) with
        source := some script.source }).failed.any
          fun ended => (ended.2.env.get? (utf8 "n")).isSome) = true := by decide +kernel
  obtain ⟨script, found, checked⟩ := (Option.any_eq_true _ _).mp computed
  obtain ⟨warnings, fails⟩ := Bool.and_eq_true_iff.mp checked
  obtain ⟨warned, doomed⟩ := of_decide_eq_true warnings
  obtain ⟨⟨e, y⟩, ended, assigned⟩ := (Option.any_eq_true _ _).mp fails
  have visits : script.Visits (host 2) 2 (Engine.initial.newExecution (.empty none)) y :=
    ⟨_, _, .itself, .inr (by rw [Eval.Task.Ends, Outcome.failed_eq_some.mp ended]; rfl)⟩
  have held := warned_fails script
  exact ⟨script, y, toOption_compile.mp found, visits, assigned, warned,
    (held.1 2 (.empty none) y visits).1 _ warned 0, held.2 doomed 2 (.empty none)⟩

end Script

end LoopScript
