/-
# LoopScript.Proofs.Eval.Footprint — the names a script reads and the names it binds

Where the only functions are those that display, a script depends on the names it mentions and changes
the names it assigns to.

`run_reads_mentioned`: in executions that agree on the mentioned names it writes the same and comes to the
same, and they agree on these names again. What else is bound, by earlier scripts say, makes no difference.

`run_binds_targets`: whether it completes or fails, every other name is bound as before, no name is
unbound, and what has been written stays. An expression binds nothing at all, so an assignment whose value
fails leaves its target alone.
-/
import LoopScript.Proofs.Eval.Coupling
import LoopScript.Proofs.Parser

namespace LoopScript

set_option autoImplicit false

/-! ## Reading -/

theorem Execution.Agrees.output {mentioned : Text → Prop} {x y a b : Execution}
    (agrees : x.Agrees mentioned y a b) : ∃ output : Text,
      x.sink.contents = a.sink.contents ++ output ∧ y.sink.contents = b.sink.contents ++ output := by
  obtain ⟨texts, left, right⟩ := agrees.written
  refine ⟨texts.flatten, ?_, ?_⟩
  · rw [Sink.contents, left, List.flatten_append, Sink.contents]
  · rw [Sink.contents, right, List.flatten_append, Sink.contents]

namespace Script

/-- **A script reads only the names it mentions.** Run it in two executions in which the only functions are
those that display, which agree on the names of its variables, of the functions it calls and of the
targets of its assignments, and whose sinks have the same limit. It writes the same text in both and comes
to the same: it completes in both, or ends in the very same error, or spends its budget. Afterwards the
executions agree on those names again. -/
theorem run_reads_mentioned (budget : Nat) (script : Script) {x y : Execution} (plain : x.env.Plain)
    (agree : ∀ n ∈ Stmt.namesAll script.program, y.env.get? n = x.env.get? n)
    (limit : y.sink.limit = x.sink.limit) :
    (script.run budget x).Alike
      (fun z w => (∀ n ∈ Stmt.namesAll script.program, w.env.get? n = z.env.get? n) ∧
        ∃ output : Text, z.sink.contents = x.sink.contents ++ output ∧
          w.sink.contents = y.sink.contents ++ output)
      (script.run budget y) := by
  have agrees : x.Agrees (· ∈ Stmt.namesAll script.program) y x y :=
    ⟨plain, agree, limit, [], (List.append_nil _).symm, (List.append_nil _).symm⟩
  exact (script.run_agrees budget (fun _ => id) agrees).mono fun z w _ after =>
    ⟨after.1.names, after.1.output⟩

/-- An execution in which one name is bound. -/
def tidyExecution : Execution :=
  (Engine.initial.newExecution (.empty none)).define (utf8 "a") (.int 1)

/-- The same execution with something left over: another name is bound, and a line has been written. -/
def usedExecution : Execution :=
  { tidyExecution.define (utf8 "c") (.text (utf8 "left over")) with sink := ⟨#[utf8 "old\n"], none⟩ }

/-- A script that displays and then fails does both alike, with or without what is left over. -/
theorem run_reads_mentioned_left_over :
    ∃ (script : Script) (e : RuntimeError) (z w : Execution),
      Script.compile (utf8 "b = a DISPLAY(b) DISPLAY(b - null)") = .ok script ∧
      script.run 2 tidyExecution = .error e z ∧ e.kind = .type ∧ z.sink.contents = utf8 "1\n" ∧
      script.run 2 usedExecution = .error e w ∧ w.sink.contents = utf8 "old\n1\n" ∧
      w.env.get? (utf8 "b") = z.env.get? (utf8 "b") := by
  have computed : ((Script.compile (utf8 "b = a DISPLAY(b) DISPLAY(b - null)")).toOption.any
      fun script => decide (utf8 "c" ∉ Stmt.namesAll script.program ∧
          utf8 "b" ∈ Stmt.namesAll script.program) &&
        (script.run 2 tidyExecution).failed.any fun ended =>
          decide (ended.1.kind = .type ∧ ended.2.sink.contents = utf8 "1\n")) = true := by
    decide +kernel
  obtain ⟨script, found, checked⟩ := (Option.any_eq_true _ _).mp computed
  obtain ⟨names, fails⟩ := Bool.and_eq_true_iff.mp checked
  obtain ⟨unmentioned, mentioned⟩ := of_decide_eq_true names
  obtain ⟨⟨e, z⟩, failed, shown⟩ := (Option.any_eq_true _ _).mp fails
  obtain ⟨kind, written⟩ := of_decide_eq_true shown
  have ran := Outcome.failed_eq_some.mp failed
  have plain : tidyExecution.env.Plain := Env.Plain.initial.insert _ trivial
  have agree : ∀ n ∈ Stmt.namesAll script.program,
      usedExecution.env.get? n = tidyExecution.env.get? n := by
    intro n member
    have ne : n ≠ utf8 "c" := fun same => unmentioned (same ▸ member)
    exact (Table.get?_insert _ _ _ _).trans (if_neg ne)
  have alike := run_reads_mentioned 2 script plain agree rfl
  rw [ran] at alike
  generalize other : script.run 2 usedExecution = right at alike
  cases alike with
  | @error _ _ w after =>
      obtain ⟨again, output, left, right⟩ := after
      dsimp only at written
      have same : output = utf8 "1\n" := left.symm.trans written
      exact ⟨script, e, z, w, toOption_compile.mp found, ran, kind, written, other,
        right.trans (by rw [same]; rfl), again _ mentioned⟩

end Script

/-! ## Binding -/

namespace Eval

/-- Bindings that differ from the given ones in the given names at most; none of them is unbound. -/
structure Rebinds (targets : List Text) (before after : Env) : Prop where
  plain : after.Plain
  others : ∀ n, n ∉ targets → after.get? n = before.get? n
  stays : ∀ n, (before.get? n).isSome → (after.get? n).isSome

theorem Rebinds.assignable {targets : List Text} {before : Env} {n : Text} (member : n ∈ targets) :
    Assignable (Rebinds targets before) n := by
  intro env v rebinds value
  refine ⟨rebinds.plain.insert n value, fun m other => ?_, fun m bound => ?_⟩
  · have ne : m ≠ n := fun same => other (same ▸ member)
    rw [Table.get?_insert, if_neg ne, rebinds.others m other]
  · rw [Table.get?_insert]
    split
    · rfl
    · exact rebinds.stays m bound

/-- Wherever statements end, they have bound their targets at most, and written. -/
theorem stmts_rebind {host : Host} (tame : host.Tame True) {budget : Nat} {ss : List Stmt}
    {x y : Execution} (plain : x.env.Plain) (reached : (stmts host budget ss x).Reaches y) :
    Rebinds (Program.targets ss) x.env y.env ∧ x.sink.contents <+: y.sink.contents := by
  have met := meets_stmts (fun _ (rebinds : Rebinds (Program.targets ss) x.env _) => rebinds.plain) tame
    budget ss x ⟨plain, fun _ _ => rfl, fun _ => id⟩ fun n member =>
      Rebinds.assignable (Stmt.targetsAll_eq ss ▸ member)
  exact met.reaches (P := fun z => Rebinds _ x.env z.env ∧ x.sink.contents <+: z.sink.contents) reached
    (fun _ _ goes => ⟨goes.env, goes.sink⟩) fun _ _ ended => ⟨ended.2.2.env, ended.2.2.sink⟩

/-- Wherever an expression ends, it has bound nothing. -/
theorem expr_rebinds_nothing {host : Host} (tame : host.Tame True) {e : Expr} {x y : Execution}
    (plain : x.env.Plain) (reached : (expr host e x).Reaches y) : y.env = x.env :=
  (meets_expr tame e x plain).reaches reached (fun _ _ met => met.2.env) fun _ _ fails => fails.2.2.env

end Eval

namespace Script

/-- **A script binds only the names it assigns to, whether it completes or fails.** Run it where the only
functions are those that display. Wherever the run ends, every name that no assignment of the script has
for its target is bound, or unbound, as before; no name that was bound is unbound; and what had been
written before is the beginning of what has been written. Evaluating an expression, to a value or to an
error, changes no binding, and an assignment whose value fails ends right there. -/
theorem run_binds_targets (budget : Nat) (script : Script) {x : Execution} (plain : x.env.Plain) :
    (∀ y, (script.run budget x).Reaches y →
      (∀ n, n ∉ Program.targets script.program → y.env.get? n = x.env.get? n) ∧
      (∀ n, (x.env.get? n).isSome → (y.env.get? n).isSome) ∧ x.sink.contents <+: y.sink.contents) ∧
    (∀ (e : Expr) (z w : Execution), z.env.Plain → (Eval.expr (host budget) e z).Reaches w →
      w.env = z.env) ∧
    ∀ (target : Text) (value : Expr) (pos : Position) (z w : Execution) (e : RuntimeError),
      z.env.Plain → Eval.expr (host budget) value z = .error e w →
        Eval.stmt (host budget) budget (.assign target value pos) z = .error e w ∧ w.env = z.env := by
  have tame := Host.host_tame_spent budget
  refine ⟨fun y reached => ?_, fun e z w plain => Eval.expr_rebinds_nothing tame plain, ?_⟩
  · obtain ⟨z, ended, rfl⟩ := Outcome.reaches_mapReached.mp reached
    obtain ⟨rebinds, written⟩ :=
      Eval.stmts_rebind (x := { x with source := some script.source }) tame plain ended
    exact ⟨rebinds.others, rebinds.stays, written⟩
  · intro target value pos z w e plain failed
    refine ⟨?_, Eval.expr_rebinds_nothing tame plain (by rw [failed]; rfl)⟩
    rw [Eval.stmt]
    exact (Run.bind_apply _ _ z).trans (by rw [failed])

/-- A script that assigns to one name, fails at the value for another, and never comes to a third. -/
theorem run_binds_targets_failing :
    ∃ (script : Script) (e : RuntimeError) (y : Execution),
      Script.compile (utf8 "a = 2 b = a - null d = 3") = .ok script ∧
      script.run 2 usedExecution = .error e y ∧ (y.env.get? (utf8 "a")).map Value.render = some (utf8 "2") ∧
      y.env.get? (utf8 "b") = none ∧ y.env.get? (utf8 "c") = usedExecution.env.get? (utf8 "c") ∧
      utf8 "old\n" <+: y.sink.contents := by
  have computed : ((Script.compile (utf8 "a = 2 b = a - null d = 3")).toOption.any fun script =>
      decide (utf8 "c" ∉ Program.targets script.program) &&
        (script.run 2 usedExecution).failed.any fun ended =>
          decide ((ended.2.env.get? (utf8 "a")).map Value.render = some (utf8 "2") ∧
            (ended.2.env.get? (utf8 "b")).isNone)) = true := by decide +kernel
  obtain ⟨script, found, checked⟩ := (Option.any_eq_true _ _).mp computed
  obtain ⟨target, fails⟩ := Bool.and_eq_true_iff.mp checked
  obtain ⟨⟨e, y⟩, failed, shown⟩ := (Option.any_eq_true _ _).mp fails
  obtain ⟨bound, absent⟩ := of_decide_eq_true shown
  have ran := Outcome.failed_eq_some.mp failed
  have tidy : tidyExecution.env.Plain := Env.Plain.initial.insert _ trivial
  have plain : usedExecution.env.Plain := tidy.insert _ trivial
  obtain ⟨others, -, written⟩ := (run_binds_targets 2 script plain).1 y (by rw [ran]; rfl)
  exact ⟨script, e, y, toOption_compile.mp found, ran, bound, Option.isNone_iff_eq_none.mp absent,
    others _ (of_decide_eq_true target), written⟩

end Script

end LoopScript
