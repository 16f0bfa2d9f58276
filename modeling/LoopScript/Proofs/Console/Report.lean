/-
# LoopScript.Proofs.Console.Report — an entry tells what running its source came to

Running a source adds one entry to the transcript (`evaluate_cases`). The entry shows what was written to a
sink of its own. That is a line for each value displayed (`Script.run_shows`), so the display lines are the
lines of these values, value by value (`displayLines_lines`): a value that shows as nothing gives an empty
line, one that holds line feeds gives several.

The echo is looked up in the bindings after the run. Since the last statement is the last to bind, that is
what it bound (`stmts_last_assignment`).
-/
import LoopScript.Proofs.Console.Contents
import LoopScript.Proofs.Eval.Relocation
import LoopScript.Proofs.Text.Lines

namespace LoopScript

set_option autoImplicit false

/-! ## The last statement -/

/-- Statements of which the last is an assignment complete with it: those before it have been run, its value
has been evaluated, and its name is bound to the value. -/
theorem Eval.stmts_last_assignment {host : Host} {budget : Nat} {program : Program} {target : Text}
    {value : Expr} {pos : Position} {x w : Execution}
    (last : program.getLast? = some (.assign target value pos))
    (ended : stmts host budget program x = .ok () w) :
    ∃ y z v, stmts host budget program.dropLast x = .ok () y ∧ expr host value y = .ok v z ∧
      w = z.define target v := by
  obtain ⟨first, rfl⟩ := List.getLast?_eq_some_iff.mp last
  rw [List.dropLast_concat]
  rw [stmts_append] at ended
  obtain ⟨_, y, before, assigned⟩ := Run.bind_eq_ok ended
  rw [stmts, stmt] at assigned
  obtain ⟨_, w', statement, nothing⟩ := Run.bind_eq_ok assigned
  obtain ⟨v, z, evaluated, bound⟩ := Run.bind_eq_ok statement
  cases bound
  cases nothing
  exact ⟨y, z, v, before, evaluated, rfl⟩

namespace Console

/-! ## Displayed lines -/

/-- Lines are written one for each value; less the last line feed, they are the lines of the values. -/
theorem lines_of_values (v : Value) (rest : List Value) :
    ∃ body, ((v :: rest).map Value.line).flatten = body ++ [Text.newline] ∧
      Text.splitLines body = (v :: rest).flatMap fun w => Text.splitLines w.render := by
  induction rest generalizing v with
  | nil => exact ⟨v.render, by simp [Value.line], by simp⟩
  | cons next more ih =>
      obtain ⟨body, written, lines⟩ := ih next
      refine ⟨v.render ++ Text.newline :: body, ?_, ?_⟩
      · rw [List.map_cons, List.flatten_cons, written]
        simp [Value.line]
      · rw [Text.splitLines_append_newline, lines]
        rfl

/-- The displayed lines are the lines of the values, value by value. -/
theorem displayLines_lines (values : List Value) :
    displayLines (values.map Value.line).flatten = values.flatMap fun v => Text.splitLines v.render := by
  cases values with
  | nil => rfl
  | cons v rest =>
      obtain ⟨body, written, lines⟩ := lines_of_values v rest
      rw [written, displayLines, if_neg (by simp), if_pos (by simp), List.dropLast_concat, lines]

/-- What a run in the bindings of a session displays. -/
theorem displayLines_run {budget : Nat} {script : Script} {env : Env} {x : Execution}
    (native : env.Native) (reached : (script.run budget ⟨env, .empty none, none⟩).Reaches x) :
    displayLines x.sink.contents =
      (script.shown budget ⟨env, .empty none, none⟩).flatMap fun v => Text.splitLines v.render := by
  have displayed := script.run_shows Engine.displays_of_eq budget _ x native.offers rfl reached
  have written : x.sink.contents =
      ((script.shown budget ⟨env, .empty none, none⟩).map Value.line).flatten := by
    rw [Sink.contents, displayed.written]
    rfl
  rw [written, displayLines_lines]

/-! ## The echo -/

/-- There is no echo unless the last statement is an assignment. -/
theorem echoOf_of_other {program : Program} {env : Env}
    (other : ∀ target value pos, program.getLast? ≠ some (.assign target value pos)) :
    echoOf program env = [] := by
  unfold echoOf
  split
  · next last => exact absurd last (other _ _ _)
  · rfl

/-- The echo tells what the last statement has bound. -/
theorem echoOf_bound {program : Program} {env : Env} {target : Text} {value : Expr} {pos : Position}
    {v : Value} (last : program.getLast? = some (.assign target value pos))
    (bound : env.get? target = some v) : echoOf program env = target ++ utf8 " = " ++ v.inspect := by
  unfold echoOf
  rw [last]
  dsimp only
  rw [bound]

theorem echoOf_run {budget : Nat} {script : Script} {x y : Execution} {target : Text} {value : Expr}
    {pos : Position} (last : script.program.getLast? = some (.assign target value pos))
    (ran : script.run budget x = .ok () y) :
    ∃ before evaluated v,
      Eval.stmts (host budget) budget script.program.dropLast { x with source := some script.source } =
        .ok () before ∧
      Eval.expr (host budget) value before = .ok v evaluated ∧
      y.env = evaluated.env.insert target v ∧
      echoOf script.program y.env = target ++ utf8 " = " ++ v.inspect := by
  obtain ⟨w, ended, rfl⟩ := Script.runWith_eq_ok ran
  obtain ⟨before, evaluated, v, started, reached, rfl⟩ := Eval.stmts_last_assignment last ended
  refine ⟨before, evaluated, v, started, reached, rfl, echoOf_bound last ?_⟩
  show (evaluated.env.insert target v).get? target = some v
  rw [Table.get?_insert, if_pos rfl]

/-! ## The entry -/

/-- **An entry tells what running its source came to.** Let a source be run in a session that any events
have led to, with any toolkit, and let the run not spend its budget. Only the bindings change and one entry
is added.

If the source does not compile, the entry shows the errors, no display and no echo, and the bindings stay.
If it compiles, the display is, value by value, the lines of what the run displayed in the bindings of the
session. If the run fails, the entry shows its error and no echo. If it completes, there is no error, and
there is an echo exactly if the last statement is an assignment: then that statement bound its name to the
value of its expression, after the statements before it, and the echo tells that. -/
theorem evaluate_reports {kit : Toolkit} {budget limit : Nat} {events : List Event} {c next : Console}
    {source : Text} (reached : updates limit (start kit) events = some c)
    (ran : c.evaluate budget source = some next) :
    ∃ entry, next = { c with env := next.env }.report entry ∧
      entry.source = Text.splitLines source ∧ entry.note = [] ∧
      (∀ ds, Script.compile source = .error ds → entry.display = [] ∧ entry.echo = [] ∧
        entry.error = Diagnostic.renderAll source ds ∧ next.env = c.env) ∧
      ∀ script, Script.compile source = .ok script →
        let start : Execution := ⟨c.env, .empty none, none⟩
        entry.display = ((script.shown budget start).flatMap fun v => Text.splitLines v.render) ∧
        script.run budget start ≠ .exhausted ∧
        (∀ e x, script.run budget start = .error e x →
          entry.error = e.message ∧ entry.echo = [] ∧ next.env = x.env) ∧
        ∀ x, script.run budget start = .ok () x → entry.error = [] ∧ next.env = x.env ∧
          (entry.echo ≠ [] ↔
            ∃ target value pos, script.program.getLast? = some (.assign target value pos)) ∧
          ∀ target value pos, script.program.getLast? = some (.assign target value pos) →
            ∃ before evaluated v,
              Eval.stmts (host budget) budget script.program.dropLast
                { start with source := some script.source } = .ok () before ∧
              Eval.expr (host budget) value before = .ok v evaluated ∧
              x.env = evaluated.env.insert target v ∧
              entry.echo = target ++ utf8 " = " ++ v.inspect := by
  have native := (updates_tidy reached).env
  rcases evaluate_cases ran with ⟨ds, refused, rfl⟩ | ⟨script, compiled, ⟨x, ended, rfl⟩ | ⟨e, x, ended, rfl⟩⟩
  · refine ⟨_, rfl, rfl, rfl, fun ds' same => ?_, fun script compiled => ?_⟩
    · cases refused.symm.trans same
      exact ⟨rfl, rfl, rfl, rfl⟩
    · cases refused.symm.trans compiled
  · refine ⟨_, rfl, rfl, rfl, fun ds same => ?_, fun script' same => ?_⟩
    · cases compiled.symm.trans same
    · cases compiled.symm.trans same
      refine ⟨displayLines_run native (by rw [ended]; rfl), fun spent => ?_, fun e x' other => ?_, ?_⟩
      · cases ended.symm.trans spent
      · cases ended.symm.trans other
      · intro x' same
        cases ended.symm.trans same
        refine ⟨rfl, rfl, ⟨fun echo => ?_, ?_⟩, fun target value pos last => echoOf_run last ended⟩
        · by_contra other
          exact echo (echoOf_of_other fun target value pos last => other ⟨target, value, pos, last⟩)
        · rintro ⟨target, value, pos, last⟩
          obtain ⟨_, _, v, -, -, -, echo⟩ := echoOf_run last ended
          rw [echo]
          simp [utf8]
  · refine ⟨_, rfl, rfl, rfl, fun ds same => ?_, fun script' same => ?_⟩
    · cases compiled.symm.trans same
    · cases compiled.symm.trans same
      refine ⟨displayLines_run native (by rw [ended]; rfl), fun spent => ?_, fun e' x' same => ?_, ?_⟩
      · cases ended.symm.trans spent
      · cases ended.symm.trans same
        exact ⟨rfl, rfl, rfl⟩
      · intro x' other
        cases ended.symm.trans other

/-- Three calls, which show nothing, two lines and an empty text, and an assignment. -/
def fourStatements : Text := utf8 "DISPLAY(null) DISPLAY(\"a\nb\") DISPLAY(\"\") x = \"q\" & 1"

/-- The session has displayed a line before; the entry shows the lines of the three values only, and tells
what was bound. -/
theorem evaluate_reports_three_values :
    ∃ (c next : Console) (entry : Entry) (script : Script),
      updates 5 initial [.set (utf8 "DISPLAY(7)"), .submit] = some c ∧
      c.evaluate 5 fourStatements = some next ∧ next = { c with env := next.env }.report entry ∧
      Script.compile fourStatements = .ok script ∧
      (script.shown 5 ⟨c.env, .empty none, none⟩).map Value.render = [[], utf8 "a\nb", []] ∧
      entry.display = [[], utf8 "a", utf8 "b", []] ∧ entry.echo = utf8 "x = \"q1\"" := by
  have computed : ((updates 5 initial [.set (utf8 "DISPLAY(7)"), .submit]).any fun c =>
      (c.evaluate 5 fourStatements).any fun next =>
        (Script.compile fourStatements).toOption.any fun script =>
          decide ((script.shown 5 ⟨c.env, .empty none, none⟩).map Value.render = [[], utf8 "a\nb", []] ∧
            next.transcript.getLast?.map Entry.echo = some (utf8 "x = \"q1\""))) = true := by
    decide +kernel
  obtain ⟨c, reached, checked⟩ := (Option.any_eq_true _ _).mp computed
  obtain ⟨next, ran, checked⟩ := (Option.any_eq_true _ _).mp checked
  obtain ⟨script, compiled, checked⟩ := (Option.any_eq_true _ _).mp checked
  obtain ⟨values, echo⟩ := of_decide_eq_true checked
  obtain ⟨entry, added, -, -, -, report⟩ := evaluate_reports reached ran
  have compiled := Script.toOption_compile.mp compiled
  obtain ⟨display, -⟩ := report script compiled
  refine ⟨c, next, entry, script, reached, ran, added, compiled, values, ?_, ?_⟩
  · rw [display, ← List.flatMap_map, values]
    decide +kernel
  · rw [added] at echo
    simpa [Console.report] using echo

end Console

end LoopScript
