/-
# LoopScript.Proofs.Join — two sources joined by a line feed are one script after the other

If two sources compile, so do they joined by a line feed: the tokens are those of the first and then
those of the second, further down (`LoopScript.Proofs.Token.Join`), and lines after lines are lines. The
program is that of the first followed by that of the second, moved down.

Running the joined script is therefore running the one and then the other in the same execution
(`run_join`). What is moved can only show in the position of an error (`LoopScript.Proofs.Eval.Relocation`).
-/
import LoopScript.Proofs.Eval.Relocation
import LoopScript.Proofs.Parser
import LoopScript.Proofs.Token.Join

namespace LoopScript

set_option autoImplicit false

/-- The same outcome in the same execution, but that an error may stand elsewhere: its kind and its
wording are the same, and its position is moved by `f`. -/
def Outcome.MovedBy (f : Position → Position) : Outcome RuntimeError Unit → Outcome RuntimeError Unit → Prop
  | .ok _ y, .ok _ z => z = y
  | .error e y, .error e' z => e'.kind = e.kind ∧ e'.detail = e.detail ∧ e'.pos = f e.pos ∧ z = y
  | .exhausted, .exhausted => True
  | _, _ => False

theorem Outcome.movedBy_relocate (f : Position → Position) (source after : Option Text)
    (o : Outcome RuntimeError Unit) :
    MovedBy f (o.mapReached (Execution.under after))
      ((o.relocate f source).mapReached (Execution.under after)) := by
  cases o with
  | ok _ y => rfl
  | error e y => exact ⟨rfl, rfl, rfl, rfl⟩
  | exhausted => trivial

namespace Program

/-- The program of two joined sources. -/
theorem read_join {a b : Text} {p q : Program} (first : read a = .ok p) (second : read b = .ok q) :
    read (a ++ Text.newline :: b) =
      .ok (p ++ q.map (Stmt.relocate (Position.shift (a.count Text.newline + 1)))) := by
  have before := read_eq_ok.mp first
  have behind := (read_eq_ok.mp second).relocate (Position.shift (a.count Text.newline + 1))
  have closed : ∀ t ∈ Token.tokens a, t.kind ≠ .unterminated := by
    intro t member unclosed
    have legal := before.legal t member
    rw [unclosed] at legal
    exact legal
  rw [read_eq_ok, Token.tokens_join a b closed, ← Stmt.relocateAll_eq]
  exact before.append behind

end Program

namespace Script

theorem run_eq (budget : Nat) (script : Script) (x : Execution) :
    script.run budget x =
      (Eval.stmts (host budget) budget script.program (x.under (some script.source))).mapReached
        (Execution.under x.source) := rfl

/-- A script whose program is that of `first` and then that of `second`, moved by `f`, runs as the one
and then the other. -/
theorem run_sequence {first second joined : Script} {f : Position → Position}
    (program : joined.program = first.program ++ second.program.map (Stmt.relocate f)) (budget : Nat)
    {x : Execution} (plain : x.env.Plain) :
    match first.run budget x with
    | .ok _ y => (second.run budget y).MovedBy f (joined.run budget x)
    | ended => ended.MovedBy id (joined.run budget x) := by
  have tame := Host.host_tame_spent budget
  have portable := Host.host_portable budget
  have plainFirst : (x.under (some first.source)).env.Plain := plain
  have firstPart : Eval.stmts (host budget) budget first.program (x.under (some joined.source)) =
      (Eval.stmts (host budget) budget first.program (x.under (some first.source))).relocate id
        (some joined.source) :=
    Eval.stmts_under tame portable budget first.program (some joined.source) plainFirst
  rw [run_eq budget joined, program, Eval.stmts_append, Run.bind_apply, firstPart, run_eq budget first]
  cases ended : Eval.stmts (host budget) budget first.program (x.under (some first.source)) with
  | ok _ y =>
      have plainSecond := Eval.stmts_plain tame plainFirst ended
      have secondPart : Eval.stmts (host budget) budget (second.program.map (Stmt.relocate f))
          (y.under (some joined.source)) =
            (Eval.stmts (host budget) budget second.program (y.under (some second.source))).relocate f
              (some joined.source) := by
        rw [← Stmt.relocateAll_eq]
        exact Eval.stmts_relocate tame portable budget second.program (y.under (some second.source))
          plainSecond
      have moved := Outcome.movedBy_relocate f (some joined.source) x.source
        (Eval.stmts (host budget) budget second.program (y.under (some second.source)))
      rw [← secondPart] at moved
      exact moved
  | error e y => exact ⟨rfl, rfl, rfl, rfl⟩
  | exhausted => trivial

/-- **Joining two sources by a line feed is running one after the other.** If both compile, so does the
joined source, and its program is that of the first followed by that of the second with every line
number increased by the lines of the first. In an execution whose only functions display, the joined
script writes and binds the same and has the same outcome as the first script and then, if that
completes, the second; an error of the second is moved down by as many lines. -/
theorem run_join {a b : Text} {first second : Script} (compiledFirst : Script.compile a = .ok first)
    (compiledSecond : Script.compile b = .ok second) :
    ∃ joined : Script,
      Script.compile (a ++ Text.newline :: b) = .ok joined ∧
      joined.program = first.program ++
        second.program.map (Stmt.relocate (Position.shift (a.count Text.newline + 1))) ∧
      ∀ (budget : Nat) (x : Execution), x.env.Plain →
        match first.run budget x with
        | .ok _ y =>
            (second.run budget y).MovedBy (Position.shift (a.count Text.newline + 1))
              (joined.run budget x)
        | ended => ended.MovedBy id (joined.run budget x) := by
  obtain ⟨readFirst, -⟩ := compile_eq_ok.mp compiledFirst
  obtain ⟨readSecond, -⟩ := compile_eq_ok.mp compiledSecond
  refine ⟨⟨a ++ Text.newline :: b, _⟩, compile_eq_ok.mpr ⟨Program.read_join readFirst readSecond, rfl⟩,
    rfl, fun budget x plain => ?_⟩
  exact run_sequence rfl budget plain

/-- A first source that ends in a comment and in a character cut short, and a second that begins with a
semicolon, displays what the first has bound and fails in its second line: the joined script fails in its
third. -/
theorem run_join_error_moved :
    ∃ (first second joined : Script) (e e' : RuntimeError) (y z : Execution),
      Script.compile (utf8 "n = 1 # " ++ [0xE2, 0x82]) = .ok first ∧
      Script.compile (utf8 "; DISPLAY(n)\nm = k") = .ok second ∧
      Script.compile (utf8 "n = 1 # " ++ [0xE2, 0x82] ++ Text.newline :: utf8 "; DISPLAY(n)\nm = k") =
        .ok joined ∧
      first.run 2 (Engine.initial.newExecution (.empty none)) = .ok () y ∧
      second.run 2 y = .error e z ∧ e.pos = ⟨2, 5⟩ ∧ z.sink.contents = utf8 "1\n" ∧
      joined.run 2 (Engine.initial.newExecution (.empty none)) = .error e' z ∧ e'.kind = .name ∧
      e'.pos = ⟨3, 5⟩ := by
  have computed : ((Script.compile (utf8 "n = 1 # " ++ [0xE2, 0x82])).toOption.any fun first =>
      (Script.compile (utf8 "; DISPLAY(n)\nm = k")).toOption.any fun second =>
        (first.run 2 (Engine.initial.newExecution (.empty none))).completed.any fun ended =>
          (second.run 2 ended.2).failed.any fun ended =>
            decide (ended.1.pos = ⟨2, 5⟩ ∧ ended.1.kind = .name ∧
              ended.2.sink.contents = utf8 "1\n")) = true := by decide +kernel
  obtain ⟨first, foundFirst, checked⟩ := (Option.any_eq_true _ _).mp computed
  obtain ⟨second, foundSecond, checked⟩ := (Option.any_eq_true _ _).mp checked
  obtain ⟨⟨_, y⟩, endedFirst, checked⟩ := (Option.any_eq_true _ _).mp checked
  obtain ⟨⟨e, z⟩, endedSecond, checked⟩ := (Option.any_eq_true _ _).mp checked
  obtain ⟨pos, kind, wrote⟩ := of_decide_eq_true checked
  have compiledFirst := toOption_compile.mp foundFirst
  have compiledSecond := toOption_compile.mp foundSecond
  have ranFirst := Outcome.completed_eq_some.mp endedFirst
  have ranSecond := Outcome.failed_eq_some.mp endedSecond
  obtain ⟨joined, compiled, -, held⟩ := run_join compiledFirst compiledSecond
  have met := held 2 (Engine.initial.newExecution (.empty none)) Env.Plain.initial
  rw [ranFirst] at met
  dsimp only at met
  rw [ranSecond] at met
  cases ranJoined : joined.run 2 (Engine.initial.newExecution (.empty none)) with
  | ok _ w => rw [ranJoined] at met; cases met
  | error e' w =>
      rw [ranJoined] at met
      obtain ⟨sameKind, -, moved, rfl⟩ := met
      refine ⟨first, second, joined, e, e', y, w, compiledFirst, compiledSecond, compiled, ranFirst,
        ranSecond, pos, wrote, ranJoined, sameKind.trans kind, ?_⟩
      rw [moved, pos]
      decide +kernel
  | exhausted => rw [ranJoined] at met; cases met

end Script

end LoopScript
