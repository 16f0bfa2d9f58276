/-
# LoopScript.Proofs.Eval.Display — a host that can only display

A value is plain if it is no function but one that displays, and bindings are plain if all their values
are (`Env.Plain`): these are the bindings of runs whose only function is the one the engine starts with.
Operations on values give plain values, and so does calling a plain function.

Calling one writes text and does nothing else (`Execution.Writes`); it fails only where the sink refuses
a write.
`Host.Tame` says so of a host, and `host_tame` shows it of the host of the language.
-/
import LoopScript.Engine
import LoopScript.Proofs.Eval.Outcome

namespace LoopScript

set_option autoImplicit false

/-! ## Plain values and bindings -/

/-- A value that is no function, or a function that displays. -/
def Value.Plain : Value → Prop
  | .function f => f.action = .display
  | _ => True

/-- Every bound function displays. -/
def Env.Plain (env : Env) : Prop := ∀ name v, env.get? name = some v → v.Plain

namespace Value

theorem joined?_plain {a b v : Value} (found : joined? a b = some v) : v.Plain := by
  unfold joined? at found
  split at found
  · cases found
    trivial
  · cases found

/-- Adding gives a plain value, or a fault about the kinds of the operands. -/
theorem add_cases (a b : Value) :
    (∃ v, a.add b = .ok v ∧ v.Plain) ∨ ∃ f, a.add b = .error f ∧ f.kind = .type := by
  unfold add
  split
  · exact .inl ⟨_, rfl, trivial⟩
  · split
    · exact .inl ⟨_, rfl, trivial⟩
    · next found => exact .inl ⟨_, rfl, joined?_plain found⟩
    · exact .inr ⟨_, rfl, rfl⟩

/-- Subtracting gives a plain value, or a fault about the kinds of the operands. -/
theorem subtract_cases (a b : Value) :
    (∃ v, a.subtract b = .ok v ∧ v.Plain) ∨ ∃ f, a.subtract b = .error f ∧ f.kind = .type := by
  unfold subtract
  split
  · exact .inl ⟨_, rfl, trivial⟩
  · split
    · exact .inl ⟨_, rfl, trivial⟩
    · next found => exact .inl ⟨_, rfl, joined?_plain found⟩
    · exact .inr ⟨_, rfl, rfl⟩

/-- Comparing gives a plain value, or a fault about the kinds of the operands. -/
theorem less_cases (a b : Value) :
    (∃ v, a.less b = .ok v ∧ v.Plain) ∨ ∃ f, a.less b = .error f ∧ f.kind = .type := by
  unfold less
  split
  · exact .inl ⟨_, rfl, trivial⟩
  · split
    · exact .inl ⟨_, rfl, trivial⟩
    · exact .inr ⟨_, rfl, rfl⟩

end Value

namespace Env.Plain

theorem insert {env : Env} (plain : env.Plain) (name : Text) {v : Value} (value : v.Plain) :
    Env.Plain (Table.insert env name v) := by
  intro n w found
  rw [Table.get?_insert] at found
  split at found
  · cases found
    exact value
  · exact plain n w found

theorem initial : Engine.initial.builtins.Plain := by
  intro n v found
  rw [Engine.initial, Engine.register, Table.get?_insert] at found
  split at found
  · cases found
    rfl
  · cases found

end Env.Plain

/-! ## Writing -/

namespace Execution

/-- Only text has been written since. -/
structure Writes (x y : Execution) : Prop where
  env : y.env = x.env
  source : y.source = x.source
  sink : x.sink.contents <+: y.sink.contents

theorem Writes.refl (x : Execution) : x.Writes x := ⟨rfl, rfl, List.prefix_rfl⟩

theorem Writes.trans {x y z : Execution} (first : x.Writes y) (second : y.Writes z) : x.Writes z :=
  ⟨second.env.trans first.env, second.source.trans first.source, first.sink.trans second.sink⟩

theorem Writes.frameAt {x y : Execution} (writes : x.Writes y) (pos : Position) :
    y.frameAt pos = x.frameAt pos := by
  rw [Execution.frameAt, Execution.frameAt, writes.source]

end Execution

namespace Host

/-- The failure is that of displaying where the sink refuses a write. -/
def Refused (failure : Failure) : Prop :=
  ∃ refusal : Failure, refusal.kind = .other ∧ failure = refused refusal

/-- An ordinary refusal becomes an error of no kind of its own, with the whole message. -/
theorem place_refused {refusal : Failure} (ordinary : refusal.kind = .other) (pos : Position)
    (frame : Text) :
    (refused refusal).place pos frame = ⟨.host .other (refused refusal).message, pos, frame⟩ := by
  rw [← ordinary]
  rfl

/-- A call of a function that displays writes, gives a plain value, and fails only where the sink refuses a
write; the budget is spent only if `spent`. -/
def Tame (spent : Prop) (host : Host) : Prop :=
  ∀ (f : Function) (args : List Value) (x : Execution), f.action = .display →
    (host f args x).Meets spent (fun v y => v.Plain ∧ x.Writes y)
      (fun failure y => Refused failure ∧ x.Writes y)

theorem written_of_write {s t : Sink} {text : Text} (wrote : s.write text = .ok t) :
    t.written = s.written.push text := by
  unfold Sink.write at wrote
  split at wrote
  · cases wrote; rfl
  · cases wrote
  · cases wrote; rfl

theorem ordinary_of_write {s : Sink} {text : Text} {refusal : Failure}
    (wrote : s.write text = .error refusal) : refusal.kind = .other := by
  unfold Sink.write at wrote
  split at wrote
  · cases wrote
  · next ordinary _ =>
      cases wrote
      exact ordinary
  · cases wrote

theorem write_prefix {s t : Sink} {text : Text} (wrote : s.write text = .ok t) :
    s.contents <+: t.contents := by
  rw [Sink.contents, Sink.contents, written_of_write wrote, Array.toList_push, List.flatten_append]
  exact List.prefix_append ..

theorem meets_display : ∀ (args : List Value) (x : Execution),
    (display args x).Meets False (fun v y => v = .null ∧ x.Writes y)
      (fun failure y => Refused failure ∧ x.Writes y)
  | [], x => ⟨rfl, .refl x⟩
  | v :: rest, x => by
      unfold display
      split
      · next sink wrote =>
          have one : x.Writes { x with sink := sink } := ⟨rfl, rfl, write_prefix wrote⟩
          refine (meets_display rest { x with sink := sink }).mono ?_ ?_
          · rintro w y ⟨null, more⟩
            exact ⟨null, one.trans more⟩
          · rintro failure y ⟨refused, more⟩
            exact ⟨refused, one.trans more⟩
      · next refusal wrote => exact ⟨⟨refusal, ordinary_of_write wrote, rfl⟩, .refl x⟩

theorem host_display {f : Function} (displays : f.action = .display) (budget : Nat)
    (args : List Value) : LoopScript.host (budget + 1) f args = display args := by
  simp only [LoopScript.host, displays]

/-- The host of the language is tame, and with a budget it comes to an end. -/
theorem host_tame (budget : Nat) : Tame False (LoopScript.host (budget + 1)) := by
  intro f args x displays
  rw [host_display displays]
  refine (meets_display args x).mono ?_ ?_
  · rintro _ y ⟨rfl, writes⟩
    exact ⟨trivial, writes⟩
  · exact fun _ _ failed => failed

theorem host_tame_spent : ∀ budget : Nat, Tame True (LoopScript.host budget)
  | 0 => fun _ _ _ _ => trivial
  | budget + 1 => by
      intro f args x displays
      have tame := host_tame budget f args x displays
      cases called : LoopScript.host (budget + 1) f args x with
      | ok v y => rw [called] at tame; exact tame
      | error e y => rw [called] at tame; exact tame
      | exhausted => trivial

end Host

end LoopScript
