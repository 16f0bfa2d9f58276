/-
# LoopScript.Execution — the state of a run and what a run comes to

An `Execution` holds the bindings, the sink that displayed text goes to, and the source of the script
that is running, which error messages quote. A run takes one execution to another. It ends with a value
or with an error, in both cases with the execution reached, or it spends its budget (`Outcome`).

`Run ε α` is such a run as a function, with errors in `ε`. Runs are put one after the other by `>>=`,
which stops at the first error and keeps the execution reached there.
-/
import LoopScript.Env
import LoopScript.RuntimeError

namespace LoopScript

set_option autoImplicit false

/-- How a sink runs out: it takes `room` more writes and refuses all after them. What it refuses them with is
an error of its own, of none of the kinds that can be asked for. -/
structure Sink.Limit where
  room : Nat
  refusal : Failure
  ordinary : refusal.kind = .other

/-- A limit that says no more than that the sink is closed. -/
def Sink.Limit.closing (room : Nat) : Sink.Limit := ⟨room, .plain (utf8 "sink closed"), rfl⟩

/-- Where displayed text goes: the writes so far, and the limit of the sink, if it has one. -/
structure Sink where
  written : Array Text
  limit : Option Sink.Limit

namespace Sink

/-- A sink without writes that takes `room` of them, or all if `room` is absent. -/
def empty (room : Option Nat) : Sink := ⟨#[], room.map Limit.closing⟩

/-- Take one write, or say why it is refused. -/
def write (s : Sink) (t : Text) : Except Failure Sink :=
  match s.limit with
  | none => .ok { s with written := s.written.push t }
  | some ⟨0, refusal, _⟩ => .error refusal
  | some ⟨n + 1, refusal, ordinary⟩ => .ok ⟨s.written.push t, some ⟨n, refusal, ordinary⟩⟩

def contents (s : Sink) : Text := s.written.toList.flatten

/-- The sink after its writes have been taken away. -/
def drain (s : Sink) : Sink := { s with written := #[] }

end Sink

/-- The state of a run. -/
structure Execution where
  env : Env
  sink : Sink
  source : Option Text

namespace Execution

/-- The source line at a position of the running script, as errors show it. -/
def frameAt (x : Execution) (pos : Position) : Text :=
  match x.source with
  | some source => codeFrame source pos
  | none => []

def define (x : Execution) (name : Text) (v : Value) : Execution :=
  { x with env := x.env.insert name v }

end Execution

inductive Outcome (ε α : Type) where
  | ok (value : α) (reached : Execution)
  | error (cause : ε) (reached : Execution)
  | exhausted

namespace Outcome

variable {ε α : Type}

/-- The same outcome with the execution reached changed by `f`. -/
def mapReached (f : Execution → Execution) : Outcome ε α → Outcome ε α
  | .ok value x => .ok value (f x)
  | .error e x => .error e (f x)
  | .exhausted => .exhausted

/-- The same outcome with an error changed by `f`, which may look at the execution reached. -/
def mapError {δ : Type} (f : Execution → ε → δ) : Outcome ε α → Outcome δ α
  | .ok value x => .ok value x
  | .error e x => .error (f x e) x
  | .exhausted => .exhausted

end Outcome

def Run (ε α : Type) : Type := Execution → Outcome ε α

namespace Run

variable {ε α β : Type}

@[always_inline, inline]
def pure (a : α) : Run ε α := fun x => .ok a x

/-- One run after the other; the second sees the value of the first. -/
@[always_inline, inline]
def bind (r : Run ε α) (next : α → Run ε β) : Run ε β := fun x =>
  match r x with
  | .ok a reached => next a reached
  | .error e reached => .error e reached
  | .exhausted => .exhausted

instance : Monad (Run ε) where
  pure := Run.pure
  bind := Run.bind

def fail (e : ε) : Run ε α := fun x => .error e x

/-- A run that fails at once, at a position of the running script. -/
def raise (cause : Cause) (pos : Position) : Run RuntimeError α :=
  fun x => .error ⟨cause, pos, x.frameAt pos⟩ x

/-- The value, or the fault at a position of the running script. -/
def ofFault (result : Except Fault α) (pos : Position) : Run RuntimeError α :=
  match result with
  | .ok a => pure a
  | .error f => raise (.fault f) pos

/-- The run of a function of the host as a call at `pos` sees it. -/
def placedAt (r : Run Failure α) (pos : Position) : Run RuntimeError α :=
  fun x => (r x).mapError fun reached failure => failure.place pos (reached.frameAt pos)

end Run

end LoopScript
