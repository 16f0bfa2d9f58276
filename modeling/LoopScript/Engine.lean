/-
# LoopScript.Engine — the functions every run starts with

An `Engine` holds the functions registered so far. A fresh execution is bound to exactly these; later
registrations do not reach it. Registering makes a new function each time, also under a name that is
taken, and a function that is only mentioned by name and not registered is made anew at every mention.
-/
import LoopScript.Host

namespace LoopScript

set_option autoImplicit false

/-- The registered functions, and the identity the next function gets. -/
structure Engine where
  builtins : Env
  next : Nat

namespace Engine

def register (e : Engine) (name : Text) (action : Action) : Engine :=
  ⟨e.builtins.insert name (.function ⟨e.next, name, action⟩), e.next + 1⟩

def displayName : Text := utf8 "DISPLAY"

def initial : Engine := (⟨.empty, 0⟩ : Engine).register displayName .display

def newExecution (e : Engine) (sink : Sink) : Execution := ⟨e.builtins, sink, none⟩

/-- A value as a host writes it down: as itself, or as the name of a function. -/
inductive Mention where
  | value (v : Value)
  | function (name : Text)

/-- The value that is mentioned. A name that is not registered stands for a new function, which gives
its first argument back. -/
def resolve (e : Engine) : Mention → Value × Engine
  | .value v => (v, e)
  | .function name =>
      match e.builtins.get? name with
      | some v => (v, e)
      | none => (.function ⟨e.next, name, .first⟩, { e with next := e.next + 1 })

def defineAll (e : Engine) (x : Execution) : List (Text × Mention) → Engine × Execution
  | [] => (e, x)
  | (name, mention) :: rest =>
      let (v, e) := e.resolve mention
      defineAll e (x.define name v) rest

end Engine

end LoopScript
