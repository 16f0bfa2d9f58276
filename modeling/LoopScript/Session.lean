/-
# LoopScript.Session — many runs on one engine

A `Session` has one engine, one sink, and any number of named executions and scripts. A `Step` registers
a function, compiles or runs a script, or looks into an execution; it may name an execution, which is
made on its first mention with the functions registered by then. `Session.stepWith` gives the session
after a step and the answer to it, or nothing if a run spends its budget.

The bindings of the engine and of every execution are tables of a `Heap`, and so are the copies of them
that a step hands out. The host keeps these and may write to them at any time (`overwrite`). A step holds
all its tables by address, so it is for the addresses to keep what it writes away from the others.

`Session.step` is a step with the functions of `LoopScript.Host`; in general what a function does is up
to the host.
-/
import LoopScript.Engine
import LoopScript.Heap

namespace LoopScript

set_option autoImplicit false

/-- The state of a session: the tables of bindings, with the addresses of the registered functions, of the
executions and of the copies that were handed out; the identity of the next function; what the current
step has written; and the scripts. -/
structure Session where
  heap : Heap
  builtins : Heap.Address
  executions : Table Heap.Address
  copies : Array Heap.Address
  next : Nat
  sink : Sink
  scripts : Table Script

/-- What a step does. Every registration makes a new function. The action it is registered with is for
`LoopScript.host` to go by; what another host does when that function is called is up to the host. -/
inductive Session.Act where
  | register (name : Text) (action : Action)
  | builtins
  | compile (name source : Text)
  | run (name : Text)
  | runNowhere (name : Text)
  | define (name : Text) (value : Engine.Mention)
  | names
  | lookup (name : Text)
  | lookupFunction (name : Text)
  | bindings
  | overwrite (copy : Nat) (contents : Env)
  | editCopies (name : Text)

/-- A step, and the execution it names. -/
structure Session.Step where
  execution : Option Text
  act : Session.Act

inductive Session.Answer where
  | done
  | builtins (env : Env)
  | compiled (statements : Nat)
  | rejected (source : Text) (errors : List Diagnostic)
  | ran (error : Option RuntimeError) (bindings : Option Env) (output : Text)
  | noScript
  | noExecution
  | names (names : List Text)
  | value (v : Value)
  | function (name : Text)
  | fault (f : Fault)
  | bindings (env : Env)
  | copies (names : List Text) (builtins : Env)

namespace Session

/-- A session on an engine, whose sink takes `room` writes, or all if `room` is absent. -/
def start (engine : Engine) (room : Option Nat) : Session :=
  let (builtins, heap) := Heap.empty.alloc engine.builtins
  ⟨heap, builtins, .empty, #[], engine.next, .empty room, .empty⟩

def engine (s : Session) : Engine := ⟨s.heap.read s.builtins, s.next⟩

def noExecutionMessage : Text := utf8 "codescript: nil execution"

/-- Make the named execution, or one without a name, bound to the functions registered so far. -/
def newExecution (s : Session) (execution : Option Text) : Heap.Address × Session :=
  let (a, heap) := s.heap.alloc (s.heap.read s.builtins)
  let executions :=
    match execution with
    | none => s.executions
    | some id => s.executions.insert id a
  (a, { s with heap := heap, executions := executions })

/-- The address of the named execution, which is made if it is new; that of a fresh one if none is
named. -/
def enter (s : Session) (execution : Option Text) : Heap.Address × Session :=
  match execution.bind s.executions.get? with
  | some a => (a, s)
  | none => s.newExecution execution

def handOut (s : Session) (a : Heap.Address) : Heap.Address × Session :=
  let (copy, heap) := s.heap.alloc (s.heap.read a)
  (copy, { s with heap := heap, copies := s.copies.push copy })

/-- Hand out a copy of a table and bind a name in it. -/
def scribble (s : Session) (a : Heap.Address) (name : Text) : Session :=
  let (copy, s) := s.handOut a
  { s with heap := s.heap.define copy name .null }

def runScript (host : Host) (budget : Nat) (s : Session) (named : Bool) (a : Heap.Address)
    (script : Script) : Option (Session × Answer) :=
  let close (error : Option RuntimeError) (x : Execution) : Session × Answer :=
    ({ s with heap := s.heap.write a x.env, sink := x.sink.drain },
      .ran error (if named then some x.env else none) x.sink.contents)
  match script.runWith host budget ⟨s.heap.read a, s.sink, none⟩ with
  | .ok _ x => some (close none x)
  | .error e x => some (close (some e) x)
  | .exhausted => none

/-- Perform an act on the execution at an address. A run tells the bindings only if that is a `named`
one. -/
def perform (host : Host) (budget : Nat) (s : Session) (named : Bool) (a : Heap.Address) :
    Act → Option (Session × Answer)
  | .register name action =>
      let engine := s.engine.register name action
      some ({ s with heap := s.heap.write s.builtins engine.builtins, next := engine.next }, .done)
  | .builtins =>
      let (copy, s) := s.handOut s.builtins
      some (s, .builtins (s.heap.read copy))
  | .compile name source =>
      match Script.compile source with
      | .ok script =>
          some ({ s with scripts := s.scripts.insert name script },
            .compiled script.program.length)
      | .error errors => some (s, .rejected source errors)
  | .run name =>
      match s.scripts.get? name with
      | some script => s.runScript host budget named a script
      | none => some (s, .noScript)
  | .runNowhere name =>
      match s.scripts.get? name with
      | some _ => some (s, .noExecution)
      | none => some (s, .noScript)
  | .define name mention =>
      let (v, engine) := s.engine.resolve mention
      let s := { s with heap := s.heap.define a name v, next := engine.next }
      some (s, .names (s.heap.read a).names)
  | .names => some (s, .names (s.heap.read a).names)
  | .lookup name =>
      match (s.heap.read a).lookup name with
      | .ok v => some (s, .value v)
      | .error f => some (s, .fault f)
  | .lookupFunction name =>
      match (s.heap.read a).lookupFunction name with
      | .ok f => some (s, .function f.name)
      | .error f => some (s, .fault f)
  | .bindings =>
      let (copy, s) := s.handOut a
      some (s, .bindings (s.heap.read copy))
  | .overwrite copy contents =>
      match s.copies[copy]? with
      | some held => some ({ s with heap := s.heap.write held contents }, .done)
      | none => some (s, .done)
  | .editCopies name =>
      let s := ((s.scribble a name).scribble a name).scribble s.builtins name
      some (s, .copies (s.heap.read a).names (s.heap.read s.builtins))

def stepWith (host : Host) (budget : Nat) (s : Session) (st : Step) : Option (Session × Answer) :=
  let (a, s) := s.enter st.execution
  s.perform host budget st.execution.isSome a st.act

def step (budget : Nat) (s : Session) (st : Step) : Option (Session × Answer) :=
  s.stepWith (host budget) budget st

/-- Take steps in order and collect the answers. -/
def steps (budget : Nat) : Session → List Step → Option (List Answer)
  | _, [] => some []
  | s, st :: rest => do
      let (s, answer) ← s.step budget st
      return answer :: (← steps budget s rest)

end Session

end LoopScript
