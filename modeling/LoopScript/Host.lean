/-
# LoopScript.Host — the functions a host offers

Each function of the host has an action. `display` writes every argument on a line of its own. The
others let a host look into values (`count`, `first`, `kind`, `inspect`, `equal`), fail on purpose
(`fail`), work on the bindings (`define`, `lookup`), call a function by name (`call`), and run a text as
a script in the same execution (`eval`); two of them label the failures they pass on (`wrapLookup`,
`wrapEval`). An argument that is missing is null.

`host` ties these to the evaluator. Its budget bounds how deeply functions call functions and scripts
run scripts.
-/
import LoopScript.Eval
import LoopScript.Tree.Parser

namespace LoopScript

set_option autoImplicit false

def Script.compile (source : Text) : Except (List Diagnostic) Script :=
  (Program.read source).map fun program => ⟨source, program⟩

namespace Host

/-- The argument at an index, null if it is missing. -/
def arg (args : List Value) (i : Nat) : Value := args.getD i .null

/-- What displaying fails with if the sink refuses a write. -/
def refused (refusal : Failure) : Failure := .labelled (utf8 "DISPLAY") refusal

/-- Write every value on a line of its own, up to the first write that is refused. -/
def display : List Value → Run Failure Value
  | [] => Run.pure .null
  | v :: rest => fun x =>
      match x.sink.write (v.render ++ [Text.newline]) with
      | .ok sink => display rest { x with sink := sink }
      | .error refusal => .error (refused refusal) x

def lookupNamed (v : Value) : Run Failure Value := fun x =>
  match x.env.lookup v.render with
  | .ok found => .ok found x
  | .error fault => .error (.fault fault) x

/-- Run a text as a script, with `run`, and give `result` back. -/
def evalNamed (run : Script → Run RuntimeError Unit) (source : Text) (result : Value) :
    Run Failure Value := fun x =>
  match Script.compile source with
  | .error ds => .error (.plain (Diagnostic.renderAll source ds)) x
  | .ok script =>
      match run script x with
      | .ok _ reached => .ok result reached
      | .error e reached => .error (.runtime e) reached
      | .exhausted => .exhausted

def labelled (r : Run Failure Value) : Run Failure Value :=
  fun x => (r x).mapError fun _ failure => .labelled (utf8 "wrapped") failure

end Host

/-- The functions of the host, for a budget. -/
def host : Nat → Host
  | 0 => fun _ _ _ => .exhausted
  | budget + 1 => fun f args =>
      let a := Host.arg args 0
      let b := Host.arg args 1
      let run := Script.runWith (host budget) budget
      match f.action with
      | .display => Host.display args
      | .count => Run.pure (.int (Int64.ofNat args.length))
      | .first => Run.pure a
      | .kind => Run.pure (.text a.kind.name)
      | .inspect => Run.pure (.text a.inspect)
      | .equal => Run.pure (.bool (a.equal b))
      | .fail => Run.fail (.plain a.render)
      | .define => fun x => .ok .null (x.define a.render b)
      | .lookup => Host.lookupNamed a
      | .wrapLookup => Host.labelled (Host.lookupNamed a)
      | .eval => Host.evalNamed run a.render b
      | .wrapEval => Host.labelled (Host.evalNamed run a.render b)
      | .call => fun x =>
          match x.env.lookupFunction a.render with
          | .ok g => host budget g (args.drop 1) x
          | .error fault => .error (.fault fault) x

/-- Run a script in an execution; what earlier runs have bound stays bound. -/
def Script.run (budget : Nat) (script : Script) : Run RuntimeError Unit :=
  script.runWith (host budget) budget

end LoopScript
