/-
# LoopScript.Lint — what a program cannot run, found without running it

`Lint.warnings` reports what fails whenever it is reached: branches, multiplication, the boolean
operators, negation and all comparisons but `<`, and names that nothing ever binds. A name counts as
bound if it is one of the functions the host has registered, or if some statement of the program assigns
to it, wherever that statement stands.

A program is walked in evaluation order, an operator before its operands; the warnings are then sorted
by position, those at one position staying in the order they were found.
-/
import LoopScript.Tree.Basic

namespace LoopScript

set_option autoImplicit false

inductive Lint.Cause where
  | branch
  | neverAssigned (name : Text)
  | undefinedFunction (name : Text)
  | comparison (op : Operator)
  | operator (op : Operator)
  | negation
deriving DecidableEq, Repr

structure Warning where
  pos : Position
  cause : Lint.Cause
deriving DecidableEq, Repr

def Warning.message (w : Warning) : Text :=
  match w.cause with
  | .branch => utf8 "if statements are not supported"
  | .neverAssigned name => name ++ utf8 " is never assigned"
  | .undefinedFunction name => utf8 "function " ++ name ++ utf8 " is not defined"
  | .comparison op => utf8 "comparison operator " ++ op.symbol ++ utf8 " is not supported"
  | .operator op => utf8 "operator " ++ op.spelling ++ utf8 " is not supported"
  | .negation => utf8 "operator ! is not supported"

namespace Lint

def warnIfNot (fine : Bool) (pos : Position) (cause : Cause) : List Warning :=
  if fine then [] else [⟨pos, cause⟩]

def ofOperator (level : Level) (op : Operator) (pos : Position) : List Warning :=
  match level with
  | .additive => []
  | .comparison => warnIfNot (op = .lt) pos (.comparison op)
  | .multiplicative => [⟨pos, .operator op⟩]
  | .boolean => [⟨pos, .operator op⟩]

mutual

def ofExpr (bound : Text → Bool) : Expr → List Warning
  | .name id pos => warnIfNot (bound id) pos (.neverAssigned id)
  | .literal _ _ _ => []
  | .call callee args pos => warnIfNot (bound callee) pos (.undefinedFunction callee) ++ ofExprs bound args
  | .binary level op left right pos =>
      ofOperator level op pos ++ (ofExpr bound left ++ ofExpr bound right)
  | .negation operand pos => ⟨pos, .negation⟩ :: ofExpr bound operand

def ofExprs (bound : Text → Bool) : List Expr → List Warning
  | [] => []
  | e :: rest => ofExpr bound e ++ ofExprs bound rest

end

mutual

def ofStmt (bound : Text → Bool) : Stmt → List Warning
  | .assign _ value _ => ofExpr bound value
  | .call callee args pos => ofExpr bound (.call callee args pos)
  | .block body _ => ofStmts bound body
  | .loop _ condition body _ alternative _ =>
      ofExpr bound condition ++ (ofStmts bound body ++ ofAlternative bound alternative)
  | .branch condition body _ alternative pos =>
      ⟨pos, .branch⟩ ::
        (ofExpr bound condition ++ (ofStmts bound body ++ ofAlternative bound alternative))

def ofStmts (bound : Text → Bool) : List Stmt → List Warning
  | [] => []
  | s :: rest => ofStmt bound s ++ ofStmts bound rest

def ofAlternative (bound : Text → Bool) : Option Stmt → List Warning
  | none => []
  | some s => ofStmt bound s

end

def notAfter (v w : Warning) : Bool := !w.pos.before v.pos

/-- The warnings of a program that runs with the functions named in `builtins`. -/
def warnings (builtins : List Text) (program : Program) : List Warning :=
  let names := builtins ++ Program.targets program
  (ofStmts (fun name => names.contains name) program).mergeSort notAfter

end Lint

end LoopScript
