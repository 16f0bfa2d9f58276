/-
# LoopScript.Eval — running programs

`evalExpr` computes the value of an expression. Operands and arguments are evaluated from left to
right, and the arguments of a call before its name is looked up. Multiplication, the boolean operators,
negation and all comparisons but `<` can be written but not run.

`evalStmt` runs a statement. A loop tests its condition before every pass; if the very first test fails,
its alternative runs instead, once. The word `while` goes on while the condition is true, any other word
while it is false. A branch can be written but not run.

What a function of the host does is a parameter, `Host`. The budget bounds the passes of each loop: a
loop that would take more ends the run as `exhausted`.
-/
import LoopScript.Decimal.Reader
import LoopScript.Execution
import LoopScript.Text.Rune
import LoopScript.Value.Arithmetic

namespace LoopScript

set_option autoImplicit false

/-- What the functions of the host do. -/
abbrev Host := Function → List Value → Run Failure Value

namespace Eval

/-- The text between the two quotes of a literal, with U+FFFD for bytes that belong to no character. -/
def unquote (literal : Text) : Text := Text.ofChars (literal.chars.drop 1).dropLast

def literal (kind : LiteralKind) (text : Text) : Except Cause Value :=
  match kind with
  | .integer =>
      match Decimal.integer? text with
      | some i => .ok (.int i)
      | none => .error (.invalidInteger text)
  | .float =>
      match Decimal.double? text with
      | some x => .ok (.float x)
      | none => .error (.invalidFloat text)
  | .string => .ok (.text (unquote text))
  | .bool => .ok (.bool (text = utf8 "true"))
  | .null => .ok .null
  | .other => .error (.unsupported (.literal .other))

def additive (op : Operator) (left right : Value) (pos : Position) : Run RuntimeError Value :=
  match op with
  | .add | .join => .ofFault (left.add right) pos
  | .sub => .ofFault (left.subtract right) pos
  | _ => .raise (.unsupported (.additive op)) pos

def comparison (op : Operator) (left right : Value) (pos : Position) : Run RuntimeError Value :=
  match op with
  | .lt => .ofFault (left.less right) pos
  | _ => .raise (.unsupported (.comparison op)) pos

def invoke (host : Host) (callee : Text) (args : List Value) (pos : Position) :
    Run RuntimeError Value := fun x =>
  match x.env.lookupFunction callee with
  | .ok f => Run.placedAt (host f args) pos x
  | .error fault => Run.raise (.fault fault) pos x

def variableValue (name : Text) (pos : Position) : Run RuntimeError Value := fun x =>
  Run.ofFault (x.env.lookup name) pos x

mutual

def expr (host : Host) : Expr → Run RuntimeError Value
  | .name id pos => variableValue id pos
  | .literal kind text pos =>
      match literal kind text with
      | .ok v => Run.pure v
      | .error cause => Run.raise cause pos
  | .call callee args pos => do
      let values ← exprs host args
      invoke host callee values pos
  | .binary .additive op left right pos => do
      let a ← expr host left
      let b ← expr host right
      additive op a b pos
  | .binary .comparison op left right pos => do
      let a ← expr host left
      let b ← expr host right
      comparison op a b pos
  | .binary .multiplicative _ _ _ pos => Run.raise (.unsupported .product) pos
  | .binary .boolean _ _ _ pos => Run.raise (.unsupported .boolean) pos
  | .negation _ pos => Run.raise (.unsupported .negation) pos

def exprs (host : Host) : List Expr → Run RuntimeError (List Value)
  | [] => Run.pure []
  | e :: rest => do
      let v ← expr host e
      let vs ← exprs host rest
      return v :: vs

end

/-- Whether a loop opened with `word` goes on when its condition has this value. -/
def goesOn (word : Text) (v : Value) : Except Fault Bool :=
  if word = utf8 "while" then v.isTrue else v.isFalse

def test (host : Host) (word : Text) (condition : Expr) : Run RuntimeError Bool := do
  let v ← expr host condition
  Run.ofFault (goesOn word v) condition.pos

/-- Run the body, test again, and so on while the test holds; at most as many passes as the budget
has. -/
def repeatWhile (again : Run RuntimeError Bool) (body : Run RuntimeError Unit) :
    Nat → Run RuntimeError Unit
  | 0 => fun _ => .exhausted
  | budget + 1 => fun x =>
      match body x with
      | .ok _ x =>
          match again x with
          | .ok true x => repeatWhile again body budget x
          | .ok false x => .ok () x
          | .error e x => .error e x
          | .exhausted => .exhausted
      | .error e x => .error e x
      | .exhausted => .exhausted

mutual

def stmt (host : Host) (budget : Nat) : Stmt → Run RuntimeError Unit
  | .assign target value _ => do
      let v ← expr host value
      fun x => .ok () (x.define target v)
  | .call callee args pos => do
      let values ← exprs host args
      let _ ← invoke host callee values pos
      return ()
  | .block body _ => stmts host budget body
  | .loop word condition body _ alternative _ => do
      if ← test host word condition then
        repeatWhile (test host word condition) (stmts host budget body) budget
      else otherwise host budget alternative
  | .branch _ _ _ _ pos => Run.raise (.unsupported .branch) pos

/-- Run statements in order, up to the first error. -/
def stmts (host : Host) (budget : Nat) : List Stmt → Run RuntimeError Unit
  | [] => Run.pure ()
  | s :: rest => do
      stmt host budget s
      stmts host budget rest

def otherwise (host : Host) (budget : Nat) : Option Stmt → Run RuntimeError Unit
  | none => Run.pure ()
  | some s => stmt host budget s

end

end Eval

/-- A program and the source it was read from. -/
structure Script where
  source : Text
  program : Program

namespace Script

/-- Run a script: while it runs its source is the one that errors quote, and afterwards the one from
before is again. -/
def runWith (host : Host) (budget : Nat) (script : Script) : Run RuntimeError Unit := fun x =>
  (Eval.stmts host budget script.program { x with source := some script.source }).mapReached
    fun reached => { reached with source := x.source }

end Script

end LoopScript
