/-
# LoopScript.Tree.Basic — programs as trees

A program is a list of statements. A statement assigns a value to a name, calls a function for its
effect, or holds further statements: a block, a loop, or a branch. Loops and branches have a
condition, a body and perhaps an alternative. A loop keeps the word it was opened with, since that
word decides which way its condition is read.

Expressions are names, literals, calls, binary operations and negations. A literal keeps the text it
was written as; it becomes a value only when it is evaluated. Every node knows where it begins, a
binary operation where its operator stands.
-/
import LoopScript.Operator
import LoopScript.Position

namespace LoopScript

set_option autoImplicit false

/-- What a literal was written as. Trees built by hand may hold an `other` kind, which has no
value. -/
inductive LiteralKind where
  | integer
  | float
  | string
  | bool
  | null
  | other
deriving DecidableEq, Repr

def LiteralKind.name : LiteralKind → Text
  | .integer => utf8 "integer"
  | .float => utf8 "float"
  | .string => utf8 "string"
  | .bool => utf8 "bool"
  | .null => utf8 "null"
  | .other => utf8 "literal"

inductive Expr where
  | name (id : Text) (pos : Position)
  | literal (kind : LiteralKind) (text : Text) (pos : Position)
  | call (callee : Text) (args : List Expr) (pos : Position)
  | binary (level : Level) (op : Operator) (left right : Expr) (pos : Position)
  | negation (operand : Expr) (pos : Position)
deriving Repr, Inhabited

/-- Where an expression begins; a binary operation stands where its operator does. -/
def Expr.pos : Expr → Position
  | .name _ p => p
  | .literal _ _ p => p
  | .call _ _ p => p
  | .binary _ _ _ _ p => p
  | .negation _ p => p

/-- A statement. A body keeps the position of its opening brace. -/
inductive Stmt where
  | assign (target : Text) (value : Expr) (pos : Position)
  | call (callee : Text) (args : List Expr) (pos : Position)
  | block (body : List Stmt) (pos : Position)
  | loop (word : Text) (condition : Expr) (body : List Stmt) (bodyPos : Position)
      (alternative : Option Stmt) (pos : Position)
  | branch (condition : Expr) (body : List Stmt) (bodyPos : Position)
      (alternative : Option Stmt) (pos : Position)
deriving Repr, Inhabited

def Stmt.pos : Stmt → Position
  | .assign _ _ p => p
  | .call _ _ p => p
  | .block _ p => p
  | .loop _ _ _ _ _ p => p
  | .branch _ _ _ _ p => p

abbrev Program := List Stmt

/-- Where a program begins; an empty one stands nowhere. -/
def Program.pos : Program → Position
  | [] => .nowhere
  | s :: _ => s.pos

/-! ## Names -/

/-- The names a statement may assign to, in source order. -/
def Stmt.targets : Stmt → List Text
  | .assign target _ _ => [target]
  | .call _ _ _ => []
  | .block body _ => targetsAll body
  | .loop _ _ body _ alternative _ => targetsAll body ++ targetsOpt alternative
  | .branch _ body _ alternative _ => targetsAll body ++ targetsOpt alternative
where
  targetsAll : List Stmt → List Text
    | [] => []
    | s :: rest => s.targets ++ targetsAll rest
  targetsOpt : Option Stmt → List Text
    | none => []
    | some s => s.targets

def Program.targets (p : Program) : List Text := p.flatMap Stmt.targets

theorem Stmt.targetsAll_eq (ss : List Stmt) : Stmt.targets.targetsAll ss = Program.targets ss := by
  induction ss with
  | nil => rfl
  | cons s rest ih =>
      rw [Stmt.targets.targetsAll, ih, Program.targets, Program.targets, List.flatMap_cons]

end LoopScript
