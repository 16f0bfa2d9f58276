/-
# LoopScript.Tree.Parser — reading a program from its tokens

Expressions are read by climbing: `climb` extends what it has by every operator that binds more
tightly than `rank`, and reads each right operand at the operator's own rank, so operators of one
level group to the left. A negation applies to the next operand alone.

An expression that fails ends the statement it belongs to with one diagnostic. Reading then goes on
with the next statement, so one source may give several diagnostics: a token that begins nothing is
left out, and one that stands where another was called for is looked at again. A statement that failed
leaves no node. A lone semicolon is a statement without a node.

The functions below take a budget, which every call lowers, and answer `exhausted` or `none` if it
runs out. `Program.read` gives a budget that grows with the number of tokens.
-/
import LoopScript.Token.Lexer
import LoopScript.Tree.Basic
import LoopScript.Tree.Diagnostic

namespace LoopScript

set_option autoImplicit false

/-- What reading an expression comes to: a value and the tokens behind it, or a diagnostic and the
tokens to go on with, or a spent budget. -/
inductive Reply (α : Type) where
  | ok (value : α) (rest : List Token)
  | fail (error : Diagnostic) (rest : List Token)
  | exhausted
deriving Repr

/-- Go on with the value and the tokens behind it. -/
def Reply.andThen {α β : Type} (r : Reply α) (next : α → List Token → Reply β) : Reply β :=
  match r with
  | .ok value rest => next value rest
  | .fail error rest => .fail error rest
  | .exhausted => .exhausted

/-- What reading statements comes to: a result unless it failed, the diagnostics in the order they
were found, and the tokens that remain. -/
structure Reading (α : Type) where
  value : Option α
  errors : List Diagnostic
  rest : List Token
deriving Repr

namespace Parser

/-- The place of the first token; `stop` if there is none. -/
def placeOf (stop : Position) (ts : List Token) : Position :=
  match ts with
  | t :: _ => t.pos
  | [] => stop

/-- The first token begins nothing. -/
def unexpectedAt (stop : Position) (ts : List Token) : Diagnostic :=
  ⟨placeOf stop ts, .unexpected ts.head?⟩

/-- The first token stands where `what` was called for. -/
def expectedAt (stop : Position) (what : Expectation) (ts : List Token) : Diagnostic :=
  ⟨placeOf stop ts, .expected what ts.head?⟩

def literalKind? : Token.Kind → Option LiteralKind
  | .integer => some .integer
  | .float => some .float
  | .string => some .string
  | .bool => some .bool
  | .null => some .null
  | _ => none

def operator? (t : Token) : Option (Operator × Level) :=
  match t.kind with
  | .operator op => op.level?.map (op, ·)
  | _ => none

def close {α : Type} (stop : Position) (value : α) (ts : List Token) : Reply α :=
  match ts with
  | t :: rest =>
      if t.kind = .closeParen then .ok value rest else .fail (expectedAt stop .closeParen ts) ts
  | [] => .fail (expectedAt stop .closeParen ts) ts

/-! ## Expressions -/

mutual

/-- An operand: a literal, a name, a call, an expression in parentheses, or a negated operand. -/
def operand (stop : Position) : Nat → List Token → Reply Expr
  | 0, _ => .exhausted
  | _ + 1, [] => .fail (unexpectedAt stop []) []
  | budget + 1, t :: ts =>
      match t.kind, literalKind? t.kind with
      | _, some kind => .ok (.literal kind t.text t.pos) ts
      | .identifier, none =>
          match ts with
          | next :: rest =>
              if next.kind = .openParen then
                (arguments stop budget rest).andThen fun args rest =>
                  .ok (.call t.text args t.pos) rest
              else .ok (.name t.text t.pos) ts
          | [] => .ok (.name t.text t.pos) ts
      | .openParen, none => (expression stop budget 0 ts).andThen fun e rest => close stop e rest
      | .bang, none =>
          (operand stop budget ts).andThen fun e rest => .ok (.negation e t.pos) rest
      | _, none => .fail (unexpectedAt stop (t :: ts)) ts

/-- An expression whose operators bind more tightly than `rank`. -/
def expression (stop : Position) : Nat → Nat → List Token → Reply Expr
  | 0, _, _ => .exhausted
  | budget + 1, rank, ts =>
      (operand stop budget ts).andThen fun left rest => climb stop budget rank left rest

/-- Extend `left` by the operators that bind more tightly than `rank`. -/
def climb (stop : Position) : Nat → Nat → Expr → List Token → Reply Expr
  | 0, _, _, _ => .exhausted
  | _ + 1, _, left, [] => .ok left []
  | budget + 1, rank, left, t :: ts =>
      match operator? t with
      | some (op, level) =>
          if rank < level.rank then
            (expression stop budget level.rank ts).andThen fun right rest =>
              climb stop budget rank (.binary level op left right t.pos) rest
          else .ok left (t :: ts)
      | none => .ok left (t :: ts)

/-- The arguments of a call, behind its opening parenthesis and up to the closing one. -/
def arguments (stop : Position) : Nat → List Token → Reply (List Expr)
  | 0, _ => .exhausted
  | _ + 1, [] => .fail (unexpectedAt stop []) []
  | budget + 1, t :: ts =>
      if t.kind = .closeParen then .ok [] ts else moreArguments stop budget (t :: ts)

/-- At least one argument, up to the closing parenthesis. -/
def moreArguments (stop : Position) : Nat → List Token → Reply (List Expr)
  | 0, _ => .exhausted
  | budget + 1, ts =>
      (expression stop budget 0 ts).andThen fun e rest =>
        match rest with
        | t :: after =>
            if t.kind = .comma then
              (moreArguments stop budget after).andThen fun es rest => .ok (e :: es) rest
            else close stop [e] rest
        | [] => close stop [e] rest

end

/-! ## Statements -/

structure Clause where
  condition : Expr
  body : List Stmt
  bodyPos : Position
  alternative : Option Stmt

/-- A statement that is read as an expression would be. -/
def Reading.ofReply {α β : Type} (r : Reply α) (make : α → β) : Option (Reading β) :=
  match r with
  | .ok value rest => some ⟨some (make value), [], rest⟩
  | .fail error rest => some ⟨none, [error], rest⟩
  | .exhausted => none

mutual

def statement (stop : Position) : Nat → List Token → Option (Reading Stmt)
  | 0, _ => none
  | _ + 1, [] => some ⟨none, [], []⟩
  | budget + 1, t :: ts =>
      match t.kind with
      | .semicolon => some ⟨none, [], ts⟩
      | .loopWord =>
          (clause stop budget ts).map fun r =>
            { r with value := r.value.map fun c =>
                .loop t.text c.condition c.body c.bodyPos c.alternative t.pos }
      | .ifWord =>
          (clause stop budget ts).map fun r =>
            { r with value := r.value.map fun c =>
                .branch c.condition c.body c.bodyPos c.alternative t.pos }
      | .identifier =>
          match ts with
          | next :: rest =>
              if next.kind = .assign then
                Reading.ofReply (expression stop budget 0 rest) fun e => .assign t.text e t.pos
              else if next.kind = .openParen then
                Reading.ofReply (arguments stop budget rest) fun args => .call t.text args t.pos
              else some ⟨none, [expectedAt stop .assignOrCall ts], ts⟩
          | [] => some ⟨none, [expectedAt stop .assignOrCall ts], ts⟩
      | _ => some ⟨none, [unexpectedAt stop (t :: ts)], ts⟩

/-- Statements up to the end, or up to a closing brace if they are nested in a block. -/
def statements (stop : Position) (nested : Bool) : Nat → List Token → Option (Reading (List Stmt))
  | 0, _ => none
  | _ + 1, [] => some ⟨some [], [], []⟩
  | budget + 1, t :: ts =>
      if nested ∧ t.kind = .closeBrace then some ⟨some [], [], t :: ts⟩
      else do
        let one ← statement stop budget (t :: ts)
        let more ← statements stop nested budget one.rest
        some ⟨some (one.value.toList ++ more.value.getD []), one.errors ++ more.errors, more.rest⟩

/-- The statements of a block, behind its opening brace and through its closing one. -/
def block (stop : Position) : Nat → List Token → Option (Reading (List Stmt))
  | 0, _ => none
  | budget + 1, ts => do
      let body ← statements stop true budget ts
      match body.rest with
      | _ :: rest => some { body with rest := rest }
      | [] => some ⟨none, body.errors ++ [expectedAt stop .closeBrace []], []⟩

/-- What follows the word that opens a loop or a branch. -/
def clause (stop : Position) : Nat → List Token → Option (Reading Clause)
  | 0, _ => none
  | budget + 1, ts =>
      match expression stop budget 0 ts with
      | .exhausted => none
      | .fail error rest => some ⟨none, [error], rest⟩
      | .ok condition (t :: rest) =>
          if t.kind = .openBrace then do
            let body ← block stop budget rest
            match body.value with
            | none => some ⟨none, body.errors, body.rest⟩
            | some stmts =>
                match body.rest with
                | next :: after =>
                    if next.kind = .elseWord then do
                      let other ← alternative stop budget after
                      some ⟨other.value.map fun s => ⟨condition, stmts, t.pos, some s⟩,
                        body.errors ++ other.errors, other.rest⟩
                    else some ⟨some ⟨condition, stmts, t.pos, none⟩, body.errors, body.rest⟩
                | [] => some ⟨some ⟨condition, stmts, t.pos, none⟩, body.errors, body.rest⟩
          else some ⟨none, [expectedAt stop .openBrace (t :: rest)], t :: rest⟩
      | .ok _ [] => some ⟨none, [expectedAt stop .openBrace []], []⟩

/-- What follows the word that opens an alternative: a block or a branch. -/
def alternative (stop : Position) : Nat → List Token → Option (Reading Stmt)
  | 0, _ => none
  | _ + 1, [] => some ⟨none, [expectedAt stop .elseBranch []], []⟩
  | budget + 1, t :: ts =>
      match t.kind with
      | .openBrace =>
          (block stop budget ts).map fun r => { r with value := r.value.map fun b => .block b t.pos }
      | .ifWord =>
          (clause stop budget ts).map fun r =>
            { r with value := r.value.map fun c =>
                .branch c.condition c.body c.bodyPos c.alternative t.pos }
      | _ => some ⟨none, [expectedAt stop .elseBranch (t :: ts)], ts⟩

end

end Parser

namespace Program

/-- A budget that no source of `n` tokens spends. -/
def readBudget (n : Nat) : Nat := 4 * n + 4

/-- Read a program from its tokens; `stop` is the place of the end of the source. -/
def readTokens (stop : Position) (ts : List Token) : Reading Program :=
  (Parser.statements stop false (readBudget ts.length) ts).getD ⟨none, [], ts⟩

/-- Read a program, or say why the source is none. -/
def read (source : Text) : Except (List Diagnostic) Program :=
  let reading := readTokens (endOf source) (Token.tokens source)
  match reading.value, reading.errors with
  | some program, [] => .ok program
  | _, errors => .error errors

end Program

end LoopScript
