/-
# LoopScript.Proofs.Parser.Calls — the calls that a function of the reader makes

The functions of `LoopScript.Tree.Parser` go through operators, arguments and lines in loops, and call each
other for what is nested. A `Goal` is such a function with what it is given. `Calls` lists the goals that a
goal calls on its way to an answer. Where a goal goes on behind another one, it depends on what that one
has left; with lines it does not matter whether that was a failure.

The list is complete and has nothing in it that is not called: with one more unit of budget a goal is
answered just when all that it calls are (`answered_succ_iff`).
-/
import LoopScript.Proofs.Parser.Answers

namespace LoopScript

set_option autoImplicit false

namespace Parser

/-! ## Goals and their calls -/

/-- A function of the reader, and what it is given besides the tokens. -/
inductive Task where
  | operand
  | expression (rank : Nat)
  | climb (rank : Nat) (left : Expr)
  | arguments
  | moreArguments
  | statement
  | statements (nested : Bool)
  | block
  | clause
  | alternative

/-- What is to be read from some tokens. -/
structure Goal where
  task : Task
  tokens : List Token

/-- The tokens that are left behind the answer to a goal, if the budget is not spent. -/
def Goal.left (stop : Position) (budget : Nat) (c : Goal) : Option (List Token) :=
  match c.task with
  | .operand => (operand stop budget c.tokens).rest?
  | .expression rank => (expression stop budget rank c.tokens).rest?
  | .climb rank left => (climb stop budget rank left c.tokens).rest?
  | .arguments => (arguments stop budget c.tokens).rest?
  | .moreArguments => (moreArguments stop budget c.tokens).rest?
  | .statement => (statement stop budget c.tokens).map Reading.rest
  | .statements nested => (statements stop nested budget c.tokens).map Reading.rest
  | .block => (block stop budget c.tokens).map Reading.rest
  | .clause => (clause stop budget c.tokens).map Reading.rest
  | .alternative => (alternative stop budget c.tokens).map Reading.rest

/-- The budget is enough for the goal. -/
def Goal.Answered (stop : Position) (budget : Nat) (c : Goal) : Prop := (c.left stop budget).isSome = true

/-- The goals that a goal calls. Where one depends on the answer to another, any budget that was enough for
that answer will do. -/
inductive Calls (stop : Position) : Goal → Goal → Prop where
  | argumentsOf {t opening : Token} {ts : List Token} (name : t.kind = .identifier)
      (parenthesis : opening.kind = .openParen) :
      Calls stop ⟨.operand, t :: opening :: ts⟩ ⟨.arguments, ts⟩
  | group {t : Token} {ts : List Token} (parenthesis : t.kind = .openParen) :
      Calls stop ⟨.operand, t :: ts⟩ ⟨.expression 0, ts⟩
  | negated {t : Token} {ts : List Token} (bang : t.kind = .bang) :
      Calls stop ⟨.operand, t :: ts⟩ ⟨.operand, ts⟩
  | first {rank : Nat} {ts : List Token} : Calls stop ⟨.expression rank, ts⟩ ⟨.operand, ts⟩
  | operators {rank budget : Nat} {left : Expr} {ts rest : List Token}
      (read : operand stop budget ts = .ok left rest) :
      Calls stop ⟨.expression rank, ts⟩ ⟨.climb rank left, rest⟩
  | right {rank : Nat} {left : Expr} {op : Operator} {level : Level} {t : Token} {ts : List Token}
      (found : operator? t = some (op, level)) (tighter : rank < level.rank) :
      Calls stop ⟨.climb rank left, t :: ts⟩ ⟨.expression level.rank, ts⟩
  | nextOperator {rank budget : Nat} {left right : Expr} {op : Operator} {level : Level} {t : Token}
      {ts rest : List Token} (found : operator? t = some (op, level)) (tighter : rank < level.rank)
      (read : expression stop budget level.rank ts = .ok right rest) :
      Calls stop ⟨.climb rank left, t :: ts⟩ ⟨.climb rank (.binary level op left right t.pos), rest⟩
  | someArguments {t : Token} {ts : List Token} (goesOn : t.kind ≠ .closeParen) :
      Calls stop ⟨.arguments, t :: ts⟩ ⟨.moreArguments, t :: ts⟩
  | argument {ts : List Token} : Calls stop ⟨.moreArguments, ts⟩ ⟨.expression 0, ts⟩
  | nextArgument {budget : Nat} {e : Expr} {t : Token} {ts after : List Token}
      (read : expression stop budget 0 ts = .ok e (t :: after)) (comma : t.kind = .comma) :
      Calls stop ⟨.moreArguments, ts⟩ ⟨.moreArguments, after⟩
  | clauseOf {t : Token} {ts : List Token} (word : t.kind = .loopWord ∨ t.kind = .ifWord) :
      Calls stop ⟨.statement, t :: ts⟩ ⟨.clause, ts⟩
  | assigned {t sign : Token} {ts : List Token} (name : t.kind = .identifier) (assign : sign.kind = .assign) :
      Calls stop ⟨.statement, t :: sign :: ts⟩ ⟨.expression 0, ts⟩
  | called {t opening : Token} {ts : List Token} (name : t.kind = .identifier)
      (parenthesis : opening.kind = .openParen) :
      Calls stop ⟨.statement, t :: opening :: ts⟩ ⟨.arguments, ts⟩
  | line {nested : Bool} {t : Token} {ts : List Token} (goesOn : ¬ (nested = true ∧ t.kind = .closeBrace)) :
      Calls stop ⟨.statements nested, t :: ts⟩ ⟨.statement, t :: ts⟩
  | nextLine {nested : Bool} {budget : Nat} {t : Token} {ts : List Token} {one : Reading Stmt}
      (goesOn : ¬ (nested = true ∧ t.kind = .closeBrace))
      (read : statement stop budget (t :: ts) = some one) :
      Calls stop ⟨.statements nested, t :: ts⟩ ⟨.statements nested, one.rest⟩
  | lines {ts : List Token} : Calls stop ⟨.block, ts⟩ ⟨.statements true, ts⟩
  | condition {ts : List Token} : Calls stop ⟨.clause, ts⟩ ⟨.expression 0, ts⟩
  | body {budget : Nat} {e : Expr} {t : Token} {ts rest : List Token}
      (read : expression stop budget 0 ts = .ok e (t :: rest)) (brace : t.kind = .openBrace) :
      Calls stop ⟨.clause, ts⟩ ⟨.block, rest⟩
  | otherwise {budget inner : Nat} {e : Expr} {t word : Token} {ts rest after : List Token}
      {closed : Reading (List Stmt)} (read : expression stop budget 0 ts = .ok e (t :: rest))
      (brace : t.kind = .openBrace) (ends : block stop inner rest = some closed)
      (whole : closed.value.isSome = true) (left : closed.rest = word :: after)
      (elseWord : word.kind = .elseWord) : Calls stop ⟨.clause, ts⟩ ⟨.alternative, after⟩
  | elseBlock {t : Token} {ts : List Token} (brace : t.kind = .openBrace) :
      Calls stop ⟨.alternative, t :: ts⟩ ⟨.block, ts⟩
  | elseIf {t : Token} {ts : List Token} (word : t.kind = .ifWord) :
      Calls stop ⟨.alternative, t :: ts⟩ ⟨.clause, ts⟩

variable {stop : Position}

/-! ## The calls are those that the functions make -/

theorem close_answered {α : Type} (value : α) (ts : List Token) :
    (close stop value ts).rest?.isSome = true := by
  cases ts with
  | nil => rfl
  | cons t rest =>
      rw [close]
      split <;> rfl

/-- What follows a body is answered if its alternative is. -/
def ElseAnswered (stop : Position) (budget : Nat) (closed : Reading (List Stmt)) : Prop :=
  ∀ word after, closed.value.isSome = true → closed.rest = word :: after → word.kind = .elseWord →
    (alternative stop budget after).isSome = true

/-- A clause is answered if its condition is, its body behind an opening brace, and the alternative behind
the body. -/
theorem isSome_clause {budget : Nat} {ts : List Token} :
    (clause stop (budget + 1) ts).isSome = true ↔ (expression stop budget 0 ts).rest?.isSome = true ∧
      ∀ e t rest, expression stop budget 0 ts = .ok e (t :: rest) → t.kind = .openBrace →
        (block stop budget rest).isSome = true ∧
          ∀ closed, block stop budget rest = some closed → ElseAnswered stop budget closed := by
  rw [clause]
  cases read : expression stop budget 0 ts with
  | exhausted => simp [Reply.rest?]
  | fail error rest => simp [Reply.rest?]
  | ok e rest =>
      cases rest with
      | nil => simp [Reply.rest?]
      | cons t rest =>
          by_cases brace : t.kind = .openBrace
          · cases ends : block stop budget rest with
            | none => simp [brace, ends]
            | some closed =>
                obtain ⟨value, errors, left⟩ := closed
                cases value with
                | none => simp [brace, ends, Reply.rest?, ElseAnswered]
                | some stmts =>
                    cases left with
                    | nil => simp [brace, ends, Reply.rest?, ElseAnswered]
                    | cons word after =>
                        by_cases elseWord : word.kind = .elseWord
                        · cases last : alternative stop budget after <;>
                            simp [brace, ends, Reply.rest?, ElseAnswered, elseWord, last]
                        · simp [brace, ends, Reply.rest?, ElseAnswered, elseWord]
          · simp [brace, Reply.rest?]

/-! ## Each function is answered when what it calls is -/

/-- All goals that the goal calls are answered. -/
def Goal.Supplied (stop : Position) (budget : Nat) (c : Goal) : Prop :=
  ∀ d, Calls stop c d → d.Answered stop budget

variable {budget : Nat} {ts : List Token}

theorem answered_operand :
    Goal.Answered stop (budget + 1) ⟨.operand, ts⟩ ↔ Goal.Supplied stop budget ⟨.operand, ts⟩ := by
  constructor
  · intro answered d call
    cases call with
    | argumentsOf name parenthesis =>
        simp only [Goal.Answered, Goal.left, operand, name, literalKind?, if_pos parenthesis] at answered
        exact (Reply.isSome_andThen.mp answered).1
    | group parenthesis =>
        simp only [Goal.Answered, Goal.left, operand, parenthesis, literalKind?] at answered
        exact (Reply.isSome_andThen.mp answered).1
    | negated bang =>
        simp only [Goal.Answered, Goal.left, operand, bang, literalKind?] at answered
        exact (Reply.isSome_andThen.mp answered).1
  · intro all
    cases ts with
    | nil => rfl
    | cons t ts =>
        simp only [Goal.Answered, Goal.left, operand]
        split
        · rfl
        · next name _ =>
            split
            · next opening rest =>
                split
                · next parenthesis =>
                    have answered := all _ (.argumentsOf name parenthesis)
                    exact Reply.isSome_andThen.mpr ⟨answered, fun _ _ _ => rfl⟩
                · rfl
            · rfl
        · next parenthesis _ =>
            have answered := all _ (.group parenthesis)
            exact Reply.isSome_andThen.mpr ⟨answered, fun e rest _ => close_answered e rest⟩
        · next bang _ =>
            have answered := all _ (.negated bang)
            exact Reply.isSome_andThen.mpr ⟨answered, fun _ _ _ => rfl⟩
        · rfl

theorem answered_expression {rank : Nat} :
    Goal.Answered stop (budget + 1) ⟨.expression rank, ts⟩ ↔
      Goal.Supplied stop budget ⟨.expression rank, ts⟩ := by
  constructor
  · intro answered d call
    obtain ⟨operandAnswered, after⟩ := Reply.isSome_andThen.mp answered
    cases call with
    | first => exact operandAnswered
    | @operators _ _ left _ rest read =>
        -- The operand was read with some other budget; this one is enough for it, so it gives the same.
        exact after left rest (Reply.ok_of_answered (operand_stays stop · ts) operandAnswered read)
  · intro all
    refine Reply.isSome_andThen.mpr ⟨all _ .first, fun left rest read => ?_⟩
    exact all _ (.operators read)

theorem answered_climb {rank : Nat} {left : Expr} :
    Goal.Answered stop (budget + 1) ⟨.climb rank left, ts⟩ ↔
      Goal.Supplied stop budget ⟨.climb rank left, ts⟩ := by
  constructor
  · intro answered d call
    cases call with
    | right found tighter =>
        simp only [Goal.Answered, Goal.left, climb, found, if_pos tighter] at answered
        exact (Reply.isSome_andThen.mp answered).1
    | @nextOperator _ _ _ right op level t ts rest found tighter read =>
        simp only [Goal.Answered, Goal.left, climb, found, if_pos tighter] at answered
        obtain ⟨rightAnswered, after⟩ := Reply.isSome_andThen.mp answered
        have stays := (expression_stays stop · level.rank ts)
        exact after right rest (Reply.ok_of_answered stays rightAnswered read)
  · intro all
    cases ts with
    | nil => rfl
    | cons t ts =>
        simp only [Goal.Answered, Goal.left, climb]
        split
        · next op level found =>
            split
            · next tighter =>
                refine Reply.isSome_andThen.mpr ⟨all _ (.right found tighter), fun right rest read => ?_⟩
                exact all _ (.nextOperator found tighter read)
            · rfl
        · rfl

theorem answered_arguments :
    Goal.Answered stop (budget + 1) ⟨.arguments, ts⟩ ↔ Goal.Supplied stop budget ⟨.arguments, ts⟩ := by
  constructor
  · intro answered d call
    cases call with
    | someArguments goesOn =>
        simp only [Goal.Answered, Goal.left, arguments, if_neg goesOn] at answered
        exact answered
  · intro all
    cases ts with
    | nil => rfl
    | cons t ts =>
        simp only [Goal.Answered, Goal.left, arguments]
        split
        · rfl
        · next goesOn => exact all _ (.someArguments goesOn)

theorem answered_moreArguments :
    Goal.Answered stop (budget + 1) ⟨.moreArguments, ts⟩ ↔
      Goal.Supplied stop budget ⟨.moreArguments, ts⟩ := by
  constructor
  · intro answered d call
    obtain ⟨argumentAnswered, behind⟩ := Reply.isSome_andThen.mp answered
    cases call with
    | argument => exact argumentAnswered
    | @nextArgument _ e t _ after read comma =>
        have argument := Reply.ok_of_answered (expression_stays stop · 0 ts) argumentAnswered read
        have goesOn := behind e (t :: after) argument
        simp only [if_pos comma] at goesOn
        exact (Reply.isSome_andThen.mp goesOn).1
  · intro all
    refine Reply.isSome_andThen.mpr ⟨all _ .argument, fun e rest read => ?_⟩
    cases rest with
    | nil => exact close_answered [e] []
    | cons t after =>
        dsimp only
        split
        · next comma =>
            have answered := all _ (.nextArgument read comma)
            exact Reply.isSome_andThen.mpr ⟨answered, fun _ _ _ => rfl⟩
        · exact close_answered [e] (t :: after)

theorem answered_statement :
    Goal.Answered stop (budget + 1) ⟨.statement, ts⟩ ↔ Goal.Supplied stop budget ⟨.statement, ts⟩ := by
  constructor
  · intro answered d call
    cases call with
    | clauseOf word =>
        rcases word with word | word
        · simpa [Goal.Answered, Goal.left, statement, word] using answered
        · simpa [Goal.Answered, Goal.left, statement, word] using answered
    | assigned name assign =>
        simp only [Goal.Answered, Goal.left, statement, name, if_pos assign, Option.isSome_map] at answered
        exact Reading.isSome_ofReply.mp answered
    | called name parenthesis =>
        simp only [Goal.Answered, Goal.left, statement, name, parenthesis, Option.isSome_map] at answered
        exact Reading.isSome_ofReply.mp answered
  · intro all
    cases ts with
    | nil => rfl
    | cons t ts =>
        simp only [Goal.Answered, Goal.left, statement, Option.isSome_map]
        split
        · rfl
        · next word => simpa [Goal.Answered, Goal.left] using all _ (.clauseOf (.inl word))
        · next word => simpa [Goal.Answered, Goal.left] using all _ (.clauseOf (.inr word))
        · next name =>
            split
            · next sign rest =>
                split
                · next assign => exact Reading.isSome_ofReply.mpr (all _ (.assigned name assign))
                · split
                  · next parenthesis =>
                      exact Reading.isSome_ofReply.mpr (all _ (.called name parenthesis))
                  · rfl
            · rfl
        · rfl

theorem answered_statements {nested : Bool} :
    Goal.Answered stop (budget + 1) ⟨.statements nested, ts⟩ ↔
      Goal.Supplied stop budget ⟨.statements nested, ts⟩ := by
  constructor
  · intro answered d call
    cases call with
    | line goesOn =>
        simp only [Goal.Answered, Goal.left, statements, if_neg goesOn, Option.isSome_map] at answered ⊢
        exact (Reading.isSome_bind.mp answered).1
    | @nextLine _ _ t ts one goesOn read =>
        simp only [Goal.Answered, Goal.left, statements, if_neg goesOn, Option.isSome_map] at answered ⊢
        obtain ⟨lineAnswered, after⟩ := Reading.isSome_bind.mp answered
        have same := Reading.eq_of_answered (statement_stays stop · (t :: ts)) lineAnswered read
        exact (Reading.isSome_bind.mp (after one same)).1
  · intro all
    cases ts with
    | nil => rfl
    | cons t ts =>
        simp only [Goal.Answered, Goal.left, statements, Option.isSome_map]
        split
        · rfl
        · next goesOn =>
            have first := all _ (.line goesOn)
            simp only [Goal.Answered, Goal.left, Option.isSome_map] at first
            refine Reading.isSome_bind.mpr ⟨first, fun one read => ?_⟩
            have others := all _ (.nextLine goesOn read)
            simp only [Goal.Answered, Goal.left, Option.isSome_map] at others
            exact Reading.isSome_bind.mpr ⟨others, fun _ _ => rfl⟩

theorem answered_block :
    Goal.Answered stop (budget + 1) ⟨.block, ts⟩ ↔ Goal.Supplied stop budget ⟨.block, ts⟩ := by
  constructor
  · intro answered d call
    cases call with
    | lines =>
        simp only [Goal.Answered, Goal.left, block, Option.isSome_map] at answered ⊢
        exact (Reading.isSome_bind.mp answered).1
  · intro all
    have body := all _ .lines
    simp only [Goal.Answered, Goal.left, Option.isSome_map] at body ⊢
    rw [block]
    refine Reading.isSome_bind.mpr ⟨body, fun reading _ => ?_⟩
    split <;> rfl

theorem answered_clause :
    Goal.Answered stop (budget + 1) ⟨.clause, ts⟩ ↔ Goal.Supplied stop budget ⟨.clause, ts⟩ := by
  constructor
  · intro answered d call
    simp only [Goal.Answered, Goal.left, Option.isSome_map] at answered
    obtain ⟨conditionAnswered, behind⟩ := isSome_clause.mp answered
    have condition {b : Nat} {e : Expr} {rest : List Token} (read : expression stop b 0 ts = .ok e rest) :=
      Reply.ok_of_answered (expression_stays stop · 0 ts) conditionAnswered read
    cases call with
    | condition => exact conditionAnswered
    | @body _ e t _ rest read brace =>
        simp only [Goal.Answered, Goal.left, Option.isSome_map]
        exact (behind e t rest (condition read) brace).1
    | @otherwise _ _ e t word _ rest after closed read brace ends whole left elseWord =>
        obtain ⟨blockAnswered, other⟩ := behind e t rest (condition read) brace
        have body := Reading.eq_of_answered (block_stays stop · rest) blockAnswered ends
        simp only [Goal.Answered, Goal.left, Option.isSome_map]
        exact other closed body word after whole left elseWord
  · intro all
    have condition := all _ .condition
    simp only [Goal.Answered, Goal.left, Option.isSome_map] at condition ⊢
    refine isSome_clause.mpr ⟨condition, fun e t rest read brace => ?_⟩
    have body := all _ (.body read brace)
    simp only [Goal.Answered, Goal.left, Option.isSome_map] at body
    refine ⟨body, fun closed ends word after whole left elseWord => ?_⟩
    have other := all _ (.otherwise read brace ends whole left elseWord)
    simpa only [Goal.Answered, Goal.left, Option.isSome_map] using other

theorem answered_alternative :
    Goal.Answered stop (budget + 1) ⟨.alternative, ts⟩ ↔
      Goal.Supplied stop budget ⟨.alternative, ts⟩ := by
  constructor
  · intro answered d call
    cases call with
    | elseBlock brace => simpa [Goal.Answered, Goal.left, alternative, brace] using answered
    | elseIf word => simpa [Goal.Answered, Goal.left, alternative, word] using answered
  · intro all
    cases ts with
    | nil => rfl
    | cons t ts =>
        simp only [Goal.Answered, Goal.left, alternative, Option.isSome_map]
        split
        · next brace => simpa [Goal.Answered, Goal.left] using all _ (.elseBlock brace)
        · next word => simpa [Goal.Answered, Goal.left] using all _ (.elseIf word)
        · rfl

/-- A goal is answered with one unit more just when all that it calls are answered. -/
theorem answered_succ_iff {c : Goal} :
    c.Answered stop (budget + 1) ↔ ∀ d, Calls stop c d → d.Answered stop budget := by
  obtain ⟨task, ts⟩ := c
  cases task with
  | operand => exact answered_operand
  | expression rank => exact answered_expression
  | climb rank left => exact answered_climb
  | arguments => exact answered_arguments
  | moreArguments => exact answered_moreArguments
  | statement => exact answered_statement
  | statements nested => exact answered_statements
  | block => exact answered_block
  | clause => exact answered_clause
  | alternative => exact answered_alternative

end Parser

end LoopScript
