/-
# LoopScript.Proofs.Parser.Progress — reading ends: no function is called again before a token was taken

A goal that another one calls has fewer tokens, or the same and a lower stage (`Calls.below`). Stages go
from zero to three, so at most three calls follow one another without a token; and a chain of calls that
comes back to the function where it began has taken one (`fewer_of_chain`). This holds behind failures too:
a statement takes its first token whatever comes of it (`statement_leaves`).

So there is no chain without end (`calls_wellFounded`), and every goal is answered, on whatever tokens and
wherever these end (`Goal.answers`). `read_terminates` puts this together with the requests for tokens.
-/
import LoopScript.Proofs.Parser.Calls
import LoopScript.Proofs.Token.Requests

namespace LoopScript

set_option autoImplicit false

namespace Parser

variable {stop : Position}

/-! ## What is left -/

theorem operand_leaves {budget : Nat} {ts rest : List Token} {e : Expr}
    (read : operand stop budget ts = .ok e rest) : rest <:+ ts ∧ rest.length < ts.length := by
  have within : (operand stop budget ts).Within stop ts := operand_within budget ts
  have advances := operand_advances stop _ ts (Nat.le_refl _)
  rw [read] at within
  exact ⟨within, Reply.length_lt_of_ok (operand_stays stop · ts) advances read⟩

theorem expression_leaves {budget rank : Nat} {ts rest : List Token} {e : Expr}
    (read : expression stop budget rank ts = .ok e rest) : rest <:+ ts ∧ rest.length < ts.length := by
  have within : (expression stop budget rank ts).Within stop ts := expression_within budget rank ts
  have advances := expression_advances stop _ rank ts (Nat.le_refl _)
  rw [read] at within
  exact ⟨within, Reply.length_lt_of_ok (expression_stays stop · rank ts) advances read⟩

/-- A statement takes its first token, also when it fails. -/
theorem statement_leaves {budget : Nat} {t : Token} {ts : List Token} {one : Reading Stmt}
    (read : statement stop budget (t :: ts) = some one) :
    one.rest <:+ t :: ts ∧ one.rest.length < (t :: ts).length := by
  have within := statement_within budget (t :: ts) one read
  -- How many tokens are left is known for one budget that is enough; the answer is the same there.
  obtain ⟨other, found, short⟩ := statement_answers stop _ t ts (Nat.le_refl _)
  have same := Reading.eq_of_answered (statement_stays stop · (t :: ts)) (by rw [read]; rfl) found
  rw [read] at same
  cases same
  exact ⟨within.suffix, Nat.lt_succ_of_le short⟩

theorem block_leaves {budget : Nat} {ts : List Token} {closed : Reading (List Stmt)}
    (read : block stop budget ts = some closed) : closed.rest <:+ ts :=
  (block_within budget ts closed read).suffix

/-- Every goal is answered, and what is left is an end of its tokens. -/
theorem Goal.answers (stop : Position) (c : Goal) :
    ∃ rest, rest <:+ c.tokens ∧ ∀ budget, 4 * c.tokens.length + 4 ≤ budget →
      c.left stop budget = some rest := by
  obtain ⟨task, ts⟩ := c
  have room : ∀ k ≤ 4, 4 * ts.length + k ≤ 4 * ts.length + 4 := fun k le => Nat.add_le_add_left le _
  cases task with
  | operand =>
      exact Reply.answers (operand_stays stop · ts) (operand_advances stop _ ts (Nat.le_refl _))
        (operand_within _ ts) (room _ (by decide))
  | expression rank =>
      exact Reply.answers (expression_stays stop · rank ts)
        (expression_advances stop _ rank ts (Nat.le_refl _)) (expression_within _ rank ts)
        (room _ (by decide))
  | climb rank left =>
      exact Reply.answers (climb_stays stop · rank left ts)
        (climb_advances stop _ rank left ts (Nat.le_refl _)) (climb_within _ rank left ts)
        (room _ (by decide))
  | arguments =>
      exact Reply.answers (arguments_stays stop · ts) (arguments_advances stop _ ts (Nat.le_refl _))
        (arguments_within _ ts) (room _ (by decide))
  | moreArguments =>
      exact Reply.answers (moreArguments_stays stop · ts)
        (moreArguments_advances stop _ ts (Nat.le_refl _)) (moreArguments_within _ ts) (room _ (by decide))
  | statement =>
      cases ts with
      | nil =>
          have answers : Reading.Answers 0 (statement stop 1 []) := ⟨_, rfl, Nat.le_refl _⟩
          exact Reading.answers (statement_stays stop · []) answers (statement_within 1 []) (by decide)
      | cons t ts =>
          exact Reading.answers (statement_stays stop · (t :: ts))
            (statement_answers stop _ t ts (Nat.le_refl _)) (statement_within _ (t :: ts))
            (room 1 (by decide))
  | statements nested =>
      exact Reading.answers (statements_stays stop nested · ts)
        (statements_answers stop nested _ ts (Nat.le_refl _)) (statements_within nested _ ts)
        (room _ (by decide))
  | block =>
      exact Reading.answers (block_stays stop · ts) (block_answers stop _ ts (Nat.le_refl _))
        (block_within _ ts) (room _ (by decide))
  | clause =>
      exact Reading.answers (clause_stays stop · ts) (clause_answers stop _ ts (Nat.le_refl _))
        (clause_within _ ts) (room _ (by decide))
  | alternative =>
      exact Reading.answers (alternative_stays stop · ts)
        (alternative_answers stop _ ts (Nat.le_refl _)) (alternative_within _ ts) (room _ (by decide))

/-! ## Every call takes a token or comes closer to one -/

/-- How many calls may follow without a token. -/
def Task.stage : Task → Nat
  | .operand | .climb _ _ | .statement | .alternative => 0
  | .expression _ | .statements _ => 1
  | .moreArguments | .block | .clause => 2
  | .arguments => 3

theorem Task.stage_le (task : Task) : task.stage ≤ 3 := by
  cases task <;> simp [stage]

/-- The tokens of `d` are an end of those of `c`, and fewer, unless the stage is lower. -/
def Goal.Below (d c : Goal) : Prop :=
  d.tokens <:+ c.tokens ∧ (d.tokens.length < c.tokens.length ∨ d.task.stage < c.task.stage)

namespace Goal.Below

theorem trans {c d e : Goal} (second : e.Below d) (first : d.Below c) : e.Below c := by
  obtain ⟨inner, lower⟩ := second
  obtain ⟨outer, low⟩ := first
  have short := inner.length_le
  have shorter := outer.length_le
  exact ⟨inner.trans outer, by omega⟩

theorem of_fewer {c d : Goal} (part : d.tokens <:+ c.tokens) (fewer : d.tokens.length < c.tokens.length) :
    d.Below c :=
  ⟨part, .inl fewer⟩

/-- The tokens behind one of them. -/
theorem of_behind {t : Token} {ts us : List Token} {task other : Task} (part : t :: us <:+ ts) :
    Below ⟨other, us⟩ ⟨task, ts⟩ :=
  of_fewer ((List.suffix_cons t us).trans part) part.length_le

theorem of_stage {ts : List Token} {task other : Task} (lower : other.stage < task.stage) :
    Below ⟨other, ts⟩ ⟨task, ts⟩ :=
  ⟨List.suffix_rfl, .inr lower⟩

end Goal.Below

/-- A goal that another one calls has fewer tokens, or the same and a lower stage. -/
theorem Calls.below {c d : Goal} (call : Calls stop c d) : d.Below c := by
  cases call with
  | argumentsOf | called | assigned => exact .of_behind (List.suffix_cons _ _)
  | group | negated | right | clauseOf | elseBlock | elseIf => exact .of_behind List.suffix_rfl
  | first | someArguments | argument | line | lines | condition => exact .of_stage (by simp [Task.stage])
  | operators read => exact .of_fewer (operand_leaves read).1 (operand_leaves read).2
  | nextOperator _ _ read =>
      obtain ⟨part, fewer⟩ := expression_leaves read
      exact .of_fewer (part.trans (List.suffix_cons _ _)) (Nat.lt_succ_of_lt fewer)
  | nextArgument read | body read => exact .of_behind (expression_leaves read).1
  | nextLine _ read => exact .of_fewer (statement_leaves read).1 (statement_leaves read).2
  | @otherwise _ _ _ t word _ rest after closed read _ ends _ left =>
      have inner := block_leaves ends
      rw [left] at inner
      exact .of_behind ((inner.trans (List.suffix_cons t rest)).trans (expression_leaves read).1)

theorem below_of_chain {c d : Goal} (chain : Relation.TransGen (Calls stop) c d) : d.Below c := by
  induction chain with
  | single call => exact call.below
  | tail _ call ih => exact call.below.trans ih

/-- The same function, whatever it is given. -/
def Task.Same : Task → Task → Prop
  | .operand, .operand | .expression _, .expression _ | .climb _ _, .climb _ _ => True
  | .arguments, .arguments | .moreArguments, .moreArguments => True
  | .statement, .statement | .statements _, .statements _ | .block, .block => True
  | .clause, .clause | .alternative, .alternative => True
  | _, _ => False

theorem Task.Same.stage_eq {task other : Task} (same : task.Same other) : other.stage = task.stage := by
  unfold Same at same
  split at same
  any_goals rfl
  exact same.elim

/-- A chain of calls that comes back to the function where it began has taken a token. -/
theorem fewer_of_chain {c d : Goal} (chain : Relation.TransGen (Calls stop) c d)
    (same : c.task.Same d.task) : d.tokens.length < c.tokens.length := by
  obtain ⟨-, fewer | lower⟩ := below_of_chain chain
  · exact fewer
  · rw [same.stage_eq] at lower
    exact absurd lower (Nat.lt_irrefl _)

/-- An expression that begins with a call reads the argument of the call as an expression. -/
theorem Calls.argument_inside {rank : Nat} {t opening argument : Token} {ts : List Token}
    (name : t.kind = .identifier) (parenthesis : opening.kind = .openParen)
    (goesOn : argument.kind ≠ .closeParen) :
    Relation.TransGen (Calls stop) ⟨.expression rank, t :: opening :: argument :: ts⟩
      ⟨.expression 0, argument :: ts⟩ := by
  have operand : Relation.TransGen (Calls stop) ⟨.expression rank, t :: opening :: argument :: ts⟩
      ⟨.operand, t :: opening :: argument :: ts⟩ := .single .first
  exact ((operand.tail (.argumentsOf name parenthesis)).tail (.someArguments goesOn)).tail .argument

/-- There is no chain of calls without end. -/
theorem calls_wellFounded (stop : Position) : WellFounded fun d c => Calls stop c d := by
  have size : ∀ c d : Goal, Calls stop c d →
      4 * d.tokens.length + d.task.stage < 4 * c.tokens.length + c.task.stage := by
    intro c d call
    -- A token weighs more than all stages, so taking one makes up for any stage that comes with it.
    obtain ⟨part, lower⟩ := call.below
    have shorter := part.length_le
    have most := d.task.stage_le
    omega
  exact Subrelation.wf (fun {d c} call => size c d call)
    (measure fun c : Goal => 4 * c.tokens.length + c.task.stage).wf

end Parser

namespace Program

/-- **Reading a source comes to an end.** A source has at most as many tokens as bytes; requests for one
after the other give these, and nothing ever after. The lines of the source are read with any budget that
is not below a bound, to the same effect. Every function of the reader has an answer on all tokens, with an
end of these left; and a budget is enough for it just when one unit less is enough for the functions that
it calls. A chain of such calls goes on with ends of the tokens, and with fewer of them where it comes back
to a function; none goes on without end. -/
theorem read_terminates (source : Text) :
    (∃ n ≤ source.length, ∀ i, Token.request source i = none ↔ n ≤ i) ∧
    (∀ i, Token.request source i = (Token.tokens source)[i]?) ∧
    (∀ budget, readBudget (Token.tokens source).length ≤ budget →
      Parser.statements (endOf source) false budget (Token.tokens source) =
        some (readTokens (endOf source) (Token.tokens source))) ∧
    ∀ stop : Position,
      WellFounded (fun d c => Parser.Calls stop c d) ∧
      ∀ c : Parser.Goal,
        (∃ rest, rest <:+ c.tokens ∧
          ∀ budget, 4 * c.tokens.length + 4 ≤ budget → c.left stop budget = some rest) ∧
        (∀ budget, c.Answered stop (budget + 1) ↔ ∀ d, Parser.Calls stop c d → d.Answered stop budget) ∧
        ∀ d, Relation.TransGen (Parser.Calls stop) c d →
          d.tokens <:+ c.tokens ∧ (c.task.Same d.task → d.tokens.length < c.tokens.length) := by
  refine ⟨Token.requests_end source, Token.request_eq source, ?_, fun stop => ⟨?_, fun c => ⟨?_, ?_, ?_⟩⟩⟩
  · intro budget enough
    have read := readTokens_eq (endOf source) (Token.tokens source)
    have stays (b : Nat) := Parser.statements_stays (endOf source) false b (Token.tokens source)
    exact (Stays.eq_of_le stays (by simp [read]) enough).trans read
  · exact Parser.calls_wellFounded stop
  · exact c.answers stop
  · exact fun budget => Parser.answered_succ_iff
  · intro d chain
    exact ⟨(Parser.below_of_chain chain).1, Parser.fewer_of_chain chain⟩

/-- The condition of a loop that breaks off in a call, behind a negation and an open parenthesis. -/
def unfinished : Text := utf8 "while f(!(1"

/-- Six tokens and then none; and the argument of the call is an expression with two tokens less than the
condition. -/
theorem read_terminates_unfinished :
    Token.request unfinished 5 = some ⟨.integer, utf8 "1", ⟨1, 11⟩⟩ ∧
    Token.request unfinished 6 = none ∧ Token.request unfinished 1000 = none ∧
    Parser.statements (endOf unfinished) false 1000 (Token.tokens unfinished) =
      some (readTokens (endOf unfinished) (Token.tokens unfinished)) ∧
    ∃ c d : Parser.Goal, c = ⟨.expression 0, (Token.tokens unfinished).drop 1⟩ ∧
      Relation.TransGen (Parser.Calls (endOf unfinished)) c d ∧ c.task.Same d.task ∧
      d.tokens <:+ c.tokens ∧ d.tokens.length < c.tokens.length := by
  have tokens : Token.tokens unfinished =
      [⟨.loopWord, utf8 "while", ⟨1, 1⟩⟩, ⟨.identifier, utf8 "f", ⟨1, 7⟩⟩, ⟨.openParen, utf8 "(", ⟨1, 8⟩⟩,
        ⟨.bang, utf8 "!", ⟨1, 9⟩⟩, ⟨.openParen, utf8 "(", ⟨1, 10⟩⟩, ⟨.integer, utf8 "1", ⟨1, 11⟩⟩] := by
    decide +kernel
  obtain ⟨-, answers, reads, calls⟩ := read_terminates unfinished
  obtain ⟨-, each⟩ := calls (endOf unfinished)
  refine ⟨?_, ?_, ?_, reads 1000 ?_, ⟨.expression 0, (Token.tokens unfinished).drop 1⟩,
    ⟨.expression 0, (Token.tokens unfinished).drop 3⟩, rfl, ?_⟩
  · rw [answers, tokens]
    rfl
  · rw [answers, tokens]
    rfl
  · rw [answers, tokens]
    rfl
  · rw [tokens]
    decide
  · have chain : Relation.TransGen (Parser.Calls (endOf unfinished))
        ⟨.expression 0, (Token.tokens unfinished).drop 1⟩
        ⟨.expression 0, (Token.tokens unfinished).drop 3⟩ := by
      rw [tokens]
      exact Parser.Calls.argument_inside rfl rfl (by decide)
    obtain ⟨part, fewer⟩ := (each _).2.2 _ chain
    exact ⟨chain, trivial, part, fewer trivial⟩

end Program

end LoopScript
