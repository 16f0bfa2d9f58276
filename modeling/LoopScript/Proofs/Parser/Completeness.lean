/-
# LoopScript.Proofs.Parser.Completeness — what is in the grammar is read, and read as its tree

The other direction of `LoopScript.Proofs.Parser.Soundness`: tokens that are derivable as something are
read as that thing, whatever stands behind them that cannot continue it, and with any budget that is
ample for all the tokens. "Cannot continue it" is `Ends rank` for an expression (no opening parenthesis
and no operator above `rank` comes next) and `AtLine` for a line.

An expression of a binary level is read on the way to a longer one, so its statement (`Reads`) is about
what follows: reading it at a lower rank comes to whatever climbing on from its tree comes to. The same
form is used for a line among the statements behind it (`Line.reads`), where a semicolon may or may not
be part of the line.
-/
import LoopScript.Proofs.Parser.Soundness

namespace LoopScript

set_option autoImplicit false

namespace Grammar

def NoParen (ts : List Token) : Prop := ∀ t ∈ ts.head?, t.kind ≠ .openParen

/-- What comes first cannot continue an expression read at `rank`. -/
def Ends (rank : Nat) (ts : List Token) : Prop := Stops rank ts ∧ NoParen ts

theorem Ends.mono {m n : Nat} {ts : List Token} (ends : Ends m ts) (le : m ≤ n) : Ends n ts :=
  ⟨fun t first op level kind known => Nat.le_trans (ends.1 t first op level kind known) le, ends.2⟩

/-- A token that is neither an operator nor an opening parenthesis ends an expression. -/
theorem ends_cons {t : Token} {ts : List Token} (notOperator : ∀ op, t.kind ≠ .operator op)
    (notParen : t.kind ≠ .openParen) : Ends 0 (t :: ts) := by
  refine ⟨?_, ?_⟩
  · rintro _ ⟨⟩ op level kind
    exact absurd kind (notOperator op)
  · rintro _ ⟨⟩
    exact notParen

/-- A call begins with its name. -/
theorem Call.starts {ts : List Token} {name : Token} {args : List Expr} (call : Call ts name args) :
    ∃ rest, ts = name :: rest ∧ name.kind = .identifier := by
  cases call with
  | empty kind _ _ => exact ⟨_, rfl, kind⟩
  | arguments kind _ _ _ => exact ⟨_, rfl, kind⟩

mutual

/-- An expression has a first token, which is no closing parenthesis. -/
theorem Expression.starts {s : Stratum} {ts : List Token} {e : Expr} :
    Expression s ts e → ∃ t rest, ts = t :: rest ∧ t.kind ≠ .closeParen
  | .operand derived => derived.starts
  | .operation _ _ derived _ => by
      obtain ⟨t, rest, rfl, kind⟩ := derived.starts
      exact ⟨t, _, rfl, kind⟩
  | .plain derived => derived.starts
  | .negation kind _ => ⟨_, _, rfl, by simp [kind]⟩
  | .constant kind => ⟨_, _, rfl, fun closing => by rw [closing] at kind; cases kind⟩
  | .name kind => ⟨_, _, rfl, by simp [kind]⟩
  | .call derived => by
      obtain ⟨rest, rfl, kind⟩ := derived.starts
      exact ⟨_, _, rfl, by simp [kind]⟩
  | .group kind _ _ => ⟨_, _, rfl, by simp [kind]⟩

theorem Expressions.starts {ts : List Token} {es : List Expr} :
    Expressions ts es → ∃ t rest, ts = t :: rest ∧ t.kind ≠ .closeParen
  | .last derived => derived.starts
  | .more derived _ _ => by
      obtain ⟨t, rest, rfl, kind⟩ := derived.starts
      exact ⟨t, _, rfl, kind⟩

end

end Grammar

open Grammar

namespace Parser

variable (stop : Position)

/-! ## Expressions -/

/-- Climbing ends where nothing binds more tightly. -/
theorem climb_stops {budget rank : Nat} {left : Expr} {ts : List Token} (enough : 0 < budget)
    (stops : Stops rank ts) : climb stop budget rank left ts = .ok left ts := by
  obtain ⟨budget, rfl⟩ := Nat.exists_eq_add_one.mpr (show 0 < budget by omega)
  cases ts with
  | nil => rfl
  | cons t rest =>
      simp only [climb]
      split
      · next op level found =>
          obtain ⟨kind, known⟩ := operator?_eq_some.mp found
          rw [if_neg (Nat.not_lt.mpr (stops t rfl op level kind known))]
      · rfl

theorem close_closing {α : Type} {value : α} {closing : Token} {rest : List Token}
    (kind : closing.kind = .closeParen) : close stop value (closing :: rest) = .ok value rest := by
  rw [close, if_pos kind]

/-- How the tokens `ts` are read as an expression of a stratum with the tree `e`. -/
def Reads (ts : List Token) (e : Expr) : Stratum → Prop
  | .binary level => ∀ (rank budget : Nat) (rest : List Token) (r : Reply Expr),
      rank < level.rank → Ends level.rank rest → 4 * (ts ++ rest).length + 2 ≤ budget →
      (∀ b, 4 * rest.length + 1 ≤ b → climb stop b rank e rest = r) →
      expression stop budget rank (ts ++ rest) = r
  | .negated | .primary => ∀ (budget : Nat) (rest : List Token), NoParen rest →
      4 * (ts ++ rest).length + 1 ≤ budget → operand stop budget (ts ++ rest) = .ok e rest

/-- How an operand of a level is read, on the left of an operator of that level or on its right. -/
theorem Reads.ofOperand {level : Level} {ts : List Token} {e : Expr}
    (reads : Reads stop ts e (operandOf level)) {rank budget : Nat} {rest : List Token}
    {r : Reply Expr} (le : rank ≤ level.rank) (ends : Ends level.rank rest)
    (enough : 4 * (ts ++ rest).length + 2 ≤ budget)
    (follows : ∀ b, 4 * rest.length + 1 ≤ b → climb stop b rank e rest = r) :
    expression stop budget rank (ts ++ rest) = r := by
  cases level with
  | boolean => exact reads rank budget rest r (Nat.lt_succ_of_le le) (ends.mono (by decide)) enough follows
  | comparison =>
      exact reads rank budget rest r (Nat.lt_succ_of_le le) (ends.mono (by decide)) enough follows
  | additive => exact reads rank budget rest r (Nat.lt_succ_of_le le) (ends.mono (by decide)) enough follows
  | multiplicative =>
      obtain ⟨budget, rfl⟩ := Nat.exists_eq_add_one.mpr (show 0 < budget by omega)
      rw [expression, reads budget rest ends.2 (by omega), Reply.andThen]
      refine follows budget ?_
      rw [List.length_append] at enough
      omega

/-- A whole expression is read up to what cannot continue it. -/
theorem Reads.whole {ts : List Token} {e : Expr} (reads : Reads stop ts e .whole) {budget : Nat}
    {rest : List Token} (ends : Ends 0 rest) (enough : 4 * (ts ++ rest).length + 2 ≤ budget) :
    expression stop budget 0 (ts ++ rest) = .ok e rest :=
  reads 0 budget rest _ (by decide) (ends.mono (Nat.zero_le _)) enough
    fun b le => climb_stops stop (by omega) ends.1

theorem operand_constant {budget : Nat} {t : Token} {kind : LiteralKind} {rest : List Token}
    (constant : Constant t.kind kind) :
    operand stop (budget + 1) (t :: rest) = .ok (.literal kind t.text t.pos) rest := by
  simp only [operand, constant_iff_literalKind?.mp constant]

theorem operand_name {budget : Nat} {t : Token} {rest : List Token} (kind : t.kind = .identifier)
    (noParen : NoParen rest) :
    operand stop (budget + 1) (t :: rest) = .ok (.name t.text t.pos) rest := by
  simp only [operand, kind, literalKind?]
  cases rest with
  | nil => rfl
  | cons next after => exact if_neg (noParen next rfl)

theorem operand_call {budget : Nat} {t opening : Token} {rest after : List Token}
    {args : List Expr} (kind : t.kind = .identifier) (parenthesis : opening.kind = .openParen)
    (read : arguments stop budget rest = .ok args after) :
    operand stop (budget + 1) (t :: opening :: rest) = .ok (.call t.text args t.pos) after := by
  simp only [operand, kind, literalKind?, parenthesis, if_true, read, Reply.andThen]

theorem operand_group {budget : Nat} {t closing : Token} {rest after : List Token} {e : Expr}
    (kind : t.kind = .openParen) (read : expression stop budget 0 rest = .ok e (closing :: after))
    (parenthesis : closing.kind = .closeParen) :
    operand stop (budget + 1) (t :: rest) = .ok e after := by
  simp only [operand, kind, literalKind?, read, Reply.andThen, close_closing stop parenthesis]

theorem operand_negation {budget : Nat} {t : Token} {rest after : List Token} {e : Expr}
    (kind : t.kind = .bang) (read : operand stop budget rest = .ok e after) :
    operand stop (budget + 1) (t :: rest) = .ok (.negation e t.pos) after := by
  simp only [operand, kind, literalKind?, read, Reply.andThen]

theorem climb_operation {budget rank : Nat} {left right : Expr} {t : Token} {op : Operator}
    {level : Level} {rest after : List Token} (kind : t.kind = .operator op)
    (known : op.level? = some level) (tighter : rank < level.rank)
    (read : expression stop budget level.rank rest = .ok right after) :
    climb stop (budget + 1) rank left (t :: rest) =
      climb stop budget rank (.binary level op left right t.pos) after := by
  simp only [climb, operator?_eq_some.mpr ⟨kind, known⟩, tighter, if_true, read, Reply.andThen]

mutual

theorem reads_of_expression {s : Stratum} {ts : List Token} {e : Expr} :
    Expression s ts e → Reads stop ts e s
  | .operand derived => fun _ _ _ _ less ends enough follows =>
      (reads_of_expression derived).ofOperand stop (Nat.le_of_lt less) ends enough follows
  | @Expression.operation _ _ t _ rs _ _ kind known left right => by
      intro rank budget rest r less ends enough follows
      simp only [List.append_assoc, List.cons_append, List.length_append, List.length_cons] at enough ⊢
      -- Reading the left operand comes to climbing on from it, and climbing takes the operator.
      refine reads_of_expression left rank budget (t :: (rs ++ rest)) r less ?_ ?_ ?_
      · refine ⟨?_, ?_⟩
        · rintro _ ⟨⟩ op' level' kind' known'
          rw [kind] at kind'
          cases kind'
          rw [known] at known'
          cases known'
          exact Nat.le_refl _
        · rintro _ ⟨⟩
          simp [kind]
      · simp only [List.length_append, List.length_cons]
        omega
      · intro b ample
        simp only [List.length_append, List.length_cons] at ample
        obtain ⟨b, rfl⟩ := Nat.exists_eq_add_one.mpr (show 0 < b by omega)
        rw [climb_operation stop kind known less]
        · exact follows b (by omega)
        · refine (reads_of_expression right).ofOperand stop (Nat.le_refl _) ends ?_ ?_
          · rw [List.length_append]
            omega
          · exact fun b _ => climb_stops stop (by omega) ends.1
  | .plain derived => by
      have read := reads_of_expression derived
      exact read
  | .negation kind derived => by
      intro budget rest noParen enough
      obtain ⟨budget, rfl⟩ := Nat.exists_eq_add_one.mpr (show 0 < budget by omega)
      simp only [List.cons_append, List.length_cons] at enough
      exact operand_negation stop kind (reads_of_expression derived budget rest noParen (by omega))
  | .constant kind => by
      intro budget rest _ enough
      obtain ⟨budget, rfl⟩ := Nat.exists_eq_add_one.mpr (show 0 < budget by omega)
      exact operand_constant stop kind
  | .name kind => by
      intro budget rest noParen enough
      obtain ⟨budget, rfl⟩ := Nat.exists_eq_add_one.mpr (show 0 < budget by omega)
      exact operand_name stop kind noParen
  | .call derived => by
      intro budget rest _ enough
      obtain ⟨budget, rfl⟩ := Nat.exists_eq_add_one.mpr (show 0 < budget by omega)
      obtain ⟨opening, behind, rfl, kind, parenthesis, read⟩ := reads_of_call derived
      simp only [List.cons_append, List.length_cons] at enough
      exact operand_call stop kind parenthesis (read budget rest (by omega))
  | .group kind derived parenthesis => by
      intro budget rest _ enough
      obtain ⟨budget, rfl⟩ := Nat.exists_eq_add_one.mpr (show 0 < budget by omega)
      simp only [List.cons_append, List.append_assoc, List.nil_append, List.length_cons] at enough ⊢
      refine operand_group stop kind ((reads_of_expression derived).whole stop ?_ (by omega)) parenthesis
      exact ends_cons (by simp [parenthesis]) (by simp [parenthesis])

/-- Expressions with commas between them are read up to the closing parenthesis. -/
theorem reads_of_expressions {ts : List Token} {es : List Expr} :
    Expressions ts es → ∀ (budget : Nat) (closing : Token) (rest : List Token),
      closing.kind = .closeParen → 4 * (ts ++ closing :: rest).length + 3 ≤ budget →
      moreArguments stop budget (ts ++ closing :: rest) = .ok es rest
  | .last derived => by
      intro budget closing rest parenthesis enough
      obtain ⟨budget, rfl⟩ := Nat.exists_eq_add_one.mpr (show 0 < budget by omega)
      have ends : Ends 0 (closing :: rest) := ends_cons (by simp [parenthesis]) (by simp [parenthesis])
      rw [moreArguments, (reads_of_expression derived).whole stop ends (by omega), Reply.andThen]
      simp only [parenthesis, reduceCtorEq, if_false]
      exact close_closing stop parenthesis
  | .more derived kind more => by
      intro budget closing rest parenthesis enough
      obtain ⟨budget, rfl⟩ := Nat.exists_eq_add_one.mpr (show 0 < budget by omega)
      simp only [List.append_assoc, List.cons_append, List.length_append, List.length_cons] at enough ⊢
      rw [moreArguments, (reads_of_expression derived).whole stop, Reply.andThen]
      · simp only [kind, if_true]
        rw [reads_of_expressions more budget closing rest parenthesis, Reply.andThen]
        simp only [List.length_append, List.length_cons]
        omega
      · exact ends_cons (by simp [kind]) (by simp [kind])
      · simp only [List.length_append, List.length_cons]
        omega

/-- A call is a name, an opening parenthesis, and tokens that are read as its arguments. -/
theorem reads_of_call {ts : List Token} {name : Token} {args : List Expr} :
    Call ts name args → ∃ opening behind, ts = name :: opening :: behind ∧
      name.kind = .identifier ∧ opening.kind = .openParen ∧
      ∀ (budget : Nat) (rest : List Token), 4 * (behind ++ rest).length + 4 ≤ budget →
        arguments stop budget (behind ++ rest) = .ok args rest
  | @Call.empty _ opening closing kind parenthesis closes => by
      refine ⟨opening, [closing], rfl, kind, parenthesis, fun budget rest enough => ?_⟩
      obtain ⟨budget, rfl⟩ := Nat.exists_eq_add_one.mpr (show 0 < budget by omega)
      exact if_pos closes
  | @Call.arguments _ opening closing ts _ kind parenthesis derived closes => by
      refine ⟨opening, ts ++ [closing], rfl, kind, parenthesis, fun budget rest enough => ?_⟩
      obtain ⟨budget, rfl⟩ := Nat.exists_eq_add_one.mpr (show 0 < budget by omega)
      simp only [List.append_assoc, List.cons_append, List.nil_append] at enough ⊢
      have read := reads_of_expressions derived budget closing rest closes (by omega)
      obtain ⟨first, others, rfl, notClosing⟩ := derived.starts
      rw [List.cons_append] at read ⊢
      rw [arguments, if_neg notClosing, read]

end

/-! ## Statements -/

/-- Where a line begins or the lines end: what may stand behind a line. -/
def AtLine (ts : List Token) : Prop :=
  ∀ t ∈ ts.head?, t.kind = .semicolon ∨ t.kind = .identifier ∨ t.kind = .ifWord ∨
    t.kind = .loopWord ∨ t.kind = .closeBrace

/-- Where the lines end: the end of the source, or a closing brace if they are nested. -/
def LinesEnd (nested : Bool) (ts : List Token) : Prop :=
  ts = [] ∨ nested = true ∧ ∃ closing rest, ts = closing :: rest ∧ closing.kind = .closeBrace

def NoElse (ts : List Token) : Prop := ∀ t ∈ ts.head?, t.kind ≠ .elseWord

theorem AtLine.ends {ts : List Token} (line : AtLine ts) : Ends 0 ts := by
  refine ⟨fun t first op level kind => ?_, fun t first kind => ?_⟩
  · have := line t first
    simp [kind] at this
  · have := line t first
    simp [kind] at this

theorem AtLine.noElse {ts : List Token} (line : AtLine ts) : NoElse ts := by
  intro t first kind
  have := line t first
  simp [kind] at this

theorem LinesEnd.atLine {nested : Bool} {ts : List Token} (finished : LinesEnd nested ts) :
    AtLine ts := by
  rcases finished with rfl | ⟨-, closing, rest, rfl, kind⟩
  · rintro _ ⟨⟩
  · rintro _ ⟨⟩
    simp [kind]

/-- A line has a first token, at which a line may begin, and which is no closing brace. -/
theorem line_starts {ts : List Token} {one : List Stmt} (line : Line ts one) :
    ∃ t rest, ts = t :: rest ∧ AtLine (t :: rest) ∧ t.kind ≠ .closeBrace := by
  cases line with
  | lone kind => exact ⟨_, _, rfl, by rintro _ ⟨⟩; simp [kind], by simp [kind]⟩
  | assignment kind _ _ _ => exact ⟨_, _, rfl, by rintro _ ⟨⟩; simp [kind], by simp [kind]⟩
  | call derived _ =>
      obtain ⟨behind, rfl, kind⟩ := derived.starts
      exact ⟨_, _, rfl, by rintro _ ⟨⟩; simp [kind], by simp [kind]⟩
  | branch kind _ => exact ⟨_, _, rfl, by rintro _ ⟨⟩; simp [kind], by simp [kind]⟩
  | loop kind _ => exact ⟨_, _, rfl, by rintro _ ⟨⟩; simp [kind], by simp [kind]⟩

theorem atLine_append {ts rest : List Token} {p : List Stmt} (behind : AtLine rest)
    (lines : Lines ts p) : AtLine (ts ++ rest) := by
  cases lines with
  | nil => exact behind
  | cons line _ =>
      obtain ⟨t, others, rfl, start, -⟩ := line_starts line
      rintro _ ⟨⟩
      exact start t rfl

/-- The statements from `ts` on are read as `more`, and `after` remains, with any ample budget. -/
def Continues (nested : Bool) (ts : List Token) (more : List Stmt) (after : List Token) : Prop :=
  ∀ budget, 4 * ts.length + 2 ≤ budget →
    statements stop nested budget ts = some ⟨some more, [], after⟩

theorem statements_step {nested : Bool} {t : Token} {ts rest after : List Token}
    (value : Option Stmt) {more : List Stmt} (notClosing : t.kind ≠ .closeBrace)
    (shorter : rest.length ≤ ts.length) (others : Continues stop nested rest more after)
    (one : ∀ budget, 4 * ts.length + 5 ≤ budget →
      statement stop budget (t :: ts) = some ⟨value, [], rest⟩) :
    Continues stop nested (t :: ts) (value.toList ++ more) after := by
  intro budget enough
  rw [List.length_cons] at enough
  obtain ⟨budget, rfl⟩ := Nat.exists_eq_add_one.mpr (show 0 < budget by omega)
  simp only [statements, notClosing, and_false, if_false, one budget (by omega),
    others budget (by omega), Option.bind_eq_bind, Option.bind_some, Option.getD_some,
    List.nil_append]

theorem continues_semicolon {nested : Bool} {t : Token} {ts after : List Token} {more : List Stmt}
    (kind : t.kind = .semicolon) (others : Continues stop nested ts more after) :
    Continues stop nested (t :: ts) more after := by
  refine statements_step stop none (by simp [kind]) (Nat.le_refl _) others ?_
  intro budget enough
  obtain ⟨budget, rfl⟩ := Nat.exists_eq_add_one.mpr (show 0 < budget by omega)
  simp only [statement, kind]

/-- What may end a statement is read with the statements behind it. -/
theorem continues_ending {nested : Bool} {ending rest after : List Token} {more : List Stmt}
    (others : Continues stop nested rest more after) :
    Ending ending → Continues stop nested (ending ++ rest) more after
  | .nothing => others
  | .semicolon kind => continues_semicolon stop kind others

theorem ending_atLine {ending rest : List Token} (behind : AtLine rest) :
    Ending ending → AtLine (ending ++ rest)
  | .nothing => behind
  | .semicolon kind => by
      rintro _ ⟨⟩
      exact .inl kind

theorem statement_assignment {budget : Nat} {name equals : Token} {ts rest : List Token} {e : Expr}
    (kind : name.kind = .identifier) (sign : equals.kind = .assign)
    (read : expression stop budget 0 ts = .ok e rest) :
    statement stop (budget + 1) (name :: equals :: ts) =
      some ⟨some (.assign name.text e name.pos), [], rest⟩ := by
  simp only [statement, kind, sign, if_true, read, Reading.ofReply]

theorem statement_call {budget : Nat} {name opening : Token} {ts rest : List Token}
    {args : List Expr} (kind : name.kind = .identifier) (parenthesis : opening.kind = .openParen)
    (read : arguments stop budget ts = .ok args rest) :
    statement stop (budget + 1) (name :: opening :: ts) =
      some ⟨some (.call name.text args name.pos), [], rest⟩ := by
  simp only [statement, kind, parenthesis, reduceCtorEq, if_false, if_true, read, Reading.ofReply]

mutual

/-- A line and the statements behind it are read as the line's statement before the others. -/
theorem reads_of_line {nested : Bool} {ts rest after : List Token} {one more : List Stmt}
    (behind : AtLine rest) (others : Continues stop nested rest more after) :
    Line ts one → Continues stop nested (ts ++ rest) (one ++ more) after
  | .lone kind => continues_semicolon stop kind others
  | .assignment kind sign derived ending => by
      have following := ending_atLine behind ending
      simp only [List.append_assoc, List.cons_append]
      refine statements_step stop (some _) (by simp [kind]) ?_ (continues_ending stop others ending) ?_
      · simp only [List.length_append, List.length_cons]
        omega
      · intro budget enough
        obtain ⟨budget, rfl⟩ := Nat.exists_eq_add_one.mpr (show 0 < budget by omega)
        rw [List.length_cons] at enough
        refine statement_assignment stop kind sign ?_
        exact (reads_of_expression stop derived).whole stop following.ends (by omega)
  | .call derived ending => by
      obtain ⟨opening, args, rfl, kind, parenthesis, read⟩ := reads_of_call stop derived
      simp only [List.append_assoc, List.cons_append]
      refine statements_step stop (some _) (by simp [kind]) ?_ (continues_ending stop others ending) ?_
      · simp only [List.length_append, List.length_cons]
        omega
      · intro budget enough
        obtain ⟨budget, rfl⟩ := Nat.exists_eq_add_one.mpr (show 0 < budget by omega)
        rw [List.length_cons] at enough
        exact statement_call stop kind parenthesis (read budget _ (by omega))
  | .branch kind derived => by
      rw [List.cons_append]
      refine statements_step stop (some _) (by simp [kind]) ?_ others ?_
      · exact List.length_append ▸ Nat.le_add_left ..
      · intro budget enough
        obtain ⟨budget, rfl⟩ := Nat.exists_eq_add_one.mpr (show 0 < budget by omega)
        simp only [statement, kind, reads_of_clause behind.noElse derived budget (by omega),
          Option.map_some]
  | .loop kind derived => by
      rw [List.cons_append]
      refine statements_step stop (some _) (by simp [kind]) ?_ others ?_
      · exact List.length_append ▸ Nat.le_add_left ..
      · intro budget enough
        obtain ⟨budget, rfl⟩ := Nat.exists_eq_add_one.mpr (show 0 < budget by omega)
        simp only [statement, kind, reads_of_clause behind.noElse derived budget (by omega),
          Option.map_some]

/-- Lines are read as their statements up to where the lines end. -/
theorem reads_of_lines {nested : Bool} {ts rest : List Token} {p : List Stmt}
    (finished : LinesEnd nested rest) : Lines ts p → Continues stop nested (ts ++ rest) p rest
  | .nil => by
      intro budget enough
      obtain ⟨budget, rfl⟩ := Nat.exists_eq_add_one.mpr (show 0 < budget by omega)
      rcases finished with rfl | ⟨rfl, closing, others, rfl, kind⟩
      · rfl
      · exact if_pos ⟨rfl, kind⟩
  | .cons line lines => by
      rw [List.append_assoc]
      exact reads_of_line (atLine_append finished.atLine lines) (reads_of_lines finished lines) line

/-- A block is an opening brace and tokens that are read as its statements. -/
theorem reads_of_block {ts : List Token} {body : List Stmt} {pos : Position} :
    Block ts body pos → ∃ opening behind, ts = opening :: behind ∧ opening.kind = .openBrace ∧
      opening.pos = pos ∧
      ∀ (rest : List Token) (budget : Nat), 4 * (behind ++ rest).length + 3 ≤ budget →
        block stop budget (behind ++ rest) = some ⟨some body, [], rest⟩
  | @Block.braces opening closing ts _ kind derived closes => by
      refine ⟨opening, ts ++ [closing], rfl, kind, rfl, fun rest budget enough => ?_⟩
      obtain ⟨budget, rfl⟩ := Nat.exists_eq_add_one.mpr (show 0 < budget by omega)
      simp only [List.append_assoc, List.cons_append, List.nil_append] at enough ⊢
      have finished : LinesEnd true (closing :: rest) := .inr ⟨rfl, closing, rest, rfl, closes⟩
      simp only [block, reads_of_lines finished derived budget (by omega), Option.bind_eq_bind,
        Option.bind_some]

/-- What follows the word that opens a loop or a branch is read, if no alternative stands behind. -/
theorem reads_of_clause {ts rest : List Token} {c : Clause} (noElse : NoElse rest) :
    Grammar.Clause ts c → ∀ budget, 4 * (ts ++ rest).length + 3 ≤ budget →
      clause stop budget (ts ++ rest) = some ⟨some c, [], rest⟩
  | .plain condition body => by
      intro budget enough
      obtain ⟨budget, rfl⟩ := Nat.exists_eq_add_one.mpr (show 0 < budget by omega)
      obtain ⟨opening, behind, rfl, brace, rfl, read⟩ := reads_of_block body
      simp only [List.append_assoc, List.cons_append] at enough ⊢
      have ends : Ends 0 (opening :: (behind ++ rest)) := ends_cons (by simp [brace]) (by simp [brace])
      have first := (reads_of_expression stop condition).whole stop ends (Nat.le_of_succ_le_succ enough)
      simp only [clause, first, brace, if_true]
      simp only [List.length_append, List.length_cons] at enough
      rw [read rest budget (by rw [List.length_append]; omega)]
      cases rest with
      | nil => rfl
      | cons t others => exact if_neg (noElse t rfl)
  | @Grammar.Clause.otherwise word _ _ vs _ _ _ _ condition body other derived => by
      intro budget enough
      obtain ⟨budget, rfl⟩ := Nat.exists_eq_add_one.mpr (show 0 < budget by omega)
      obtain ⟨opening, behind, rfl, brace, rfl, read⟩ := reads_of_block body
      simp only [List.append_assoc, List.cons_append] at enough ⊢
      have ends : Ends 0 (opening :: (behind ++ word :: (vs ++ rest))) :=
        ends_cons (by simp [brace]) (by simp [brace])
      have first := (reads_of_expression stop condition).whole stop ends (Nat.le_of_succ_le_succ enough)
      simp only [clause, first, brace, if_true]
      simp only [List.length_append, List.length_cons] at enough
      rw [read _ budget (by simp only [List.length_append, List.length_cons]; omega)]
      simp only [Option.bind_eq_bind, Option.bind_some, other, if_true]
      rw [reads_of_alternative noElse derived budget (by rw [List.length_append]; omega)]
      rfl

/-- What follows the word that opens an alternative is read, if no further alternative stands behind. -/
theorem reads_of_alternative {ts rest : List Token} {s : Stmt} (noElse : NoElse rest) :
    Alternative ts s → ∀ budget, 4 * (ts ++ rest).length + 1 ≤ budget →
      alternative stop budget (ts ++ rest) = some ⟨some s, [], rest⟩
  | .block body => by
      intro budget enough
      obtain ⟨budget, rfl⟩ := Nat.exists_eq_add_one.mpr (show 0 < budget by omega)
      obtain ⟨opening, behind, rfl, brace, rfl, read⟩ := reads_of_block body
      simp only [List.cons_append, List.length_cons] at enough ⊢
      simp only [alternative, brace, read rest budget (by omega), Option.map_some]
  | .branch kind derived => by
      intro budget enough
      obtain ⟨budget, rfl⟩ := Nat.exists_eq_add_one.mpr (show 0 < budget by omega)
      simp only [List.cons_append, List.length_cons] at enough ⊢
      simp only [alternative, kind, reads_of_clause noElse derived budget (by omega), Option.map_some]

end

end Parser

end LoopScript
