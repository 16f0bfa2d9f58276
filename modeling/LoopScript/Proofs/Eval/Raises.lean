/-
# LoopScript.Proofs.Eval.Raises — what a run can do, and the errors it can end in

Where the bindings are plain, evaluating an expression writes and does nothing else, and a statement may
also bind its targets. `Raises env e` says which errors the expression `e` can end in, and where, if
`env` holds the bindings: each is raised at one node and passes outwards unchanged. `StmtRaises I s` says
the same of a statement that runs where the bindings satisfy `I`.

`meets_expr` and `meets_stmt` show this of the evaluator, for every tame host. They are the one place
where the evaluator is opened for such hosts: what holds of all runs is then read off `Raises`,
`StmtRaises` and what an assignment keeps (`Assignable`).
-/
import LoopScript.Proofs.Eval.Display

namespace LoopScript

set_option autoImplicit false

namespace Eval

/-! ## Expressions -/

/-- Evaluating an expression where `env` holds may raise a cause at a position. -/
inductive Raises (env : Env) : Expr → Cause → Position → Prop where
  | unbound {id : Text} {pos : Position} :
      env.get? id = none → Raises env (.name id pos) (.fault (.unboundVariable id)) pos
  | literal {kind : LiteralKind} {text : Text} {pos : Position} {cause : Cause} :
      literal kind text = .error cause → Raises env (.literal kind text pos) cause pos
  | argument {callee : Text} {args : List Expr} {e : Expr} {cause : Cause} {pos place : Position} :
      e ∈ args → Raises env e cause place → Raises env (.call callee args pos) cause place
  | unboundCallee {callee : Text} {args : List Expr} {pos : Position} :
      env.get? callee = none →
      Raises env (.call callee args pos) (.fault (.unboundFunction callee)) pos
  | notAFunction {callee : Text} {args : List Expr} {pos : Position} :
      Raises env (.call callee args pos) (.fault (.notAFunction callee)) pos
  | refused {callee : Text} {args : List Expr} {pos : Position} (refusal : Failure) :
      Raises env (.call callee args pos) (.host .other (Host.refused refusal).message) pos
  | left {level : Level} {op : Operator} {left right : Expr} {cause : Cause} {pos place : Position} :
      level = .additive ∨ level = .comparison → Raises env left cause place →
      Raises env (.binary level op left right pos) cause place
  | right {level : Level} {op : Operator} {left right : Expr} {cause : Cause} {pos place : Position} :
      level = .additive ∨ level = .comparison → Raises env right cause place →
      Raises env (.binary level op left right pos) cause place
  | operands {level : Level} {op : Operator} {left right : Expr} {f : Fault} {pos : Position} :
      f.kind = .type → Raises env (.binary level op left right pos) (.fault f) pos
  | additive {op : Operator} {left right : Expr} {pos : Position} :
      op ≠ .add → op ≠ .join → op ≠ .sub →
      Raises env (.binary .additive op left right pos) (.unsupported (.additive op)) pos
  | comparison {op : Operator} {left right : Expr} {pos : Position} :
      op ≠ .lt →
      Raises env (.binary .comparison op left right pos) (.unsupported (.comparison op)) pos
  | product {op : Operator} {left right : Expr} {pos : Position} :
      Raises env (.binary .multiplicative op left right pos) (.unsupported .product) pos
  | boolean {op : Operator} {left right : Expr} {pos : Position} :
      Raises env (.binary .boolean op left right pos) (.unsupported .boolean) pos
  | negation {e : Expr} {pos : Position} :
      Raises env (.negation e pos) (.unsupported .negation) pos

theorem kind_of_literal {kind : LiteralKind} {text : Text} {cause : Cause}
    (failed : literal kind text = .error cause) : cause.kind ∈ ErrorKind.native := by
  have other : ErrorKind.other ∈ ErrorKind.native := by decide
  have unsupported : ErrorKind.unsupported ∈ ErrorKind.native := by decide
  unfold literal at failed
  split at failed
  · split at failed <;> cases failed
    exact other
  · split at failed <;> cases failed
    exact other
  · cases failed
  · cases failed
  · cases failed
  · cases failed
    exact unsupported

/-- Whatever an expression raises is of one of the kinds of the language. -/
theorem Raises.kind_mem {env : Env} {e : Expr} {cause : Cause} {place : Position}
    (raised : Raises env e cause place) : cause.kind ∈ ErrorKind.native := by
  have faults : ∀ f : Fault, (Cause.fault f).kind ∈ ErrorKind.native := by
    intro f
    rw [Cause.kind]
    rcases f.kind_eq with same | same <;> rw [same] <;> decide
  have other : ErrorKind.other ∈ ErrorKind.native := by decide
  have unsupported : ErrorKind.unsupported ∈ ErrorKind.native := by decide
  induction raised with
  | unbound | unboundCallee | notAFunction | operands => exact faults _
  | literal failed => exact kind_of_literal failed
  | argument _ _ ih | left _ _ ih | right _ _ ih => exact ih
  | refused => exact other
  | additive | comparison | product | boolean | negation => exact unsupported

/-- The error is one of `raises`, placed in the source of `x`, and only text has been written. -/
def FailsBy (raises : Cause → Position → Prop) (x : Execution) (e : RuntimeError) (y : Execution) :
    Prop :=
  raises e.cause e.pos ∧ e.frame = x.frameAt e.pos ∧ x.Writes y

theorem FailsBy.after {raises raises' : Cause → Position → Prop} {x y z : Execution}
    {e : RuntimeError} (writes : x.Writes y) (fails : FailsBy raises y e z)
    (passes : raises e.cause e.pos → raises' e.cause e.pos) : FailsBy raises' x e z :=
  ⟨passes fails.1, fails.2.1.trans (writes.frameAt _), writes.trans fails.2.2⟩

variable {spent : Prop}

theorem meets_raise {α : Type} {raises : Cause → Position → Prop} {cause : Cause} {pos : Position}
    (x : Execution) (can : raises cause pos) {ok : α → Execution → Prop} :
    ((Run.raise cause pos : Run RuntimeError α) x).Meets spent ok (FailsBy raises x) :=
  ⟨can, rfl, .refl x⟩

/-- An operation on two values that gives a plain value or a fault about their kinds. -/
theorem meets_operation {raises : Cause → Position → Prop} {result : Except Fault Value}
    {pos : Position} (x : Execution)
    (both : (∃ v, result = .ok v ∧ v.Plain) ∨ ∃ f, result = .error f ∧ f.kind = .type)
    (can : ∀ f : Fault, f.kind = .type → raises (.fault f) pos) :
    (Run.ofFault result pos x).Meets spent (fun v y => v.Plain ∧ x.Writes y) (FailsBy raises x) := by
  rcases both with ⟨v, rfl, plain⟩ | ⟨f, rfl, kind⟩
  · exact ⟨plain, .refl x⟩
  · exact meets_raise x (can f kind)

theorem meets_additive {env : Env} {op : Operator} {left right : Expr} {pos : Position} (a b : Value)
    (x : Execution) : (additive op a b pos x).Meets spent (fun v y => v.Plain ∧ x.Writes y)
      (FailsBy (Raises env (.binary .additive op left right pos)) x) := by
  unfold additive
  split
  · exact meets_operation x (a.add_cases b) fun _ => .operands
  · exact meets_operation x (a.add_cases b) fun _ => .operands
  · exact meets_operation x (a.subtract_cases b) fun _ => .operands
  · next notAdd notJoin notSub => exact meets_raise x (.additive notAdd notJoin notSub)

theorem meets_comparison {env : Env} {op : Operator} {left right : Expr} {pos : Position}
    (a b : Value) (x : Execution) :
    (comparison op a b pos x).Meets spent (fun v y => v.Plain ∧ x.Writes y)
      (FailsBy (Raises env (.binary .comparison op left right pos)) x) := by
  unfold comparison
  split
  · exact meets_operation x (a.less_cases b) fun _ => .operands
  · next notLess => exact meets_raise x (.comparison notLess)

theorem meets_literal {env : Env} (kind : LiteralKind) (text : Text) (pos : Position)
    (host : Host) (x : Execution) :
    (expr host (.literal kind text pos) x).Meets spent (fun v y => v.Plain ∧ x.Writes y)
      (FailsBy (Raises env (.literal kind text pos)) x) := by
  simp only [expr]
  cases found : literal kind text with
  | ok v =>
      refine ⟨?_, .refl x⟩
      unfold literal at found
      split at found <;> (try split at found) <;> cases found <;> trivial
  | error cause => exact meets_raise x (.literal found)

theorem meets_name {x : Execution} (plain : x.env.Plain) (id : Text) (pos : Position) :
    (variableValue id pos x).Meets spent (fun v y => v.Plain ∧ x.Writes y)
      (FailsBy (Raises x.env (.name id pos)) x) := by
  unfold variableValue Env.lookup
  cases found : x.env.get? id with
  | some v => exact ⟨plain id v found, .refl x⟩
  | none => exact meets_raise x (.unbound found)

theorem meets_invoke {host : Host} (tame : host.Tame spent) {x : Execution} (plain : x.env.Plain)
    (callee : Text) (args : List Expr) (values : List Value) (pos : Position) :
    (invoke host callee values pos x).Meets spent (fun v y => v.Plain ∧ x.Writes y)
      (FailsBy (Raises x.env (.call callee args pos)) x) := by
  unfold invoke Env.lookupFunction
  cases found : x.env.get? callee with
  | none => exact meets_raise x (.unboundCallee found)
  | some v =>
      cases v with
      | function f =>
          refine (tame f values x (plain callee _ found)).mapError ?_
          rintro _ y ⟨⟨refusal, ordinary, rfl⟩, writes⟩
          refine ⟨?_, writes.frameAt pos, writes⟩
          rw [Host.place_refused ordinary]
          exact .refused refusal
      | _ => exact meets_raise x .notAFunction

/-- The two operands of an operator, from left to right, and then the operation on their values. -/
theorem meets_operands {host : Host} {level : Level} {op : Operator} {left right : Expr}
    {pos : Position} {operate : Value → Value → Run RuntimeError Value} {x : Execution}
    (evaluated : level = .additive ∨ level = .comparison) (plain : x.env.Plain)
    (first : ∀ y, y.env.Plain → (expr host left y).Meets spent (fun v z => v.Plain ∧ y.Writes z)
      (FailsBy (Raises y.env left) y))
    (second : ∀ y, y.env.Plain → (expr host right y).Meets spent (fun v z => v.Plain ∧ y.Writes z)
      (FailsBy (Raises y.env right) y))
    (last : ∀ a b y, (operate a b y).Meets spent (fun v z => v.Plain ∧ y.Writes z)
      (FailsBy (Raises x.env (.binary level op left right pos)) y)) :
    ((do
      let a ← expr host left
      let b ← expr host right
      operate a b : Run RuntimeError Value) x).Meets spent (fun v y => v.Plain ∧ x.Writes y)
      (FailsBy (Raises x.env (.binary level op left right pos)) x) := by
  refine Run.meets_bind ((first x plain).mono (fun _ _ met => met.2) ?_) fun a y writesLeft => ?_
  · exact fun e y fails => fails.after (.refl x) (.left evaluated)
  refine Run.meets_bind ((second y (writesLeft.env ▸ plain)).mono (fun _ _ met => met.2) ?_)
    fun b z writesRight => ?_
  · refine fun e z fails => fails.after writesLeft fun raised => .right evaluated ?_
    rwa [writesLeft.env] at raised
  have writes := writesLeft.trans writesRight
  refine (last a b z).mono ?_ ?_
  · exact fun v w met => ⟨met.1, writes.trans met.2⟩
  · exact fun e w fails => fails.after writes id

mutual

/-- Evaluating an expression writes, gives a plain value, and fails only as `Raises` allows. -/
theorem meets_expr {host : Host} (tame : host.Tame spent) : ∀ (e : Expr) (x : Execution),
    x.env.Plain → (expr host e x).Meets spent (fun v y => v.Plain ∧ x.Writes y)
      (FailsBy (Raises x.env e) x)
  | .name id pos, _, plain => meets_name plain id pos
  | .literal kind text pos, x, _ => meets_literal kind text pos host x
  | .call callee args pos, x, plain => by
      rw [expr]
      refine Run.meets_bind ((meets_exprs tame args x plain).mono (fun _ _ writes => writes) ?_) ?_
      · rintro e y ⟨⟨arg, member, raised⟩, framed, writes⟩
        exact ⟨.argument member raised, framed, writes⟩
      · intro values y writes
        refine (meets_invoke tame (writes.env ▸ plain) callee args values pos).mono ?_ ?_
        · exact fun v z met => ⟨met.1, writes.trans met.2⟩
        · exact fun e z fails => fails.after writes (writes.env ▸ id)
  | .binary .additive _ left right _, x, plain => by
      rw [expr]
      exact meets_operands (.inl rfl) plain (meets_expr tame left) (meets_expr tame right)
        meets_additive
  | .binary .comparison _ left right _, x, plain => by
      rw [expr]
      exact meets_operands (.inr rfl) plain (meets_expr tame left) (meets_expr tame right)
        meets_comparison
  | .binary .multiplicative _ _ _ _, x, _ => meets_raise x .product
  | .binary .boolean _ _ _ _, x, _ => meets_raise x .boolean
  | .negation _ _, x, _ => meets_raise x .negation

theorem meets_exprs {host : Host} (tame : host.Tame spent) : ∀ (es : List Expr) (x : Execution),
    x.env.Plain → (exprs host es x).Meets spent (fun _ y => x.Writes y)
      (FailsBy (fun cause pos => ∃ e ∈ es, Raises x.env e cause pos) x)
  | [], x, _ => .refl x
  | e :: rest, x, plain => by
      rw [exprs]
      refine Run.meets_bind ((meets_expr tame e x plain).mono (fun _ _ met => met.2) ?_)
        fun v y writes => ?_
      · exact fun err y fails => fails.after (.refl x) fun raised => ⟨e, List.mem_cons_self, raised⟩
      refine Run.meets_bind ((meets_exprs tame rest y (writes.env ▸ plain)).mono ?_ ?_)
        fun vs z more => more
      · exact fun vs z more => writes.trans more
      · refine fun err z fails => fails.after writes ?_
        rintro ⟨e', member, raised⟩
        exact ⟨e', List.mem_cons_of_mem _ member, writes.env ▸ raised⟩

end

/-! ## Statements -/

/-- Running a statement where the bindings satisfy `I` may raise a cause at a position. -/
inductive StmtRaises (I : Env → Prop) : Stmt → Cause → Position → Prop where
  | value {env : Env} {target : Text} {value : Expr} {cause : Cause} {pos place : Position} :
      I env → Raises env value cause place → StmtRaises I (.assign target value pos) cause place
  | call {env : Env} {callee : Text} {args : List Expr} {cause : Cause} {pos place : Position} :
      I env → Raises env (.call callee args pos) cause place →
      StmtRaises I (.call callee args pos) cause place
  | block {body : List Stmt} {s : Stmt} {cause : Cause} {pos place : Position} :
      s ∈ body → StmtRaises I s cause place → StmtRaises I (.block body pos) cause place
  | condition {env : Env} {word : Text} {condition : Expr} {body : List Stmt}
      {alternative : Option Stmt} {cause : Cause} {bodyPos pos place : Position} :
      I env → Raises env condition cause place →
      StmtRaises I (.loop word condition body bodyPos alternative pos) cause place
  | test {word : Text} {condition : Expr} {body : List Stmt} {alternative : Option Stmt}
      {bodyPos pos : Position} :
      StmtRaises I (.loop word condition body bodyPos alternative pos) (.fault .notABoolean)
        condition.pos
  | body {word : Text} {condition : Expr} {body : List Stmt} {alternative : Option Stmt} {s : Stmt}
      {cause : Cause} {bodyPos pos place : Position} :
      s ∈ body → StmtRaises I s cause place →
      StmtRaises I (.loop word condition body bodyPos alternative pos) cause place
  | alternative {word : Text} {condition : Expr} {body : List Stmt} {s : Stmt} {cause : Cause}
      {bodyPos pos place : Position} :
      StmtRaises I s cause place →
      StmtRaises I (.loop word condition body bodyPos (some s) pos) cause place
  | branch {condition : Expr} {body : List Stmt} {alternative : Option Stmt}
      {bodyPos pos : Position} :
      StmtRaises I (.branch condition body bodyPos alternative pos) (.unsupported .branch) pos

theorem StmtRaises.kind_mem {I : Env → Prop} {s : Stmt} {cause : Cause} {place : Position}
    (raised : StmtRaises I s cause place) : cause.kind ∈ ErrorKind.native := by
  have fault : Fault.notABoolean.kind ∈ ErrorKind.native := by decide
  have unsupported : ErrorKind.unsupported ∈ ErrorKind.native := by decide
  induction raised with
  | value _ raised | call _ raised | condition _ raised => exact raised.kind_mem
  | block _ _ ih | body _ _ ih | alternative _ ih => exact ih
  | test => exact fault
  | branch => exact unsupported

/-- Binding the name to a plain value keeps `I`. -/
def Assignable (I : Env → Prop) (name : Text) : Prop :=
  ∀ env v, I env → v.Plain → I (Table.insert env name v)

/-- From `x` to `y` a run has gone on: `I` holds of the bindings, and text may have been written. -/
structure Goes (I : Env → Prop) (x y : Execution) : Prop where
  env : I y.env
  source : y.source = x.source
  sink : x.sink.contents <+: y.sink.contents

/-- The error is one of `raises`, placed in the source of `x`, and the run has gone on to `y`. -/
def EndsBy (I : Env → Prop) (raises : Cause → Position → Prop) (x : Execution) (e : RuntimeError)
    (y : Execution) : Prop :=
  raises e.cause e.pos ∧ e.frame = x.frameAt e.pos ∧ Goes I x y

section Statements

variable {I : Env → Prop}

theorem Goes.refl {x : Execution} (holds : I x.env) : Goes I x x := ⟨holds, rfl, List.prefix_rfl⟩

theorem Goes.trans {x y z : Execution} (first : Goes I x y) (second : Goes I y z) : Goes I x z :=
  ⟨second.env, second.source.trans first.source, first.sink.trans second.sink⟩

theorem Goes.writes {x y z : Execution} (goes : Goes I x y) (writes : y.Writes z) : Goes I x z :=
  ⟨writes.env ▸ goes.env, writes.source.trans goes.source, goes.sink.trans writes.sink⟩

theorem Goes.frameAt {x y : Execution} (goes : Goes I x y) (pos : Position) :
    y.frameAt pos = x.frameAt pos := by
  rw [Execution.frameAt, Execution.frameAt, goes.source]

theorem FailsBy.endsBy {raises raises' : Cause → Position → Prop} {x y z : Execution}
    {e : RuntimeError} (fails : FailsBy raises y e z) (goes : Goes I x y)
    (passes : raises e.cause e.pos → raises' e.cause e.pos) : EndsBy I raises' x e z :=
  ⟨passes fails.1, fails.2.1.trans (goes.frameAt _), goes.writes fails.2.2⟩

theorem EndsBy.after {raises raises' : Cause → Position → Prop} {x y z : Execution}
    {e : RuntimeError} (ends : EndsBy I raises y e z) (goes : Goes I x y)
    (passes : raises e.cause e.pos → raises' e.cause e.pos) : EndsBy I raises' x e z :=
  ⟨passes ends.1, ends.2.1.trans (goes.frameAt _), goes.trans ends.2.2⟩

theorem goesOn_error {word : Text} {v : Value} {f : Fault} (failed : goesOn word v = .error f) :
    f = .notABoolean := by
  have notTrue : ∀ g, v.isTrue = .error g → g = .notABoolean := by
    intro g isError
    cases v <;> cases isError <;> rfl
  unfold goesOn at failed
  split at failed
  · exact notTrue f failed
  · rw [Value.isFalse] at failed
    cases truth : v.isTrue with
    | ok b => rw [truth] at failed; cases failed
    | error g =>
        rw [truth] at failed
        cases failed
        exact notTrue f truth

variable {host : Host}

theorem meets_test (tame : host.Tame spent) (plain : ∀ env, I env → env.Plain) (word : Text)
    (condition : Expr) (body : List Stmt) (bodyPos : Position) (alternative : Option Stmt) (pos : Position)
    {x y : Execution} (goes : Goes I x y) :
    (test host word condition y).Meets spent (fun _ z => Goes I x z)
      (EndsBy I (StmtRaises I (.loop word condition body bodyPos alternative pos)) x) := by
  rw [test]
  refine Run.meets_bind ((meets_expr tame condition y (plain _ goes.env)).mono
    (fun _ _ met => met.2) ?_) fun v z writes => ?_
  · exact fun e z fails => fails.endsBy goes (.condition goes.env)
  · have gone := goes.writes writes
    cases result : goesOn word v with
    | ok more => exact gone
    | error f =>
        cases goesOn_error result
        exact ⟨.test, gone.frameAt _, gone⟩

/-- A call as a statement is the call as an expression, its value dropped. -/
theorem stmt_call (budget : Nat) (callee : Text) (args : List Expr) (pos : Position) :
    stmt host budget (.call callee args pos) =
      (do let _ ← expr host (.call callee args pos); return ()) := by
  funext x
  rw [stmt, expr, Run.bind_apply, Run.bind_apply, Run.bind_apply]
  cases exprs host args x <;> rfl

mutual

/-- Running a statement keeps what its assignments keep and fails only as `StmtRaises` allows. -/
theorem meets_stmt (plain : ∀ env, I env → env.Plain) (tame : host.Tame True) (budget : Nat) :
    ∀ (s : Stmt) (x : Execution), I x.env → (∀ n ∈ s.targets, Assignable I n) →
      (stmt host budget s x).Meets True (fun _ y => Goes I x y) (EndsBy I (StmtRaises I s) x)
  | .assign target value pos, x, holds, keeps => by
      rw [stmt]
      refine Run.meets_bind ((meets_expr tame value x (plain _ holds)).mono
        (fun _ _ met => met) ?_) fun v y met => ?_
      · exact fun e y fails => fails.endsBy (.refl holds) (.value holds)
      · have gone := (Goes.refl holds).writes met.2
        have assigned : I (y.env.insert target v) :=
          keeps target (List.mem_singleton_self _) y.env v gone.env met.1
        exact ⟨assigned, gone.source, gone.sink⟩
  | .call callee args pos, x, holds, _ => by
      rw [stmt_call]
      refine Run.meets_bind ((meets_expr tame (.call callee args pos) x (plain _ holds)).mono
        (fun _ _ met => met.2) ?_) fun v y writes => (Goes.refl holds).writes writes
      exact fun e y fails => fails.endsBy (.refl holds) (.call holds)
  | .block body pos, x, holds, keeps => by
      rw [stmt]
      refine (meets_stmts plain tame budget body x holds keeps).mono (fun _ _ goes => goes) ?_
      refine fun e y ends => ends.after (.refl holds) ?_
      rintro ⟨s, member, raised⟩
      exact .block member raised
  | .loop word condition body bodyPos alternative pos, x, holds, keeps => by
      have keepsBody : ∀ n ∈ Stmt.targets.targetsAll body, Assignable I n :=
        fun n member => keeps n (List.mem_append_left _ member)
      have keepsOther : ∀ n ∈ Stmt.targets.targetsOpt alternative, Assignable I n :=
        fun n member => keeps n (List.mem_append_right _ member)
      have tests := fun y (goes : Goes I x y) =>
        meets_test tame plain word condition body bodyPos alternative pos goes
      rw [stmt]
      refine Run.meets_bind (tests x (.refl holds)) fun more y goes => ?_
      cases more with
      | true =>
          -- The invariant of the loop is that the run has gone on from `x`.
          refine meets_repeatWhile tests (fun z gone => ?_) budget y goes
          refine (meets_stmts plain tame budget body z gone.env keepsBody).mono
            (fun _ _ further => gone.trans further) ?_
          refine fun e w ends => ends.after gone ?_
          rintro ⟨s, member, raised⟩
          exact .body member raised
      | false =>
          refine (meets_otherwise plain tame budget alternative y goes.env keepsOther).mono
            (fun _ _ further => goes.trans further) ?_
          refine fun e w ends => ends.after goes ?_
          rintro ⟨s, rfl, raised⟩
          exact .alternative raised
  | .branch _ _ _ _ _, x, holds, _ => ⟨.branch, rfl, .refl holds⟩

theorem meets_stmts (plain : ∀ env, I env → env.Plain) (tame : host.Tame True) (budget : Nat) :
    ∀ (ss : List Stmt) (x : Execution), I x.env → (∀ n ∈ Stmt.targets.targetsAll ss, Assignable I n) →
      (stmts host budget ss x).Meets True (fun _ y => Goes I x y)
        (EndsBy I (fun cause pos => ∃ s ∈ ss, StmtRaises I s cause pos) x)
  | [], _, holds, _ => Goes.refl holds
  | s :: rest, x, holds, keeps => by
      rw [stmts]
      have first := meets_stmt plain tame budget s x holds fun n member =>
        keeps n (List.mem_append_left _ member)
      refine Run.meets_bind (first.mono (fun _ _ goes => goes) ?_) fun _ y goes => ?_
      · exact fun e y ends => ends.after (.refl holds) fun raised => ⟨s, List.mem_cons_self, raised⟩
      · refine (meets_stmts plain tame budget rest y goes.env fun n member =>
          keeps n (List.mem_append_right _ member)).mono (fun _ _ further => goes.trans further) ?_
        refine fun e z ends => ends.after goes ?_
        rintro ⟨s', member, raised⟩
        exact ⟨s', List.mem_cons_of_mem _ member, raised⟩

theorem meets_otherwise (plain : ∀ env, I env → env.Plain) (tame : host.Tame True) (budget : Nat) :
    ∀ (alternative : Option Stmt) (x : Execution), I x.env →
      (∀ n ∈ Stmt.targets.targetsOpt alternative, Assignable I n) →
      (otherwise host budget alternative x).Meets True (fun _ y => Goes I x y)
        (EndsBy I (fun cause pos => ∃ s, alternative = some s ∧ StmtRaises I s cause pos) x)
  | none, _, holds, _ => Goes.refl holds
  | some s, x, holds, keeps => by
      rw [otherwise]
      refine (meets_stmt plain tame budget s x holds keeps).mono (fun _ _ goes => goes) ?_
      exact fun e y ends => ends.after (.refl holds) fun raised => ⟨s, rfl, raised⟩

end

/-! ## What a run that completes leaves -/

theorem expr_env (tame : host.Tame True) {e : Expr} {v : Value} {x y : Execution}
    (before : x.env.Plain) (ended : expr host e x = .ok v y) : y.env = x.env := by
  have met := meets_expr tame e x before
  rw [ended] at met
  exact met.2.env

theorem exprs_env (tame : host.Tame True) {es : List Expr} {vs : List Value} {x y : Execution}
    (before : x.env.Plain) (ended : exprs host es x = .ok vs y) : y.env = x.env := by
  have met := meets_exprs tame es x before
  rw [ended] at met
  exact met.env

theorem test_env (tame : host.Tame True) {word : Text} {condition : Expr} {more : Bool}
    {x y : Execution} (before : x.env.Plain) (ended : test host word condition x = .ok more y) :
    y.env = x.env := by
  rw [test, Run.bind_apply] at ended
  cases evaluated : expr host condition x with
  | ok v z =>
      rw [evaluated] at ended
      dsimp only at ended
      cases result : goesOn word v with
      | ok b =>
          rw [result] at ended
          cases ended
          exact expr_env tame before evaluated
      | error fault => rw [result] at ended; cases ended
  | error e z => rw [evaluated] at ended; cases ended
  | exhausted => rw [evaluated] at ended; cases ended

theorem stmt_keeps (plain : ∀ env, I env → env.Plain) (tame : host.Tame True) {budget : Nat} {s : Stmt}
    {x y : Execution} (holds : I x.env) (keeps : ∀ n ∈ s.targets, Assignable I n)
    (ended : stmt host budget s x = .ok () y) : I y.env := by
  have met := meets_stmt plain tame budget s x holds keeps
  rw [ended] at met
  exact met.env

theorem stmts_keeps (plain : ∀ env, I env → env.Plain) (tame : host.Tame True) {budget : Nat}
    {ss : List Stmt} {x y : Execution} (holds : I x.env)
    (keeps : ∀ n ∈ Stmt.targets.targetsAll ss, Assignable I n)
    (ended : stmts host budget ss x = .ok () y) : I y.env := by
  have met := meets_stmts plain tame budget ss x holds keeps
  rw [ended] at met
  exact met.env

end Statements

end Eval

end LoopScript
