/-
# LoopScript.Proofs.Eval.Shown — the values that a run displays

`shownByExpr` and its companions list the values that are displayed in the course of a run, in order: the
arguments of each call of a function that displays, as they are when the call is made. They follow the
evaluator from state to state and look at no sink.

Where the sink takes every write, what a run has written is exactly the lines of these values
(`stmts_shows`, `run_shows`), also if the run ends in an error. The functions that are bound then are among
those that were bound before, since only a name can have a function for its value (`expr_function`).
-/
import LoopScript.Proofs.Eval.Truncation

namespace LoopScript

set_option autoImplicit false

/-! ## The functions that are bound -/

/-- Every function that is bound is an allowed one. -/
def Env.Offers (allowed : Function → Prop) (env : Env) : Prop :=
  ∀ n f, env.get? n = some (.function f) → allowed f

namespace Env.Offers

variable {allowed : Function → Prop} {env : Env}

theorem plain (offers : env.Offers allowed) (displays : ∀ f, allowed f → f.action = .display) :
    env.Plain := by
  intro n v bound
  cases v with
  | function f => exact displays f (offers n f bound)
  | _ => trivial

theorem insert (offers : env.Offers allowed) (name : Text) {v : Value}
    (value : ∀ f, v = .function f → allowed f) : Env.Offers allowed (Table.insert env name v) := by
  intro n f bound
  rw [Table.get?_insert] at bound
  split at bound
  · exact value f (Option.some.inj bound)
  · exact offers n f bound

theorem of_lookupFunction {callee : Text} {f : Function} (offers : env.Offers allowed)
    (found : env.lookupFunction callee = .ok f) : allowed f := by
  unfold Env.lookupFunction at found
  split at found
  · next bound =>
      cases found
      exact offers callee f bound
  · cases found
  · cases found

end Env.Offers

namespace Value

variable {a b : Value} {f : Function}

theorem joined?_ne_function : joined? a b ≠ some (.function f) := by
  unfold joined?
  split <;> simp

theorem add_ne_function : a.add b ≠ .ok (.function f) := by
  unfold add
  split
  · simp
  · split
    · simp
    · next found => exact fun same => joined?_ne_function (found.trans (congrArg some (Except.ok.inj same)))
    · simp

theorem subtract_ne_function : a.subtract b ≠ .ok (.function f) := by
  unfold subtract
  split
  · simp
  · split
    · simp
    · next found => exact fun same => joined?_ne_function (found.trans (congrArg some (Except.ok.inj same)))
    · simp

theorem less_ne_function : a.less b ≠ .ok (.function f) := by
  unfold less
  split
  · simp
  · split <;> simp

end Value

namespace Eval

theorem ofFault_eq_ok {α : Type} {result : Except Fault α} {pos : Position} {v : α} {x y : Execution}
    (ended : Run.ofFault result pos x = .ok v y) : result = .ok v := by
  cases result with
  | ok a =>
      cases ended
      rfl
  | error f => cases ended

theorem additive_ne_function {op : Operator} {a b : Value} {f : Function} {pos : Position}
    {x y : Execution} : additive op a b pos x ≠ .ok (.function f) y := by
  unfold additive
  intro ended
  split at ended
  · exact Value.add_ne_function (ofFault_eq_ok ended)
  · exact Value.add_ne_function (ofFault_eq_ok ended)
  · exact Value.subtract_ne_function (ofFault_eq_ok ended)
  · cases ended

theorem comparison_ne_function {op : Operator} {a b : Value} {f : Function} {pos : Position}
    {x y : Execution} : comparison op a b pos x ≠ .ok (.function f) y := by
  unfold comparison
  intro ended
  split at ended
  · exact Value.less_ne_function (ofFault_eq_ok ended)
  · cases ended

theorem literal_ne_function {kind : LiteralKind} {text : Text} {f : Function} :
    literal kind text ≠ .ok (.function f) := by
  unfold literal
  intro found
  split at found <;> (try split at found) <;> cases found

end Eval

theorem Run.bind_eq_ok {ε α β : Type} {r : Run ε α} {next : α → Run ε β} {b : β} {x y : Execution}
    (ended : (r >>= next) x = .ok b y) : ∃ a z, r x = .ok a z ∧ next a z = .ok b y := by
  rw [bind_apply] at ended
  cases first : r x with
  | ok a z =>
      rw [first] at ended
      exact ⟨a, z, rfl, ended⟩
  | error e z | exhausted =>
      rw [first] at ended
      cases ended

namespace Eval

theorem variableValue_function {n : Text} {f : Function} {pos : Position} {x y : Execution}
    (ended : variableValue n pos x = .ok (.function f) y) : x.env.get? n = some (.function f) := by
  have found := ofFault_eq_ok ended
  rw [Env.lookup] at found
  cases bound : x.env.get? n with
  | none =>
      rw [bound] at found
      cases found
  | some v =>
      rw [bound] at found
      cases found
      rfl

/-- A call gives no function where all that are bound display. -/
theorem invoke_ne_function {budget : Nat} {callee : Text} {values : List Value} {f : Function}
    {pos : Position} {x y : Execution} (plain : x.env.Plain) :
    invoke (host budget) callee values pos x ≠ .ok (.function f) y := by
  intro called
  rw [invoke] at called
  cases found : x.env.lookupFunction callee with
  | error fault =>
      rw [found] at called
      cases called
  | ok g =>
      have offers : x.env.Offers fun f => f.action = .display := fun n f bound => plain n _ bound
      have displays : g.action = .display := offers.of_lookupFunction found
      rw [found] at called
      cases budget with
      | zero => cases called
      | succ budget =>
          have met := Host.meets_display values x
          simp only [Run.placedAt, Host.host_display displays] at called
          cases shown : Host.display values x with
          | ok v w =>
              rw [shown] at met called
              rw [met.1] at called
              cases called
          | error | exhausted =>
              rw [shown] at called
              cases called

/-- Only a name has a function for its value: it is one that is bound. -/
theorem expr_function {budget : Nat} {e : Expr} {f : Function} {x y : Execution} (plain : x.env.Plain)
    (ended : expr (host budget) e x = .ok (.function f) y) : ∃ n, x.env.get? n = some (.function f) := by
  cases e with
  | name n pos =>
      rw [expr] at ended
      exact ⟨n, variableValue_function ended⟩
  | literal kind text pos =>
      simp only [expr] at ended
      cases found : literal kind text with
      | ok v =>
          rw [found] at ended
          cases ended
          exact absurd found literal_ne_function
      | error cause =>
          rw [found] at ended
          cases ended
  | call callee args pos =>
      rw [expr] at ended
      obtain ⟨values, z, evaluated, called⟩ := Run.bind_eq_ok ended
      have same := exprs_env (Host.host_tame_spent budget) plain evaluated
      exact absurd called (invoke_ne_function (same ▸ plain))
  | binary level op left right pos =>
      cases level with
      | additive =>
          rw [expr] at ended
          obtain ⟨a, z, -, rest⟩ := Run.bind_eq_ok ended
          obtain ⟨b, w, -, last⟩ := Run.bind_eq_ok rest
          exact absurd last additive_ne_function
      | comparison =>
          rw [expr] at ended
          obtain ⟨a, z, -, rest⟩ := Run.bind_eq_ok ended
          obtain ⟨b, w, -, last⟩ := Run.bind_eq_ok rest
          exact absurd last comparison_ne_function
      | multiplicative => cases ended
      | boolean => cases ended
  | negation operand pos => cases ended

/-! ## The values in order -/

/-- The values that a call displays: its arguments, if it is a function that displays. -/
def shownByCall (callee : Text) (values : List Value) (x : Execution) : List Value :=
  match x.env.lookupFunction callee with
  | .ok f => if f.action = .display then values else []
  | .error _ => []

end Eval

/-- What is displayed behind a run: nothing, unless it completes. -/
def Outcome.shownNext {ε α : Type} (shown : α → Execution → List Value) : Outcome ε α → List Value
  | .ok a y => shown a y
  | _ => []

namespace Eval

mutual

def shownByExpr (host : Host) : Expr → Execution → List Value
  | .call callee args _, x =>
      shownByExprs host args x ++ (exprs host args x).shownNext (shownByCall callee)
  | .binary .additive _ left right _, x =>
      shownByExpr host left x ++ (expr host left x).shownNext fun _ => shownByExpr host right
  | .binary .comparison _ left right _, x =>
      shownByExpr host left x ++ (expr host left x).shownNext fun _ => shownByExpr host right
  | _, _ => []

def shownByExprs (host : Host) : List Expr → Execution → List Value
  | [], _ => []
  | e :: rest, x => shownByExpr host e x ++ (expr host e x).shownNext fun _ => shownByExprs host rest

end

/-- The values that the passes of a loop display, given those of its test and of its body. -/
def shownByPasses (again : Run RuntimeError Bool) (body : Run RuntimeError Unit)
    (byTest byBody : Execution → List Value) : Nat → Execution → List Value
  | 0, _ => []
  | budget + 1, x =>
      byBody x ++ (body x).shownNext fun _ y =>
        byTest y ++ (again y).shownNext fun more z =>
          if more then shownByPasses again body byTest byBody budget z else []

mutual

def shownByStmt (host : Host) (budget : Nat) : Stmt → Execution → List Value
  | .assign _ value _, x => shownByExpr host value x
  | .call callee args pos, x => shownByExpr host (.call callee args pos) x
  | .block body _, x => shownByStmts host budget body x
  | .loop word condition body _ alternative _, x =>
      shownByExpr host condition x ++ (test host word condition x).shownNext fun more y =>
        if more then
          shownByPasses (test host word condition) (stmts host budget body) (shownByExpr host condition)
            (shownByStmts host budget body) budget y
        else shownByOther host budget alternative y
  | .branch _ _ _ _ _, _ => []

def shownByStmts (host : Host) (budget : Nat) : List Stmt → Execution → List Value
  | [], _ => []
  | s :: rest, x =>
      shownByStmt host budget s x ++ (stmt host budget s x).shownNext fun _ =>
        shownByStmts host budget rest

def shownByOther (host : Host) (budget : Nat) : Option Stmt → Execution → List Value
  | none, _ => []
  | some s, x => shownByStmt host budget s x

end

end Eval

def Script.shown (budget : Nat) (script : Script) (x : Execution) : List Value :=
  Eval.shownByStmts (host budget) budget script.program { x with source := some script.source }

/-! ## What is written -/

/-- Since `x` exactly the given values have been displayed; still only allowed functions are bound, and the
sink takes every write. -/
structure Execution.Displayed (allowed : Function → Prop) (x : Execution) (values : List Value)
    (y : Execution) : Prop where
  offers : y.env.Offers allowed
  unlimited : y.sink.limit = none
  written : y.sink.written.toList = x.sink.written.toList ++ values.map Value.line

/-- Begun where only allowed functions are bound and the sink takes every write, the run displays these
values. -/
def Run.Shows {ε α : Type} (allowed : Function → Prop) (r : Run ε α)
    (shown : Execution → List Value) : Prop :=
  ∀ x y, x.env.Offers allowed → x.sink.limit = none → (r x).Reaches y → x.Displayed allowed (shown x) y

namespace Run

variable {ε α β : Type} {allowed : Function → Prop} {r : Run ε α} {next : α → Run ε β}
  {shown : Execution → List Value} {later : α → Execution → List Value}

theorem shows_nothing (stays : ∀ x y, (r x).Reaches y → y = x) : r.Shows allowed fun _ => [] := by
  intro x y offers unlimited reached
  cases stays x y reached
  exact ⟨offers, unlimited, (List.append_nil _).symm⟩

theorem ofFault_shows (result : Except Fault α) (pos : Position) :
    (Run.ofFault result pos).Shows allowed fun _ => [] := by
  cases result <;> exact shows_nothing fun _ _ reached => reached

theorem bind_shows (first : r.Shows allowed shown) (after : ∀ a, (next a).Shows allowed (later a)) :
    (r >>= next).Shows allowed fun x => shown x ++ (r x).shownNext later := by
  intro x y offers unlimited reached
  rcases reaches_bind reached with ⟨a, z, ended, further⟩ | ⟨e, failed⟩
  · have before := first x z offers unlimited (by rw [ended]; rfl)
    have behind := after a z y before.offers before.unlimited further
    have second : (r x).shownNext later = later a z := by rw [ended]; rfl
    refine ⟨behind.offers, behind.unlimited, ?_⟩
    dsimp only
    rw [second, behind.written, before.written, List.map_append, List.append_assoc]
  · have before := first x y offers unlimited (by rw [failed]; rfl)
    have second : (r x).shownNext later = [] := by rw [failed]; rfl
    refine ⟨before.offers, before.unlimited, ?_⟩
    dsimp only
    rw [second, List.append_nil, before.written]

/-- A second run that displays nothing adds nothing. -/
theorem bind_shows_nothing (first : r.Shows allowed shown)
    (after : ∀ a, (next a).Shows allowed fun _ => []) : (r >>= next).Shows allowed shown := by
  have both := bind_shows first after
  have none : ∀ o : Outcome ε α, o.shownNext (fun _ _ => []) = ([] : List Value) := by
    intro o
    cases o <;> rfl
  simpa only [none, List.append_nil] using both

end Run

namespace Eval

section

variable {allowed : Function → Prop} {budget : Nat}

theorem invoke_shows (displays : ∀ f, allowed f → f.action = .display) (callee : Text)
    (values : List Value) (pos : Position) :
    (invoke (host budget) callee values pos).Shows allowed (shownByCall callee values) := by
  intro x y offers unlimited reached
  unfold invoke at reached
  unfold shownByCall
  cases found : x.env.lookupFunction callee with
  | error fault =>
      rw [found] at reached
      cases reached
      exact ⟨offers, unlimited, (List.append_nil _).symm⟩
  | ok f =>
      have isDisplay := displays f (offers.of_lookupFunction found)
      rw [found] at reached
      have called := Outcome.reaches_mapError.mp reached
      dsimp only
      rw [if_pos isDisplay]
      cases budget with
      | zero => exact called.elim
      | succ budget =>
          rw [Host.host_display isDisplay, Host.display_unlimited values unlimited] at called
          cases called
          exact ⟨offers, unlimited, x.writing_toList values⟩

mutual

theorem expr_shows (displays : ∀ f, allowed f → f.action = .display) :
    ∀ e : Expr, (expr (host budget) e).Shows allowed (shownByExpr (host budget) e)
  | .name id pos => by
      intro x y offers unlimited reached
      rw [expr, variableValue] at reached
      exact Run.ofFault_shows _ pos x y offers unlimited reached
  | .literal kind text pos => by
      rw [expr]
      cases literal kind text <;> exact Run.shows_nothing fun _ _ reached => reached
  | .call callee args pos => by
      rw [expr]
      exact Run.bind_shows (exprs_shows displays args) fun values => invoke_shows displays callee values pos
  | .binary .additive op left right pos => by
      rw [expr]
      refine Run.bind_shows (expr_shows displays left) fun a =>
        Run.bind_shows_nothing (expr_shows displays right) fun b => ?_
      unfold additive
      split
      · exact Run.ofFault_shows _ pos
      · exact Run.ofFault_shows _ pos
      · exact Run.ofFault_shows _ pos
      · exact Run.shows_nothing fun _ _ reached => reached
  | .binary .comparison op left right pos => by
      rw [expr]
      refine Run.bind_shows (expr_shows displays left) fun a =>
        Run.bind_shows_nothing (expr_shows displays right) fun b => ?_
      unfold comparison
      split
      · exact Run.ofFault_shows _ pos
      · exact Run.shows_nothing fun _ _ reached => reached
  | .binary .multiplicative _ _ _ _ => Run.shows_nothing fun _ _ reached => reached
  | .binary .boolean _ _ _ _ => Run.shows_nothing fun _ _ reached => reached
  | .negation _ _ => Run.shows_nothing fun _ _ reached => reached

theorem exprs_shows (displays : ∀ f, allowed f → f.action = .display) :
    ∀ es : List Expr, (exprs (host budget) es).Shows allowed (shownByExprs (host budget) es)
  | [] => Run.shows_nothing fun _ _ reached => reached
  | e :: rest => by
      rw [exprs]
      exact Run.bind_shows (expr_shows displays e) fun v =>
        Run.bind_shows_nothing (exprs_shows displays rest) fun vs =>
          Run.shows_nothing fun _ _ reached => reached

end

theorem test_shows (displays : ∀ f, allowed f → f.action = .display) (word : Text) (condition : Expr) :
    (test (host budget) word condition).Shows allowed (shownByExpr (host budget) condition) :=
  Run.bind_shows_nothing (expr_shows displays condition) fun _ => Run.ofFault_shows _ _

theorem repeatWhile_shows {again : Run RuntimeError Bool} {body : Run RuntimeError Unit}
    {byTest byBody : Execution → List Value} (tests : again.Shows allowed byTest)
    (passes : body.Shows allowed byBody) : ∀ left : Nat,
      (repeatWhile again body left).Shows allowed (shownByPasses again body byTest byBody left)
  | 0 => fun _ _ _ _ => False.elim
  | left + 1 => by
      rw [repeatWhile_succ]
      refine Run.bind_shows passes fun _ => Run.bind_shows tests fun more => ?_
      cases more with
      | true => exact repeatWhile_shows tests passes left
      | false => exact Run.shows_nothing fun _ _ reached => reached

mutual

theorem stmt_shows (displays : ∀ f, allowed f → f.action = .display) :
    ∀ s : Stmt, (stmt (host budget) budget s).Shows allowed (shownByStmt (host budget) budget s)
  | .assign target value pos => by
      intro x y offers unlimited reached
      rw [stmt] at reached
      rcases Run.reaches_bind reached with ⟨v, z, ended, further⟩ | ⟨e, failed⟩
      · cases further
        have before := expr_shows displays value x z offers unlimited (by rw [ended]; rfl)
        refine ⟨before.offers.insert target ?_, before.unlimited, before.written⟩
        rintro f rfl
        obtain ⟨n, bound⟩ := expr_function (offers.plain displays) ended
        exact offers n f bound
      · exact expr_shows displays value x y offers unlimited (by rw [failed]; rfl)
  | .call callee args pos => by
      rw [stmt_call]
      exact Run.bind_shows_nothing (expr_shows displays (.call callee args pos)) fun _ =>
        Run.shows_nothing fun _ _ reached => reached
  | .block body pos => by
      rw [stmt]
      exact stmts_shows displays body
  | .loop word condition body bodyPos alternative pos => by
      rw [stmt]
      refine Run.bind_shows (test_shows displays word condition) fun more => ?_
      cases more with
      | true =>
          exact repeatWhile_shows (test_shows displays word condition) (stmts_shows displays body) budget
      | false => exact otherwise_shows displays alternative
  | .branch _ _ _ _ pos => by
      rw [stmt]
      exact Run.shows_nothing fun _ _ reached => reached

/-- Statements write exactly the lines of the values they display. -/
theorem stmts_shows (displays : ∀ f, allowed f → f.action = .display) :
    ∀ ss : List Stmt, (stmts (host budget) budget ss).Shows allowed (shownByStmts (host budget) budget ss)
  | [] => Run.shows_nothing fun _ _ reached => reached
  | s :: rest => by
      rw [stmts]
      exact Run.bind_shows (stmt_shows displays s) fun _ => stmts_shows displays rest

theorem otherwise_shows (displays : ∀ f, allowed f → f.action = .display) :
    ∀ alternative : Option Stmt, (otherwise (host budget) budget alternative).Shows allowed
      (shownByOther (host budget) budget alternative)
  | none => Run.shows_nothing fun _ _ reached => reached
  | some s => by
      rw [otherwise]
      exact stmt_shows displays s

end

end

end Eval

/-- A script writes exactly the lines of the values it displays, and binds only functions that were
bound. -/
theorem Script.run_shows {allowed : Function → Prop} (displays : ∀ f, allowed f → f.action = .display)
    (budget : Nat) (script : Script) : (script.run budget).Shows allowed (script.shown budget) := by
  intro x y offers unlimited reached
  obtain ⟨z, ended, rfl⟩ := Outcome.reaches_mapReached.mp reached
  have displayed := Eval.stmts_shows displays script.program { x with source := some script.source } z
    offers unlimited ended
  exact ⟨displayed.offers, displayed.unlimited, displayed.written⟩

end LoopScript
