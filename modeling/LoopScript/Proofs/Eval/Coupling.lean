/-
# LoopScript.Proofs.Eval.Coupling — two runs of one program, side by side

Run in two executions, a program does the same as long as it cannot tell them apart. It can look names
up, bind them, call functions and quote the running source; so a relation between executions is a
`Coupling` for some names if related executions agree on these names and on the source, and if binding
such a name and calling a function keep them related.

A call may also tell the two apart in one way: the second run ends there in an error, and the first goes
on and writes. Such a run strays. Where it strays is said of the call, and a `Coupling` passes it on to
every task in which the call is begun.

`stmts_follow` says that a program which mentions no other names then comes to the same in both: it gives
the same value or ends in the same error, in executions that are related again, or else the second run
strays. One relation for which none does is `Execution.Matches`, of executions that differ only in what
has been written, to sinks that take every write (`host_coupled`, `run_matches`).
-/
import LoopScript.Proofs.Eval.Relocation
import LoopScript.Proofs.Eval.Steady

namespace LoopScript

set_option autoImplicit false

/-! ## The names of a program -/

mutual

/-- The names an expression mentions: variables and functions. -/
def Expr.names : Expr → List Text
  | .name id _ => [id]
  | .literal _ _ _ => []
  | .call callee args _ => callee :: Expr.namesAll args
  | .binary _ _ left right _ => left.names ++ right.names
  | .negation operand _ => operand.names

def Expr.namesAll : List Expr → List Text
  | [] => []
  | e :: rest => e.names ++ Expr.namesAll rest

end

mutual

/-- The names a statement mentions, those it assigns to among them. -/
def Stmt.names : Stmt → List Text
  | .assign target value _ => target :: value.names
  | .call callee args _ => callee :: Expr.namesAll args
  | .block body _ => Stmt.namesAll body
  | .loop _ condition body _ alternative _ =>
      condition.names ++ Stmt.namesAll body ++ Stmt.namesOther alternative
  | .branch condition body _ alternative _ =>
      condition.names ++ Stmt.namesAll body ++ Stmt.namesOther alternative

def Stmt.namesAll : List Stmt → List Text
  | [] => []
  | s :: rest => s.names ++ Stmt.namesAll rest

def Stmt.namesOther : Option Stmt → List Text
  | none => []
  | some s => s.names

end

/-! ## Coming to the same -/

/-- Two runs come to the same, in executions that are related. -/
inductive Outcome.Alike {ε α : Type} (R : Execution → Execution → Prop) :
    Outcome ε α → Outcome ε α → Prop where
  | ok {a : α} {x y : Execution} : R x y → Alike R (.ok a x) (.ok a y)
  | error {e : ε} {x y : Execution} : R x y → Alike R (.error e x) (.error e y)
  | exhausted : Alike R .exhausted .exhausted

namespace Outcome.Alike

variable {ε α : Type} {R S : Execution → Execution → Prop} {left right : Outcome ε α}

theorem mono (alike : left.Alike R right) (weaker : ∀ x y, left.Reaches x → R x y → S x y) :
    left.Alike S right := by
  cases alike with
  | ok related => exact .ok (weaker _ _ rfl related)
  | error related => exact .error (weaker _ _ rfl related)
  | exhausted => exact .exhausted

/-- Where the first run ends, the second does. -/
theorem reaches {x : Execution} (alike : left.Alike R right) (reached : left.Reaches x) :
    ∃ y, right.Reaches y ∧ R x y := by
  cases alike with
  | ok related => cases reached; exact ⟨_, rfl, related⟩
  | error related => cases reached; exact ⟨_, rfl, related⟩
  | exhausted => exact reached.elim

end Outcome.Alike

/-- What has been written to the second is the beginning of what has been written to the first, which is
longer. -/
def Execution.Outwrites (x y : Execution) : Prop :=
  y.sink.written.toList <+: x.sink.written.toList ∧ y.sink.written.size < x.sink.written.size

theorem Execution.Outwrites.grows {x y z : Execution} (more : x.Outwrites y) (grows : x.Grows z) :
    z.Outwrites y := by
  have longer := grows.size_le
  obtain ⟨values, same⟩ := grows
  exact ⟨more.1.trans (same ▸ List.prefix_append ..), Nat.lt_of_lt_of_le more.2 longer⟩

/-- The second run comes to the same as the first, or else it strays: it ends in an error, and the first,
if it ends, has written more. -/
inductive Outcome.Follows {ε α : Type} (R : Execution → Execution → Prop)
    (strays : ε → Execution → Prop) : Outcome ε α → Outcome ε α → Prop where
  | alike {left right : Outcome ε α} : left.Alike R right → Follows R strays left right
  | strays {left : Outcome ε α} {e : ε} {y : Execution} : strays e y →
      (∀ z, left.Reaches z → z.Outwrites y) → Follows R strays left (.error e y)

namespace Outcome.Follows

variable {ε α : Type} {R : Execution → Execution → Prop} {strays strays' : ε → Execution → Prop}
  {left right : Outcome ε α}

theorem mono (follows : left.Follows R strays right) (weaker : ∀ e y, strays e y → strays' e y) :
    left.Follows R strays' right := by
  cases follows with
  | alike same => exact .alike same
  | strays stray more => exact .strays (weaker _ _ stray) more

theorem alike_of (follows : left.Follows R strays right) (never : ∀ e y, ¬ strays e y) :
    left.Alike R right := by
  cases follows with
  | alike same => exact same
  | strays stray => exact absurd stray (never _ _)

end Outcome.Follows

/-- Runs that look at the given names only cannot tell related executions apart, but for calls at which
the second run strays. -/
structure Coupling (host : Host) (budget : Nat) (mentioned : Text → Prop)
    (R : Execution → Execution → Prop)
    (strays : Eval.Task → Execution → RuntimeError → Execution → Prop) : Prop where
  plain : ∀ {x y}, R x y → x.env.Plain
  looks : ∀ {x y}, R x y → ∀ n, mentioned n → y.env.get? n = x.env.get? n
  source : ∀ {x y}, R x y → y.source = x.source
  binds : ∀ {x y}, R x y → ∀ n v, mentioned n → v.Plain → R (x.define n v) (y.define n v)
  grows : ∀ f args, (host f args).Within Execution.Grows
  calls : ∀ {x y z : Execution} {callee : Text} {args : List Expr} {values : List Value}
    {pos : Position} {f : Function}, Eval.exprs host args x = .ok values y →
    y.env.lookupFunction callee = .ok f → f.action = .display → R y z →
    (Run.placedAt (host f values) pos y).Follows R (strays (.expr (.call callee args pos)) x)
      (Run.placedAt (host f values) pos z)
  inner : ∀ {t u : Eval.Task} {x y z : Execution} {e : RuntimeError},
    Eval.Begins host budget t x u y → strays u y e z → strays t x e z

namespace Run

variable {ε α β : Type} {R : Execution → Execution → Prop} {strays : ε → Execution → Prop}
  {x y : Execution}

theorem follows_bind {r : Run ε α} {next : α → Run ε β} (first : (r x).Follows R strays (r y))
    (grows : ∀ a, (next a).Within Execution.Grows)
    (after : ∀ a z w, r x = .ok a z → R z w → (next a z).Follows R strays (next a w)) :
    ((r >>= next) x).Follows R strays ((r >>= next) y) := by
  rw [bind_apply r next y]
  generalize other : r y = right at first
  cases first with
  | alike same =>
      rw [bind_apply]
      generalize ended : r x = left at same
      cases same with
      | ok related => exact after _ _ _ ended related
      | error related => exact .alike (.error related)
      | exhausted => exact .alike .exhausted
  | strays stray more =>
      refine .strays stray fun z reached => ?_
      rcases reaches_bind reached with ⟨a, w, ended, further⟩ | ⟨e, failed⟩
      · exact (more w (by rw [ended]; rfl)).grows (grows a w z further)
      · exact more z (by rw [failed]; rfl)

/-- A call at a position comes to the same if the function does. -/
theorem placedAt_alike {r : Run Failure α} (called : (r x).Alike R (r y)) (pos : Position)
    (source : ∀ {z w}, R z w → w.source = z.source) :
    (placedAt r pos x).Alike R (placedAt r pos y) := by
  rw [placedAt, placedAt]
  generalize r x = left at called
  generalize r y = right at called
  cases called with
  | ok reached => exact .ok reached
  | error reached =>
      simp only [Outcome.mapError]
      rw [Execution.frameAt, Execution.frameAt, source reached]
      exact .error reached
  | exhausted => exact .exhausted

end Run

namespace Eval

variable {host : Host} {budget : Nat} {mentioned : Text → Prop} {R : Execution → Execution → Prop}
  {strays : Task → Execution → RuntimeError → Execution → Prop} {x y : Execution}

section

variable (coupling : Coupling host budget mentioned R strays)
include coupling

theorem raise_alike {α : Type} (cause : Cause) (pos : Position) (related : R x y) :
    ((Run.raise cause pos : Run RuntimeError α) x).Alike R (Run.raise cause pos y) := by
  rw [Run.raise, Run.raise, Execution.frameAt, Execution.frameAt, coupling.source related]
  exact .error related

theorem ofFault_alike {α : Type} (result : Except Fault α) (pos : Position) (related : R x y) :
    (Run.ofFault result pos x).Alike R (Run.ofFault result pos y) := by
  cases result with
  | ok a => exact .ok related
  | error f => exact raise_alike coupling _ pos related

theorem additive_alike (op : Operator) (a b : Value) (pos : Position) (related : R x y) :
    (additive op a b pos x).Alike R (additive op a b pos y) := by
  unfold additive
  split
  · exact ofFault_alike coupling _ pos related
  · exact ofFault_alike coupling _ pos related
  · exact ofFault_alike coupling _ pos related
  · exact raise_alike coupling _ pos related

theorem comparison_alike (op : Operator) (a b : Value) (pos : Position) (related : R x y) :
    (comparison op a b pos x).Alike R (comparison op a b pos y) := by
  unfold comparison
  split
  · exact ofFault_alike coupling _ pos related
  · exact raise_alike coupling _ pos related

/-- A call whose arguments have been evaluated. -/
theorem invoke_follows {callee : Text} {args : List Expr} {values : List Value} {z : Execution}
    (known : mentioned callee) (pos : Position) (evaluated : exprs host args x = .ok values y)
    (related : R y z) :
    (invoke host callee values pos y).Follows R (strays (.expr (.call callee args pos)) x)
      (invoke host callee values pos z) := by
  have same : z.env.lookupFunction callee = y.env.lookupFunction callee := by
    rw [Env.lookupFunction, Env.lookupFunction, coupling.looks related callee known]
  rw [invoke, invoke, same]
  cases found : y.env.lookupFunction callee with
  | error fault => exact .alike (raise_alike coupling _ pos related)
  | ok f =>
      have displays : f.action = .display := by
        refine coupling.plain related callee (.function f) ?_
        unfold Env.lookupFunction at found
        split at found
        · next bound => cases found; exact bound
        · cases found
        · cases found
      exact coupling.calls evaluated found displays related

/-- The two operands of an operator, from left to right, and then the operation on their values. -/
theorem operands_follow {level : Level} {op : Operator} {left right : Expr} {pos : Position}
    {operate : Value → Value → Run RuntimeError Value}
    (evaluated : level = .additive ∨ level = .comparison)
    (first : ∀ {x y}, R x y → (expr host left x).Follows R (strays (.expr left) x) (expr host left y))
    (second : ∀ {x y}, R x y → (expr host right x).Follows R (strays (.expr right) x) (expr host right y))
    (grows : ∀ a b, (operate a b).Within Execution.Grows)
    (last : ∀ a b {x y}, R x y → (operate a b x).Alike R (operate a b y)) (related : R x y) :
    ((do
      let a ← expr host left
      let b ← expr host right
      operate a b : Run RuntimeError Value) x).Follows R
        (strays (.expr (.binary level op left right pos)) x)
      ((do
        let a ← expr host left
        let b ← expr host right
        operate a b : Run RuntimeError Value) y) := by
  have steady := Execution.grows_steady
  refine Run.follows_bind ((first related).mono fun _ _ => coupling.inner (.left evaluated))
    (fun a => Run.bind_within steady (expr_within steady coupling.grows right) (grows a))
    fun a z w ended reached => ?_
  refine Run.follows_bind ((second reached).mono fun _ _ => coupling.inner (.right evaluated ended))
    (grows a) fun b z w _ reached => ?_
  exact .alike (last a b reached)

mutual

theorem expr_follows : ∀ (e : Expr) {x y : Execution}, (∀ n ∈ e.names, mentioned n) → R x y →
    (expr host e x).Follows R (strays (.expr e) x) (expr host e y)
  | .name id pos, x, y, known, related => by
      rw [expr, variableValue, variableValue, Env.lookup, Env.lookup,
        coupling.looks related id (known id List.mem_cons_self)]
      exact .alike (ofFault_alike coupling _ pos related)
  | .literal kind text pos, x, y, _, related => by
      simp only [expr]
      cases literal kind text with
      | ok v => exact .alike (.ok related)
      | error cause => exact .alike (raise_alike coupling cause pos related)
  | .call callee args pos, x, y, known, related => by
      have first := exprs_follow args (fun n member => known n (List.mem_cons_of_mem _ member)) related
      rw [expr]
      refine Run.follows_bind (first.mono fun _ _ => coupling.inner .arguments)
        (fun values => invoke_within Execution.grows_steady coupling.grows callee values pos)
        fun values z w ended reached => ?_
      exact invoke_follows coupling (known callee List.mem_cons_self) pos ended reached
  | .binary .additive op left right pos, x, y, known, related => by
      obtain ⟨first, second⟩ := List.forall_mem_append.mp known
      rw [expr]
      exact operands_follow coupling (.inl rfl) (expr_follows left first) (expr_follows right second)
        (fun a b => additive_within Execution.grows_steady op a b pos)
        (fun a b => additive_alike coupling op a b pos) related
  | .binary .comparison op left right pos, x, y, known, related => by
      obtain ⟨first, second⟩ := List.forall_mem_append.mp known
      rw [expr]
      exact operands_follow coupling (.inr rfl) (expr_follows left first) (expr_follows right second)
        (fun a b => comparison_within Execution.grows_steady op a b pos)
        (fun a b => comparison_alike coupling op a b pos) related
  | .binary .multiplicative _ _ _ pos, x, y, _, related => .alike (raise_alike coupling _ pos related)
  | .binary .boolean _ _ _ pos, x, y, _, related => .alike (raise_alike coupling _ pos related)
  | .negation _ pos, x, y, _, related => .alike (raise_alike coupling _ pos related)

theorem exprs_follow : ∀ (es : List Expr) {x y : Execution}, (∀ n ∈ Expr.namesAll es, mentioned n) →
    R x y → (exprs host es x).Follows R (strays (.exprs es) x) (exprs host es y)
  | [], x, y, _, related => .alike (.ok related)
  | e :: rest, x, y, known, related => by
      have steady := Execution.grows_steady
      obtain ⟨first, others⟩ := List.forall_mem_append.mp known
      rw [exprs]
      refine Run.follows_bind ((expr_follows e first related).mono fun _ _ => coupling.inner .first)
        (fun v => Run.bind_within steady (exprs_within steady coupling.grows rest) fun vs =>
          Run.pure_within steady (v :: vs)) fun v z w ended reached => ?_
      refine Run.follows_bind
        ((exprs_follow rest others reached).mono fun _ _ => coupling.inner (.next ended))
        (fun vs => Run.pure_within steady (v :: vs)) fun vs z w _ reached => ?_
      exact .alike (.ok reached)

end

theorem test_follows (word : Text) (condition : Expr) (known : ∀ n ∈ condition.names, mentioned n)
    (related : R x y) :
    (test host word condition x).Follows R (strays (.expr condition) x) (test host word condition y) := by
  rw [test]
  refine Run.follows_bind (expr_follows coupling condition known related)
    (fun v => Run.ofFault_within Execution.grows_steady _ condition.pos) fun v z w _ reached => ?_
  exact .alike (ofFault_alike coupling _ condition.pos reached)

/-- A loop makes the same passes if its tests and its bodies come to the same. -/
theorem passes_follow (word : Text) (condition : Expr) (body : List Stmt)
    (known : ∀ n ∈ condition.names, mentioned n)
    (bodies : ∀ {x y}, R x y →
      (stmts host budget body x).Follows R (strays (.stmts body) x) (stmts host budget body y)) :
    ∀ (left : Nat) {x y : Execution}, R x y →
      (repeatWhile (test host word condition) (stmts host budget body) left x).Follows R
        (strays (.passes word condition body left) x)
        (repeatWhile (test host word condition) (stmts host budget body) left y)
  | 0, _, _, _ => .alike .exhausted
  | left + 1, x, y, related => by
      have steady := Execution.grows_steady
      have tests := test_within steady coupling.grows word condition
      have rest : ∀ more : Bool, (if more then
          repeatWhile (test host word condition) (stmts host budget body) left
          else Run.pure ()).Within Execution.Grows := by
        intro more
        cases more with
        | true =>
            exact repeatWhile_within steady tests (stmts_within steady coupling.grows budget body) left
        | false => exact Run.pure_within steady ()
      rw [repeatWhile_succ]
      refine Run.follows_bind ((bodies related).mono fun _ _ => coupling.inner .body)
        (fun _ => Run.bind_within steady tests rest) fun _ z w passed reached => ?_
      refine Run.follows_bind ((test_follows coupling word condition known reached).mono fun _ _ =>
        coupling.inner (.again passed)) rest fun more z w tested reached => ?_
      cases more with
      | true =>
          exact (passes_follow word condition body known bodies left reached).mono fun _ _ =>
            coupling.inner (.another passed tested)
      | false => exact .alike (.ok reached)

mutual

theorem stmt_follows (tame : host.Tame True) :
    ∀ (s : Stmt) {x y : Execution}, (∀ n ∈ s.names, mentioned n) → R x y →
    (stmt host budget s x).Follows R (strays (.stmt s) x) (stmt host budget s y)
  | .assign target value pos, x, y, known, related => by
      have inside : ∀ n ∈ value.names, mentioned n := fun n member =>
        known n (List.mem_cons_of_mem _ member)
      have met := meets_expr tame value x (coupling.plain related)
      rw [stmt]
      refine Run.follows_bind
        ((expr_follows coupling value inside related).mono fun _ _ => coupling.inner .value)
        (fun v z _ reached => reached ▸ Execution.grows_steady.binds z target v)
        fun v z w ended reached => ?_
      rw [ended] at met
      exact .alike (.ok (coupling.binds reached target v (known target List.mem_cons_self) met.1))
  | .call callee args pos, x, y, known, related => by
      rw [stmt_call]
      refine Run.follows_bind ((expr_follows coupling (.call callee args pos) known related).mono
        fun _ _ => coupling.inner .call) (fun _ => Run.pure_within Execution.grows_steady ())
        fun v z w _ reached => ?_
      exact .alike (.ok reached)
  | .block body pos, x, y, known, related => by
      rw [stmt]
      exact (stmts_follow tame body known related).mono fun _ _ => coupling.inner .block
  | .loop word condition body bodyPos alternative pos, x, y, known, related => by
      have steady := Execution.grows_steady
      obtain ⟨front, other⟩ := List.forall_mem_append.mp known
      obtain ⟨tested, inside⟩ := List.forall_mem_append.mp front
      have rest : ∀ more : Bool, (if more then
          repeatWhile (test host word condition) (stmts host budget body) budget
          else otherwise host budget alternative).Within Execution.Grows := by
        intro more
        cases more with
        | true =>
            exact repeatWhile_within steady (test_within steady coupling.grows word condition)
              (stmts_within steady coupling.grows budget body) budget
        | false => exact otherwise_within steady coupling.grows budget alternative
      rw [stmt]
      refine Run.follows_bind ((test_follows coupling word condition tested related).mono fun _ _ =>
        coupling.inner .condition) rest fun more z w ended reached => ?_
      cases more with
      | true =>
          exact (passes_follow coupling word condition body tested (stmts_follow tame body inside) budget
            reached).mono fun _ _ => coupling.inner (.enter ended)
      | false =>
          exact (otherwise_follows tame alternative other reached).mono fun _ _ =>
            coupling.inner (.alternative ended)
  | .branch _ _ _ _ pos, x, y, _, related => by
      rw [stmt]
      exact .alike (raise_alike coupling _ pos related)

/-- Statements that mention no other names come to the same in related executions, or stray. -/
theorem stmts_follow (tame : host.Tame True) :
    ∀ (ss : List Stmt) {x y : Execution}, (∀ n ∈ Stmt.namesAll ss, mentioned n) → R x y →
      (stmts host budget ss x).Follows R (strays (.stmts ss) x) (stmts host budget ss y)
  | [], x, y, _, related => .alike (.ok related)
  | s :: rest, x, y, known, related => by
      obtain ⟨first, others⟩ := List.forall_mem_append.mp known
      rw [stmts]
      refine Run.follows_bind ((stmt_follows tame s first related).mono fun _ _ => coupling.inner .head)
        (fun _ => stmts_within Execution.grows_steady coupling.grows budget rest)
        fun _ z w ended reached => ?_
      exact (stmts_follow tame rest others reached).mono fun _ _ => coupling.inner (.tail ended)

theorem otherwise_follows (tame : host.Tame True) : ∀ (alternative : Option Stmt) {x y : Execution},
    (∀ n ∈ Stmt.namesOther alternative, mentioned n) → R x y →
      (otherwise host budget alternative x).Follows R (strays (.otherwise alternative) x)
        (otherwise host budget alternative y)
  | none, x, y, _, related => .alike (.ok related)
  | some s, x, y, known, related => by
      rw [otherwise]
      exact (stmt_follows tame s known related).mono fun _ _ => coupling.inner .other

end

end

end Eval

namespace Script

/-- What holds of the statements of a script holds of the script, with the sources put back. -/
theorem runWith_follows {host : Host} {budget : Nat} {mentioned : Text → Prop}
    {R : Execution → Execution → Prop}
    {strays : Eval.Task → Execution → RuntimeError → Execution → Prop}
    (coupling : Coupling host budget mentioned R strays) (tame : host.Tame True) (script : Script)
    (known : ∀ n ∈ Stmt.namesAll script.program, mentioned n) {x y : Execution}
    (inside : R { x with source := some script.source } { y with source := some script.source }) :
    (script.runWith host budget x).Follows
      (fun z w => ∃ z' w', R z' w' ∧ z = { z' with source := x.source } ∧
        w = { w' with source := y.source })
      (fun e w => ∃ w', strays (.stmts script.program) { x with source := some script.source } e w' ∧
        w = { w' with source := y.source })
      (script.runWith host budget y) := by
  have ran := Eval.stmts_follow coupling tame script.program known inside
  rw [runWith, runWith]
  generalize Eval.stmts _ _ _ { y with source := some script.source } = right at ran
  cases ran with
  | alike same =>
      generalize Eval.stmts _ _ _ { x with source := some script.source } = left at same
      cases same with
      | ok related => exact .alike (.ok ⟨_, _, related, rfl, rfl⟩)
      | error related => exact .alike (.error ⟨_, _, related, rfl, rfl⟩)
      | exhausted => exact .alike .exhausted
  | strays stray more =>
      refine .strays ⟨_, stray, rfl⟩ fun z reached => ?_
      obtain ⟨z', ended, rfl⟩ := Outcome.reaches_mapReached.mp reached
      exact more z' ended

end Script

/-! ## Executions that agree on some names -/

/-- The executions agree on the given names, to which plain values are bound; their sinks have the same
limit, and since `a` and `b` the same has been written to them. -/
structure Execution.Agrees (mentioned : Text → Prop) (x y a b : Execution) : Prop where
  plain : x.env.Plain
  names : ∀ n, mentioned n → y.env.get? n = x.env.get? n
  limit : y.sink.limit = x.sink.limit
  written : ∃ texts : List Text, x.sink.written.toList = a.sink.written.toList ++ texts ∧
    y.sink.written.toList = b.sink.written.toList ++ texts

namespace Host

variable {mentioned : Text → Prop} {a b : Execution}

/-- A write is taken by both sinks, or refused by both for the same reason. -/
theorem write_agrees {x y : Execution} (agrees : x.Agrees mentioned y a b) (t : Text) :
    (∃ refusal, x.sink.write t = .error refusal ∧ y.sink.write t = .error refusal) ∨
      ∃ left right, x.sink.write t = .ok left ∧ y.sink.write t = .ok right ∧
        ({ x with sink := left } : Execution).Agrees mentioned { y with sink := right } a b := by
  obtain ⟨texts, left, right⟩ := agrees.written
  have pushed : ∀ limit, ({ x with sink := ⟨x.sink.written.push t, limit⟩ } : Execution).Agrees mentioned
      { y with sink := ⟨y.sink.written.push t, limit⟩ } a b := by
    refine fun limit => ⟨agrees.plain, agrees.names, rfl, texts ++ [t], ?_, ?_⟩
    · rw [Array.toList_push, left, List.append_assoc]
    · rw [Array.toList_push, right, List.append_assoc]
  rw [Sink.write, Sink.write, agrees.limit]
  cases x.sink.limit with
  | none => exact .inr ⟨_, _, rfl, rfl, pushed none⟩
  | some limit =>
      obtain ⟨room, refusal, ordinary⟩ := limit
      cases room with
      | zero => exact .inl ⟨refusal, rfl, rfl⟩
      | succ room => exact .inr ⟨_, _, rfl, rfl, pushed (some ⟨room, refusal, ordinary⟩)⟩

theorem display_agrees : ∀ (args : List Value) {x y : Execution}, x.Agrees mentioned y a b →
    y.source = x.source →
      (display args x).Alike (fun z w => z.Agrees mentioned w a b ∧ w.source = z.source)
        (display args y)
  | [], x, y, agrees, source => .ok ⟨agrees, source⟩
  | v :: rest, x, y, agrees, source => by
      rcases write_agrees agrees (v.render ++ [Text.newline]) with
        ⟨refusal, left, right⟩ | ⟨_, _, left, right, written⟩
      · simp only [display, left, right]
        exact .error ⟨agrees, source⟩
      · simp only [display, left, right]
        exact display_agrees rest written source

/-- No run can tell executions apart that agree on the names it mentions. -/
theorem host_coupled (budget : Nat) (mentioned : Text → Prop) (a b : Execution) :
    Coupling (LoopScript.host budget) budget mentioned
      (fun x y => x.Agrees mentioned y a b ∧ y.source = x.source) fun _ _ _ _ => False where
  plain related := related.1.plain
  looks related := related.1.names
  source related := related.2
  binds {x y} related n v known value := by
    refine ⟨⟨related.1.plain.insert n value, fun m knownToo => ?_, related.1.limit, related.1.written⟩,
      related.2⟩
    rw [Execution.define, Execution.define, Table.get?_insert, Table.get?_insert,
      related.1.names m knownToo]
  grows := host_within Execution.grows_steady budget
  calls _ _ displays related := by
    refine .alike (Run.placedAt_alike ?_ _ fun related => related.2)
    cases budget with
    | zero => exact .exhausted
    | succ budget =>
        rw [host_display displays]
        exact display_agrees _ related.1 related.2
  inner _ := id

end Host

/-- A script comes to the same in executions that agree on the names it mentions, and they agree again;
the running source is restored. -/
theorem Script.run_agrees (budget : Nat) (script : Script) {mentioned : Text → Prop}
    (known : ∀ n ∈ Stmt.namesAll script.program, mentioned n) {a b x y : Execution}
    (agrees : x.Agrees mentioned y a b) :
    (script.run budget x).Alike
      (fun z w => z.Agrees mentioned w a b ∧ z.source = x.source ∧ w.source = y.source)
      (script.run budget y) := by
  have inside : ({ x with source := some script.source } : Execution).Agrees mentioned
      { y with source := some script.source } a b := { agrees with }
  have ran := (script.runWith_follows (Host.host_coupled budget mentioned a b)
    (Host.host_tame_spent budget) known ⟨inside, rfl⟩).alike_of fun e z stray => stray.elim fun _ => And.left
  refine ran.mono ?_
  rintro _ _ _ ⟨z, w, reached, rfl, rfl⟩
  exact ⟨{ reached.1 with }, rfl, rfl⟩

/-! ## Executions that differ in what has been written -/

/-- The executions have the same plain bindings and quote the same source, and their sinks take every
write. -/
structure Execution.Matches (x y : Execution) : Prop where
  plain : x.env.Plain
  env : y.env = x.env
  source : y.source = x.source
  limit : x.sink.limit = none
  otherLimit : y.sink.limit = none

/-- A script comes to the same whatever has been written before, and the running source is restored. -/
theorem Script.run_matches (budget : Nat) (script : Script) {x y : Execution} (related : x.Matches y) :
    (script.run budget x).Alike (fun z w => z.Matches w ∧ z.source = x.source) (script.run budget y) := by
  have agrees : x.Agrees (fun _ => True) y x y :=
    ⟨related.plain, fun n _ => by rw [related.env], related.otherLimit.trans related.limit.symm,
      [], (List.append_nil _).symm, (List.append_nil _).symm⟩
  have ran := script.run_agrees budget (fun _ _ => trivial) agrees
  refine ran.mono ?_
  rintro z w reached ⟨agrees, left, right⟩
  have unlimited := script.run_within Sink.unlimited_steady budget x z reached related.limit
  refine ⟨⟨agrees.plain, Table.ext_get? fun n => agrees.names n trivial, ?_, unlimited,
    agrees.limit.trans unlimited⟩, left⟩
  rw [right, left, related.source]

end LoopScript
