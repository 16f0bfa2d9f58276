/-
# LoopScript.Proofs.Eval.Truncation — a sink that fails cuts a run short

Run a script into a sink that takes every write, and again into one that takes some and then fails. Up to
the write that the second sink refuses, the second run is the first with its sink capped
(`Execution.capped`): the two are coupled (`host_capped`), and what is begun in the first is begun in the
second (`During.follows`). The call that makes the next write is where the second run strays. It ends
there, in the middle of the call if need be, and nothing after it is begun (`WritesAt.stops`).

`run_truncated` puts this together. Where no more is written than the second sink takes, the runs come to
the same. Otherwise the second ends in an error at the call, with the lines and the bindings that the
first run had at that moment.
-/
import LoopScript.Proofs.Eval.Coupling
import LoopScript.Proofs.Eval.Innermost
import LoopScript.Proofs.Parser

namespace LoopScript

set_option autoImplicit false

/-! ## Displaying -/

namespace Execution

def writing (x : Execution) (values : List Value) : Execution :=
  { x with sink := { x.sink with written := x.sink.written ++ values.map Value.line } }

/-- The same execution with a sink that has the given limit. -/
def limited (x : Execution) (limit : Sink.Limit) : Execution :=
  { x with sink := { x.sink with limit := some limit } }

/-- The same execution with a sink that takes writes until there are `limit.room` of them in all. -/
def capped (x : Execution) (limit : Sink.Limit) : Execution :=
  x.limited { limit with room := limit.room - x.sink.written.size }

variable (x : Execution) (values : List Value)

theorem writing_toList :
    (x.writing values).sink.written.toList = x.sink.written.toList ++ values.map Value.line :=
  Array.toList_appendList

theorem writing_size : (x.writing values).sink.written.size = x.sink.written.size + values.length := by
  rw [← Array.length_toList, writing_toList, List.length_append, Array.length_toList, List.length_map]

theorem writing_take_size {made : Nat} (short : made < values.length) :
    (x.writing (values.take made)).sink.written.size = x.sink.written.size + made := by
  rw [writing_size, List.length_take, Nat.min_eq_left (Nat.le_of_lt short)]

theorem writing_nil : x.writing [] = x := rfl

theorem writing_cons (v : Value) : x.writing (v :: values) = (x.writing [v]).writing values := rfl

theorem capped_add (limit : Sink.Limit) :
    x.capped { limit with room := x.sink.written.size + limit.room } = x.limited limit := by
  rw [capped, Nat.add_sub_cancel_left]

theorem grows_writing : x.Grows (x.writing values) := ⟨values, x.writing_toList values⟩

theorem writing_outwrites_take {made : Nat} (short : made < values.length) :
    (x.writing values).Outwrites (x.writing (values.take made)) := by
  refine ⟨?_, ?_⟩
  · rw [writing_toList, writing_toList]
    exact (List.prefix_append_right_inj _).mpr ((List.take_prefix _ _).map _)
  · rw [x.writing_take_size values short, writing_size]
    omega

end Execution

namespace Host

theorem display_taken {v : Value} {rest : List Value} {x : Execution} {sink : Sink}
    (wrote : x.sink.write v.line = .ok sink) :
    display (v :: rest) x = display rest { x with sink := sink } := by
  rw [Value.line] at wrote
  simp only [display, wrote]

theorem display_refused {v : Value} {rest : List Value} {x : Execution} {refusal : Failure}
    (wrote : x.sink.write v.line = .error refusal) :
    display (v :: rest) x = .error (refused refusal) x := by
  rw [Value.line] at wrote
  simp only [display, wrote]

theorem display_unlimited : ∀ (values : List Value) {x : Execution}, x.sink.limit = none →
    display values x = .ok .null (x.writing values)
  | [], _, _ => rfl
  | v :: rest, x, unlimited => by
      have wrote : x.sink.write v.line = .ok (x.writing [v]).sink := by
        simp only [Sink.write, Execution.writing, unlimited]
        rfl
      rw [display_taken wrote, x.writing_cons]
      exact display_unlimited rest unlimited

/-- A capped sink takes a line if there are fewer than its limit. -/
theorem write_capped {x : Execution} {limit : Sink.Limit} (v : Value)
    (fits : x.sink.written.size < limit.room) :
    (x.capped limit).sink.write v.line = .ok ((x.writing [v]).capped limit).sink := by
  obtain ⟨room, same⟩ := Nat.exists_eq_add_of_lt fits
  have before : limit.room - x.sink.written.size = room + 1 := by omega
  have after : limit.room - (x.writing [v]).sink.written.size = room := by
    rw [x.writing_size]
    exact Nat.sub_eq_of_eq_add (by simp only [List.length_singleton]; omega)
  rw [Execution.capped, before, Execution.capped, after]
  rfl

theorem display_fits : ∀ (values : List Value) {x : Execution} {limit : Sink.Limit},
    x.sink.written.size + values.length ≤ limit.room →
      display values (x.capped limit) = .ok .null ((x.writing values).capped limit)
  | [], _, _, _ => rfl
  | v :: rest, x, limit, fits => by
      rw [List.length_cons] at fits
      rw [display_taken (write_capped v (by omega)), x.writing_cons rest v]
      refine display_fits (x := x.writing [v]) rest ?_
      rw [x.writing_size, List.length_singleton]
      omega

/-- Displaying more than a capped sink takes fails when the limit is reached. -/
theorem display_overruns : ∀ (values : List Value) {x : Execution} {limit : Sink.Limit} {made : Nat},
    made < values.length → x.sink.written.size + made = limit.room →
      display values (x.capped limit) =
        .error (refused limit.refusal) ((x.writing (values.take made)).capped limit)
  | [], _, _, _, more, _ => absurd more (Nat.not_lt_zero _)
  | v :: rest, x, limit, 0, _, full => by
      have wrote : (x.capped limit).sink.write v.line = .error limit.refusal := by
        have spent : limit.room - x.sink.written.size = 0 := by omega
        rw [Execution.capped, spent]
        rfl
      rw [display_refused wrote, List.take_zero, x.writing_nil]
  | v :: rest, x, limit, made + 1, more, reached => by
      rw [display_taken (write_capped v (by omega)), List.take_succ_cons,
        x.writing_cons (rest.take made) v]
      refine display_overruns (x := x.writing [v]) rest (Nat.lt_of_succ_lt_succ more) ?_
      rw [x.writing_size, List.length_singleton]
      omega

end Host

/-! ## Side by side, from the inside -/

/-- Where the first run completes, the second completes with the same value, unless it strays. -/
theorem Outcome.Follows.of_ok {ε α : Type} {R : Execution → Execution → Prop}
    {strays : ε → Execution → Prop} {left right : Outcome ε α} {a : α} {z : Execution}
    (follows : left.Follows R strays right) (ended : left = .ok a z) :
    (∃ w, right = .ok a w ∧ R z w) ∨ ∃ e w, strays e w ∧ z.Outwrites w := by
  subst ended
  cases follows with
  | alike same =>
      cases same with
      | ok related => exact .inl ⟨_, rfl, related⟩
  | strays stray more => exact .inr ⟨_, _, stray, more z rfl⟩

namespace Eval

section

variable {host : Host} {budget : Nat} {mentioned : Text → Prop} {R : Execution → Execution → Prop}
  {strays : Task → Execution → RuntimeError → Execution → Prop} {t u v : Task} {x x' y z : Execution}
variable (coupling : Coupling host budget mentioned R strays)
include coupling

/-- A task that is begun once another has completed is begun in the second run as in the first. -/
theorem Begins.follows_after {α : Type} {a : α} {left right : Outcome RuntimeError α}
    (earlier : Begins host budget t x u x') (follows : left.Follows R (strays u x') right)
    (ended : left = .ok a z) (begins : ∀ w, right = .ok a w → Begins host budget t y v w) :
    (∃ w, Begins host budget t y v w ∧ R z w) ∨ ∃ e w, strays t x e w ∧ z.Outwrites w := by
  rcases follows.of_ok ended with ⟨w, same, related⟩ | ⟨e, w, stray, more⟩
  · exact .inl ⟨w, begins w same, related⟩
  · exact .inr ⟨e, w, coupling.inner earlier stray, more⟩

variable (tame : host.Tame True) (all : ∀ n, mentioned n)

include tame all in
/-- What a task begins in the first run it begins in the second, unless that has strayed before. -/
theorem Begins.follows (begins : Begins host budget t x u x') (related : R x y) :
    (∃ y', Begins host budget t y u y' ∧ R x' y') ∨ ∃ e w, strays t x e w ∧ x'.Outwrites w := by
  have known : ∀ (names : List Text), ∀ n ∈ names, mentioned n := fun _ n _ => all n
  cases begins with
  | arguments => exact .inl ⟨y, .arguments, related⟩
  | left evaluated => exact .inl ⟨y, .left evaluated, related⟩
  | first => exact .inl ⟨y, .first, related⟩
  | value => exact .inl ⟨y, .value, related⟩
  | call => exact .inl ⟨y, .call, related⟩
  | block => exact .inl ⟨y, .block, related⟩
  | condition => exact .inl ⟨y, .condition, related⟩
  | body => exact .inl ⟨y, .body, related⟩
  | other => exact .inl ⟨y, .other, related⟩
  | head => exact .inl ⟨y, .head, related⟩
  | right evaluated ended =>
      exact follows_after coupling (.left evaluated) (expr_follows coupling _ (known _) related) ended
        fun _ => .right evaluated
  | next ended =>
      exact follows_after coupling .first (expr_follows coupling _ (known _) related) ended
        fun _ => .next
  | enter tested =>
      exact follows_after coupling .condition (test_follows coupling _ _ (known _) related) tested
        fun _ => .enter
  | alternative tested =>
      exact follows_after coupling .condition (test_follows coupling _ _ (known _) related) tested
        fun _ => .alternative
  | again passed =>
      exact follows_after coupling .body (stmts_follow coupling tame _ (known _) related) passed
        fun _ => .again
  | another passed tested =>
      rcases (stmts_follow coupling tame _ (known _) related).of_ok passed with
        ⟨z, same, between⟩ | ⟨e, w, stray, more⟩
      · exact follows_after coupling (.again passed) (test_follows coupling _ _ (known _) between) tested
          fun _ => .another same
      · have grows := (test_within Execution.grows_steady coupling.grows _ _).of_ok tested
        exact .inr ⟨e, w, coupling.inner .body stray, more.grows grows⟩
  | tail ended =>
      exact follows_after coupling .head (stmt_follows coupling tame _ (known _) related) ended
        fun _ => .tail

theorem During.stray {e : RuntimeError} {w : Execution} (during : During host budget t x u x')
    (stray : strays u x' e w) : strays t x e w := by
  induction during with
  | itself => exact stray
  | inner _ begins ih => exact ih (coupling.inner begins stray)

include tame all in
/-- What is begun during the first run is begun during the second, unless that has strayed before. -/
theorem During.follows (during : During host budget t x u x') (related : R x y) :
    (∃ y', During host budget t y u y' ∧ R x' y') ∨ ∃ e w, strays t x e w ∧ x'.Outwrites w := by
  induction during with
  | itself => exact .inl ⟨y, .itself, related⟩
  | inner during begins ih =>
      rcases ih with ⟨z, same, between⟩ | ⟨e, w, stray, more⟩
      · rcases begins.follows coupling tame all between with
          ⟨y', sameToo, after⟩ | ⟨e, w, stray, more⟩
        · exact .inl ⟨y', .inner same sameToo, after⟩
        · exact .inr ⟨e, w, during.stray coupling stray, more⟩
      · exact .inr ⟨e, w, stray, more.grows (begins.within Execution.grows_steady coupling.grows)⟩

end

end Eval

/-! ## The capped run -/

/-- While the task is run a call at `pos`, of a function that displays, writes a line; `moment` is the
execution right before, when `made` of the arguments have been written. -/
inductive Eval.WritesAt (host : Host) (budget : Nat) (t : Task) (x : Execution) (pos : Position) :
    Execution → Prop where
  | call {callee : Text} {args : List Expr} {values : List Value} {f : Function} {z w : Execution}
      {made : Nat} :
      During host budget t x (.expr (.call callee args pos)) z → exprs host args z = .ok values w →
      w.env.lookupFunction callee = .ok f → f.action = .display →
      host f values w = .ok .null (w.writing values) → made < values.length →
      WritesAt host budget t x pos (w.writing (values.take made))

/-- The second execution is the first with its sink capped, and the limit has not been passed. -/
structure Execution.Capped (limit : Sink.Limit) (x y : Execution) : Prop where
  plain : x.env.Plain
  unlimited : x.sink.limit = none
  fits : x.sink.written.size ≤ limit.room
  eq : y = x.capped limit

theorem Execution.Capped.limited {x : Execution} (plain : x.env.Plain) (unlimited : x.sink.limit = none)
    (limit : Sink.Limit) (source : Option Text) :
    ({ x with source := source } : Execution).Capped
      { limit with room := x.sink.written.size + limit.room } { x.limited limit with source := source } :=
  ⟨plain, unlimited, Nat.le_add_right .., by rw [← x.capped_add]; rfl⟩

namespace Eval

/-- A run into a capped sink strays where it is full and another line is written. -/
def Overruns (host : Host) (budget : Nat) (limit : Sink.Limit) (t : Task) (x : Execution)
    (_ : RuntimeError) (y : Execution) : Prop :=
  y.sink.written.size = limit.room ∧
    ∃ pos moment, WritesAt host budget t x pos moment ∧ moment.sink.written.size = limit.room

theorem WritesAt.inner {host : Host} {budget : Nat} {t u : Task} {x y moment : Execution}
    {pos : Position} (begins : Begins host budget t x u y) (writes : WritesAt host budget u y pos moment) :
    WritesAt host budget t x pos moment := by
  cases writes with
  | call during evaluated found displays displayed more =>
      exact .call (During.trans (.inner .itself begins) during) evaluated found displays displayed more

end Eval

/-- Capping the sink makes no difference to a run until it is full. -/
theorem Host.host_capped (budget : Nat) (limit : Sink.Limit) :
    Coupling (LoopScript.host budget) budget (fun _ => True) (Execution.Capped limit)
      (Eval.Overruns (LoopScript.host budget) budget limit) where
  plain related := related.plain
  looks related n _ := by rw [related.eq]; rfl
  source related := by rw [related.eq]; rfl
  binds related n v _ value :=
    ⟨related.plain.insert n value, related.unlimited, related.fits, by rw [related.eq]; rfl⟩
  grows := host_within Execution.grows_steady budget
  calls {x y z callee args values pos f} evaluated found displays related := by
    obtain ⟨plain, unlimited, fits, rfl⟩ := related
    cases budget with
    | zero => exact .alike .exhausted
    | succ budget =>
        have displayed := display_unlimited values unlimited
        rw [host_display displays, Run.placedAt, displayed]
        by_cases more : y.sink.written.size + values.length ≤ limit.room
        · rw [Run.placedAt, display_fits values more]
          refine .alike (.ok ⟨plain, unlimited, ?_, rfl⟩)
          rwa [y.writing_size]
        · have reached : y.sink.written.size + (limit.room - y.sink.written.size) = limit.room := by omega
          have short : limit.room - y.sink.written.size < values.length := by omega
          have full := (y.writing_take_size values short).trans reached
          rw [Run.placedAt, display_overruns values short reached]
          refine .strays ⟨full, pos, _, .call .itself evaluated found displays ?_ short, full⟩ ?_
          · rw [host_display displays, displayed]
          · rintro _ rfl
            exact y.writing_outwrites_take values short
  inner begins stray := by
    obtain ⟨full, pos, moment, writes, reached⟩ := stray
    exact ⟨full, pos, moment, writes.inner begins, reached⟩

namespace Eval

variable {budget : Nat} {limit : Sink.Limit} {t : Task} {x y moment : Execution} {pos : Position}

theorem WritesAt.grows (writes : WritesAt (host budget) budget t x pos moment) : x.Grows moment := by
  have steady := Execution.grows_steady
  have calls := Host.host_within steady budget
  cases writes with
  | call during evaluated =>
      exact steady.trans (during.within steady calls)
        (steady.trans ((exprs_within steady calls _).of_ok evaluated) (Execution.grows_writing _ _))

/-- A run into a capped sink ends at the write that the sink refuses. -/
theorem WritesAt.stops (writes : WritesAt (host budget) budget t x pos moment)
    (full : moment.sink.written.size = limit.room) (related : x.Capped limit y) :
    t.outcome (host budget) budget y =
      .error ⟨.host .other (Host.refused limit.refusal).message, pos, moment.frameAt pos⟩
        (moment.capped limit) := by
  have coupling := Host.host_capped budget limit
  cases writes with
  | @call callee args values f z w made during evaluated found displays displayed more =>
      -- The second run has not strayed before: it would have stopped with as many lines as there are now.
      have notBefore : ∀ {u v e x'}, Overruns (host budget) budget limit u v e x' →
          ¬ w.Outwrites x' := by
        intro u v e x' stray longer
        have := (w.grows_writing (values.take made)).size_le
        have := longer.2
        have := stray.1
        omega
      have grows := (exprs_within Execution.grows_steady coupling.grows args).of_ok evaluated
      obtain ⟨z', begun, between⟩ :=
        (during.follows coupling (Host.host_tame_spent budget) (fun _ => trivial) related).resolve_right
          fun ⟨_, _, stray, longer⟩ => notBefore stray (longer.grows grows)
      obtain ⟨w', same, after⟩ :=
        ((exprs_follow coupling args (fun _ _ => trivial) between).of_ok evaluated).resolve_right
          fun ⟨_, _, stray, longer⟩ => notBefore stray longer
      have reached : w.sink.written.size + made = limit.room :=
        (w.writing_take_size values more).symm.trans full
      refine begun.fails (Outcome.ending_eq_error.mpr ?_)
      have foundToo : (w.capped limit).env.lookupFunction callee = .ok f := found
      rw [expr, Run.bind_of_ok same, after.eq, invoke, foundToo]
      cases budget with
      | zero => cases displayed
      | succ budget =>
          simp only [Run.placedAt, Host.host_display displays, Host.display_overruns values more reached,
            Outcome.mapError, Host.place_refused limit.ordinary]
          rfl

end Eval

namespace Script

/-- While the script is run in `x` a call at `pos` writes a line; `moment` is the execution right
before. -/
def WritesAt (budget : Nat) (script : Script) (x : Execution) (pos : Position) (moment : Execution) :
    Prop :=
  Eval.WritesAt (host budget) budget (.stmts script.program) { x with source := some script.source } pos
    moment

/-- The second run comes to the same as the first, with no more lines than its sink takes, or it ends when
the sink is full and a call of the first run writes another line. -/
theorem run_limited_follows (budget : Nat) (limit : Sink.Limit) (script : Script) {x : Execution}
    (plain : x.env.Plain) (unlimited : x.sink.limit = none) :
    (script.run budget x).Follows
      (fun z w => z.sink.written.size ≤ x.sink.written.size + limit.room ∧ w.env = z.env ∧
        w.sink.written = z.sink.written)
      (fun _ w => w.sink.written.size = x.sink.written.size + limit.room ∧ ∃ pos moment,
        script.WritesAt budget x pos moment ∧ moment.sink.written.size = x.sink.written.size + limit.room)
      (script.run budget (x.limited limit)) := by
  have ran := script.runWith_follows
    (Host.host_capped budget { limit with room := x.sink.written.size + limit.room })
    (Host.host_tame_spent budget) (fun _ _ => trivial) (.limited plain unlimited limit _)
  rw [run]
  generalize script.runWith (host budget) budget (x.limited limit) = right at ran
  cases ran with
  | alike same =>
      refine .alike (same.mono ?_)
      rintro _ _ _ ⟨z, w, related, rfl, rfl⟩
      exact ⟨related.fits, by rw [related.eq]; rfl, by rw [related.eq]; rfl⟩
  | strays stray more =>
      obtain ⟨w, ⟨full, overrun⟩, rfl⟩ := stray
      exact .strays ⟨full, overrun⟩ more

/-- **A sink that fails only cuts a run short.** Run a script in an execution in which the only functions
are those that display: once with a sink that takes every write, and once with a sink that takes as many
more as the limit says and refuses all after them, with whatever error of its own.

If the first run ends and has made at most so many writes, the second comes to the same, with the same
bindings and the same output. If it has made more, there is a call that makes the next write.

Whenever there is such a call, whether the first run ends or not, the second run ends in a run-time error
at the call, which says what the sink says. It has written exactly that many lines, each a value and a
newline, and its bindings are those of the first run at that moment. -/
theorem run_truncated (budget : Nat) (limit : Sink.Limit) (script : Script) {x : Execution}
    (plain : x.env.Plain) (unlimited : x.sink.limit = none) :
    (∀ y, (script.run budget x).Reaches y → y.sink.written.size ≤ x.sink.written.size + limit.room →
      (script.run budget x).Alike (fun z w => w.env = z.env ∧ w.sink.written = z.sink.written)
        (script.run budget (x.limited limit))) ∧
    (∀ y, (script.run budget x).Reaches y → x.sink.written.size + limit.room < y.sink.written.size →
      ∃ pos moment, script.WritesAt budget x pos moment ∧
        moment.sink.written.size = x.sink.written.size + limit.room) ∧
    ∀ pos moment, script.WritesAt budget x pos moment →
      moment.sink.written.size = x.sink.written.size + limit.room →
      ∃ e y, script.run budget (x.limited limit) = .error e y ∧
        e.kind.label = utf8 "RuntimeError" ∧ e.detail = utf8 "DISPLAY: " ++ limit.refusal.message ∧
        e.pos = pos ∧ y.env = moment.env ∧ y.sink.written = moment.sink.written ∧
        (∃ values : List Value, values.length = limit.room ∧
          y.sink.written.toList = x.sink.written.toList ++ values.map Value.line) ∧
        ∀ z, (script.run budget x).Reaches z → y.sink.written.toList <+: z.sink.written.toList := by
  have follows := script.run_limited_follows budget limit plain unlimited
  refine ⟨fun y reached few => ?_, fun y reached many => ?_, fun pos moment writes full => ?_⟩
  · generalize script.run budget (x.limited limit) = right at follows
    cases follows with
    | alike same => exact same.mono fun _ _ _ related => related.2
    | strays stray more =>
        have := (more y reached).2
        have := stray.1
        omega
  · generalize script.run budget (x.limited limit) = right at follows
    cases follows with
    | alike same =>
        obtain ⟨w, -, few, -⟩ := same.reaches reached
        omega
    | strays stray => exact stray.2
  · have stopped := Outcome.ending_eq_error.mp (writes.stops full (.limited plain unlimited limit _))
    have ended : script.run budget (x.limited limit) =
        .error ⟨.host .other (Host.refused limit.refusal).message, pos, moment.frameAt pos⟩
          { moment.capped { limit with room := x.sink.written.size + limit.room } with
            source := x.source } := by
      rw [run, runWith, stopped]
      rfl
    refine ⟨_, _, ended, rfl, rfl, rfl, rfl, rfl, ?_, fun z reached => ?_⟩
    · obtain ⟨values, lines⟩ := writes.grows
      have longer := congrArg List.length lines
      rw [List.length_append, Array.length_toList, Array.length_toList, List.length_map, full] at longer
      exact ⟨values, (Nat.add_left_cancel longer).symm, lines⟩
    · rw [ended] at follows
      cases follows with
      | alike same =>
          obtain ⟨w, there, -, -, written⟩ := same.reaches reached
          cases there
          exact written ▸ List.prefix_rfl
      | strays _ more => exact (more z reached).1

/-- A loop that displays two values in every pass, through a variable that holds the function. -/
def displayingLoop : Text := utf8 "f = DISPLAY a = 0 while a < 2 \x7b f(a, \"x\") a = a + 1 \x7d"

/-- An execution in which only the function that displays is bound, and nothing is written yet. -/
def freshExecution : Execution := Engine.initial.newExecution (.empty none)

def diskFull (room : Nat) : Sink.Limit :=
  ⟨room, .wrapped (utf8 "write out.txt: no space left on device") (.plain (utf8 "no space left on device")),
    rfl⟩

/-- The loop displays four values, and so it does with room for four lines. With room for three it is cut
short in its second pass, between the two values of the call. -/
theorem run_truncated_within_call :
    ∃ (script : Script) (z w moment y : Execution) (e : RuntimeError),
      Script.compile displayingLoop = .ok script ∧
      script.run 3 freshExecution = .ok () z ∧ z.sink.contents = utf8 "0\nx\n1\nx\n" ∧
      script.run 3 (freshExecution.limited (diskFull 4)) = .ok () w ∧ w.env = z.env ∧
      w.sink.contents = z.sink.contents ∧
      script.WritesAt 3 freshExecution e.pos moment ∧
      script.run 3 (freshExecution.limited (diskFull 3)) = .error e y ∧ e.kind.label = utf8 "RuntimeError" ∧
      e.detail = utf8 "DISPLAY: write out.txt: no space left on device" ∧ e.pos = ⟨1, 33⟩ ∧
      y.sink.contents = utf8 "0\nx\n1\n" ∧ y.env = moment.env ∧
      (y.env.get? (utf8 "a")).map Value.render = some (utf8 "1") := by
  have computed : ((Script.compile displayingLoop).toOption.any fun script =>
      ((script.run 3 freshExecution).completed.any fun ended =>
        decide (ended.2.sink.contents = utf8 "0\nx\n1\nx\n" ∧ ended.2.sink.written.size = 4)) &&
      (script.run 3 (freshExecution.limited (diskFull 3))).failed.any fun ended =>
        decide (ended.1.pos = ⟨1, 33⟩ ∧ ended.2.sink.contents = utf8 "0\nx\n1\n" ∧
          (ended.2.env.get? (utf8 "a")).map Value.render = some (utf8 "1"))) = true := by
    decide +kernel
  obtain ⟨script, found, checked⟩ := (Option.any_eq_true _ _).mp computed
  obtain ⟨completes, fails⟩ := Bool.and_eq_true_iff.mp checked
  obtain ⟨⟨⟨⟩, z⟩, completed, shown⟩ := (Option.any_eq_true _ _).mp completes
  obtain ⟨⟨e, y⟩, failed, shownToo⟩ := (Option.any_eq_true _ _).mp fails
  obtain ⟨contents, four⟩ := of_decide_eq_true shown
  obtain ⟨place, cut, bound⟩ := of_decide_eq_true shownToo
  have ran := Outcome.completed_eq_some.mp completed
  have reached : (script.run 3 freshExecution).Reaches z := by rw [ran]; rfl
  have alike := (run_truncated 3 (diskFull 4) script Env.Plain.initial rfl).1 z reached (Nat.le_of_eq four)
  rw [ran] at alike
  generalize whole : script.run 3 (freshExecution.limited (diskFull 4)) = right at alike
  obtain ⟨-, overruns, stops⟩ :=
    run_truncated 3 (diskFull 3) script (x := freshExecution) Env.Plain.initial rfl
  obtain ⟨pos, moment, writes, full⟩ := overruns z reached (four ▸ Nat.lt_succ_self 3)
  obtain ⟨_, _, stopped, label, detail, rfl, env, -⟩ := stops pos moment writes full
  cases stopped.symm.trans (Outcome.failed_eq_some.mp failed)
  cases alike with
  | @ok _ _ w same =>
      exact ⟨script, z, w, moment, y, e, toOption_compile.mp found, ran, contents, whole, same.1,
        congrArg (List.flatten ∘ Array.toList) same.2, writes, stopped, label, detail, place, cut, env,
        bound⟩

end Script

end LoopScript
