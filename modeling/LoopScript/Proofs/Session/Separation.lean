/-
# LoopScript.Proofs.Session.Separation — every execution has a table of its own

All bindings of a session are in one heap, so what keeps the executions apart is that no two holders have
one address: the engine, the executions and the copies that were handed out (`Separated`). This is so in
the beginning (`start_separated`), a new execution gets an address of its own (`enter_enters`), and handing
out copies and writing to them makes no difference to anything else (`Keeps`).
-/
import LoopScript.Session

namespace LoopScript

set_option autoImplicit false

namespace Session

/-- The bindings of an execution, if it is made. -/
def bindings (s : Session) (id : Text) : Option Env := (s.executions.get? id).map s.heap.read

variable {s t next : Session} {id : Text} {execution : Option Text} {a : Heap.Address}

/-! ## Addresses -/

/-- The address of a table that is neither the engine's nor a copy. -/
structure Reserved (s : Session) (a : Heap.Address) : Prop where
  held : a < s.heap.size
  ne_builtins : a ≠ s.builtins
  not_copy : a ∉ s.copies

/-- Nobody else holds an address that the engine or an execution holds. -/
structure Separated (s : Session) : Prop where
  builtins : s.builtins < s.heap.size
  not_copy : s.builtins ∉ s.copies
  copies : ∀ c ∈ s.copies, c < s.heap.size
  reserved : ∀ {id a}, s.executions.get? id = some a → s.Reserved a
  apart : ∀ {id id' a}, s.executions.get? id = some a → s.executions.get? id' = some a → id = id'

theorem start_separated (engine : Engine) (room : Option Nat) : (start engine room).Separated where
  builtins := Nat.one_pos
  not_copy := Array.not_mem_empty 0
  copies _ handed := absurd handed (Array.not_mem_empty _)
  reserved found := by
    rw [start, Table.get?_empty] at found
    cases found
  apart found := by
    rw [start, Table.get?_empty] at found
    cases found

/-- The executions and the engine keep their addresses, and only new tables are handed out. -/
structure Extends (s next : Session) : Prop where
  executions : next.executions = s.executions
  builtins : next.builtins = s.builtins
  size : s.heap.size ≤ next.heap.size
  copies : ∀ c ∈ next.copies, c ∈ s.copies ∨ s.heap.size ≤ c ∧ c < next.heap.size

namespace Extends

theorem not_copy (more : s.Extends next) (held : a < s.heap.size) (notCopy : a ∉ s.copies) :
    a ∉ next.copies := by
  intro handed
  rcases more.copies a handed with before | ⟨new, -⟩
  · exact notCopy before
  · exact Nat.not_le.mpr held new

theorem trans {u : Session} (first : s.Extends t) (second : t.Extends u) : s.Extends u where
  executions := second.executions.trans first.executions
  builtins := second.builtins.trans first.builtins
  size := Nat.le_trans first.size second.size
  copies c handed := by
    rcases second.copies c handed with before | ⟨new, held⟩
    · rcases first.copies c before with older | ⟨new, held⟩
      · exact .inl older
      · exact .inr ⟨new, Nat.lt_of_lt_of_le held second.size⟩
    · exact .inr ⟨Nat.le_trans first.size new, held⟩

theorem reserved (more : s.Extends next) (reserved : s.Reserved a) : next.Reserved a where
  held := Nat.lt_of_lt_of_le reserved.held more.size
  ne_builtins := more.builtins ▸ reserved.ne_builtins
  not_copy := more.not_copy reserved.held reserved.not_copy

theorem separated (more : s.Extends next) (separated : s.Separated) : next.Separated where
  builtins := more.builtins ▸ Nat.lt_of_lt_of_le separated.builtins more.size
  not_copy := more.builtins ▸ more.not_copy separated.builtins separated.not_copy
  copies c handed := by
    rcases more.copies c handed with before | ⟨-, held⟩
    · exact Nat.lt_of_lt_of_le (separated.copies c before) more.size
    · exact held
  reserved found := more.reserved (separated.reserved (more.executions ▸ found))
  apart found other := separated.apart (more.executions ▸ found) (more.executions ▸ other)

end Extends

/-! ## Making an execution -/

theorem newExecution_get? (s : Session) (execution : Option Text) (id : Text) :
    (s.newExecution execution).2.executions.get? id =
      if execution = some id then some s.heap.size else s.executions.get? id := by
  cases execution with
  | none => rfl
  | some key =>
      rw [newExecution, Table.get?_insert]
      simp only [Option.some.injEq, eq_comm, Heap.alloc_fst]

theorem newExecution_size : (s.newExecution execution).2.heap.size = s.heap.size + 1 :=
  Heap.size_alloc

theorem newExecution_read (held : a < s.heap.size) :
    (s.newExecution execution).2.heap.read a = s.heap.read a :=
  Heap.read_alloc_of_lt held

/-- The table of a new execution is its own. -/
theorem newExecution_reserved (separated : s.Separated) :
    (s.newExecution execution).2.Reserved s.heap.size where
  held := newExecution_size ▸ Nat.lt_succ_self _
  ne_builtins := Nat.ne_of_gt separated.builtins
  not_copy handed := Nat.lt_irrefl _ (separated.copies _ handed)

theorem newExecution_separated (separated : s.Separated) :
    (s.newExecution execution).2.Separated where
  builtins := newExecution_size ▸ Nat.lt_succ_of_lt separated.builtins
  not_copy := separated.not_copy
  copies c handed := newExecution_size ▸ Nat.lt_succ_of_lt (separated.copies c handed)
  reserved {id a} found := by
    rw [newExecution_get?] at found
    split at found
    · cases found
      exact newExecution_reserved separated
    · obtain ⟨held, notBuiltins, notCopy⟩ := separated.reserved found
      exact ⟨newExecution_size ▸ Nat.lt_succ_of_lt held, notBuiltins, notCopy⟩
  apart {id id' a} found other := by
    rw [newExecution_get?] at found other
    split at found <;> split at other
    · next first second => exact Option.some.inj (first.symm.trans second)
    · cases found
      exact absurd (separated.reserved other).held (Nat.lt_irrefl _)
    · cases other
      exact absurd (separated.reserved found).held (Nat.lt_irrefl _)
    · exact separated.apart found other

/-- What a step finds when it has entered: the execution that it names, or a fresh one, and everything
else as it was. -/
structure Enters (s : Session) (execution : Option Text) (a : Heap.Address) (next : Session) : Prop where
  separated : next.Separated
  reserved : next.Reserved a
  scripts : next.scripts = s.scripts
  sink : next.sink = s.sink
  engine : next.engine = s.engine
  own : ∀ id, execution = some id → next.executions.get? id = some a ∧
    next.heap.read a = (s.bindings id).getD s.engine.builtins
  others : ∀ id, execution ≠ some id → next.bindings id = s.bindings id ∧
    next.executions.get? id ≠ some a

theorem enters_of_get? (separated : s.Separated) (found : s.executions.get? id = some a) :
    Enters s (some id) a s where
  separated := separated
  reserved := separated.reserved found
  scripts := rfl
  sink := rfl
  engine := rfl
  own key named := by
    cases named
    exact ⟨found, by rw [bindings, found]; rfl⟩
  others key other := ⟨rfl, fun same => other (congrArg some (separated.apart found same))⟩

theorem enters_newExecution (separated : s.Separated)
    (absent : ∀ id, execution = some id → s.executions.get? id = none) :
    Enters s execution s.heap.size (s.newExecution execution).2 where
  separated := newExecution_separated separated
  reserved := newExecution_reserved separated
  scripts := rfl
  sink := rfl
  engine := congrArg (Engine.mk · s.next) (newExecution_read separated.builtins)
  own id named := by
    refine ⟨by rw [newExecution_get?, if_pos named], ?_⟩
    rw [bindings, absent id named]
    exact Heap.read_alloc_self
  others id other := by
    have same : (s.newExecution execution).2.executions.get? id = s.executions.get? id := by
      rw [newExecution_get?, if_neg other]
    rw [bindings, bindings, same]
    refine ⟨Option.map_congr fun a found => newExecution_read (separated.reserved found).held, ?_⟩
    exact fun found => Nat.lt_irrefl _ (separated.reserved found).held

theorem enter_enters (separated : s.Separated) (execution : Option Text) :
    Enters s execution (s.enter execution).1 (s.enter execution).2 := by
  rw [enter]
  cases execution with
  | none => exact enters_newExecution separated fun _ named => nomatch named
  | some id =>
      rw [Option.bind_some]
      cases found : s.executions.get? id with
      | some a => exact enters_of_get? separated found
      | none =>
          refine enters_newExecution separated fun key named => ?_
          cases named
          exact found

/-! ## Handing out copies -/

/-- Only tables that were handed out before, or are new, may be different. -/
structure Keeps (s next : Session) : Prop extends Extends s next where
  reads : ∀ a < s.heap.size, a ∉ s.copies → next.heap.read a = s.heap.read a
  identity : next.next = s.next
  sink : next.sink = s.sink
  scripts : next.scripts = s.scripts

namespace Keeps

theorem refl (s : Session) : s.Keeps s where
  executions := rfl
  builtins := rfl
  size := Nat.le_refl _
  copies _ handed := .inl handed
  reads _ _ _ := rfl
  identity := rfl
  sink := rfl
  scripts := rfl

theorem trans {u : Session} (first : s.Keeps t) (second : t.Keeps u) : s.Keeps u where
  toExtends := first.toExtends.trans second.toExtends
  reads a held notCopy :=
    (second.reads a (Nat.lt_of_lt_of_le held first.size) (first.not_copy held notCopy)).trans
      (first.reads a held notCopy)
  identity := second.identity.trans first.identity
  sink := second.sink.trans first.sink
  scripts := second.scripts.trans first.scripts

theorem engine (keeps : s.Keeps next) (separated : s.Separated) : next.engine = s.engine := by
  rw [Session.engine, keeps.builtins, keeps.identity,
    keeps.reads s.builtins separated.builtins separated.not_copy, Session.engine]

end Keeps

theorem handOut_keeps (s : Session) (a : Heap.Address) : s.Keeps (s.handOut a).2 where
  executions := rfl
  builtins := rfl
  size := Heap.size_alloc ▸ Nat.le_succ _
  copies c handed := by
    rcases Array.mem_push.mp handed with before | rfl
    · exact .inl before
    · exact .inr ⟨Nat.le_refl _, Heap.size_alloc ▸ Nat.lt_succ_self _⟩
  reads _ held _ := Heap.read_alloc_of_lt held
  identity := rfl
  sink := rfl
  scripts := rfl

/-- The copy that is handed out has the bindings of the table. -/
theorem handOut_read (s : Session) (a : Heap.Address) :
    (s.handOut a).2.heap.read (s.handOut a).1 = s.heap.read a :=
  Heap.read_alloc_self

/-- Whatever is put into a copy, it is only there. -/
theorem write_copy_keeps {c : Heap.Address} (handed : c ∈ s.copies) (contents : Env) :
    s.Keeps { s with heap := s.heap.write c contents } where
  executions := rfl
  builtins := rfl
  size := Nat.le_of_eq Heap.size_write.symm
  copies _ before := .inl before
  reads _ _ notCopy := Heap.read_write_ne fun same => notCopy (same ▸ handed)
  identity := rfl
  sink := rfl
  scripts := rfl

theorem scribble_keeps (s : Session) (a : Heap.Address) (name : Text) : s.Keeps (s.scribble a name) :=
  (s.handOut_keeps a).trans (write_copy_keeps (Array.mem_push_self) _)

theorem editCopies_keeps (s : Session) (a : Heap.Address) (name : Text) :
    s.Keeps (((s.scribble a name).scribble a name).scribble s.builtins name) :=
  ((s.scribble_keeps a name).trans (scribble_keeps _ a name)).trans
    (scribble_keeps _ s.builtins name)

end Session

end LoopScript
