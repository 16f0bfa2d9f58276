/-
# LoopScript.Proofs.Console.Account — no submitted line is lost, and the bindings are those of a replay

A session goes through `Step`s, one for each event. What a step does is read off the session before and
after it: the line it submits, the sources that it adds to the transcript, the block that it drops. So
each step gives a list of `Fate`s, which say what has become of lines submitted by then: they have been run
as one source, or dropped with an open block, or they were blank lines and commands.

The fates of all steps, in order, and the open block are the lines submitted, in order
(`course_accounts`), and each fate is a proper one (`Fate.Proper`). The sources run since the last reset,
replayed one after the other in a fresh execution, leave the bindings of the session (`course_replays`):
in a session each source writes to a sink of its own, but what has been written makes no difference.

`Turn` says once what a step can do, and `update_turn` shows it of the session. Everything else is read
off the cases of `Turn`.
-/
import LoopScript.Proofs.Console.Invariant
import LoopScript.Proofs.Eval.Coupling

namespace LoopScript

set_option autoImplicit false

/-! ## Replaying sources -/

/-- Compile sources one after the other, and run those that compile in one execution. Errors are passed
over; there is no execution reached if a run spends the budget. -/
def replay (budget : Nat) : Execution → List Text → Option Execution
  | x, [] => some x
  | x, source :: rest =>
      match Script.compile source with
      | .error _ => replay budget x rest
      | .ok script =>
          match script.run budget x with
          | .ok _ y => replay budget y rest
          | .error _ y => replay budget y rest
          | .exhausted => none

theorem replay_append (budget : Nat) (more : List Text) : ∀ (sources : List Text) (x : Execution),
    replay budget x (sources ++ more) = (replay budget x sources).bind fun y => replay budget y more
  | [], x => rfl
  | source :: rest, x => by
      simp only [List.cons_append, replay]
      cases Script.compile source with
      | error ds => exact replay_append budget more rest x
      | ok script =>
          dsimp only
          cases script.run budget x with
          | ok _ y => exact replay_append budget more rest y
          | error _ y => exact replay_append budget more rest y
          | exhausted => rfl

/-- A source leaves the same bindings whatever has been written before it. -/
theorem replay_matches {budget : Nat} {source : Text} {x x' y : Execution} (related : x.Matches y)
    (ran : replay budget x [source] = some x') :
    ∃ y', replay budget y [source] = some y' ∧ x'.Matches y' ∧ x'.source = x.source := by
  simp only [replay] at ran ⊢
  cases compiled : Script.compile source with
  | error ds =>
      rw [compiled] at ran
      cases ran
      exact ⟨y, rfl, related, rfl⟩
  | ok script =>
      rw [compiled] at ran
      dsimp only at ran ⊢
      have alike := script.run_matches budget related
      generalize script.run budget x = left at alike ran
      generalize script.run budget y = right at alike
      cases alike with
      | ok reached =>
          cases ran
          exact ⟨_, rfl, reached.1, reached.2⟩
      | error reached =>
          cases ran
          exact ⟨_, rfl, reached.1, reached.2⟩
      | exhausted => cases ran

namespace Console

/-! ## What becomes of submitted lines -/

/-- A line that has been submitted, and whether no block was open then. -/
structure Submission where
  line : Text
  fresh : Bool
deriving DecidableEq, Repr

/-- The lines of a block as they are submitted: one is open for all but the first. -/
def opened : List Text → List Submission
  | [] => []
  | first :: rest => ⟨first, true⟩ :: rest.map fun line => ⟨line, false⟩

/-- What has become of submitted lines. -/
inductive Fate where
  | ran (lines : List Text)
  | dropped (lines : List Text)
  | blank (line : Text)
  | command (line : Text)
deriving DecidableEq, Repr

/-- The lines make up a block: the first is neither blank nor a command, and braces are open behind each
line but the last. -/
structure IsBlock (lines : List Text) : Prop where
  first : ∃ line ∈ lines.head?, Text.trim line ≠ [] ∧ isCommand (Text.trim line) = false
  opens : ∀ n, 0 < n → n < lines.length → 0 < Token.openBraces (Text.joinLines (lines.take n))

namespace Fate

def submissions : Fate → List Submission
  | .ran lines => opened lines
  | .dropped lines => opened lines
  | .blank line => [⟨line, true⟩]
  | .command line => [⟨line, true⟩]

/-- A block is run once its braces are closed and dropped only before. -/
def Proper : Fate → Prop
  | .ran lines => IsBlock lines ∧ Token.openBraces (Text.joinLines lines) ≤ 0
  | .dropped lines => IsBlock lines ∧ 0 < Token.openBraces (Text.joinLines lines)
  | .blank line => Text.trim line = []
  | .command line => isCommand (Text.trim line) = true

/-- The line is the command that takes all bindings back but those of the engine. -/
def Resets (line : Text) : Prop := Command.ofWord? (Text.firstWord (Text.trim line)) = some .reset

instance (line : Text) : Decidable (Resets line) := inferInstanceAs (Decidable (_ = _))

/-- What may change the bindings: a source that is run, and the command that resets them. -/
def Rebinds : Fate → Prop
  | .ran _ => True
  | .command line => Resets line
  | _ => False

/-- The sources run since the last reset, with this fate after the given ones. -/
def after (sources : List Text) : Fate → List Text
  | .ran lines => sources ++ [Text.joinLines lines]
  | .command line => if Resets line then [] else sources
  | _ => sources

end Fate

/-! ## Steps -/

/-- An event, and the session before and after it. -/
structure Step where
  before : Console
  event : Event
  after : Console

/-- The steps of a session, up to one that spends the budget. -/
def course (budget : Nat) : Console → List Event → List Step
  | _, [] => []
  | c, e :: rest =>
      match c.update budget e with
      | some next => ⟨c, e, next⟩ :: course budget next rest
      | none => []

namespace Step

def submitted (s : Step) : List Submission :=
  match s.event with
  | .submit => [⟨s.before.input, s.before.pending.isEmpty⟩]
  | _ => []

/-- The sources that a step adds to the transcript, each by its lines. -/
def sources (s : Step) : List (List Text) :=
  ((s.after.transcript.drop s.before.transcript.length).map Entry.source).filter (· ≠ [])

/-- The lines that a step settles without running them. -/
def settled (s : Step) : List Fate :=
  match s.event with
  | .submit =>
      if s.before.pending = [] ∧ Text.trim s.before.input = [] then [.blank s.before.input]
      else if s.before.pending = [] ∧ isCommand (Text.trim s.before.input) then
        [.command s.before.input]
      else []
  | .discard => if s.before.pending = [] then [] else [.dropped s.before.pending]
  | _ => []

/-- What becomes of submitted lines in a step. -/
def fates (s : Step) : List Fate := s.sources.map .ran ++ s.settled

/-! ## Sources in the transcript -/

/-- The source of the entry that a step adds. -/
theorem sources_of_report {s : Step} {e : Entry}
    (added : s.after.transcript = s.before.transcript ++ [e]) :
    s.sources = if e.source = [] then [] else [e.source] := by
  rw [sources, added, List.drop_left, List.map_singleton]
  by_cases none : e.source = []
  · simp [none]
  · simp [none]

end Step

/-! ## What a step can do -/

/-- What a step can do to the submitted lines and to the bindings. -/
inductive Turn (budget : Nat) (s : Step) : Prop where
  /-- No line is submitted, and the open block stays. -/
  | quiet : s.submitted = [] → s.fates = [] → s.after.pending = s.before.pending →
      s.after.env = s.before.env → Turn budget s
  /-- A blank line is submitted while no block is open. -/
  | blank (line : Text) : s.submitted = [⟨line, true⟩] → s.fates = [.blank line] →
      Text.trim line = [] → s.before.pending = [] → s.after.pending = [] →
      s.after.env = s.before.env → Turn budget s
  /-- A command is submitted while no block is open. -/
  | command (line : Text) : s.submitted = [⟨line, true⟩] → s.fates = [.command line] →
      isCommand (Text.trim line) = true → s.before.pending = [] → s.after.pending = [] →
      s.after.env = (if Fate.Resets line then s.before.engine.builtins else s.before.env) →
      Turn budget s
  /-- A line is submitted that leaves the block open. -/
  | grows (line : Text) : s.submitted = [⟨line, s.before.pending.isEmpty⟩] → s.fates = [] →
      s.after.pending = s.before.pending ++ [line] → s.after.env = s.before.env → Turn budget s
  /-- A line is submitted that closes the block, and the block is run. -/
  | runs (line : Text) (x : Execution) : s.submitted = [⟨line, s.before.pending.isEmpty⟩] →
      s.fates = [.ran (s.before.pending ++ [line])] → (Fate.ran (s.before.pending ++ [line])).Proper →
      s.after.pending = [] →
      replay budget ⟨s.before.env, .empty none, none⟩ [Text.joinLines (s.before.pending ++ [line])] =
        some x → s.after.env = x.env → Turn budget s
  /-- The open block is dropped. -/
  | drops : s.submitted = [] → s.fates = [.dropped s.before.pending] →
      (Fate.dropped s.before.pending).Proper → s.after.pending = [] →
      s.after.env = s.before.env → Turn budget s

/-- The transcript is kept, cleared, or grows by an entry without a source. -/
def RunsNothing (c next : Console) : Prop :=
  next.transcript = c.transcript ∨ next.transcript = [] ∨
    ∃ e, next.transcript = c.transcript ++ [e] ∧ e.source = []

theorem RunsNothing.fates {c next : Console} (nothing : c.RunsNothing next) (e : Event) :
    Step.fates ⟨c, e, next⟩ = Step.settled ⟨c, e, next⟩ := by
  have sources : Step.sources ⟨c, e, next⟩ = [] := by
    rcases nothing with same | cleared | ⟨entry, added, none⟩
    · simp [Step.sources, same]
    · simp [Step.sources, cleared]
    · rw [Step.sources_of_report added, if_pos none]
  rw [Step.fates, sources]
  rfl

/-- An event that submits nothing and drops nothing leaves lines and bindings alone. -/
theorem RunsNothing.turn {budget : Nat} {c next : Console} {e : Event} (nothing : c.RunsNothing next)
    (submitted : Step.submitted ⟨c, e, next⟩ = []) (settled : Step.settled ⟨c, e, next⟩ = [])
    (same : next.pending = c.pending ∧ next.env = c.env ∧ next.engine = c.engine) :
    Turn budget ⟨c, e, next⟩ ∧ next.engine = c.engine :=
  ⟨.quiet submitted ((nothing.fates e).trans settled) same.1 same.2.1, same.2.2⟩

/-- An open block is a block, and none of it could have been run. -/
theorem Consistent.isBlock {c : Console} (consistent : c.Consistent) (some : c.pending ≠ []) :
    IsBlock c.pending ∧ 0 < Token.openBraces (Text.joinLines c.pending) := by
  obtain ⟨first, rest, block⟩ := List.exists_cons_of_ne_nil some
  have whole := consistent.opens c.pending.length (List.length_pos_iff.mpr some) (Nat.le_refl _)
  rw [List.take_length] at whole
  refine ⟨⟨⟨first, ?_, ?_⟩, ?_⟩, whole⟩
  · rw [block]
    rfl
  · exact consistent.first first (by rw [block]; rfl)
  · exact fun n positive less => consistent.opens n positive (Nat.le_of_lt less)

/-- A line that may be added to the open block completes a block. -/
theorem Consistent.isBlock_append {c : Console} (consistent : c.Consistent) {line : Text}
    (opening : c.pending = [] → Text.trim line ≠ [] ∧ isCommand (Text.trim line) = false) :
    IsBlock (c.pending ++ [line]) := by
  constructor
  · cases block : c.pending with
    | nil => exact ⟨line, rfl, opening block⟩
    | cons first rest => exact ⟨first, rfl, consistent.first first (by rw [block]; rfl)⟩
  · intro n positive less
    rw [List.length_append, List.length_singleton] at less
    rw [List.take_append_of_le_length (by omega)]
    exact consistent.opens n positive (by omega)

/-- Running a source in a session is replaying it with an empty sink. -/
theorem evaluate_replay {budget : Nat} {c next : Console} {source : Text}
    (ran : c.evaluate budget source = some next) :
    ∃ x, replay budget ⟨c.env, .empty none, none⟩ [source] = some x ∧ next.env = x.env := by
  unfold evaluate at ran
  simp only [replay]
  dsimp only at ran
  cases compiled : Script.compile source with
  | error ds =>
      rw [compiled] at ran
      cases ran
      exact ⟨_, rfl, rfl⟩
  | ok script =>
      rw [compiled] at ran
      dsimp only at ran ⊢
      cases ended : script.run budget ⟨c.env, .empty none, none⟩ with
      | ok _ x =>
          rw [ended] at ran
          cases ran
          exact ⟨x, rfl, rfl⟩
      | error e x =>
          rw [ended] at ran
          cases ran
          exact ⟨x, rfl, rfl⟩
      | exhausted =>
          rw [ended] at ran
          cases ran

/-- A line that is submitted to the open block, or opens one. -/
theorem addLine_turn {budget : Nat} {c d next : Console} (consistent : c.Consistent)
    (same : d.pending = c.pending ∧ d.transcript = c.transcript ∧ d.env = c.env ∧ d.engine = c.engine)
    (opening : c.pending = [] → Text.trim c.input ≠ [] ∧ isCommand (Text.trim c.input) = false)
    (added : d.addLine budget c.input = some next) :
    Turn budget ⟨c, .submit, next⟩ ∧ next.engine = c.engine := by
  obtain ⟨pending, transcript, env, engine⟩ := same
  have unsettled : Step.settled ⟨c, .submit, next⟩ = [] := by
    have notBlank : ¬(c.pending = [] ∧ Text.trim c.input = []) := fun blank =>
      (opening blank.1).1 blank.2
    have notCommand : ¬(c.pending = [] ∧ isCommand (Text.trim c.input) = true) := by
      rintro ⟨none, command⟩
      rw [(opening none).2] at command
      cases command
    simp only [Step.settled]
    rw [if_neg notBlank, if_neg notCommand]
  unfold addLine at added
  dsimp only at added
  rw [pending] at added
  split at added
  · cases added
    refine ⟨.grows c.input rfl ?_ rfl env, engine⟩
    have nothing : c.RunsNothing { d with pending := c.pending ++ [c.input], prompt := .continuation } :=
      .inl transcript
    exact (nothing.fates .submit).trans unsettled
  · next closed =>
      obtain ⟨x, replayed, bound⟩ := evaluate_replay added
      obtain ⟨after, e, rfl, lines⟩ := evaluate_eq_some added
      have source : e.source = c.pending ++ [c.input] := by
        rw [lines]
        refine Text.splitLines_joinLines (by simp) fun line member => ?_
        rcases List.mem_append.mp member with old | new
        · exact consistent.pendingLines line old
        · rw [List.mem_singleton.mp new]
          exact consistent.inputLine
      have ran : Step.fates ⟨c, .submit, Console.report
          { d with pending := [], prompt := .main, env := after } e⟩ = [.ran (c.pending ++ [c.input])] := by
        have added : d.transcript ++ [e] = c.transcript ++ [e] := by rw [transcript]
        rw [Step.fates, unsettled, Step.sources_of_report added, source, if_neg (by simp)]
        rfl
      rw [env] at replayed
      exact ⟨.runs c.input x rfl ran ⟨consistent.isBlock_append opening, Int.not_lt.mp closed⟩ rfl
        replayed bound, engine⟩

/-- A command runs nothing, and binds only if it is the one that resets. -/
theorem runCommand_keeps (c : Console) (line : Text) :
    (c.runCommand line).pending = c.pending ∧ (c.runCommand line).engine = c.engine ∧
    (c.runCommand line).env =
      (if Command.ofWord? (Text.firstWord line) = some .reset then c.engine.builtins else c.env) ∧
    c.RunsNothing (c.runCommand line) := by
  unfold runCommand
  cases Command.ofWord? (Text.firstWord line) with
  | none => exact ⟨rfl, rfl, rfl, .inr (.inr ⟨_, rfl, rfl⟩)⟩
  | some command =>
      cases command with
      | quit | help | bindings | grammar => exact ⟨rfl, rfl, rfl, .inl rfl⟩
      | clear => exact ⟨rfl, rfl, rfl, .inr (.inl rfl)⟩
      | reset => exact ⟨rfl, rfl, rfl, .inr (.inr ⟨_, rfl, rfl⟩)⟩

theorem submit_turn {budget : Nat} {c next : Console} (consistent : c.Consistent)
    (submitted : c.submit budget = some next) :
    Turn budget ⟨c, .submit, next⟩ ∧ next.engine = c.engine := by
  have fresh : ∀ d, c.pending = [] → Step.submitted ⟨c, .submit, d⟩ = [⟨c.input, true⟩] := by
    intro d none
    simp only [Step.submitted]
    rw [none]
    rfl
  unfold submit at submitted
  dsimp only at submitted
  split at submitted
  · next blank =>
      cases submitted
      have nothing : c.RunsNothing { c with input := [], recallAt := none } := .inl rfl
      refine ⟨.blank c.input (fresh _ blank.1) ?_ blank.2 blank.1 blank.1 rfl, rfl⟩
      rw [nothing.fates, Step.settled, if_pos blank]
  · next notBlank =>
      split at submitted
      · next command =>
          cases submitted
          obtain ⟨pending, engine, env, nothing⟩ :=
            runCommand_keeps { c with input := [], recallAt := none } (Text.trim c.input)
          have nothing : c.RunsNothing (runCommand { c with input := [], recallAt := none }
            (Text.trim c.input)) := nothing
          refine ⟨.command c.input (fresh _ command.1) ?_ command.2 command.1
            (pending.trans command.1) env, engine⟩
          rw [nothing.fates, Step.settled, if_neg notBlank, if_pos command]
      · next notCommand =>
          have opening : c.pending = [] →
              Text.trim c.input ≠ [] ∧ isCommand (Text.trim c.input) = false := by
            intro none
            refine ⟨fun blank => notBlank ⟨none, blank⟩, Bool.eq_false_iff.mpr ?_⟩
            exact fun command => notCommand ⟨none, command⟩
          -- Whether the line is remembered makes no difference to the block.
          split at submitted
          · refine addLine_turn consistent ?_ opening submitted
            exact ⟨rfl, rfl, rfl, rfl⟩
          · refine addLine_turn consistent ?_ opening submitted
            exact ⟨rfl, rfl, rfl, rfl⟩

theorem discard_turn {budget : Nat} {c : Console} (consistent : c.Consistent) :
    Turn budget ⟨c, .discard, c.discard⟩ ∧ c.discard.engine = c.engine := by
  unfold discard
  split
  · next none =>
      have nothing : c.RunsNothing (c.setInput []) := .inl rfl
      exact nothing.turn rfl (by rw [Step.settled, if_pos none]) ⟨rfl, rfl, rfl⟩
  · next some =>
      refine ⟨.drops rfl ?_ (consistent.isBlock some) rfl rfl, rfl⟩
      rw [Step.fates, Step.sources_of_report rfl, Step.settled, if_neg some]
      rfl

theorem older_keeps (c : Console) : c.older.transcript = c.transcript ∧
    c.older.pending = c.pending ∧ c.older.env = c.env ∧ c.older.engine = c.engine := by
  unfold older
  split
  · exact ⟨rfl, rfl, rfl, rfl⟩
  · split <;> exact ⟨rfl, rfl, rfl, rfl⟩

theorem newer_keeps (c : Console) : c.newer.transcript = c.transcript ∧
    c.newer.pending = c.pending ∧ c.newer.env = c.env ∧ c.newer.engine = c.engine := by
  unfold newer
  split
  · exact ⟨rfl, rfl, rfl, rfl⟩
  · split
    · exact ⟨rfl, rfl, rfl, rfl⟩
    · split <;> exact ⟨rfl, rfl, rfl, rfl⟩

theorem complete_keeps (c : Console) : c.RunsNothing c.complete ∧
    c.complete.pending = c.pending ∧ c.complete.env = c.env ∧ c.complete.engine = c.engine := by
  unfold complete
  dsimp only
  split
  · exact ⟨.inl rfl, rfl, rfl, rfl⟩
  · split
    · exact ⟨.inl rfl, rfl, rfl, rfl⟩
    · exact ⟨.inl rfl, rfl, rfl, rfl⟩
    · exact ⟨.inr (.inr ⟨_, rfl, rfl⟩), rfl, rfl, rfl⟩

/-- What an event can do, and that the engine stays the same. -/
theorem update_turn {budget : Nat} {c next : Console} {e : Event} (consistent : c.Consistent)
    (updated : c.update budget e = some next) :
    Turn budget ⟨c, e, next⟩ ∧ next.engine = c.engine := by
  cases e with
  | submit => exact submit_turn consistent updated
  | discard =>
      cases updated
      exact discard_turn consistent
  | older =>
      cases updated
      obtain ⟨transcript, same⟩ := c.older_keeps
      exact RunsNothing.turn (.inl transcript) rfl rfl same
  | newer =>
      cases updated
      obtain ⟨transcript, same⟩ := c.newer_keeps
      exact RunsNothing.turn (.inl transcript) rfl rfl same
  | complete =>
      cases updated
      obtain ⟨nothing, same⟩ := c.complete_keeps
      exact nothing.turn rfl rfl same
  | clear =>
      cases updated
      exact RunsNothing.turn (.inr (.inl rfl)) rfl rfl ⟨rfl, rfl, rfl⟩
  | set | type | erase | toggleBindings | toggleGrammar | quit | resize =>
      cases updated
      exact RunsNothing.turn (.inl rfl) rfl rfl ⟨rfl, rfl, rfl⟩

/-! ## No line is lost -/

/-- A line is submitted while a block is open unless it is the first. -/
theorem opened_append (lines : List Text) (line : Text) :
    opened (lines ++ [line]) = opened lines ++ [⟨line, lines.isEmpty⟩] := by
  cases lines with
  | nil => rfl
  | cons first rest =>
      simp only [List.cons_append, opened, List.map_append, List.map_singleton]
      rfl

/-- The open block and the line that a step submits are what it settles and the block that is open then,
and what it settles is proper. -/
theorem Turn.accounts {budget : Nat} {s : Step} (turn : Turn budget s) :
    opened s.before.pending ++ s.submitted =
      s.fates.flatMap Fate.submissions ++ opened s.after.pending ∧ ∀ f ∈ s.fates, f.Proper := by
  cases turn with
  | quiet submitted fates pending env =>
      rw [submitted, fates, pending]
      simp
  | blank line submitted fates isBlank none after env =>
      rw [submitted, fates, none, after]
      exact ⟨rfl, fun f member => List.mem_singleton.mp member ▸ isBlank⟩
  | command line submitted fates isOne none after env =>
      rw [submitted, fates, none, after]
      exact ⟨rfl, fun f member => List.mem_singleton.mp member ▸ isOne⟩
  | grows line submitted fates pending env =>
      rw [submitted, fates, pending, opened_append]
      simp
  | runs line x submitted fates proper pending replayed env =>
      rw [submitted, fates, pending, ← opened_append]
      exact ⟨by simp [Fate.submissions, opened], fun f member => List.mem_singleton.mp member ▸ proper⟩
  | drops submitted fates proper pending env =>
      rw [submitted, fates, pending]
      exact ⟨by simp [Fate.submissions, opened], fun f member => List.mem_singleton.mp member ▸ proper⟩

/-- The lines submitted in a session are those of its fates, in order, and those of the open block. -/
theorem course_accounts {budget : Nat} : ∀ {events : List Event} {c last : Console}, c.Consistent →
    updates budget c events = some last →
      opened c.pending ++ (course budget c events).flatMap Step.submitted =
        ((course budget c events).flatMap Step.fates).flatMap Fate.submissions ++ opened last.pending ∧
      (∀ f ∈ (course budget c events).flatMap Step.fates, f.Proper) ∧
      (course budget c events).map Step.event = events
  | [], c, last, _, done => by
      cases done
      simp [course]
  | e :: rest, c, last, consistent, done => by
      obtain ⟨next, updated, others⟩ := Option.bind_eq_some_iff.mp done
      obtain ⟨lines, proper⟩ := (update_turn consistent updated).1.accounts
      obtain ⟨later, properLater, events⟩ := course_accounts (update_consistent consistent updated) others
      simp only [course, updated, List.flatMap_cons, List.flatMap_append, List.map_cons, events]
      refine ⟨?_, List.forall_mem_append.mpr ⟨proper, properLater⟩, trivial⟩
      rw [← List.append_assoc, lines, List.append_assoc, later, List.append_assoc]

/-! ## The bindings are those of a replay -/

/-- The bindings of the session are those that the sources leave in a fresh execution. -/
structure Tracks (budget : Nat) (sources : List Text) (c : Console) : Prop where
  engine : c.engine = .initial
  replayed : ∃ y, replay budget (Engine.initial.newExecution (.empty none)) sources = some y ∧
    Execution.Matches ⟨c.env, .empty none, none⟩ y

theorem start_tracks (kit : Toolkit) (budget : Nat) : (start kit).Tracks budget [] :=
  ⟨rfl, _, rfl, .initial, rfl, rfl, rfl, rfl⟩

theorem Turn.tracks {budget : Nat} {s : Step} (turn : Turn budget s)
    (engine : s.after.engine = s.before.engine) {sources : List Text}
    (tracks : s.before.Tracks budget sources) :
    s.after.Tracks budget (s.fates.foldl Fate.after sources) := by
  obtain ⟨fresh, y, replayed, related⟩ := tracks
  have unchanged : s.after.env = s.before.env → s.after.Tracks budget sources := fun env =>
    ⟨engine.trans fresh, y, replayed, env ▸ related⟩
  cases turn with
  | quiet submitted fates pending env =>
      rw [fates]
      exact unchanged env
  | blank line submitted fates isBlank none after env =>
      rw [fates]
      exact unchanged env
  | command line submitted fates isOne none after env =>
      rw [fates]
      simp only [List.foldl_cons, List.foldl_nil, Fate.after]
      split
      · next resets =>
          rw [if_pos resets, fresh] at env
          have first := (start_tracks s.before.toolkit budget).replayed
          exact ⟨engine.trans fresh, env ▸ first⟩
      · next other =>
          rw [if_neg other] at env
          exact unchanged env
  | grows line submitted fates pending env =>
      rw [fates]
      exact unchanged env
  | runs line x submitted fates proper pending ran env =>
      rw [fates]
      obtain ⟨z, further, reached, restored⟩ := replay_matches related ran
      refine ⟨engine.trans fresh, z, ?_, ?_⟩
      · simp only [List.foldl_cons, List.foldl_nil, Fate.after]
        rw [replay_append, replayed]
        exact further
      · rw [env]
        exact ⟨reached.plain, reached.env, reached.source.trans restored, rfl, reached.otherLimit⟩
  | drops submitted fates proper pending env =>
      rw [fates]
      exact unchanged env

/-- The bindings change only where a source is run or the bindings are reset. -/
theorem Turn.rebinds {budget : Nat} {s : Step} (turn : Turn budget s)
    (changed : s.after.env ≠ s.before.env) : ∃ f ∈ s.fates, f.Rebinds := by
  cases turn with
  | command line submitted fates isOne none after env =>
      refine ⟨.command line, by simp [fates], ?_⟩
      show Fate.Resets line
      by_contra other
      rw [if_neg other] at env
      exact changed env
  | runs line x submitted fates proper pending replayed env =>
      exact ⟨.ran (s.before.pending ++ [line]), by simp [fates], trivial⟩
  | quiet submitted fates pending env => exact absurd env changed
  | blank line submitted fates isBlank none after env => exact absurd env changed
  | grows line submitted fates pending env => exact absurd env changed
  | drops submitted fates proper pending env => exact absurd env changed

/-- The bindings of a session are those that its sources leave, and nothing else changes them. -/
theorem course_replays {budget : Nat} : ∀ {events : List Event} {c last : Console} {sources : List Text},
    c.Consistent → c.Tracks budget sources → updates budget c events = some last →
      last.Tracks budget (((course budget c events).flatMap Step.fates).foldl Fate.after sources) ∧
      ∀ s ∈ course budget c events, s.after.env ≠ s.before.env → ∃ f ∈ s.fates, f.Rebinds
  | [], c, last, sources, _, tracks, done => by
      cases done
      refine ⟨tracks, fun s member => ?_⟩
      rw [course] at member
      cases member
  | e :: rest, c, last, sources, consistent, tracks, done => by
      obtain ⟨next, updated, others⟩ := Option.bind_eq_some_iff.mp done
      obtain ⟨turn, engine⟩ := update_turn consistent updated
      obtain ⟨later, rebinds⟩ := course_replays (update_consistent consistent updated)
        (turn.tracks engine tracks) others
      simp only [course, updated, List.flatMap_cons, List.foldl_append]
      exact ⟨later, List.forall_mem_cons.mpr ⟨turn.rebinds, rebinds⟩⟩

/-- **A session is a sequence of runs, and loses no line.** Take the steps of any events from the start,
with any lawful toolkit, none of which spends the budget. The lines submitted, in order, are those of the
fates of the steps, in order, and those of the open block: lines that were run as one source, lines of a
block that was dropped, and blank lines and commands submitted while no block was open. A block begins,
while none is open, with a line that is neither blank nor a command, and it is run at the first line that
closes all its braces. The bindings are those of a fresh execution in which the sources since the last reset
are compiled in order and run if they compile, whatever errors they end in; and only sources and resets
change them. -/
theorem updates_account {kit : Toolkit} (lawful : kit.Lawful) {budget : Nat} {events : List Event}
    {c : Console} (reached : updates budget (start kit) events = some c) :
    (course budget (start kit) events).map Step.event = events ∧
    (course budget (start kit) events).flatMap Step.submitted =
      ((course budget (start kit) events).flatMap Step.fates).flatMap Fate.submissions ++ opened c.pending ∧
    (∀ f ∈ (course budget (start kit) events).flatMap Step.fates, f.Proper) ∧
    (∃ y, replay budget (Engine.initial.newExecution (.empty none))
        (((course budget (start kit) events).flatMap Step.fates).foldl Fate.after []) = some y ∧
      y.env = c.env) ∧
    ∀ s ∈ course budget (start kit) events, s.after.env ≠ s.before.env → ∃ f ∈ s.fates, f.Rebinds := by
  obtain ⟨lines, proper, steps⟩ := course_accounts (start_consistent lawful) reached
  obtain ⟨tracks, rebinds⟩ := course_replays (start_consistent lawful) (start_tracks kit budget) reached
  obtain ⟨y, replayed, related⟩ := tracks.replayed
  exact ⟨steps, lines, proper, ⟨y, replayed, related.env⟩, rebinds⟩

/-- A source whose bindings are reset, a loop of three lines, a source that fails after it has bound a
name, one that does not compile, a blank line, a block that is dropped, and one that stays open. -/
def eventful : List Event :=
  [.set (utf8 "x = 1"), .submit, .set (utf8 ":r now"), .submit, .set (utf8 "n = 0 while n < 2 \x7b"),
    .submit, .set (utf8 "n = n + 1 DISPLAY(n)"), .submit, .clear, .set (utf8 "\x7d"), .submit,
    .set (utf8 "m = 5 k = z"), .submit, .set (utf8 ")"), .submit, .set (utf8 " "), .submit,
    .set (utf8 "until \x7b"), .submit, .older, .discard, .set (utf8 "while m < 9 \x7b"), .submit]

/-- The fates of these lines; what the sources behind the reset leave is bound, and nothing else is. -/
theorem updates_account_eventful :
    ∃ c : Console, updates 3 initial eventful = some c ∧
      (course 3 initial eventful).flatMap Step.fates =
        [.ran [utf8 "x = 1"], .command (utf8 ":r now"),
          .ran [utf8 "n = 0 while n < 2 \x7b", utf8 "n = n + 1 DISPLAY(n)", utf8 "\x7d"],
          .ran [utf8 "m = 5 k = z"], .ran [utf8 ")"], .blank (utf8 " "), .dropped [utf8 "until \x7b"]] ∧
      c.pending = [utf8 "while m < 9 \x7b"] ∧ c.env.names = [utf8 "DISPLAY", utf8 "m", utf8 "n"] ∧
      (∀ f ∈ (course 3 initial eventful).flatMap Step.fates, f.Proper) ∧
      (course 3 initial eventful).flatMap Step.submitted =
        ((course 3 initial eventful).flatMap Step.fates).flatMap Fate.submissions ++ opened c.pending ∧
      ∃ y, replay 3 (Engine.initial.newExecution (.empty none))
          [utf8 "n = 0 while n < 2 \x7b\nn = n + 1 DISPLAY(n)\n\x7d", utf8 "m = 5 k = z", utf8 ")"] =
        some y ∧ y.env = c.env := by
  have computed : ((updates 3 initial eventful).any fun c =>
      decide (c.pending = [utf8 "while m < 9 \x7b"] ∧
        c.env.names = [utf8 "DISPLAY", utf8 "m", utf8 "n"])) = true := by decide +kernel
  have fates : (course 3 initial eventful).flatMap Step.fates =
      [.ran [utf8 "x = 1"], .command (utf8 ":r now"),
        .ran [utf8 "n = 0 while n < 2 \x7b", utf8 "n = n + 1 DISPLAY(n)", utf8 "\x7d"],
        .ran [utf8 "m = 5 k = z"], .ran [utf8 ")"], .blank (utf8 " "), .dropped [utf8 "until \x7b"]] := by
    decide +kernel
  obtain ⟨c, reached, checked⟩ := (Option.any_eq_true _ _).mp computed
  obtain ⟨pending, names⟩ := of_decide_eq_true checked
  obtain ⟨-, lines, proper, ⟨y, replayed, env⟩, -⟩ :=
    updates_account Toolkit.standard_lawful reached
  have since : [Fate.ran [utf8 "x = 1"], .command (utf8 ":r now"),
      .ran [utf8 "n = 0 while n < 2 \x7b", utf8 "n = n + 1 DISPLAY(n)", utf8 "\x7d"],
      .ran [utf8 "m = 5 k = z"], .ran [utf8 ")"], .blank (utf8 " "),
      .dropped [utf8 "until \x7b"]].foldl Fate.after [] =
        [utf8 "n = 0 while n < 2 \x7b\nn = n + 1 DISPLAY(n)\n\x7d", utf8 "m = 5 k = z", utf8 ")"] := by
    decide +kernel
  rw [fates, since] at replayed
  exact ⟨c, reached, fates, pending, names, proper, lines, y, replayed, env⟩

end Console

end LoopScript
