/-
# LoopScript.Proofs.Console.Recall — the lines to recall, and the walk over them

The lines to recall are the lines submitted, in order, less the blank ones and the commands
(`course_remembered`). The two arrow keys walk over them. `Arrow.move` is that walk on positions alone: one
position for each line and one behind the newest. A session stands `At` a position, and a key takes both
along (`arrow_walks`); so any keys do (`arrows_walk`).

A line comes back as it was submitted, since the field took it as it is (`Toolkit.Lawful.clean_eq`).
-/
import LoopScript.Proofs.Console.Account
import LoopScript.Proofs.Console.Contents

namespace LoopScript.Console

set_option autoImplicit false

/-! ## What is remembered -/

/-- The line is neither blank nor a command; within an open block there are no commands. -/
def Submission.Kept (s : Submission) : Prop :=
  Text.trim s.line ≠ [] ∧ ¬(s.fresh = true ∧ isCommand (Text.trim s.line) = true)

instance (s : Submission) : Decidable s.Kept := inferInstanceAs (Decidable (_ ∧ _))

/-- The line that a step adds to those to recall. -/
def Step.kept (s : Step) : List Text := (s.submitted.filter (·.Kept)).map Submission.line

theorem evaluate_remembered {budget : Nat} {c next : Console} {source : Text}
    (ran : c.evaluate budget source = some next) : next.remembered = c.remembered := by
  obtain ⟨env, e, rfl, -⟩ := evaluate_eq_some ran
  rfl

theorem addLine_remembered {budget : Nat} {c next : Console} {line : Text}
    (added : c.addLine budget line = some next) : next.remembered = c.remembered := by
  unfold addLine at added
  dsimp only at added
  split at added
  · cases added
    rfl
  · have kept := evaluate_remembered added
    exact kept

theorem runCommand_remembered (c : Console) (line : Text) :
    (c.runCommand line).remembered = c.remembered := by
  unfold runCommand
  split <;> rfl

theorem submit_remembered {budget : Nat} {c next : Console} (submitted : c.submit budget = some next) :
    next.remembered = c.remembered ++ Step.kept ⟨c, .submit, next⟩ := by
  have kept : Step.kept ⟨c, .submit, next⟩ =
      if Submission.Kept ⟨c.input, c.pending.isEmpty⟩ then [c.input] else [] := by
    unfold Step.kept Step.submitted
    by_cases keep : Submission.Kept ⟨c.input, c.pending.isEmpty⟩ <;> simp [keep]
  rw [kept]
  unfold submit at submitted
  dsimp only at submitted
  split at submitted
  · next blank =>
      cases submitted
      rw [if_neg fun keep => keep.1 blank.2, List.append_nil]
  · split at submitted
    · next command =>
        cases submitted
        rw [runCommand_remembered, if_neg ?_, List.append_nil]
        exact fun keep => keep.2 ⟨List.isEmpty_iff.mpr command.1, command.2⟩
    · next notCommand =>
        split at submitted
        · next blank =>
            rw [addLine_remembered submitted, if_neg fun keep => keep.1 blank, List.append_nil]
        · next written =>
            have keep : Submission.Kept ⟨c.input, c.pending.isEmpty⟩ :=
              ⟨written, fun command => notCommand ⟨List.isEmpty_iff.mp command.1, command.2⟩⟩
            rw [addLine_remembered submitted, if_pos keep]

theorem older_remembered (c : Console) : c.older.remembered = c.remembered := by
  unfold older
  split
  · rfl
  · split <;> rfl

theorem newer_remembered (c : Console) : c.newer.remembered = c.remembered := by
  unfold newer
  split
  · rfl
  · split
    · rfl
    · split <;> rfl

theorem complete_remembered (c : Console) : c.complete.remembered = c.remembered := by
  unfold complete
  dsimp only
  split
  · rfl
  · split <;> rfl

/-- An event adds the line that it submits, unless that is blank or a command. -/
theorem update_remembered {budget : Nat} {c next : Console} {e : Event}
    (updated : c.update budget e = some next) :
    next.remembered = c.remembered ++ Step.kept ⟨c, e, next⟩ := by
  cases e with
  | submit => exact submit_remembered updated
  | discard =>
      cases updated
      refine Eq.trans ?_ (List.append_nil _).symm
      unfold discard
      split <;> rfl
  | older =>
      cases updated
      exact (older_remembered c).trans (List.append_nil _).symm
  | newer =>
      cases updated
      exact (newer_remembered c).trans (List.append_nil _).symm
  | complete =>
      cases updated
      exact (complete_remembered c).trans (List.append_nil _).symm
  | set | type | erase | toggleBindings | toggleGrammar | clear | quit | resize =>
      cases updated
      exact (List.append_nil _).symm

/-- The events of a session add the lines that they submit, unless these are blank or commands. -/
theorem course_remembered {budget : Nat} : ∀ {events : List Event} {c last : Console},
    updates budget c events = some last →
      last.remembered = c.remembered ++ (course budget c events).flatMap Step.kept
  | [], c, last, done => by
      cases done
      exact (List.append_nil _).symm
  | e :: rest, c, last, done => by
      obtain ⟨next, updated, others⟩ := Option.bind_eq_some_iff.mp done
      simp only [course, updated, List.flatMap_cons]
      rw [course_remembered others, update_remembered updated, List.append_assoc]

/-! ## The walk -/

inductive Arrow where
  | up
  | down
deriving DecidableEq, Repr

namespace Arrow

def event : Arrow → Event
  | .up => .older
  | .down => .newer

/-- The walk over the positions `0, …, n`; the last one is behind the newest of `n` lines. -/
def move (n q : Nat) : Arrow → Nat
  | .up => q - 1
  | .down => min (q + 1) n

end Arrow

/-- The session walks over `lines` and stands at the position `q`. -/
structure At (lines : List Text) (q : Nat) (c : Console) : Prop where
  lawful : c.toolkit.Lawful
  held : ∀ line ∈ lines, c.toolkit.Held line
  remembered : c.remembered = lines
  within : q ≤ lines.length
  recallAt : c.recallAt = if q = lines.length then none else some q

/-- What a key leaves in the input line: the line at the new position, nothing if that has come to be behind
the newest line, and all as it was if it already was there. -/
structure Arrow.Recalls (lines : List Text) (q : Nat) (arrow : Arrow) (c next : Console) : Prop where
  line : ∀ line, lines[arrow.move lines.length q]? = some line → next.input = line
  left : arrow = .down → q + 1 = lines.length → next.input = []
  stays : arrow = .down → q = lines.length → next = c

section Walk

variable {lines : List Text} {c : Console} {q : Nat} (stands : c.At lines q)
include stands

/-- A line that is recalled is in the input line as it is. -/
theorem At.showRecalled {i : Nat} (there : i < lines.length) :
    (c.showRecalled i).At lines i ∧ ∀ line, lines[i]? = some line → (c.showRecalled i).input = line := by
  refine ⟨{ stands with within := there.le, recallAt := (if_neg there.ne).symm }, fun line found => ?_⟩
  have taken := stands.lawful.clean_eq (stands.held line (List.mem_of_getElem? found))
  show c.toolkit.clean (c.remembered.getD i []) = line
  rw [stands.remembered, List.getD_eq_getElem?_getD, found]
  exact taken

theorem older_walks (nonempty : lines ≠ []) : c.older.At lines (Arrow.up.move lines.length q) ∧
    Arrow.up.Recalls lines q c c.older := by
  have positive := List.length_pos_iff.mpr nonempty
  have within := stands.within
  have same : c.older = c.showRecalled (q - 1) := by
    rw [older, if_neg (by rw [stands.remembered]; exact nonempty), stands.recallAt]
    by_cases behind : q = lines.length
    · rw [if_pos behind, behind, stands.remembered]
    · rw [if_neg behind]
  have earlier : q - 1 < lines.length := by omega
  obtain ⟨there, line⟩ := stands.showRecalled earlier
  rw [same]
  exact ⟨there, line, fun down => (by cases down), fun down => (by cases down)⟩

theorem newer_walks (nonempty : lines ≠ []) : c.newer.At lines (Arrow.down.move lines.length q) ∧
    Arrow.down.Recalls lines q c c.newer := by
  have within := stands.within
  have some : c.remembered ≠ [] := by
    rw [stands.remembered]
    exact nonempty
  have outside : ∀ line, lines[lines.length]? ≠ Option.some line := fun line found => by simp at found
  rw [newer, if_neg some, stands.recallAt, stands.remembered]
  rcases Nat.lt_trichotomy (q + 1) lines.length with inside | newest | behind
  · have moved : Arrow.down.move lines.length q = q + 1 := Nat.min_eq_left inside.le
    obtain ⟨there, line⟩ := stands.showRecalled inside
    rw [if_neg (by omega)]
    dsimp only
    rw [if_pos inside]
    exact ⟨moved ▸ there, moved ▸ line, fun _ _ => by omega, fun _ _ => by omega⟩
  · have moved : Arrow.down.move lines.length q = lines.length := Nat.min_eq_right newest.ge
    rw [if_neg (by omega)]
    dsimp only
    rw [if_neg (by omega)]
    refine ⟨?_, fun line found => ?_, fun _ _ => rfl, fun _ _ => by omega⟩
    · exact ⟨stands.lawful, stands.held, rfl, moved.le, (if_pos moved).symm⟩
    · exact absurd (moved ▸ found) (outside line)
  · -- Behind the newest line the key does nothing.
    have last : q = lines.length := by omega
    have moved : Arrow.down.move lines.length q = lines.length := Nat.min_eq_right (by omega)
    rw [if_pos last]
    refine ⟨?_, fun line found => ?_, fun _ _ => by omega, fun _ _ => rfl⟩
    · rw [moved, ← last]
      exact stands
    · exact absurd (moved ▸ found) (outside line)

end Walk

/-- A key takes the session along. -/
theorem arrow_walks (budget : Nat) {lines : List Text} {c : Console} {q : Nat} (nonempty : lines ≠ [])
    (stands : c.At lines q) (arrow : Arrow) :
    ∃ next, c.update budget arrow.event = some next ∧ next.At lines (arrow.move lines.length q) ∧
      arrow.Recalls lines q c next := by
  cases arrow with
  | up => exact ⟨c.older, rfl, older_walks stands nonempty⟩
  | down => exact ⟨c.newer, rfl, newer_walks stands nonempty⟩

/-- So do any keys. -/
theorem arrows_walk (budget : Nat) {lines : List Text} (nonempty : lines ≠ []) :
    ∀ (arrows : List Arrow) {c : Console} {q : Nat}, c.At lines q →
      ∃ last, updates budget c (arrows.map Arrow.event) = some last ∧
        last.At lines (arrows.foldl (Arrow.move lines.length) q)
  | [], c, q, stands => ⟨c, rfl, stands⟩
  | arrow :: rest, c, q, stands => by
      obtain ⟨next, updated, there, -⟩ := arrow_walks budget nonempty stands arrow
      obtain ⟨last, others, stops⟩ := arrows_walk budget nonempty rest there
      refine ⟨last, ?_, stops⟩
      rw [List.map_cons, updates, updated]
      exact others

/-! ## The lines and the walk -/

/-- **Recall is a walk over the lines submitted.** After any events from the start, with any lawful toolkit,
none of which spends the budget, the lines to recall are the lines submitted, in order, less the blank ones
and the commands. Let there be `n` of them, and none recalled yet. Then any keys keep these lines and take
the session to the position `q` that they take the walk to from `n`: the session recalls the line at `q`, or
none at `n`. After a further key, which takes the walk on to `q'`, the input line is the line at `q'` as it
was submitted. It is empty if the key leaves the newest line behind, and if it was left behind already, the
key does nothing. -/
theorem updates_recall {kit : Toolkit} (lawful : kit.Lawful) {budget : Nat} {events : List Event}
    {c : Console} (reached : updates budget (start kit) events = some c) :
    (course budget (start kit) events).map Step.event = events ∧
    c.remembered = (((course budget (start kit) events).flatMap Step.submitted).filter (·.Kept)).map
      Submission.line ∧
    (c.recallAt = none → c.remembered ≠ [] → ∀ (arrows : List Arrow) (arrow : Arrow),
      let n := c.remembered.length
      let q := arrows.foldl (Arrow.move n) n
      let q' := arrow.move n q
      ∃ before after, updates budget c (arrows.map Arrow.event) = some before ∧
        before.update budget arrow.event = some after ∧
        after.remembered = c.remembered ∧ q' ≤ n ∧
        after.recallAt = (if q' = n then none else some q') ∧
        (∀ line, c.remembered[q']? = some line → after.input = line) ∧
        (arrow = .down → q + 1 = n → after.input = []) ∧
        (arrow = .down → q = n → after = before)) := by
  refine ⟨(course_accounts (start_consistent lawful) reached).2.2, ?_, fun fresh nonempty arrows arrow => ?_⟩
  · rw [course_remembered reached, List.filter_flatMap, List.map_flatMap]
    rfl
  · have consistent := updates_preserve update_consistent (start_consistent lawful) reached
    have behind : c.At c.remembered c.remembered.length :=
      ⟨consistent.lawful, consistent.heldLines, rfl, le_rfl, by rw [if_pos rfl, fresh]⟩
    obtain ⟨before, walked, stands⟩ := arrows_walk budget nonempty arrows behind
    obtain ⟨after, updated, there, recalls⟩ := arrow_walks budget nonempty stands arrow
    exact ⟨before, after, walked, updated, there.remembered, there.within, there.recallAt, recalls.line,
      recalls.left, recalls.stays⟩

/-- A source, a command, a blank line, and a block that stays open, with a line that would have been a
command before it and a blank one. -/
def submittedLines : List Event :=
  [.set (utf8 "x = 1"), .submit, .set (utf8 ":h"), .submit, .set (utf8 " "), .submit,
    .set (utf8 "while x < 0 \x7b"), .submit, .set (utf8 ":q"), .submit, .submit]

/-- Four keys go up to the oldest of three lines and stay there; one down goes to the second. -/
theorem updates_recall_second_line :
    ∃ c before after : Console, updates 3 initial submittedLines = some c ∧
      c.remembered = [utf8 "x = 1", utf8 "while x < 0 \x7b", utf8 ":q"] ∧
      (((course 3 initial submittedLines).flatMap Step.submitted).filter (·.Kept)).map Submission.line =
        c.remembered ∧
      updates 3 c [.older, .older, .older, .older] = some before ∧
      before.update 3 .newer = some after ∧ after.recallAt = some 1 ∧
      after.input = utf8 "while x < 0 \x7b" := by
  have computed : ((updates 3 initial submittedLines).any fun c =>
      decide (c.recallAt = none ∧
        c.remembered = [utf8 "x = 1", utf8 "while x < 0 \x7b", utf8 ":q"])) = true := by decide +kernel
  obtain ⟨c, reached, checked⟩ := (Option.any_eq_true _ _).mp computed
  obtain ⟨fresh, remembered⟩ := of_decide_eq_true checked
  obtain ⟨-, lines, walk⟩ := updates_recall Toolkit.standard_lawful reached
  obtain ⟨before, after, walked, updated, -, -, recallAt, line, -, -⟩ :=
    walk fresh (by rw [remembered]; exact List.cons_ne_nil _ _) [.up, .up, .up, .up] .down
  rw [remembered] at recallAt line
  exact ⟨c, before, after, reached, remembered, lines.symm, walked, updated, recallAt, line _ rfl⟩

end LoopScript.Console
