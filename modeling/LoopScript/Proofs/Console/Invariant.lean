/-
# LoopScript.Proofs.Console.Invariant — what holds of a session whatever happens in it

`Consistent` ties the fields of a session together. The prompt tells whether a block is open. An open
block is open at each of its lines, so that no part of it could have been run earlier, and it does not
begin with an empty line or a command. The recalled line is one that is remembered, and remembered lines
are not empty. The input line and the remembered lines are texts that the field of the toolkit takes as they
are, so no line holds a line feed.

Every event keeps this (`update_consistent`), so it holds after any events (`updates_consistent`). Most
events change one or two fields. The one that matters is submitting a line: it opens a block, adds to it,
or closes and runs it (`addLine_consistent`, `evaluate_eq_some`).
-/
import LoopScript.Console.Basic
import LoopScript.Proofs.Console.Toolkit

namespace LoopScript

set_option autoImplicit false

namespace Console

/-! ## The invariant -/

/-- What holds of a session at any time. -/
structure Consistent (c : Console) : Prop where
  lawful : c.toolkit.Lawful
  held : c.toolkit.Held c.input
  heldLines : ∀ line ∈ c.remembered, c.toolkit.Held line
  /-- The prompt tells whether a block is open. -/
  prompt : c.prompt = if c.pending = [] then .main else .continuation
  /-- An open block is open at each of its lines. -/
  opens : ∀ n, 0 < n → n ≤ c.pending.length →
    0 < Token.openBraces (Text.joinLines (c.pending.take n))
  /-- An open block begins with a line that is neither empty nor a command. -/
  first : ∀ line ∈ c.pending.head?, Text.trim line ≠ [] ∧ isCommand (Text.trim line) = false
  /-- The line that is recalled is one of those remembered. -/
  recalled : ∀ i ∈ c.recallAt, i < c.remembered.length
  /-- No remembered line is empty. -/
  remembered : ∀ line ∈ c.remembered, Text.trim line ≠ []
  inputLine : Text.newline ∉ c.input
  pendingLines : ∀ line ∈ c.pending, Text.newline ∉ line
  rememberedLines : ∀ line ∈ c.remembered, Text.newline ∉ line
  sourceLines : ∀ e ∈ c.transcript, ∀ line ∈ e.source, Text.newline ∉ line

theorem start_consistent {kit : Toolkit} (lawful : kit.Lawful) : (start kit).Consistent where
  lawful := lawful
  held := Toolkit.held_nil
  heldLines := nofun
  prompt := rfl
  opens := by
    intro n positive le
    simp only [start, List.length_nil] at le
    omega
  first := nofun
  recalled := nofun
  remembered := nofun
  inputLine := List.not_mem_nil
  pendingLines := nofun
  rememberedLines := nofun
  sourceLines := nofun

namespace Consistent

variable {c : Console} (consistent : c.Consistent)
include consistent

theorem withInput {t : Text} (held : c.toolkit.Held t) : { c with input := t }.Consistent :=
  { consistent with held := held, inputLine := consistent.lawful.newline_notMem held }

theorem report {e : Entry} (lines : ∀ line ∈ e.source, Text.newline ∉ line) :
    (c.report e).Consistent := by
  refine { consistent with sourceLines := ?_ }
  intro other member
  rcases List.mem_append.mp member with old | new
  · exact consistent.sourceLines other old
  · rw [List.mem_singleton.mp new]
    exact lines

theorem reportNote (note : Text) : (c.report (.ofNote note)).Consistent :=
  consistent.report nofun

theorem reportError (error : Text) : (c.report (.ofError error)).Consistent :=
  consistent.report nofun

end Consistent

/-! ## Events -/

/-- What comes of running a source, if the budget is not spent: perhaps other bindings, and an entry that
shows the lines of the source. -/
theorem evaluate_eq_some {budget : Nat} {c c' : Console} {source : Text}
    (ran : c.evaluate budget source = some c') :
    ∃ (env : Env) (e : Entry), c' = { c with env := env }.report e ∧ e.source = Text.splitLines source := by
  unfold evaluate at ran
  dsimp only at ran
  split at ran
  · cases ran
    exact ⟨c.env, _, rfl, rfl⟩
  · split at ran
    · cases ran
      exact ⟨_, _, rfl, rfl⟩
    · cases ran
      exact ⟨_, _, rfl, rfl⟩
    · cases ran

theorem evaluate_consistent {budget : Nat} {c c' : Console} {source : Text}
    (consistent : c.Consistent) (ran : c.evaluate budget source = some c') : c'.Consistent := by
  obtain ⟨env, e, rfl, lines⟩ := evaluate_eq_some ran
  have rebound : { c with env := env }.Consistent := { consistent with }
  refine rebound.report ?_
  rw [lines]
  exact fun line member => Text.newline_notMem_line member

/-- A line joins an open block, or opens one, or the block is run and none is open. -/
theorem addLine_consistent {budget : Nat} {c c' : Console} {line : Text} (consistent : c.Consistent)
    (absent : Text.newline ∉ line)
    (opening : c.pending = [] → Text.trim line ≠ [] ∧ isCommand (Text.trim line) = false)
    (added : c.addLine budget line = some c') : c'.Consistent := by
  unfold addLine at added
  dsimp only at added
  split at added
  · next unclosed =>
      cases added
      have grown : c.pending ++ [line] ≠ [] := List.append_ne_nil_of_right_ne_nil _ (List.cons_ne_nil _ _)
      refine { consistent with prompt := ?_, opens := ?_, first := ?_, pendingLines := ?_ }
      · exact (if_neg grown).symm
      · intro n positive le
        rw [List.length_append, List.length_singleton] at le
        by_cases old : n ≤ c.pending.length
        · rw [List.take_append_of_le_length old]
          exact consistent.opens n positive old
        · have all : (c.pending ++ [line]).take n = c.pending ++ [line] :=
            List.take_of_length_le (by rw [List.length_append, List.length_singleton]; omega)
          rw [all]
          exact unclosed
      · intro other head
        cases block : c.pending with
        | nil =>
            rw [block] at head
            cases head
            exact opening block
        | cons oldest more =>
            rw [block] at head
            cases head
            exact consistent.first other (by rw [block]; rfl)
      · intro other member
        rcases List.mem_append.mp member with old | new
        · exact consistent.pendingLines other old
        · rw [List.mem_singleton.mp new]
          exact absent
  · refine evaluate_consistent ?_ added
    refine { consistent with prompt := rfl, opens := ?_, first := nofun, pendingLines := nofun }
    intro n positive le
    rw [List.length_nil] at le
    omega

theorem runCommand_consistent {c : Console} (consistent : c.Consistent) (line : Text) :
    (c.runCommand line).Consistent := by
  unfold runCommand
  split
  · exact { consistent with }
  · exact { consistent with }
  · exact { consistent with }
  · exact { consistent with }
  · exact { consistent with sourceLines := nofun }
  · have emptied : { c with env := c.engine.builtins }.Consistent := { consistent with }
    exact emptied.reportNote _
  · exact consistent.reportError _

theorem submit_consistent {budget : Nat} {c c' : Console} (consistent : c.Consistent)
    (submitted : c.submit budget = some c') : c'.Consistent := by
  have cleared : { c with input := [], recallAt := none }.Consistent :=
    { consistent.withInput Toolkit.held_nil with recalled := nofun }
  unfold submit at submitted
  dsimp only at submitted
  split at submitted
  · cases submitted
    exact cleared
  · next notEmpty =>
      split at submitted
      · cases submitted
        exact runCommand_consistent cleared _
      · next notCommand =>
          split at submitted
          · next blank =>
              refine addLine_consistent cleared consistent.inputLine ?_ submitted
              intro none
              exact absurd ⟨none, blank⟩ notEmpty
          · next visible =>
              refine addLine_consistent ?_ consistent.inputLine ?_ submitted
              · refine { cleared with
                  recalled := nofun, remembered := ?_, rememberedLines := ?_, heldLines := ?_ }
                · exact List.forall_mem_append.mpr
                    ⟨consistent.heldLines, List.forall_mem_singleton.mpr consistent.held⟩
                · intro line member
                  rcases List.mem_append.mp member with old | new
                  · exact consistent.remembered line old
                  · rw [List.mem_singleton.mp new]
                    exact visible
                · intro line member
                  rcases List.mem_append.mp member with old | new
                  · exact consistent.rememberedLines line old
                  · rw [List.mem_singleton.mp new]
                    exact consistent.inputLine
              · intro none
                refine ⟨visible, Bool.eq_false_iff.mpr ?_⟩
                exact fun command => notCommand ⟨none, command⟩

theorem discard_consistent {c : Console} (consistent : c.Consistent) : c.discard.Consistent := by
  unfold discard
  split
  · exact consistent.withInput (consistent.lawful.clean_held [])
  · have dropped : { c with pending := [], input := [], prompt := .main }.Consistent := by
      refine { consistent.withInput Toolkit.held_nil with
        prompt := rfl, opens := ?_, first := nofun, pendingLines := nofun }
      intro n positive le
      rw [List.length_nil] at le
      omega
    exact dropped.reportNote _

theorem showRecalled_consistent {c : Console} (consistent : c.Consistent) {i : Nat}
    (inside : i < c.remembered.length) : (c.showRecalled i).Consistent := by
  refine { consistent.withInput (consistent.lawful.clean_held _) with recalled := ?_ }
  rintro _ ⟨⟩
  exact inside

theorem older_consistent {c : Console} (consistent : c.Consistent) : c.older.Consistent := by
  unfold older
  split
  · exact consistent
  · next any =>
      have positive : 0 < c.remembered.length := List.length_pos_iff.mpr any
      split
      · exact showRecalled_consistent consistent (by omega)
      · next i shown =>
          have inside := consistent.recalled i shown
          exact showRecalled_consistent consistent (by omega)

theorem newer_consistent {c : Console} (consistent : c.Consistent) : c.newer.Consistent := by
  unfold newer
  split
  · exact consistent
  · split
    · exact consistent
    · split
      · next inside => exact showRecalled_consistent consistent inside
      · exact { consistent.withInput Toolkit.held_nil with recalled := nofun }

theorem complete_consistent {c : Console} (consistent : c.Consistent) : c.complete.Consistent := by
  unfold complete
  dsimp only
  split
  · exact consistent
  · split
    · exact consistent
    · exact consistent.withInput (consistent.lawful.clean_held _)
    · exact consistent.reportNote _

/-- Every event keeps the invariant. -/
theorem update_consistent {budget : Nat} {c c' : Console} {e : Event} (consistent : c.Consistent)
    (updated : c.update budget e = some c') : c'.Consistent := by
  cases e with
  | submit => exact submit_consistent consistent updated
  | set t =>
      cases updated
      exact consistent.withInput (consistent.lawful.clean_held t)
  | type t =>
      cases updated
      exact consistent.withInput (consistent.lawful.typed_held c.input t consistent.held)
  | erase =>
      cases updated
      exact consistent.withInput (consistent.lawful.erased_held c.input consistent.held)
  | discard =>
      cases updated
      exact discard_consistent consistent
  | older =>
      cases updated
      exact older_consistent consistent
  | newer =>
      cases updated
      exact newer_consistent consistent
  | complete =>
      cases updated
      exact complete_consistent consistent
  | clear =>
      cases updated
      exact { consistent with sourceLines := nofun }
  | toggleBindings | toggleGrammar | quit | resize width height =>
      cases updated
      exact { consistent with }

/-- What every event keeps, several events keep. -/
theorem updates_preserve {budget : Nat} {holds : Console → Prop}
    (step : ∀ {c next : Console} {e : Event}, holds c → c.update budget e = some next → holds next) :
    ∀ {events : List Event} {c last : Console}, holds c → updates budget c events = some last → holds last
  | [], c, last, held, done => by
      cases done
      exact held
  | e :: rest, c, last, held, done => by
      obtain ⟨next, updated, others⟩ := Option.bind_eq_some_iff.mp done
      exact updates_preserve step (step held updated) others

/-- **A session is consistent whatever happens in it.** After any events from the start, with any lawful
toolkit, the prompt tells whether a block is open; the open block is open at each of its lines and begins
with neither an empty line nor a command; the recalled line is a remembered one; no remembered line is
empty; and no pending, remembered or shown source line holds a line feed. -/
theorem updates_consistent {kit : Toolkit} (lawful : kit.Lawful) {budget : Nat} {events : List Event}
    {c : Console} (reached : updates budget (start kit) events = some c) : c.Consistent :=
  updates_preserve update_consistent (start_consistent lawful) reached

/-- A source is run, a command is carried out, and a block is left open at its third line, which is
blank; then the newest remembered line is recalled and its end erased. -/
theorem updates_consistent_open_block :
    ∃ c : Console, updates 2 initial
        [.set (utf8 "n = 1"), .submit, .set (utf8 " :b"), .submit, .set (utf8 "while n < 2 \x7b"),
          .submit, .type (utf8 "n = n\n+ 1"), .submit, .set (utf8 "\t"), .submit, .older, .erase] =
        some c ∧
      c.pending = [utf8 "while n < 2 \x7b", utf8 "n = n + 1", utf8 " "] ∧
      c.remembered = [utf8 "n = 1", utf8 "while n < 2 \x7b", utf8 "n = n + 1"] ∧
      c.recallAt = some 2 ∧ c.input = utf8 "n = n + " ∧ c.prompt = .continuation ∧ c.Consistent := by
  have computed : ((updates 2 initial
      [.set (utf8 "n = 1"), .submit, .set (utf8 " :b"), .submit, .set (utf8 "while n < 2 \x7b"),
        .submit, .type (utf8 "n = n\n+ 1"), .submit, .set (utf8 "\t"), .submit, .older, .erase]).any
      fun c => decide (c.pending = [utf8 "while n < 2 \x7b", utf8 "n = n + 1", utf8 " "] ∧
        c.remembered = [utf8 "n = 1", utf8 "while n < 2 \x7b", utf8 "n = n + 1"] ∧
        c.recallAt = some 2 ∧ c.input = utf8 "n = n + " ∧ c.prompt = .continuation)) = true := by
    decide +kernel
  obtain ⟨c, reached, checked⟩ := (Option.any_eq_true _ _).mp computed
  obtain ⟨pending, remembered, recalled, input, prompt⟩ := of_decide_eq_true checked
  exact ⟨c, reached, pending, remembered, recalled, input, prompt,
    updates_consistent Toolkit.standard_lawful reached⟩

end Console

end LoopScript
