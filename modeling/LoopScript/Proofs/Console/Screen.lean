/-
# LoopScript.Proofs.Console.Screen — the view fits the window where it is cut

The screen of a session is one text, put together from single lines and from what the toolkit lays out: the
panel and the help, which may take any number of lines, and the input line, which takes one. Its lines are
the `header`, the transcript lines that are shown, and the `footing` (`splitLines_screen`): no line of the
transcript or of the open block holds a line feed.

By the count of `chrome` all but the transcript takes one line more than it has, two with a panel
(`chrome_eq`). The transcript is cut to what `chrome` leaves of the window, and is not cut if that is
nothing.
-/
import LoopScript.Proofs.Console.Contents
import LoopScript.Proofs.Text.Lines

namespace LoopScript.Console

set_option autoImplicit false

/-! ## The lines of the screen -/

def header : List Text := [title, []]

def footing (c : Console) : List Text :=
  linesOf c.panelText ++ prompted c.pending ++ [c.inputText] ++ Text.splitLines c.helpText

theorem splitLines_ended (t rest : Text) :
    Text.splitLines (ended t ++ rest) = Text.splitLines t ++ Text.splitLines rest := by
  rw [ended, List.append_assoc]
  exact Text.splitLines_append_newline t rest

theorem splitLines_flatMap_ended {lines : List Text} (absent : ∀ line ∈ lines, Text.newline ∉ line)
    (rest : Text) : Text.splitLines (lines.flatMap ended ++ rest) = lines ++ Text.splitLines rest := by
  induction lines with
  | nil => rfl
  | cons line more ih =>
      obtain ⟨first, others⟩ := List.forall_mem_cons.mp absent
      rw [List.flatMap_cons, List.append_assoc, splitLines_ended, ih others,
        Text.splitLines_of_notMem first]
      rfl

theorem splitLines_panel (panel rest : Text) :
    Text.splitLines ((if panel = [] then [] else ended panel) ++ rest) =
      linesOf panel ++ Text.splitLines rest := by
  unfold linesOf
  split
  · rfl
  · exact splitLines_ended panel rest

theorem newline_notMem_inputText {c : Console} (consistent : c.Consistent) :
    Text.newline ∉ c.inputText := by
  have prompt : Text.newline ∉ c.prompt.text := by cases c.prompt <;> decide
  exact consistent.lawful.field_line _ _ _ _ prompt (by decide) consistent.inputLine

theorem fit_suffix (room : Int) (lines : List Text) : fit room lines <:+ lines := by
  unfold fit
  split
  · exact List.drop_suffix _ _
  · exact List.suffix_rfl

theorem Tidy.newline_notMem_transcriptLines {c : Console} (tidy : c.Tidy) :
    ∀ line ∈ c.transcriptLines, Text.newline ∉ line := by
  intro line member
  obtain ⟨e, inside, shown⟩ := List.mem_flatMap.mp member
  exact tidy.entries e inside line shown

/-- The lines of the screen are those above the transcript, those of it that are shown, and those below. -/
theorem splitLines_screen {c : Console} (tidy : c.Tidy) (consistent : c.Consistent) (ready : c.ready = true)
    (staying : c.quitting = false) :
    Text.splitLines c.screen = header ++ c.shownTranscript ++ c.footing := by
  have shown : ∀ line ∈ c.shownTranscript, Text.newline ∉ line := fun line member =>
    tidy.newline_notMem_transcriptLines line ((fit_suffix _ _).subset member)
  have block := newline_notMem_prompted consistent.pendingLines
  have above : Text.splitLines title = [title] := Text.splitLines_of_notMem (by decide)
  have input := Text.splitLines_of_notMem (newline_notMem_inputText consistent)
  simp only [screen, ready, staying, Bool.not_true, if_neg Bool.false_ne_true, List.append_assoc]
  rw [splitLines_ended, splitLines_ended, splitLines_flatMap_ended shown, splitLines_panel,
    splitLines_flatMap_ended block, splitLines_ended, above, input]
  simp [header, footing, Text.splitLines, Text.splitAt]

theorem splitLines_cleared {c : Console} (tidy : c.Tidy) (consistent : c.Consistent) (ready : c.ready = true)
    (staying : c.quitting = false) :
    Text.splitLines { c with transcript := [] }.screen = header ++ c.footing := by
  have cleared : { c with transcript := [] }.Tidy := { tidy with entries := List.forall_mem_nil _ }
  have still : { c with transcript := [] }.Consistent :=
    { consistent with sourceLines := List.forall_mem_nil _ }
  have none : { c with transcript := [] }.shownTranscript = [] := List.suffix_nil.mp (fit_suffix _ _)
  rw [splitLines_screen cleared still ready staying, none, List.append_nil]
  rfl

/-! ## The count of lines -/

theorem length_prompted (lines : List Text) : (prompted lines).length = lines.length := by
  cases lines with
  | nil => rfl
  | cons first more => simp [prompted]

/-- By the count that the transcript is cut to, all else takes one line more than it has, and another one if
a panel is shown. -/
theorem chrome_eq {c : Console} (lawful : c.toolkit.Lawful) :
    c.chrome = (header ++ c.footing).length + (if c.panelText = [] then 1 else 2) := by
  simp only [chrome, lawful.height_eq, header, footing, linesOf, List.length_append, List.length_cons,
    List.length_nil, length_prompted]
  split
  · simp only [List.length_nil]
    omega
  · omega

/-- There are as many lines of the transcript as there is room for. -/
theorem length_fit_eq {room : Int} (some : 0 < room) (lines : List Text) :
    ((fit room lines).length : Int) = min (lines.length : Int) room := by
  rw [fit, if_pos some, List.length_drop]
  omega

/-- **The view fits the window where there is room for the transcript, and shows the newest of it.** Let a
session that any events have led to, with any lawful toolkit, know the height of its window, and let it not
be quitting. Its screen is the one that it would show without a transcript, with an end of the transcript in
between. If the window is higher than the screen without a transcript by more than one line, or by more than
two if a panel is shown, the transcript gets all lines but that one or two, and the screen fits. It also fits
if it does with the whole transcript. -/
theorem screen_fits {kit : Toolkit} (lawful : kit.Lawful) {budget : Nat} {events : List Event} {c : Console}
    (reached : updates budget (start kit) events = some c) (ready : c.ready = true)
    (staying : c.quitting = false) :
    Text.splitLines c.screen = header ++ c.shownTranscript ++ c.footing ∧
    Text.splitLines { c with transcript := [] }.screen = header ++ c.footing ∧
    c.shownTranscript <:+ c.transcriptLines ∧
    let spare : Int := c.height - (header ++ c.footing).length - (if c.panelText = [] then 1 else 2)
    (0 < spare → (c.shownTranscript.length : Int) = min (c.transcriptLines.length : Int) spare) ∧
    (0 < spare ∨ ((header ++ c.transcriptLines ++ c.footing).length : Int) ≤ c.height →
      ((Text.splitLines c.screen).length : Int) ≤ c.height) := by
  have tidy := updates_tidy reached
  have consistent := updates_preserve update_consistent (start_consistent lawful) reached
  have whole := splitLines_screen tidy consistent ready staying
  have suffix : c.shownTranscript <:+ c.transcriptLines := fit_suffix _ _
  have count := chrome_eq consistent.lawful
  refine ⟨whole, ?_, suffix, fun room => ?_, fun fits => ?_⟩
  · exact splitLines_cleared tidy consistent ready staying
  · rw [shownTranscript, length_fit_eq (by omega)]
    omega
  · rw [whole]
    rw [List.length_append] at count
    simp only [List.length_append] at fits ⊢
    rcases fits with room | fits
    · have shown : (c.shownTranscript.length : Int) ≤ c.height - c.chrome :=
        length_fit (by omega) c.transcriptLines
      have extra : (0 : Int) < if c.panelText = [] then 1 else 2 := by split <;> decide
      omega
    · have shown := suffix.length_le
      omega

/-- Two sources, and a window with room for two of the four lines of the transcript. -/
def twoSources : List Event :=
  [.set (utf8 "x = 1"), .submit, .set (utf8 "DISPLAY(2)"), .submit, .resize 200 7]

theorem screen_fits_two_lines :
    ∃ c : Console, updates 3 initial twoSources = some c ∧
      c.transcriptLines = [utf8 "code> x = 1", utf8 "x = 1", utf8 "code> DISPLAY(2)", utf8 "2"] ∧
      c.shownTranscript = [utf8 "code> DISPLAY(2)", utf8 "2"] ∧
      Text.splitLines c.screen = header ++ c.shownTranscript ++ c.footing ∧
      ((Text.splitLines c.screen).length : Int) ≤ 7 := by
  have computed : ((updates 3 initial twoSources).any fun c =>
      decide (c.ready = true ∧ c.quitting = false ∧ c.height = 7 ∧ c.panelText = [] ∧
        (header ++ c.footing).length = 4 ∧
        c.transcriptLines = [utf8 "code> x = 1", utf8 "x = 1", utf8 "code> DISPLAY(2)", utf8 "2"] ∧
        c.shownTranscript = [utf8 "code> DISPLAY(2)", utf8 "2"])) = true := by
    decide +kernel
  obtain ⟨c, reached, checked⟩ := (Option.any_eq_true _ _).mp computed
  obtain ⟨ready, staying, height, closed, rest, lines, shown⟩ := of_decide_eq_true checked
  obtain ⟨screen, -, -, -, fits⟩ :=
    screen_fits Toolkit.standard_lawful reached ready staying
  rw [height, closed, rest] at fits
  exact ⟨c, reached, lines, shown, screen, fits (.inl (by decide))⟩

/-- A window of four lines holds the screen without a transcript, but not the one with two lines of it:
where there is no room for the transcript, it is not cut. -/
theorem screen_exceeds_full_window :
    ∃ c : Console, updates 3 initial [.set (utf8 "x = 1"), .submit, .resize 200 4] = some c ∧
      c.ready = true ∧ c.quitting = false ∧ c.height = 4 ∧
      (Text.splitLines { c with transcript := [] }.screen).length = 4 ∧
      (Text.splitLines c.screen).length = 6 := by
  have computed : ((updates 3 initial [.set (utf8 "x = 1"), .submit, .resize 200 4]).any fun c =>
      decide (c.ready = true ∧ c.quitting = false ∧ c.height = 4 ∧ (header ++ c.footing).length = 4 ∧
        (header ++ c.shownTranscript ++ c.footing).length = 6)) = true := by
    decide +kernel
  obtain ⟨c, reached, checked⟩ := (Option.any_eq_true _ _).mp computed
  obtain ⟨ready, staying, height, rest, whole⟩ := of_decide_eq_true checked
  have tidy := updates_tidy reached
  have consistent := updates_preserve update_consistent
    (start_consistent Toolkit.standard_lawful) reached
  refine ⟨c, reached, ready, staying, height, ?_, ?_⟩
  · rw [splitLines_cleared tidy consistent ready staying]
    exact rest
  · rw [splitLines_screen tidy consistent ready staying]
    exact whole

end LoopScript.Console
