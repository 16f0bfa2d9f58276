/-
# LoopScript.Proofs.Console.Inspection — a text is told apart by how it is shown

Tools show a text in quotes. What is quoted can be read back (`Text.dequote_quote`), and nothing but a text is
shown with a quote at the beginning, so only that text is shown so (`Value.inspect_eq_text_iff`). All that is
written between the quotes is printable or an escape (`Text.chars_quote_not_control`), so a line that shows a
text is one line, whatever bytes the text holds.

In a session two kinds of lines show values: the echo of an assignment, and the rows of the bindings. Names
are words there and the one function has a word for its name, so these lines are single lines as well.
-/
import LoopScript.Proofs.Console.Contents
import LoopScript.Proofs.Text.Lines

namespace LoopScript

set_option autoImplicit false

theorem Text.isUtf8_ofChars (cs : List Char) : (ofChars cs).isUtf8 = true := by
  rw [isUtf8, runes_ofChars, List.all_eq_true]
  intro r member
  obtain ⟨c, -, rfl⟩ := List.mem_map.mp member
  rw [Rune.ofChar_not_stray]
  rfl

namespace Console

theorem newline_notMem_bindingRows {env : Env} (native : env.Native) :
    ∀ line ∈ bindingRows env, Text.newline ∉ line := by
  have word : ∀ e ∈ env.entries, Text.newline ∉ e.1 := fun e member =>
    (native.names e.1 (List.mem_map_of_mem member)).newline_notMem
  have data : ∀ e ∈ env.entries, Text.newline ∉ bindingLine e.1 e.2 := by
    intro e member
    have kind : Text.newline ∉ e.2.kind.name := by cases e.2.kind <;> decide
    have value := native.newline_notMem_inspect (Table.get?_of_mem (n := e.1) (a := e.2) member)
    simp only [bindingLine, List.mem_append, not_or]
    exact ⟨⟨⟨⟨word e member, by decide⟩, kind⟩, by decide⟩, value⟩
  unfold bindingRows
  simp only [List.forall_mem_append]
  refine ⟨⟨by decide, ?_⟩, ?_⟩
  · split
    · decide
    · rintro _ member
      obtain ⟨e, inside, rfl⟩ := List.mem_map.mp member
      exact data e (List.mem_filter.mp inside).1
  · split
    · exact List.forall_mem_nil _
    · refine List.forall_mem_singleton.mpr ?_
      rw [List.mem_append, not_or]
      refine ⟨by decide, newline_notMem_joinWith (by decide) ?_⟩
      rintro _ member
      obtain ⟨e, inside, rfl⟩ := List.mem_map.mp member
      exact word e (List.mem_filter.mp inside).1

theorem Tidy.newline_notMem_echo {c : Console} (tidy : c.Tidy) {e : Entry} (member : e ∈ c.transcript) :
    Text.newline ∉ e.echo := by
  by_cases none : e.echo = []
  · rw [none]
    exact List.not_mem_nil
  · apply tidy.entries e member
    simp [Entry.lines, lineOf, none]

/-- **How a text is shown tells which text it is, on one line.** A value that is shown as a text is shown is
that text, whatever bytes it holds. What is shown is well encoded and holds no control character, line feeds
among them. So in a session that any events have led to, with any toolkit, every echo and every row of the
bindings is a single line, and the text that is framed to show the bindings has these rows for its lines. -/
theorem inspect_tells_text (t : Text) :
    (∀ v : Value, v.inspect = (Value.text t).inspect ↔ v = .text t) ∧
    (Value.text t).inspect.isUtf8 = true ∧
    (∀ c ∈ (Value.text t).inspect.chars, Text.isControl c = false) ∧
    Text.newline ∉ (Value.text t).inspect ∧
    ∀ (kit : Toolkit) (budget : Nat) (events : List Event) (c : Console),
      updates budget (start kit) events = some c →
        (∀ e ∈ c.transcript, Text.newline ∉ e.echo) ∧ (∀ row ∈ bindingRows c.env, Text.newline ∉ row) ∧
        Text.splitLines (Text.joinLines (bindingRows c.env)) = bindingRows c.env := by
  refine ⟨fun v => Value.inspect_eq_text_iff, Text.isUtf8_ofChars _, Text.chars_quote_not_control t,
    Text.newline_notMem_quote t, ?_⟩
  intro kit budget events c reached
  have tidy := updates_tidy reached
  have rows := newline_notMem_bindingRows tidy.env
  exact ⟨fun e member => tidy.newline_notMem_echo member, rows,
    Text.splitLines_joinLines (by simp [bindingRows]) rows⟩

/-- A string that reaches over two lines, and an assignment of it. -/
def acrossLines : List Event :=
  [.set (utf8 "while false \x7b \x7d else \x7b x = \"a"), .submit, .set (utf8 "b\" \x7d"), .submit,
    .set (utf8 "y = x"), .submit]

/-- The line feed in the text is shown by a letter, in the echo and in both rows; and a byte that belongs to
no character is not shown as the character of the same number. -/
theorem inspect_tells_text_across_lines :
    ∃ c : Console, updates 5 initial acrossLines = some c ∧
      c.transcript.map Entry.echo = [[], utf8 "y = \"a\\nb\""] ∧
      bindingRows c.env = [utf8 "bindings", utf8 "x string \"a\\nb\"", utf8 "y string \"a\\nb\"",
        utf8 "functions: DISPLAY"] ∧
      (∀ row ∈ bindingRows c.env, Text.newline ∉ row) ∧
      (Value.text [0xFF]).inspect ≠ (Value.text (utf8 "ÿ")).inspect := by
  have computed : ((updates 5 initial acrossLines).any fun c =>
      decide (c.transcript.map Entry.echo = [[], utf8 "y = \"a\\nb\""] ∧
        bindingRows c.env = [utf8 "bindings", utf8 "x string \"a\\nb\"", utf8 "y string \"a\\nb\"",
          utf8 "functions: DISPLAY"])) = true := by
    decide +kernel
  obtain ⟨c, reached, checked⟩ := (Option.any_eq_true _ _).mp computed
  obtain ⟨echoes, rows⟩ := of_decide_eq_true checked
  obtain ⟨only, -, -, -, session⟩ := inspect_tells_text (utf8 "ÿ")
  refine ⟨c, reached, echoes, rows, (session .standard 5 acrossLines c reached).2.1, ?_⟩
  intro same
  have text := (only (.text [0xFF])).mp same
  cases text

end Console

end LoopScript
