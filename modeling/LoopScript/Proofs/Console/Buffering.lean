/-
# LoopScript.Proofs.Console.Buffering — an open block is counted line by line

A session keeps the lines of a block while braces are open in them, and counts the braces of all lines
joined, each time anew. Tokens are found line by line (`Token.tokens_join`), and where they stand does not
matter to the count, so two sources joined by a line feed have the open braces of both (`openBraces_join`).
The count of a block is therefore that of its lines, added up (`openBraces_block`): a session that kept the
sum alone would wait for the same lines (`addLine_counts`).

This holds of lines that leave no string open. An open string reaches over the line feed, and the braces
behind it are text.
-/
import LoopScript.Proofs.Braces
import LoopScript.Proofs.Token.Join

namespace LoopScript

set_option autoImplicit false

namespace Text

/-- A line that is added to others stands behind a line feed. -/
theorem joinLines_concat {lines : List Text} (some : lines ≠ []) (last : Text) :
    joinLines (lines ++ [last]) = joinLines lines ++ newline :: last := by
  induction lines with
  | nil => exact absurd rfl some
  | cons first rest ih =>
      cases rest with
      | nil => simp [joinLines, joinWith]
      | cons next more =>
          have later := ih (List.cons_ne_nil next more)
          rw [joinLines, joinLines] at later
          simp only [joinLines, List.cons_append, joinWith_cons_cons] at later ⊢
          rw [later]
          simp

end Text

namespace Token

/-! ## Counting -/

@[simp]
theorem opens_relocate (f : Position → Position) (t : Token) : (t.relocate f).opens = t.opens := rfl

/-- The count does not depend on where the tokens stand. -/
@[simp]
theorem openBracesOf_relocate (f : Position → Position) (ts : List Token) :
    openBracesOf (ts.map (relocate f)) = openBracesOf ts := by
  induction ts with
  | nil => rfl
  | cons t rest ih => simp [ih]

/-- Joined sources have the open braces of both, if the first leaves no string open. -/
theorem openBraces_join (a b : Text) (closed : ∀ t ∈ tokens a, t.kind ≠ .unterminated) :
    openBraces (a ++ Text.newline :: b) = openBraces a + openBraces b := by
  rw [openBraces, tokens_join a b closed, openBracesOf_append, openBracesOf_relocate, openBraces,
    openBraces]

/-- An open string hides the brace on the next line. -/
example : openBraces (utf8 "x = \"" ++ Text.newline :: utf8 "\x7b") = 0 := by decide +kernel

/-- The open braces of lines, each line for itself, added up. -/
def openBracesByLine : List Text → Int
  | [] => 0
  | line :: rest => openBraces line + openBracesByLine rest

/-- The open braces of a block are those of its lines, if only the last may leave a string open. -/
theorem openBraces_block (lines : List Text) (last : Text)
    (closed : ∀ line ∈ lines, ∀ t ∈ tokens line, t.kind ≠ .unterminated) :
    openBraces (Text.joinLines (lines ++ [last])) = openBracesByLine lines + openBraces last := by
  induction lines with
  | nil => simp [Text.joinLines, Text.joinWith, openBracesByLine]
  | cons first rest ih =>
      obtain ⟨here, others⟩ := List.forall_mem_cons.mp closed
      have joined : Text.joinLines (first :: rest ++ [last]) =
          first ++ Text.newline :: Text.joinLines (rest ++ [last]) := by
        simp [Text.joinLines, Text.joinWith_cons_of_ne_nil]
      rw [joined, openBraces_join first _ here, ih others, openBracesByLine]
      omega

end Token

/-! ## Sessions -/

namespace Console

open Token (tokens openBraces openBracesByLine)

/-- A session waits for more lines just while the counts of the lines add up to open braces. -/
theorem addLine_counts (budget : Nat) (c : Console) (line : Text)
    (closed : ∀ l ∈ c.pending, ∀ t ∈ tokens l, t.kind ≠ .unterminated) :
    c.addLine budget line =
      if 0 < openBracesByLine c.pending + openBraces line then
        some { c with pending := c.pending ++ [line], prompt := .continuation }
      else { c with pending := [], prompt := .main }.evaluate budget
        (Text.joinLines (c.pending ++ [line])) := by
  rw [addLine, ← Token.openBraces_block c.pending line closed]

end Console

/-- **Tokens are found line by line, and so are open braces.** Let a source leave no string open, and let
another follow it behind a line feed. The tokens are those of the first and then those of the second, and
the end is that of the second, moved down by the lines of the first, columns unchanged. The open braces are
those of the first and those of the second. So a session in which the first is the open block waits for
another line, or runs the block, as these two counts tell. -/
theorem Token.lexing_by_line (a b : Text) (closed : ∀ t ∈ tokens a, t.kind ≠ .unterminated) :
    tokens (a ++ Text.newline :: b) =
      tokens a ++ (tokens b).map (relocate (Position.shift (a.count Text.newline + 1))) ∧
    endOf (a ++ Text.newline :: b) = (endOf b).shift (a.count Text.newline + 1) ∧
    openBraces (a ++ Text.newline :: b) = openBraces a + openBraces b ∧
    ∀ (budget : Nat) (c : Console), c.pending ≠ [] → Text.joinLines c.pending = a →
      c.addLine budget b =
        if 0 < openBraces a + openBraces b then
          some { c with pending := c.pending ++ [b], prompt := .continuation }
        else { c with pending := [], prompt := .main }.evaluate budget (a ++ Text.newline :: b) := by
  refine ⟨tokens_join a b closed, endOf_join a b, openBraces_join a b closed, ?_⟩
  intro budget c block joined
  have source : Text.joinLines (c.pending ++ [b]) = a ++ Text.newline :: b := by
    rw [Text.joinLines_concat block, joined]
  rw [Console.addLine, source, openBraces_join a b closed]

/-- Two lines of a loop, of which the second is a comment that ends in two bytes of a longer character. -/
def Token.cutComment : List Text := [utf8 "while x \x7b", utf8 "# " ++ [0xE2, 0x82]]

/-- The third byte of that character, a closing brace, and a quote. -/
def Token.cutClosing : Text := [0xAC] ++ utf8 " \x7d \""

/-- The third byte is a token of its own on the third line, and the brace behind it closes the block, although
the quote leaves a string open: the session runs the block. -/
theorem Token.lexing_by_line_cut_comment :
    (∀ t ∈ tokens (Text.joinLines cutComment), t.kind ≠ .unterminated) ∧
    (tokens (Text.joinLines cutComment ++ Text.newline :: cutClosing)).map Token.pos =
      [⟨1, 1⟩, ⟨1, 7⟩, ⟨1, 9⟩, ⟨3, 1⟩, ⟨3, 3⟩, ⟨3, 5⟩] ∧
    endOf (Text.joinLines cutComment ++ Text.newline :: cutClosing) = ⟨3, 5⟩ ∧
    openBraces (Text.joinLines cutComment ++ Text.newline :: cutClosing) = 0 ∧
    { Console.initial with pending := cutComment, prompt := .continuation }.addLine 1 cutClosing =
      Console.initial.evaluate 1 (Text.joinLines cutComment ++ Text.newline :: cutClosing) := by
  have closed : ∀ t ∈ tokens (Text.joinLines cutComment), t.kind ≠ .unterminated := by decide +kernel
  obtain ⟨whole, stop, braces, session⟩ := lexing_by_line (Text.joinLines cutComment) cutClosing closed
  have before : openBraces (Text.joinLines cutComment) = 1 := by decide +kernel
  have behind : openBraces cutClosing = -1 := by decide +kernel
  refine ⟨closed, ?_, ?_, ?_, ?_⟩
  · rw [whole]
    decide +kernel
  · rw [stop]
    decide +kernel
  · rw [braces, before, behind]
    rfl
  · rw [session 1 { Console.initial with pending := cutComment, prompt := .continuation }
      (List.cons_ne_nil _ _) rfl, before, behind]
    rfl

end LoopScript
