/-
# LoopScript.Proofs.Frame — the caret of a frame stands under the token it is about

Positions are counted when a source is cut into tokens, rune by rune from its beginning. A frame is made
later and from a single line, which it cuts out of the source and makes fit for printing. The two agree:
the frame of a token's place shows the line the token stands in, its header gives that very place, and
its caret stands under the first rune of the token (`Token.framed`). The column is never brought into the
line, since it is inside already: carriage returns are dropped at the end of the line only, a tab gives
one rune for one, and no token begins with either.

For positions that no token has, `codeFrame_eq_nil_iff` says when there is no frame, and `framed_clamped`
where the caret stands if there is one. `frames_point` puts these together, for tokens, for the nodes of
a tree and for diagnostics.
-/
import LoopScript.Proofs.Parser.Places
import LoopScript.Proofs.Text.Lines
import LoopScript.Proofs.Token.Lexeme
import LoopScript.Proofs.Tree.Marks

namespace LoopScript

set_option autoImplicit false

namespace Text

/-- A text without an ASCII byte has no rune that reads as that byte. -/
theorem char_ne_of_notMem {d : UInt8} (ascii : d.toNat < 0x80) {t : Text} (absent : d ∉ t) :
    ∀ r ∈ t.runes, r.char ≠ Char.ofNat d.toNat := by
  intro r member
  rw [← Glyph.map_rune_place t.runes .start] at member
  obtain ⟨g, placed, rfl⟩ := List.mem_map.mp member
  exact Glyph.char_ne_of_notMem ascii absent .start g placed

/-! ## Lines made fit for printing -/

def carriageReturn : UInt8 := 13

def untab (b : UInt8) : UInt8 := if b = 9 then space else b

def untabRune (r : Rune) : Rune := if r.char = '\t' then asciiRune space else r

/-- A text without tabs stays as it is. -/
theorem untab_of_notMem {t : Text} (absent : 9 ∉ t) :
    t.map untab = t ∧ t.runes.map untabRune = t.runes := by
  constructor
  · refine (List.map_congr_left fun b member => if_neg ?_).trans (List.map_id t)
    rintro rfl
    exact absent member
  · refine (List.map_congr_left fun r member => if_neg ?_).trans (List.map_id _)
    exact char_ne_of_notMem (d := 9) (by decide) absent r member

/-- Giving a space for each tab changes these runes and no others. -/
theorem runes_untab (t : Text) : runes (t.map untab) = t.runes.map untabRune := by
  by_cases member : 9 ∈ t
  · obtain ⟨before, rest, parts, absent⟩ := List.eq_append_cons_of_mem member
    have ih := runes_untab rest
    obtain ⟨bytes, runes⟩ := untab_of_notMem absent
    have tab : untab 9 = space := rfl
    have tabRune : untabRune ⟨Char.ofNat (9 : UInt8).toNat, [9]⟩ = asciiRune space := rfl
    rw [parts, List.map_append, List.map_cons, bytes, tab, runes_append_ascii (by decide), ih,
      runes_append_ascii (by decide), List.map_append, List.map_cons, runes, tabRune]
    rfl
  · obtain ⟨bytes, runes⟩ := untab_of_notMem member
    rw [bytes, runes]
termination_by t.length
decreasing_by
  rw [parts, List.length_append, List.length_cons]
  omega

end Text

open Text

namespace Frame

/-- The line without the carriage returns at its end, and with a space for each tab. -/
def Shows (line shown : Text) : Prop :=
  ∃ (kept : Text) (returns : Nat), line = kept ++ List.replicate returns carriageReturn ∧
    kept.getLast? ≠ some carriageReturn ∧ shown = kept.map untab

theorem present_shows (line : Text) : Shows line (present line) := by
  refine ⟨dropEndWhile (· == 13) line, (line.reverse.takeWhile (· == 13)).length, ?_, ?_, rfl⟩
  · have returns : (line.reverse.takeWhile (· == 13)).reverse =
        List.replicate (line.reverse.takeWhile (· == 13)).length carriageReturn := by
      refine List.eq_replicate_iff.mpr ⟨List.length_reverse, fun b member => ?_⟩
      have taken : (b == 13) = true := List.mem_takeWhile_imp (p := (· == 13)) (List.mem_reverse.mp member)
      exact eq_of_beq taken
    rw [← returns, dropEndWhile, ← List.reverse_append, List.takeWhile_append_dropWhile,
      List.reverse_reverse]
  · intro last
    have first := List.head?_dropWhile_not (· == 13) line.reverse
    rw [dropEndWhile, List.getLast?_reverse] at last
    rw [last] at first
    exact absurd first (by decide)

/-- A rune of the line that is neither a carriage return nor a tab stands in the shown line as well, with
as many runes before it. -/
theorem Shows.getElem? {line shown : Text} (fits : Shows line shown) {i : Nat} {r : Rune}
    (there : line.runes[i]? = some r) (noReturn : r.char ≠ '\r') (noTab : r.char ≠ '\t') :
    shown.runes[i]? = some r := by
  obtain ⟨kept, returns, rfl, -, rfl⟩ := fits
  have ascii : ∀ b ∈ List.replicate returns carriageReturn, b.toNat < 0x80 := by
    intro b member
    rw [List.eq_of_mem_replicate member]
    decide
  rw [runes_append_of_ascii kept ascii] at there
  have inside : kept.runes[i]? = some r := by
    rcases Nat.lt_or_ge i kept.runes.length with less | behind
    · rwa [List.getElem?_append_left less] at there
    · rw [List.getElem?_append_right behind] at there
      have member := List.mem_of_getElem? there
      rw [List.map_replicate] at member
      rw [List.eq_of_mem_replicate member] at noReturn
      exact absurd rfl noReturn
  rw [runes_untab, List.getElem?_map, inside, Option.map_some, untabRune, if_neg noTab]

theorem Shows.notMem_newline {line shown : Text} (fits : Shows line shown) (absent : newline ∉ line) :
    newline ∉ shown := by
  obtain ⟨kept, returns, rfl, -, rfl⟩ := fits
  intro member
  obtain ⟨b, inside, same⟩ := List.mem_map.mp member
  unfold untab at same
  split at same
  · exact absurd same (by decide)
  · subst same
    exact absent (List.mem_append_left _ inside)

/-! ## The lines of a frame -/

def header (f : Frame) : Text := utf8 "  --> line " ++ ofNat f.line ++ utf8 ", column " ++ ofNat f.column

/-- The shown line behind its number. -/
def numbered (f : Frame) : Text := utf8 " " ++ ofNat f.line ++ utf8 " | " ++ f.shown

/-- The line of the caret, which has blanks in place of the number. -/
def pointer (f : Frame) : Text :=
  utf8 " " ++ List.replicate (ofNat f.line).length space ++ utf8 " | " ++
    List.replicate (f.column - 1) space ++ utf8 "^"

def lines (f : Frame) : List Text := [f.header, f.numbered, f.pointer]

/-- The caret stands right under this rune of the line above it. -/
def CaretUnder (f : Frame) (r : Rune) : Prop :=
  ∃ k : Nat, f.numbered.runes[k]? = some r ∧ f.pointer.runes[k]? = some (Rune.ofChar '^')

theorem render_eq_joinLines (f : Frame) : f.render = joinLines f.lines := by
  have feed : utf8 "\n " = newline :: utf8 " " := rfl
  simp only [render, lines, header, numbered, pointer, joinLines, joinWith, feed, List.append_assoc,
    List.cons_append, List.nil_append]

theorem newline_notMem_spaces (n : Nat) : newline ∉ List.replicate n space := by
  intro member
  exact absurd (List.eq_of_mem_replicate member) (by decide)

theorem splitLines_render {f : Frame} (absent : newline ∉ f.shown) : splitLines f.render = f.lines := by
  rw [render_eq_joinLines]
  refine splitLines_joinLines (List.cons_ne_nil _ _) ?_
  have texts : newline ∉ utf8 "  --> line " ∧ newline ∉ utf8 ", column " ∧ newline ∉ utf8 " " ∧
      newline ∉ utf8 " | " ∧ newline ∉ utf8 "^" := by decide
  obtain ⟨line, column, space, bar, caret⟩ := texts
  simp only [lines, header, numbered, pointer, List.forall_mem_cons, List.mem_append, not_or]
  exact ⟨⟨⟨⟨line, newline_notMem_ofNat _⟩, column⟩, newline_notMem_ofNat _⟩,
    ⟨⟨⟨space, newline_notMem_ofNat _⟩, bar⟩, absent⟩,
    ⟨⟨⟨⟨space, newline_notMem_spaces _⟩, bar⟩, newline_notMem_spaces _⟩, caret⟩, nofun⟩

theorem render_ne_nil (f : Frame) : f.render ≠ [] := by
  intro none
  have begins : (f.render).head? = some space := rfl
  rw [none] at begins
  cases begins

/-- The caret of a column stands under the rune of that column. -/
theorem caretUnder {f : Frame} {r : Rune} (there : f.shown.runes[f.column - 1]? = some r) :
    f.CaretUnder r := by
  have signs : (∀ b ∈ utf8 " ", b.toNat < 0x80) ∧ ∀ b ∈ utf8 " | ", b.toNat < 0x80 :=
    ⟨ascii_of_all (by decide), ascii_of_all (by decide)⟩
  have digits : ∀ b ∈ ofNat f.line, b.toNat < 0x80 := by
    intro b member
    have most := (ofNat_digits f.line b member).2
    omega
  have blanks : ∀ n, ∀ b ∈ List.replicate n space, b.toNat < 0x80 := by
    intro n b member
    rw [List.eq_of_mem_replicate member]
    decide
  have label : ∀ b ∈ utf8 " " ++ ofNat f.line ++ utf8 " | ", b.toNat < 0x80 := by
    simp only [List.forall_mem_append]
    exact ⟨⟨signs.1, digits⟩, signs.2⟩
  have gutter : ∀ b ∈ utf8 " " ++ List.replicate (ofNat f.line).length space ++ utf8 " | " ++
      List.replicate (f.column - 1) space, b.toNat < 0x80 := by
    simp only [List.forall_mem_append]
    exact ⟨⟨⟨signs.1, blanks _⟩, signs.2⟩, blanks _⟩
  -- Both lines have as many runes in front of the shown line as the label has bytes.
  refine ⟨(utf8 " " ++ ofNat f.line ++ utf8 " | ").length + (f.column - 1), ?_, ?_⟩
  · rw [numbered, runes_ascii_append label, List.getElem?_append_right (by simp), List.length_map,
      Nat.add_sub_cancel_left]
    exact there
  · have width : ((utf8 " " ++ List.replicate (ofNat f.line).length space ++ utf8 " | " ++
        List.replicate (f.column - 1) space).map asciiRune).length =
          (utf8 " " ++ ofNat f.line ++ utf8 " | ").length + (f.column - 1) := by
      simp only [List.length_map, List.length_append, List.length_replicate]
    rw [pointer, runes_ascii_append gutter, ← width, List.getElem?_append_right (Nat.le_refl _),
      Nat.sub_self]
    rfl

/-! ## The frame of a position -/

/-- A source has a frame for the lines it has, if it is not empty. -/
theorem at?_eq_none_iff (source : Text) (pos : Position) :
    at? source pos = none ↔
      source = [] ∨ pos.line < 1 ∨ ((splitLines source).length : Int) < pos.line := by
  unfold at?
  split
  · next nothing =>
      refine ⟨fun _ => ?_, fun _ => rfl⟩
      rcases nothing with empty | small
      · exact .inl empty
      · exact .inr (.inl (by omega))
  · next something =>
      rw [not_or] at something
      split
      · next missing =>
          have behind := List.getElem?_eq_none_iff.mp missing
          refine ⟨fun _ => .inr (.inr ?_), fun _ => rfl⟩
          omega
      · next line found =>
          have inside := (List.getElem?_eq_some_iff.mp found).1
          refine ⟨nofun, ?_⟩
          rintro (empty | small | behind)
          · exact absurd empty something.1
          · omega
          · omega

theorem clampColumn_eq (column : Int) (width : Nat) :
    clampColumn column width = (max 1 (min column (width + 1))).toNat := by
  unfold clampColumn
  split <;> omega

/-- The frame of a position shows the line of the position, and has its column brought into that line or
right behind it. -/
theorem at?_eq_some {source : Text} {pos : Position} {f : Frame} (found : at? source pos = some f) :
    ∃ line, (splitLines source)[(pos.line - 1).toNat]? = some line ∧ Shows line f.shown ∧
      1 ≤ pos.line ∧ f.line = pos.line.toNat ∧
      f.column = (max 1 (min pos.column (f.shown.runes.length + 1))).toNat := by
  unfold at? at found
  split at found
  · cases found
  · next something =>
      split at found
      · cases found
      · next line there =>
          cases found
          refine ⟨line, there, present_shows line, ?_, rfl, clampColumn_eq _ _⟩
          omega

end Frame

/-- There is no frame for an empty source, nor for a line that the source does not have. -/
theorem codeFrame_eq_nil_iff (source : Text) (pos : Position) :
    codeFrame source pos = [] ↔
      source = [] ∨ pos.line < 1 ∨ ((splitLines source).length : Int) < pos.line := by
  rw [← Frame.at?_eq_none_iff, codeFrame]
  cases Frame.at? source pos with
  | none => exact ⟨fun _ => rfl, fun _ => rfl⟩
  | some f => exact ⟨fun none => absurd none f.render_ne_nil, nofun⟩

/-- The frame of a position of the source has three lines: they show the line of the position, and the
caret stands in its column, or in the nearest column between the first and the one behind the line. -/
theorem framed_clamped {source : Text} {pos : Position} (some : codeFrame source pos ≠ []) :
    ∃ line shown, (splitLines source)[(pos.line - 1).toNat]? = .some line ∧ Frame.Shows line shown ∧
      splitLines (codeFrame source pos) =
        Frame.lines ⟨pos.line.toNat, (max 1 (min pos.column (shown.runes.length + 1))).toNat, shown⟩ := by
  unfold codeFrame at some ⊢
  split
  · next f found =>
      obtain ⟨line, there, shows, -, number, column⟩ := Frame.at?_eq_some found
      refine ⟨line, f.shown, there, shows, ?_⟩
      have absent := newline_notMem_line (List.mem_of_getElem? there)
      rw [Frame.splitLines_render (shows.notMem_newline absent), ← number, ← column]
  · next missing =>
      rw [missing] at some
      exact absurd rfl some

/-! ## The frames of tokens -/

namespace Token

open Glyph

/-- The token begins with this rune: the source is cut in front of the bytes of the token, and it is the
first rune of these. -/
def BeginsWith (source : Text) (t : Token) (r : Rune) : Prop :=
  ∃ before span rest, source = before ++ span ++ rest ∧
    source.runes = before.runes ++ span.runes ++ rest.runes ∧ t.pos = before.placeBehind ∧
    Covers t span rest ∧ span.runes.head? = some r

/-- The frame of the token's place has three lines. The header gives that place, the line below it is the
line of the source, and the caret stands under the first rune of the token. -/
def Framed (source : Text) (t : Token) : Prop :=
  ∃ (f : Frame) (line : Text) (r : Rune), splitLines (codeFrame source t.pos) = f.lines ∧
    t.pos = ⟨f.line, f.column⟩ ∧ (splitLines source)[f.line - 1]? = some line ∧
    Frame.Shows line f.shown ∧ t.BeginsWith source r ∧ f.CaretUnder r

/-- A token is cut out of its source between two runes, and the first of its runes is no blank. -/
theorem beginsWith_of_mem_tokens {source : Text} {t : Token} (member : t ∈ tokens source) :
    ∃ before behind r rs, source = before ++ behind ∧ before.runes ++ behind.runes = source.runes ∧
      t.pos = before.placeBehind ∧ behind.runes = r :: rs ∧ isBlank r.char = false ∧
      t.BeginsWith source r := by
  have genuine := genuine_ofText source
  obtain ⟨front, g, rest, split, visible, rfl⟩ := read_of_mem_tokensOf _ genuine t member
  have whole : source = bytesOf front ++ bytesOf (g :: rest) := by
    rw [← bytesOf_append, ← split, bytesOf_ofText]
  have place : g.pos = (bytesOf front).placeBehind := by
    have other : g.char ≠ '\n' := by
      intro feed
      rw [feed] at visible
      cases visible
    rw [pos_eq split, after_endOf other]
  rw [split] at genuine
  obtain ⟨first, ahead⟩ := genuine.parts
  obtain ⟨more, behind, pos, covers⟩ := taken_read ahead
  have cut : source.runes = (bytesOf front).runes ++ (bytesOf (g :: rest)).runes := by
    rw [whole, ← bytesOf_append, genuine, first, ahead, List.map_append]
  have parts : Genuine (g :: more) ∧ Genuine (read g rest).2 := by
    rw [behind, ← List.cons_append] at ahead
    exact ahead.parts
  refine ⟨bytesOf front, bytesOf (g :: rest), g.rune, rest.map rune, whole, cut.symm, pos.trans place,
    ahead, visible, bytesOf front, bytesOf (g :: more), bytesOf (read g rest).2, ?_, ?_, pos.trans place,
    covers, ?_⟩
  · rw [List.append_assoc, ← bytesOf_append, List.cons_append, ← behind]
    exact whole
  · rw [cut, ahead, parts.1, parts.2, List.append_assoc, ← List.map_append, List.cons_append, ← behind]
  · rw [parts.1]
    rfl

/-- The frame of a token gives its place and points at its first rune. -/
theorem framed {source : Text} {t : Token} (member : t ∈ tokens source) : t.Framed source := by
  obtain ⟨before, behind, r, rs, rfl, cut, pos, read, visible, begins⟩ := beginsWith_of_mem_tokens member
  simp only [isBlank, Bool.or_eq_false_iff, beq_eq_false_iff_ne] at visible
  obtain ⟨⟨⟨-, noTab⟩, noReturn⟩, noFeed⟩ := visible
  -- The line of the token has the token's first rune behind those that its column counts.
  have there := splitLines_getElem? before behind
  have rune : (before.lastLine ++ behind.firstLine).runes[before.lastLine.runes.length]? = some r := by
    rw [runes_line cut.symm, List.getElem?_append_right (Nat.le_refl _), Nat.sub_self]
    exact runes_firstLine_zero read noFeed
  have number : t.pos.line = 1 + before.count newline := by rw [pos, placeBehind]
  have column : t.pos.column = 1 + before.lastLine.runes.length := by rw [pos, placeBehind]
  have framed : codeFrame (before ++ behind) t.pos ≠ [] := by
    rw [Ne, codeFrame_eq_nil_iff]
    have inside := (List.getElem?_eq_some_iff.mp there).1
    rintro (empty | small | beyond)
    · rw [(List.append_eq_nil_iff.mp empty).2] at read
      cases read
    · omega
    · omega
  obtain ⟨line, shown, found, shows, lines⟩ := framed_clamped framed
  have index : (t.pos.line - 1).toNat = before.count newline := by omega
  rw [index, there] at found
  obtain rfl := Option.some.inj found
  have pointed := shows.getElem? rune noReturn noTab
  -- So the column is inside the line, and stays as it is.
  have width := (List.getElem?_eq_some_iff.mp pointed).1
  have kept : (max 1 (min t.pos.column (shown.runes.length + 1))).toNat =
      1 + before.lastLine.runes.length := by omega
  have place : t.pos.line.toNat = 1 + before.count newline := by omega
  rw [kept, place] at lines
  refine ⟨_, _, r, lines, ?_, ?_, shows, begins, Frame.caretUnder ?_⟩
  · rw [pos, placeBehind]
    simp
  · rw [Nat.add_sub_cancel_left]
    exact there
  · rw [Nat.add_sub_cancel_left]
    exact pointed

/-- There is a frame for the place of a token. -/
theorem codeFrame_ne_nil {source : Text} {t : Token} (member : t ∈ tokens source) :
    codeFrame source t.pos ≠ [] := by
  obtain ⟨f, line, r, lines, -⟩ := framed member
  intro none
  rw [none] at lines
  cases lines

end Token

/-- **Frames point at what they are about.** The frame of a token has three lines, gives the very place of
the token, shows its line and has the caret under its first rune. This holds of the nodes of a tree and of
diagnostics as well, but for those at the end of the source, since they stand where tokens do. Any other
position has no frame if the source is empty or has no such line, and else one with the caret in the
nearest column that the line has, or in the one behind its end. -/
theorem frames_point (source : Text) :
    (∀ t ∈ Token.tokens source, t.Framed source) ∧
    (∀ p, Program.read source = .ok p →
      ∀ m ∈ p.marks, ∃ t ∈ Token.tokens source, t.mark = m ∧ t.Framed source) ∧
    (∀ ds, Program.read source = .error ds → ∀ d ∈ ds,
      d.found = none ∧ d.pos = endOf source ∨
        ∃ t ∈ Token.tokens source, d.found = some t ∧ d.pos = t.pos ∧ t.Framed source) ∧
    ∀ pos : Position,
      (codeFrame source pos = [] ↔
        source = [] ∨ pos.line < 1 ∨ ((splitLines source).length : Int) < pos.line) ∧
      (codeFrame source pos ≠ [] →
        ∃ line shown, (splitLines source)[(pos.line - 1).toNat]? = some line ∧ Frame.Shows line shown ∧
          splitLines (codeFrame source pos) = Frame.lines
            ⟨pos.line.toNat, (max 1 (min pos.column (shown.runes.length + 1))).toNat, shown⟩) := by
  refine ⟨fun t member => Token.framed member, ?_, ?_, fun pos =>
    ⟨codeFrame_eq_nil_iff source pos, framed_clamped⟩⟩
  · intro p read m member
    rw [Program.marks_of_read read] at member
    obtain ⟨t, kept, rfl⟩ := List.mem_map.mp member
    have listed := (List.mem_filter.mp kept).1
    exact ⟨t, listed, rfl, Token.framed listed⟩
  · intro ds refused d listed
    rcases Program.found_of_read_error refused d listed with atEnd | ⟨t, member, found, place⟩
    · exact .inl atEnd
    · exact .inr ⟨t, member, found, place, Token.framed member⟩

/-- Two lines with tabs, carriage returns, a character of two bytes and a byte that is none. -/
def awkward : Text := utf8 "a = 1\r\n\t'é'\t" ++ [0xFF] ++ utf8 " b\r\r\n"

/-- The stray byte has column six, five runes behind the start of its line. -/
theorem frames_point_stray_byte :
    ∃ t ∈ Token.tokens awkward, t.kind = .illegal ∧ t.Framed awkward ∧
      codeFrame awkward t.pos =
        utf8 "  --> line 2, column 6\n 2 |  'é' " ++ [0xFF] ++ utf8 " b\n   |      ^" := by
  have computed : ((Token.tokens awkward).any fun t =>
      decide (t.kind = .illegal ∧ codeFrame awkward t.pos =
        utf8 "  --> line 2, column 6\n 2 |  'é' " ++ [0xFF] ++ utf8 " b\n   |      ^")) = true := by
    decide +kernel
  obtain ⟨t, member, found⟩ := List.any_eq_true.mp computed
  obtain ⟨illegal, frame⟩ := of_decide_eq_true found
  exact ⟨t, member, illegal, (frames_point awkward).1 t member, frame⟩

end LoopScript
