/-
# LoopScript.Proofs.Text.Boundary — texts cut between two runes, and counted places

Cut between two of its runes, a text reads as its parts do (`runes_of_append`): a form that is cut short
in the first part was read byte by byte in the whole as well. Elsewhere this fails, since bytes that are
stray on their own may be one character together.

So the places of a source can be counted in the source itself. `Text.placeBehind before` is the place of
a character with `before` in front of it: its line is one more than the line feeds of `before`, and its
column one more than the runes behind the last of them. The positions that glyphs carry are these
(`Glyph.pos_eq`, `after_endOf`), and the end of a source is counted in the same way (`endOf_eq`).
-/
import LoopScript.Proofs.Relocation
import LoopScript.Proofs.Text.Rune
import Mathlib.Data.List.TakeWhile

namespace LoopScript

set_option autoImplicit false

namespace Rune

/-- The first rune is the same if the text is cut anywhere behind it. -/
theorem first_of_append {b : UInt8} {tail cut rest : Text}
    (bytes : (first b (tail ++ cut ++ rest)).bytes = b :: tail) :
    first b (tail ++ cut) = first b (tail ++ cut ++ rest) := by
  obtain ⟨k, width⟩ := Nat.exists_eq_add_one.mpr (widthOf_pos b)
  by_cases fits : k ≤ (tail ++ cut).length
  · rw [first, first, width, List.take_succ_cons, List.take_succ_cons,
      List.take_append_of_le_length fits]
  · -- The whole has read `b` as a stray byte, and the cut text has too few bytes to read it otherwise.
    have short : charOf? (b :: (tail ++ cut).take k) = none := by
      refine Option.eq_none_iff_forall_not_mem.mpr fun c found => ?_
      have length := (charOf?_cons found).1
      rw [List.length_take] at length
      omega
    rw [first, first, width, List.take_succ_cons, List.take_succ_cons, short]
    rw [first, width, List.take_succ_cons] at bytes
    cases found : charOf? (b :: (tail ++ cut ++ rest).take k) with
    | none => rfl
    | some c =>
        have length := (charOf?_cons found).1
        rw [found] at bytes
        have same : (tail ++ cut ++ rest).take k = tail := (List.cons.inj bytes).2
        rw [same] at length
        rw [List.length_append] at fits
        omega

/-- A rune that has an ASCII byte is that byte alone. -/
theorem first_eq_of_ascii {b d : UInt8} {rest : Text} (member : d ∈ (first b rest).bytes)
    (ascii : d.toNat < 0x80) : first b rest = ⟨Char.ofNat d.toNat, [d]⟩ := by
  by_cases small : b.toNat < 0x80
  · rw [first_ascii small] at member ⊢
    rw [List.mem_singleton.mp member]
  · have wide := (first_wide (Nat.le_of_not_lt small) rest).1 d member
    omega

/-- A rune that stands for an ASCII character is the byte of that character. -/
theorem bytes_first_of_ascii {b : UInt8} {rest : Text} (ascii : (first b rest).char.toNat < 0x80) :
    (first b rest).bytes = String.utf8EncodeChar (first b rest).char := by
  by_cases small : b.toNat < 0x80
  · rw [first_ascii small, utf8EncodeChar_ascii small]
  · have wide := (first_wide (Nat.le_of_not_lt small) rest).2
    omega

end Rune

namespace Text

/-! ## Cutting between runes -/

theorem runesAfter_eq : ∀ (skip : Nat) (t : Text), runesAfter skip t = runes (t.drop skip)
  | 0, _ => rfl
  | _ + 1, [] => rfl
  | skip + 1, _ :: rest => runesAfter_eq skip rest

/-- The first rune of a text, and the runes behind it. -/
theorem runes_cons (b : UInt8) (rest : Text) :
    runes (b :: rest) = Rune.first b rest :: runes (rest.drop ((Rune.first b rest).bytes.length - 1)) := by
  rw [runes, runesAfter, runesAfter_eq]

theorem ofRunes_append (rs ss : List Rune) : ofRunes (rs ++ ss) = ofRunes rs ++ ofRunes ss :=
  List.flatMap_append

/-- A text that begins with the bytes of its first rune, and what follows them. -/
theorem runes_eq_cons {t : Text} {r : Rune} {rs : List Rune} (read : t.runes = r :: rs) :
    ∃ (b : UInt8) (tail rest : Text), t = b :: (tail ++ rest) ∧ r = Rune.first b (tail ++ rest) ∧
      r.bytes = b :: tail ∧ rest.runes = rs := by
  cases t with
  | nil => cases read
  | cons b more =>
      rw [runes_cons] at read
      obtain ⟨same, rfl⟩ := List.cons.inj read
      obtain ⟨n, bytes⟩ := Rune.first_bytes b more
      have length : (Rune.first b more).bytes.length - 1 = (more.take n).length := by
        rw [bytes, List.length_cons, Nat.add_sub_cancel]
      have whole : more.take n ++ more.drop (more.take n).length = more := by
        rw [List.length_take]
        by_cases le : n ≤ more.length
        · rw [Nat.min_eq_left le, List.take_append_drop]
        · have all : more.take n = more := List.take_of_length_le (by omega)
          rw [Nat.min_eq_right (by omega), List.drop_length, List.append_nil, all]
      refine ⟨b, more.take n, more.drop (more.take n).length, ?_, ?_, ?_, by rw [length]⟩
      · rw [whole]
      · rw [whole, same]
      · rw [← same, bytes]

/-- Cut between two of its runes, a text reads as its parts do. -/
theorem runes_of_append : ∀ {rs ss : List Rune} {t : Text}, t.runes = rs ++ ss →
    (ofRunes rs).runes = rs ∧ (ofRunes ss).runes = ss
  | [], ss, t, read => by
      refine ⟨rfl, ?_⟩
      have same : ofRunes ss = t := by
        rw [← bytes_runes t, read, List.nil_append]
      rw [same, read, List.nil_append]
  | r :: rs, ss, t, read => by
      rw [List.cons_append] at read
      obtain ⟨b, tail, rest, rfl, same, bytes, behind⟩ := runes_eq_cons read
      obtain ⟨before, after⟩ := runes_of_append behind
      refine ⟨?_, after⟩
      have parts : ofRunes rs ++ ofRunes ss = rest := by
        rw [← ofRunes_append, ← behind, bytes_runes]
      have first : Rune.first b (tail ++ ofRunes rs) = r := by
        rw [same, ← parts, ← List.append_assoc]
        refine Rune.first_of_append ?_
        rw [List.append_assoc, parts, ← same, bytes]
      have whole : ofRunes (r :: rs) = b :: (tail ++ ofRunes rs) := by
        rw [ofRunes, List.flatMap_cons, bytes]
        rfl
      have length : r.bytes.length - 1 = tail.length := by
        rw [bytes, List.length_cons, Nat.add_sub_cancel]
      rw [whole, runes_cons, first, length, List.drop_left, before]

/-! ## Counted places -/

/-- What stands behind the last line feed. -/
def lastLine (t : Text) : Text := (t.reverse.takeWhile (· != newline)).reverse

/-- The place of a character that stands right behind a text. -/
def placeBehind (before : Text) : Position :=
  ⟨1 + before.count newline, 1 + before.lastLine.runes.length⟩

theorem bne_newline {line : Text} (absent : newline ∉ line) :
    ∀ b ∈ line.reverse, (b != newline) = true := by
  intro b member
  have other : b ≠ newline := by
    rintro rfl
    exact absent (List.mem_reverse.mp member)
  simpa using other

theorem lastLine_of_notMem {line : Text} (absent : newline ∉ line) : line.lastLine = line := by
  rw [lastLine, List.takeWhile_eq_self_iff.mpr (bne_newline absent), List.reverse_reverse]

theorem lastLine_append {line : Text} (before : Text) (absent : newline ∉ line) :
    (before ++ newline :: line).lastLine = line := by
  have reversed : (before ++ newline :: line).reverse = line.reverse ++ newline :: before.reverse := by
    simp
  rw [lastLine, reversed, List.takeWhile_append_of_pos (bne_newline absent)]
  simp

/-- A text without a line feed is one line; any other has a last line feed. -/
theorem newline_cases (t : Text) :
    newline ∉ t ∨ ∃ before line : Text, t = before ++ newline :: line ∧ newline ∉ line := by
  by_cases member : newline ∈ t
  · right
    obtain ⟨line, before, same, absent⟩ :=
      List.eq_append_cons_of_mem (List.mem_reverse.mpr member)
    refine ⟨before.reverse, line.reverse, ?_, by simpa using absent⟩
    rw [← List.reverse_reverse t, same]
    simp
  · exact .inl member

end Text

namespace Position

/-- Characters other than line feeds move the column on, and nothing else. -/
theorem foldl_after_of_no_newline : ∀ (rs : List Rune) (p : Position), (∀ r ∈ rs, r.char ≠ '\n') →
    rs.foldl (fun p r => p.after r.char) p = ⟨p.line, p.column + rs.length⟩
  | [], p, _ => by simp
  | r :: rest, p, others => by
      have head : p.after r.char = ⟨p.line, p.column + 1⟩ := if_neg (others r List.mem_cons_self)
      have tail : ∀ s ∈ rest, s.char ≠ '\n' := fun s member => others s (List.mem_cons_of_mem r member)
      rw [List.foldl_cons, foldl_after_of_no_newline rest _ tail, head]
      simp only [List.length_cons, Position.mk.injEq, true_and]
      omega

end Position

/-- No rune of a text without line feeds reads as one. -/
theorem Text.char_ne_newline {t : Text} (absent : newline ∉ t) : ∀ r ∈ t.runes, r.char ≠ '\n' := by
  have none := Text.count_newline_runes t
  rw [List.count_eq_zero.mpr absent, List.countP_eq_zero] at none
  intro r member
  simpa using none r member

/-- The end of a source, counted: as many lines as line feeds and one more, and as many columns as runes
behind the last line feed. -/
theorem endOf_eq (source : Text) :
    endOf source = ⟨1 + source.count Text.newline, source.lastLine.runes.length⟩ := by
  have line : (endOf source).line = 1 + source.count Text.newline := by
    rw [endOf, Position.line_foldl_after, Text.count_newline_runes]
    rfl
  have column : (endOf source).column = source.lastLine.runes.length := by
    rcases Text.newline_cases source with absent | ⟨before, last, rfl, absent⟩
    · rw [endOf, Position.foldl_after_of_no_newline _ _ (Text.char_ne_newline absent),
        Text.lastLine_of_notMem absent]
      simp [Position.start]
    · rw [endOf, Text.runes_append_ascii (by decide), List.foldl_append, List.foldl_cons,
        Position.foldl_after_of_no_newline _ _ (Text.char_ne_newline absent),
        Text.lastLine_append before absent]
      have feed : Char.ofNat Text.newline.toNat = '\n' := by decide
      simp [Position.after, feed]
  rw [← line, ← column]

/-- What follows the end of a text, and is no line feed, stands right behind the text. -/
theorem after_endOf {before : Text} {c : Char} (other : c ≠ '\n') :
    (endOf before).after c = before.placeBehind := by
  rw [endOf_eq, Position.after, if_neg other, Text.placeBehind, Int.add_comm 1 (List.length _ : Int)]

/-! ## Glyphs -/

namespace Glyph

def rune (g : Glyph) : Rune := ⟨g.char, g.bytes⟩

/-- The glyphs are what their bytes read as. -/
def Genuine (gs : List Glyph) : Prop := (bytesOf gs).runes = gs.map rune

theorem map_rune_place : ∀ (rs : List Rune) (p : Position), (place p rs).map rune = rs
  | [], _ => rfl
  | r :: rest, p => by
      rw [place, List.map_cons, map_rune_place rest]
      rfl

theorem genuine_ofText (source : Text) : Genuine (ofText source) := by
  rw [Genuine, bytesOf_ofText, ofText, map_rune_place]

theorem bytesOf_append (gs hs : List Glyph) : bytesOf (gs ++ hs) = bytesOf gs ++ bytesOf hs :=
  List.flatMap_append

theorem bytesOf_eq_ofRunes (gs : List Glyph) : bytesOf gs = Text.ofRunes (gs.map rune) := by
  rw [Text.ofRunes, List.flatMap_map]
  rfl

/-- Both parts of genuine glyphs are genuine. -/
theorem Genuine.parts {gs hs : List Glyph} (genuine : Genuine (gs ++ hs)) :
    Genuine gs ∧ Genuine hs := by
  rw [Genuine, List.map_append] at genuine
  obtain ⟨left, right⟩ := Text.runes_of_append genuine
  rw [Genuine, Genuine, bytesOf_eq_ofRunes, bytesOf_eq_ofRunes hs]
  exact ⟨left, right⟩

theorem Genuine.tail {g : Glyph} {gs : List Glyph} (genuine : Genuine (g :: gs)) : Genuine gs := by
  have split : Genuine ([g] ++ gs) := genuine
  exact split.parts.2

/-- A genuine glyph is the first rune of some text. -/
theorem Genuine.first {gs : List Glyph} (genuine : Genuine gs) {g : Glyph} (member : g ∈ gs) :
    ∃ b rest, g.rune = Rune.first b rest := by
  have read : g.rune ∈ (bytesOf gs).runes := by
    rw [genuine]
    exact List.mem_map_of_mem member
  exact Text.mem_runesAfter read

theorem Genuine.bytes_ne_nil {gs : List Glyph} (genuine : Genuine gs) {g : Glyph} (member : g ∈ gs) :
    g.bytes ≠ [] := by
  obtain ⟨b, rest, same⟩ := genuine.first member
  obtain ⟨n, bytes⟩ := Rune.first_bytes b rest
  have own : g.bytes = b :: rest.take n := (congrArg Rune.bytes same).trans bytes
  rw [own]
  exact List.cons_ne_nil _ _

/-- Where a glyph of a source stands. -/
theorem pos_eq {source : Text} {before rest : List Glyph} {g : Glyph}
    (split : ofText source = before ++ g :: rest) :
    g.pos = (endOf (bytesOf before)).after g.char := by
  have genuine : Genuine before := by
    have whole := genuine_ofText source
    rw [split] at whole
    exact whole.parts.1
  have runes : source.runes = before.map rune ++ g.rune :: rest.map rune := by
    rw [← map_rune_place source.runes .start, ← ofText, split, List.map_append, List.map_cons]
  rw [ofText, runes, place_append, place] at split
  have length : (place .start (before.map rune)).length = before.length := by
    rw [← List.length_map (f := rune), map_rune_place, List.length_map]
  have same := (List.append_inj split length).2
  rw [endOf, genuine]
  exact congrArg Glyph.pos (List.cons.inj same).1.symm

/-- The last glyph stands where its runes have led. -/
theorem getLast?_place : ∀ (rs : List Rune) (p : Position),
    ((place p rs).getLast?.map Glyph.pos).getD p = rs.foldl (fun p r => p.after r.char) p
  | [], _ => rfl
  | r :: rest, p => by
      rw [place, List.foldl_cons, ← getLast?_place rest (p.after r.char), List.getLast?_cons]
      cases (place (p.after r.char) rest).getLast? <;> rfl

end Glyph

/-- A source ends where its last glyph stands. -/
theorem endOf_eq_last (source : Text) :
    endOf source = ((Glyph.ofText source).getLast?.map Glyph.pos).getD .start :=
  (Glyph.getLast?_place source.runes .start).symm

end LoopScript
