/-
# LoopScript.Proofs.Text.Chars — characters that are written down read back

The UTF-8 form of a character spells its code point in the payload bits, so it is read as that character
(`charOf?_utf8EncodeChar`), whatever follows it: its first byte tells how many bytes it has. A text that is
written as a list of characters therefore reads as these characters (`chars_ofChars`).

ASCII texts are such texts, byte by byte (`ofChars_chars_of_ascii`). Only a line feed is written with the
byte of one (`newline_notMem_ofChars`).
-/
import LoopScript.Proofs.Text.Lines

namespace LoopScript

set_option autoImplicit false

namespace Rune

/-- No code point is greater than the last one of Unicode. -/
theorem toNat_lt (c : Char) : c.toNat < 0x110000 := by
  have valid := c.valid
  simp only [UInt32.isValidChar, Nat.isValidChar] at valid
  simp only [Char.toNat]
  omega

/-- The payload bits of a character's form spell its code point. -/
theorem codePoint_utf8EncodeChar (c : Char) : codePoint (String.utf8EncodeChar c) = c.toNat := by
  have byte : ∀ n : Nat, n < 256 → (UInt8.ofNat n).toNat = n := fun n small =>
    UInt8.toNat_ofNat_of_lt' small
  have valid : c.val.toNat < 0x110000 := toNat_lt c
  have value : c.toNat = c.val.toNat := rfl
  fun_cases String.utf8EncodeChar c with
  | case1 v one =>
      rw [codePoint, byte v (by omega), value]
  | case2 v one two =>
      rw [codePoint, byte _ (by omega), byte _ (by omega), value]
      omega
  | case3 v one two three =>
      rw [codePoint, byte _ (by omega), byte _ (by omega), byte _ (by omega), value]
      omega
  | case4 v one two three =>
      rw [codePoint, byte _ (by omega), byte _ (by omega), byte _ (by omega), byte _ (by omega), value]
      omega

theorem charOf?_utf8EncodeChar (c : Char) : charOf? (String.utf8EncodeChar c) = some c := by
  rw [charOf?, codePoint_utf8EncodeChar, Char.ofNat_toNat, if_pos rfl]

/-- The form of a character is read as that character, whatever follows. -/
theorem first_utf8EncodeChar {c : Char} {b : UInt8} {tail : Text}
    (encoded : String.utf8EncodeChar c = b :: tail) (rest : Text) : first b (tail ++ rest) = ofChar c := by
  have found := charOf?_utf8EncodeChar c
  rw [encoded] at found
  have taken : (b :: (tail ++ rest)).take (widthOf b) = b :: tail := by
    rw [(charOf?_cons found).1, List.take_succ_cons, List.take_left]
  rw [first, taken, found, ofChar, encoded]

/-- A well encoded character is no stray byte, not even the replacement character. -/
theorem ofChar_not_stray (c : Char) : (ofChar c).isStray = false := by
  rw [isStray, ofChar, Bool.and_eq_false_iff]
  by_cases replaced : c = replacement
  · rw [replaced]
    exact .inr (by decide)
  · exact .inl (by simpa using replaced)

theorem utf8EncodeChar_of_ascii {d : Char} (ascii : d.toNat < 0x80) :
    ∃ b, String.utf8EncodeChar d = [b] := by
  have byte : (UInt8.ofNat d.toNat).toNat = d.toNat := UInt8.toNat_ofNat_of_lt' (ascii.trans (by decide))
  have encoded := utf8EncodeChar_ascii (b := UInt8.ofNat d.toNat) (by omega)
  rw [byte, Char.ofNat_toNat] at encoded
  exact ⟨_, encoded⟩

theorem utf8EncodeChar_of_wide {d : Char} (wide : 0x80 ≤ d.toNat) :
    ∃ b next tail, String.utf8EncodeChar d = b :: next :: tail ∧ 0x80 ≤ next.toNat := by
  obtain ⟨b, tail, encoded, width, later⟩ := utf8EncodeChar_shape d
  cases tail with
  | nil =>
      -- A single byte would be the code point itself, and its width is that of an ASCII byte.
      have point := codePoint_utf8EncodeChar d
      rw [encoded, codePoint] at point
      rw [widthOf_eq, if_neg (by omega)] at width
      split at width
      · cases width
      · split at width <;> cases width
  | cons next more => exact ⟨b, next, more, encoded, later next List.mem_cons_self⟩

end Rune

namespace Text

/-- A rune is a character that is well encoded, or a byte that belongs to none; such a byte is not
ASCII. -/
theorem rune_cases {t : Text} {r : Rune} (member : r ∈ t.runes) :
    (∃ c, r = Rune.ofChar c) ∨ ∃ b, 0x80 ≤ b.toNat ∧ r = Rune.stray b := by
  obtain ⟨b, rest, rfl⟩ := mem_runesAfter member
  by_cases ascii : b.toNat < 0x80
  · refine .inl ⟨Char.ofNat b.toNat, ?_⟩
    rw [Rune.first_ascii ascii, Rune.ofChar, Rune.utf8EncodeChar_ascii ascii]
  · unfold Rune.first
    dsimp only
    split
    · next c found =>
        refine .inl ⟨c, ?_⟩
        rw [Rune.ofChar, Rune.charOf?_eq_some found]
    · exact .inr ⟨b, Nat.le_of_not_lt ascii, rfl⟩

theorem runes_utf8EncodeChar_append (c : Char) (rest : Text) :
    runes (String.utf8EncodeChar c ++ rest) = Rune.ofChar c :: rest.runes := by
  obtain ⟨b, tail, encoded, -, -⟩ := Rune.utf8EncodeChar_shape c
  have length : (Rune.ofChar c).bytes.length - 1 = tail.length := by
    rw [Rune.ofChar, encoded, List.length_cons, Nat.add_sub_cancel]
  rw [encoded, List.cons_append, runes_cons, Rune.first_utf8EncodeChar encoded, length, List.drop_left]

/-- A text that is written as a list of characters reads as these characters, one rune for each. -/
theorem runes_ofChars (cs : List Char) : (ofChars cs).runes = cs.map Rune.ofChar := by
  induction cs with
  | nil => rfl
  | cons c rest ih =>
      rw [ofChars] at ih
      rw [ofChars, List.flatMap_cons, runes_utf8EncodeChar_append, ih, List.map_cons]

@[simp]
theorem chars_ofChars (cs : List Char) : (ofChars cs).chars = cs := by
  rw [chars, runes_ofChars, List.map_map]
  exact List.map_id cs

theorem ofChars_append (cs ds : List Char) : ofChars (cs ++ ds) = ofChars cs ++ ofChars ds :=
  List.flatMap_append

theorem ofChars_mono {cs ds : List Char} (first : cs <+: ds) : ofChars cs <+: ofChars ds := by
  obtain ⟨rest, rfl⟩ := first
  rw [ofChars_append]
  exact List.prefix_append _ _

theorem ofChars_injective {cs ds : List Char} (same : ofChars cs = ofChars ds) : cs = ds := by
  rw [← chars_ofChars cs, same, chars_ofChars]

theorem chars_of_ascii {t : Text} (ascii : ∀ b ∈ t, b.toNat < 0x80) :
    t.chars = t.map fun b => Char.ofNat b.toNat := by
  rw [chars, runes_ascii ascii, List.map_map]
  rfl

/-- ASCII text is the text of its characters. -/
theorem ofChars_chars_of_ascii {t : Text} (ascii : ∀ b ∈ t, b.toNat < 0x80) : ofChars t.chars = t := by
  rw [chars_of_ascii ascii]
  induction t with
  | nil => rfl
  | cons b rest ih =>
      have tail := ih fun c member => ascii c (List.mem_cons_of_mem b member)
      rw [ofChars] at tail
      rw [List.map_cons, ofChars, List.flatMap_cons, tail]
      exact congrArg (· ++ rest) (Rune.utf8EncodeChar_ascii (ascii b List.mem_cons_self))

/-- What an ASCII text begins with, it begins with character by character. -/
theorem prefix_chars_of_ascii {cs : List Char} {t : Text} (ascii : ∀ b ∈ t, b.toNat < 0x80)
    (first : ofChars cs <+: t) : cs <+: t.chars := by
  have begins : ∀ b ∈ ofChars cs, b.toNat < 0x80 := fun b member => ascii b (first.subset member)
  rw [← chars_ofChars cs, chars_of_ascii begins, chars_of_ascii ascii]
  exact first.map _

/-! ## Texts without line feeds -/

/-- Only the line feed has the byte of one. -/
theorem eq_newline_of_mem {c : Char} (member : newline ∈ String.utf8EncodeChar c) : c = '\n' := by
  obtain ⟨b, tail, encoded, width, high⟩ := Rune.utf8EncodeChar_shape c
  have alone : String.utf8EncodeChar c = [newline] := by
    rw [encoded] at member ⊢
    rcases List.mem_cons.mp member with rfl | later
    · have none : tail.length + 1 = 1 := width.symm
      rw [List.length_eq_zero_iff.mp (Nat.succ.inj none)]
    · exact absurd (high newline later) (by decide)
  have point := Rune.codePoint_utf8EncodeChar c
  rw [alone] at point
  rw [← Char.ofNat_toNat c, ← point]
  rfl

theorem newline_notMem_ofChars {cs : List Char} (absent : '\n' ∉ cs) : newline ∉ ofChars cs := by
  intro member
  obtain ⟨c, inside, byte⟩ := List.mem_flatMap.mp member
  rw [eq_newline_of_mem byte] at inside
  exact absent inside

end Text

end LoopScript
