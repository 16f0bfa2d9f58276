/-
# LoopScript.Proofs.Text.Rune — an ASCII byte is a rune of its own

The UTF-8 form of a character other than an ASCII one holds no ASCII byte, and its first byte tells how
many follow (`charOf?_cons`). So no rune reaches over an ASCII byte: the runes before it are the same
whatever comes after it (`runes_append_ascii`), also where the bytes before it are a form cut short.
-/
import LoopScript.Position

namespace LoopScript

set_option autoImplicit false

namespace Rune

theorem widthOf_eq (b : UInt8) :
    widthOf b = if b.toNat < 0x80 then 1 else if b.toNat < 0xE0 then 2 else
      if b.toNat < 0xF0 then 3 else 4 := by
  simp only [widthOf, UInt8.lt_iff_toNat_lt, UInt8.reduceToNat]

/-- The first byte of a character's form tells its length, and no later byte is ASCII. -/
theorem utf8EncodeChar_shape (c : Char) :
    ∃ b tail, String.utf8EncodeChar c = b :: tail ∧ widthOf b = tail.length + 1 ∧
      ∀ d ∈ tail, 0x80 ≤ d.toNat := by
  have lead : ∀ n : Nat, n < 256 → (UInt8.ofNat n).toNat = n := fun n small =>
    UInt8.toNat_ofNat_of_lt' small
  have later : ∀ v : Nat, 0x80 ≤ (UInt8.ofNat (v % 0x40 + 0x80)).toNat := by
    intro v
    rw [lead _ (by omega)]
    omega
  fun_cases String.utf8EncodeChar c with
  | case1 v one =>
      refine ⟨_, _, rfl, ?_, nofun⟩
      rw [widthOf_eq, lead v (by omega), if_pos (by omega)]
      rfl
  | case2 v one two =>
      refine ⟨_, _, rfl, ?_, ?_⟩
      · rw [widthOf_eq, lead _ (by omega), if_neg (by omega), if_pos (by omega)]
        rfl
      · simp only [List.mem_singleton, forall_eq]
        exact later v
  | case3 v one two three =>
      refine ⟨_, _, rfl, ?_, ?_⟩
      · rw [widthOf_eq, lead _ (by omega), if_neg (by omega), if_neg (by omega), if_pos (by omega)]
        rfl
      · simp only [List.mem_cons, List.not_mem_nil, or_false, forall_eq_or_imp, forall_eq]
        exact ⟨later _, later v⟩
  | case4 v one two three =>
      refine ⟨_, _, rfl, ?_, ?_⟩
      · rw [widthOf_eq, lead _ (by omega), if_neg (by omega), if_neg (by omega), if_neg (by omega)]
        rfl
      · simp only [List.mem_cons, List.not_mem_nil, or_false, forall_eq_or_imp, forall_eq]
        exact ⟨later _, later _, later v⟩

theorem charOf?_eq_some {bytes : Text} {c : Char} (found : charOf? bytes = some c) :
    String.utf8EncodeChar c = bytes := by
  unfold charOf? at found
  dsimp only at found
  split at found
  · next same =>
      cases found
      exact same
  · cases found

/-- Bytes that are a character's form are as many as the first of them tells, and no later one is
ASCII. -/
theorem charOf?_cons {b : UInt8} {tail : Text} {c : Char} (found : charOf? (b :: tail) = some c) :
    widthOf b = tail.length + 1 ∧ ∀ d ∈ tail, 0x80 ≤ d.toNat := by
  obtain ⟨b', tail', encoded, width, high⟩ := utf8EncodeChar_shape c
  rw [charOf?_eq_some found] at encoded
  cases encoded
  exact ⟨width, high⟩

/-- The first rune does not depend on what follows an ASCII byte. -/
theorem first_append_ascii (b : UInt8) (rest more : Text) {d : UInt8} (ascii : d.toNat < 0x80) :
    first b (rest ++ d :: more) = first b rest := by
  obtain ⟨k, width⟩ := Nat.exists_eq_add_one.mpr (widthOf_pos b)
  by_cases fits : k ≤ rest.length
  · rw [first, first, width, List.take_succ_cons, List.take_succ_cons,
      List.take_append_of_le_length fits]
  · -- Either way the form is cut short, by the ASCII byte or by the end.
    have cut : charOf? (b :: (rest ++ d :: more).take k) = none := by
      refine Option.eq_none_iff_forall_not_mem.mpr fun c found => ?_
      have high := (charOf?_cons found).2 d (by
        rw [List.take_append, show k - rest.length = k - rest.length - 1 + 1 by omega,
          List.take_succ_cons]
        simp)
      omega
    have short : charOf? (b :: rest.take k) = none := by
      refine Option.eq_none_iff_forall_not_mem.mpr fun c found => ?_
      have length := (charOf?_cons found).1
      rw [List.length_take] at length
      omega
    rw [first, first, width, List.take_succ_cons, List.take_succ_cons, cut, short]

theorem utf8EncodeChar_ascii {b : UInt8} (ascii : b.toNat < 0x80) :
    String.utf8EncodeChar (Char.ofNat b.toNat) = [b] := by
  have valid : (Char.ofNat b.toNat).val.toNat = b.toNat := by
    rw [Char.ofNat, dif_pos (.inl (by omega))]
    rfl
  rw [String.utf8EncodeChar, if_pos (by omega), valid, UInt8.ofNat_toNat]

/-- An ASCII byte is a rune of its own. -/
theorem first_ascii {b : UInt8} (ascii : b.toNat < 0x80) (rest : Text) :
    first b rest = ⟨Char.ofNat b.toNat, [b]⟩ := by
  have form : charOf? [b] = some (Char.ofNat b.toNat) := by
    rw [charOf?, codePoint, if_pos (utf8EncodeChar_ascii ascii)]
  rw [first, widthOf_eq, if_pos ascii, List.take_succ_cons, List.take_zero, form]

/-- A rune that begins with another byte holds no ASCII byte and stands for no ASCII character. -/
theorem first_wide {b : UInt8} (wide : 0x80 ≤ b.toNat) (rest : Text) :
    (∀ d ∈ (first b rest).bytes, 0x80 ≤ d.toNat) ∧ 0x80 ≤ (first b rest).char.toNat := by
  obtain ⟨k, width⟩ := Nat.exists_eq_add_one.mpr (widthOf_pos b)
  rw [first, width, List.take_succ_cons]
  cases found : charOf? (b :: rest.take k) with
  | none =>
      refine ⟨?_, show 0x80 ≤ replacement.toNat by decide⟩
      rintro d (_ | ⟨_, ⟨⟩⟩)
      exact wide
  | some c =>
      refine ⟨?_, Nat.le_of_not_lt fun ascii => ?_⟩
      · rintro d (_ | ⟨_, later⟩)
        · exact wide
        · exact (charOf?_cons found).2 d later
      · -- An ASCII character has a single byte, itself.
        have ascii : c.val.toNat < 0x80 := ascii
        have encoded := charOf?_eq_some found
        rw [String.utf8EncodeChar, if_pos (by omega)] at encoded
        have single := (List.cons.inj encoded).1
        rw [← single, UInt8.toNat_ofNat_of_lt' (show _ < 256 by omega)] at wide
        omega

end Rune

namespace Text

theorem runesAfter_append_ascii {d : UInt8} (ascii : d.toNat < 0x80) (more : Text) :
    ∀ (skip : Nat) (t : Text), skip ≤ t.length →
      runesAfter skip (t ++ d :: more) = runesAfter skip t ++ runes (d :: more)
  | 0, [], _ => rfl
  | skip + 1, _ :: rest, fits => runesAfter_append_ascii ascii more skip rest (Nat.le_of_succ_le_succ fits)
  | 0, b :: rest, _ => by
      have inside : (Rune.first b rest).bytes.length - 1 ≤ rest.length := by
        obtain ⟨n, bytes⟩ := Rune.first_bytes b rest
        rw [bytes, List.length_cons, List.length_take]
        omega
      have ih := runesAfter_append_ascii ascii more _ rest inside
      rw [List.cons_append, runesAfter, runesAfter, Rune.first_append_ascii b rest more ascii,
        ih, List.cons_append]

theorem runes_cons_ascii {d : UInt8} (ascii : d.toNat < 0x80) (rest : Text) :
    runes (d :: rest) = ⟨Char.ofNat d.toNat, [d]⟩ :: runes rest := by
  rw [runes, runesAfter, Rune.first_ascii ascii]
  rfl

/-- An ASCII byte parts the runes before it from those behind it. -/
theorem runes_append_ascii {d : UInt8} (ascii : d.toNat < 0x80) (t more : Text) :
    runes (t ++ d :: more) = runes t ++ ⟨Char.ofNat d.toNat, [d]⟩ :: runes more := by
  rw [runes, runesAfter_append_ascii ascii more 0 t (Nat.zero_le _), runes_cons_ascii ascii]
  rfl

theorem mem_runesAfter {r : Rune} : ∀ {skip : Nat} {t : Text}, r ∈ runesAfter skip t →
    ∃ b rest, r = Rune.first b rest
  | _ + 1, _ :: rest, member => mem_runesAfter (t := rest) member
  | 0, b :: rest, member => by
      rcases List.mem_cons.mp member with rfl | member
      · exact ⟨b, rest, rfl⟩
      · exact mem_runesAfter member

/-- A rune that reads as a line feed has that byte, and no other rune has it. -/
theorem count_newline_of_mem_runes {t : Text} {r : Rune} (member : r ∈ t.runes) :
    r.bytes.count newline = if r.char = '\n' then 1 else 0 := by
  obtain ⟨b, rest, rfl⟩ := mem_runesAfter member
  by_cases ascii : b.toNat < 0x80
  · rw [Rune.first_ascii ascii, List.count_singleton]
    have same : b = newline ↔ Char.ofNat b.toNat = '\n' := by
      constructor
      · rintro rfl
        rfl
      · intro feed
        have encoded := Rune.utf8EncodeChar_ascii ascii
        rw [feed] at encoded
        exact (List.cons.inj encoded).1.symm
    simp [same]
  · obtain ⟨bytes, char⟩ := Rune.first_wide (Nat.le_of_not_lt ascii) rest
    have absent : newline ∉ (Rune.first b rest).bytes := fun present =>
      absurd (bytes _ present) (by decide)
    rw [List.count_eq_zero.mpr absent, if_neg]
    intro feed
    rw [feed] at char
    exact absurd char (by decide)

/-- Runes that read as line feeds are as many as the bytes that are. -/
theorem count_newline_runes (t : Text) :
    t.runes.countP (fun r => r.char = '\n') = t.count newline := by
  have counted : ∀ rs : List Rune,
      (∀ r ∈ rs, r.bytes.count newline = if r.char = '\n' then 1 else 0) →
      rs.countP (fun r => r.char = '\n') = (ofRunes rs).count newline := by
    intro rs
    induction rs with
    | nil => exact fun _ => rfl
    | cons r rest ih =>
        intro each
        have head := each r List.mem_cons_self
        have tail := ih fun s member => each s (List.mem_cons_of_mem _ member)
        rw [ofRunes] at tail ⊢
        rw [List.flatMap_cons, List.count_append, List.countP_cons, head, tail, Nat.add_comm]
        simp
  rw [counted _ fun r member => count_newline_of_mem_runes member, bytes_runes]

end Text

end LoopScript
