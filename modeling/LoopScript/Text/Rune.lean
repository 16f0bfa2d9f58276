/-
# LoopScript.Text.Rune — reading bytes as characters

A `Rune` is one character of a text together with the bytes it was read from. `Text.runes` reads a
text from the left: where the bytes are the UTF-8 form of a character that character is taken, and
a byte that begins no such form is a rune of its own that reads as U+FFFD.

No byte is lost: the bytes of the runes, in order, are the text (`bytes_runes`).
-/
import LoopScript.Text.Basic

namespace LoopScript

set_option autoImplicit false

/-- One character and the bytes it was read from. -/
structure Rune where
  char : Char
  bytes : Text
deriving DecidableEq, Repr

namespace Rune

/-- The replacement character, which stands for a byte that begins no character. -/
def replacement : Char := Char.ofNat 0xFFFD

/-- A byte that begins no character. -/
def stray (b : UInt8) : Rune := ⟨replacement, [b]⟩

def isStray (r : Rune) : Bool := r.char == replacement && r.bytes.length == 1

/-- How many bytes a character takes whose first byte is `b`. -/
def widthOf (b : UInt8) : Nat :=
  if b < 0x80 then 1 else if b < 0xE0 then 2 else if b < 0xF0 then 3 else 4

/-- The code point that the payload bits of a byte sequence spell. -/
def codePoint : Text → Nat
  | [a] => a.toNat
  | [a, b] => a.toNat % 32 * 64 + b.toNat % 64
  | [a, b, c] => a.toNat % 16 * 4096 + b.toNat % 64 * 64 + c.toNat % 64
  | [a, b, c, d] =>
      a.toNat % 8 * 262144 + b.toNat % 64 * 4096 + c.toNat % 64 * 64 + d.toNat % 64
  | _ => 0

/-- The character whose UTF-8 form the bytes are, if they are one. Overlong forms, surrogates and
code points out of range are ruled out by asking that the character's own form gives the bytes
back. -/
def charOf? (bytes : Text) : Option Char :=
  let c := Char.ofNat (codePoint bytes)
  if String.utf8EncodeChar c = bytes then some c else none

def first (b : UInt8) (rest : Text) : Rune :=
  let bytes := (b :: rest).take (widthOf b)
  match charOf? bytes with
  | some c => ⟨c, bytes⟩
  | none => stray b

def ofChar (c : Char) : Rune := ⟨c, String.utf8EncodeChar c⟩

theorem widthOf_pos (b : UInt8) : 0 < widthOf b := by
  unfold widthOf
  split
  · decide
  · split
    · decide
    · split <;> decide

/-- The first rune takes at least the first byte, and its bytes are the text's own. -/
theorem first_bytes (b : UInt8) (rest : Text) :
    ∃ n, (first b rest).bytes = b :: rest.take n := by
  unfold first
  obtain ⟨k, hk⟩ : ∃ k, widthOf b = k + 1 := ⟨widthOf b - 1, by have := widthOf_pos b; omega⟩
  rw [hk, List.take_succ_cons]
  dsimp only
  split
  · exact ⟨k, rfl⟩
  · exact ⟨0, rfl⟩

end Rune

namespace Text

/-- The runes of a text after the first `skip` bytes, which belong to a rune already read. -/
def runesAfter : Nat → Text → List Rune
  | _, [] => []
  | skip + 1, _ :: rest => runesAfter skip rest
  | 0, b :: rest =>
      let r := Rune.first b rest
      r :: runesAfter (r.bytes.length - 1) rest

def runes (t : Text) : List Rune := runesAfter 0 t

/-- The characters of a text, U+FFFD for each byte that begins none. -/
def chars (t : Text) : List Char := t.runes.map Rune.char

def ofChars (cs : List Char) : Text := cs.flatMap String.utf8EncodeChar

/-- The bytes the runes were read from. -/
def ofRunes (rs : List Rune) : Text := rs.flatMap Rune.bytes

/-- Whether every byte belongs to a character. -/
def isUtf8 (t : Text) : Bool := t.runes.all fun r => !r.isStray

/-! ## No byte is lost -/

theorem ofRunes_runesAfter : ∀ (skip : Nat) (t : Text), ofRunes (runesAfter skip t) = t.drop skip
  | 0, [] => rfl
  | _ + 1, [] => rfl
  | skip + 1, _ :: rest => by
      rw [runesAfter, ofRunes_runesAfter skip rest, List.drop_succ_cons]
  | 0, b :: rest => by
      obtain ⟨n, hn⟩ := Rune.first_bytes b rest
      have ih := ofRunes_runesAfter ((Rune.first b rest).bytes.length - 1) rest
      simp only [runesAfter, ofRunes, List.flatMap_cons, List.drop_zero] at ih ⊢
      rw [ih, hn]
      by_cases h : n ≤ rest.length
      · simp [Nat.min_eq_left h]
      · simp [List.take_of_length_le (Nat.le_of_not_le h)]

/-- The bytes of the runes, in order, are the text. -/
theorem bytes_runes (t : Text) : ofRunes t.runes = t := by
  rw [runes, ofRunes_runesAfter, List.drop_zero]

end Text

end LoopScript
