/-
# LoopScript.Proofs.Console.Toolkit — what a session relies on in its toolkit

What is proved of a session holds for every toolkit that keeps to `Toolkit.Lawful`. These laws are few. A text
is `Held` if it is written with characters that the field takes as they are, and no more of them than fit:
whatever is put into the field, typed or deleted there, leaves such a text. Line feeds are not taken,
characters of names are. The field is drawn on one line, and the height of a text is the count of its lines.
Nothing is said of what the field does with the other characters, and of how the help and the frame look.

Putting a held text into the field changes nothing (`Lawful.clean_eq`), so a line that is taken out of the
input line and put back later, as recalled lines are, comes back as it was. The toolkit of the program is
lawful (`standard_lawful`).
-/
import LoopScript.Console.Toolkit
import LoopScript.Proofs.Text.Chars
import LoopScript.Proofs.Token.Cut

namespace LoopScript.Console

set_option autoImplicit false

namespace Toolkit

def Takes (kit : Toolkit) (c : Char) : Prop := kit.clean (Text.ofChars [c]) = Text.ofChars [c]

/-- The text is one that the field takes as it is. -/
def Held (kit : Toolkit) (t : Text) : Prop :=
  ∃ cs : List Char, t = Text.ofChars cs ∧ (∀ c ∈ cs, kit.Takes c) ∧ cs.length ≤ fieldLimit

/-- What a session relies on in its toolkit. -/
structure Lawful (kit : Toolkit) : Prop where
  newline : ¬kit.Takes '\n'
  names : ∀ c, Token.isNameChar c = true → kit.Takes c
  /-- Of characters that are taken as they are, those that fit are kept. -/
  clean_taken : ∀ cs : List Char, (∀ c ∈ cs, kit.Takes c) →
    kit.clean (Text.ofChars cs) = Text.ofChars (cs.take fieldLimit)
  /-- The field holds nothing else, whatever is put into it, typed or deleted. -/
  clean_held : ∀ t, kit.Held (kit.clean t)
  typed_held : ∀ line t, kit.Held line → kit.Held (kit.typed line t)
  erased_held : ∀ line, kit.Held line → kit.Held (kit.erased line)
  /-- The field is drawn on one line. -/
  field_line : ∀ prompt placeholder width line, Text.newline ∉ prompt → Text.newline ∉ placeholder →
    Text.newline ∉ line → Text.newline ∉ kit.field prompt placeholder width line
  /-- The height of a text is the count of its lines; one that ends in a line feed has an empty last line. -/
  height_eq : ∀ t, kit.height t = (Text.splitLines t).length

variable {kit : Toolkit} {line : Text}

theorem held_nil : kit.Held [] := ⟨[], rfl, List.forall_mem_nil _, Nat.zero_le _⟩

/-- The characters of a held text are taken as they are, and they fit. -/
theorem Held.chars (held : kit.Held line) : line = Text.ofChars line.chars ∧
    (∀ c ∈ line.chars, kit.Takes c) ∧ line.chars.length ≤ fieldLimit := by
  obtain ⟨cs, rfl, taken, fits⟩ := held
  rw [Text.chars_ofChars]
  exact ⟨rfl, taken, fits⟩

namespace Lawful

variable (lawful : kit.Lawful)
include lawful

theorem newline_notMem (held : kit.Held line) : Text.newline ∉ line := by
  obtain ⟨cs, rfl, taken, -⟩ := held
  apply Text.newline_notMem_ofChars
  intro member
  exact lawful.newline (taken _ member)

/-- Putting a held text into the field changes nothing. -/
theorem clean_eq (held : kit.Held line) : kit.clean line = line := by
  obtain ⟨cs, rfl, taken, fits⟩ := held
  rw [lawful.clean_taken cs taken, List.take_of_length_le fits]

end Lawful

/-! ## The standard toolkit -/

/-- What is left of a character once it has been cleaned is taken as it is. -/
theorem cleanChar_idem {c d : Char} (cleaned : cleanChar c = some d) : cleanChar d = some d := by
  unfold cleanChar at cleaned
  split at cleaned
  · cases cleaned
    decide
  · next notBlank =>
      split at cleaned
      · cases cleaned
      · next taken =>
          cases cleaned
          rw [cleanChar, if_neg notBlank, if_neg taken]

theorem standard_takes_iff {c : Char} : standard.Takes c ↔ cleanChar c = some c := by
  have cleaned : standard.clean (Text.ofChars [c]) = Text.ofChars (cleanChar c).toList := by
    show Text.ofChars ((cleanChars (Text.ofChars [c])).take fieldLimit) = _
    rw [cleanChars, Text.chars_ofChars]
    cases found : cleanChar c with
    | none => rw [List.filterMap_cons_none found]; rfl
    | some d => rw [List.filterMap_cons_some found]; rfl
  rw [Takes, cleaned]
  constructor
  · intro same
    have alone := Text.ofChars_injective same
    cases found : cleanChar c with
    | none =>
        rw [found] at alone
        cases alone
    | some d =>
        rw [found] at alone
        cases alone
        rfl
  · intro found
    rw [found]
    rfl

theorem standard_takes_of_mem {t : Text} {c : Char} (member : c ∈ cleanChars t) : standard.Takes c := by
  obtain ⟨d, -, cleaned⟩ := List.mem_filterMap.mp member
  exact standard_takes_iff.mpr (cleanChar_idem cleaned)

/-- Characters that are taken as they are stay as they are. -/
theorem filterMap_cleanChar {cs : List Char} (taken : ∀ c ∈ cs, standard.Takes c) :
    cs.filterMap cleanChar = cs := by
  induction cs with
  | nil => rfl
  | cons c rest ih =>
      obtain ⟨first, others⟩ := List.forall_mem_cons.mp taken
      rw [List.filterMap_cons_some (standard_takes_iff.mp first), ih others]

theorem cleanChar_of_nameChar {c : Char} (inside : Token.isNameChar c) : cleanChar c = some c := by
  have table : ∀ n < 0x80, Token.isNameChar (Char.ofNat n) →
      cleanChar (Char.ofNat n) = some (Char.ofNat n) := by
    decide +kernel
  have found := table c.toNat (Token.ascii_of_nameChar inside)
  rw [Char.ofNat_toNat] at found
  exact found inside

theorem standard_lawful : standard.Lawful where
  newline takes := absurd (standard_takes_iff.mp takes) (by decide)
  names c inside := standard_takes_iff.mpr (cleanChar_of_nameChar inside)
  clean_taken cs taken := by
    show Text.ofChars ((cleanChars (Text.ofChars cs)).take fieldLimit) = _
    rw [cleanChars, Text.chars_ofChars, filterMap_cleanChar taken]
  clean_held t := by
    refine ⟨(cleanChars t).take fieldLimit, rfl, fun c member => ?_, List.length_take_le _ _⟩
    exact standard_takes_of_mem (List.mem_of_mem_take member)
  typed_held line t held := by
    obtain ⟨-, taken, -⟩ := held.chars
    refine ⟨_, rfl, fun c member => ?_, List.length_take_le _ _⟩
    rcases List.mem_append.mp (List.mem_of_mem_take member) with old | new
    · exact taken c old
    · exact standard_takes_of_mem new
  erased_held line held := by
    obtain ⟨-, taken, fits⟩ := held.chars
    refine ⟨_, rfl, fun c member => taken c ((List.dropLast_sublist _).subset member), ?_⟩
    rw [List.length_dropLast]
    omega
  field_line prompt placeholder width line inPrompt inPlaceholder inLine := by
    show Text.newline ∉ prompt ++ if line = [] then placeholder else line
    rw [List.mem_append, not_or]
    refine ⟨inPrompt, ?_⟩
    split
    · exact inPlaceholder
    · exact inLine
  height_eq _ := rfl

end Toolkit

end LoopScript.Console
