/-
# LoopScript.Proofs.Value.Inspect — what tools show of a value stays on one line

Between quotes no control character stands for itself: those that have a letter or a code are written
with it, and what is left is printable (`quoteRune_not_control`). So the text that tools show a string value
as holds no control character, and no line feed in particular (`newline_notMem_quote`).

Numbers are written with digits, signs and a few letters (`Figures`). A function shows the name it was made
under, so a value stays on one line unless it is a function with a line feed in its name
(`newline_notMem_inspect`).

Only a text is shown with a quote at the beginning, and what is quoted can be read back, so a value that is
shown as a text is shown is that text (`inspect_eq_text_iff`).
-/
import LoopScript.Proofs.Text.Quoted
import LoopScript.Value.Basic

namespace LoopScript

set_option autoImplicit false

namespace Text

/-! ## Between quotes -/

theorem hexDigit_not_control (n : Nat) : isControl (hexDigit n) = false := by
  have table : ∀ m < 16, isControl (Nat.digitChar m) = false := by decide
  exact table (n % 16) (Nat.mod_lt n (by decide))

theorem hexDigits_not_control : ∀ (width n : Nat), ∀ c ∈ hexDigits width n, isControl c = false
  | 0, _, _, member => by cases member
  | width + 1, n, c, member => by
      rcases List.mem_append.mp member with earlier | last
      · exact hexDigits_not_control width (n / 16) c earlier
      · rw [List.mem_singleton.mp last]
        exact hexDigit_not_control n

/-- A backslash, a letter and hexadecimal digits. -/
theorem escape_not_control {letter : Char} (plain : isControl letter = false) (width n : Nat) :
    ∀ c ∈ '\\' :: letter :: hexDigits width n, isControl c = false :=
  List.forall_mem_cons.mpr ⟨by decide,
    List.forall_mem_cons.mpr ⟨plain, hexDigits_not_control width n⟩⟩

theorem escapeLetter?_not_control {c letter : Char} (found : escapeLetter? c = some letter) :
    isControl letter = false := by
  unfold escapeLetter? at found
  split at found <;> cases found <;> decide

theorem quoteChar_not_control (c : Char) : ∀ d ∈ quoteChar c, isControl d = false := by
  have pair : ∀ d, isControl d = false → ∀ e ∈ ['\\', d], isControl e = false := fun d plain =>
    List.forall_mem_cons.mpr ⟨by decide, List.forall_mem_singleton.mpr plain⟩
  unfold quoteChar
  split
  · next marked =>
      refine pair c ?_
      rcases marked with rfl | rfl <;> decide
  · split
    · next printable =>
        intro d member
        rw [List.mem_singleton.mp member]
        by_contra control
        rw [control_not_printable c (by simpa using control)] at printable
        cases printable
    · split
      · next letter found =>
          exact pair letter (escapeLetter?_not_control found)
      · split
        · exact escape_not_control (by decide) 2 _
        · split
          · exact escape_not_control (by decide) 4 _
          · exact escape_not_control (by decide) 8 _

/-- Whatever a rune is, it is written without control characters. -/
theorem quoteRune_not_control (r : Rune) : ∀ c ∈ quoteRune r, isControl c = false := by
  unfold quoteRune
  split
  · exact escape_not_control (by decide) 2 _
  · exact quoteChar_not_control r.char

/-- A quoted text holds no control character. -/
theorem chars_quote_not_control (t : Text) : ∀ c ∈ (quote t).chars, isControl c = false := by
  rw [quote, chars_ofChars]
  intro c member
  rcases List.mem_append.mp member with inside | last
  · rcases List.mem_cons.mp inside with rfl | inner
    · decide
    · obtain ⟨r, -, written⟩ := List.mem_flatMap.mp inner
      exact quoteRune_not_control r c written
  · rw [List.mem_singleton.mp last]
    decide

theorem newline_notMem_quote (t : Text) : newline ∉ quote t := by
  rw [quote]
  refine newline_notMem_ofChars fun member => ?_
  have plain := chars_quote_not_control t '\n' (by rwa [quote, chars_ofChars])
  exact absurd plain (by decide)

/-- What is quoted begins with a quote. -/
theorem head?_quote (t : Text) : (quote t).head? = some 34 := rfl

/-! ## Numbers -/

/-- The bytes that numbers are written with: digits, signs, the point, and the letters of exponents, of
infinity and of what is no number. -/
def IsFigure (b : UInt8) : Prop := isDigit b ∨ b ∈ utf8 "+-.eInfNa"

instance : DecidablePred IsFigure := fun b => inferInstanceAs (Decidable (isDigit b ∨ b ∈ utf8 "+-.eInfNa"))

/-- A text that a number may be written as. -/
def Figures (t : Text) : Prop := ∀ b ∈ t, IsFigure b

instance (t : Text) : Decidable t.Figures := List.decidableBAll IsFigure t

namespace Figures

theorem append {t u : Text} (first : t.Figures) (second : u.Figures) : (t ++ u).Figures :=
  List.forall_mem_append.mpr ⟨first, second⟩

theorem take {t : Text} (figures : t.Figures) (n : Nat) : Figures (t.take n) :=
  fun b member => figures b (List.mem_of_mem_take member)

theorem drop {t : Text} (figures : t.Figures) (n : Nat) : Figures (t.drop n) :=
  fun b member => figures b (List.mem_of_mem_drop member)

theorem zeros (n : Nat) : Figures (List.replicate n 48) := by
  intro b member
  rw [List.eq_of_mem_replicate member]
  decide

theorem ofNat (n : Nat) : (ofNat n).Figures := by
  intro b member
  obtain ⟨low, high⟩ := ofNat_digits n b member
  have from48 : (48 : UInt8) ≤ b := UInt8.le_iff_toNat_le.mpr low
  have to57 : b ≤ (57 : UInt8) := UInt8.le_iff_toNat_le.mpr high
  exact .inl (by simp [isDigit, from48, to57])

theorem ofInt (i : Int) : (ofInt i).Figures := by
  unfold Text.ofInt
  split
  · exact List.forall_mem_cons.mpr ⟨by decide, ofNat _⟩
  · exact ofNat _

/-- A text of figures holds no byte that is none. -/
theorem notMem {t : Text} (figures : t.Figures) {b : UInt8} (other : ¬IsFigure b) : b ∉ t :=
  fun member => other (figures b member)

end Figures

end Text

namespace Decimal

open Text

theorem figures_positional {digits : Text} (figures : digits.Figures) (point : Int) :
    (positional digits point).Figures := by
  unfold positional
  dsimp only
  split
  · exact (Figures.append (by decide) (.zeros _)).append figures
  · split
    · exact figures.append (.zeros _)
    · exact ((figures.take _).append (by decide)).append (figures.drop _)

theorem figures_scientific {digits : Text} (figures : digits.Figures) (exponent : Int) :
    (scientific digits exponent).Figures := by
  have fraction : Figures (if digits.drop 1 = [] then [] else utf8 "." ++ digits.drop 1) := by
    split
    · decide
    · exact Figures.append (by decide) (figures.drop 1)
  have sign : Figures (if exponent < 0 then utf8 "e-" else utf8 "e+") := by split <;> decide
  unfold scientific
  refine (((figures.take 1).append fraction).append sign).append ?_
  split
  · exact Figures.append (by decide) (.ofNat _)
  · exact .ofNat _

/-- A double is written with figures. -/
theorem Layout.figures_render (l : Layout) (x : Binary64) : (l.render x).Figures := by
  unfold render
  split
  · decide
  · decide
  · decide
  · refine Figures.append (by split <;> decide) ?_
    unfold magnitude
    split
    · decide
    · dsimp only
      split
      · exact figures_positional (.ofNat _) _
      · exact figures_scientific (.ofNat _) _

end Decimal

/-! ## Values -/

namespace Value

/-- What tools show of a value stays on one line, if the names of functions do. -/
theorem newline_notMem_inspect {v : Value} (named : ∀ f, v = .function f → Text.newline ∉ f.name) :
    Text.newline ∉ v.inspect := by
  cases v with
  | null => decide
  | bool b => cases b <;> decide
  | int i => exact (Text.Figures.ofInt _).notMem (by decide)
  | float x => exact (Decimal.Layout.figures_render _ _).notMem (by decide)
  | text t => exact Text.newline_notMem_quote t
  | function f =>
      simp only [inspect, render, List.mem_append, not_or]
      exact ⟨⟨by decide, named f rfl⟩, by decide⟩

/-- Only texts are shown with a quote at the beginning. -/
theorem head?_inspect {v : Value} (other : ∀ t, v ≠ .text t) : v.inspect.head? ≠ some 34 := by
  have figures : ∀ t : Text, t.Figures → t.head? ≠ some 34 := fun t figures first =>
    figures.notMem (by decide) (List.mem_of_head? first)
  cases v with
  | null => decide
  | bool b => cases b <;> decide
  | int i => exact figures _ (.ofInt _)
  | float x => exact figures _ (Decimal.Layout.figures_render _ _)
  | text t => exact absurd rfl (other t)
  | function f =>
      have first : (inspect (.function f)).head? = some 60 := rfl
      rw [first]
      decide

/-- A value that is shown as a text is shown is that text. -/
theorem inspect_eq_text_iff {v : Value} {t : Text} : v.inspect = (Value.text t).inspect ↔ v = .text t := by
  constructor
  · intro same
    have first : v.inspect.head? = some 34 := by
      rw [same]
      exact Text.head?_quote t
    by_cases isText : ∃ u, v = .text u
    · obtain ⟨u, rfl⟩ := isText
      have back := congrArg Text.dequote same
      rw [inspect, inspect, Text.dequote_quote, Text.dequote_quote] at back
      rw [back]
    · exact absurd first (head?_inspect fun u equal => isText ⟨u, equal⟩)
  · intro same
    rw [same]

end Value

end LoopScript
