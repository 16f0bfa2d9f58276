/-
# LoopScript.Proofs.Text.Lines — the lines of a text, by number and rune by rune

The lines of a text hold no line feeds (`newline_notMem_line`), and such lines, once they are joined, are
cut apart again as they were (`splitLines_joinLines`). The line in which a cut through a text falls has as
its number the line feeds in front of the cut; it is made up of what stands behind the last of them and
what stands before the next one (`splitLines_getElem?`).

A line feed is an ASCII byte, so no rune reaches over it and a line reads by itself as it does within the
text (`runes_line`). The same holds of any ASCII text that is put in front (`runes_ascii_append`).
-/
import LoopScript.Proofs.Text.Boundary

namespace LoopScript.Text

set_option autoImplicit false

/-! ## Joining and cutting -/

theorem splitLines_newline (rest : Text) : splitLines (newline :: rest) = [] :: splitLines rest := by
  rw [splitLines, splitAt, if_pos rfl]
  rfl

/-- A byte that is no line feed goes to the front of the first line. -/
theorem splitLines_cons {b : UInt8} {rest first : Text} {others : List Text} (other : b ≠ newline)
    (lines : splitLines rest = first :: others) : splitLines (b :: rest) = (b :: first) :: others := by
  rw [splitLines] at lines
  rw [splitLines, splitAt, if_neg other, lines]

/-- What stands before a line feed is the first line. -/
theorem splitLines_append {line : Text} (absent : newline ∉ line) (rest : Text) :
    splitLines (line ++ newline :: rest) = line :: splitLines rest := by
  induction line with
  | nil => exact splitLines_newline rest
  | cons b more ih =>
      simp only [List.mem_cons, not_or] at absent
      exact splitLines_cons (Ne.symm absent.1) (ih absent.2)

theorem splitLines_of_notMem {line : Text} (absent : newline ∉ line) : splitLines line = [line] := by
  induction line with
  | nil => rfl
  | cons b more ih =>
      simp only [List.mem_cons, not_or] at absent
      exact splitLines_cons (Ne.symm absent.1) (ih absent.2)

/-- A text is cut at every line feed: the lines before one and those behind it are the lines of the whole. -/
theorem splitLines_append_newline (before rest : Text) :
    splitLines (before ++ newline :: rest) = splitLines before ++ splitLines rest := by
  induction before with
  | nil => exact splitLines_newline rest
  | cons b more ih =>
      by_cases feed : b = newline
      · rw [feed, List.cons_append, splitLines_newline, splitLines_newline, ih, List.cons_append]
      · cases lines : splitLines more with
        | nil => exact absurd lines (splitAt_ne_nil newline more)
        | cons first others =>
            rw [lines] at ih
            rw [splitLines_cons feed lines]
            exact splitLines_cons feed ih

/-- Lines that are joined are cut apart as they were. -/
theorem splitLines_joinLines : ∀ {lines : List Text}, lines ≠ [] → (∀ line ∈ lines, newline ∉ line) →
    splitLines (joinLines lines) = lines
  | [line], _, absent => splitLines_of_notMem (absent line List.mem_cons_self)
  | line :: next :: others, _, absent => by
      have joined : joinLines (line :: next :: others) = line ++ newline :: joinLines (next :: others) := by
        simp [joinLines, joinWith_cons_cons]
      have ih := splitLines_joinLines (List.cons_ne_nil next others) fun later member =>
        absent later (List.mem_cons_of_mem line member)
      rw [joined, splitLines_append (absent line List.mem_cons_self), ih]

/-- The pieces of a text that is cut at `sep` do not hold it. -/
theorem notMem_of_mem_splitAt (sep : UInt8) : ∀ (t : Text), ∀ piece ∈ splitAt sep t, sep ∉ piece
  | [], piece, member => by
      rw [splitAt, List.mem_singleton] at member
      rw [member]
      exact List.not_mem_nil
  | b :: rest, piece, member => by
      have ih := notMem_of_mem_splitAt sep rest
      rw [splitAt] at member
      split at member
      · rcases List.mem_cons.mp member with rfl | later
        · exact List.not_mem_nil
        · exact ih piece later
      · next other =>
          split at member
          · next first more same =>
              rw [same] at ih
              rcases List.mem_cons.mp member with rfl | later
              · have absent := ih first List.mem_cons_self
                simp only [List.mem_cons, not_or]
                exact ⟨fun equal => other equal.symm, absent⟩
              · exact ih piece (List.mem_cons_of_mem first later)
          · next same => exact absurd same (splitAt_ne_nil sep rest)

theorem newline_notMem_line {t line : Text} (member : line ∈ splitLines t) : newline ∉ line :=
  notMem_of_mem_splitAt newline t line member

/-! ## The line of a cut -/

/-- What stands before the first line feed. -/
def firstLine (t : Text) : Text := t.takeWhile (· != newline)

theorem splitLines_eq_firstLine (t : Text) : ∃ others, splitLines t = t.firstLine :: others := by
  induction t with
  | nil => exact ⟨[], rfl⟩
  | cons b rest ih =>
      obtain ⟨others, lines⟩ := ih
      by_cases feed : b = newline
      · rw [feed, splitLines_newline]
        exact ⟨splitLines rest, by simp [firstLine]⟩
      · rw [splitLines_cons feed lines]
        exact ⟨others, by simp [firstLine, feed]⟩

theorem lastLine_cons_newline (t : Text) : lastLine (newline :: t) = t.lastLine := by
  rcases newline_cases t with absent | ⟨before, line, rfl, absent⟩
  · rw [lastLine_of_notMem absent]
    exact lastLine_append [] absent
  · rw [lastLine_append before absent]
    exact lastLine_append (newline :: before) absent

/-- The line of a cut has as many lines in front of it as there are line feeds. -/
theorem splitLines_getElem? (before rest : Text) :
    (splitLines (before ++ rest))[before.count newline]? = some (before.lastLine ++ rest.firstLine) := by
  induction before with
  | nil =>
      obtain ⟨others, lines⟩ := splitLines_eq_firstLine rest
      rw [List.nil_append, lines]
      rfl
  | cons b more ih =>
      by_cases feed : b = newline
      · rw [feed, List.cons_append, splitLines_newline, List.count_cons_self, List.getElem?_cons_succ, ih,
          lastLine_cons_newline]
      · obtain ⟨others, lines⟩ := splitLines_eq_firstLine (more ++ rest)
        rw [lines] at ih
        rw [List.cons_append, splitLines_cons feed lines, List.count_cons_of_ne feed]
        rcases newline_cases more with absent | ⟨front, line, rfl, absent⟩
        · have alone : newline ∉ b :: more := by
            simp only [List.mem_cons, not_or]
            exact ⟨Ne.symm feed, absent⟩
          rw [List.count_eq_zero.mpr absent, List.getElem?_cons_zero, lastLine_of_notMem absent] at ih
          rw [List.count_eq_zero.mpr absent, List.getElem?_cons_zero, lastLine_of_notMem alone,
            Option.some.inj ih, List.cons_append]
        · have later : 0 < (front ++ newline :: line).count newline := List.count_pos_iff.mpr (by simp)
          obtain ⟨n, count⟩ := Nat.exists_eq_add_one.mpr later
          rw [lastLine_append front absent, count, List.getElem?_cons_succ] at ih
          rw [count, List.getElem?_cons_succ, ih]
          exact congrArg (fun last => some (last ++ rest.firstLine))
            (lastLine_append (b :: front) absent).symm

/-! ## Lines rune by rune -/

/-- A text reads as its first line and what follows it. -/
theorem runes_firstLine (t : Text) :
    ∃ behind, ∀ line : Text, line ++ t = line ++ t.firstLine ++ behind ∧
      (line ++ t).runes = (line ++ t.firstLine).runes ++ behind.runes := by
  have whole : t = t.firstLine ++ t.dropWhile (· != newline) := List.takeWhile_append_dropWhile.symm
  cases rest : t.dropWhile (· != newline) with
  | nil =>
      rw [rest, List.append_nil] at whole
      refine ⟨[], fun line => ?_⟩
      rw [← whole]
      exact ⟨(List.append_nil _).symm, (List.append_nil _).symm⟩
  | cons b more =>
      have feed : b = newline := by
        have stops := List.head?_dropWhile_not (· != newline) t
        rw [rest] at stops
        simpa using stops
      subst feed
      rw [rest] at whole
      refine ⟨newline :: more, fun line => ?_⟩
      have parts : line ++ t = line ++ t.firstLine ++ newline :: more := by
        rw [List.append_assoc, ← whole]
      refine ⟨parts, ?_⟩
      rw [parts, runes_append_ascii (by decide), runes_cons_ascii (by decide)]

/-- The first rune of a text that begins with no line feed is that of its first line. -/
theorem runes_firstLine_zero {t : Text} {r : Rune} {rs : List Rune} (read : t.runes = r :: rs)
    (other : r.char ≠ '\n') : t.firstLine.runes[0]? = some r := by
  obtain ⟨behind, whole⟩ := runes_firstLine t
  have parts : t.runes = t.firstLine.runes ++ behind.runes := (whole []).2
  cases t with
  | nil => cases read
  | cons b more =>
      have feed : b ≠ newline := by
        rintro rfl
        rw [runes_cons_ascii (by decide)] at read
        rw [← (List.cons.inj read).1] at other
        exact other rfl
      have line : firstLine (b :: more) = b :: firstLine more := by simp [firstLine, feed]
      rw [read, line, runes_cons b (firstLine more), List.cons_append] at parts
      rw [line, runes_cons, (List.cons.inj parts).1]
      rfl

/-- A text reads as what stands before its last line and that line, whatever follows. -/
theorem runes_lastLine (t : Text) :
    ∃ before, ∀ rest : Text, t ++ rest = before ++ (t.lastLine ++ rest) ∧
      (t ++ rest).runes = before.runes ++ (t.lastLine ++ rest).runes := by
  rcases newline_cases t with absent | ⟨before, line, rfl, absent⟩
  · rw [lastLine_of_notMem absent]
    exact ⟨[], fun rest => ⟨rfl, rfl⟩⟩
  · rw [lastLine_append before absent]
    refine ⟨before ++ [newline], fun rest => ⟨by simp, ?_⟩⟩
    have single : runes [] = [] := rfl
    rw [List.append_assoc, List.cons_append, runes_append_ascii (by decide),
      runes_append_ascii (by decide), single, List.append_assoc]
    rfl

/-- Where a text is cut between two of its runes, the line of the cut is cut there as well. -/
theorem runes_line {before rest : Text} (cut : (before ++ rest).runes = before.runes ++ rest.runes) :
    (before.lastLine ++ rest.firstLine).runes = before.lastLine.runes ++ rest.firstLine.runes := by
  obtain ⟨front, first⟩ := runes_lastLine before
  obtain ⟨behind, last⟩ := runes_firstLine rest
  have alone : before.runes = front.runes ++ before.lastLine.runes := by
    have parts := (first []).2
    rwa [List.append_nil, List.append_nil] at parts
  have inner : (before.lastLine ++ rest).runes = before.lastLine.runes ++ rest.runes := by
    rw [(first rest).2, alone, List.append_assoc] at cut
    exact List.append_cancel_left cut
  have tail : rest.runes = rest.firstLine.runes ++ behind.runes := (last []).2
  rw [(last before.lastLine).2, tail, ← List.append_assoc] at inner
  exact List.append_cancel_right inner

/-! ## ASCII texts -/

def asciiRune (b : UInt8) : Rune := ⟨Char.ofNat b.toNat, [b]⟩

theorem ascii_of_all {t : Text} (all : t.all (fun b => b.toNat < 0x80) = true) :
    ∀ b ∈ t, b.toNat < 0x80 := by
  simpa using all

/-- ASCII text in front of a text is read byte by byte, and the text behind it as it is alone. -/
theorem runes_ascii_append {t : Text} (ascii : ∀ b ∈ t, b.toNat < 0x80) (rest : Text) :
    (t ++ rest).runes = t.map asciiRune ++ rest.runes := by
  induction t with
  | nil => rfl
  | cons b more ih =>
      have head := ascii b List.mem_cons_self
      have tail := ih fun c member => ascii c (List.mem_cons_of_mem b member)
      rw [List.cons_append, runes_cons_ascii head, tail]
      rfl

theorem runes_ascii {t : Text} (ascii : ∀ b ∈ t, b.toNat < 0x80) : t.runes = t.map asciiRune := by
  have alone := runes_ascii_append ascii []
  have none : runes [] = [] := rfl
  rwa [none, List.append_nil, List.append_nil] at alone

/-- A text of ASCII bytes behind another text is read byte by byte. -/
theorem runes_append_of_ascii (t : Text) {u : Text} (ascii : ∀ b ∈ u, b.toNat < 0x80) :
    (t ++ u).runes = t.runes ++ u.map asciiRune := by
  cases u with
  | nil => simp
  | cons b more =>
      have later : ∀ c ∈ more, c.toNat < 0x80 := fun c member => ascii c (List.mem_cons_of_mem b member)
      rw [runes_append_ascii (ascii b List.mem_cons_self), runes_ascii later]
      rfl

/-- The characters of a numeral are digits. -/
theorem toDigits_bounds {n : Nat} {c : Char} (inside : c ∈ Nat.toDigits 10 n) :
    48 ≤ c.toNat ∧ c.toNat ≤ 57 := by
  have digit := Nat.isDigit_of_mem_toDigits (by decide) (by decide) inside
  simp only [Char.isDigit, Bool.and_eq_true, decide_eq_true_eq, ge_iff_le, UInt32.le_iff_toNat_le] at digit
  exact digit

/-- The bytes of a numeral are digits. -/
theorem ofNat_digits (n : Nat) : ∀ b ∈ ofNat n, 48 ≤ b.toNat ∧ b.toNat ≤ 57 := by
  intro b member
  obtain ⟨c, inside, rfl⟩ := List.mem_map.mp member
  have bounds := toDigits_bounds inside
  have same : c.toNat.toUInt8.toNat = c.toNat := UInt8.toNat_ofNat_of_lt' (show c.toNat < 256 by omega)
  rw [same]
  exact bounds

theorem newline_notMem_ofNat (n : Nat) : newline ∉ ofNat n := by
  intro member
  exact absurd (ofNat_digits n newline member).1 (by decide)

end LoopScript.Text
