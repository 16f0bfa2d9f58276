/-
# LoopScript.Proofs.Console.Completion — completing the name at the end of the input line

Of a list of characters, the name at its end is the longest end that is made of characters of names; `Trails`
says of a cut that it is the one before that name (`exists_trails`, `Trails.longest`).

Completion cuts the line behind the first byte of the last character that is not part of the name. If that
character takes one byte, this is the cut before the name (`Trails.splitStem_narrow`). If it takes more, as
`é` does, the rest of its bytes get in front of the name. No word begins with such a byte, so nothing is
completed (`Trails.complete_wide`).

Otherwise a single candidate takes the place of the name (`Trails.complete_single`), and then it stays the
single candidate (`candidates_of_longer`).
-/
import LoopScript.Proofs.Console.Contents
import LoopScript.Proofs.Token.Cut
import Mathlib.Data.List.Induction

namespace LoopScript.Console

set_option autoImplicit false

/-! ## The name at the end -/

/-- The cut between `before` and `name` is the one before the name at the end. -/
structure Trails (before name : List Char) : Prop where
  inName : ∀ d ∈ name, Token.isNameChar d = true
  ends : ∀ d ∈ before.getLast?, Token.isNameChar d = false

theorem exists_trails (cs : List Char) : ∃ before name, cs = before ++ name ∧ Trails before name := by
  induction cs using List.reverseRecOn with
  | nil => exact ⟨[], [], rfl, List.forall_mem_nil _, fun d last => by cases last⟩
  | append_singleton cs d ih =>
      by_cases inside : Token.isNameChar d = true
      · obtain ⟨before, name, rfl, trails⟩ := ih
        refine ⟨before, name ++ [d], List.append_assoc _ _ _, ?_, trails.ends⟩
        exact List.forall_mem_append.mpr ⟨trails.inName, List.forall_mem_singleton.mpr inside⟩
      · refine ⟨cs ++ [d], [], (List.append_nil _).symm, List.forall_mem_nil _, fun e last => ?_⟩
        rw [List.getLast?_concat] at last
        cases last
        exact Bool.eq_false_iff.mpr inside

namespace Trails

variable {before name : List Char} (trails : Trails before name)
include trails

/-- No longer end is made of characters of names. -/
theorem longest {t : List Char} (ending : t <:+ before ++ name)
    (inName : ∀ d ∈ t, Token.isNameChar d = true) : t <:+ name := by
  rcases List.suffix_or_suffix_of_suffix ending (List.suffix_append before name) with shorter | longer
  · exact shorter
  · obtain ⟨more, rfl⟩ := longer
    obtain ⟨rest, whole⟩ := ending
    rw [← List.append_assoc] at whole
    have same := List.append_cancel_right whole
    cases found : more.getLast? with
    | none =>
        rw [List.getLast?_eq_none_iff.mp found]
        exact List.suffix_rfl
    | some d =>
        have last : d ∈ before.getLast? := by
          rw [← same, List.getLast?_append, found]
          rfl
        have member : d ∈ more ++ name := List.mem_append_left _ (List.mem_of_getLast? found)
        have outside := trails.ends d last
        rw [inName d member] at outside
        cases outside

end Trails

/-! ## Where the line is cut -/

/-- The last character takes more than one byte. -/
def EndsWide (cs : List Char) : Prop := ∃ d ∈ cs.getLast?, 0x80 ≤ d.toNat

instance (cs : List Char) : Decidable (EndsWide cs) :=
  decidable_of_iff (cs.getLast?.any (fun d => decide (0x80 ≤ d.toNat)) = true) (by
    simp [EndsWide, Option.any_eq_true])

theorem ofRunes_ofChar (cs : List Char) : Text.ofRunes (cs.map Rune.ofChar) = Text.ofChars cs := by
  rw [Text.ofRunes, List.flatMap_map]
  rfl

/-- A line that is a name is completed as a whole. -/
theorem splitStem_name {name : List Char} (inName : ∀ d ∈ name, Token.isNameChar d = true) :
    splitStem (Text.ofChars name) = ([], Text.ofChars name) := by
  have all : ∀ r ∈ (name.map Rune.ofChar).reverse, Token.isNameChar r.char = true := by
    simpa [Rune.ofChar] using inName
  rw [splitStem, Text.runes_ofChars, List.takeWhile_eq_self_iff.mpr all, List.dropWhile_eq_nil_iff.mpr all,
    List.reverse_reverse, ofRunes_ofChar]

/-- Otherwise the line is cut behind the first byte of the character before the name. -/
theorem splitStem_behind {start name : List Char} {d : Char}
    (inName : ∀ e ∈ name, Token.isNameChar e = true) (outside : Token.isNameChar d = false) :
    splitStem (Text.ofChars (start ++ [d] ++ name)) =
      (Text.ofChars start ++ (String.utf8EncodeChar d).take 1,
        (String.utf8EncodeChar d).drop 1 ++ Text.ofChars name) := by
  have all : ∀ r ∈ (name.map Rune.ofChar).reverse, Token.isNameChar r.char = true := by
    simpa [Rune.ofChar] using inName
  have stops : ¬Token.isNameChar (Rune.ofChar d).char = true := by
    rw [Rune.ofChar, outside]
    exact Bool.false_ne_true
  have backwards : ((start ++ [d] ++ name).map Rune.ofChar).reverse =
      (name.map Rune.ofChar).reverse ++ Rune.ofChar d :: (start.map Rune.ofChar).reverse := by
    simp
  have taken : ((name.map Rune.ofChar).reverse ++ Rune.ofChar d :: (start.map Rune.ofChar).reverse).takeWhile
      (fun r => Token.isNameChar r.char) = (name.map Rune.ofChar).reverse := by
    rw [List.takeWhile_append_of_pos all]
    simp [stops]
  have left : ((name.map Rune.ofChar).reverse ++ Rune.ofChar d :: (start.map Rune.ofChar).reverse).dropWhile
      (fun r => Token.isNameChar r.char) = Rune.ofChar d :: (start.map Rune.ofChar).reverse := by
    rw [List.dropWhile_append_of_pos all]
    simp [stops]
  rw [splitStem, Text.runes_ofChars, backwards, taken, left]
  dsimp only
  rw [List.reverse_reverse, List.reverse_reverse, ofRunes_ofChar, ofRunes_ofChar]
  rfl

namespace Trails

variable {before name : List Char} (trails : Trails before name)
include trails

/-- A character of one byte goes to what stands before the name. -/
theorem splitStem_narrow {line : Text} (written : line = Text.ofChars (before ++ name))
    (narrow : ¬EndsWide before) : splitStem line = (Text.ofChars before, Text.ofChars name) := by
  rw [written]
  cases found : before.getLast? with
  | none =>
      rw [List.getLast?_eq_none_iff.mp found]
      exact splitStem_name trails.inName
  | some d =>
      have outside := trails.ends d found
      obtain ⟨start, rfl⟩ := List.getLast?_eq_some_iff.mp found
      rw [splitStem_behind trails.inName outside, Text.ofChars_append]
      have ascii : d.toNat < 0x80 := by
        by_contra wide
        exact narrow ⟨d, found, Nat.not_lt.mp wide⟩
      obtain ⟨b, encoded⟩ := Rune.utf8EncodeChar_of_ascii ascii
      simp [Text.ofChars, encoded]

/-- The name gets a byte in front of it that no word begins with. -/
theorem splitStem_wide {line : Text} (written : line = Text.ofChars (before ++ name))
    (wide : EndsWide before) : ∃ b rest, (splitStem line).2 = b :: rest ∧ 0x80 ≤ b.toNat := by
  rw [written]
  obtain ⟨d, found, high⟩ := wide
  have outside := trails.ends d found
  obtain ⟨start, rfl⟩ := List.getLast?_eq_some_iff.mp found
  rw [splitStem_behind trails.inName outside]
  obtain ⟨b, next, tail, encoded, byte⟩ := Rune.utf8EncodeChar_of_wide high
  exact ⟨next, tail ++ Text.ofChars name, by rw [encoded]; rfl, byte⟩

end Trails

/-! ## The candidates -/

/-- No word begins with a byte that is not ASCII. -/
theorem Tidy.candidates_wide {c : Console} (tidy : c.Tidy) {b : UInt8} {rest : Text}
    (wide : 0x80 ≤ b.toNat) : candidates (b :: rest) c.env.names = [] := by
  refine List.eq_nil_iff_forall_not_mem.mpr fun word member => ?_
  have first : b ∈ word := (mem_candidates.mp member).2.subset List.mem_cons_self
  have ascii := (tidy.candidate_isWord member).ascii b first
  omega

theorem eq_singleton_of_ascending {words : List Text} {word : Text} (ascending : words.Pairwise (· < ·))
    (only : ∀ other, other ∈ words ↔ other = word) : words = [word] := by
  cases words with
  | nil => exact absurd ((only word).mpr rfl) List.not_mem_nil
  | cons first rest =>
      have same := (only first).mp List.mem_cons_self
      cases rest with
      | nil => rw [same]
      | cons second others =>
          have next := (only second).mp (by simp)
          have less := (List.pairwise_cons.mp ascending).1 second List.mem_cons_self
          rw [same, next] at less
          exact absurd less (List.lt_irrefl word)

/-- A single candidate stays the single one if more of it is given. -/
theorem candidates_of_longer {stem longer word : Text} {names : List Text}
    (single : candidates stem names = [word]) (more : stem <+: longer) (begins : longer <+: word) :
    candidates longer names = [word] := by
  have only : ∀ other, other ∈ candidates longer names ↔ other = word := by
    intro other
    have known : ∀ w, w ∈ candidates stem names ↔ w = word := fun w => by rw [single, List.mem_singleton]
    constructor
    · intro member
      obtain ⟨known', first⟩ := mem_candidates.mp member
      exact (known other).mp (mem_candidates.mpr ⟨known', more.trans first⟩)
    · rintro rfl
      exact mem_candidates.mpr ⟨(mem_candidates.mp ((known other).mpr rfl)).1, begins⟩
  exact eq_singleton_of_ascending (candidates_ascending longer names) only

/-! ## Completing -/

section

variable {c : Console} {before stem : Text} (split : splitStem c.input = (before, stem))
include split

theorem complete_of_single {word : Text} (given : stem ≠ [])
    (single : candidates stem c.env.names = [word]) : c.complete = c.setInput (before ++ word) := by
  rw [complete, split]
  dsimp only
  rw [if_neg given, single]

theorem complete_of_none (none : stem = [] ∨ candidates stem c.env.names = []) : c.complete = c := by
  rw [complete, split]
  dsimp only
  split
  · rfl
  · next given => rw [none.resolve_left given]

theorem complete_of_several (given : stem ≠ [])
    (several : 2 ≤ (candidates stem c.env.names).length) :
    c.complete = c.report (.ofNote
      (utf8 "candidates: " ++ Text.joinWith (utf8 "  ") (candidates stem c.env.names))) := by
  rw [complete, split]
  dsimp only
  rw [if_neg given]
  split
  · next none => rw [none] at several; simp at several
  · next one => rw [one] at several; simp at several
  · rfl

end

/-- Several candidates are listed. -/
theorem Trails.complete_several {c : Console} {before name : List Char} (trails : Trails before name)
    (line : c.input = Text.ofChars (before ++ name)) (narrow : ¬EndsWide before) (given : name ≠ [])
    (several : 2 ≤ (candidates (Text.ofChars name) c.env.names).length) :
    c.complete = c.report (.ofNote
      (utf8 "candidates: " ++ Text.joinWith (utf8 "  ") (candidates (Text.ofChars name) c.env.names))) := by
  have stem : Text.ofChars name ≠ [] := fun none => given (Text.ofChars_injective none)
  exact complete_of_several (trails.splitStem_narrow line narrow) stem several

/-- A candidate that does not fit is cut, but not to less than the name. -/
theorem Consistent.completed_line {c : Console} (consistent : c.Consistent) {before name : List Char}
    (line : c.input = Text.ofChars (before ++ name)) {word : Text} (begins : name <+: word.chars) :
    ∃ kept, (before ++ word.chars).take fieldLimit = before ++ kept ∧ name <+: kept ∧
      kept <+: word.chars := by
  obtain ⟨-, -, fits⟩ := consistent.held.chars
  rw [line, Text.chars_ofChars, List.length_append] at fits
  refine ⟨word.chars.take (fieldLimit - before.length), ?_, ?_, List.take_prefix _ _⟩
  · rw [List.take_append, List.take_of_length_le (by omega)]
  · rw [List.prefix_take_iff]
    exact ⟨begins, by omega⟩

section

variable {c : Console} (tidy : c.Tidy)
include tidy

theorem Tidy.single_word {name : List Char} {word : Text}
    (single : candidates (Text.ofChars name) c.env.names = [word]) :
    word.IsWord ∧ name <+: word.chars := by
  have member : word ∈ candidates (Text.ofChars name) c.env.names := by
    rw [single]
    exact List.mem_singleton_self word
  have isWord := tidy.candidate_isWord member
  exact ⟨isWord, Text.prefix_chars_of_ascii isWord.ascii (mem_candidates.mp member).2⟩

variable (consistent : c.Consistent) {before name : List Char}
  (line : c.input = Text.ofChars (before ++ name)) (trails : Trails before name)
include line trails

/-- Behind a character of more than one byte nothing is completed. -/
theorem Trails.complete_wide (wide : EndsWide before) : c.complete = c := by
  obtain ⟨b, rest, stem, high⟩ := trails.splitStem_wide line wide
  have none : candidates (splitStem c.input).2 c.env.names = [] := by
    rw [stem]
    exact tidy.candidates_wide high
  exact complete_of_none rfl (.inr none)

/-- Nor is anything without a name or without a candidate. -/
theorem Trails.complete_idle
    (reason : name = [] ∨ candidates (Text.ofChars name) c.env.names = [] ∨ EndsWide before) :
    c.complete = c := by
  by_cases wide : EndsWide before
  · exact trails.complete_wide tidy line wide
  · have split := trails.splitStem_narrow line wide
    rcases reason with none | none | wide'
    · exact complete_of_none split (.inl (by rw [none]; rfl))
    · exact complete_of_none split (.inr none)
    · exact absurd wide' wide

include consistent

variable (narrow : ¬EndsWide before) (given : name ≠ []) {word : Text}
  (single : candidates (Text.ofChars name) c.env.names = [word])
include narrow given single

/-- A single candidate takes the place of the name. -/
theorem Trails.complete_single :
    c.complete = { c with input := Text.ofChars ((before ++ word.chars).take fieldLimit) } := by
  obtain ⟨isWord, -⟩ := tidy.single_word single
  have split := trails.splitStem_narrow line narrow
  have stem : Text.ofChars name ≠ [] := fun none => given (Text.ofChars_injective none)
  have taken : ∀ d ∈ before ++ word.chars, c.toolkit.Takes d := by
    obtain ⟨-, taken, -⟩ := consistent.held.chars
    rw [line, Text.chars_ofChars] at taken
    refine List.forall_mem_append.mpr ⟨(List.forall_mem_append.mp taken).1, fun d member => ?_⟩
    exact consistent.lawful.names d (isWord.nameChars d member)
  have whole : Text.ofChars before ++ word = Text.ofChars (before ++ word.chars) := by
    rw [Text.ofChars_append, isWord.ofChars_chars]
  rw [complete_of_single split stem single, setInput, whole, consistent.lawful.clean_taken _ taken]

/-- Completing again changes nothing. -/
theorem Trails.complete_again : c.complete.complete = c.complete := by
  obtain ⟨isWord, begins⟩ := tidy.single_word single
  obtain ⟨kept, cut, longer, shorter⟩ := consistent.completed_line line begins
  have completed := trails.complete_single tidy consistent line narrow given single
  have input : c.complete.input = Text.ofChars (before ++ kept) := by rw [completed, cut]
  have again : Trails before kept :=
    ⟨fun d member => isWord.nameChars d (shorter.subset member), trails.ends⟩
  have more : kept ≠ [] := by
    rintro rfl
    exact given (List.prefix_nil.mp longer)
  have stays : candidates (Text.ofChars kept) c.complete.env.names = [word] := by
    have last := Text.ofChars_mono shorter
    rw [isWord.ofChars_chars] at last
    rw [completed]
    exact candidates_of_longer single (Text.ofChars_mono longer) last
  rw [again.complete_single (complete_tidy tidy) (complete_consistent consistent) input narrow more stays,
    completed]

omit narrow given single

/-- The line goes on from what it was. -/
theorem Trails.input_continues : c.input <+: c.complete.input := by
  by_cases idle : name = [] ∨ candidates (Text.ofChars name) c.env.names = [] ∨ EndsWide before
  · have same : c.complete.input = c.input := congrArg input (trails.complete_idle tidy line idle)
    exact ⟨[], by rw [List.append_nil, same]⟩
  · simp only [not_or] at idle
    obtain ⟨given, some, narrow⟩ := idle
    cases found : candidates (Text.ofChars name) c.env.names with
    | nil => exact absurd found some
    | cons word others =>
        cases others with
        | nil =>
            obtain ⟨-, begins⟩ := tidy.single_word found
            obtain ⟨kept, cut, longer, -⟩ := consistent.completed_line line begins
            rw [trails.complete_single tidy consistent line narrow given found, cut, line]
            exact Text.ofChars_mono ((List.prefix_append_right_inj before).mpr longer)
        | cons second more =>
            have several := trails.complete_several line narrow given (by rw [found]; simp)
            have same : c.complete.input = c.input := by
              rw [several]
              rfl
            exact ⟨[], by rw [List.append_nil, same]⟩

end

/-! ## What completing does -/

/-- **Completing extends the name at the end of the input line**, unless a character of more than one byte
stands in front of it. After any events, with any lawful toolkit, the input line ends in a longest name,
perhaps an empty one, for which there are candidates: the reserved words and the bound names that begin with
it, in order and each once. If the name is empty, if there is no candidate, or if the character before the
name takes more than one byte, nothing changes. Otherwise a single candidate takes the place of the name, as
far as the line holds it, and completing again changes nothing; several candidates are listed in a note.
Either way the line goes on from what it was. -/
theorem complete_extends {kit : Toolkit} (lawful : kit.Lawful) {budget : Nat} {events : List Event}
    {c : Console} (reached : updates budget (start kit) events = some c) :
    ∃ (before name : List Char) (words : List Text),
      c.input = Text.ofChars (before ++ name) ∧
      (∀ d ∈ name, Token.isNameChar d = true) ∧
      (∀ t, t <:+ before ++ name → (∀ d ∈ t, Token.isNameChar d = true) → t <:+ name) ∧
      (∀ w, w ∈ words ↔ (w ∈ Token.keywords ∨ w ∈ c.env.names) ∧ Text.ofChars name <+: w) ∧
      words.Pairwise (· < ·) ∧
      (name = [] ∨ words = [] ∨ EndsWide before → c.complete = c) ∧
      (name ≠ [] → ¬EndsWide before →
        (∀ w, words = [w] →
          c.complete = { c with input := Text.ofChars ((before ++ w.chars).take fieldLimit) } ∧
          c.complete.complete = c.complete) ∧
        (2 ≤ words.length → c.complete = c.report
          (.ofNote (utf8 "candidates: " ++ Text.joinWith (utf8 "  ") words)))) ∧
      c.input <+: c.complete.input := by
  have tidy := updates_tidy reached
  have consistent := updates_preserve update_consistent (start_consistent lawful) reached
  obtain ⟨before, name, cut, trails⟩ := exists_trails c.input.chars
  have line : c.input = Text.ofChars (before ++ name) := by
    rw [← cut]
    exact consistent.held.chars.1
  refine ⟨before, name, candidates (Text.ofChars name) c.env.names, line, trails.inName,
    fun t => trails.longest, fun w => mem_candidates, candidates_ascending _ _,
    trails.complete_idle tidy line, fun given narrow => ⟨fun w single => ⟨?_, ?_⟩, ?_⟩,
    trails.input_continues tidy consistent line⟩
  · exact trails.complete_single tidy consistent line narrow given single
  · exact trails.complete_again tidy consistent line narrow given single
  · exact trails.complete_several line narrow given

/-- In the line `é wh` a blank stands in front of the name, so that it is completed; a second time nothing
changes. -/
theorem complete_extends_while :
    ∃ c : Console, updates 0 initial [.set (utf8 "é wh")] = some c ∧ c.input = utf8 "é wh" ∧
      c.complete = { c with input := utf8 "é while" } ∧ c.complete.complete = c.complete ∧
      c.input <+: c.complete.input := by
  obtain ⟨before, name, words, line, inName, longest, mem, ascending, -, acts, first⟩ :=
    complete_extends Toolkit.standard_lawful (show updates 0 initial [.set (utf8 "é wh")] = some _ from rfl)
  have whole : before ++ name = ['é', ' ', 'w', 'h'] :=
    Text.ofChars_injective (line.symm.trans (by decide +kernel))
  have least : ['w', 'h'] <:+ name := by
    refine longest _ ⟨['é', ' '], whole.symm⟩ ?_
    exact List.forall_mem_cons.mpr ⟨rfl, List.forall_mem_singleton.mpr rfl⟩
  have cut : before = ['é', ' '] ∧ name = ['w', 'h'] := by
    obtain ⟨more, rfl⟩ := least
    have front : before ++ more = ['é'] ++ [' '] :=
      List.append_cancel_right ((List.append_assoc _ _ _).trans whole)
    rcases List.eq_nil_or_concat more with rfl | ⟨start, d, rfl⟩
    · exact ⟨(List.append_nil before).symm.trans front, rfl⟩
    · -- The name cannot begin further in front: its part there would end in the blank.
      rw [List.concat_eq_append, ← List.append_assoc] at front
      have blank : d = ' ' := by simpa using (List.append_inj' front rfl).2
      have inside := inName d (by simp)
      rw [blank] at inside
      exact absurd inside (by decide)
  obtain ⟨rfl, rfl⟩ := cut
  have single : words = [utf8 "while"] := by
    refine eq_singleton_of_ascending ascending fun other => ?_
    have found : candidates (Text.ofChars ['w', 'h']) initial.env.names = [utf8 "while"] := by
      decide +kernel
    rw [mem, ← List.mem_singleton, ← found]
    exact mem_candidates.symm
  obtain ⟨completed, again⟩ := (acts (List.cons_ne_nil _ _) (by decide)).1 _ single
  refine ⟨_, rfl, by decide +kernel, ?_, again, first⟩
  have text : Text.ofChars ((['é', ' '] ++ (utf8 "while").chars).take fieldLimit) = utf8 "é while" := by
    decide +kernel
  rw [completed, text]

/-- In the line `éDIS` there is a single candidate for `DIS`, but nothing is completed. -/
theorem complete_behind_accent :
    ∃ c : Console, updates 0 initial [.set (utf8 "éDIS")] = some c ∧
      c.input = Text.ofChars (['é'] ++ ['D', 'I', 'S']) ∧ Token.isNameChar 'é' = false ∧
      candidates (utf8 "DIS") c.env.names = [utf8 "DISPLAY"] ∧
      c.complete.input = utf8 "éDIS" ∧ c.complete.input ≠ utf8 "éDISPLAY" := by
  refine ⟨_, rfl, ?_⟩
  decide +kernel

end LoopScript.Console
