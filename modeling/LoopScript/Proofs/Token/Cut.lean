/-
# LoopScript.Proofs.Token.Cut — the tokens of a source that is cut off

A source may be cut off anywhere: within a character, a word, an operator, a string or a comment. Its
first characters are those of the whole source, and if the cut falls within a character the bytes of that
character are left over as stray ones (`runes_append_cut`).

Up to the token at the cut the lexer reads the same. The token at the cut, and what is read after it, may
be others than in the whole source: a string is left open, a word or a number is shorter, stray bytes are
illegal. But no brace is among them (`tokens_cut`), since a brace is a single character and ends where it
begins.
-/
import LoopScript.Proofs.Text.Boundary
import LoopScript.Proofs.Token.Lexeme

namespace LoopScript

set_option autoImplicit false

/-! ## Characters -/

namespace Rune

/-- If what follows a text changes its first rune, that rune is cut short, and no byte of the text is
ASCII. -/
theorem wide_of_first_append {b : UInt8} {rest more : Text}
    (differs : first b rest ≠ first b (rest ++ more)) : ∀ d ∈ b :: rest, 0x80 ≤ d.toNat := by
  obtain ⟨k, width⟩ := Nat.exists_eq_add_one.mpr (widthOf_pos b)
  have short : rest.length < k := by
    refine Nat.lt_of_not_le fun fits => differs ?_
    rw [first, first, width, List.take_succ_cons, List.take_succ_cons,
      List.take_append_of_le_length fits]
  have cut : charOf? (b :: rest.take k) = none := by
    refine Option.eq_none_iff_forall_not_mem.mpr fun c found => ?_
    have length := (charOf?_cons found).1
    rw [List.length_take] at length
    omega
  rw [first, first, width, List.take_succ_cons, List.take_succ_cons, cut] at differs
  cases found : charOf? (b :: (rest ++ more).take k) with
  | none =>
      rw [found] at differs
      exact absurd rfl differs
  | some c =>
      have high := (charOf?_cons found).2
      refine List.forall_mem_cons.mpr ⟨?_, fun d member => high d ?_⟩
      · rw [widthOf_eq] at width
        refine Nat.le_of_not_lt fun ascii => ?_
        rw [if_pos ascii] at width
        omega
      · rw [List.take_append, List.take_of_length_le (Nat.le_of_lt short)]
        exact List.mem_append_left _ member

end Rune

namespace Text

/-- A text without ASCII bytes has no ASCII characters. -/
theorem wide_of_mem_runes {t : Text} (wide : ∀ d ∈ t, 0x80 ≤ d.toNat) :
    ∀ r ∈ t.runes, 0x80 ≤ r.char.toNat := by
  intro r member
  obtain ⟨b, rest, rfl⟩ := mem_runesAfter member
  obtain ⟨n, bytes⟩ := Rune.first_bytes b rest
  have inside : b ∈ ofRunes t.runes := by
    refine List.mem_flatMap.mpr ⟨_, member, ?_⟩
    rw [bytes]
    exact List.mem_cons_self
  rw [bytes_runes] at inside
  exact (Rune.first_wide (wide b inside) rest).2

/-- A text and what it is the beginning of share their runes up to a character that the cut divides; what
is left of that character is not ASCII. -/
theorem runes_append_cut (a b : Text) : ∃ shared cut rest : List Rune,
    a.runes = shared ++ cut ∧ (a ++ b).runes = shared ++ rest ∧ ∀ r ∈ cut, 0x80 ≤ r.char.toNat := by
  match a with
  | [] => exact ⟨[], [], b.runes, rfl, rfl, List.forall_mem_nil _⟩
  | d :: tail =>
      by_cases same : Rune.first d tail = Rune.first d (tail ++ b)
      · have inside : (Rune.first d tail).bytes.length - 1 ≤ tail.length := by
          obtain ⟨n, bytes⟩ := Rune.first_bytes d tail
          rw [bytes, List.length_cons, List.length_take]
          omega
        obtain ⟨shared, cut, rest, before, whole, wide⟩ :=
          runes_append_cut (tail.drop ((Rune.first d tail).bytes.length - 1)) b
        refine ⟨Rune.first d tail :: shared, cut, rest, ?_, ?_, wide⟩
        · rw [runes_cons, before, List.cons_append]
        · rw [List.cons_append, runes_cons, ← same, List.drop_append_of_le_length inside, whole,
            List.cons_append]
      · exact ⟨[], runes (d :: tail), runes (d :: tail ++ b), rfl, rfl,
          wide_of_mem_runes (Rune.wide_of_first_append same)⟩
termination_by a.length
decreasing_by
  rw [List.length_drop, List.length_cons]
  omega

end Text

namespace Token

/-! ## Characters that begin no token -/

/-- A character that is neither part of a legal token nor a blank, and opens neither a string nor a
comment. -/
def Stray (c : Char) : Prop :=
  c ∉ signs ∧ ¬ (c = '"' ∨ c = '\'') ∧ isNameChar c = false ∧ c ≠ '#' ∧ isBlank c = false

theorem ascii_of_nameChar {c : Char} (inside : isNameChar c) : c.toNat < 0x80 := by
  simp only [isNameChar, isNameStart, isDigit, Bool.or_eq_true, Bool.and_eq_true, decide_eq_true_eq,
    beq_iff_eq, Char.le_def, UInt32.le_iff_toNat_le] at inside
  rcases inside with ((⟨-, upper⟩ | ⟨-, upper⟩) | rfl) | ⟨-, upper⟩
  · exact Nat.lt_of_le_of_lt upper (by decide)
  · exact Nat.lt_of_le_of_lt upper (by decide)
  · decide
  · exact Nat.lt_of_le_of_lt upper (by decide)

/-- Only ASCII characters mean something to the lexer. -/
theorem stray_of_wide {c : Char} (wide : 0x80 ≤ c.toNat) : Stray c ∧ c ≠ '.' := by
  have ascii : (('.' :: '"' :: '\'' :: '#' :: ' ' :: '\t' :: '\r' :: '\n' :: signs).all
      fun d => d.toNat < 0x80) = true := by decide
  have outside : c ∉ '.' :: '"' :: '\'' :: '#' :: ' ' :: '\t' :: '\r' :: '\n' :: signs := by
    intro member
    have small := of_decide_eq_true (List.all_eq_true.mp ascii c member)
    omega
  have noName : isNameChar c = false := by
    refine Bool.eq_false_iff.mpr fun inside => ?_
    have small := ascii_of_nameChar inside
    omega
  simp only [List.mem_cons, not_or] at outside
  obtain ⟨point, double, single, hash, space, tab, feed, line, sign⟩ := outside
  refine ⟨⟨?_, fun quote => quote.elim double single, noName, hash, ?_⟩, point⟩
  · simpa [signs] using sign
  · simp [isBlank, space, tab, feed, line]

theorem stray_point : Stray '.' := by
  refine ⟨by decide, by decide, rfl, by decide, rfl⟩

variable {g : Glyph} {gs rest : List Glyph}

theorem isDigit_of_stray {c : Char} (stray : Stray c) : isDigit c = false := by
  have noName := stray.2.2.1
  rw [isNameChar, Bool.or_eq_false_iff] at noName
  exact noName.2

theorem read_of_stray (stray : Stray g.char) (rest : List Glyph) :
    (read g rest).1.kind = .illegal ∧ (read g rest).2 = rest := by
  obtain ⟨noSign, noQuote, noName, -⟩ := stray
  rw [isNameChar, Bool.or_eq_false_iff] at noName
  rw [read, singleKind?_eq_none noSign, doubleKinds?_eq_none noSign]
  simp [noQuote, noName]

/-- Stray characters are illegal tokens, each of them one. -/
theorem illegal_of_stray : ∀ {gs : List Glyph}, (∀ g ∈ gs, Stray g.char) →
    ∀ t ∈ tokensOf gs, t.kind = .illegal
  | [], _ => by
      rw [tokensOf_of_nil rfl]
      exact List.forall_mem_nil _
  | g :: rest, strays => by
      obtain ⟨stray, others⟩ := List.forall_mem_cons.mp strays
      obtain ⟨kind, left⟩ := read_of_stray stray rest
      rw [tokensOf_of_cons (skipBlanks_cons rest stray.2.2.2.2 stray.2.2.2.1), left]
      exact List.forall_mem_cons.mpr ⟨kind, illegal_of_stray others⟩

/-- A comment has no end among stray characters. -/
theorem skipBlanksIn_comment_of_stray : ∀ {gs : List Glyph}, (∀ g ∈ gs, Stray g.char) →
    skipBlanksIn true gs = []
  | [], _ => rfl
  | g :: rest, strays => by
      obtain ⟨stray, others⟩ := List.forall_mem_cons.mp strays
      have noFeed : (g.char != '\n') = true := by
        refine bne_iff_ne.mpr fun feed => ?_
        have blank := stray.2.2.2.2
        rw [feed] at blank
        cases blank
      rw [skipBlanksIn, noFeed, skipBlanksIn_comment_of_stray others]

/-- A class of characters that no stray character is in stops at once. -/
theorem dropWhile_stray {p : Char → Bool} (outside : ∀ c, Stray c → p c = false)
    (strays : ∀ g ∈ gs, Stray g.char) : gs.dropWhile (fun h => p h.char) = gs := by
  cases gs with
  | nil => rfl
  | cons g rest =>
      rw [List.dropWhile_cons, outside _ (strays g List.mem_cons_self), if_neg Bool.false_ne_true]

/-! ## The token at the cut -/

def Braceless (t : Token) : Prop := t.kind ≠ .openBrace ∧ t.kind ≠ .closeBrace

theorem braceless_of_kind {t : Token} {kind : Kind} (same : t.kind = kind)
    (other : kind ≠ .openBrace ∧ kind ≠ .closeBrace := by simp) : t.Braceless := by
  rw [Braceless, same]
  exact other

/-- A word is a name or a keyword. -/
theorem Kind.ofWord_braceless (word : Text) :
    Kind.ofWord word ≠ .openBrace ∧ Kind.ofWord word ≠ .closeBrace := by
  unfold Kind.ofWord
  repeat' split
  all_goals decide

/-- What is read at the beginning of a cut source and of the whole one: the same token, with at most
`bound` of the shared glyphs left behind it; or, if this is the token at the cut, one without a brace and
none behind it. -/
def AlikeUpToCut (cut rest : List Glyph) (bound : Nat) (first second : Token × List Glyph) : Prop :=
  (∃ t left, left.length ≤ bound ∧ first = (t, left ++ cut) ∧ second = (t, left ++ rest)) ∨
    first.1.Braceless ∧ ∀ t ∈ tokensOf first.2, t.Braceless

variable {cut : List Glyph} {after : List Glyph}

theorem AlikeUpToCut.same {t : Token} (left : List Glyph) (bound : left.length ≤ after.length) :
    AlikeUpToCut cut rest after.length (t, left ++ cut) (t, left ++ rest) :=
  .inl ⟨t, left, bound, rfl, rfl⟩

section

variable (strays : ∀ h ∈ cut, Stray h.char ∧ h.char ≠ '.')
include strays

/-- A token that ends at the cut, with stray characters behind it. -/
theorem AlikeUpToCut.ends {t : Token} {second : Token × List Glyph} (braceless : t.Braceless)
    {bound : Nat} : AlikeUpToCut cut rest bound (t, cut) second :=
  .inr ⟨braceless, fun u member =>
    braceless_of_kind (illegal_of_stray (fun h inside => (strays h inside).1) u member)⟩

theorem readWord_cut : AlikeUpToCut cut rest after.length (readWord g (after ++ cut))
    (readWord g (after ++ rest)) := by
  cases found : after.dropWhile fun h => isNameChar h.char with
  | cons stop left =>
      obtain ⟨taken, dropped⟩ := span_append_found cut found
      obtain ⟨taken', dropped'⟩ := span_append_found rest found
      have bound := length_dropWhile_le (fun h => isNameChar h.char) after
      rw [found] at bound
      rw [readWord, readWord, taken, dropped, taken', dropped']
      exact .same (stop :: left) bound
  | nil =>
      have dropped : (after ++ cut).dropWhile (fun h => isNameChar h.char) = cut := by
        rw [List.dropWhile_append, found]
        exact dropWhile_stray (fun _ stray => stray.2.2.1) fun h inside => (strays h inside).1
      rw [readWord, dropped]
      exact .ends strays (braceless_of_kind rfl (Kind.ofWord_braceless _))

/-- A number whose digits reach the cut ends there. -/
theorem readNumber_ends_at_cut (found : after.dropWhile (fun h => isDigit h.char) = []) :
    ∃ t : Token, readNumber g (after ++ cut) = (t, cut) ∧ t.Braceless := by
  have dropped : (after ++ cut).dropWhile (fun h => isDigit h.char) = cut := by
    rw [List.dropWhile_append, found]
    exact dropWhile_stray (fun _ => isDigit_of_stray) fun h inside => (strays h inside).1
  rw [readNumber, dropped]
  cases cut with
  | nil => exact ⟨_, rfl, braceless_of_kind (rfl : _ = Kind.integer)⟩
  | cons h more =>
      have noPoint := (strays h List.mem_cons_self).2
      cases more with
      | nil => exact ⟨_, rfl, braceless_of_kind (rfl : _ = Kind.integer)⟩
      | cons d more =>
          simp only
          rw [if_neg fun fraction => noPoint fraction.1]
          exact ⟨_, rfl, braceless_of_kind (rfl : _ = Kind.integer)⟩

/-- A number behind whose digits one character is left before the cut: it ends before that character, or
goes on behind the cut if the character is a point. -/
theorem readNumber_cut_single {point : Glyph}
    (found : after.dropWhile (fun h => isDigit h.char) = [point]) :
    AlikeUpToCut cut rest after.length (readNumber g (after ++ cut)) (readNumber g (after ++ rest)) := by
  obtain ⟨taken, dropped⟩ := span_append_found cut found
  obtain ⟨taken', dropped'⟩ := span_append_found rest found
  have bound := length_dropWhile_le (fun h => isDigit h.char) after
  rw [found] at bound
  have before : readNumber g (after ++ cut) =
      take .integer g (after.takeWhile fun h => isDigit h.char) (point :: cut) := by
    rw [readNumber, taken, dropped]
    cases cut with
    | nil => rfl
    | cons h more =>
        have noDigit := isDigit_of_stray (strays h List.mem_cons_self).1
        simp only [List.nil_append]
        rw [if_neg fun fraction => Bool.false_ne_true (noDigit.symm.trans fraction.2)]
  rw [before]
  by_cases isPoint : point.char = '.'
  · have all : ∀ h ∈ point :: cut, Stray h.char :=
      List.forall_mem_cons.mpr ⟨isPoint ▸ stray_point, fun h inside => (strays h inside).1⟩
    exact .inr ⟨braceless_of_kind (rfl : _ = Kind.integer), fun t member =>
      braceless_of_kind (illegal_of_stray all t member)⟩
  · have behind : readNumber g (after ++ rest) =
        take .integer g (after.takeWhile fun h => isDigit h.char) (point :: rest) := by
      rw [readNumber, taken', dropped']
      cases rest with
      | nil => rfl
      | cons h more =>
          simp only [List.nil_append]
          rw [if_neg fun fraction => isPoint fraction.1]
    rw [behind]
    exact .same [point] bound

theorem readNumber_cut : AlikeUpToCut cut rest after.length (readNumber g (after ++ cut))
    (readNumber g (after ++ rest)) := by
  rcases found : after.dropWhile fun h => isDigit h.char with _ | ⟨point, _ | ⟨d, more⟩⟩
  · obtain ⟨t, ends, braceless⟩ := readNumber_ends_at_cut (g := g) strays found
    rw [ends]
    exact .ends strays braceless
  · exact readNumber_cut_single strays found
  · -- At least two characters are left behind the digits, so whether a point with decimals follows is
    -- settled before the cut.
    obtain ⟨taken, dropped⟩ := span_append_found cut found
    obtain ⟨taken', dropped'⟩ := span_append_found rest found
    have bound := length_dropWhile_le (fun h => isDigit h.char) after
    rw [found] at bound
    rw [readNumber, readNumber, taken, dropped, taken', dropped']
    simp only [List.cons_append]
    split
    · -- The decimals may end before the cut or at it.
      have shorter := length_dropWhile_le (fun h => isDigit h.char) more
      cases decimals : more.dropWhile fun h => isDigit h.char with
      | nil =>
          have ends : (more ++ cut).dropWhile (fun h => isDigit h.char) = cut := by
            rw [List.dropWhile_append, decimals]
            exact dropWhile_stray (fun _ => isDigit_of_stray) fun h inside => (strays h inside).1
          rw [ends]
          exact .ends strays (braceless_of_kind (rfl : _ = Kind.float))
      | cons stop left =>
          obtain ⟨taken, dropped⟩ := span_append_found cut decimals
          obtain ⟨taken', dropped'⟩ := span_append_found rest decimals
          rw [decimals] at shorter
          simp only [List.length_cons] at bound shorter
          rw [taken, dropped, taken', dropped']
          exact .same (stop :: left) (by simp only [List.length_cons]; omega)
    · exact .same (point :: d :: more) bound

theorem readString_cut (quote : g.char = '"' ∨ g.char = '\'') :
    AlikeUpToCut cut rest after.length (readString g (after ++ cut)) (readString g (after ++ rest)) := by
  cases found : after.dropWhile fun h => h.char != g.char with
  | cons closing left =>
      have bound := length_dropWhile_le (fun h => h.char != g.char) after
      rw [found, List.length_cons] at bound
      obtain ⟨taken, dropped⟩ := span_append_found (p := fun c => c != g.char) cut found
      obtain ⟨taken', dropped'⟩ := span_append_found (p := fun c => c != g.char) rest found
      rw [readString, readString, taken, dropped, taken', dropped']
      exact .same left (Nat.le_of_succ_le bound)
  | nil =>
      have inside : ∀ h ∈ cut, (h.char != g.char) = true := by
        intro h member
        refine bne_iff_ne.mpr fun same => ?_
        exact (strays h member).1.2.1 (same ▸ quote)
      have open_ : (after ++ cut).dropWhile (fun h => h.char != g.char) = [] := by
        rw [List.dropWhile_append, found]
        exact List.dropWhile_eq_nil_iff.mpr inside
      rw [readString, open_]
      refine .inr ⟨braceless_of_kind (rfl : _ = Kind.unterminated), ?_⟩
      rw [tokensOf_of_nil rfl]
      exact List.forall_mem_nil _

theorem readEquals_cut {double single : Kind} (kinds : doubleKinds? g.char = some (double, single)) :
    AlikeUpToCut cut rest after.length (readEquals double single g (after ++ cut))
      (readEquals double single g (after ++ rest)) := by
  cases after with
  | cons h left =>
      rw [List.cons_append, List.cons_append, readEquals, readEquals]
      split
      · exact .same left (Nat.le_succ _)
      · exact .same (h :: left) (Nat.le_refl _)
  | nil =>
      have other : single ≠ .openBrace ∧ single ≠ .closeBrace := by
        unfold doubleKinds? at kinds
        split at kinds <;> cases kinds <;> decide
      cases cut with
      | nil => exact .ends strays (braceless_of_kind rfl other)
      | cons h more =>
          have noEquals : h.char ≠ '=' := by
            intro equals
            exact (strays h List.mem_cons_self).1.1 (equals ▸ by decide)
          rw [List.nil_append, readEquals, if_neg noEquals]
          exact .ends strays (braceless_of_kind rfl other)

/-- One token at the beginning of a cut source and of the whole one. -/
theorem read_cut (g : Glyph) (after rest : List Glyph) :
    AlikeUpToCut cut rest after.length (read g (after ++ cut)) (read g (after ++ rest)) := by
  unfold read
  split
  · exact .same after (Nat.le_refl _)
  · next kinds => exact readEquals_cut strays kinds
  · split
    · next quote => exact readString_cut strays quote
    · split
      · exact readWord_cut strays
      · split
        · exact readNumber_cut strays
        · exact .same after (Nat.le_refl _)

omit strays in
/-- Where only blanks and comments are shared, either a comment is open behind them or none is. -/
theorem skipBlanksIn_append_nil : ∀ {gs : List Glyph} {comment : Bool}, skipBlanksIn comment gs = [] →
    ∃ still : Bool, ∀ more, skipBlanksIn comment (gs ++ more) = skipBlanksIn still more
  | [], comment, _ => ⟨comment, fun _ => rfl⟩
  | h :: gs, true, done => by
      simp only [List.cons_append, skipBlanksIn] at done ⊢
      exact skipBlanksIn_append_nil done
  | h :: gs, false, done => by
      simp only [List.cons_append, skipBlanksIn] at done ⊢
      split at done
      · next blank =>
          simp only [blank, if_true]
          exact skipBlanksIn_append_nil done
      · next visible =>
          split at done
          · next hash =>
              simp only [hash, if_true]
              exact skipBlanksIn_append_nil done
          · cases done

/-- The glyphs of a cut source and of the whole one give the same tokens up to the cut, and no brace is
among what the cut source has behind these. -/
theorem tokensOf_cut (rest shared : List Glyph) : ∃ ts us vs, tokensOf (shared ++ cut) = ts ++ us ∧
    tokensOf (shared ++ rest) = ts ++ vs ∧ ∀ t ∈ us, t.Braceless := by
  cases found : skipBlanks shared with
  | nil =>
      obtain ⟨still, blanks⟩ := skipBlanksIn_append_nil found
      have onlyStrays : ∀ h ∈ cut, Stray h.char := fun h inside => (strays h inside).1
      refine ⟨[], _, _, rfl, rfl, ?_⟩
      cases still with
      | true =>
          rw [tokensOf_of_nil ((blanks cut).trans (skipBlanksIn_comment_of_stray onlyStrays))]
          exact List.forall_mem_nil _
      | false =>
          have same : tokensOf (shared ++ cut) = tokensOf cut := tokensOf_congr (blanks cut)
          rw [same]
          exact fun t member => braceless_of_kind (illegal_of_stray onlyStrays t member)
  | cons g after =>
      have shorter : after.length < shared.length := by
        have bound := length_skipBlanks_le shared
        rwa [found, List.length_cons] at bound
      rw [tokensOf_of_cons (skipBlanksIn_append_found cut shared false found),
        tokensOf_of_cons (skipBlanksIn_append_found rest shared false found)]
      rcases read_cut strays g after rest with ⟨t, left, bound, before, whole⟩ | ⟨braceless, others⟩
      · obtain ⟨ts, us, vs, first, second, none⟩ := tokensOf_cut rest left
        rw [before, whole]
        exact ⟨t :: ts, us, vs, congrArg (t :: ·) first, congrArg (t :: ·) second, none⟩
      · exact ⟨[], _, _, rfl, rfl, List.forall_mem_cons.mpr ⟨braceless, others⟩⟩
termination_by shared.length
decreasing_by omega

end

/-- **A cut source has the tokens of the whole one, up to the cut, and no brace that the whole one does
not have.** The tokens behind the shared ones come of what the cut divides, and none is a brace. -/
theorem tokens_cut (a b : Text) : ∃ ts us vs, tokens a = ts ++ us ∧ tokens (a ++ b) = ts ++ vs ∧
    ∀ t ∈ us, t.Braceless := by
  obtain ⟨shared, cut, rest, before, whole, wide⟩ := Text.runes_append_cut a b
  have strays : ∀ (p : Position), ∀ h ∈ Glyph.place p cut, Stray h.char ∧ h.char ≠ '.' := by
    intro p h member
    have read : h.rune ∈ cut := by
      rw [← Glyph.map_rune_place cut p]
      exact List.mem_map_of_mem member
    exact stray_of_wide (wide h.rune read)
  rw [tokens, tokens, Glyph.ofText, Glyph.ofText, before, whole, Glyph.place_append, Glyph.place_append]
  exact tokensOf_cut (strays _) _ _

end Token

end LoopScript
