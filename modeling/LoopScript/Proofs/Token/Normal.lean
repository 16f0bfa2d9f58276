/-
# LoopScript.Proofs.Token.Normal — a source is a layout of its own tokens

Where everything in a source can be read, each token stands for itself (`stands_of_mem_tokens`), and the
source is a layout of its tokens (`laid_tokens`). For reading takes whatever belongs to a token, so what
comes right behind it does not extend it (`extendedBy_read`): all that is left to follow a token without a
gap is the beginning of another.

With `LoopScript.Proofs.Token.Layout` this is both directions of `tokens_eq_iff_laid`: the texts that have
given lexemes as their tokens are the layouts of these lexemes. They differ in blanks and comments and in
nothing else. One of them has single spaces and no comments (`normal`), and its normal form is itself
(`normal_normal`).
-/
import LoopScript.Proofs.Token.Shape

namespace LoopScript.Token

set_option autoImplicit false

/-- The texts of the tokens of a source, with a space between each two. -/
def normal (source : Text) : Text := Text.joinWith [Text.space] ((tokens source).map Token.text)

theorem normal_eq_spaced (source : Text) : normal source = Lexeme.spaced ((tokens source).map lexeme) := by
  rw [normal, Lexeme.spaced, List.map_map]
  rfl

/-! ## Each token stands for itself -/

/-- A legal token with a text that its class allows stands for itself. -/
theorem Shaped.stands {t : Token} (shaped : t.Shaped) (spelled : t.Spelled)
    (legal : Grammar.Legal t.kind) : t.lexeme.Stands := by
  obtain ⟨kind, text, pos⟩ := t
  cases kind with
  | identifier => exact Lexeme.name_stands shaped
  | integer => exact Lexeme.literal_stands (show LiteralKind.integer.Spelled text from shaped)
  | float => exact Lexeme.literal_stands (show LiteralKind.float.Spelled text from shaped)
  | string => exact Lexeme.literal_stands (show LiteralKind.string.Spelled text from shaped)
  | bool => exact Lexeme.literal_stands (show LiteralKind.bool.Spelled text from shaped)
  | null => exact Lexeme.literal_stands (show LiteralKind.null.Spelled text from shaped)
  | loopWord => exact Lexeme.loopWord_stands shaped
  | operator op =>
      obtain ⟨text, known⟩ : text = op.spelling ∧ op.level? ≠ none := spelled
      obtain ⟨level, known⟩ := Option.ne_none_iff_exists'.mp known
      subst text
      exact operator_stands known
  | semicolon =>
      obtain rfl : text = utf8 ";" := spelled
      exact Lexeme.semicolon_stands
  | assign =>
      obtain rfl : text = utf8 "=" := spelled
      exact Lexeme.fixed_stands (l := .equals) (by decide)
  | bang =>
      obtain rfl : text = utf8 "!" := spelled
      exact Lexeme.fixed_stands (l := .bang) (by decide)
  | comma =>
      obtain rfl : text = utf8 "," := spelled
      exact Lexeme.fixed_stands (l := .comma) (by decide)
  | openParen =>
      obtain rfl : text = utf8 "(" := spelled
      exact Lexeme.fixed_stands (l := .openParen) (by decide)
  | closeParen =>
      obtain rfl : text = utf8 ")" := spelled
      exact Lexeme.fixed_stands (l := .closeParen) (by decide)
  | openBrace =>
      obtain rfl : text = utf8 "\x7b" := spelled
      exact Lexeme.fixed_stands (l := .openBrace) (by decide)
  | closeBrace =>
      obtain rfl : text = utf8 "\x7d" := spelled
      exact Lexeme.fixed_stands (l := .closeBrace) (by decide)
  | ifWord =>
      obtain rfl : text = utf8 "if" := spelled
      exact Lexeme.fixed_stands (l := .ifWord) (by decide)
  | elseWord =>
      obtain rfl : text = utf8 "else" := spelled
      exact Lexeme.fixed_stands (l := .elseWord) (by decide)
  | illegal | unterminated => exact legal.elim

theorem stands_of_mem_tokens {source : Text} {t : Token} (member : t ∈ tokens source)
    (legal : Grammar.Legal t.kind) : t.lexeme.Stands :=
  (shaped_of_mem_tokens member).stands (spelled_of_mem_tokens member) legal

/-- The lexemes of a source in which everything can be read. -/
theorem lexemes_stand {source : Text} (legal : Grammar.AllLegal (tokens source)) :
    Lexeme.AllStand ((tokens source).map lexeme) := by
  intro l member
  obtain ⟨t, listed, rfl⟩ := List.mem_map.mp member
  exact stands_of_mem_tokens listed (legal t listed)

/-! ## What comes right behind a token does not extend it -/

theorem singleKind?_extendedBy {c : Char} {kind : Kind} (found : singleKind? c = some kind) :
    kind.extendedBy = fun _ => false := by
  unfold singleKind? at found
  split at found <;> cases found <;> rfl

theorem extendedBy_double {c : Char} {double single : Kind}
    (found : doubleKinds? c = some (double, single)) : double.extendedBy = fun _ => false := by
  unfold doubleKinds? at found
  split at found <;> cases found <;> rfl

/-- Where a class of characters ends, the next character is not of the class. -/
theorem outside_of_dropWhile {p : Char → Bool} {gs more : List Glyph} {d : Glyph}
    (left : gs.dropWhile (fun h => p h.char) = d :: more) : p d.char = false := by
  have stops := List.head?_dropWhile_not (fun h : Glyph => p h.char) gs
  rw [left] at stops
  simpa using stops

theorem extendedBy_number {kind : Kind} (number : kind = .integer ∨ kind = .float) {c : Char}
    (noDigit : isDigit c = false) : kind.extendedBy c = false ∨ c = '.' := by
  by_cases point : c = '.'
  · exact .inr point
  · refine .inl ?_
    rcases number with rfl | rfl <;> simp [Kind.extendedBy, noDigit, point]

variable {g d : Glyph} {rest more : List Glyph}

theorem extendedBy_readEquals {c : Char} {double single : Kind}
    (found : doubleKinds? c = some (double, single))
    (left : (readEquals double single g rest).2 = d :: more) :
    (readEquals double single g rest).1.kind.extendedBy d.char = false := by
  cases rest with
  | nil => cases left
  | cons h rest =>
      rw [readEquals] at left ⊢
      split at left
      · next equals =>
          rw [if_pos equals, take, extendedBy_double found]
      · next other =>
          cases left
          rw [if_neg other, take, extendedBy_single found]
          simpa using other

theorem extendedBy_readNumber (left : (readNumber g rest).2 = d :: more) :
    (readNumber g rest).1.kind.extendedBy d.char = false ∨ d.char = '.' := by
  refine extendedBy_number (readNumber_kind g rest) ?_
  revert left
  unfold readNumber
  dsimp only
  split
  · next found =>
      split
      · exact outside_of_dropWhile (p := isDigit)
      · intro left
        cases left
        exact outside_of_dropWhile (p := isDigit) found
  · exact outside_of_dropWhile (p := isDigit)

/-- A token takes all that extends it. Only a point may be left behind digits: it belongs to a number if
another digit follows. -/
theorem extendedBy_read (left : (read g rest).2 = d :: more) :
    (read g rest).1.kind.extendedBy d.char = false ∨ d.char = '.' := by
  revert left
  unfold read
  split
  · next kind _ found =>
      intro _
      rw [take, singleKind?_extendedBy found]
      exact .inl rfl
  · next found => exact fun left => .inl (extendedBy_readEquals found left)
  · split
    · unfold readString
      split
      · exact fun _ => .inl rfl
      · exact fun left => absurd left.symm (List.cons_ne_nil d more)
    · split
      · intro left
        rw [readWord, take, extendedBy_ofWord]
        exact .inl (outside_of_dropWhile (p := isNameChar) left)
      · split
        · exact extendedBy_readNumber
        · exact fun _ => .inl rfl

/-- A stray character cannot be read. -/
theorem not_stray_of_legal (legal : Grammar.AllLegal (tokensOf (d :: more))) : ¬ Stray d.char := by
  intro stray
  have first := tokensOf_of_cons (skipBlanks_cons more stray.2.2.2.2 stray.2.2.2.1)
  have unread := legal _ (by rw [first]; exact List.mem_cons_self)
  rw [(read_of_stray stray more).1] at unread
  exact unread

open Glyph

/-- What is left behind a token stands apart from it, if all of it can be read. -/
theorem apart_read (genuine : Genuine (g :: rest))
    (legal : Grammar.AllLegal (tokensOf (read g rest).2)) :
    (read g rest).1.lexeme.Apart (bytesOf (read g rest).2) := by
  obtain ⟨taken, behind, -⟩ := taken_read genuine
  cases left : (read g rest).2 with
  | nil => exact nofun
  | cons d more =>
      rw [left] at legal behind
      have notStray := not_stray_of_legal legal
      have small : d.char.toNat < 0x80 := by
        by_contra wide
        exact notStray (stray_of_wide (Nat.not_lt.mp wide)).1
      have member : d ∈ g :: rest := by
        rw [behind]
        exact List.mem_cons_of_mem g (List.mem_append_right taken List.mem_cons_self)
      have byte := byte_of_ascii genuine member small
      intro b first
      rw [bytesOf_cons, byte] at first
      cases first
      have number : (UInt8.ofNat d.char.toNat).toNat = d.char.toNat := by
        rw [UInt8.toNat_ofNat']
        omega
      rw [number, Char.ofNat_toNat]
      refine ⟨small, (extendedBy_read left).resolve_right fun point => notStray ?_⟩
      rw [point]
      exact stray_point

/-! ## Sources are layouts -/

/-- The bytes of a legal token are its text. -/
theorem text_of_covers {t : Token} {span rest : Text} (legal : Grammar.Legal t.kind)
    (covers : Covers t span rest) : t.text = span := by
  rw [Covers] at covers
  split at covers
  · next kind =>
      rw [kind] at legal
      exact legal.elim
  · next kind =>
      rw [kind] at legal
      exact legal.elim
  · exact covers

theorem laid_tokensOf (gs : List Glyph) (genuine : Genuine gs) (legal : Grammar.AllLegal (tokensOf gs)) :
    Lexeme.Laid ((tokensOf gs).map lexeme) (bytesOf gs) := by
  fun_induction tokensOf gs with
  | case1 gs done =>
      obtain ⟨blanks, same, gap⟩ := gap_of_skipBlanks gs genuine
      rw [skipBlanks] at done
      rw [done] at same gap
      rw [same, List.append_nil]
      exact .last gap
  | case2 gs g rest found ih =>
      obtain ⟨blanks, same, gap⟩ := gap_of_skipBlanks gs genuine
      rw [skipBlanks] at found
      rw [found] at same gap
      rw [same] at genuine
      have ahead : Genuine (g :: rest) := genuine.parts.2
      obtain ⟨more, behind, -, covers⟩ := taken_read ahead
      obtain ⟨first, others⟩ := List.forall_mem_cons.mp legal
      have after : Genuine (read g rest).2 := by
        have whole := ahead.tail
        rw [behind] at whole
        exact whole.parts.2
      have bytes : bytesOf (g :: rest) = (read g rest).1.text ++ bytesOf (read g rest).2 := by
        rw [text_of_covers first covers, ← bytesOf_append, List.cons_append, ← behind]
      rw [same, bytesOf_append, bytes, List.map_cons]
      rw [bytes] at gap
      exact .next gap (apart_read ahead others) (ih after others)

/-- A source in which everything can be read is a layout of its tokens. -/
theorem laid_tokens {source : Text} (legal : Grammar.AllLegal (tokens source)) :
    Lexeme.Laid ((tokens source).map lexeme) source := by
  have laid := laid_tokensOf _ (genuine_ofText source) legal
  rwa [bytesOf_ofText] at laid

/-- A source is a layout of the lexemes that its tokens turn out to have. -/
theorem laid_of_tokens {source : Text} {ls : List Lexeme} (same : (tokens source).map lexeme = ls)
    (legal : Grammar.AllLegal (tokens source)) : Lexeme.Laid ls source := by
  rw [← same]
  exact laid_tokens legal

/-- The texts that have the tokens of a source are the layouts of these, if everything in it can be
read. -/
theorem tokens_eq_iff_laid {source : Text} (legal : Grammar.AllLegal (tokens source)) {other : Text} :
    (tokens other).map lexeme = (tokens source).map lexeme ↔
      Lexeme.Laid ((tokens source).map lexeme) other := by
  refine ⟨fun same => ?_, fun laid => tokens_laid laid (lexemes_stand legal)⟩
  have readable : Grammar.AllLegal (tokens other) := by
    intro t member
    have listed : t.lexeme ∈ (tokens source).map lexeme := by
      rw [← same]
      exact List.mem_map_of_mem member
    obtain ⟨u, inside, alike⟩ := List.mem_map.mp listed
    have kind : u.kind = t.kind := congrArg Lexeme.kind alike
    rw [← kind]
    exact legal u inside
  exact laid_of_tokens same readable

/-! ## The normal form -/

theorem laid_normal (source : Text) : Lexeme.Laid ((tokens source).map lexeme) (normal source) := by
  rw [normal_eq_spaced]
  exact Lexeme.laid_spaced _

theorem lexemes_normal {source : Text} (legal : Grammar.AllLegal (tokens source)) :
    (tokens (normal source)).map lexeme = (tokens source).map lexeme :=
  (tokens_eq_iff_laid legal).mpr (laid_normal source)

/-- The normal form of a normal form is itself. -/
theorem normal_normal {source : Text} (legal : Grammar.AllLegal (tokens source)) :
    normal (normal source) = normal source := by
  rw [normal_eq_spaced, lexemes_normal legal, normal_eq_spaced]

end LoopScript.Token
