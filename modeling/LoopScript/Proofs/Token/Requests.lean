/-
# LoopScript.Proofs.Token.Requests — a source is asked for one token after the other, and comes to its end

`Token.tokens` lists all tokens of a source at once. A reader that looks no further than it has to asks for
them one by one: a request drops the blanks and comments in front of a token and reads the token (`next`);
at the end of the source there is nothing to read, and there is nothing to read ever after.

The answers are the tokens in their order (`request_eq`). Each token takes at least one glyph, and a glyph
at least one byte, so a source has no more tokens than bytes (`length_tokens_le`) and the requests come to
the end (`requests_end`).
-/
import LoopScript.Token.Lexer

namespace LoopScript

set_option autoImplicit false

namespace Text

theorem length_runesAfter_le : ∀ (t : Text) (skip : Nat), (runesAfter skip t).length ≤ t.length
  | [], _ => by
      rw [runesAfter]
      exact Nat.le_refl _
  | b :: rest, 0 => by
      rw [runesAfter, List.length_cons, List.length_cons]
      exact Nat.succ_le_succ (length_runesAfter_le rest _)
  | b :: rest, skip + 1 => by
      rw [runesAfter, List.length_cons]
      exact Nat.le_succ_of_le (length_runesAfter_le rest skip)

/-- A rune takes at least one byte. -/
theorem length_runes_le (t : Text) : t.runes.length ≤ t.length := length_runesAfter_le t 0

end Text

namespace Glyph

theorem length_place : ∀ (rs : List Rune) (p : Position), (place p rs).length = rs.length
  | [], _ => rfl
  | r :: rest, p => by
      rw [place, List.length_cons, List.length_cons, length_place rest]

/-- A source has no more glyphs than bytes. -/
theorem length_ofText_le (source : Text) : (ofText source).length ≤ source.length := by
  rw [ofText, length_place]
  exact Text.length_runes_le source

end Glyph

namespace Token

/-- One request: the next token, if there is one, and the glyphs behind it. -/
def next (gs : List Glyph) : Option Token × List Glyph :=
  match skipBlanks gs with
  | [] => (none, [])
  | g :: rest => (some (read g rest).1, (read g rest).2)

/-- What is left after so many requests. -/
def leftAfter : Nat → List Glyph → List Glyph
  | 0, gs => gs
  | n + 1, gs => leftAfter n (next gs).2

/-- The answer to the request number `n` of a source, counted from zero. -/
def request (source : Text) (n : Nat) : Option Token := (next (leftAfter n (Glyph.ofText source))).1

/-- The first request is answered with the first token, and the tokens behind it follow. -/
theorem next_of_cons {gs : List Glyph} {t : Token} {ts : List Token} (found : tokensOf gs = t :: ts) :
    (next gs).1 = some t ∧ tokensOf (next gs).2 = ts := by
  rw [next]
  cases ahead : skipBlanks gs with
  | nil =>
      rw [tokensOf_of_nil ahead] at found
      cases found
  | cons g rest =>
      rw [tokensOf_of_cons ahead] at found
      cases found
      exact ⟨rfl, rfl⟩

/-- Where there is no token there is nothing behind the request either. -/
theorem next_of_nil {gs : List Glyph} (found : tokensOf gs = []) : next gs = (none, []) := by
  rw [next]
  cases ahead : skipBlanks gs with
  | nil => rfl
  | cons g rest =>
      rw [tokensOf_of_cons ahead] at found
      cases found

/-- The answers are the tokens, and none behind the last one. -/
theorem next_leftAfter : ∀ (n : Nat) (gs : List Glyph), (next (leftAfter n gs)).1 = (tokensOf gs)[n]?
  | 0, gs => by
      rw [leftAfter]
      cases found : tokensOf gs with
      | nil => rw [next_of_nil found, List.getElem?_nil]
      | cons t ts => rw [(next_of_cons found).1, List.getElem?_cons_zero]
  | n + 1, gs => by
      rw [leftAfter, next_leftAfter n (next gs).2]
      cases found : tokensOf gs with
      | nil =>
          have atEnd : tokensOf [] = [] := tokensOf_of_nil rfl
          rw [next_of_nil found, atEnd, List.getElem?_nil, List.getElem?_nil]
      | cons t ts => rw [(next_of_cons found).2, List.getElem?_cons_succ]

theorem request_eq (source : Text) (n : Nat) : request source n = (tokens source)[n]? :=
  next_leftAfter n (Glyph.ofText source)

/-- Glyphs make up at most as many tokens. -/
theorem length_tokensOf_le (gs : List Glyph) : (tokensOf gs).length ≤ gs.length := by
  fun_induction tokensOf gs with
  | case1 gs done => exact Nat.zero_le _
  | case2 gs g rest found ih =>
      have blanks := length_skipBlanks_le gs
      have token := length_read_le g rest
      rw [found, List.length_cons] at blanks
      rw [List.length_cons]
      omega

/-- A source has no more tokens than bytes. -/
theorem length_tokens_le (source : Text) : (tokens source).length ≤ source.length :=
  Nat.le_trans (length_tokensOf_le _) (Glyph.length_ofText_le source)

/-- The requests come to the end of the source after at most as many tokens as it has bytes, and stay
there. -/
theorem requests_end (source : Text) : ∃ n ≤ source.length, ∀ i, request source i = none ↔ n ≤ i := by
  refine ⟨(tokens source).length, length_tokens_le source, fun i => ?_⟩
  rw [request_eq, List.getElem?_eq_none_iff]

end Token

end LoopScript
