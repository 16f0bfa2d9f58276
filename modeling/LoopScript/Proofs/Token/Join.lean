/-
# LoopScript.Proofs.Token.Join — lexing goes line by line, but for open strings

A token other than an open string ends before the first character that does not extend it, whatever comes
after that character (`read_append_apart`), and so before the first blank that does not belong to it. A
line feed also ends every comment, so two sources joined by one have the tokens of the first and then
those of the second, as many lines further down as the first has (`tokens_join`). Only a string that the
first source leaves open would reach over the join.
-/
import LoopScript.Proofs.Text.Boundary

namespace LoopScript

set_option autoImplicit false

/-! ## Glyphs -/

/-- The line feed behind a source stands where the source that follows it starts. -/
theorem endOf_after_newline (a : Text) :
    (endOf a).after '\n' = Position.start.shift (a.count Text.newline + 1) := by
  rw [endOf_eq, Position.after, if_pos rfl, Position.shift, Position.start, Int.add_assoc]

/-- The glyphs of joined sources: those of the first, a line feed, and those of the second moved
down. -/
theorem Glyph.ofText_join (a b : Text) :
    ∃ feed : Glyph, feed.char = '\n' ∧
      ofText (a ++ Text.newline :: b) =
        ofText a ++ feed :: (ofText b).map (relocate (Position.shift (a.count Text.newline + 1))) := by
  refine ⟨⟨'\n', [Text.newline], (endOf a).after '\n'⟩, rfl, ?_⟩
  rw [ofText, Text.runes_append_ascii (by decide), place_append, ofText, ofText, ← place_shift,
    ← endOf_after_newline]
  rfl

/-- Joined sources end where the second ends, moved down. -/
theorem endOf_join (a b : Text) :
    endOf (a ++ Text.newline :: b) = (endOf b).shift (a.count Text.newline + 1) := by
  rw [endOf, Text.runes_append_ascii (by decide), List.foldl_append, List.foldl_cons, endOf,
    ← Position.foldl_after_shift, ← endOf_after_newline]
  rfl

namespace Token

/-! ## One token -/

section Classes

variable {p : Char → Bool}

theorem takeWhile_append_stop {d : Glyph} (stops : p d.char = false) (more : List Glyph) :
    ∀ gs : List Glyph, (gs ++ d :: more).takeWhile (fun h => p h.char) = gs.takeWhile fun h => p h.char
  | [] => by simp [stops]
  | g :: gs => by
      rw [List.cons_append, List.takeWhile_cons, List.takeWhile_cons,
        takeWhile_append_stop stops more gs]

theorem dropWhile_append_stop {d : Glyph} (stops : p d.char = false) (more : List Glyph) :
    ∀ gs : List Glyph,
      (gs ++ d :: more).dropWhile (fun h => p h.char) = (gs.dropWhile fun h => p h.char) ++ d :: more
  | [] => by simp [stops]
  | g :: gs => by
      rw [List.cons_append, List.dropWhile_cons, List.dropWhile_cons,
        dropWhile_append_stop stops more gs]
      split <;> rfl

/-- Where a glyph outside the class is found, what comes after the end does not matter. -/
theorem span_append_found {closing : Glyph} (more : List Glyph) : ∀ {gs after : List Glyph},
    gs.dropWhile (fun h => p h.char) = closing :: after →
      (gs ++ more).takeWhile (fun h => p h.char) = gs.takeWhile (fun h => p h.char) ∧
        (gs ++ more).dropWhile (fun h => p h.char) = closing :: (after ++ more)
  | g :: gs, after, found => by
      rw [List.dropWhile_cons] at found
      rw [List.cons_append, List.takeWhile_cons, List.takeWhile_cons, List.dropWhile_cons]
      split at found
      · next inside =>
          obtain ⟨taken, dropped⟩ := span_append_found more found
          rw [if_pos inside, if_pos inside, if_pos inside, taken, dropped]
          exact ⟨rfl, rfl⟩
      · next outside =>
          cases found
          rw [if_neg outside, if_neg outside, if_neg outside]
          exact ⟨rfl, rfl⟩

end Classes

/-- Whether a character that comes right behind a token of this class is read into it, or makes it
another token. -/
def Kind.extendedBy : Kind → Char → Bool
  | .identifier | .bool | .null | .loopWord | .ifWord | .elseWord => isNameChar
  | .operator .and | .operator .or | .operator .xor => isNameChar
  | .integer | .float => fun c => isDigit c || c == '.'
  | .assign | .bang | .operator .lt | .operator .gt => fun c => c == '='
  | _ => fun _ => false

/-- A blank belongs to no word, number or operator. -/
theorem extendedBy_blank {c : Char} (blank : isBlank c) (kind : Kind) : kind.extendedBy c = false := by
  simp only [isBlank, Bool.or_eq_true, beq_iff_eq] at blank
  have table : ∀ kind : Kind, kind.extendedBy c = (fun _ => false) c ∨ kind.extendedBy c = isNameChar c ∨
      kind.extendedBy c = (isDigit c || c == '.') ∨ kind.extendedBy c = (c == '=') := by
    intro kind
    unfold Kind.extendedBy
    split <;> simp
  rcases table kind with same | same | same | same <;> rw [same] <;>
    rcases blank with ((rfl | rfl) | rfl) | rfl <;> decide

theorem extendedBy_ofWord (word : Text) : (Kind.ofWord word).extendedBy = isNameChar := by
  unfold Kind.ofWord
  repeat' split
  all_goals rfl

/-- An operator of one character is extended by an equals sign alone. -/
theorem extendedBy_single {c : Char} {double single : Kind}
    (found : doubleKinds? c = some (double, single)) : single.extendedBy = fun c => c == '=' := by
  unfold doubleKinds? at found
  split at found <;> cases found <;> rfl

def followedBy (more : List Glyph) (taken : Token × List Glyph) : Token × List Glyph :=
  (taken.1, taken.2 ++ more)

variable {d : Glyph} (more : List Glyph)

theorem readWord_append (stops : isNameChar d.char = false) (g : Glyph) (rest : List Glyph) :
    readWord g (rest ++ d :: more) = followedBy (d :: more) (readWord g rest) := by
  rw [readWord, takeWhile_append_stop stops, dropWhile_append_stop stops]
  rfl

theorem readNumber_append (stops : isDigit d.char = false) (notPoint : d.char ≠ '.') (g : Glyph)
    (rest : List Glyph) :
    readNumber g (rest ++ d :: more) = followedBy (d :: more) (readNumber g rest) := by
  rw [readNumber, readNumber, takeWhile_append_stop stops, dropWhile_append_stop stops]
  cases rest.dropWhile fun h => isDigit h.char with
  | nil =>
      cases more with
      | nil => rfl
      | cons h more =>
          rw [List.nil_append]
          exact if_neg fun fraction => notPoint fraction.1
  | cons point left =>
      cases left with
      | nil =>
          refine if_neg fun fraction => ?_
          rw [stops] at fraction
          exact Bool.false_ne_true fraction.2
      | cons e after =>
          by_cases fraction : point.char = '.' ∧ isDigit e.char
          · simp only [List.cons_append]
            rw [if_pos fraction, if_pos fraction, takeWhile_append_stop stops,
              dropWhile_append_stop stops]
            rfl
          · simp only [List.cons_append]
            rw [if_neg fraction, if_neg fraction]
            rfl

theorem readNumber_kind (g : Glyph) (rest : List Glyph) :
    (readNumber g rest).1.kind = .integer ∨ (readNumber g rest).1.kind = .float := by
  unfold readNumber
  dsimp only
  split
  · split
    · exact .inr rfl
    · exact .inl rfl
  · exact .inl rfl

theorem readString_append (g : Glyph) (rest : List Glyph)
    (closed : (readString g rest).1.kind ≠ .unterminated) :
    readString g (rest ++ more) = followedBy more (readString g rest) := by
  rw [readString] at closed
  rw [readString, readString]
  cases found : rest.dropWhile fun h => h.char != g.char with
  | nil =>
      rw [found] at closed
      exact absurd rfl closed
  | cons closing after =>
      have whole := span_append_found (p := fun c => c != g.char) more found
      rw [whole.1, whole.2]
      rfl

theorem readEquals_append (double single : Kind) (g : Glyph) (rest : List Glyph)
    (alone : rest = [] → d.char ≠ '=') :
    readEquals double single g (rest ++ d :: more) =
      followedBy (d :: more) (readEquals double single g rest) := by
  cases rest with
  | nil => exact if_neg (alone rfl)
  | cons h rest =>
      rw [List.cons_append, readEquals, readEquals]
      split <;> rfl

/-- A token that is no open string is read the same if a character follows that does not extend it. -/
theorem read_append_apart (g : Glyph) (rest : List Glyph)
    (closed : (read g rest).1.kind ≠ .unterminated)
    (apart : (read g rest).1.kind.extendedBy d.char = false) :
    read g (rest ++ d :: more) = followedBy (d :: more) (read g rest) := by
  revert closed apart
  unfold read
  split
  · exact fun _ _ => rfl
  · next double single _ found =>
      intro _ apart
      refine readEquals_append more double single g rest fun none same => ?_
      rw [none, readEquals, take, extendedBy_single found, same] at apart
      cases apart
  · split
    · exact fun closed _ => readString_append (d :: more) g rest closed
    · split
      · intro _ apart
        rw [readWord, take, extendedBy_ofWord] at apart
        exact readWord_append more apart g rest
      · split
        · intro _ apart
          have stops : (isDigit d.char || d.char == '.') = false := by
            rcases readNumber_kind g rest with kind | kind <;> rw [kind] at apart <;> exact apart
          simp only [Bool.or_eq_false_iff, beq_eq_false_iff_ne] at stops
          exact readNumber_append more stops.1 stops.2 g rest
        · exact fun _ _ => rfl

/-- A token that is no open string is read the same if a blank follows, and leaves the blank. -/
theorem read_append_blank (blank : isBlank d.char) (g : Glyph) (rest : List Glyph)
    (closed : (read g rest).1.kind ≠ .unterminated) :
    read g (rest ++ d :: more) = followedBy (d :: more) (read g rest) :=
  read_append_apart more g rest closed (extendedBy_blank blank _)

/-! ## All tokens -/

theorem skipBlanksIn_append_found {g : Glyph} {rest : List Glyph} :
    ∀ (gs : List Glyph) (comment : Bool), skipBlanksIn comment gs = g :: rest →
      skipBlanksIn comment (gs ++ more) = g :: (rest ++ more)
  | [], _, found => by
      rw [skipBlanksIn] at found
      cases found
  | h :: gs, true, found => skipBlanksIn_append_found gs (h.char != '\n') found
  | h :: gs, false, found => by
      rw [skipBlanksIn] at found
      rw [List.cons_append, skipBlanksIn]
      split at found
      · next blank => rw [if_pos blank, skipBlanksIn_append_found gs false found]
      · next notBlank =>
          rw [if_neg notBlank]
          split at found
          · next hash => rw [if_pos hash, skipBlanksIn_append_found gs true found]
          · next notHash =>
              cases found
              rw [if_neg notHash]

/-- A line feed ends blanks and comments alike. -/
theorem skipBlanksIn_append_newline {d : Glyph} (feed : d.char = '\n') :
    ∀ (gs : List Glyph) (comment : Bool), skipBlanksIn comment gs = [] →
      skipBlanksIn comment (gs ++ d :: more) = skipBlanks more
  | [], true, _ => by
      rw [List.nil_append, skipBlanksIn, feed]
      rfl
  | [], false, _ => by
      rw [List.nil_append, skipBlanksIn, feed]
      rfl
  | h :: gs, true, done => skipBlanksIn_append_newline feed gs (h.char != '\n') done
  | h :: gs, false, done => by
      rw [skipBlanksIn] at done
      rw [List.cons_append, skipBlanksIn]
      split at done
      · next blank => rw [if_pos blank, skipBlanksIn_append_newline feed gs false done]
      · next notBlank =>
          rw [if_neg notBlank]
          split at done
          · next hash => rw [if_pos hash, skipBlanksIn_append_newline feed gs true done]
          · cases done

theorem tokensOf_congr {gs hs : List Glyph} (same : skipBlanks gs = skipBlanks hs) :
    tokensOf gs = tokensOf hs := by
  cases found : skipBlanks hs with
  | nil => rw [tokensOf_of_nil (same.trans found), tokensOf_of_nil found]
  | cons g rest => rw [tokensOf_of_cons (same.trans found), tokensOf_of_cons found]

/-- Tokens on both sides of a line feed, if no string is left open before it. -/
theorem tokensOf_append_newline {d : Glyph} (feed : d.char = '\n') (gs : List Glyph)
    (closed : ∀ t ∈ tokensOf gs, t.kind ≠ .unterminated) :
    tokensOf (gs ++ d :: more) = tokensOf gs ++ tokensOf more := by
  have blank : isBlank d.char := by rw [feed]; rfl
  fun_induction tokensOf gs with
  | case1 gs done =>
      rw [List.nil_append]
      exact tokensOf_congr (skipBlanksIn_append_newline more feed gs false done)
  | case2 gs g rest found ih =>
      obtain ⟨first, others⟩ := List.forall_mem_cons.mp closed
      rw [tokensOf_of_cons (skipBlanksIn_append_found (d :: more) gs false found),
        read_append_blank more blank g rest first, List.cons_append, ← ih others]
      rfl

/-- Two sources joined by a line feed have the tokens of the first and then those of the second, moved
down, if the first leaves no string open. -/
theorem tokens_join (a b : Text) (closed : ∀ t ∈ tokens a, t.kind ≠ .unterminated) :
    tokens (a ++ Text.newline :: b) =
      tokens a ++ (tokens b).map (relocate (Position.shift (a.count Text.newline + 1))) := by
  obtain ⟨d, feed, glyphs⟩ := Glyph.ofText_join a b
  rw [tokens, glyphs, tokensOf_append_newline _ feed _ closed, tokensOf_relocate, tokens, tokens]

end Token

end LoopScript
