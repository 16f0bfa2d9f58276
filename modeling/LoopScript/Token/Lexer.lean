/-
# LoopScript.Token.Lexer — cutting a source into tokens

Between tokens stand blanks (space, tab, carriage return, line feed) and comments, which run from a
hash sign to the end of the line; `skipBlanks` drops them. `read` then takes one token, always the
longest one that begins there:

* a letter or an underscore begins a word of letters, digits and underscores;
* a digit begins a number, which takes a point only if a digit follows it, and only one point;
* a quote begins a string that ends at the next quote of the same kind; nothing is escaped in it;
* an operator takes two characters where two make an operator;
* any other character is an illegal token of its own.

`tokens` repeats this to the end of the source: a token takes at least one glyph, so what remains
grows shorter (`length_skipBlanks_le`, `length_read_le`).
-/
import LoopScript.Token.Basic

namespace LoopScript.Token

set_option autoImplicit false

def isBlank (c : Char) : Bool := c == ' ' || c == '\t' || c == '\r' || c == '\n'

def isDigit (c : Char) : Bool := '0' ≤ c && c ≤ '9'

def isNameStart (c : Char) : Bool :=
  ('a' ≤ c && c ≤ 'z') || ('A' ≤ c && c ≤ 'Z') || c == '_'

def isNameChar (c : Char) : Bool := isNameStart c || isDigit c

/-- Drop blanks and comments; the flag says whether a comment is open. -/
def skipBlanksIn : Bool → List Glyph → List Glyph
  | _, [] => []
  | true, g :: rest => skipBlanksIn (g.char != '\n') rest
  | false, g :: rest =>
      if isBlank g.char then skipBlanksIn false rest
      else if g.char = '#' then skipBlanksIn true rest
      else g :: rest

def skipBlanks (gs : List Glyph) : List Glyph := skipBlanksIn false gs

/-- The token made of the glyph `g` and those of `more`, and what follows them. -/
def take (kind : Kind) (g : Glyph) (more rest : List Glyph) : Token × List Glyph :=
  (⟨kind, Glyph.bytesOf (g :: more), g.pos⟩, rest)

def readWord (g : Glyph) (rest : List Glyph) : Token × List Glyph :=
  let more := rest.takeWhile fun h => isNameChar h.char
  take (.ofWord (Glyph.bytesOf (g :: more))) g more (rest.dropWhile fun h => isNameChar h.char)

/-- A number that begins with the digit `g`. -/
def readNumber (g : Glyph) (rest : List Glyph) : Token × List Glyph :=
  let whole := rest.takeWhile fun h => isDigit h.char
  match rest.dropWhile fun h => isDigit h.char with
  | point :: d :: after =>
      if point.char = '.' ∧ isDigit d.char then
        take .float g (whole ++ point :: d :: after.takeWhile fun h => isDigit h.char)
          (after.dropWhile fun h => isDigit h.char)
      else take .integer g whole (point :: d :: after)
  | after => take .integer g whole after

/-- A string that begins with the quote `g`. -/
def readString (g : Glyph) (rest : List Glyph) : Token × List Glyph :=
  match rest.dropWhile fun h => h.char != g.char with
  | close :: after => take .string g (rest.takeWhile (fun h => h.char != g.char) ++ [close]) after
  | [] => (⟨.unterminated, utf8 "unterminated string", g.pos⟩, [])

/-- An operator that reads `double` if an equals sign follows `g` and `single` otherwise. -/
def readEquals (double single : Kind) (g : Glyph) : List Glyph → Token × List Glyph
  | h :: rest => if h.char = '=' then take double g [h] rest else take single g [] (h :: rest)
  | [] => take single g [] []

def singleKind? (c : Char) : Option Kind :=
  match c with
  | '+' => some (.operator .add)
  | '-' => some (.operator .sub)
  | '&' => some (.operator .join)
  | '*' => some (.operator .mul)
  | '/' => some (.operator .div)
  | '%' => some (.operator .rem)
  | '(' => some .openParen
  | ')' => some .closeParen
  | '{' => some .openBrace
  | '}' => some .closeBrace
  | ',' => some .comma
  | ';' => some .semicolon
  | _ => none

/-- The classes of an operator that an equals sign may extend: with it, and without. -/
def doubleKinds? (c : Char) : Option (Kind × Kind) :=
  match c with
  | '!' => some (.operator .ne, .bang)
  | '=' => some (.operator .eq, .assign)
  | '>' => some (.operator .ge, .operator .gt)
  | '<' => some (.operator .le, .operator .lt)
  | _ => none

/-- The token that begins with the glyph `g`, which is no blank, and what follows it. -/
def read (g : Glyph) (rest : List Glyph) : Token × List Glyph :=
  match singleKind? g.char, doubleKinds? g.char with
  | some kind, _ => take kind g [] rest
  | none, some (double, single) => readEquals double single g rest
  | none, none =>
      if g.char = '"' ∨ g.char = '\'' then readString g rest
      else if isNameStart g.char then readWord g rest
      else if isDigit g.char then readNumber g rest
      else (⟨.illegal, String.utf8EncodeChar g.char, g.pos⟩, rest)

/-! ## What remains grows shorter -/

theorem length_skipBlanksIn_le (gs : List Glyph) :
    ∀ comment, (skipBlanksIn comment gs).length ≤ gs.length := by
  induction gs with
  | nil => intro comment; simp [skipBlanksIn]
  | cons g rest ih =>
      intro comment
      cases comment with
      | true => exact Nat.le_succ_of_le (ih _)
      | false =>
          simp only [skipBlanksIn]
          split
          · exact Nat.le_succ_of_le (ih _)
          · split
            · exact Nat.le_succ_of_le (ih _)
            · exact Nat.le_refl _

theorem length_skipBlanks_le (gs : List Glyph) : (skipBlanks gs).length ≤ gs.length :=
  length_skipBlanksIn_le gs false

theorem length_dropWhile_le (p : Glyph → Bool) (gs : List Glyph) :
    (gs.dropWhile p).length ≤ gs.length :=
  (List.dropWhile_suffix p).length_le

theorem length_readNumber_le (g : Glyph) (rest : List Glyph) :
    (readNumber g rest).2.length ≤ rest.length := by
  have h := length_dropWhile_le (fun h => isDigit h.char) rest
  unfold readNumber
  dsimp only
  split
  · next point d after eq =>
      rw [eq] at h
      split
      · have := length_dropWhile_le (fun h => isDigit h.char) after
        simp only [take, List.length_cons] at h ⊢
        omega
      · exact h
  · exact h

theorem length_readString_le (g : Glyph) (rest : List Glyph) :
    (readString g rest).2.length ≤ rest.length := by
  have h := length_dropWhile_le (fun h => h.char != g.char) rest
  unfold readString
  split
  · next close after eq =>
      rw [eq] at h
      simp only [take, List.length_cons] at h ⊢
      omega
  · exact Nat.zero_le _

theorem length_readEquals_le (double single : Kind) (g : Glyph) (rest : List Glyph) :
    (readEquals double single g rest).2.length ≤ rest.length := by
  cases rest with
  | nil => exact Nat.le_refl _
  | cons h rest =>
      simp only [readEquals]
      split <;> simp [take]

/-- A token takes its first glyph and perhaps more. -/
theorem length_read_le (g : Glyph) (rest : List Glyph) : (read g rest).2.length ≤ rest.length := by
  unfold read
  split
  · exact Nat.le_refl _
  · exact length_readEquals_le _ _ g rest
  · split
    · exact length_readString_le g rest
    · split
      · exact length_dropWhile_le _ rest
      · split
        · exact length_readNumber_le g rest
        · exact Nat.le_refl _

/-! ## The token sequence -/

def tokensOf (gs : List Glyph) : List Token :=
  match _found : skipBlanks gs with
  | [] => []
  | g :: rest => (read g rest).1 :: tokensOf (read g rest).2
termination_by gs.length
decreasing_by
  have blanks := length_skipBlanks_le gs
  have token := length_read_le g rest
  rw [_found, List.length_cons] at blanks
  omega

/-- Where only blanks and comments are left there is no token. -/
theorem tokensOf_of_nil {gs : List Glyph} (found : skipBlanks gs = []) : tokensOf gs = [] := by
  rw [tokensOf]
  split
  · rfl
  · next other =>
      rw [found] at other
      cases other

/-- The first token begins at the first glyph that is no blank, and the others follow it. -/
theorem tokensOf_of_cons {gs rest : List Glyph} {g : Glyph} (found : skipBlanks gs = g :: rest) :
    tokensOf gs = (read g rest).1 :: tokensOf (read g rest).2 := by
  rw [tokensOf]
  split
  · next other =>
      rw [found] at other
      cases other
  · next other =>
      rw [found] at other
      cases other
      rfl

def tokens (source : Text) : List Token := tokensOf (Glyph.ofText source)

/-- How many opening braces a token sequence has more than closing ones. -/
def openBracesOf (ts : List Token) : Int :=
  ts.foldl (fun depth t =>
    match t.kind with
    | .openBrace => depth + 1
    | .closeBrace => depth - 1
    | _ => depth) 0

/-- How many braces of a source are still open; those in strings and comments do not count. -/
def openBraces (source : Text) : Int := openBracesOf (tokens source)

end LoopScript.Token
