/-
# LoopScript.Text.Blank — white space around words

The white space of Unicode: tab, line feed, vertical tab, form feed, carriage return, space, next line,
no-break space, and the spaces and separators above U+1000. `trim` drops it at both ends, and
`firstWord` takes what stands before the next of it.
-/
import LoopScript.Text.Rune

namespace LoopScript.Text

set_option autoImplicit false

def isBlank (c : Char) : Bool :=
  let n := c.toNat
  (9 ≤ n && n ≤ 13) || n == 0x20 || n == 0x85 || n == 0xA0 || n == 0x1680 ||
    (0x2000 ≤ n && n ≤ 0x200A) || n == 0x2028 || n == 0x2029 || n == 0x202F || n == 0x205F ||
    n == 0x3000

def trim (t : Text) : Text :=
  let blank (r : Rune) : Bool := isBlank r.char
  ofRunes ((t.runes.dropWhile blank).reverse.dropWhile blank).reverse

/-- The first run of characters that are no white space; empty if there is none. -/
def firstWord (t : Text) : Text :=
  ofRunes ((t.runes.dropWhile fun r => isBlank r.char).takeWhile fun r => !isBlank r.char)

end LoopScript.Text
