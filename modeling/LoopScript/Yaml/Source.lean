/-
# LoopScript.Yaml.Source — the characters of a document

A document is written in UTF-8, or in UTF-16 if it begins with the byte order mark of one of its two
orders. A byte order mark at the beginning is not part of the text.

A document is taken in by portions, and a portion is decoded as a whole. So a fault (bytes that are no
character, or a character that a document may not hold) spoils the portion it stands in, and all that
follows; but it does no harm to a reader that is done before. `ofText` gives the characters before the
fault, and `sound` says that there is none. A character that is cut off by the end of the document
spoils only itself.
-/
import LoopScript.Text.Rune

namespace LoopScript.Yaml

set_option autoImplicit false

/-- The characters of a document, and whether they are all of them. -/
structure Source where
  chars : List Char
  sound : Bool
deriving DecidableEq, Repr

namespace Source

inductive Encoding where
  | utf8
  | utf16 (bigEndian : Bool)
deriving DecidableEq, Repr

/-- What stands at the front of a text: a character and the bytes it takes, as many bytes that are no
character, or the beginning of a character that the text does not finish. -/
inductive Front where
  | char (c : Char) (width : Nat)
  | fault (width : Nat)
  | cut
deriving DecidableEq, Repr

def isAllowed (c : Char) : Bool :=
  let n := c.toNat
  n == 9 || n == 10 || n == 13 || (0x20 ≤ n && n ≤ 0x7E) || n == 0x85 || (0xA0 ≤ n && n ≤ 0xD7FF) ||
    (0xE000 ≤ n && n ≤ 0xFFFD) || 0x10000 ≤ n

/-- A character that takes so many bytes, if a document may hold it. -/
def Front.ofChar (c : Char) (width : Nat) : Front :=
  if isAllowed c then .char c width else .fault width

/-- The front of a text in UTF-8. The first byte says how many there are. -/
def utf8Front (b : UInt8) (rest : Text) : Front :=
  if (0x80 ≤ b && b < 0xC0) || 0xF8 ≤ b then .fault 1
  else
    let width := Rune.widthOf b
    let bytes := (b :: rest).take width
    if bytes.length < width then .cut
    else match Rune.charOf? bytes with
      | some c => .ofChar c width
      | none => .fault width

/-- The 16-bit unit of two bytes. -/
def unitOf (bigEndian : Bool) (a b : UInt8) : Nat :=
  if bigEndian then 256 * a.toNat + b.toNat else 256 * b.toNat + a.toNat

def isHighHalf (n : Nat) : Bool := 0xD800 ≤ n && n < 0xDC00

def isLowHalf (n : Nat) : Bool := 0xDC00 ≤ n && n < 0xE000

/-- The front of a text in UTF-16. -/
def utf16Front (bigEndian : Bool) : Text → Front
  | a :: b :: rest =>
      let first := unitOf bigEndian a b
      if isLowHalf first then .fault 2
      else if isHighHalf first then
        match rest with
        | c :: d :: _ =>
            let second := unitOf bigEndian c d
            if isLowHalf second then
              .ofChar (Char.ofNat (0x10000 + 1024 * (first - 0xD800) + (second - 0xDC00))) 4
            else .fault 4
        | _ => .cut
      else .ofChar (Char.ofNat first) 2
  | _ => .cut

def Encoding.front (e : Encoding) (b : UInt8) (rest : Text) : Front :=
  match e with
  | .utf8 => utf8Front b rest
  | .utf16 bigEndian => utf16Front bigEndian (b :: rest)

/-- The number of bytes of a portion. -/
def portion : Nat := 512

/-- Decode a text from the byte at `offset` on. The portion at hand ends at `limit`; its characters are
in `current` and those of the portions before it in `finished`, both last first. The first `skip` bytes
belong to a character already read. -/
def decodeFrom (e : Encoding) :
    (skip offset limit : Nat) → (finished current : List Char) → Text → Source
  | _, _, _, finished, current, [] => ⟨(current ++ finished).reverse, true⟩
  | skip + 1, offset, limit, finished, current, _ :: rest =>
      decodeFrom e skip (offset + 1) limit finished current rest
  | 0, offset, limit, finished, current, b :: rest =>
      match e.front b rest with
      | .char c width =>
          if offset + width ≤ limit then
            decodeFrom e (width - 1) (offset + 1) limit finished (c :: current) rest
          else
            decodeFrom e (width - 1) (offset + 1) (offset + portion) (current ++ finished) [c] rest
      | .fault width =>
          ⟨(if offset + width ≤ limit then finished else current ++ finished).reverse, false⟩
      | .cut => ⟨(current ++ finished).reverse, false⟩

/-- The encoding of a text, and how long its byte order mark is. -/
def encodingOf : Text → Encoding × Nat
  | 0xFF :: 0xFE :: _ => (.utf16 false, 2)
  | 0xFE :: 0xFF :: _ => (.utf16 true, 2)
  | 0xEF :: 0xBB :: 0xBF :: _ => (.utf8, 3)
  | _ => (.utf8, 0)

def ofText (t : Text) : Source :=
  let (encoding, mark) := encodingOf t
  decodeFrom encoding 0 mark portion [] [] (t.drop mark)

end Source

end LoopScript.Yaml
