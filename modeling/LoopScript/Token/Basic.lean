/-
# LoopScript.Token.Basic — the words of a script

A `Token` is one word of a source: its class, its text and where it begins. Names, numbers and
strings carry their text; the two words that open a loop share one class and are told apart by
theirs. A character that begins no word is a token of class `illegal`, and a quote that is never
closed is one of class `unterminated`; both are refused when a program is read.

`describe` names a token in error messages.
-/
import LoopScript.Operator
import LoopScript.Position
import LoopScript.Text.Quoted

namespace LoopScript

set_option autoImplicit false

inductive Token.Kind where
  | identifier
  | integer
  | float
  | string
  | bool
  | null
  | operator (op : Operator)
  | assign
  | bang
  | comma
  | semicolon
  | openParen
  | closeParen
  | openBrace
  | closeBrace
  | loopWord
  | ifWord
  | elseWord
  | illegal
  | unterminated
deriving DecidableEq, Repr

structure Token where
  kind : Token.Kind
  text : Text
  pos : Position
deriving DecidableEq, Repr

namespace Token

/-- The reserved words, in the order tools list them. -/
def keywords : List Text :=
  [utf8 "while", utf8 "until", utf8 "if", utf8 "else", utf8 "and", utf8 "or", utf8 "xor",
    utf8 "true", utf8 "false", utf8 "null"]

/-- The class of a word made of letters, digits and underscores. -/
def Kind.ofWord (word : Text) : Kind :=
  if word = utf8 "while" ∨ word = utf8 "until" then .loopWord
  else if word = utf8 "if" then .ifWord
  else if word = utf8 "else" then .elseWord
  else if word = utf8 "and" then .operator .and
  else if word = utf8 "or" then .operator .or
  else if word = utf8 "xor" then .operator .xor
  else if word = utf8 "true" ∨ word = utf8 "false" then .bool
  else if word = utf8 "null" then .null
  else .identifier

def quoted (t : Text) : Text := utf8 "'" ++ t ++ utf8 "'"

def Kind.label : Kind → Text
  | .identifier => utf8 "identifier"
  | .integer => utf8 "integer"
  | .float => utf8 "float"
  | .string => utf8 "string"
  | .bool => utf8 "boolean"
  | .null => utf8 "'null'"
  | .operator op => quoted op.spelling
  | .assign => utf8 "'='"
  | .bang => utf8 "'!'"
  | .comma => utf8 "','"
  | .semicolon => utf8 "';'"
  | .openParen => utf8 "'('"
  | .closeParen => utf8 "')'"
  | .openBrace => utf8 "'\x7b'"
  | .closeBrace => utf8 "'\x7d'"
  | .loopWord => utf8 "'while'"
  | .ifWord => utf8 "'if'"
  | .elseWord => utf8 "'else'"
  | .illegal => utf8 "invalid token"
  | .unterminated => utf8 "unterminated string"

def describe (t : Token) : Text :=
  match t.kind with
  | .illegal => utf8 "invalid token " ++ Text.quote t.text
  | kind => kind.label

end Token

end LoopScript
