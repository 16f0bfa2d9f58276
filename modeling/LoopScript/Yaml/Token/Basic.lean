/-
# LoopScript.Yaml.Token.Basic — the words of a YAML document

Beside the signs that are written there are tokens for what the indentation says: a sequence or a mapping
begins in a block, or a block ends. The sign of a key need not be written either: where a colon shows
that what came before it is a key, a `key` token stands before that.
-/
import LoopScript.Text.Basic

namespace LoopScript.Yaml

set_option autoImplicit false

inductive Token.Kind where
  | sourceEnd
  | version (major minor : Nat)
  | tagHandle (handle base : Text)
  | documentStart
  | documentEnd
  | beginSequence
  | beginMapping
  | endBlock
  | openBracket
  | closeBracket
  | openBrace
  | closeBrace
  | dash
  | comma
  | key
  | value
  | alias (name : Text)
  | anchor (name : Text)
  | tag (handle suffix : Text)
  | scalar (plain : Bool) (text : Text)
deriving DecidableEq, Repr

/-- A token and the line it begins on, counted from zero. -/
structure Token where
  kind : Token.Kind
  line : Nat
deriving DecidableEq, Repr

end LoopScript.Yaml
