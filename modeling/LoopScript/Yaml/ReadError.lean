/-
# LoopScript.Yaml.ReadError — documents that cannot be used

A text may be no YAML, and a document that is well formed may still say something that cannot be: an alias
for a node that does not exist, a node that contains itself, a value that is not what its tag says.
-/
import LoopScript.Yaml.Tag

namespace LoopScript.Yaml

set_option autoImplicit false

inductive ReadError where
  | malformed
  | unknownAnchor (name : Text)
  | containsItself (name : Text)
  | mergeOfNoMapping
  | badBase64
  | wrongTag (found : Tag) (text : Text) (wanted : Tag)
  | tooManyAliases
deriving DecidableEq, Repr

def ReadError.message : ReadError → Text
  | .malformed => utf8 "malformed document"
  | .unknownAnchor name => utf8 "unknown anchor '" ++ name ++ utf8 "' referenced"
  | .containsItself name => utf8 "anchor '" ++ name ++ utf8 "' value contains itself"
  | .mergeOfNoMapping => utf8 "map merge requires map or sequence of maps as the value"
  | .badBase64 => utf8 "!!binary value contains invalid base64 data"
  | .wrongTag found text wanted =>
      utf8 "cannot decode " ++ found.name ++ utf8 " \x60" ++ text ++ utf8 "\x60 as a " ++ wanted.name
  | .tooManyAliases => utf8 "document contains excessive aliasing"

end LoopScript.Yaml
