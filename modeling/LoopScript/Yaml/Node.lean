/-
# LoopScript.Yaml.Node — the nodes of a YAML document

A document is a tree of scalars, sequences and mappings. An alias stands for a node that came before it
and was given a name. It may also stand within the very node that it names; then its target is only the
outside of that node, without what it holds.
-/
import LoopScript.Yaml.Tag

namespace LoopScript.Yaml

set_option autoImplicit false

/-- A node and the line it begins on, counted from one. -/
inductive Node where
  | scalar (tag : Tag) (text : Text) (line : Nat)
  | sequence (tag : Tag) (items : List Node) (line : Nat)
  | mapping (tag : Tag) (pairs : List (Node × Node)) (line : Nat)
  | alias (name : Text) (target : Node) (within : Bool) (line : Nat)
deriving Repr

namespace Node

def line : Node → Nat
  | .scalar _ _ line => line
  | .sequence _ _ line => line
  | .mapping _ _ line => line
  | .alias _ _ _ line => line

/-- What is written for a node: the text of a scalar or the name of an alias. -/
def text : Node → Text
  | .scalar _ text _ => text
  | .alias name _ _ _ => name
  | _ => []

/-- A node that was left out. -/
def absent (line : Nat) : Node := .scalar .null [] line

/-- Whether a node is the key whose value is merged into its mapping. -/
def isMergeKey : Node → Bool
  | .scalar .merge text _ => text == utf8 "<<"
  | _ => false

end Node

end LoopScript.Yaml
