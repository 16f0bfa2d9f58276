/-
# LoopScript.Manifest.Fields — the fields of a manifest in a YAML document

A manifest is a mapping with two fields, each of which is a text. `Fields.ofNode` takes them out of a
document. What does not fit is collected (`Problem`): a node that is no mapping or no text, a key that is
given twice, a field that does not exist. A key that stands twice in a mapping is the only problem of it
that is told.

The value of the key `<<` is merged into its mapping: a mapping, or several in a sequence, whose fields
count unless they are given already. An alias is taken for the node it stands for, unless a document is
made of little but aliases.
-/
import LoopScript.Text.Base64
import LoopScript.Text.Quoted
import LoopScript.Yaml.Node
import LoopScript.Yaml.ReadError

namespace LoopScript.Manifest

set_option autoImplicit false

open Yaml (Node Tag ReadError)

inductive Problem where
  | notAMapping (tag : Tag) (text : Text) (line : Nat)
  | notAText (tag : Tag) (text : Text) (line : Nat)
  | repeatedKey (key : Text) (line first : Nat)
  | repeatedField (name : Text) (line : Nat)
  | unknownField (name : Text) (line : Nat)
deriving DecidableEq, Repr

namespace Problem

/-- A text cut to its first seven bytes if it is longer than ten. -/
def shortened (t : Text) : Text := if 10 < t.length then t.take 7 ++ utf8 "..." else t

/-- The tag of a node and its text, which is set off from the tag unless that is one of collections. -/
def shown (tag : Tag) (text : Text) : Text :=
  tag.name ++
    (if tag = .sequence ∨ tag = .mapping then text else utf8 " \x60" ++ shortened text ++ utf8 "\x60")

/-- The line of a problem and the beginning of its wording. -/
def atLine (line : Nat) (words : String) : Text :=
  utf8 "line " ++ Text.ofNat line ++ utf8 ": " ++ utf8 words

def message : Problem → Text
  | .notAMapping tag text line =>
      atLine line "cannot unmarshal " ++ shown tag text ++ utf8 " into codescript.manifestFile"
  | .notAText tag text line =>
      atLine line "cannot unmarshal " ++ shown tag text ++ utf8 " into string"
  | .repeatedKey key line first =>
      atLine line "mapping key " ++ Text.quote key ++ utf8 " already defined at line " ++
        Text.ofNat first
  | .repeatedField name line =>
      atLine line "field " ++ name ++ utf8 " already set in type codescript.manifestFile"
  | .unknownField name line =>
      atLine line "field " ++ name ++ utf8 " not found in type codescript.manifestFile"

end Problem

/-- The two fields as they stand in a document, the problems met, and how many nodes have been looked
at, in all and behind aliases. -/
structure Fields where
  name : Text
  main : Text
  problems : List Problem
  visits : Nat
  aliasVisits : Nat
deriving DecidableEq, Repr

/-- Something that is taken out of a document. -/
abbrev Extract (α : Type) : Type := StateT Fields (Except ReadError) α

namespace Extract

def report (problems : List Problem) : Extract Unit :=
  modify fun f => { f with problems := f.problems ++ problems }

/-- Whether too many of the nodes looked at were behind aliases: more than 99 of a hundred in a document
of ordinary size, and fewer and fewer beyond 400,000 nodes, down to ten of a hundred. -/
def isExcessive (aliasVisits visits : Nat) : Bool :=
  let low := 400000
  let high := 4000000
  let spread := high - low
  let beyond := min (visits - low) spread
  100 < aliasVisits && 1000 < visits &&
    (99 * spread - 89 * beyond) * visits < 100 * spread * aliasVisits

/-- Look at a node, behind an alias or not. -/
def visit (aliased : Bool) : Extract Unit := do
  let f ← get
  let visits := f.visits + 1
  let aliasVisits := if aliased then f.aliasVisits + 1 else f.aliasVisits
  if isExcessive aliasVisits visits then throw .tooManyAliases
  else set { f with visits, aliasVisits }

def sameKey (a b : Node) : Bool :=
  (match a, b with
    | .scalar .., .scalar .. => true
    | .sequence .., .sequence .. => true
    | .mapping .., .mapping .. => true
    | .alias .., .alias .. => true
    | _, _ => false) && a.text == b.text

/-- The keys that are given more than once, each pair of them. -/
def repeatedKeys : List (Node × Node) → List Problem
  | [] => []
  | (key, _) :: rest =>
      (rest.filter fun p => sameKey key p.1).map
        (fun p => .repeatedKey p.1.text p.1.line key.line) ++ repeatedKeys rest

/-- The text that a scalar stands for: none for null. A number or the like is taken as it is written, but
it must be what its tag says. -/
def scalarText (tag : Tag) (text : Text) : Except ReadError (Option Text) :=
  match tag with
  | .null | .bool | .int | .float | .timestamp =>
      let found := tag.found text
      if found ≠ tag then .error (.wrongTag found text tag)
      else .ok (if tag = .null then none else some text)
  | .binary =>
      match Text.Base64.decode text with
      | some bytes => .ok (some bytes)
      | none => .error .badBase64
  | _ => .ok (some text)

/-- The text of a node. A collection is none, and the repeated keys of a mapping come before its being
one. -/
def textOf (aliased : Bool) : Node → Extract (Option Text)
  | .alias _ target _ _ => do
      visit aliased
      textOf true target
  | .scalar tag text _ => do
      visit aliased
      scalarText tag text
  | .sequence tag _ line => do
      visit aliased
      report [.notAText tag [] line]
      return none
  | .mapping tag pairs line => do
      visit aliased
      match repeatedKeys pairs with
      | [] => report [.notAText tag [] line]
      | problems => report problems
      return none

def fieldNames : List Text := [utf8 "name", utf8 "main"]

def setField (key value : Text) : Extract Unit :=
  modify fun f => if key = utf8 "name" then { f with name := value } else { f with main := value }

/-- Take a field that has not been given yet. -/
def takeField (aliased : Bool) (key : Text) (value : Node) : Extract Unit := do
  match ← textOf aliased value with
  | some text => setField key text
  | none => return

/-- Take the pairs of a mapping, but for the one that is merged: `given` are the fields that are given
already, if the mapping is one that is merged, and `done` those that this mapping has given itself. The
fields that are given then. -/
def takePairs (aliased : Bool) :
    (given : Option (List Text)) → (done : List Text) → List (Node × Node) →
    Extract (Option (List Text))
  | given, _, [] => return given
  | given, done, (keyNode, value) :: rest => do
      if keyNode.isMergeKey then takePairs aliased given done rest
      else match ← textOf aliased keyNode with
        | none => takePairs aliased given done rest
        | some key =>
            if given.any (·.contains key) then takePairs aliased given done rest
            else
              let given := given.map (key :: ·)
              if !fieldNames.contains key then do
                report [.unknownField key keyNode.line]
                takePairs aliased given done rest
              else if done.contains key then do
                report [.repeatedField key keyNode.line]
                takePairs aliased given done rest
              else do
                takeField aliased key value
                takePairs aliased given (key :: done) rest

/-- The key of a pair as a name, if it is a text and not a number or the like. The repeated keys of a
mapping are told again. -/
def nameOf (aliased : Bool) : Node → Extract (Option Text)
  | .alias _ target _ _ => do
      visit aliased
      nameOf true target
  | .scalar tag text _ => do
      visit aliased
      if tag = .bool ∨ tag = .int ∨ tag = .float ∨ tag = .timestamp then return none
      else scalarText tag text
  | .sequence .. => do
      visit aliased
      return none
  | .mapping _ pairs _ => do
      visit aliased
      report (repeatedKeys pairs)
      return none

def namesOf (aliased : Bool) (pairs : List (Node × Node)) : Extract (List Text) := do
  let names ← pairs.mapM fun p => nameOf aliased p.1
  return names.filterMap id

/-- The nodes that are merged: those of a sequence, or the one node. -/
def sourcesOf : Node → List Node
  | .sequence _ items _ => items
  | node => [node]

/-- Whether a node is a mapping, or stands for one. -/
def isMapping : Node → Bool
  | .mapping .. | .alias _ (.mapping ..) _ _ => true
  | _ => false

/-- Take a mapping that is the document, or that is merged into it. `given` is as for `takePairs`. -/
def takeMapping : Nat → (aliased : Bool) → (given : Option (List Text)) → Node →
    Extract (Option (List Text))
  | 0, _, _, _ => throw .malformed
  | budget + 1, aliased, given, node => do
      visit aliased
      match node with
      | .alias name target within _ =>
          if within then throw (.containsItself name) else takeMapping budget true given target
      | .scalar tag text line =>
          match ← scalarText tag text with
          | some _ => report [.notAMapping tag text line]
          | none => pure ()
          return given
      | .sequence tag _ line => do
          report [.notAMapping tag [] line]
          return given
      | .mapping _ pairs _ =>
          match repeatedKeys pairs with
          | [] =>
              let after ← takePairs aliased given [] pairs
              match pairs.find? fun p => p.1.isMergeKey with
              | none => return after
              | some (_, source) =>
                  let known ← if after.isSome then pure after else some <$> namesOf aliased pairs
                  let known ← (sourcesOf source).foldlM (fun known node =>
                    if isMapping node then takeMapping budget aliased known node
                    else throw .mergeOfNoMapping) known
                  return if after.isSome then known else none
          | problems => do
              report problems
              return given

end Extract

/-- The fields of a document that is nested less than `depth` deep. -/
def Fields.ofNode (depth : Nat) (root : Node) : Except ReadError Fields :=
  let start : Fields := ⟨[], [], [], 1, 0⟩
  (Extract.takeMapping depth false none root).run start |>.map (·.2)

end LoopScript.Manifest
