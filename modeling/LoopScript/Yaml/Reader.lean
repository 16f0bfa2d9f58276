/-
# LoopScript.Yaml.Reader — reading the first document of a text

`read` gives the root of the first document, or nothing if there is none. What follows the first document
does not count, but the tokens that are read ahead of its end must be well formed.

The functions take a node off the tokens. They keep the handles of tags, and the nodes that have been
given a name (`Anchor`); a name may be given again, and then stands for the later node. While a collection
is being read, its name stands for its outside only.
-/
import LoopScript.Yaml.Node
import LoopScript.Yaml.ReadError
import LoopScript.Yaml.Token.Lexer

namespace LoopScript.Yaml

set_option autoImplicit false

/-- A node with a name; `number` tells apart the nodes of one name, and `within` says that the node is
still being read. -/
structure Anchor where
  name : Text
  number : Nat
  node : Node
  within : Bool

/-- The state of reading nodes. -/
structure Reading where
  lexer : Lexer
  handles : List (Text × Text)
  anchors : List Anchor

/-- Something that is read from the tokens. -/
abbrev Read (α : Type) : Type := StateT Reading (Except ReadError) α

namespace Read

/-- The tokens do not fit together. -/
def malformed {α : Type} : Read α := throw .malformed

def peek : Read Token := do
  let r ← get
  match r.lexer.peek with
  | some (token, lexer) =>
      set { r with lexer }
      return token
  | none => malformed

def skip : Read Unit := modify fun r => { r with lexer := r.lexer.skip }

def skipAndPeek : Read Token := do
  skip
  peek

/-! ## Names and tags -/

/-- Give a node a name; the number it gets. -/
def note (name? : Option Text) (node : Node) (within : Bool) : Read Nat := do
  let r ← get
  let number := r.anchors.length
  match name? with
  | none => return number
  | some name =>
      set { r with anchors := ⟨name, number, node, within⟩ :: r.anchors }
      return number

/-- A collection that was given a name has been read. -/
def complete (name? : Option Text) (number : Nat) (node : Node) : Read Node := do
  if name?.isSome then
    modify fun r => { r with
      anchors := r.anchors.map fun a =>
        if a.number = number then { a with node, within := false } else a }
  return node

def aliasOf (name : Text) (line : Nat) : Read Node := do
  match (← get).anchors.find? fun a => a.name == name with
  | some a => return .alias name a.node a.within (line + 1)
  | none => throw (.unknownAnchor name)

/-- The handles that need not be declared. -/
def defaultHandles : List (Text × Text) :=
  [(utf8 "!", utf8 "!"), (utf8 "!!", Tag.knownBase)]

/-- The tag that a handle and a suffix stand for; none for a single exclamation mark, which says
nothing. -/
def tagOf (handle suffix : Text) : Read (Option Tag) := do
  if handle = [] then return if suffix = utf8 "!" then none else some (.ofName suffix)
  else match (← get).handles.find? fun h => h.1 == handle with
    | some (_, base) => return some (.ofName (base ++ suffix))
    | none => malformed

/-- What is said of a node before its content. -/
structure Properties where
  anchor : Option Text
  tag : Option Tag
  /-- Whether there is a tag, though it may say nothing. -/
  tagged : Bool
  line : Nat

/-- A tag and an anchor in either order, each of which may be left out. -/
def properties : Read Properties := do
  let first ← peek
  match first.kind with
  | .anchor name =>
      let second ← skipAndPeek
      match second.kind with
      | .tag handle suffix =>
          let _ ← skipAndPeek
          return ⟨some name, ← tagOf handle suffix, true, first.line⟩
      | _ => return ⟨some name, none, false, first.line⟩
  | .tag handle suffix =>
      let second ← skipAndPeek
      match second.kind with
      | .anchor name =>
          let _ ← skipAndPeek
          return ⟨some name, ← tagOf handle suffix, true, first.line⟩
      | _ => return ⟨none, ← tagOf handle suffix, true, first.line⟩
  | _ => return ⟨none, none, false, first.line⟩

def scalar (p : Properties) (plain : Bool) (text : Text) : Read Node := do
  let implied : Tag :=
    if !plain then .string
    else if text = utf8 "<<" then .merge
    else .ofPlain true text
  let node : Node := .scalar (p.tag.getD implied) text (p.line + 1)
  let _ ← note p.anchor node false
  return node

/-- A node without content, of which something must have been said. -/
def bare (p : Properties) : Read Node :=
  if p.anchor.isSome ∨ p.tagged then scalar p true [] else malformed

def sequence (p : Properties) (items : Read (List Node)) : Read Node := do
  let tag := p.tag.getD .sequence
  let number ← note p.anchor (.sequence tag [] (p.line + 1)) true
  complete p.anchor number (.sequence tag (← items) (p.line + 1))

def mapping (p : Properties) (pairs : Read (List (Node × Node))) : Read Node := do
  let tag := p.tag.getD .mapping
  let number ← note p.anchor (.mapping tag [] (p.line + 1)) true
  complete p.anchor number (.mapping tag (← pairs) (p.line + 1))

/-! ## Nodes -/

/-- A node that was left out, as it stood on `line`. -/
def absent (line : Nat) : Read Node := return .absent (line + 1)

/-- Whether a token stands behind an entry of a mapping in a block. -/
def endsEntry (k : Token.Kind) : Bool := k == .key || k == .value || k == .endBlock

mutual

/-- A node. `block` says that it may be a block, and `beside` that it may be a sequence whose signs stand
in the column of the mapping around it. -/
def node (block beside : Bool) : Nat → Read Node
  | 0 => malformed
  | budget + 1 => do
      let first ← peek
      match first.kind with
      | .alias name =>
          skip
          aliasOf name first.line
      | _ =>
          let p ← properties
          let token ← peek
          match token.kind with
          | .scalar plain text =>
              skip
              scalar p plain text
          | .dash => if beside then sequence p (besideItems budget) else bare p
          | .openBracket => sequence p (do skip; flowItems true budget)
          | .openBrace => mapping p (do skip; flowPairs true budget)
          | .beginSequence => if block then sequence p (do skip; blockItems budget) else bare p
          | .beginMapping => if block then mapping p (do skip; blockPairs budget) else bare p
          | _ => bare p

/-- The items of a sequence in a block, through its end. -/
def blockItems : Nat → Read (List Node)
  | 0 => malformed
  | budget + 1 => do
      let token ← peek
      match token.kind with
      | .dash =>
          let next ← skipAndPeek
          let item ←
            if next.kind = .dash ∨ next.kind = .endBlock then absent token.line
            else node true false budget
          return item :: (← blockItems budget)
      | .endBlock =>
          skip
          return []
      | _ => malformed

/-- The items of a sequence whose signs stand in the column of the mapping around it. -/
def besideItems : Nat → Read (List Node)
  | 0 => malformed
  | budget + 1 => do
      let token ← peek
      match token.kind with
      | .dash =>
          let next ← skipAndPeek
          let item ←
            if next.kind = .dash ∨ endsEntry next.kind then absent token.line
            else node true false budget
          return item :: (← besideItems budget)
      | _ => return []

/-- The pairs of a mapping in a block, through its end. -/
def blockPairs : Nat → Read (List (Node × Node))
  | 0 => malformed
  | budget + 1 => do
      let token ← peek
      match token.kind with
      | .key =>
          let next ← skipAndPeek
          let key ← if endsEntry next.kind then absent token.line else node true true budget
          let value ← blockValue budget
          return (key, value) :: (← blockPairs budget)
      | .endBlock =>
          skip
          return []
      | _ => malformed

/-- The value of a pair in a block; it may be left out, with or without its colon. -/
def blockValue : Nat → Read Node
  | 0 => malformed
  | budget + 1 => do
      let token ← peek
      match token.kind with
      | .value =>
          let next ← skipAndPeek
          if endsEntry next.kind then absent token.line else node true true budget
      | _ => absent token.line

/-- The items of a sequence in brackets, through the closing one; `first` says that none came before. -/
def flowItems (first : Bool) : Nat → Read (List Node)
  | 0 => malformed
  | budget + 1 => do
      let token ← peek
      if token.kind = .closeBracket then
        skip
        return []
      else
        let token ←
          if first then pure token
          else if token.kind = .comma then skipAndPeek
          else malformed
        match token.kind with
        | .closeBracket =>
            skip
            return []
        | .key =>
            skip
            let pair ← flowPair budget
            return .mapping .mapping [pair] (token.line + 1) :: (← flowItems false budget)
        | _ =>
            let item ← node false false budget
            return item :: (← flowItems false budget)

/-- The only pair of a mapping that is written without braces in a sequence. A sign that cannot begin its
key is passed over. -/
def flowPair : Nat → Read (Node × Node)
  | 0 => malformed
  | budget + 1 => do
      let token ← peek
      let key ←
        if token.kind = .value ∨ token.kind = .comma ∨ token.kind = .closeBracket then do
          skip
          absent token.line
        else node false false budget
      let value ← flowValue .closeBracket budget
      return (key, value)

/-- The pairs of a mapping in braces, through the closing one; `first` says that none came before. -/
def flowPairs (first : Bool) : Nat → Read (List (Node × Node))
  | 0 => malformed
  | budget + 1 => do
      let token ← peek
      if token.kind = .closeBrace then
        skip
        return []
      else
        let token ←
          if first then pure token
          else if token.kind = .comma then skipAndPeek
          else malformed
        match token.kind with
        | .closeBrace =>
            skip
            return []
        | .key =>
            let next ← skipAndPeek
            let key ←
              if next.kind = .value ∨ next.kind = .comma ∨ next.kind = .closeBrace then
                absent next.line
              else node false false budget
            let value ← flowValue .closeBrace budget
            return (key, value) :: (← flowPairs false budget)
        | _ =>
            let key ← node false false budget
            let next ← peek
            return (key, .absent (next.line + 1)) :: (← flowPairs false budget)

/-- The value of a pair in brackets or braces, of which `closing` is the closing one; it may be left out,
with or without its colon. -/
def flowValue (closing : Token.Kind) : Nat → Read Node
  | 0 => malformed
  | budget + 1 => do
      let token ← peek
      match token.kind with
      | .value =>
          let next ← skipAndPeek
          if next.kind = .comma ∨ next.kind = closing then absent next.line
          else node false false budget
      | _ => absent token.line

end

/-! ## Documents -/

/-- The directives before a document: the handles they declare. The version, if it is given, must be the
one that is read here, and nothing may be declared twice. -/
def directives (versioned : Bool) : Nat → Read Unit
  | 0 => malformed
  | budget + 1 => do
      let token ← peek
      match token.kind with
      | .version major minor =>
          if versioned ∨ (major, minor) ≠ (1, 1) then malformed
          else
            skip
            directives true budget
      | .tagHandle handle base =>
          let r ← get
          if r.handles.any fun h => h.1 == handle then malformed
          else
            set { r with handles := r.handles ++ [(handle, base)] }
            skip
            directives versioned budget
      | _ => modify fun r => { r with handles := r.handles ++ defaultHandles }

/-- Whether nothing but marks and directives follows. -/
def endsDocument (k : Token.Kind) : Bool :=
  match k with
  | .version .. | .tagHandle .. | .documentStart | .documentEnd | .sourceEnd => true
  | _ => false

/-- The first document. Behind its opening mark it may be empty. -/
def document (budget : Nat) : Read (Option Node) := do
  let token ← peek
  match token.kind with
  | .sourceEnd => return none
  | .version .. | .tagHandle .. | .documentStart =>
      directives false budget
      if (← peek).kind ≠ .documentStart then malformed
      else
        let next ← skipAndPeek
        let root ← if endsDocument next.kind then absent next.line else node true false budget
        let _ ← peek
        return some root
  | _ =>
      directives false budget
      let root ← node true false budget
      let _ ← peek
      return some root

end Read

/-- The root of the first document of a text, if there is one. -/
def read (t : Text) : Except ReadError (Option Node) :=
  let source := Source.ofText t
  let start : Reading := ⟨.ofSource source, [], []⟩
  (Read.document (16 * source.chars.length + 64)).run' start

end LoopScript.Yaml
