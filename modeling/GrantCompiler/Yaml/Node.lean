import GrantCompiler.Yaml.Token

/-!
# The nodes of a YAML document

Nodes are what the tokens of a document spell: scalars, lists and maps, and references to nodes that
have been given an anchor.  A reference is kept as the number of its anchor, and what stands under a
number is looked up when the document has been read as a whole; a node may thus refer to a node
around it.

An anchor takes as its number the count of names that are in use as anchors.  Using a name again
gives it a new number, and a number that is given out twice stands for the later node.
-/

set_option autoImplicit false

namespace GrantCompiler
namespace Yaml

/-- What stands at one place of a document. -/
inductive Node
  /-- A scalar, and whether nothing at all is written for it. -/
  | scalar (content : String) (blank : Bool)
  | reference (number : Nat)
  | list (items : List Node)
  | map (entries : List (Node × Node))

/-- A document with the nodes that its references stand for. -/
structure Document where
  /-- None for a text without any document. -/
  root : Option Node
  anchors : List (Nat × Node)
  /-- The number of scalars and references and of ends of lists and maps. -/
  size : Nat

/-! ## Reading tokens -/

/-- How far the tokens have been read, and what is known of the anchors in them. -/
structure Building where
  tokens : List Token
  /-- The tag handles that have been declared. -/
  handles : List String
  /-- The number that each anchor name has now. -/
  names : List (String × Nat)
  /-- Anchored nodes begun so far. -/
  begun : Nat
  /-- Which anchored node each number stands for, the latest first. -/
  numbers : List (Nat × Nat)
  /-- The anchored nodes that are complete. -/
  complete : List (Nat × Node)
  size : Nat

/-- Takes a value off the front of the tokens, or fails for good. -/
abbrev Build := StateT Building Option

namespace Build

/-- The next token, which is not passed. -/
def peek : Build (Option Token) := do return (← get).tokens.head?

/-- Passes a token. -/
def pass : Build Unit := modify fun s => { s with tokens := s.tokens.tail }

/-- Passes a token if it is the next one, and says whether it was. -/
def passes (t : Token) : Build Bool := do
  if (← peek) == some t then pass; return true else return false

/-- Passes a token, which has to be the next one. -/
def expect (t : Token) : Build Unit := do unless ← passes t do failure

/-- Whether the next token is among some. -/
def nextIn (ts : List Token) : Build Bool := do return (← peek).any fun t => t ∈ ts

/-- Adds to the size of the document. -/
def count (n : Nat) : Build Unit := modify fun s => { s with size := s.size + n }

/-- A node where nothing is written. -/
def blank : Build Node := do
  count 1
  return .scalar "" true

/-! ### Anchors and tags -/

/-- Gives a name a number, for a node that begins here. -/
def beginAnchored (name : String) : Build Nat := do
  let s ← get
  let number := s.names.length
  let names := (name, number) :: s.names.filter fun p => p.1 != name
  set { s with names, begun := s.begun + 1, numbers := (number, s.begun) :: s.numbers }
  return s.begun

/-- A reference to the node that a name is the anchor of now. -/
def referenceTo (name : String) : Build Node := do
  match (← get).names.find? fun p => p.1 == name with
  | some (_, number) =>
    count 1
    return .reference number
  | none => failure

/-- Passes an anchor, if there is one. -/
def anchor? : Build (Option String) := do
  match ← peek with
  | some (.anchor name) => pass; return some name
  | _ => return none

/-- Passes a tag, whose handle has to be declared; says whether there was one. -/
def tag? : Build Bool := do
  match ← peek with
  | some (.tag handle) =>
    pass
    match handle with
    | some h => if h = "!" || h = "!!" || (← get).handles.contains h then return true else failure
    | none => return true
  | _ => return false

/-- An anchor and a tag in either order. -/
def properties : Build (Option String × Bool) := do
  match ← anchor? with
  | some name => return (some name, ← tag?)
  | none =>
    let tagged ← tag?
    return (← if tagged then anchor? else pure none, tagged)

/-! ### Nodes

The bound falls with every node and every entry, and each of these takes a token after at most one
step that takes none. -/

mutual

/-- A node.  Only a `block` may be laid out by indentation, and only in an `entry` of a map may the
items of a list stand at the column of its key. -/
def node (block entry : Bool) : Nat → Build Node
  | 0 => failure
  | n + 1 => do
    if let some (.alias name) ← peek then
      pass
      return ← referenceTo name
    let (anchor, tagged) ← properties
    let serial ← anchor.mapM beginAnchored
    let content ← match ← peek with
      | some .item =>
        if entry then do count 2; pure (Node.list (← sameColumnItems n))
        else if anchor.isSome || tagged then blank else failure
      | some (.scalar content plain) => do
        pass
        count 1
        pure (Node.scalar content (plain && content.isEmpty))
      | some .flowListStart => do pass; count 2; pure (Node.list (← flowItems true n))
      | some .flowMapStart => do pass; count 2; pure (Node.map (← flowEntries true n))
      | t =>
        if block && t == some .blockListStart then do pass; count 2; pure (Node.list (← items n))
        else if block && t == some .blockMapStart then do
          pass; count 2; pure (Node.map (← entries n))
        else if anchor.isSome || tagged then blank
        else failure
    if let some serial := serial then
      modify fun s => { s with complete := (serial, content) :: s.complete }
    return content

/-- A node, or nothing if one of the given tokens is next. -/
def nodeUnless (ends : List Token) (block entry : Bool) : Nat → Build Node
  | 0 => failure
  | n + 1 => do if ← nextIn ends then blank else node block entry n

/-- The items of an indented list. -/
def items : Nat → Build (List Node)
  | 0 => failure
  | n + 1 => do
    if ← passes .item then
      let first ← nodeUnless [.item, .blockEnd] true false n
      return first :: (← items n)
    else
      expect .blockEnd
      return []

/-- The items of a list at the column of the key around it. -/
def sameColumnItems : Nat → Build (List Node)
  | 0 => failure
  | n + 1 => do
    if ← passes .item then
      let first ← nodeUnless [.item, .key, .value, .blockEnd] true false n
      return first :: (← sameColumnItems n)
    else return []

/-- The entries of an indented map. -/
def entries : Nat → Build (List (Node × Node))
  | 0 => failure
  | n + 1 => do
    if ← passes .key then
      let ends : List Token := [.key, .value, .blockEnd]
      let k ← nodeUnless ends true true n
      let v ← if ← passes .value then nodeUnless ends true true n else blank
      return (k, v) :: (← entries n)
    else
      expect .blockEnd
      return []

/-- The items of a list in brackets, up to its end; one may be a map of a single entry. -/
def flowItems (first : Bool) : Nat → Build (List Node)
  | 0 => failure
  | n + 1 => do
    if ← passes .flowListEnd then return []
    unless first do expect .separator
    if ← passes .flowListEnd then return []
    let item ←
      if ← passes .key then do
        count 2
        let k ←
          if ← nextIn [.value, .separator, .flowListEnd] then do pass; blank
          else node false false n
        let v ←
          if ← passes .value then nodeUnless [.separator, .flowListEnd] false false n else blank
        pure (Node.map [(k, v)])
      else node false false n
    return item :: (← flowItems false n)

/-- The entries of a map in braces, up to its end. -/
def flowEntries (first : Bool) : Nat → Build (List (Node × Node))
  | 0 => failure
  | n + 1 => do
    if ← passes .flowMapEnd then return []
    unless first do expect .separator
    if ← passes .flowMapEnd then return []
    let ends : List Token := [.separator, .flowMapEnd]
    let pair ←
      if ← passes .key then do
        let k ← nodeUnless (.value :: ends) false false n
        let v ← if ← passes .value then nodeUnless ends false false n else blank
        pure (k, v)
      else do
        let k ← node false false n
        pure (k, ← blank)
    return pair :: (← flowEntries false n)

end

/-! ### Documents -/

/-- The directives before a document: at most one version, a supported one, and no handle twice. -/
def directives (versioned : Bool) : Nat → Build Bool
  | 0 => failure
  | n + 1 => do
    match ← peek with
    | some (.version major minor) =>
      if versioned || major != 1 || !(minor == 1 || minor == 2) then failure
      pass
      let _ ← directives true n
      return true
    | some (.handle name) =>
      if (← get).handles.contains name then failure
      modify fun s => { s with handles := name :: s.handles }
      pass
      let _ ← directives versioned n
      return true
    | _ => return false

/-- The root of the only document of a text, none if there is no document. -/
def root : Build (Option Node) := do
  let bound := 4 * (← get).tokens.length + 8
  if (← get).tokens.isEmpty then return none
  let directed ← directives false bound
  let marked ← passes .documentStart
  if directed && !marked then failure
  let content ←
    if marked && ((← get).tokens.isEmpty || (← nextIn [.documentStart, .documentEnd])) then blank
    else node true false bound
  if !(← get).tokens.all (· == .documentEnd) then failure
  return some content

end Build

/-- The document that a text consists of. -/
def Document.ofText? (text : String) : Option Document := do
  let tokens ← Token.ofText? text
  let start : Building :=
    { tokens, handles := [], names := [], begun := 0, numbers := [], complete := [], size := 0 }
  let (root, s) ← Build.root start
  let anchors := s.numbers.filterMap fun (number, serial) => do
    return (number, ← s.complete.lookup serial)
  return { root, anchors, size := s.size }

end Yaml
end GrantCompiler
