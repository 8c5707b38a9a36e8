import RowPolicy.Yaml.Lexer

/-!
# YAML documents

The tree of a document. Anchors are numbered: an anchor gets the number of distinct names before it,
so that a name used again can share the number of another one, and a reference means the last node
with its number. A stream holds at most one document.
-/

namespace RowPolicy

namespace Yaml

inductive Node
  | scalar (anchor : Option Nat) (tag : Option String) (style : Style) (text : String)
  | sequence (anchor : Option Nat) (tag : Option String) (items : List Node)
  | mapping (anchor : Option Nat) (tag : Option String) (members : List (Node × Node))
  | reference (number : Nat)

namespace Node

instance : Inhabited Node := ⟨.scalar none none .plain ""⟩

def missing : Node := .scalar none none .plain ""

mutual

def events : Node → Nat
  | .scalar .. | .reference _ => 1
  | .sequence _ _ items => 2 + itemEvents items
  | .mapping _ _ members => 2 + memberEvents members

def itemEvents : List Node → Nat
  | [] => 0
  | item :: items => events item + itemEvents items

def memberEvents : List (Node × Node) → Nat
  | [] => 0
  | (key, value) :: members => events key + events value + memberEvents members

end

/-- A node under its number, if it has an anchor. -/
def entry (anchor : Option Nat) (node : Node) : List (Nat × Node) :=
  anchor.toList.map fun number => (number, node)

mutual

/-- The anchored nodes of a tree in the order in which they start. -/
def anchored : Node → List (Nat × Node)
  | .scalar anchor tag style text => entry anchor (.scalar anchor tag style text)
  | .sequence anchor tag items => entry anchor (.sequence anchor tag items) ++ anchoredItems items
  | .mapping anchor tag members =>
    entry anchor (.mapping anchor tag members) ++ anchoredMembers members
  | .reference _ => []

def anchoredItems : List Node → List (Nat × Node)
  | [] => []
  | item :: items => anchored item ++ anchoredItems items

def anchoredMembers : List (Node × Node) → List (Nat × Node)
  | [] => []
  | (key, value) :: members => anchored key ++ anchored value ++ anchoredMembers members

end

end Node

/-- What is left to read of a stream, the anchors so far, and the handles of tags. -/
structure Source where
  tokens : List Token
  anchors : List (String × Nat)
  handles : List (String × String)

abbrev Parse := StateT Source Option

namespace Parse

def peek : Parse Token := do return (← get).tokens.headD .streamEnd

def advance : Parse Unit := modify fun s => { s with tokens := s.tokens.drop 1 }

def accept (token : Token) : Parse Bool := do
  if (← peek) = token then advance; return true else return false

def number (name : String) : Parse Nat := do
  let s ← get
  let number := s.anchors.length
  set { s with anchors := (name, number) :: s.anchors.filter fun entry => entry.1 != name }
  return number

def numberOf (name : String) : Parse Nat := do
  (← get).anchors.lookup name

def expand (handle suffix : String) : Parse String := do
  if handle = "" then return suffix
  return (← (← get).handles.lookup handle) ++ suffix

/-- Reads an anchor and a tag, in either order. -/
def properties : Parse (Option Nat × Option String) := do
  match ← peek with
  | .anchor name =>
    advance
    let number ← number name
    match ← peek with
    | .tag handle suffix =>
      advance
      return (some number, some (← expand handle suffix))
    | _ => return (some number, none)
  | .tag handle suffix =>
    advance
    let tag ← expand handle suffix
    match ← peek with
    | .anchor name =>
      advance
      return (some (← number name), some tag)
    | _ => return (none, some tag)
  | _ => return (none, none)

/-- The tag that a scalar keeps; the bare mark only says that the text is to be taken as it looks. -/
def scalarTag (tag : Option String) : Option String :=
  if tag = some "!" then none else tag

mutual

/-- Reads a node. Block collections are read only where they are allowed, and a sequence without
indentation of its own only as a part of a block mapping. -/
def node : Nat → (block indentless : Bool) → Parse Node
  | 0, _, _ => failure
  | fuel + 1, block, indentless => do
    match ← peek with
    | .reference name =>
      advance
      return .reference (← numberOf name)
    | _ =>
      let (anchor, tag) ← properties
      match ← peek with
      | .scalar style text =>
        advance
        return .scalar anchor (scalarTag tag) style text
      | .openBracket =>
        advance
        return .sequence anchor tag (← flowItems fuel true)
      | .openBrace =>
        advance
        return .mapping anchor tag (← flowMembers fuel true)
      | .blockEntry =>
        if indentless then return .sequence anchor tag (← indentlessItems fuel)
        else if anchor.isSome || tag.isSome then return .scalar anchor tag .plain ""
        else failure
      | .blockSequence =>
        if block then
          advance
          return .sequence anchor tag (← blockItems fuel)
        else if anchor.isSome || tag.isSome then return .scalar anchor tag .plain ""
        else failure
      | .blockMapping =>
        if block then
          advance
          return .mapping anchor tag (← blockMembers fuel)
        else if anchor.isSome || tag.isSome then return .scalar anchor tag .plain ""
        else failure
      | _ =>
        if anchor.isSome || tag.isSome then return .scalar anchor tag .plain ""
        else failure

def blockItems : Nat → Parse (List Node)
  | 0 => failure
  | fuel + 1 => do
    if ← accept .blockEnd then return []
    if !(← accept .blockEntry) then failure
    let next ← peek
    let item ← if next = .blockEntry ∨ next = .blockEnd then pure Node.missing
      else node fuel true false
    return item :: (← blockItems fuel)

def indentlessItems : Nat → Parse (List Node)
  | 0 => failure
  | fuel + 1 => do
    if !(← accept .blockEntry) then return []
    let next ← peek
    let item ←
      if next = .blockEntry ∨ next = .key ∨ next = .value ∨ next = .blockEnd then pure Node.missing
      else node fuel true false
    return item :: (← indentlessItems fuel)

def blockPart : Nat → Parse Node
  | 0 => failure
  | fuel + 1 => do
    let next ← peek
    if next = .key ∨ next = .value ∨ next = .blockEnd then return Node.missing
    node fuel true true

def blockMembers : Nat → Parse (List (Node × Node))
  | 0 => failure
  | fuel + 1 => do
    if ← accept .blockEnd then return []
    if !(← accept .key) then failure
    let key ← blockPart fuel
    let value ← if ← accept .value then blockPart fuel else pure Node.missing
    return (key, value) :: (← blockMembers fuel)

/-- Reads the items of a sequence in brackets, behind the bracket or behind an item. An item with
a key is a mapping of that one member. -/
def flowItems : Nat → (first : Bool) → Parse (List Node)
  | 0, _ => failure
  | fuel + 1, first => do
    if ← accept .closeBracket then return []
    if !first then
      if !(← accept .flowEntry) then failure
    if ← accept .key then
      let next ← peek
      let key ← if next = .value ∨ next = .flowEntry ∨ next = .closeBracket then do
          advance
          pure Node.missing
        else node fuel false false
      let value ← if ← accept .value then do
          let next ← peek
          if next = .flowEntry ∨ next = .closeBracket then pure Node.missing
          else node fuel false false
        else pure Node.missing
      return .mapping none none [(key, value)] :: (← flowItems fuel false)
    else if ← accept .closeBracket then return []
    else
      let item ← node fuel false false
      return item :: (← flowItems fuel false)

def flowMembers : Nat → (first : Bool) → Parse (List (Node × Node))
  | 0, _ => failure
  | fuel + 1, first => do
    if ← accept .closeBrace then return []
    if !first then
      if !(← accept .flowEntry) then failure
    if ← accept .key then
      let next ← peek
      let key ← if next = .value ∨ next = .flowEntry ∨ next = .closeBrace then pure Node.missing
        else node fuel false false
      let value ← if ← accept .value then do
          let next ← peek
          if next = .flowEntry ∨ next = .closeBrace then pure Node.missing
          else node fuel false false
        else pure Node.missing
      return (key, value) :: (← flowMembers fuel false)
    else if ← accept .closeBrace then return []
    else
      let key ← node fuel false false
      return (key, Node.missing) :: (← flowMembers fuel false)

end

def standardHandles : List (String × String) := [("!", "!"), ("!!", "tag:yaml.org,2002:")]

/-- Reads the directives of a document: at most one version, which must be 1.1 or 1.2, and at most
one expansion of each handle. -/
def directives : Nat → (versioned : Bool) → (handles : List (String × String)) →
    Parse (List (String × String))
  | 0, _, _ => failure
  | fuel + 1, versioned, handles => do
    match ← peek with
    | .version major minor =>
      if versioned ∨ major ≠ 1 ∨ (minor ≠ 1 ∧ minor ≠ 2) then failure
      advance
      directives fuel true handles
    | .handle name expansion =>
      if (handles.lookup name).isSome then failure
      advance
      directives fuel versioned ((name, expansion) :: handles)
    | _ => return handles

def startsDocument : Token → Bool
  | .version .. | .handle .. | .documentStart => true
  | _ => false

def documentEnds : Nat → Parse Unit
  | 0 => failure
  | fuel + 1 => do if ← accept .documentEnd then documentEnds fuel else return ()

def endsDocument : Token → Bool
  | .documentEnd | .streamEnd => true
  | _ => false

def markedRoot (fuel : Nat) : Parse Node := do
  let handles ← directives fuel false []
  modify fun s => { s with handles := handles ++ s.handles }
  if !(← accept .documentStart) then failure
  if endsDocument (← peek) then return Node.missing
  node fuel true false

/-- Reads a stream: the root of its only document, or nothing when it holds none. -/
def stream (fuel : Nat) : Parse (Option Node) := do
  let next ← peek
  if next = .streamEnd then return none
  let root ← if startsDocument next then markedRoot fuel else node fuel true false
  documentEnds fuel
  if (← peek) ≠ .streamEnd then failure
  return some root

end Parse

/-- A document: its root if it has one, the nodes that references mean, and how many references a
reader may follow. -/
structure Document where
  root : Option Node
  anchored : List (Nat × Node)
  limit : Nat

def parse? (text : String) : Option Document := do
  let tokens ← tokens? text.toList
  let fuel := 3 * tokens.length + 8
  let (root, _) ← (Parse.stream fuel).run ⟨tokens, [], Parse.standardHandles⟩
  match root with
  | none => some ⟨none, [], 100⟩
  | some node => some ⟨some node, node.anchored.reverse, 100 * node.events⟩

end Yaml

end RowPolicy
