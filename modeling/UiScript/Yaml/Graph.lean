import UiScript.Value.Dict
import UiScript.Yaml.Tag
import UiScript.Yaml.Token

/-!
# The graph of a document

The nodes of a document form a graph, since an alias leads back to a node that was read before, or
is still being read. A node is known by its number.
-/

namespace UiScript.Yaml

inductive Content where
  | scalar (text : String)
  | items (items : List Nat)
  | entries (entries : List (Nat × Nat))
  deriving DecidableEq, Inhabited

/-- A node with its tag; what it holds is given by numbers. -/
structure Vertex where
  tag : Tag
  content : Content
  deriving DecidableEq, Inhabited

/-- The nodes of a document. -/
abbrev Graph := Array Vertex

/-- The graph read so far, and the tokens that are left. -/
structure Composition where
  tokens : List Token
  /-- What is met behind the last token. -/
  fault : Fault
  graph : Graph := #[]
  anchors : Dict Nat := []
  /-- What the handles of tags stand for. -/
  handles : Dict String := []
  deriving Inhabited

abbrev Compose := StateT Composition (Except Fault)

namespace Compose

/-! ### Tokens and nodes -/

def malformed {α : Type} : Compose α := throw .malformed

def peek : Compose Token := do
  let s ← get
  match s.tokens with
  | t :: _ => return t
  | [] => throw s.fault

/-- Passes over a token. -/
def pass : Compose Unit := modify fun s => { s with tokens := s.tokens.drop 1 }

/-- Passes over a token that must be there. -/
def expect (t : Token) : Compose Unit := do
  if (← peek) == t then pass else malformed

/-- Adds a node; gives its number. -/
def add (tag : Tag) (content : Content) : Compose Nat := do
  let s ← get
  set { s with graph := s.graph.push { tag, content } }
  return s.graph.size

/-- A node that is not written. -/
def addNothing : Compose Nat := add .null (.scalar "")

/-- Gives a name to a node; no name is given twice. -/
def nameNode (anchor : Option String) (id : Nat) : Compose Unit := do
  match anchor with
  | none => return ()
  | some name =>
    let s ← get
    if (s.anchors.get? name).isSome then malformed
    set { s with anchors := s.anchors.set name id }

/-- Adds a collection. It has its name already while its parts are read. -/
def addCollection (anchor : Option String) (tag : Tag) (read : Compose Content) : Compose Nat := do
  let id ← add tag (.items [])
  nameNode anchor id
  let content ← read
  modify fun s => { s with graph := s.graph.setIfInBounds id { tag, content } }
  return id

/-! ### Properties -/

def tagName (handle : Option String) (suffix : String) : Compose String := do
  match handle with
  | none => return suffix
  | some handle =>
    match (← get).handles.get? handle with
    | some expansion => return expansion ++ suffix
    | none => malformed

/-- The anchor of a node and the name of its tag. -/
structure Properties where
  anchor : Option String := none
  tag : Option String := none
  deriving Inhabited

def anchor? : Compose (Option String) := do
  match ← peek with
  | .anchor name =>
    pass
    return some name
  | _ => return none

def tagToken? : Compose (Option (Option String × String)) := do
  match ← peek with
  | .tag handle suffix =>
    pass
    return some (handle, suffix)
  | _ => return none

/-- Reads an anchor and a tag in any order. -/
def properties : Compose Properties := do
  let first ← anchor?
  let tag ← tagToken?
  let anchor ← if first.isNone && tag.isSome then anchor? else pure first
  match tag with
  | none => return { anchor }
  | some (handle, suffix) => return { anchor, tag := some (← tagName handle suffix) }

/-- The tag name that leaves the type open. -/
def openTag : String := "!"

def Properties.tagOr (p : Properties) (default : Tag) : Tag :=
  match p.tag with
  | none => default
  | some name => if name == openTag then default else Tag.ofName name

def Properties.scalarTag (p : Properties) (text : String) (isPlain : Bool) : Tag :=
  if p.tag.isNone && !isPlain then .str else p.tagOr (Tag.ofText text)

/-! ### Nodes -/

/-- Where a node stands, which tells what it may be. -/
inductive Position where
  /-- Inside brackets. -/
  | flow
  | block
  /-- Items may stand at the column of what is around them. -/
  | blockOrItems
  deriving DecidableEq, Inhabited

def emptyNode (p : Properties) : Compose Nat := do
  if p.anchor.isNone && p.tag.isNone then malformed
  else
    let id ← add (p.tagOr .null) (.scalar "")
    nameNode p.anchor id
    return id

mutual

/-- Reads a node. The number bounds the steps. -/
def node : Nat → Position → Compose Nat
  | 0, _ => malformed
  | n + 1, place => do
    match ← peek with
    | .alias name =>
      pass
      match (← get).anchors.get? name with
      | some id => return id
      | none => malformed
    | _ =>
      let p ← properties
      let isBlock := place != .flow
      match ← peek with
      | .scalar text isPlain =>
        pass
        let id ← add (p.scalarTag text isPlain) (.scalar text)
        nameNode p.anchor id
        return id
      | .flowItemsStart =>
        addCollection p.anchor (p.tagOr .seq) do
          pass
          return .items (← flowItems n true)
      | .flowEntriesStart =>
        addCollection p.anchor (p.tagOr .map) do
          pass
          return .entries (← flowEntries n true)
      | .blockItemsStart =>
        if isBlock then
          addCollection p.anchor (p.tagOr .seq) do
            pass
            return .items (← blockItems n)
        else emptyNode p
      | .blockEntriesStart =>
        if isBlock then
          addCollection p.anchor (p.tagOr .map) do
            pass
            return .entries (← blockEntries n)
        else emptyNode p
      | .item =>
        if place == .blockOrItems then
          addCollection p.anchor (p.tagOr .seq) (.items <$> plainItems n)
        else emptyNode p
      | _ => emptyNode p

/-- Reads a node, unless a token stands here that ends it before it starts. -/
def nodeUnless : Nat → List Token → Position → Compose Nat
  | 0, _, _ => malformed
  | n + 1, ends, place => do
    if ends.contains (← peek) then addNothing else node n place

def blockItems : Nat → Compose (List Nat)
  | 0 => malformed
  | n + 1 => do
    match ← peek with
    | .item =>
      pass
      let id ← nodeUnless n [.item, .blockEnd] .block
      return id :: (← blockItems n)
    | .blockEnd =>
      pass
      return []
    | _ => malformed

/-- Reads items at the column of the key before them. -/
def plainItems : Nat → Compose (List Nat)
  | 0 => malformed
  | n + 1 => do
    match ← peek with
    | .item =>
      pass
      let id ← nodeUnless n [.item, .key, .value, .blockEnd] .block
      return id :: (← plainItems n)
    | _ => return []

/-- Reads the entries of a block; a key or a value may be missing. -/
def blockEntries : Nat → Compose (List (Nat × Nat))
  | 0 => malformed
  | n + 1 => do
    match ← peek with
    | .key =>
      pass
      let key ← nodeUnless n [.key, .value, .blockEnd] .blockOrItems
      let value ← blockValue n
      return (key, value) :: (← blockEntries n)
    | .blockEnd =>
      pass
      return []
    | _ => malformed

def blockValue : Nat → Compose Nat
  | 0 => malformed
  | n + 1 => do
    match ← peek with
    | .value =>
      pass
      nodeUnless n [.key, .value, .blockEnd] .blockOrItems
    | _ => addNothing

/-- Reads items up to the closing bracket. Items behind the first are divided from it by commas; an
item may be an entry, which is a mapping of its own. -/
def flowItems : Nat → Bool → Compose (List Nat)
  | 0, _ => malformed
  | n + 1, isFirst => do
    if (← peek) == .flowItemsEnd then
      pass
      return []
    else
      if !isFirst then expect .comma
      match ← peek with
      | .key =>
        let id ← addCollection none .map do
          pass
          let key ← nodeUnless n [.value, .comma, .flowItemsEnd] .flow
          return .entries [(key, ← flowValue n .flowItemsEnd)]
        return id :: (← flowItems n false)
      | .flowItemsEnd =>
        pass
        return []
      | _ =>
        let id ← node n .flow
        return id :: (← flowItems n false)

/-- Reads the value of an entry inside brackets, if there is one. -/
def flowValue : Nat → Token → Compose Nat
  | 0, _ => malformed
  | n + 1, closing => do
    match ← peek with
    | .value =>
      pass
      nodeUnless n [.comma, closing] .flow
    | _ => addNothing

/-- Reads entries up to the closing brace; a node alone is a key. -/
def flowEntries : Nat → Bool → Compose (List (Nat × Nat))
  | 0, _ => malformed
  | n + 1, isFirst => do
    if (← peek) == .flowEntriesEnd then
      pass
      return []
    else
      if !isFirst then expect .comma
      match ← peek with
      | .key =>
        pass
        let key ← nodeUnless n [.value, .comma, .flowEntriesEnd] .flow
        let value ← flowValue n .flowEntriesEnd
        return (key, value) :: (← flowEntries n false)
      | .flowEntriesEnd =>
        pass
        return []
      | _ =>
        let key ← node n .flow
        let value ← addNothing
        return (key, value) :: (← flowEntries n false)

end

/-! ### Documents -/

def defaultHandles : Dict String := [("!", "!"), ("!!", Tag.standard)]

/-- Reads directives; the flag tells that a version was given. The number bounds them. -/
def directives : Nat → Bool → Compose Unit
  | 0, _ => malformed
  | n + 1, hasVersion => do
    match ← peek with
    | .directive d =>
      pass
      match d with
      | .version major =>
        if hasVersion || major != 1 then malformed
        directives n true
      | .handle handle expansion =>
        let s ← get
        if (s.handles.get? handle).isSome then malformed
        set { s with handles := s.handles.set handle expansion }
        directives n hasVersion
      | .unknown => directives n hasVersion
    | _ => return ()

/-- Passes over the ends of documents. The number bounds them. -/
def passEnds : Nat → Compose Unit
  | 0 => return ()
  | n + 1 => do
    if (← peek) == .documentEnd then
      pass
      passEnds n

/-- Reads the start of a document with its directives; false where there is no further one. -/
def documentHead : Compose Bool := do
  let bound := (← get).tokens.length + 1
  passEnds bound
  if (← peek) == .streamEnd then return false
  else
    modify fun s => { s with handles := [] }
    directives bound false
    modify fun s =>
      let missing := defaultHandles.filter fun (h, _) => (s.handles.get? h).isNone
      { s with handles := s.handles ++ missing }
    expect .documentStart
    return true

/-- A token that stands before or behind documents. -/
def isOutside : Token → Bool
  | .directive _ | .documentStart | .documentEnd | .streamEnd => true
  | _ => false

/-- Reads the one document of a text; none if the text is empty. -/
def document : Compose (Option Nat) := do
  let bound := 4 * (← get).tokens.length + 16
  let t ← peek
  let root ←
    if isOutside t && t != .documentEnd then do
      if ← documentHead then
        if isOutside (← peek) then some <$> addNothing else some <$> node bound .block
      else pure none
    else do
      modify fun s => { s with handles := defaultHandles }
      some <$> node bound .block
  if root.isSome then
    if ← documentHead then malformed
  return root

end Compose

/-- The graph of a text and the number of its root, which an empty text does not have. -/
def Graph.ofText (text : List Char) : Except Fault (Graph × Option Nat) := do
  let (tokens, fault) := tokensOf text
  let (root, s) ← Compose.document.run { tokens, fault }
  return (s.graph, root)

end UiScript.Yaml
