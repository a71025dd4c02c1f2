import UiScript.Yaml.Property
import UiScript.Yaml.Style

/-!
# Tokens of a document

The layout of a document is made explicit by tokens: where a block of items or entries starts and
ends, and where a key starts. That a scalar is a key shows only at the colon behind it, so the
tokens behind a possible key wait until that is certain.
-/

namespace UiScript.Yaml

open Scan

inductive Token where
  | streamEnd
  | directive (d : Directive)
  | documentStart
  | documentEnd
  | blockItemsStart
  | blockEntriesStart
  | blockEnd
  | flowItemsStart
  | flowItemsEnd
  | flowEntriesStart
  | flowEntriesEnd
  /-- The hyphen before an item. -/
  | item
  /-- The comma between items or entries. -/
  | comma
  | key
  | value
  | alias (name : String)
  | anchor (name : String)
  | tag (handle : Option String) (suffix : String)
  | scalar (text : String) (isPlain : Bool)
  deriving DecidableEq, Inhabited

/-- A token that is a key if a colon follows on its line. -/
structure PossibleKey where
  /-- The number of the token. -/
  number : Nat
  /-- Nothing but a key can stand there. -/
  required : Bool
  index : Nat
  line : Nat
  column : Nat
  deriving Inhabited

/-- How far a document was taken apart. -/
structure Layout where
  cursor : Cursor
  /-- One more than the column of the innermost block; zero outside of all. -/
  margin : Nat := 0
  /-- The margins of the blocks around it. -/
  outer : List Nat := []
  /-- How many brackets are open. -/
  depth : Nat := 0
  /-- A key may start here. -/
  keyAllowed : Bool := true
  keys : List (Nat × PossibleKey) := []
  /-- Tokens that were not yet given out. -/
  waiting : List Token := []
  /-- How many tokens were given out. -/
  taken : Nat := 0
  done : Bool := false
  deriving Inhabited

abbrev Lay := StateT Layout (Except Fault)

namespace Lay

/-- Reads on at the cursor. -/
def scan {α : Type} (action : Scan α) : Lay α := do
  let s ← get
  let (a, cursor) ← (action.run s.cursor : Except Fault _)
  set { s with cursor }
  return a

def add (t : Token) : Lay Unit := modify fun s => { s with waiting := s.waiting ++ [t] }

def allowKey (allowed : Bool) : Lay Unit := modify fun s => { s with keyAllowed := allowed }

def inFlow : Lay Bool := return (← get).depth != 0

/-! ### Possible keys -/

/-- Drops possible keys that are on an earlier line or too far away. -/
def dropStaleKeys : Lay Unit := do
  let s ← get
  let isStale (k : PossibleKey) : Bool :=
    k.line != s.cursor.line || k.index + 1024 < s.cursor.index
  if s.keys.any fun (_, k) => isStale k && k.required then throw .malformed
  set { s with keys := s.keys.filter fun (_, k) => !isStale k }

/-- Drops the possible key inside the innermost brackets. -/
def dropKey : Lay Unit := do
  let s ← get
  if (s.keys.lookup s.depth).any (·.required) then throw .malformed
  set { s with keys := s.keys.filter fun (depth, _) => depth != s.depth }

def noteKey : Lay Unit := do
  if (← get).keyAllowed then
    dropKey
    let s ← get
    let key : PossibleKey := {
      number := s.taken + s.waiting.length
      required := s.depth == 0 && s.margin == s.cursor.column + 1
      index := s.cursor.index
      line := s.cursor.line
      column := s.cursor.column }
    set { s with keys := s.keys ++ [(s.depth, key)] }

/-! ### Blocks -/

/-- Ends some blocks, innermost first. -/
def endBlocks (least : Nat) (s : Layout) : List Nat → Layout
  | [] => s
  | margin :: outer =>
    if least < s.margin then
      endBlocks least { s with margin, outer, waiting := s.waiting ++ [.blockEnd] } outer
    else s

/-- Ends the blocks whose margin is beyond the given one. -/
def unwind (least : Nat) : Lay Unit :=
  modify fun s => if s.depth == 0 then endBlocks least s s.outer else s

/-- Starts a block at a column, if none stands there; tells whether it did. -/
def startBlock (column : Nat) : Lay Bool := do
  let s ← get
  if s.margin ≤ column then
    set { s with margin := column + 1, outer := s.margin :: s.outer }
    return true
  else return false

/-! ### One token after another -/

/-- Passes over blanks, comments and line ends. The number bounds the lines. -/
def skipGaps : Nat → Lay Unit
  | 0 => return ()
  | n + 1 => do
    scan skipBlanks
    scan skipComment
    match ← scan lineBreak? with
    | none => return ()
    | some _ =>
      if !(← inFlow) then allowKey true
      skipGaps n

def addStreamEnd : Lay Unit := do
  unwind 0
  dropKey
  allowKey false
  modify fun s => { s with keys := [], done := true }
  add .streamEnd

/-- Ends all blocks, before a line that belongs to no document. -/
def leaveBlocks : Lay Unit := do
  unwind 0
  dropKey
  allowKey false

def addDirective : Lay Unit := do
  leaveBlocks
  add (.directive (← scan directive))

def addMarker (t : Token) : Lay Unit := do
  leaveBlocks
  scan (skip 3)
  add t

def addOpening (t : Token) : Lay Unit := do
  noteKey
  modify fun s => { s with depth := s.depth + 1 }
  allowKey true
  scan (skip 1)
  add t

def addClosing (t : Token) : Lay Unit := do
  dropKey
  modify fun s => { s with depth := s.depth - 1 }
  allowKey false
  scan (skip 1)
  add t

def addComma : Lay Unit := do
  allowKey true
  dropKey
  scan (skip 1)
  add .comma

/-- Starts a block here, where that is allowed, unless one stands here already. -/
def openBlock (t : Token) : Lay Unit := do
  let s ← get
  if s.depth == 0 then
    if !s.keyAllowed then throw .malformed
    if ← startBlock s.cursor.column then add t

def addItem : Lay Unit := do
  openBlock .blockItemsStart
  allowKey true
  dropKey
  scan (skip 1)
  add .item

/-- A key that is told by a question mark. -/
def addKey : Lay Unit := do
  openBlock .blockEntriesStart
  allowKey !(← inFlow)
  dropKey
  scan (skip 1)
  add .key

/-- Puts tokens before a waiting one. -/
def insertAt (number : Nat) (ts : List Token) : Lay Unit :=
  modify fun s =>
    let before := number - s.taken
    { s with waiting := s.waiting.take before ++ ts ++ s.waiting.drop before }

/-- A colon behind a key makes it one. -/
def addValue : Lay Unit := do
  let s ← get
  match s.keys.lookup s.depth with
  | some key =>
    set { s with keys := s.keys.filter fun (depth, _) => depth != s.depth }
    let starts ← if s.depth == 0 then startBlock key.column else pure false
    insertAt key.number (if starts then [.blockEntriesStart, .key] else [.key])
    allowKey false
  | none =>
    openBlock .blockEntriesStart
    allowKey !(← inFlow)
    dropKey
  scan (skip 1)
  add .value

def addPossibleKey (action : Scan Token) : Lay Unit := do
  noteKey
  allowKey false
  add (← scan action)

def addBlockScalar (folded : Bool) : Lay Unit := do
  allowKey true
  dropKey
  let margin := (← get).margin
  add (.scalar (← scan (blockScalar folded margin)) false)

/-- Behind a line end a key may follow a plain scalar. -/
def addPlain : Lay Unit := do
  noteKey
  let s ← get
  let (text, broken) ← scan (plainScalar (s.depth != 0) s.margin)
  allowKey broken
  add (.scalar text true)

/-- Takes the next token apart, together with those that the layout adds. -/
def fetch : Lay Unit := do
  if (← get).cursor.index == 0 then scan do
    if (← peek?) == some byteOrderMark then skip 1
  skipGaps ((← get).cursor.rest.length + 1)
  dropStaleKeys
  unwind ((← get).cursor.column + 1)
  let s ← get
  let inFlow := s.depth != 0
  match s.cursor.rest with
  | [] => addStreamEnd
  | c :: cs =>
    let atStart := s.cursor.column == 0
    let standsAlone := inFlow || startsWithGap cs
    if c == '%' && atStart then addDirective
    else if atStart && startsMarker '-' (c :: cs) then addMarker .documentStart
    else if atStart && startsMarker '.' (c :: cs) then addMarker .documentEnd
    else if c == '[' then addOpening .flowItemsStart
    else if c == '\x7b' then addOpening .flowEntriesStart
    else if c == ']' then addClosing .flowItemsEnd
    else if c == '\x7d' then addClosing .flowEntriesEnd
    else if c == ',' then addComma
    else if c == '-' && startsWithGap cs then addItem
    else if c == '?' && standsAlone then addKey
    else if c == ':' && standsAlone then addValue
    else if c == '*' then addPossibleKey (.alias <$> anchorName)
    else if c == '&' then addPossibleKey (.anchor <$> anchorName)
    else if c == '!' then
      addPossibleKey do
        let (handle, suffix) ← tagParts
        return .tag handle suffix
    else if c == '|' && !inFlow then addBlockScalar false
    else if c == '>' && !inFlow then addBlockScalar true
    else if c == '\'' then addPossibleKey (do return .scalar (← quotedScalar false) false)
    else if c == '"' then addPossibleKey (do return .scalar (← quotedScalar true) false)
    else if startsPlain inFlow (c :: cs) then addPlain
    else throw .malformed

/-- The first waiting token is not certain yet. -/
def needsMore : Lay Bool := do
  if (← get).done then return false
  else if (← get).waiting.isEmpty then return true
  else
    dropStaleKeys
    let s ← get
    return s.keys.any fun (_, k) => k.number == s.taken

/-- Fetches tokens until the first waiting one is certain. The number bounds them. -/
def settle : Nat → Lay Unit
  | 0 => return ()
  | n + 1 => do
    if ← needsMore then
      fetch
      settle n

end Lay

namespace Layout

/-- The tokens that can be given out, and the fault that ends them. The number bounds them. -/
def tokens : Nat → Layout → List Token × Fault
  | 0, _ => ([], .malformed)
  | n + 1, s =>
    match (Lay.settle (s.cursor.rest.length + 2)).run s with
    | .error fault => ([], fault)
    | .ok (_, s) =>
      match s.waiting with
      | [] => ([], .malformed)
      | t :: waiting =>
        let (more, fault) := tokens n { s with waiting, taken := s.taken + 1 }
        (t :: more, fault)

end Layout

def tokensOf (text : List Char) : List Token × Fault :=
  Layout.tokens (4 * text.length + 8) { cursor := { rest := text } }

end UiScript.Yaml
