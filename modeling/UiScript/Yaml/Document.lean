import UiScript.Yaml.Datum
import UiScript.Yaml.Graph

/-!
# Documents

A document is the data of all nodes of its graph. The data are gathered level by level from the
root, so that of two faults the one nearer to the root is met first.
-/

namespace UiScript.Yaml

/-! ### Merging -/

abbrev Rework := StateT Graph (Except Fault)

namespace Graph

def tag (g : Graph) (id : Nat) : Tag := (g[id]?.map Vertex.tag).getD .unknown

def content (g : Graph) (id : Nat) : Content := (g[id]?.map Vertex.content).getD (.scalar "")

def entries (g : Graph) (id : Nat) : List (Nat × Nat) :=
  match g.content id with
  | .entries es => es
  | _ => []

def setEntries (id : Nat) (es : List (Nat × Nat)) (g : Graph) : Graph :=
  g.setIfInBounds id { tag := g.tag id, content := .entries es }

def setTag (id : Nat) (tag : Tag) (g : Graph) : Graph :=
  g.setIfInBounds id { tag, content := g.content id }

mutual

/-- Takes the entries over that the merge keys of a mapping name. They come before its own ones, so
that those win. The numbers bound the steps and tell the place of the next key. -/
def mergeFrom : Nat → Nat → Nat → List (Nat × Nat) → Rework Unit
  | 0, _, _, _ => return ()
  | n + 1, id, place, merged => do
    let es := (← get).entries id
    match es[place]? with
    | none => if !merged.isEmpty then modify (setEntries id (merged ++ es))
    | some (key, value) =>
      match (← get).tag key with
      | .merge =>
        modify (setEntries id (es.eraseIdx place))
        let more ← mergedEntries n value
        mergeFrom n id place (merged ++ more)
      | .value =>
        modify (setTag key .str)
        mergeFrom n id (place + 1) merged
      | _ => mergeFrom n id (place + 1) merged

/-- The entries that a merge key with a value brings. -/
def mergedEntries : Nat → Nat → Rework (List (Nat × Nat))
  | 0, _ => return []
  | n + 1, value => do
    match (← get).content value with
    | .entries _ =>
      mergeFrom n value 0 []
      return (← get).entries value
    | .items items => mergedItems n items
    | .scalar _ => throw .malformed

/-- The entries that a list of mappings brings; those of the first one come last. -/
def mergedItems : Nat → List Nat → Rework (List (Nat × Nat))
  | 0, _ => return []
  | _, [] => return []
  | n + 1, item :: items => do
    match (← get).content item with
    | .entries _ =>
      mergeFrom n item 0 []
      let es := (← get).entries item
      return (← mergedItems n items) ++ es
    | _ => throw .malformed

end

/-- Takes over the entries that merge keys name. -/
def merge (id : Nat) : Rework Unit := do
  let bound := (← get).size + 2
  mergeFrom (4 * bound * bound) id 0 []

/-- The text of a node where a scalar is wanted. A mapping stands for the value under its value
key. The number bounds the steps. -/
def scalarText (g : Graph) : Nat → Nat → Except Fault String
  | 0, _ => .error .malformed
  | n + 1, id =>
    match g.content id with
    | .scalar text => .ok text
    | .items _ => .error .malformed
    | .entries es =>
      match es.find? fun (key, _) => g.tag key == .value with
      | some (_, value) => scalarText g n value
      | none => .error .malformed

end Graph

/-! ### Gathering -/

/-- The data so far, and the collections whose parts are still to be gathered. -/
structure Gathering where
  graph : Graph
  data : Array (Option Datum)
  unfilled : List Nat := []
  deriving Inhabited

abbrev Gather := StateT Gathering (Except Fault)

namespace Gather

def datum? (id : Nat) : Gather (Option Datum) := return ((← get).data[id]?).join

def put (id : Nat) (d : Datum) : Gather Unit :=
  modify fun s => { s with data := s.data.setIfInBounds id (some d) }

/-- Puts a collection whose parts are gathered later. -/
def putOpen (id : Nat) (d : Datum) : Gather Unit := do
  put id d
  modify fun s => { s with unfilled := s.unfilled ++ [id] }

/-- Puts what the text of a node means. -/
def putScalar (id : Nat) (read : String → Except Fault Datum) : Gather Unit := do
  let g := (← get).graph
  let text ← (g.scalarText (g.size + 1) id : Except Fault _)
  put id (← (read text : Except Fault _))

/-- Reads a date; a mapping cannot stand for one. -/
def putTimestamp (id : Nat) : Gather Unit := do
  match (← get).graph.content id with
  | .entries _ => putScalar id fun _ => .error .dateOfMapping
  | _ => putScalar id Datum.readTimestamp

/-- Gathers a node, unless that was done. -/
def visit (id : Nat) : Gather Unit := do
  if (← datum? id).isSome then return ()
  match (← get).graph.tag id with
  | .null => putScalar id fun _ => .ok .null
  | .bool => putScalar id Datum.readBool
  | .int => putScalar id Datum.readInt
  | .float => putScalar id Datum.readFloat
  | .binary => putScalar id Datum.readBytes
  | .timestamp => putTimestamp id
  | .str => putScalar id fun s => .ok (.text s)
  | .seq => putOpen id (.list [])
  | .pairs => putOpen id (.pairs [])
  | .set => putOpen id (.set [])
  | .map => putOpen id (.dict [])
  | .merge | .value | .unknown => throw .malformed

def visitAll : List Nat → Gather Unit
  | [] => return ()
  | id :: ids => do
    visit id
    visitAll ids

/-- The one entry of each item. -/
def visitPairs : List Nat → Gather (List (Nat × Nat))
  | [] => return []
  | item :: items => do
    match (← get).graph.content item with
    | .entries [(key, value)] =>
      visit key
      visit value
      return (key, value) :: (← visitPairs items)
    | _ => throw .malformed

/-- Sets an entry; of two keys that are the same the first one stays, with the last value. -/
def setEntry (isSame : Nat → Bool) (key value : Nat) : List (Nat × Nat) → List (Nat × Nat)
  | [] => [(key, value)]
  | (k, v) :: rest =>
    if isSame k then (k, value) :: rest else (k, v) :: setEntry isSame key value rest

/-- Gathers the entries of a mapping behind some others. -/
def visitEntries : List (Nat × Nat) → List (Nat × Nat) → Gather (List (Nat × Nat))
  | done, [] => return done
  | done, (key, value) :: rest => do
    visit key
    match ← datum? key with
    | some k =>
      if !k.isKey then throw .malformed
      visit value
      let data := (← get).data
      let isSame (other : Nat) : Bool := ((data[other]?).join).any (·.sameKey k)
      visitEntries (setEntry isSame key value done) rest
    | none => throw .malformed

def mappingEntries (id : Nat) : Gather (List (Nat × Nat)) := do
  match (← get).graph.content id with
  | .entries _ =>
    let s ← get
    let (_, graph) ← ((Graph.merge id).run s.graph : Except Fault _)
    set { s with graph }
    visitEntries [] (graph.entries id)
  | _ => throw .malformed

def listItems (id : Nat) : Gather (List Nat) := do
  match (← get).graph.content id with
  | .items items => return items
  | _ => throw .malformed

/-- Gathers the parts of a collection. -/
def fill (id : Nat) : Gather Unit := do
  match ← datum? id with
  | some (.list _) =>
    let items ← listItems id
    visitAll items
    put id (.list items)
  | some (.pairs _) => put id (.pairs (← visitPairs (← listItems id)))
  | some (.set _) => put id (.set ((← mappingEntries id).map Prod.fst))
  | some (.dict _) => put id (.dict (← mappingEntries id))
  | _ => return ()

/-- Gathers the parts of all collections in the order in which they were met. The number bounds
them. -/
def fillAll : Nat → Gather Unit
  | 0 => return ()
  | n + 1 => do
    match (← get).unfilled with
    | [] => return ()
    | id :: rest =>
      modify fun s => { s with unfilled := rest }
      fill id
      fillAll n

end Gather

/-! ### Documents -/

/-- The data of a document by the numbers of their nodes, and the root. -/
structure Document where
  data : Array (Option Datum)
  root : Nat
  deriving Inhabited

namespace Document

/-- What a node stands for. -/
def datum (doc : Document) (id : Nat) : Datum := ((doc.data[id]?).join).getD .null

/-- How a node is shown inside another one. A collection inside itself is shown by points; the
collections around the node are given. The number bounds their depth. -/
def shown (doc : Document) : Nat → List Nat → Nat → Except NumberError String
  | 0, _, _ => .ok ""
  | n + 1, around, id =>
    let inside : Nat → Except NumberError String := shown doc n (id :: around)
    let pair (divider : String) (entry : Nat × Nat) : Except NumberError String := do
      let key ← inside entry.1
      return key ++ divider ++ (← inside entry.2)
    let collection (opening closing : String) (parts : Except NumberError (List String)) :
        Except NumberError String :=
      if around.contains id then .ok (opening ++ "..." ++ closing)
      else do return opening ++ String.intercalate ", " (← parts) ++ closing
    match doc.datum id with
    | .null => .ok "None"
    | .bool b => .ok (if b then "True" else "False")
    | .int n => Number.intText n
    | .float x => .ok x.toText
    | .text s => .ok (Text.quoted s)
    | .bytes bs => .ok (Datum.shownBytes bs)
    | .date d => .ok d.shown
    | .time t => .ok t.shown
    | .list items => collection "[" "]" (items.mapM inside)
    | .pairs es =>
      collection "[" "]" (es.mapM fun e => do return "(" ++ (← pair ", " e) ++ ")")
    | .dict es => collection "\x7b" "\x7d" (es.mapM (pair ": "))
    | .set [] => .ok "set()"
    | .set keys => collection "\x7b" "\x7d" (keys.mapM inside)

/-- How a node is shown by itself. -/
def shownAlone (doc : Document) (id : Nat) : Except NumberError String :=
  doc.shown (doc.data.size + 2) [] id

/-- A node as plain text: strings, dates and times as they are, all else as it is shown. -/
def display (doc : Document) (id : Nat) : Except NumberError String :=
  match doc.datum id with
  | .text s => .ok s
  | .date d => .ok d.text
  | .time t => .ok t.text
  | _ => doc.shownAlone id

def itemTexts? (doc : Document) (id : Nat) : Option (List (Except NumberError String)) :=
  match doc.datum id with
  | .list items => some (items.map doc.display)
  | .pairs es =>
    some (es.map fun (key, value) => do
      let k ← doc.shownAlone key
      let v ← doc.shownAlone value
      return "(" ++ k ++ ", " ++ v ++ ")")
  | _ => none

/-- The nodes under the keys of a mapping that are strings. -/
def textEntries? (doc : Document) : Option (List (String × Nat)) :=
  match doc.datum doc.root with
  | .dict es =>
    some (es.filterMap fun (key, value) =>
      match doc.datum key with
      | .text s => some (s, value)
      | _ => none)
  | _ => none

def ofGraph (graph : Graph) (root : Nat) : Except Fault Document := do
  let start : Gathering := { graph, data := Array.replicate graph.size none }
  let gather : Gather Unit := do
    Gather.visit root
    Gather.fillAll (graph.size + 1)
  let (_, s) ← gather.run start
  return { data := s.data, root }

def ofText (text : List Char) : Except Fault Document :=
  if text.all isAllowed then do
    match ← Graph.ofText text with
    | (graph, some root) => ofGraph graph root
    | (_, none) => return { data := #[some .null], root := 0 }
  else .error .malformed

end Document

end UiScript.Yaml
