import Mathlib.Data.List.Basic
import UiScript.Value.Dict

/-!
# Documents

A document consists of the nodes that were made so far, each known by its number, and of the
variables of the script that builds it. The operations are those that scripts build markup with: an
element is created, is given attributes, and is put at the end of another node, as are texts. An
operation fails where the script would.
-/

namespace UiScript.Dom

open List

open Option (bind_eq_some_iff)

/-- What a node has of its own. A fragment only holds other nodes. -/
inductive Content where
  | fragment
  | text (value : String)
  | element (tag : String) (attributes : Dict String)
  deriving DecidableEq, Inhabited

/-- A node with the node around it, if there is one, and the nodes inside it in order. -/
structure Cell where
  content : Content
  parent : Option Nat := none
  children : List Nat := []
  deriving DecidableEq, Inhabited

structure Document where
  cells : List Cell := []
  bindings : Dict Nat := []
  deriving DecidableEq, Inhabited

inductive Operation where
  /-- Declares a variable for a new element. -/
  | create (var tag : String)
  | setAttribute (var name value : String)
  | appendText (var value : String)
  /-- Puts a node at the end of another one. -/
  | append (var child : String)
  deriving DecidableEq, Inhabited

namespace Content

def isText : Content → Bool
  | .text _ => true
  | _ => false

def isFragment : Content → Bool
  | .fragment => true
  | _ => false

def setAttribute (name value : String) : Content → Option Content
  | .element tag attributes => some (.element tag (Dict.set name value attributes))
  | _ => none

end Content

namespace Cell

def withContent (c : Cell) (content : Content) : Cell := { c with content }

def within (c : Cell) (p : Nat) : Cell := { c with parent := some p }

def addChild (c : Cell) (i : Nat) : Cell := { c with children := c.children ++ [i] }

def dropChild (c : Cell) (i : Nat) : Cell := { c with children := c.children.erase i }

end Cell

namespace Document

section

variable (doc : Document)

/-- The node that a variable stands for. -/
def lookup (var : String) : Option Nat := Dict.get? doc.bindings var

/-- The node around a node. -/
def parent? (i : Nat) : Option Nat := doc.cells[i]?.bind Cell.parent

/-- The nodes from a node outwards; the first number bounds how many. -/
def outwards : Nat → Nat → List Nat
  | 0, _ => []
  | bound + 1, i => i :: (doc.parent? i).elim [] (outwards bound)

/-- Adds a node that stands alone. -/
def push (content : Content) : Document :=
  { doc with cells := doc.cells ++ [{ content }] }

/-- Lets a variable stand for a node. -/
def declare (var : String) (i : Nat) : Document :=
  { doc with bindings := Dict.set var i doc.bindings }

/-- Changes one node. -/
def update (i : Nat) (f : Cell → Cell) : Document :=
  { doc with cells := doc.cells.modify i f }

/-- Takes a node out of the node around it. -/
def detach (i : Nat) : Document :=
  match doc.parent? i with
  | some q => doc.update q (·.dropChild i)
  | none => doc

/-- Puts the node `i`, which stands alone, at the end of the node `p`. -/
def place (p i : Nat) : Document :=
  (doc.update i (·.within p)).update p (·.addChild i)

/-- Puts the node `i` at the end of the node `p`, wherever it was before. A text holds no nodes, and
nothing is put into itself; what becomes of a fragment that is put into a node is left open. -/
def insert (p i : Nat) : Option Document := do
  let outer ← doc.cells[p]?
  let inner ← doc.cells[i]?
  if outer.content.isText || inner.content.isFragment ||
      (doc.outwards doc.cells.length p).contains i then none
  else return (doc.detach i).place p i

/-- Applies an operation. A variable is declared once. -/
def apply : Operation → Option Document
  | .create var tag =>
    if (doc.lookup var).isSome then none
    else some ((doc.push (.element tag [])).declare var doc.cells.length)
  | .setAttribute var name value => do
    let i ← doc.lookup var
    let cell ← doc.cells[i]?
    let content ← cell.content.setAttribute name value
    return doc.update i (·.withContent content)
  | .appendText var value => do
    let p ← doc.lookup var
    (doc.push (.text value)).insert p doc.cells.length
  | .append var child => do
    let p ← doc.lookup var
    let i ← doc.lookup child
    doc.insert p i

/-- Applies operations in order. -/
def applyAll (operations : List Operation) : Option Document :=
  operations.foldlM apply doc

end

variable {doc : Document} {var : String} {c : Cell}

lemma applyAll_cons {doc' : Document} {operation : Operation} {operations : List Operation}
    (h : doc.apply operation = some doc') :
    doc.applyAll (operation :: operations) = doc'.applyAll operations := by
  rw [applyAll, foldlM_cons, h]
  rfl

lemma applyAll_append {doc' : Document} {before after : List Operation}
    (h : doc.applyAll before = some doc') :
    doc.applyAll (before ++ after) = doc'.applyAll after := by
  rw [applyAll] at h
  rw [applyAll, foldlM_append, h]
  rfl

/-! ### Changes of one node -/

section Update

variable {doc : Document} {i j : Nat} {f : Cell → Cell} {content : Content}

@[simp] lemma length_push : (doc.push content).cells.length = doc.cells.length + 1 :=
  length_append

@[simp] lemma length_update : (doc.update i f).cells.length = doc.cells.length :=
  length_modify ..

@[simp] lemma lookup_update : (doc.update i f).lookup var = doc.lookup var := rfl

lemma lookup_declare_self : (doc.declare var i).lookup var = some i :=
  Dict.get?_set_self ..

lemma lookup_declare_of_ne {other : String} (h : other ≠ var) :
    (doc.declare var i).lookup other = doc.lookup other :=
  Dict.get?_set_of_ne h ..

lemma cell_push_of_lt (h : j < doc.cells.length) :
    (doc.push content).cells[j]? = doc.cells[j]? :=
  getElem?_append_left h

lemma cell_push_self : (doc.push content).cells[doc.cells.length]? = some { content } := by
  simp [push]

lemma cell_update_of_ne (h : i ≠ j) : (doc.update i f).cells[j]? = doc.cells[j]? := by
  simp [update, h]

lemma cell_update_self (h : doc.cells[i]? = some c) : (doc.update i f).cells[i]? = some (f c) := by
  simp [update, h]

lemma cells_update_push :
    ((doc.push content).update doc.cells.length f).cells = doc.cells ++ [f { content }] := by
  simp [update, push, modify_eq_set_getElem?]

lemma update_self (h : doc.cells[i]? = some c) : doc.update i (fun _ => c) = doc := by
  have hcells : doc.cells.modify i (fun _ => c) = doc.cells := by
    refine ext_getElem? fun j => ?_
    by_cases hj : i = j
    · subst hj
      rw [h]
      exact cell_update_self h
    · exact cell_update_of_ne hj
  rw [update, hcells]

lemma update_update : (doc.update i f).update i (fun _ => c) = doc.update i fun _ => c := by
  simp only [update, modify_modify_eq]
  rfl

lemma parent?_push : (doc.push content).parent? j = doc.parent? j := by
  rcases Nat.lt_trichotomy j doc.cells.length with hlt | rfl | hgt
  · rw [parent?, cell_push_of_lt hlt, parent?]
  · rw [parent?, cell_push_self, parent?, getElem?_eq_none (Nat.le_refl _)]
    rfl
  · rw [parent?, parent?, getElem?_eq_none (Nat.le_of_lt hgt),
      getElem?_eq_none (by rw [length_push]; exact hgt)]

lemma parent?_update (h : ∀ c, (f c).parent = c.parent) :
    (doc.update i f).parent? j = doc.parent? j := by
  by_cases hj : i = j
  · subst hj
    cases hc : doc.cells[i]? with
    | none => simp [parent?, update, hc]
    | some => rw [parent?, cell_update_self hc, parent?, hc, Option.bind_some, Option.bind_some, h]
  · rw [parent?, cell_update_of_ne hj, parent?]

@[simp] lemma parent?_detach : (doc.detach i).parent? j = doc.parent? j := by
  unfold detach
  split
  · exact parent?_update fun _ => rfl
  · rfl

@[simp] lemma length_detach : (doc.detach i).cells.length = doc.cells.length := by
  unfold detach
  split
  · exact length_update
  · rfl

lemma detach_of_parent (h : doc.parent? i = none) : doc.detach i = doc := by
  rw [detach, h]

end Update

section Place

variable {doc : Document} {p i j : Nat} {c : Cell}

@[simp] lemma length_place : (doc.place p i).cells.length = doc.cells.length := by simp [place]

@[simp] lemma lookup_place : (doc.place p i).lookup var = doc.lookup var := rfl

lemma cell_place_outer (hne : i ≠ p) (h : doc.cells[p]? = some c) :
    (doc.place p i).cells[p]? = some (c.addChild i) :=
  cell_update_self ((cell_update_of_ne hne).trans h)

lemma cell_place_inner (hne : i ≠ p) (h : doc.cells[i]? = some c) :
    (doc.place p i).cells[i]? = some (c.within p) :=
  (cell_update_of_ne hne.symm).trans (cell_update_self h)

lemma cell_place_of_ne (hp : j ≠ p) (hi : j ≠ i) : (doc.place p i).cells[j]? = doc.cells[j]? :=
  (cell_update_of_ne hp.symm).trans (cell_update_of_ne hi.symm)

end Place

/-! ### The nodes around others are there -/

/-- The nodes that stand around others are nodes of the document. -/
def Closed (doc : Document) : Prop := ∀ i, ∀ q ∈ doc.parent? i, q < doc.cells.length

namespace Closed

variable {doc doc' : Document} {i p : Nat}

lemma push (h : doc.Closed) (content : Content) : (doc.push content).Closed := by
  intro j q hq
  rw [parent?_push] at hq
  rw [length_push]
  exact Nat.lt_succ_of_lt (h j q hq)

lemma update (h : doc.Closed) {f : Cell → Cell} (hf : ∀ c, (f c).parent = c.parent) :
    (doc.update i f).Closed := by
  intro j q hq
  rw [parent?_update hf] at hq
  rw [length_update]
  exact h j q hq

lemma within (h : doc.Closed) (hp : p < doc.cells.length) : (doc.update i (·.within p)).Closed := by
  intro j q hq
  rw [length_update]
  by_cases hj : i = j
  · subst hj
    obtain ⟨c, hc, hq⟩ := bind_eq_some_iff.mp hq
    obtain ⟨c, -, rfl⟩ : ∃ d, doc.cells[i]? = some d ∧ d.within p = c := by
      simpa [Document.update] using hc
    exact Option.some.inj hq ▸ hp
  · rw [parent?, cell_update_of_ne hj] at hq
    exact h j q hq

lemma detach (h : doc.Closed) : (doc.detach i).Closed := by
  intro j q hq
  rw [parent?_detach] at hq
  rw [length_detach]
  exact h j q hq

lemma insert (h : doc.Closed) (hinsert : doc.insert p i = some doc') : doc'.Closed := by
  obtain ⟨outer, hp, hinsert⟩ := bind_eq_some_iff.mp hinsert
  obtain ⟨inner, -, hinsert⟩ := bind_eq_some_iff.mp hinsert
  obtain ⟨hlt, -⟩ := List.getElem?_eq_some_iff.mp hp
  split at hinsert
  · cases hinsert
  · obtain rfl := Option.some.inj hinsert
    exact (h.detach.within (by simpa using hlt)).update fun _ => rfl

lemma apply (h : doc.Closed) {operation : Operation} (happly : doc.apply operation = some doc') :
    doc'.Closed := by
  cases operation with
  | create =>
    rw [Document.apply] at happly
    split at happly
    · cases happly
    · obtain rfl := Option.some.inj happly
      exact h.push _
  | setAttribute =>
    obtain ⟨i, -, happly⟩ := bind_eq_some_iff.mp happly
    obtain ⟨cell, -, happly⟩ := bind_eq_some_iff.mp happly
    obtain ⟨content, -, happly⟩ := bind_eq_some_iff.mp happly
    obtain rfl := Option.some.inj happly
    exact h.update fun _ => rfl
  | appendText =>
    obtain ⟨p, -, happly⟩ := bind_eq_some_iff.mp happly
    exact (h.push _).insert happly
  | append =>
    obtain ⟨p, -, happly⟩ := bind_eq_some_iff.mp happly
    obtain ⟨i, -, happly⟩ := bind_eq_some_iff.mp happly
    exact h.insert happly

lemma applyAll (h : doc.Closed) {operations : List Operation}
    (happly : doc.applyAll operations = some doc') : doc'.Closed := by
  induction operations generalizing doc with
  | nil => exact Option.some.inj happly ▸ h
  | cons operation operations ih =>
    obtain ⟨next, hnext, hrest⟩ := bind_eq_some_iff.mp happly
    exact ih (h.apply hnext) hrest

end Closed

/-- Outwards from a node there are only older ones, as long as these stand inside older ones. -/
lemma outwards_lt {n : Nat} (h : ∀ i < n, ∀ q ∈ doc.parent? i, q < n)
    (bound : Nat) {i : Nat} (hi : i < n) : ∀ j ∈ doc.outwards bound i, j < n := by
  induction bound generalizing i with
  | zero => exact nofun
  | succ bound ih =>
    refine forall_mem_cons.mpr ⟨hi, ?_⟩
    cases hq : doc.parent? i with
    | none => exact nofun
    | some q => exact ih (h i hi q hq)

/-- A node that was made after all nodes of `old` can be put into any of these but texts. -/
lemma insert_new {old : Document} (hclosed : old.Closed)
    (hsame : ∀ i < old.cells.length, doc.cells[i]? = old.cells[i]?) {p : Nat} {outer inner : Cell}
    (hp : old.cells[p]? = some outer) (houter : outer.content.isText = false)
    (hi : doc.cells[old.cells.length]? = some inner) (hinner : inner.content.isFragment = false)
    (halone : inner.parent = none) :
    doc.insert p old.cells.length = some (doc.place p old.cells.length) := by
  obtain ⟨hlt, -⟩ := List.getElem?_eq_some_iff.mp hp
  have hparents : ∀ i < old.cells.length, ∀ q ∈ doc.parent? i, q < old.cells.length := by
    intro i hi q hq
    rw [parent?, hsame i hi] at hq
    exact hclosed i q hq
  have hout : old.cells.length ∉ doc.outwards doc.cells.length p := fun hmem =>
    absurd (outwards_lt hparents _ hlt _ hmem) (Nat.lt_irrefl _)
  have hdetach : doc.detach old.cells.length = doc :=
    detach_of_parent (by rw [parent?, hi, Option.bind_some, halone])
  rw [insert, hsame p hlt, hp, hi]
  simp [houter, hinner, hout, hdetach]

/-- The attributes of an element are those that it was given, if their names are different. -/
lemma applyAll_setAttributes {tag : String} {i : Nat}
    {attributes entries : Dict String} (hvar : doc.lookup var = some i)
    (hcell : doc.cells[i]? = some c) (hc : c.content = .element tag attributes)
    (hkeys : (Dict.keys (attributes ++ entries)).Nodup) :
    doc.applyAll (entries.map fun e => .setAttribute var e.1 e.2) =
      some (doc.update i fun _ => c.withContent (.element tag (attributes ++ entries))) := by
  induction entries generalizing doc c attributes with
  | nil =>
    rw [append_nil, ← hc, Cell.withContent]
    exact congrArg some (update_self hcell).symm
  | cons e entries ih =>
    have hnew := Dict.notMem_keys_of_nodup hkeys
    have hstep : doc.apply (.setAttribute var e.1 e.2) =
        some (doc.update i (·.withContent (.element tag (attributes ++ [e])))) := by
      simp [apply, hvar, hcell, hc, Content.setAttribute, Dict.set_of_notMem hnew]
    have hcell' : (doc.update i (·.withContent (.element tag (attributes ++ [e])))).cells[i]? =
        some (c.withContent (.element tag (attributes ++ [e]))) := cell_update_self hcell
    have hsplit : attributes ++ e :: entries = attributes ++ [e] ++ entries := by simp
    rw [hsplit] at hkeys ⊢
    have hrest := ih (lookup_update.trans hvar) hcell' rfl hkeys
    rw [update_update] at hrest
    rw [map_cons, applyAll_cons hstep]
    exact hrest

end Document

end UiScript.Dom
