import Mathlib.Data.List.Forall2
import UiScript.Proofs.Dom.Statement
import UiScript.Render

/-!
# Building static markup

Static markup consists of texts and of elements with attributes that are known beforehand. It is
built inside a node by operations that create each element, give it its attributes, build what is
inside it and append it. Each element has a variable of its own, with a number that counts on, so
that no variable is declared twice and every node is appended to the right one.
-/

namespace UiScript.Dom

open List

/-- Attributes with different names. One that is written alone has no value. -/
structure Attributes where
  entries : List (String × Option String)
  nodup : (entries.map Prod.fst).Nodup

/-- The attributes of an element in a document: one that is written alone has the empty value. -/
def Attributes.values (attributes : Attributes) : Dict String :=
  attributes.entries.map fun e => (e.1, e.2.getD "")

/-- Texts and elements, one after the other. -/
inductive Static where
  | nil
  | text (value : String) (rest : Static)
  | element (tag : String) (attributes : Attributes) (selfClosing : Bool) (inner rest : Static)

namespace Static

/-- How many nodes there are. -/
def size : Static → Nat
  | .nil => 0
  | .text _ rest => 1 + rest.size
  | .element _ _ _ inner rest => 1 + inner.size + rest.size

def elements : Static → Nat
  | .nil => 0
  | .text _ rest => rest.elements
  | .element _ _ _ inner rest => 1 + inner.elements + rest.elements

/-- The tags and the names of attributes. -/
def names : Static → List String
  | .nil => []
  | .text _ rest => rest.names
  | .element tag attributes _ inner rest =>
    tag :: attributes.entries.map Prod.fst ++ inner.names ++ rest.names

lemma forall_names_element {P : String → Prop} {tag : String} {attributes : Attributes}
    {selfClosing : Bool} {inner rest : Static} :
    (∀ name ∈ (element tag attributes selfClosing inner rest).names, P name) ↔
      P tag ∧ (∀ e ∈ attributes.entries, P e.1) ∧ (∀ name ∈ inner.names, P name) ∧
        ∀ name ∈ rest.names, P name := by
  simp only [names, forall_mem_append, forall_mem_cons, forall_mem_map, and_assoc]

def append : Static → Static → Static
  | .nil, t => t
  | .text value rest, t => .text value (rest.append t)
  | .element tag attributes selfClosing inner rest, t =>
    .element tag attributes selfClosing inner (rest.append t)

lemma size_append (s t : Static) : (s.append t).size = s.size + t.size := by
  induction s with
  | nil => simp [append, size]
  | text value rest ih => simp only [append, size, ih, Nat.add_assoc]
  | element tag attributes selfClosing inner rest _ ih =>
    simp only [append, size, ih, Nat.add_assoc]

lemma elements_append (s t : Static) : (s.append t).elements = s.elements + t.elements := by
  induction s with
  | nil => simp [append, elements]
  | text value rest ih => simp only [append, elements, ih]
  | element tag attributes selfClosing inner rest _ ih =>
    simp only [append, elements, ih, Nat.add_assoc]

end Static

/-! ### What a document shows -/

/-- The nodes with some numbers show static markup inside the node `p`. Their numbers are at least
`low`, each node comes before those inside it and behind it, and each knows the node around it. -/
inductive Shows (cells : List Cell) : Nat → Nat → List Nat → Static → Prop
  | nil {low p : Nat} : Shows cells low p [] .nil
  | text {low p i : Nat} {is : List Nat} {value : String} {rest : Static} (hlow : low ≤ i)
      (hcell : cells[i]? = some ⟨.text value, some p, []⟩) (hrest : Shows cells (i + 1) p is rest) :
      Shows cells low p (i :: is) (.text value rest)
  | element {low p i : Nat} {inside is : List Nat} {tag : String} {attributes : Attributes}
      {selfClosing : Bool} {inner rest : Static} (hlow : low ≤ i)
      (hcell : cells[i]? = some ⟨.element tag attributes.values, some p, inside⟩)
      (hinner : Shows cells (i + 1) i inside inner) (hrest : Shows cells (i + 1) p is rest) :
      Shows cells low p (i :: is) (.element tag attributes selfClosing inner rest)

namespace Shows

variable {cells : List Cell} {low p : Nat} {is : List Nat} {t : Static}

lemma of_le {low' : Nat} (h : Shows cells low p is t) (hlow : low' ≤ low) :
    Shows cells low' p is t := by
  cases h with
  | nil => exact .nil
  | text hi hcell hrest => exact .text (Nat.le_trans hlow hi) hcell hrest
  | element hi hcell hinner hrest => exact .element (Nat.le_trans hlow hi) hcell hinner hrest

/-- What a document shows depends on the nodes from the least number on. -/
lemma frame {cells' : List Cell} (h : Shows cells low p is t)
    (hsame : ∀ i c, low ≤ i → cells[i]? = some c → cells'[i]? = some c) :
    Shows cells' low p is t := by
  induction h with
  | nil => exact .nil
  | text hlow hcell _ ih =>
    exact .text hlow (hsame _ _ hlow hcell) (ih fun i c hi => hsame i c (by omega))
  | element hlow hcell _ _ ihinner ihrest =>
    exact .element hlow (hsame _ _ hlow hcell) (ihinner fun i c hi => hsame i c (by omega))
      (ihrest fun i c hi => hsame i c (by omega))

/-- What is shown behind other markup is made of later nodes. -/
lemma append {low' : Nat} {js : List Nat} {t' : Static} (h : Shows cells low p is t)
    (his : ∀ i ∈ is, i < low') (hlow : low ≤ low') (h' : Shows cells low' p js t') :
    Shows cells low p (is ++ js) (t.append t') := by
  induction h with
  | nil => exact h'.of_le hlow
  | text hi hcell _ ih =>
    obtain ⟨hlt, his⟩ := forall_mem_cons.mp his
    exact .text hi hcell (ih his hlt h')
  | element hi hcell hinner _ _ ih =>
    obtain ⟨hlt, his⟩ := forall_mem_cons.mp his
    exact .element hi hcell hinner (ih his hlt h')

lemma lt_length (h : Shows cells low p is t) : ∀ i ∈ is, i < cells.length := by
  induction h with
  | nil => exact nofun
  | text _ hcell _ ih =>
    exact forall_mem_cons.mpr ⟨(List.getElem?_eq_some_iff.mp hcell).1, ih⟩
  | element _ hcell _ _ _ ih =>
    exact forall_mem_cons.mpr ⟨(List.getElem?_eq_some_iff.mp hcell).1, ih⟩

end Shows

/-! ### The variables of elements -/

def elementName (k : Nat) : String := s!"__e{k}"

lemma elementName_toList (k : Nat) :
    (elementName k).toList = '_' :: '_' :: 'e' :: Nat.toDigits 10 k := by
  simp only [elementName, String.toList_append, Nat.toString_eq_repr, Nat.toList_repr]
  rfl

variable {k : Nat} {doc : Document} {parent : String}

lemma elementName_injective {l : Nat} (h : elementName k = elementName l) : k = l := by
  have hlist := congrArg String.toList h
  rw [elementName_toList, elementName_toList] at hlist
  have hdigits : Nat.toDigits 10 k = Nat.toDigits 10 l := by simpa using hlist
  calc
    k = Nat.ofDigitChars 10 (Nat.toDigits 10 k) 0 := Nat.ofDigitChars_ten_toDigits.symm
    _ = Nat.ofDigitChars 10 (Nat.toDigits 10 l) 0 := by rw [hdigits]
    _ = l := Nat.ofDigitChars_ten_toDigits

lemma isVariable_elementName (k : Nat) : isVariable (elementName k) := by
  have hdigits : (Nat.toDigits 10 k).all Script.isKeyChar := by
    refine all_eq_true.mpr fun c hc => ?_
    have hdigit : '0' ≤ c && c ≤ '9' := Token.isAsciiDigit_of_mem hc
    simp [Script.isKeyChar, hdigit]
  have hall : ('_' :: 'e' :: Nat.toDigits 10 k).all Script.isKeyChar := by
    rw [all_cons, all_cons, hdigits]
    rfl
  simp only [isVariable, elementName_toList, hall, Bool.and_true]
  rfl

/-- The variable `parent` stands for the node `p`, which can hold other nodes, and no variable of an
element from the number `k` on is declared yet. -/
structure Ready (doc : Document) (parent : String) (p k : Nat) : Prop where
  closed : doc.Closed
  lookup : doc.lookup parent = some p
  holds : ∃ c, doc.cells[p]? = some c ∧ c.content.isText = false
  fresh : ∀ l, k ≤ l → doc.lookup (elementName l) = none

lemma Ready.ne_elementName {p : Nat}
    (h : Ready doc parent p k) {l : Nat} (hl : k ≤ l) : parent ≠ elementName l := by
  rintro rfl
  exact absurd (h.lookup.symm.trans (h.fresh l hl)) nofun

lemma Ready.lt_length {p : Nat} (h : Ready doc parent p k) : p < doc.cells.length := by
  obtain ⟨c, hc, -⟩ := h.holds
  exact (List.getElem?_eq_some_iff.mp hc).1

/-! ### Building static markup -/

/-- The operations that build static markup inside the node of a variable. Elements are numbered
from `k` on. -/
def Static.operations (parent : String) (k : Nat) : Static → List Operation
  | .nil => []
  | .text value rest => .appendText parent value :: rest.operations parent k
  | .element tag attributes _ inner rest =>
    .create (elementName k) tag ::
      (attributes.values.map (fun e => .setAttribute (elementName k) e.1 e.2) ++
        (inner.operations (elementName k) (k + 1) ++
          .append parent (elementName k) :: rest.operations parent (k + 1 + inner.elements)))

/-- `doc'` is `doc` with static markup at the end of the node `p`, made of new nodes. The outermost
of these have the numbers `is`, and variables are declared for the elements from `k` on. -/
structure Built (doc : Document) (p k : Nat) (t : Static) (is : List Nat) (doc' : Document) :
    Prop where
  /-- The node is given new children. -/
  parent : ∀ c, doc.cells[p]? = some c →
    doc'.cells[p]? = some { c with children := c.children ++ is }
  /-- Every other node is as before. -/
  others : ∀ i < doc.cells.length, i ≠ p → doc'.cells[i]? = doc.cells[i]?
  length : doc'.cells.length = doc.cells.length + t.size
  shows : Shows doc'.cells doc.cells.length p is t
  /-- Every other variable is as before. -/
  lookup : ∀ var, (∀ l, k ≤ l → l < k + t.elements → var ≠ elementName l) →
    doc'.lookup var = doc.lookup var

namespace Built

variable {doc doc' doc'' : Document} {p k : Nat} {s t : Static} {is js : List Nat}

lemma nil : Built doc p k .nil [] doc where
  parent c hc := by simpa using hc
  others _ _ _ := rfl
  length := rfl
  shows := .nil
  lookup _ _ := rfl

lemma length_le (h : Built doc p k s is doc') : doc.cells.length ≤ doc'.cells.length := by
  rw [h.length]
  exact Nat.le_add_right _ _

/-- Markup is built behind other markup. -/
lemma append (h : Built doc p k s is doc') (h' : Built doc' p (k + s.elements) t js doc'')
    (hp : p < doc.cells.length) : Built doc p k (s.append t) (is ++ js) doc'' where
  parent c hc := by
    rw [h'.parent _ (h.parent c hc), append_assoc]
  others i hi hne := (h'.others i (Nat.lt_of_lt_of_le hi h.length_le) hne).trans (h.others i hi hne)
  length := by rw [h'.length, h.length, Static.size_append, Nat.add_assoc]
  shows := by
    refine (h.shows.frame fun i c hi hc => ?_).append h.shows.lt_length h.length_le h'.shows
    rw [h'.others i (List.getElem?_eq_some_iff.mp hc).1 (by omega), hc]
  lookup var hvar := by
    rw [Static.elements_append] at hvar
    rw [h'.lookup var fun l hl hlt => hvar l (by omega) (by omega),
      h.lookup var fun l hl hlt => hvar l hl (by omega)]

/-- More markup can be built behind what was built. -/
lemma ready (h : Built doc p k s is doc') (hready : Ready doc parent p k)
    (hclosed : doc'.Closed) : Ready doc' parent p (k + s.elements) where
  closed := hclosed
  lookup := by
    rw [h.lookup parent fun l hl _ => hready.ne_elementName hl]
    exact hready.lookup
  holds := by
    obtain ⟨c, hc, hholds⟩ := hready.holds
    exact ⟨_, h.parent c hc, hholds⟩
  fresh l hl := by
    rw [h.lookup _ fun m _ hm heq => absurd (elementName_injective heq) (by omega)]
    exact hready.fresh l (by omega)

end Built

lemma Static.operations_append (parent : String) (k : Nat) (s t : Static) :
    (s.append t).operations parent k =
      s.operations parent k ++ t.operations parent (k + s.elements) := by
  induction s generalizing k with
  | nil => rfl
  | text value rest ih => simp only [append, operations, ih, elements, cons_append]
  | element tag attributes selfClosing inner rest _ ih =>
    simp only [append, operations, ih, elements, cons_append, append_assoc,
      Nat.add_assoc]

/-- The operations of static markup build it wherever there is a node for it. -/
def Static.Buildable (t : Static) : Prop :=
  ∀ doc parent p k, Ready doc parent p k →
    ∃ is doc', doc.applyAll (t.operations parent k) = some doc' ∧ Built doc p k t is doc'

namespace Static.Buildable

lemma append {s t : Static} (hs : s.Buildable) (ht : t.Buildable) : (s.append t).Buildable := by
  intro doc parent p k hready
  obtain ⟨is, doc', happly, hbuilt⟩ := hs doc parent p k hready
  obtain ⟨js, doc'', happly', hbuilt'⟩ := ht doc' parent p (k + s.elements)
    (hbuilt.ready hready (hready.closed.applyAll happly))
  refine ⟨is ++ js, doc'', ?_, hbuilt.append hbuilt' hready.lt_length⟩
  rw [operations_append, Document.applyAll_append happly, happly']

lemma text (value : String) : (Static.text value .nil).Buildable := by
  intro doc parent p k hready
  obtain ⟨c, hcell, hholds⟩ := hready.holds
  have hlt := hready.lt_length
  have hne : doc.cells.length ≠ p := (Nat.ne_of_lt hlt).symm
  have hinsert : (doc.push (.text value)).insert p doc.cells.length =
      some ((doc.push (.text value)).place p doc.cells.length) :=
    Document.insert_new hready.closed (fun _ => Document.cell_push_of_lt) hcell hholds
      Document.cell_push_self rfl rfl
  refine ⟨[doc.cells.length], (doc.push (.text value)).place p doc.cells.length, ?_, ?_⟩
  · simp [operations, Document.applyAll, Document.apply, hready.lookup, hinsert]
  · constructor
    case parent =>
      exact fun c hc =>
        Document.cell_place_outer hne ((Document.cell_push_of_lt hlt).trans hc)
    case others =>
      exact fun i hi hip => (Document.cell_place_of_ne hip (Nat.ne_of_lt hi)).trans
        (Document.cell_push_of_lt hi)
    case length => simp [Static.size]
    case shows =>
      exact .text (Nat.le_refl _) (Document.cell_place_inner hne Document.cell_push_self) .nil
    case lookup => exact fun _ _ => rfl

lemma applyAll_open (hnew : doc.lookup (elementName k) = none)
    (tag : String) (attributes : Attributes) :
    ∃ doc', doc.applyAll (.create (elementName k) tag ::
        attributes.values.map fun e => .setAttribute (elementName k) e.1 e.2) = some doc' ∧
      doc'.cells = doc.cells ++ [{ content := .element tag attributes.values }] ∧
      doc'.lookup (elementName k) = some doc.cells.length ∧
      ∀ var, var ≠ elementName k → doc'.lookup var = doc.lookup var := by
  have hcreate : doc.apply (.create (elementName k) tag) =
      some ((doc.push (.element tag [])).declare (elementName k) doc.cells.length) := by
    simp [Document.apply, hnew]
  have hkeys : (Dict.keys ([] ++ attributes.values)).Nodup := by
    simpa [Attributes.values, Dict.keys, Function.comp_def] using attributes.nodup
  have hvar : ((doc.push (.element tag [])).declare (elementName k) doc.cells.length).lookup
      (elementName k) = some doc.cells.length := Document.lookup_declare_self
  have hset := Document.applyAll_setAttributes hvar Document.cell_push_self rfl hkeys
  refine ⟨_, (Document.applyAll_cons hcreate).trans hset, ?_, ?_, ?_⟩
  · exact Document.cells_update_push
  · exact Document.lookup_declare_self
  · exact fun var hvar => Document.lookup_declare_of_ne hvar

lemma element {inner : Static} (hinner : inner.Buildable) (tag : String) (attributes : Attributes)
    (selfClosing : Bool) : (Static.element tag attributes selfClosing inner .nil).Buildable := by
  intro doc parent p k hready
  obtain ⟨opened, hopen, hcells, hvar, hothers⟩ :=
    applyAll_open (hready.fresh k (Nat.le_refl k)) tag attributes
  have hlength : opened.cells.length = doc.cells.length + 1 := by simp [hcells]
  have hself : opened.cells[doc.cells.length]? =
      some { content := .element tag attributes.values } := by simp [hcells]
  have hold : ∀ i < doc.cells.length, opened.cells[i]? = doc.cells[i]? := by
    intro i hi
    rw [hcells, getElem?_append_left hi]
  have hinside : Ready opened (elementName k) doc.cells.length (k + 1) :=
    { closed := hready.closed.applyAll hopen
      lookup := hvar
      holds := ⟨_, hself, rfl⟩
      fresh := fun l hl => by
        rw [hothers _ fun heq => absurd (elementName_injective heq) (by omega)]
        exact hready.fresh l (by omega) }
  obtain ⟨inside, filled, hfill, hbuilt⟩ := hinner opened _ _ _ hinside
  have hkept : ∀ i < doc.cells.length, filled.cells[i]? = doc.cells[i]? := fun i hi =>
    (hbuilt.others i (by omega) (by omega)).trans (hold i hi)
  have hroot := hbuilt.parent _ hself
  have hparent : filled.lookup parent = some p := by
    rw [hbuilt.lookup parent fun l hl _ => hready.ne_elementName (by omega),
      hothers _ (hready.ne_elementName (Nat.le_refl k)), hready.lookup]
  have hchild : filled.lookup (elementName k) = some doc.cells.length := by
    rw [hbuilt.lookup _ fun l hl _ heq => absurd (elementName_injective heq) (by omega), hvar]
  obtain ⟨c, hcell, hholds⟩ := hready.holds
  have hinsert := Document.insert_new hready.closed hkept hcell hholds hroot rfl rfl
  have hlt := hready.lt_length
  have hne : doc.cells.length ≠ p := (Nat.ne_of_lt hlt).symm
  refine ⟨[doc.cells.length], filled.place p doc.cells.length, ?_, ?_⟩
  · rw [operations, ← cons_append, Document.applyAll_append hopen,
      Document.applyAll_append hfill]
    simp [operations, Document.applyAll, Document.apply, hparent, hchild, hinsert]
  · constructor
    case parent =>
      exact fun c hc => Document.cell_place_outer hne ((hkept p hlt).trans hc)
    case others =>
      exact fun i hi hip => (Document.cell_place_of_ne hip (Nat.ne_of_lt hi)).trans (hkept i hi)
    case length =>
      rw [Document.length_place, hbuilt.length, hlength, size, size]
      omega
    case shows =>
      refine .element (Nat.le_refl _) (Document.cell_place_inner hne hroot) ?_ .nil
      rw [← hlength]
      refine hbuilt.shows.frame fun i c hi hc => ?_
      rw [Document.cell_place_of_ne (by omega) (by omega), hc]
    case lookup =>
      intro var hnames
      rw [elements] at hnames
      rw [Document.lookup_place, hbuilt.lookup var fun l hl hlt => hnames l (by omega) (by omega),
        hothers var (hnames k (Nat.le_refl k) (by omega))]

end Static.Buildable

theorem Static.buildable (t : Static) : t.Buildable := by
  induction t with
  | nil => exact fun doc parent p k _ => ⟨[], doc, rfl, .nil⟩
  | text value rest ih => exact (Buildable.text value).append ih
  | element tag attributes selfClosing inner rest ihinner ihrest =>
    exact (Buildable.element ihinner tag attributes selfClosing).append ihrest

end UiScript.Dom
