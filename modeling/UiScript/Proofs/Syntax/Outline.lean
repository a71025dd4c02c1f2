import UiScript.Proofs.Syntax.Trees
import UiScript.Syntax.Outline

/-!
# The nodes of a tree that can be read

Every node inside a tree that can be read can be read itself, so each is well formed on its own.
Texts and interpolations stand among the children of markup.
-/

namespace UiScript.Node

/-! ### Parts -/

/-- The nodes that a node consists of. -/
def parts : Node → List Node
  | .template _ ps => ps.filterMap fun
    | .text _ => none
    | .hole e => some e
  | .binary _ _ a b | .assign _ a b | .pipe _ a b => [a, b]
  | .unary _ _ a | .interpolation _ a | .expression _ a | .binding _ _ _ _ a | .state _ _ _ a => [a]
  | .call _ callee arguments => callee :: arguments
  | .member _ obj _ _ index => obj :: index.toList
  | .arrow _ params (.block body) => params.filterMap (·.default) ++ body
  | .arrow _ params (.value body) => params.filterMap (·.default) ++ [body]
  | .array _ ns | .block _ ns | .effect _ _ ns | .program _ ns _ => ns
  | .object _ es | .style _ _ es => es.filterMap (·.value)
  | .conditional _ condition consequent alternate => [condition, consequent, alternate]
  | .element _ _ es ns _ | .use _ _ es ns _ => es.filterMap (·.value) ++ ns
  | .returning _ m | .exports _ _ m => m.toList
  | .ifElse _ condition consequent alternate => condition :: consequent ++ alternate.getD []
  | .forEach _ _ iterable body => iterable :: body
  | .component _ _ params body | .function _ _ params _ body => params.filterMap (·.default) ++ body
  | _ => []

def markupChildren : Node → List Node
  | .element _ _ _ children _ | .use _ _ _ children _ => children
  | _ => []

lemma outlineList_append (ns ms : List Node) :
    outlineList (ns ++ ms) = outlineList ns ++ outlineList ms := by
  induction ns with
  | nil => rfl
  | cons n ns ih => rw [List.cons_append, outlineList, ih, outlineList, List.append_assoc]

lemma outlineOption_eq (m : Option Node) : outlineOption m = outlineList m.toList := by
  cases m with
  | none => rfl
  | some => exact (List.append_nil _).symm

lemma outlineEntries_eq (es : List (Entry Node)) :
    outlineEntries es = outlineList (es.filterMap (·.value)) := by
  induction es with
  | nil => rfl
  | cons e es ih =>
    obtain ⟨name, value⟩ := e
    cases value <;> simp [outlineEntries, outlineOption, outlineList, ih]

lemma outlineParams_eq (ps : List (Param Node)) :
    outlineParams ps = outlineList (ps.filterMap (·.default)) := by
  induction ps with
  | nil => rfl
  | cons q ps ih =>
    obtain ⟨name, written, value⟩ := q
    cases value <;> simp [outlineParams, outlineOption, outlineList, ih]

lemma outlineParts_eq (ps : List (Part Node)) :
    outlineParts ps = outlineList (parts (.template none ps)) := by
  induction ps with
  | nil => rfl
  | cons p ps ih =>
    rw [parts] at ih ⊢
    cases p <;> simp [outlineParts, outlineList, ih]

/-- The nodes inside a node are those inside its parts. -/
lemma outline_eq (n : Node) : n.outline = n :: outlineList n.parts := by
  cases n with
  | template => rw [outline, outlineParts_eq, parts, parts]
  | arrow p params body =>
    cases body <;> simp [outline, parts, outlineParams_eq, outlineList_append, outlineList]
  | ifElse p condition consequent alternate =>
    cases alternate <;> simp [outline, parts, outlineList_append, outlineList]
  | _ =>
    simp [outline, parts, outlineList_append, outlineList, outlineOption_eq, outlineEntries_eq,
      outlineParams_eq]

variable {ns : List Node} {n : Node}

lemma mem_outlineList {m : Node} : m ∈ outlineList ns ↔ ∃ n ∈ ns, m ∈ n.outline := by
  induction ns with
  | nil => simp [outlineList]
  | cons n ns ih => simp [outlineList, ih]

lemma mem_outline_self (n : Node) : n ∈ n.outline := by
  rw [outline_eq]
  exact List.mem_cons_self

lemma length_outline_le (h : n ∈ ns) : n.outline.length ≤ (outlineList ns).length := by
  induction ns with
  | nil => cases h
  | cons m ns ih =>
    rw [outlineList, List.length_append]
    rcases List.mem_cons.mp h with rfl | h
    · exact Nat.le_add_right _ _
    · exact Nat.le_trans (ih h) (Nat.le_add_left _ _)

lemma parts_induction {P : Node → Prop} (h : ∀ n : Node, (∀ k ∈ n.parts, P k) → P n) (n : Node) :
    P n := by
  induction hlen : n.outline.length using Nat.strongRecOn generalizing n with
  | _ len ih =>
    refine h n fun k hk => ih _ ?_ k rfl
    rw [← hlen, outline_eq n, List.length_cons]
    exact Nat.lt_succ_of_le (length_outline_le hk)

/-- What passes from each node to its parts passes to all nodes inside. -/
lemma forall_mem_outline {P : Node → Prop} (hparts : ∀ n, P n → ∀ k ∈ n.parts, P k)
    (h : P n) : ∀ m ∈ n.outline, P m := by
  induction n using parts_induction with
  | h n ih =>
    intro m hm
    rw [outline_eq] at hm
    rcases List.mem_cons.mp hm with rfl | hm
    · exact h
    · obtain ⟨k, hk, hmk⟩ := mem_outlineList.mp hm
      exact ih k hk (hparts n h k hk) m hmk

lemma mem_outline_of_part {k m : Node} (hk : k ∈ n.parts) (hm : m ∈ k.outline) : m ∈ n.outline := by
  rw [outline_eq]
  exact List.mem_cons_of_mem _ (mem_outlineList.mpr ⟨k, hk, hm⟩)

/-- The nodes inside a node inside some list are inside that list. -/
lemma mem_outlineList_of_part {k : Node} (hn : n ∈ outlineList ns) (hk : k ∈ n.parts) :
    k ∈ outlineList ns := by
  obtain ⟨root, hroot, hn⟩ := mem_outlineList.mp hn
  have hinside (m : Node) (hm : ∀ k ∈ m.outline, k ∈ root.outline) :
      ∀ j ∈ m.parts, ∀ k ∈ j.outline, k ∈ root.outline :=
    fun j hj k hk => hm k (mem_outline_of_part hj hk)
  have hall := forall_mem_outline (P := fun m => ∀ k ∈ m.outline, k ∈ root.outline) hinside
    (fun _ hk => hk)
  exact mem_outlineList.mpr ⟨root, hroot, hinside n (hall n hn) k hk k (mem_outline_self k)⟩

end UiScript.Node

namespace UiScript.Syntax

open List

/-! ### Nodes that can be read -/

/-- What must hold of a node by itself. -/
def WellFormed : Node → Prop
  | .template _ parts => ∃ e, .hole e ∈ parts
  | .binary _ op _ _ => op ∈ binaryOperators
  | .unary _ op _ => op ∈ unaryOperators
  | .member _ _ _ computed index => computed = index.isSome
  | .object _ properties | .style _ _ properties => ∀ e ∈ properties, e.value.isSome
  | .element _ tag _ children selfClosing =>
    startsWithin 'a' 'z' tag ∧ (selfClosing → children = [])
  | .use _ name props children selfClosing =>
    startsWithin 'A' 'Z' name ∧ (∀ e ∈ props, e.value.isSome) ∧ (selfClosing → children = [])
  | _ => True

variable {L : Token → Prop} {pos : Position} {n : Node}

lemma Drawn.wellFormed (h : Drawn L pos n) : WellFormed n := by
  cases h with
  | template hhole => exact hhole
  | binary hop => exact hop
  | unary hop => exact hop
  | member => rfl
  | index => rfl
  | object hsome => exact hsome
  | style hsome => exact hsome
  | element _ hcase _ _ _ hclosing => exact ⟨hcase, hclosing⟩
  | use _ hcase _ hsome _ _ hclosing => exact ⟨hcase, hsome, hclosing⟩
  | _ => trivial

/-- A part of a node can be read. If it is a child of markup, it may be one that can be read nowhere
else. -/
def PartReadable (L : Token → Prop) (n k : Node) : Prop :=
  Drawn L .expression k ∨ Drawn L .statement k ∨
    Drawn L .child k ∧ k ∈ n.markupChildren

lemma partReadable_values {es : List (Entry Node)}
    (h : ∀ e ∈ es, ∀ v ∈ e.value, Drawn L .expression v) :
    ∀ k ∈ es.filterMap (·.value), PartReadable L n k := by
  intro k hk
  obtain ⟨e, he, hv⟩ := mem_filterMap.mp hk
  exact .inl (h e he k hv)

lemma Drawn.partReadable (h : Drawn L pos n) : ∀ k ∈ n.parts, PartReadable L n k := by
  have hdefaults {ps : List (Param Node)}
      (hps : ∀ q ∈ ps, ∀ v ∈ q.default, Drawn L .expression v) :
      ∀ k ∈ ps.filterMap (·.default), PartReadable L n k := by
    intro k hk
    obtain ⟨q, hq, hv⟩ := mem_filterMap.mp hk
    exact .inl (hps q hq k hv)
  have hstatements {ns : List Node} (hns : ∀ n ∈ ns, Drawn L .statement n) :
      ∀ k ∈ ns, PartReadable L n k :=
    fun k hk => .inr (.inl (hns k hk))
  cases h with
  | identifier | number | string | boolean | null | text | imports => exact nofun
  | template _ _ hparts =>
    intro k hk
    obtain ⟨p, hp, hk⟩ := mem_filterMap.mp hk
    cases p with
    | text => cases hk
    | hole e => exact .inl (Option.some.inj hk ▸ hparts e hp)
  | binary _ ha hb | assign ha hb | pipe ha hb | index ha hb =>
    exact forall_mem_cons.mpr ⟨.inl ha, forall_mem_singleton.mpr (.inl hb)⟩
  | unary _ ha | interpolation ha | expression ha | binding _ ha | state _ ha | member ha _ =>
    exact forall_mem_singleton.mpr (.inl ha)
  | call hcallee harguments =>
    exact forall_mem_cons.mpr ⟨.inl hcallee, fun k hk => .inl (harguments k hk)⟩
  | arrow _ hps hbody => exact forall_mem_append.mpr ⟨hdefaults hps, hstatements hbody⟩
  | arrowValue _ hps hbody =>
    exact forall_mem_append.mpr ⟨hdefaults hps, forall_mem_singleton.mpr (.inl hbody)⟩
  | component _ _ hps hbody | function _ _ hps hbody =>
    exact forall_mem_append.mpr ⟨hdefaults hps, hstatements hbody⟩
  | array helements => exact fun k hk => .inl (helements k hk)
  | object _ hvalues | style _ hvalues => exact partReadable_values hvalues
  | conditional hc hyes hno =>
    exact forall_mem_cons.mpr ⟨.inl hc, forall_mem_cons.mpr
      ⟨.inl hyes, forall_mem_singleton.mpr (.inl hno)⟩⟩
  | element _ _ _ hvalues hchildren | use _ _ _ _ hvalues hchildren =>
    exact forall_mem_append.mpr
      ⟨partReadable_values hvalues, fun k hk => .inr (.inr ⟨hchildren k hk, hk⟩)⟩
  | returning hvalue => exact fun k hk => .inl (hvalue k (Option.mem_toList.mp hk))
  | exports _ hdeclaration =>
    exact fun k hk => .inr (.inl (hdeclaration k (Option.mem_toList.mp hk)))
  | block hbody | effect hbody => exact hstatements hbody
  | forEach _ _ hiterable hbody =>
    exact forall_mem_cons.mpr ⟨.inl hiterable, hstatements hbody⟩
  | @ifElse _ _ _ _ alternate _ hcondition hconsequent halternate =>
    refine forall_mem_append.mpr
      ⟨forall_mem_cons.mpr ⟨.inl hcondition, hstatements hconsequent⟩, ?_⟩
    cases alternate with
    | none => exact nofun
    | some ns => exact hstatements (halternate ns rfl)

/-- A node that has a meaning among the children of markup only. -/
def isChildOnly : Node → Bool
  | .text .. | .interpolation .. => true
  | _ => false

lemma Drawn.child_of_isChildOnly (h : Drawn L pos n) (hn : isChildOnly n) : pos = .child := by
  cases h <;> first | rfl | cases hn

/-- Every node inside some statements can be read. Where it is read as a child, it is a child of
markup. -/
lemma readable_of_mem_outline {ns : List Node} (h : ∀ n ∈ ns, Drawn L .statement n) :
    ∀ m ∈ Node.outlineList ns, ∃ pos, Drawn L pos m ∧
      (pos = .child → ∃ n ∈ Node.outlineList ns, m ∈ n.markupChildren) := by
  have hparts (n : Node)
      (hn : n ∈ Node.outlineList ns ∧ ∃ pos, Drawn L pos n ∧
        (pos = .child → ∃ n' ∈ Node.outlineList ns, n ∈ n'.markupChildren)) :
      ∀ k ∈ n.parts, k ∈ Node.outlineList ns ∧ ∃ pos, Drawn L pos k ∧
        (pos = .child → ∃ n' ∈ Node.outlineList ns, k ∈ n'.markupChildren) := by
    intro k hk
    obtain ⟨hmem, pos, hread, -⟩ := hn
    refine ⟨Node.mem_outlineList_of_part hmem hk, ?_⟩
    rcases hread.partReadable k hk with hk | hk | ⟨hk, hchild⟩
    · exact ⟨_, hk, nofun⟩
    · exact ⟨_, hk, nofun⟩
    · exact ⟨_, hk, fun _ => ⟨n, hmem, hchild⟩⟩
  intro m hm
  obtain ⟨root, hroot, hm⟩ := Node.mem_outlineList.mp hm
  have hmem : root ∈ Node.outlineList ns :=
    Node.mem_outlineList.mpr ⟨root, hroot, root.mem_outline_self⟩
  exact (Node.forall_mem_outline hparts ⟨hmem, _, h root hroot, nofun⟩ m hm).2

/-- Every node inside some statements is well formed, and those that are for markup only are
children of markup. -/
lemma wellFormed_of_mem_outline {ns : List Node} (h : ∀ n ∈ ns, Drawn L .statement n) :
    ∀ m ∈ Node.outlineList ns, WellFormed m ∧
      (isChildOnly m → ∃ n ∈ Node.outlineList ns, m ∈ n.markupChildren) := by
  intro m hm
  obtain ⟨pos, hread, hchild⟩ := readable_of_mem_outline h m hm
  exact ⟨hread.wellFormed, fun honly => hchild (hread.child_of_isChildOnly honly)⟩

end UiScript.Syntax
