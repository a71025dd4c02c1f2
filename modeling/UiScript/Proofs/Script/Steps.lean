import UiScript.Proofs.Script.Alike
import UiScript.Proofs.Script.Insets

/-!
# From a node to its parts

Every construct that has been written holds the code of its parts, moved as their insets say. One
step leads from a node to a part of it, and all steps lead to any node inside it.
-/

namespace UiScript.Script

open List

open Gives (of_bindPure)

/-! ### Blocks and parameters -/

variable {code parent : String} {codes rows : List String} {ns : List Node} {ps : List (Param Node)}
  {n iterable : Node} {es : List (Entry Node)} {s s' : Sections} {V : List Char → Prop}

lemma Has.not_isEmpty {x : List Char} (h : Has code x) (hx : Solid x) : code.isEmpty = false := by
  refine Bool.eq_false_iff.mpr fun hempty => hx.ne_nil ?_
  rw [String.isEmpty_iff.mp hempty] at h
  exact infix_nil.mp h

/-- The values that some actions take, each within one of the codes. -/
lemma values_shown {α : Type} {name : α → String} {value : α → Option Node} {as : List α}
    {f : String × Option Lowered → Gen String}
    (h : Gives (inOrder ((as.map fun a => (name a, lowerOption (value a))).map f)) codes)
    (hf : ∀ {s v code}, Gives (f (s, some (v, lower v))) code → Shown (inline [v]) (Has code))
    (hV : ∀ code ∈ codes, ∀ {x}, Has code x → V x) : Shown (inline (as.filterMap value)) V := by
  refine forall_mem_map.mpr fun v hv => ?_
  obtain ⟨a, ha, hvalue⟩ := mem_filterMap.mp hv
  rw [map_map] at h
  obtain ⟨code, hcode, hgives⟩ := h.exists_of_inOrder ha
  rw [Function.comp_apply, hvalue, lowerOption, lowerOptionWith] at hgives
  exact (hf hgives).mono (hV code hcode) _ mem_cons_self

/-- A value behind a text. -/
lemma prefixed_shown {w : String} (h : Gives (do return w ++ (← (lower n).expr)) code) :
    Shown (inline [n]) (Has code) := by
  obtain ⟨value, hvalue, rfl⟩ := h.of_bindPure
  exact (Shown.expr hvalue).mono Has.right

lemma block_shown (h : Gives (block (lowerList ns)) code) : Shown (inBlock ns) (Has code) := by
  refine forall_mem_map.mpr fun n hn => ?_
  obtain ⟨codes, hcodes, rfl⟩ := h.of_rebinding.of_bindPure
  rw [lowerList_eq_map, map_map] at hcodes
  obtain ⟨c, hc, hgives⟩ := hcodes.exists_of_inOrder hn
  refine ⟨_, ⟨c, hgives, rfl⟩, fun x hx hhas => ?_⟩
  have hmem : c ∈ codes.filter (!·.isEmpty) :=
    mem_filter.mpr ⟨hc, by rw [hhas.not_isEmpty hx]; rfl⟩
  have hne : (codes.filter (!·.isEmpty)).isEmpty = false :=
    isEmpty_eq_false_iff.mpr (ne_nil_of_mem hmem)
  rw [hne]
  exact Has.indent (hhas.intercalate hmem) hx

lemma parameters_shown (h : Gives (parameters (lowerParams ps)) code) :
    Shown (inline (ps.filterMap (·.default))) (Has code) := by
  obtain ⟨codes, hcodes, rfl⟩ := h.of_bindPure
  rw [lowerParams_eq_map] at hcodes
  exact values_shown hcodes prefixed_shown fun _ hc _ hx => hx.intercalate hc

lemma operand_shown {isLoose : Node → Bool} (h : Gives (operand isLoose (n, lower n)) code) :
    Shown (inline [n]) (Has code) := by
  obtain ⟨c, hc, rfl⟩ := h.of_bindPure
  refine (Shown.expr hc).mono fun hx => ?_
  split_ifs
  · exact hx.right.left
  · exact hx

/-! ### Expressions -/

/-- What a part of a template is written as. -/
def PartGives : Part Node → String → Prop
  | .text s, code => code = breakClosings s
  | .hole e, code => ∃ inner, Gives (lower e).expr inner ∧ code = "$" ++ braced inner

/-- A template literal from the codes of its parts. -/
def backquoted (codes : List String) : String := "\x60" ++ String.join codes ++ "\x60"

lemma template_gives {ps : List (Part Node)} (h : Gives (template (lowerParts ps)) code) :
    ∃ codes, Forall₂ PartGives ps codes ∧ code = backquoted codes := by
  obtain ⟨codes, hcodes, rfl⟩ := h.of_bindPure
  refine ⟨codes, ?_, rfl⟩
  clear h
  induction ps generalizing codes with
  | nil =>
    rw [hcodes.of_pure]
    exact .nil
  | cons p ps ih =>
    cases p with
    | text s =>
      obtain ⟨c, hc, hrest⟩ := hcodes.of_bind
      obtain ⟨cs, hcs, rfl⟩ := hrest.of_bindPure
      exact .cons hc.of_pure (ih cs hcs)
    | hole e =>
      obtain ⟨c, hc, hrest⟩ := hcodes.of_bind
      obtain ⟨cs, hcs, rfl⟩ := hrest.of_bindPure
      obtain ⟨inner, hinner, rfl⟩ := hc.of_bindPure
      exact .cons ⟨inner, hinner, rfl⟩ (ih cs hcs)

lemma Has.join {x : List Char} (h : Has code x) (hcode : code ∈ codes) :
    Has (String.join codes) x := by
  obtain ⟨before, after, rfl⟩ := append_of_mem hcode
  unfold Has at *
  rw [String.toList_join, flatMap_append, flatMap_cons]
  exact h.trans ((prefix_append _ _).isInfix.trans (suffix_append _ _).isInfix)

lemma template_shown {ps : List (Part Node)} (h : Gives (template (lowerParts ps)) code) :
    Shown (inline (Node.parts (.template none ps))) (Has code) := by
  refine forall_mem_map.mpr fun e he => ?_
  obtain ⟨codes, hcodes, rfl⟩ := template_gives h
  obtain ⟨p, hp, hhole⟩ := mem_filterMap.mp he
  cases p with
  | text => cases hhole
  | hole e =>
    cases hhole
    obtain ⟨c, hc, inner, hinner, rfl⟩ := Syntax.exists_of_mem_left hcodes hp
    exact (shown_expr hinner).mono fun hx => (Has.join hx.braced.right hc).right.left

lemma assignment_shown {target value : Node}
    (h : Gives (assignment (target, lower target) (value, lower value)) code) :
    Shown (inline ((if (bareName? target).isSome then [] else [target]) ++ [value]))
      (Has code) := by
  obtain ⟨c, hc, hrest⟩ := h.of_bind
  split at hrest
  next name hname =>
    rw [hname]
    refine (Shown.expr hc).mono fun hx => ?_
    obtain ⟨g, -, hrest⟩ := hrest.of_bind
    split_ifs at hrest <;> rw [hrest.of_pure] <;> exact hx.right
  next hname =>
    obtain ⟨head, hhead, rfl⟩ := hrest.of_bindPure
    rw [hname]
    exact .cons ((shown_expr hhead).mono fun hx => hx.left.left) ((Shown.expr hc).mono Has.right)

lemma callArguments_shown {isComponent : Bool}
    (h : Gives (callArguments isComponent (lowerList ns)) code) :
    Shown (inline (ns.filter fun a => (bareName? a).isNone)) (Has code) := by
  refine forall_mem_map.mpr fun n hn => ?_
  obtain ⟨hmem, hbare⟩ := mem_filter.mp hn
  unfold callArguments at h
  rw [lowerList_eq_map, map_map, map_map] at h
  split_ifs at h
  · obtain ⟨codes, hcodes, rfl⟩ := h.of_bindPure
    obtain ⟨c, hc, hgives⟩ := hcodes.exists_of_inOrder hmem
    rw [Function.comp_apply, Option.isNone_iff_eq_none.mp hbare] at hgives
    obtain ⟨value, hvalue, rfl⟩ := of_bindPure hgives
    exact (shown_expr hvalue).mono fun hx => Has.braced (hx.right.intercalate hc)
  · obtain ⟨codes, hcodes, rfl⟩ := h.of_bindPure
    obtain ⟨c, hc, hgives⟩ := hcodes.exists_of_inOrder hmem
    exact (shown_expr hgives).mono fun hx => hx.intercalate hc

lemma call_shown {callee : Node} (h : Gives (call (callee, lower callee) (lowerList ns)) code) :
    Shown (inline (callee :: ns.filter fun a => (bareName? a).isNone)) (Has code) := by
  obtain ⟨head, hhead, hrest⟩ := h.of_bind
  obtain ⟨g, -, hrest⟩ := hrest.of_bind
  obtain ⟨inner, hinner, rfl⟩ := hrest.of_bindPure
  exact ((operand_shown hhead).mono fun hx => hx.left.left.left).append
    ((callArguments_shown hinner).mono fun hx => hx.right.left)

lemma member_shown {obj : Node} {property : String} {computed : Bool} {index : Option Node}
    (h : Gives (member (obj, lower obj) property computed (lowerOption index)) code) :
    Shown (inline (obj :: if computed then index.toList else [])) (Has code) := by
  obtain ⟨head, hhead, hrest⟩ := h.of_bind
  split_ifs at hrest ⊢
  · obtain ⟨inner, hinner, rfl⟩ := hrest.of_bindPure
    refine ((operand_shown hhead).mono fun hx => hx.left.left.left).append ?_
    cases index with
    | none => exact .nil
    | some n => exact (Shown.expr hinner).mono fun hx => hx.right.left
  · rw [hrest.of_pure]
    exact (operand_shown hhead).mono fun hx => hx.left.left

lemma arrowBlock_shown (h : Gives (arrowFunction (lowerParams ps) (.block (lowerList ns))) code) :
    Shown (inline (ps.filterMap (·.default)) ++ inBlock ns) (Has code) := by
  obtain ⟨head, hhead, hrest⟩ := h.of_bind
  obtain ⟨body, hbody, rfl⟩ := hrest.of_bindPure
  exact ((parameters_shown hhead).mono fun hx => hx.right.left.left).append
    ((block_shown hbody.of_rebinding).mono Has.right)

lemma arrowValue_shown (h : Gives (arrowFunction (lowerParams ps) (.value (n, lower n))) code) :
    Shown (inline (ps.filterMap (·.default) ++ [n])) (Has code) := by
  obtain ⟨head, hhead, hrest⟩ := h.of_bind
  obtain ⟨body, hbody, rfl⟩ := hrest.of_bindPure
  rw [inline, map_append]
  exact ((parameters_shown hhead).mono fun hx => hx.right.left.left).append
    ((operand_shown hbody.of_rebinding).mono Has.right)

lemma array_shown (h : Gives (inOrder ((lowerList ns).map (·.2.expr))) codes) :
    Shown (inline ns) (Has (commaSeparated codes)) := by
  refine forall_mem_map.mpr fun n hn => ?_
  rw [lowerList_eq_map, map_map] at h
  obtain ⟨c, hc, hgives⟩ := h.exists_of_inOrder hn
  exact (shown_expr hgives).mono fun hx => hx.intercalate hc

lemma object_shown (h : Gives (objectLiteral (lowerEntries es)) code) :
    Shown (inline (es.filterMap (·.value))) (Has code) := by
  obtain ⟨codes, hcodes, rfl⟩ := h.of_bindPure
  rw [lowerEntries_eq_map] at hcodes
  exact values_shown hcodes prefixed_shown fun _ hc _ hx => Has.braced (hx.intercalate hc)

variable {name : String}

lemma instance_shown (h : Gives (instanceCode name (lowerEntries es)) code) :
    Shown (inline (es.filterMap (·.value))) (Has code) := by
  obtain ⟨codes, hcodes, rfl⟩ := h.of_bindPure
  rw [lowerEntries_eq_map] at hcodes
  exact values_shown hcodes prefixed_shown fun _ hc _ hx =>
    Has.left (Has.right (Has.braced (hx.intercalate hc)))

/-! ### Markup -/

lemma attribute_shown {var : String} {v : Node}
    (h : Gives (attributeCode var name (some (v, lower v))) code) :
    Shown (inline [v]) (Has code) := by
  unfold attributeCode at h
  split at h
  · obtain ⟨handler, hhandler, rfl⟩ := h.of_bindPure
    exact (Shown.expr hhandler).mono fun hx => Has.left (Has.right (Has.braced hx.right.left))
  · obtain ⟨value, hvalue, hrest⟩ := h.of_bind
    refine (Shown.expr hvalue).mono fun hx => ?_
    split_ifs at hrest <;> rw [hrest.of_pure] <;> exact hx.right.left

lemma childLines_shown (h : Gives (childLines parent (lowerList ns)) rows) (split : Bool) :
    Shown (children split ns) (Among split rows) := by
  refine forall_mem_map.mpr fun n hn => ?_
  obtain ⟨chunks, hchunks, rfl⟩ := h.of_bindPure
  rw [lowerList_eq_map, map_map] at hchunks
  obtain ⟨chunk, hchunk, hgives⟩ := hchunks.exists_of_inOrder hn
  exact (shown_child hgives split).mono fun hx => hx.mono (infix_of_mem_flatten hchunk)

lemma nestedLines_shown (h : Gives (nestedLines parent (lowerList ns)) rows) (split : Bool) :
    Shown (nested split ns) (Among split rows) := by
  refine forall_mem_map.mpr fun n hn => ?_
  obtain ⟨inner, hinner, rfl⟩ := h.of_bindPure
  obtain ⟨W, hW, hshown⟩ := childLines_shown hinner split ⟨[], .child split, n⟩ (mem_map_of_mem hn)
  exact ⟨W, hW, fun x hx hWx => (hshown x hx hWx).nested⟩

/-- What stands within a row is not looked for where code is split into lines. -/
lemma unsplit_shown {is : List Inset} (split : Bool) (h : Shown is (Among false rows)) :
    Shown (if split then [] else is) (Among split rows) := by
  cases split with
  | true => exact .nil
  | false => exact h

lemma element_shown {tag : String}
    (h : Gives (elementLines tag (lowerEntries es) (lowerList ns) parent) rows) (split : Bool) :
    Shown ((if split then [] else inline (es.filterMap (·.value))) ++ children split ns)
      (Among split rows) := by
  obtain ⟨var, -, h⟩ := h.of_bind
  obtain ⟨codes, hcodes, h⟩ := h.of_bind
  obtain ⟨inner, hinner, rfl⟩ := h.of_bindPure
  rw [lowerEntries_eq_map] at hcodes
  exact (unsplit_shown split (values_shown hcodes attribute_shown fun _ hc _ hx =>
    hx.row (by simp [hc]))).append ((childLines_shown hinner split).mono fun hx =>
      hx.mono (infix_append _ _ _))

lemma markup_shown {shifts : List Shift}
    (h : ∀ split, Inset.Shown ⟨shifts, .child split, n⟩ V) : Shown (markup shifts n) V :=
  .cons (h true) (.single (h false))

lemma elementExpr_shown (h : Gives (elementExpr (lower n).child) code) :
    Shown (markup [.block] n) (Has code) := by
  obtain ⟨rows, hrows, rfl⟩ := h.of_bindPure
  refine markup_shown fun split => (shown_child hrows split).shift fun hx hamong => ?_
  exact Has.left (Has.right (Has.indent (hamong.mono (infix_append _ _ _)).unlines hx))

lemma elseIf?_lowerList (ns : List Node) : elseIf? (lowerList ns) = (soleIf? ns).map lower := by
  rcases ns with _ | ⟨n, _ | ⟨m, ns⟩⟩
  · rfl
  · rw [lowerList, lowerListWith, lowerListWith, elseIf?, soleIf?]
    split_ifs <;> rfl
  · rfl

lemma childConditional_shown {condition : Node} {consequent : List Node}
    {alternate : Option (List Node)}
    (h : Gives (childConditional (condition, lower condition) (lowerList consequent)
      (lowerOptionList alternate) parent) rows) (split : Bool) :
    Shown (childInsets split (.ifElse none condition consequent alternate))
      (Among split rows) := by
  obtain ⟨c, hc, h⟩ := h.of_bind
  obtain ⟨inner, hinner, h⟩ := h.of_bind
  have hfront (tail : List String) :
      Shown ((if split then [] else inline [condition]) ++ nested split consequent)
        (Among split (("if (" ++ c ++ ") \x7b") :: inner ++ tail)) :=
    (unsplit_shown split ((Shown.expr hc).mono fun hx => hx.right.left.row mem_cons_self)).append
      ((nestedLines_shown hinner split).mono fun hx =>
        hx.mono (infix_cons (prefix_append _ _).isInfix))
  cases alternate with
  | none =>
    rw [Gives.of_pure h]
    exact (hfront _).append .nil
  | some others =>
    dsimp only [lowerOptionList, lowerOptionListWith] at h
    rw [elseIf?_lowerList] at h
    rw [childInsets, elseInsets]
    cases hsole : soleIf? others with
    | none =>
      rw [hsole] at h
      obtain ⟨outer, houter, rfl⟩ := of_bindPure h
      refine .append (by simpa using hfront ("\x7d else \x7b" :: outer ++ ["\x7d"]))
        ((nestedLines_shown houter split).mono fun hx => hx.mono ?_)
      exact ⟨("if (" ++ c ++ ") \x7b") :: inner ++ ["\x7d else \x7b"], ["\x7d"], by simp⟩
    | some n =>
      rw [hsole] at h
      obtain ⟨lines, hlines, h⟩ := Gives.of_bind h
      have hchild := shown_child hlines split
      cases lines with
      | nil =>
        rw [Gives.of_pure h]
        exact .append (by simpa using hfront []) (.single (hchild.mono fun hx => hx.mono nil_infix))
      | cons first rest =>
        rw [Gives.of_pure h]
        refine .append (by simpa using hfront (("\x7d else " ++ first) :: rest))
          (.single (hchild.mono fun hx => ?_))
        exact (hx.head (a := "\x7d else ") (by decide)).mono
          ⟨("if (" ++ c ++ ") \x7b") :: inner, [], by simp⟩

lemma loopHead_shown (h : Gives (loopHead name (iterable, lower iterable)) code) :
    Shown (inline [iterable]) (Has code) := by
  obtain ⟨c, hc, rfl⟩ := h.of_bindPure
  exact (Shown.expr hc).mono fun hx => hx.right.left

lemma childLoop_shown
    (h : Gives (childLoop name (iterable, lower iterable) (lowerList ns) parent) rows)
    (split : Bool) :
    Shown ((if split then [] else inline [iterable]) ++ nested split ns) (Among split rows) := by
  obtain ⟨head, hhead, h⟩ := h.of_bind
  obtain ⟨inner, hinner, rfl⟩ := h.of_bindPure
  exact (unsplit_shown split ((loopHead_shown hhead).mono fun hx => hx.left.row
    mem_cons_self)).append ((nestedLines_shown hinner.of_rebinding split).mono fun hx =>
      hx.mono (infix_cons (prefix_append _ _).isInfix))

/-! ### Statements -/

lemma conditional_shown {condition : Node} {consequent : List Node} {alternate : Option (List Node)}
    (h : Gives (conditional (condition, lower condition) (lowerList consequent)
      (lowerOptionList alternate)) code) :
    Shown (stmtInsets (.ifElse none condition consequent alternate)) (Has code) := by
  obtain ⟨c, hc, h⟩ := h.of_bind
  obtain ⟨inner, hinner, h⟩ := h.of_bind
  have hfront : Shown (inline [condition] ++ inBlock consequent)
      (Has ("if (" ++ c ++ ") " ++ inner)) :=
    ((Shown.expr hc).mono fun hx => hx.right.left.left).append
      ((block_shown hinner).mono Has.right)
  cases alternate with
  | none =>
    rw [Gives.of_pure h]
    exact hfront.append .nil
  | some others =>
    dsimp only [lowerOptionList, lowerOptionListWith] at h
    rw [elseIf?_lowerList] at h
    rw [stmtInsets, elseInsets]
    cases hsole : soleIf? others with
    | none =>
      rw [hsole] at h
      obtain ⟨outer, houter, rfl⟩ := of_bindPure h
      exact (hfront.mono fun hx => hx.left.left).append ((block_shown houter).mono Has.right)
    | some =>
      rw [hsole] at h
      obtain ⟨outer, houter, rfl⟩ := of_bindPure h
      exact (hfront.mono fun hx => hx.left.left).append
        (.single ((shown_stmt houter).mono Has.right))

lemma forLoop_shown (h : Gives (forLoop name (iterable, lower iterable) (lowerList ns)) code) :
    Shown (inline [iterable] ++ inBlock ns) (Has code) := by
  obtain ⟨head, hhead, h⟩ := h.of_bind
  obtain ⟨body, hbody, rfl⟩ := h.of_bindPure
  exact ((loopHead_shown hhead).mono fun hx => hx.left.left).append
    ((block_shown hbody.of_rebinding).mono Has.right)

lemma function_shown (h : Gives (function name (lowerParams ps) (lowerList ns)) code) :
    Shown (inline (ps.filterMap (·.default)) ++ inBlock ns) (Has code) := by
  obtain ⟨head, hhead, h⟩ := h.of_rebinding.of_bind
  obtain ⟨body, hbody, rfl⟩ := h.of_bindPure
  exact ((parameters_shown hhead).mono fun hx => hx.right.left.left).append
    ((block_shown hbody).mono Has.right)

lemma effect_shown (h : Gives (effect (lowerList ns)) code) :
    Shown (inBlock ns) (Has code) := by
  obtain ⟨body, hbody, rfl⟩ := h.of_bindPure
  exact (block_shown hbody).mono fun hx => hx.right.left

lemma export_shown {specifiers : List String} {declaration : Option Node}
    (h : Gives (exportCode specifiers (lowerOption declaration)) code) :
    Shown (declaration.toList.map fun n => ⟨[], .statement, n⟩) (Has code) := by
  obtain ⟨-, -, h⟩ := h.of_bind
  cases declaration with
  | none => exact .nil
  | some n => exact .single (shown_stmt h)

/-! ### Components -/

def Sections.Holds (s : Sections) (n : Node) : Prop :=
  match roleOf n with
  | .state _ => ∃ code ∈ s.states, Gives (lower n).cell code
  | .effect => ∃ code ∈ s.effects, Gives (lower n).stmt code
  | .other => ∃ code ∈ s.body, Gives (lower n).stmt code
  | .style | .markup => True

structure Sections.Grow (s s' : Sections) : Prop where
  states : s.states ⊆ s'.states
  effects : s.effects ⊆ s'.effects
  body : s.body ⊆ s'.body

lemma Sections.Grow.refl (s : Sections) : s.Grow s :=
  ⟨List.Subset.refl _, List.Subset.refl _, List.Subset.refl _⟩

lemma Sections.Grow.trans {t u : Sections} (h : s.Grow t) (h' : t.Grow u) : s.Grow u :=
  ⟨List.Subset.trans h.states h'.states, List.Subset.trans h.effects h'.effects,
    List.Subset.trans h.body h'.body⟩

lemma Sections.Holds.mono (h : s.Holds n) (hgrow : s.Grow s') : s'.Holds n := by
  unfold Holds at *
  cases hrole : roleOf n <;> rw [hrole] at h
  case state => exact h.imp fun _ hcode => ⟨hgrow.states hcode.1, hcode.2⟩
  case effect => exact h.imp fun _ hcode => ⟨hgrow.effects hcode.1, hcode.2⟩
  case other => exact h.imp fun _ hcode => ⟨hgrow.body hcode.1, hcode.2⟩
  case style | markup => trivial

/-- One step: the node goes into its section, and the first markup becomes the root. -/
lemma sortNode_spec (h : Gives (sortNode name s (n, lower n)) s') :
    s.Grow s' ∧ s'.Holds n ∧ s'.root = s.root.or (if isMarkup n then some (lower n) else none) := by
  unfold sortNode at h
  unfold Sections.Holds isMarkup
  cases hrole : roleOf n <;> rw [hrole] at h
  case state | effect | other =>
    obtain ⟨code, hcode, rfl⟩ := of_bindPure h
    exact ⟨⟨by simp, by simp, by simp⟩, ⟨code, mem_append_right _ mem_cons_self, hcode⟩, by simp⟩
  case style =>
    obtain ⟨code, -, rfl⟩ := of_bindPure h
    exact ⟨.refl _, trivial, by simp⟩
  case markup =>
    cases hroot : s.root with
    | none =>
      rw [if_pos (by rw [hroot]; rfl)] at h
      rw [h.of_pure]
      exact ⟨⟨by simp, by simp, by simp⟩, trivial, by simp⟩
    | some =>
      rw [if_neg (by rw [hroot]; exact Bool.false_ne_true)] at h
      obtain ⟨-, -, h⟩ := h.of_bind
      rw [h.of_pure]
      exact ⟨.refl s, trivial, by simp [hroot]⟩

/-- All steps: every node is in its section. -/
lemma sortNodes_spec (h : Gives (sortNodes name s (lowerList ns)) s') :
    s.Grow s' ∧ (∀ n ∈ ns, s'.Holds n) ∧ s'.root = s.root.or ((ns.find? isMarkup).map lower) := by
  induction ns generalizing s with
  | nil =>
    rw [h.of_pure]
    exact ⟨.refl s, forall_mem_nil _, by simp⟩
  | cons n ns ih =>
    obtain ⟨t, ht, h⟩ := h.of_bind
    obtain ⟨hgrow, hholds, hroot⟩ := sortNode_spec ht
    obtain ⟨hgrow', hall, hroot'⟩ := ih h
    refine ⟨hgrow.trans hgrow', forall_mem_cons.mpr ⟨hholds.mono hgrow', hall⟩, ?_⟩
    rw [hroot', hroot, find?_cons]
    cases isMarkup n <;> simp

lemma state_shown (h : Gives (lower n).cell code) :
    Shown (inline (stateValue? n).toList) (Has code) := by
  cases n with
  | state =>
    obtain ⟨c, hc, rfl⟩ := of_bindPure h
    exact (Shown.expr hc).mono fun hx => hx.right.left.intercalate mem_cons_self
  | _ => exact .nil

lemma bindings_shown {bindings : List String} (h : Gives (propBindings (lowerParams ps)) bindings) :
    ∀ i ∈ inline (ps.filterMap (·.default)), ∃ code ∈ bindings, i.Shown (Has code) := by
  refine forall_mem_map.mpr fun v hv => ?_
  obtain ⟨q, hq, hdefault⟩ := mem_filterMap.mp hv
  obtain ⟨defaults, hdefaults, rfl⟩ := h.of_bindPure
  rw [lowerParams_eq_map] at hdefaults ⊢
  have hmem : propDefault q.name (v, lower v) ∈
      (ps.map fun q => (q.name, lowerOption q.default)).filterMap fun p =>
        p.2.map (propDefault p.1) := by
    refine mem_filterMap.mpr ⟨_, mem_map_of_mem hq, ?_⟩
    rw [hdefault, lowerOption, lowerOptionWith, Option.map_some]
  rw [← map_id (List.filterMap _ _)] at hdefaults
  obtain ⟨code, hcode, hgives⟩ := hdefaults.exists_of_inOrder hmem
  obtain ⟨value, hvalue, rfl⟩ := of_bindPure hgives
  have hne : ps ≠ [] := ne_nil_of_mem hq
  refine ⟨_, by rw [if_neg (by simpa using hne)]; exact mem_cons_self, ?_⟩
  exact (shown_expr hvalue).mono fun hx => hx.right.left.intercalate (mem_append_right _ hcode)

section ComponentText

variable {name : String} {s : Sections} {rootLines bindings : List String} {x : List Char}

lemma section_has (hcode : code ∈ bindings ++ s.states ++ s.body) (hx : Solid x)
    (h : Has code x) : Has (componentText name s rootLines bindings) (moved [.block] x) := by
  refine Has.right (Has.indent (h.intercalate ?_) hx)
  simp only [mem_append] at hcode ⊢
  tauto

lemma render_has (hx : Solid x) (h : Has (Text.unlines (renderLines s rootLines)) x) :
    Has (componentText name s rootLines bindings) (moved [.block, .block] x) := by
  refine Has.right (Has.indent (x := moved [.block] x) ?_ (solid_moved hx _))
  exact Has.intercalate (Has.right (h.indent hx)) (mem_append_right _ mem_cons_self)

lemma root_has {split : Bool} (hx : Solid x) (h : Among split rootLines x) :
    Has (componentText name s rootLines bindings) (moved [.block, .block] x) := by
  refine render_has hx (h.mono ?_).unlines
  rw [renderLines, append_assoc, append_assoc]
  exact infix_append _ _ _

lemma effect_has (hcode : code ∈ s.effects) (hx : Solid x) (h : Has code x) :
    Has (componentText name s rootLines bindings) (moved [.block, .block, .block] x) := by
  refine render_has (solid_moved hx [.block]) (Has.intercalate (infix_indent hx h) ?_)
  simp only [renderLines, mem_append, mem_map]
  exact .inl (.inr ⟨code, hcode, rfl⟩)

end ComponentText

lemma component_shown (h : Gives (component name (lowerParams ps) (lowerList ns)) code) :
    Shown (stmtInsets (.component none name ps ns)) (Has code) := by
  obtain ⟨s, hs, h⟩ := h.of_withStateNames.of_bind
  obtain ⟨rootLines, hroot, h⟩ := h.of_bind
  obtain ⟨bindings, hbindings, rfl⟩ := h.of_bindPure
  obtain ⟨-, hall, hrootEq⟩ := sortNodes_spec hs
  refine .append (.append ?_ ?_) ?_
  · refine forall_mem_map.mpr fun v hv => ?_
    obtain ⟨c, hc, hshown⟩ := bindings_shown hbindings ⟨[], .expression, v⟩ (mem_map_of_mem hv)
    exact hshown.shift (section_has (by simp [hc]))
  · intro i hi
    obtain ⟨n, hn, hi⟩ := mem_flatMap.mp hi
    have hholds := hall n hn
    unfold Sections.Holds at hholds
    unfold memberInsets at hi
    cases hrole : roleOf n <;> rw [hrole] at hholds hi
    case state =>
      obtain ⟨c, hc, hgives⟩ := hholds
      obtain ⟨v, hv, rfl⟩ := mem_map.mp hi
      exact (state_shown hgives _ (mem_map_of_mem hv)).shift (section_has (by simp [hc]))
    case effect =>
      obtain ⟨c, hc, hgives⟩ := hholds
      rw [mem_singleton.mp hi]
      exact (shown_stmt hgives).shift (effect_has hc)
    case other =>
      obtain ⟨c, hc, hgives⟩ := hholds
      rw [mem_singleton.mp hi]
      exact (shown_stmt hgives).shift (section_has (by simp [hc]))
    case style | markup => cases hi
  · intro i hi
    obtain ⟨n, hn, hi⟩ := mem_flatMap.mp hi
    rw [Option.mem_toList] at hn
    rw [Option.none_or, hn, Option.map_some] at hrootEq
    rw [Sections.rootLines, hrootEq] at hroot
    exact markup_shown (fun split => (shown_child hroot split).shift root_has) i hi

/-! ### Steps -/

lemma expr_step (h : Gives (lower n).expr code) : Shown (exprInsets n) (Has code) := by
  cases n with
  | template => exact template_shown h
  | binary =>
    obtain ⟨l, hl, h⟩ := Gives.of_bind h
    obtain ⟨r, hr, rfl⟩ := h.of_bindPure
    exact ((operand_shown hl).mono fun hx => hx.right.left.left.left.left.left).append
      ((operand_shown hr).mono fun hx => hx.right.left)
  | pipe =>
    obtain ⟨callee, hcallee, h⟩ := Gives.of_bind h
    obtain ⟨l, hl, rfl⟩ := h.of_bindPure
    exact ((Shown.expr hl).mono fun hx => hx.right.left).append
      ((operand_shown hcallee).mono fun hx => hx.left.left.left)
  | unary =>
    obtain ⟨c, hc, rfl⟩ := of_bindPure h
    exact (operand_shown hc).mono Has.right
  | assign => exact assignment_shown h
  | call => exact call_shown h
  | member => exact member_shown h
  | arrow p ps body =>
    cases body with
    | block => exact arrowBlock_shown h
    | value => exact arrowValue_shown h
  | array =>
    obtain ⟨codes, hcodes, rfl⟩ := of_bindPure h
    exact (array_shown hcodes).mono fun hx => hx.right.left
  | object => exact object_shown h
  | use => exact instance_shown h
  | conditional =>
    obtain ⟨c, hc, h⟩ := Gives.of_bind h
    obtain ⟨yes, hyes, h⟩ := h.of_bind
    obtain ⟨no, hno, rfl⟩ := h.of_bindPure
    exact ((operand_shown hc).mono fun hx => hx.right.left.left.left.left.left).append
      (((Shown.expr hyes).mono fun hx => hx.right.left.left.left).append
        ((Shown.expr hno).mono fun hx => hx.right.left))
  | element =>
    refine elementExpr_shown ?_
    exact h
  | _ => exact .nil

/-- A node that is written as an expression with a semicolon behind it. -/
lemma stmt_of_expr (hn : (lower n).stmt = (· ++ ";") <$> (lower n).expr)
    (h : Gives (lower n).stmt code) : Shown [⟨[], .expression, n⟩] (Has code) := by
  rw [hn] at h
  obtain ⟨c, hc, rfl⟩ := h.of_map
  exact (Shown.expr hc).mono Has.left

/-- A node that is written as a statement whose lines are taken apart. -/
lemma child_of_stmt (hn : (lower n).child parent = Text.lines <$> (lower n).stmt)
    (h : Gives ((lower n).child parent) rows) (split : Bool) :
    Shown (if split then [⟨[], .statement, n⟩] else []) (Among split rows) := by
  rw [hn] at h
  obtain ⟨c, hc, rfl⟩ := h.of_map
  cases split with
  | false => exact .nil
  | true => exact .single ((shown_stmt hc).mono fun hx => ⟨c, hx, infix_rfl⟩)

lemma stmt_step (h : Gives (lower n).stmt code) : Shown (stmtInsets n) (Has code) := by
  cases n with
  | ifElse => exact conditional_shown h
  | forEach => exact forLoop_shown h
  | returning p value =>
    rw [lower, lowerWith] at h
    cases value with
    | none => exact .nil
    | some =>
      obtain ⟨c, hc, rfl⟩ := of_bindPure h
      exact (Shown.expr hc).mono fun hx => hx.right.left
  | expression =>
    obtain ⟨c, hc, rfl⟩ := of_bindPure h
    exact (Shown.expr hc).mono Has.left
  | binding | state =>
    rw [lower, lowerWith] at h
    obtain ⟨c, hc, rfl⟩ := of_bindPure h
    exact (Shown.expr hc).mono fun hx => hx.right.left
  | block => exact block_shown h
  | effect => exact effect_shown h
  | component => exact component_shown h
  | function => exact function_shown h
  | exports => exact export_shown h
  | style | imports => exact .nil
  | arrow p ps body => cases body <;> exact stmt_of_expr rfl h
  | _ => exact stmt_of_expr rfl h

lemma child_step (h : Gives ((lower n).child parent) rows) (split : Bool) :
    Shown (childInsets split n) (Among split rows) := by
  cases n with
  | element => exact element_shown h split
  | use p name es ns selfClosing =>
    obtain ⟨c, hc, rfl⟩ := of_bindPure h
    have hcode : Gives (lower (.use p name es ns selfClosing)).expr c := hc
    exact unsplit_shown split ((Shown.expr hcode).mono fun hx => hx.right.left.row mem_cons_self)
  | text => exact .nil
  | interpolation =>
    obtain ⟨c, hc, rfl⟩ := of_bindPure h
    exact unsplit_shown split ((Shown.expr hc).mono fun hx => hx.right.left.row mem_cons_self)
  | ifElse => exact childConditional_shown h split
  | forEach => exact childLoop_shown h split
  | arrow p ps body => cases body <;> exact child_of_stmt rfl h split
  | _ => exact child_of_stmt rfl h split

/-- One step: each part of a node that has been written has been written in its own seat, and its
code is in view as its shifts leave it. -/
lemma seen_step {seat : Seat} (h : Seen seat n V) : Shown (insets seat n) V := by
  cases seat with
  | expression =>
    obtain ⟨code, hcode, rfl⟩ := h
    exact expr_step hcode
  | statement =>
    obtain ⟨code, hcode, rfl⟩ := h
    exact stmt_step hcode
  | child split =>
    obtain ⟨parent, rows, hrows, rfl⟩ := h
    exact child_step hrows split

/-- A node inside another one, and what moves its code on the way into the code of that. -/
inductive Reaches : Seat → Node → List Shift → Node → Prop
  | here (n : Node) : Reaches .expression n [] n
  | inside {seat : Seat} {n m : Node} {i : Inset} {shifts : List Shift} (hi : i ∈ insets seat n)
      (h : Reaches i.seat i.node shifts m) : Reaches seat n (shifts ++ i.shifts) m

/-- All steps: every node inside one that has been written has been written as an expression, and
its code is in view as all shifts on the way leave it. -/
lemma Reaches.shown {seat : Seat} {m : Node} {shifts : List Shift} (h : Reaches seat n shifts m)
    (hV : Seen seat n V) : Inset.Shown ⟨shifts, .expression, m⟩ V := by
  induction h generalizing V with
  | here => exact ⟨V, hV, fun _ _ hx => hx⟩
  | inside hi _ ih =>
    obtain ⟨W, hW, hshown⟩ := seen_step hV _ hi
    exact (ih hW).shift (hshown _)

end UiScript.Script
