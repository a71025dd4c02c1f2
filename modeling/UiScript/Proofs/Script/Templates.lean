import UiScript.Proofs.Page
import UiScript.Proofs.Script.Steps

/-!
# Template literals in the script

Every template literal of a program is written as its parts between back quotes, and that text is
then moved to the right along with the code around it. A literal on one line stays as it is. One
that spans several lines has blanks added to its text by each block around it.
-/

namespace UiScript.Script

open List

open Syntax (Grammatical)

/-! ### Every literal is reached -/

/-- The parts of a node that the script does not show: style values are for the style sheet, the
children of an instance are not used, and neither is any markup of a component but the first. -/
def unwritten : Node → List Node
  | .style _ _ es => es.filterMap (·.value)
  | .use _ _ _ ns _ => ns
  | .component _ _ _ body => (body.filter isMarkup).tail
  | _ => []

/-- A node stands inside a part that the script does not show. -/
def Lost (n t : Node) : Prop := ∃ m ∈ n.outline, ∃ k ∈ unwritten m, t ∈ k.outline

def isTemplate : Node → Bool
  | .template .. => true
  | _ => false

variable {n k t : Node} {P : Node → Prop} {p : Option Place} {ns : List Node}
  {alternate : Option (List Node)} {name : String} {parts : List (Part Node)} {codes : List String}
  {ts : List Shift}

lemma eq_template_of_isTemplate (h : isTemplate n) : ∃ p parts, n = .template p parts := by
  cases n with
  | template p parts => exact ⟨p, parts, rfl⟩
  | _ => cases h

def isLiteral : Node → Bool
  | .string .. | .template .. => true
  | _ => false

def Seat.position : Seat → Syntax.Position
  | .expression => .expression
  | .statement => .statement
  | .child _ => .child

/-- In the code of a node at a position, each literal inside a part can be found or is lost. -/
def Handled (pos : Syntax.Position) (n k : Node) : Prop :=
  ∀ t ∈ k.outline, isLiteral t →
    (∃ seat shifts, seat.position = pos ∧ Reaches seat n shifts t) ∨ Lost n t

/-- In the code of a node at a position, each literal inside the node can be found or is lost. -/
abbrev Covered (pos : Syntax.Position) (n : Node) : Prop := Handled pos n n

/-- Whatever has been written of a node at one position has been written of another node at another
position too. -/
def Carries (pos : Syntax.Position) (n : Node) (pos' : Syntax.Position) (k : Node) : Prop :=
  ∀ seat', Seat.position seat' = pos' →
    ∃ seat shifts, Seat.position seat = pos ∧ ⟨shifts, seat', k⟩ ∈ insets seat n

lemma not_isLiteral_of_bareName (hk : (bareName? k).isSome) (ht : t ∈ k.outline) :
    isLiteral t = false := by
  cases k with
  | identifier =>
    rw [mem_singleton.mp ht]
    rfl
  | _ => cases hk

lemma Lost.of_part (h : Lost k t) (hk : k ∈ n.parts) : Lost n t := by
  obtain ⟨m, hm, hlost⟩ := h
  exact ⟨m, Node.mem_outline_of_part hk hm, hlost⟩

variable {pos : Syntax.Position}

lemma Covered.of_parts (hself : isLiteral n → pos = .expression)
    (h : ∀ k ∈ n.parts, Handled pos n k) : Covered pos n := by
  intro t ht hliteral
  rw [Node.outline_eq] at ht
  rcases mem_cons.mp ht with rfl | ht
  · exact .inl ⟨.expression, [], (hself hliteral).symm, .here t⟩
  · obtain ⟨k, hk, htk⟩ := Node.mem_outlineList.mp ht
    exact h k hk t htk hliteral

lemma Covered.of_other (hself : isLiteral n = false) (h : ∀ k ∈ n.parts, Handled pos n k) :
    Covered pos n :=
  .of_parts (fun hliteral => absurd (hself.symm.trans hliteral) Bool.false_ne_true) h

lemma handled_unwritten (hk : k ∈ unwritten n) : Handled pos n k :=
  fun _ ht _ => .inr ⟨n, n.mem_outline_self, k, hk, ht⟩

lemma handled_bareName (hk : (bareName? k).isSome) : Handled pos n k := by
  intro t ht hliteral
  rw [not_isLiteral_of_bareName hk ht] at hliteral
  cases hliteral

lemma Covered.carried {pos' : Syntax.Position} (h : Covered pos' k)
    (hcarries : Carries pos n pos' k) (hlost : ∀ {t}, Lost k t → Lost n t) : Handled pos n k := by
  intro t ht hliteral
  rcases h t ht hliteral with ⟨seat', shifts, hseat', hreaches⟩ | hlostk
  · obtain ⟨seat, shifts', hseat, hi⟩ := hcarries seat' hseat'
    exact .inl ⟨seat, _, hseat, .inside hi hreaches⟩
  · exact .inr (hlost hlostk)

lemma Covered.handled {pos' : Syntax.Position} (h : Covered pos' k)
    (hcarries : Carries pos n pos' k) (hk : k ∈ n.parts) : Handled pos n k :=
  h.carried hcarries fun hlost => hlost.of_part hk

/-- A node that is written at one position as it is at another one. -/
lemma Covered.of_self {pos' : Syntax.Position} (h : Covered pos' n)
    (hcarries : Carries pos n pos' n) : Covered pos n :=
  h.carried hcarries id

structure Coverage (n : Node) : Prop where
  expr : Grammatical .expression n → Covered .expression n
  stmt : Grammatical .statement n → Covered .statement n
  child : Grammatical .statement n ∨ Grammatical .child n → Covered .child n

section Handled

variable {pos : Syntax.Position} {n : Node} {ks : List Node}

lemma carries_expr (seat : Seat)
    (hi : ⟨ts, .expression, k⟩ ∈ insets seat n) : Carries seat.position n .expression k := by
  intro seat' hseat'
  cases seat' with
  | expression => exact ⟨seat, ts, rfl, hi⟩
  | statement => cases hseat'
  | child => cases hseat'

lemma carries_stmt (seat : Seat)
    (hi : ⟨ts, .statement, k⟩ ∈ insets seat n) : Carries seat.position n .statement k := by
  intro seat' hseat'
  cases seat' with
  | expression => cases hseat'
  | statement => exact ⟨seat, ts, rfl, hi⟩
  | child => cases hseat'

lemma carries_child
    (hi : ∀ split, ∃ seat ts, Seat.position seat = pos ∧ ⟨ts, .child split, k⟩ ∈ insets seat n) :
    Carries pos n .child k := by
  intro seat' hseat'
  cases seat' with
  | expression => cases hseat'
  | statement => cases hseat'
  | child split => exact hi split

variable (ih : ∀ k ∈ n.parts, Coverage k)
include ih

lemma handled_inline (seat : Seat) (h : ∀ k ∈ ks, Grammatical .expression k)
    (hi : inline ks ⊆ insets seat n) (hks : ks ⊆ n.parts) : ∀ k ∈ ks, Handled seat.position n k :=
  fun k hk => ((ih k (hks hk)).expr (h k hk)).handled
    (carries_expr seat (hi (mem_map_of_mem hk))) (hks hk)

lemma handled_inBlock (seat : Seat) (h : ∀ k ∈ ks, Grammatical .statement k)
    (hi : inBlock ks ⊆ insets seat n) (hks : ks ⊆ n.parts) : ∀ k ∈ ks, Handled seat.position n k :=
  fun k hk => ((ih k (hks hk)).stmt (h k hk)).handled
    (carries_stmt seat (hi (mem_map_of_mem hk))) (hks hk)

lemma handled_nested (h : ∀ k ∈ ks, Grammatical .statement k)
    (hi : ∀ split, nested split ks ⊆ insets (.child split) n) (hks : ks ⊆ n.parts) :
    ∀ k ∈ ks, Handled .child n k :=
  fun k hk => ((ih k (hks hk)).child (.inl (h k hk))).handled
    (carries_child fun split => ⟨.child split, _, rfl, hi split (mem_map_of_mem hk)⟩) (hks hk)

end Handled

lemma forall_values {es : List (Entry Node)} (h : ∀ e ∈ es, ∀ v ∈ e.value, P v) :
    ∀ k ∈ es.filterMap (·.value), P k := by
  intro k hk
  obtain ⟨e, he, hv⟩ := mem_filterMap.mp hk
  exact h e he k hv

lemma forall_defaults {ps : List (Param Node)} (h : ∀ q ∈ ps, ∀ v ∈ q.default, P v) :
    ∀ k ∈ ps.filterMap (·.default), P k := by
  intro k hk
  obtain ⟨q, hq, hv⟩ := mem_filterMap.mp hk
  exact h q hq k hv

lemma covered_element {tag : String} {es : List (Entry Node)} {selfClosing : Bool}
    (ih : ∀ k ∈ Node.parts (.element p tag es ns selfClosing), Coverage k)
    (hes : ∀ e ∈ es, ∀ v ∈ e.value, Grammatical .expression v)
    (hns : ∀ k ∈ ns, Grammatical .child k) :
    Covered .child (.element p tag es ns selfClosing) := by
  refine .of_other rfl (forall_mem_append.mpr ⟨?_, fun k hk => ?_⟩)
  · exact handled_inline ih (.child false) (forall_values hes) (subset_append_left _ _)
      (subset_append_left _ _)
  · have hpart : k ∈ Node.parts (.element p tag es ns selfClosing) := mem_append_right _ hk
    exact ((ih k hpart).child (.inr (hns k hk))).handled (carries_child fun split =>
      ⟨.child split, [], rfl, mem_append_right _ (mem_map_of_mem hk)⟩) hpart

/-- An expression whose parts are all expressions; bare names may be left out. -/
lemma covered_inline (ih : ∀ k ∈ n.parts, Coverage k) (h : ∀ k ∈ n.parts, Grammatical .expression k)
    (hi : ∀ k ∈ n.parts, (bareName? k).isNone → ⟨[], .expression, k⟩ ∈ exprInsets n := by
      exact fun _ hk _ => mem_map_of_mem hk) :
    Covered .expression n := by
  refine .of_parts (fun _ => rfl) fun k hk => ?_
  cases hbare : bareName? k with
  | some => exact handled_bareName (by rw [hbare]; rfl)
  | none =>
    exact Covered.handled ((ih k hk).expr (h k hk))
      (carries_expr .expression (hi k hk (by rw [hbare]; rfl))) hk

lemma covered_expr (h : Grammatical .expression n) (ih : ∀ k ∈ n.parts, Coverage k) :
    Covered .expression n := by
  cases h with
  | identifier | number | string | boolean | null =>
    exact .of_parts (fun _ => rfl) (forall_mem_nil _)
  | template _ _ hparts =>
    refine covered_inline ih fun k hk => ?_
    obtain ⟨p, hp, hhole⟩ := mem_filterMap.mp hk
    cases p with
    | text => cases hhole
    | hole =>
      cases hhole
      exact hparts _ hp
  | binary _ ha hb | pipe ha hb | index ha hb =>
    exact covered_inline ih (forall_mem_cons.mpr ⟨ha, forall_mem_singleton.mpr hb⟩)
  | unary _ ha | member ha => exact covered_inline ih (forall_mem_singleton.mpr ha)
  | call hcallee harguments =>
    refine covered_inline ih (forall_mem_cons.mpr ⟨hcallee, harguments⟩) fun k hk hbare => ?_
    refine mem_map_of_mem ?_
    rcases mem_cons.mp hk with rfl | hk
    · exact mem_cons_self
    · exact mem_cons_of_mem _ (mem_filter.mpr ⟨hk, hbare⟩)
  | @assign _ target value htarget hvalue =>
    refine covered_inline ih
      (forall_mem_cons.mpr ⟨htarget, forall_mem_singleton.mpr hvalue⟩)
      fun k hk hbare => mem_map_of_mem (mem_append.mpr ?_)
    rcases mem_cons.mp hk with rfl | hk
    · rw [Option.isNone_iff_eq_none.mp hbare]
      exact .inl mem_cons_self
    · exact .inr hk
  | arrow _ hdefaults hbody =>
    refine .of_parts (fun _ => rfl) (forall_mem_append.mpr ⟨?_, ?_⟩)
    · exact handled_inline ih .expression (forall_defaults hdefaults) (subset_append_left _ _)
        (subset_append_left _ _)
    · exact handled_inBlock ih .expression hbody (subset_append_right _ _)
        (subset_append_right _ _)
  | arrowValue _ hdefaults hbody =>
    exact covered_inline ih
      (forall_mem_append.mpr ⟨forall_defaults hdefaults, forall_mem_singleton.mpr hbody⟩)
  | array helements => exact covered_inline ih helements
  | object _ hvalues => exact covered_inline ih (forall_values hvalues)
  | conditional hc hyes hno =>
    exact covered_inline ih
      (forall_mem_cons.mpr ⟨hc, forall_mem_cons.mpr ⟨hyes, forall_mem_singleton.mpr hno⟩⟩)
  | element _ _ _ hvalues hchildren =>
    refine (covered_element ih hvalues hchildren).of_self
      (carries_child fun split => ⟨.expression, [.block], rfl, ?_⟩)
    cases split <;> simp [insets, exprInsets, markup]
  | use _ _ _ _ hvalues =>
    refine .of_parts (fun _ => rfl) (forall_mem_append.mpr ⟨?_, fun k hk => handled_unwritten hk⟩)
    exact handled_inline ih .expression (forall_values hvalues) (List.Subset.refl _)
      (subset_append_left _ _)
  | ifElse hpos | forEach hpos => exact absurd rfl hpos

lemma soleIf?_eq_some (h : soleIf? ns = some n) : ns = [n] := by
  rcases ns with _ | ⟨m, _ | ⟨k, ns⟩⟩
  · cases h
  · rw [soleIf?] at h
    split_ifs at h
    rw [Option.some.inj h]
  · cases h

lemma mem_elseInsets {sole f : Node → Inset} (hk : k ∈ alternate.getD []) :
    sole k ∈ elseInsets sole (List.map f) alternate ∨
      f k ∈ elseInsets sole (List.map f) alternate := by
  cases alternate with
  | none => cases hk
  | some others =>
    rw [elseInsets]
    cases hsole : soleIf? others with
    | none => exact .inr (mem_map_of_mem hk)
    | some =>
      rw [soleIf?_eq_some hsole] at hk
      rw [mem_singleton.mp hk]
      exact .inl mem_cons_self

lemma forall_getD : (∀ k ∈ alternate.getD [], P k) ↔ ∀ ns ∈ alternate, ∀ n ∈ ns, P n := by
  cases alternate <;> simp

/-- A statement whose parts the node around it has at other places. -/
lemma Covered.through (h : Covered .statement k)
    (hi : ∀ i ∈ stmtInsets k, ∃ ts, ⟨ts, i.seat, i.node⟩ ∈ stmtInsets n) (hk : k ∈ n.parts) :
    Handled .statement n k := by
  intro t ht hliteral
  rcases h t ht hliteral with ⟨seat, shifts, hseat, hreaches⟩ | hlost
  · cases hreaches with
    | here => cases hseat
    | inside hmem hreaches =>
      cases seat with
      | expression => cases hseat
      | child => cases hseat
      | statement =>
        obtain ⟨ts, hts⟩ := hi _ hmem
        exact .inl ⟨.statement, _, rfl, .inside hts hreaches⟩
  · exact .inr (hlost.of_part hk)

lemma eq_state_of_role (h : roleOf n = .state name) :
    ∃ p written v, n = .state p name written v := by
  cases n with
  | state p var written v =>
    cases h
    exact ⟨p, written, v, rfl⟩
  | _ => cases h

lemma eq_style_of_role (h : roleOf n = .style) : ∃ p name es, n = .style p name es := by
  cases n with
  | style p name es => exact ⟨p, name, es, rfl⟩
  | _ => cases h

lemma handled_member {ps : List (Param Node)} {body : List Node} (hk : k ∈ body) (h : Coverage k)
    (hread : Grammatical .statement k) : Handled .statement (.component p name ps body) k := by
  have hpart : k ∈ Node.parts (.component p name ps body) := mem_append_right _ hk
  have hinset {i : Inset} (hi : i ∈ memberInsets k) :
      i ∈ stmtInsets (.component p name ps body) :=
    mem_append_left _ (mem_append_right _ (mem_flatMap.mpr ⟨k, hk, hi⟩))
  have hcovered := h.stmt hread
  unfold memberInsets at hinset
  cases hrole : roleOf k with
  | state =>
    obtain ⟨place, written, v, rfl⟩ := eq_state_of_role hrole
    exact hcovered.through (forall_mem_singleton.mpr ⟨_, hinset mem_cons_self⟩) hpart
  | effect | other =>
    rw [hrole] at hinset
    exact hcovered.handled (carries_stmt .statement (hinset mem_cons_self)) hpart
  | style =>
    obtain ⟨place, label, es, rfl⟩ := eq_style_of_role hrole
    exact hcovered.through (forall_mem_nil _) hpart
  | markup =>
    have hmarkup : k ∈ body.filter isMarkup := by
      rw [mem_filter, isMarkup, hrole]
      exact ⟨hk, rfl⟩
    obtain ⟨root, extra, hfilter⟩ := exists_cons_of_ne_nil (ne_nil_of_mem hmarkup)
    rw [hfilter] at hmarkup
    rcases mem_cons.mp hmarkup with rfl | hextra
    · have hroot : body.find? isMarkup = some k := by
        rw [← head?_filter, hfilter]
        rfl
      refine (h.child (.inl hread)).handled (carries_child fun split =>
        ⟨.statement, [.block, .block], rfl, mem_append_right _ ?_⟩) hpart
      rw [hroot]
      cases split <;> simp [markup]
    · refine handled_unwritten ?_
      rw [unwritten, hfilter]
      exact hextra

lemma covered_stmt (h : Grammatical .statement n) (ih : ∀ k ∈ n.parts, Coverage k)
    (hexpr : Grammatical .expression n → Covered .expression n) : Covered .statement n := by
  cases h with
  | element htag hcase hnames hvalues hchildren hclosing =>
    exact (hexpr (.element htag hcase hnames hvalues hchildren hclosing)).of_self
      (carries_expr .statement mem_cons_self)
  | use hname hcase hnames hsome hvalues hchildren hclosing =>
    exact (hexpr (.use hname hcase hnames hsome hvalues hchildren hclosing)).of_self
      (carries_expr .statement mem_cons_self)
  | @ifElse _ p condition consequent alternate _ hcondition hconsequent halternate =>
    rw [← forall_getD] at halternate
    refine .of_other rfl (forall_mem_append.mpr
      ⟨forall_mem_cons.mpr ⟨?_, ?_⟩, fun k hk => ?_⟩)
    · exact ((ih _ mem_cons_self).expr hcondition).handled
        (carries_expr .statement mem_cons_self) mem_cons_self
    · exact handled_inBlock ih .statement hconsequent
        (subset_append_of_subset_left _ (subset_append_right _ _))
        (subset_append_of_subset_left _ (subset_cons_self _ _))
    · have hpart : k ∈ Node.parts (.ifElse p condition consequent alternate) :=
        mem_append_right _ hk
      have hcovered := (ih k hpart).stmt (halternate k hk)
      rcases mem_elseInsets hk with hi | hi <;>
        exact hcovered.handled (carries_stmt .statement (mem_append_right _ hi)) hpart
  | forEach _ _ hiterable hbody =>
    refine .of_other rfl (forall_mem_cons.mpr ⟨?_, ?_⟩)
    · exact ((ih _ mem_cons_self).expr hiterable).handled
        (carries_expr .statement mem_cons_self) mem_cons_self
    · exact handled_inBlock ih .statement hbody (subset_append_right _ _) (subset_cons_self _ _)
  | returning hvalue =>
    exact .of_other rfl (handled_inline ih .statement
      (fun k hk => hvalue k (Option.mem_toList.mp hk)) (List.Subset.refl _) (List.Subset.refl _))
  | expression ha | binding _ ha | state _ ha =>
    exact .of_other rfl (handled_inline ih .statement (forall_mem_singleton.mpr ha)
      (List.Subset.refl _) (List.Subset.refl _))
  | block hbody | effect hbody =>
    exact .of_other rfl (handled_inBlock ih .statement hbody (List.Subset.refl _)
      (List.Subset.refl _))
  | @component p name ps body _ _ hdefaults hbody =>
    refine .of_other rfl (forall_mem_append.mpr ⟨fun k hk => ?_, fun k hk => ?_⟩)
    · have hi : ⟨[.block], .expression, k⟩ ∈ stmtInsets (.component p name ps body) :=
        mem_append_left _ (mem_append_left _ (mem_map_of_mem hk))
      exact Covered.handled ((ih k (mem_append_left _ hk)).expr
        (forall_defaults hdefaults k hk)) (carries_expr .statement hi) (mem_append_left _ hk)
    · exact handled_member hk (ih k (mem_append_right _ hk)) (hbody k hk)
  | function _ _ hdefaults hbody =>
    refine .of_other rfl (forall_mem_append.mpr ⟨?_, ?_⟩)
    · exact handled_inline ih .statement (forall_defaults hdefaults) (subset_append_left _ _)
        (subset_append_left _ _)
    · exact handled_inBlock ih .statement hbody (subset_append_right _ _)
        (subset_append_right _ _)
  | style => exact .of_other rfl fun k hk => handled_unwritten hk
  | imports => exact .of_other rfl (forall_mem_nil _)
  | exports _ hdeclaration =>
    exact .of_other rfl fun k hk =>
      ((ih k hk).stmt (hdeclaration k (Option.mem_toList.mp hk))).handled
        (carries_stmt .statement (mem_map_of_mem hk)) hk

lemma covered_if {condition : Node} {consequent : List Node}
    (ih : ∀ k ∈ Node.parts (.ifElse p condition consequent alternate), Coverage k)
    (hc : Grammatical .expression condition) (hyes : ∀ k ∈ consequent, Grammatical .statement k)
    (hno : ∀ k ∈ alternate.getD [], Grammatical .statement k) :
    Covered .child (.ifElse p condition consequent alternate) := by
  refine .of_other rfl (forall_mem_append.mpr ⟨forall_mem_cons.mpr ⟨?_, ?_⟩, fun k hk => ?_⟩)
  · exact ((ih _ mem_cons_self).expr hc).handled (carries_expr (.child false) mem_cons_self)
      mem_cons_self
  · exact handled_nested ih hyes
      (fun split => subset_append_of_subset_left _ (subset_append_right _ _))
      (subset_append_of_subset_left _ (subset_cons_self _ _))
  · have hpart : k ∈ Node.parts (.ifElse p condition consequent alternate) := mem_append_right _ hk
    refine ((ih k hpart).child (.inl (hno k hk))).handled (carries_child fun split => ?_) hpart
    rcases mem_elseInsets hk with hi | hi <;> exact ⟨.child split, _, rfl, mem_append_right _ hi⟩

lemma covered_for {iterable : Node} {body : List Node}
    (ih : ∀ k ∈ Node.parts (.forEach p name iterable body), Coverage k)
    (hi : Grammatical .expression iterable) (hbody : ∀ k ∈ body, Grammatical .statement k) :
    Covered .child (.forEach p name iterable body) := by
  refine .of_other rfl (forall_mem_cons.mpr ⟨?_, ?_⟩)
  · exact ((ih _ mem_cons_self).expr hi).handled (carries_expr (.child false) mem_cons_self)
      mem_cons_self
  · exact handled_nested ih hbody (fun split => subset_append_right _ _) (subset_cons_self _ _)

lemma covered_child (h : Grammatical pos n) (hpos : pos ≠ .expression)
    (ih : ∀ k ∈ n.parts, Coverage k) (hexpr : Grammatical .expression n → Covered .expression n)
    (hstmt : Grammatical .statement n → Covered .statement n) : Covered .child n := by
  have hread := h
  cases h with
  | element _ _ _ hvalues hchildren => exact covered_element ih hvalues hchildren
  | use hname hcase hnames hsome hvalues hchildren hclosing =>
    exact (hexpr (.use hname hcase hnames hsome hvalues hchildren hclosing)).of_self
      (carries_expr (.child false) mem_cons_self)
  | text => exact .of_other rfl (forall_mem_nil _)
  | interpolation he =>
    exact .of_other rfl (handled_inline ih (.child false) (forall_mem_singleton.mpr he)
      (List.Subset.refl _) (List.Subset.refl _))
  | ifElse _ hcondition hconsequent halternate =>
    rw [← forall_getD] at halternate
    exact covered_if ih hcondition hconsequent halternate
  | forEach _ _ hiterable hbody => exact covered_for ih hiterable hbody
  | returning | expression | block | component | function | binding | state | effect | style
  | imports | exports =>
    exact (hstmt hread).of_self (carries_stmt (.child true) mem_cons_self)
  | _ => exact absurd rfl hpos

lemma coverage (n : Node) : Coverage n := by
  induction n using Node.parts_induction with
  | h n ih =>
    have hexpr (h : Grammatical .expression n) := covered_expr h ih
    have hstmt (h : Grammatical .statement n) := covered_stmt h ih hexpr
    refine ⟨hexpr, hstmt, ?_⟩
    rintro (h | h)
    · exact covered_child h (by decide) ih hexpr hstmt
    · exact covered_child h (by decide) ih hexpr hstmt

/-! ### Literals in the script -/

/-- Each literal inside some statements can be found in the code of one, or is lost. -/
lemma reached_or_lost (hread : ∀ n ∈ ns, Grammatical .statement n)
    (ht : t ∈ Node.outlineList ns) (hliteral : isLiteral t) :
    (∃ n ∈ ns, ∃ shifts, Reaches .statement n shifts t) ∨
      ∃ n ∈ Node.outlineList ns, ∃ k ∈ unwritten n, t ∈ k.outline := by
  obtain ⟨n, hn, ht⟩ := Node.mem_outlineList.mp ht
  rcases (coverage n).stmt (hread n hn) t ht hliteral with ⟨seat, shifts, hseat, hreaches⟩ | hlost
  · cases seat with
    | expression => cases hseat
    | child => cases hseat
    | statement => exact .inl ⟨n, hn, shifts, hreaches⟩
  · obtain ⟨m, hm, k, hk, ht⟩ := hlost
    exact .inr ⟨m, Node.mem_outlineList.mpr ⟨n, hn, hm⟩, k, hk, ht⟩

lemma toList_backquoted (codes : List String) :
    (backquoted codes).toList = '\x60' :: (codes.flatMap String.toList ++ ['\x60']) := by
  rw [backquoted, String.toList_append, String.toList_append, String.toList_join]
  rfl

lemma solid_backquoted (codes : List String) : Solid (backquoted codes).toList := by
  rw [toList_backquoted]
  refine ⟨cons_ne_nil _ _, by simp, ?_⟩
  rw [← cons_append, getLast?_concat]
  decide

/-- What some shifts make of the code of a part of a literal. -/
def shifted (shifts : List Shift) (code : String) : String :=
  String.ofList (moved shifts code.toList)

lemma shifted_eq_self_iff {shifts : List Shift} {code : String} :
    shifted shifts code = code ↔ shifts = [] ∨ '\n' ∉ code.toList := by
  rw [← moved_eq_self_iff, ← String.toList_inj, shifted, String.toList_ofList]

/-- A hole does not end with the end of a line. -/
lemma getLast?_hole (inner : String) : ("$" ++ braced inner).toList.getLast? ≠ some '\n' := by
  rw [braced, ← String.append_assoc, String.toList_append,
    getLast?_append_of_ne_nil _ (by decide)]
  decide

/-- Behind a text stands the end of the literal or a hole, but no other text. -/
lemma head?_behind_text (h : Forall₂ PartGives parts codes)
    (hhead : ∀ p ∈ parts.head?, Syntax.Part.isText p = false) :
    (codes.flatMap String.toList ++ ['\x60']).head? ≠ some '\n' := by
  cases h with
  | nil => decide
  | @cons p code _ _ hcode _ =>
    cases p with
    | text => cases hhead _ rfl
    | hole =>
      obtain ⟨inner, -, rfl⟩ := hcode
      simp

/-- The parts of a literal move by themselves. -/
lemma moved_parts (shifts : List Shift)
    (halternate : Syntax.Alternate parts) (h : Forall₂ PartGives parts codes) :
    moved shifts (codes.flatMap String.toList ++ ['\x60']) =
      (codes.map (shifted shifts)).flatMap String.toList ++ ['\x60'] := by
  induction h with
  | nil => exact moved_of_notMem shifts (by decide)
  | @cons p code parts codes hcode hcodes ih =>
    obtain ⟨hnext, hrest⟩ := isChain_cons.mp halternate
    have hseam : code.toList.getLast? ≠ some '\n' ∨
        (codes.flatMap String.toList ++ ['\x60']).head? ≠ some '\n' := by
      cases p with
      | text =>
        refine .inr (head?_behind_text hcodes fun q hq => ?_)
        have hboth := hnext q hq
        exact Bool.eq_false_iff.mpr fun hq => hboth ⟨rfl, hq⟩
      | hole =>
        obtain ⟨inner, -, rfl⟩ := hcode
        exact .inl (getLast?_hole inner)
    rw [flatMap_cons, append_assoc, moved_pieces shifts hseam, ih hrest, map_cons,
      flatMap_cons, shifted, String.toList_ofList, append_assoc]

lemma moved_backquoted (shifts : List Shift)
    (halternate : Syntax.Alternate parts) (h : Forall₂ PartGives parts codes) :
    moved shifts (backquoted codes).toList = (backquoted (codes.map (shifted shifts))).toList := by
  have hquote : ['\x60'].getLast? ≠ some '\n' := by decide
  rw [toList_backquoted, toList_backquoted, ← singleton_append,
    moved_pieces shifts (.inl hquote), moved_of_notMem shifts (by decide : '\n' ∉ ['\x60']),
    moved_parts shifts halternate h]
  rfl

lemma statement_shown {program : Program} {title : String} {page : Page}
    (h : program.toPage title = .ok page) (hn : n ∈ program.body) :
    Inset.Shown ⟨[], .statement, n⟩ (Has page.script) := by
  rw [Program.toPage, toPageWith_eq, lowerListWith_eq_map, map_map] at h
  cases hrun : (inOrder (program.body.map ((·.2.stmt) ∘ fun n => (n, lower n)))).run
      { title, components := program.body.filterMap declaredComponent? } with
  | error e =>
    rw [hrun] at h
    cases h
  | ok r =>
    rw [hrun] at h
    obtain rfl : pageOf r.1 r.2 = page := Except.ok.inj h
    obtain ⟨code, hcode, hgives⟩ := Gives.exists_of_inOrder ⟨_, _, hrun⟩ hn
    refine ⟨_, ⟨code, hgives, rfl⟩, fun x hx hhas => Has.right (hhas.intercalate ?_)⟩
    refine mem_append_left _ (mem_filter.mpr ⟨hcode, ?_⟩)
    rw [hhas.not_isEmpty hx]
    rfl

/-- A literal inside a statement is in the script, as the shifts on the way leave it. -/
lemma template_in_script {program : Program} {title : String} {page : Page}
    (h : program.toPage title = .ok page) (hn : n ∈ program.body) {shifts : List Shift}
    (hreaches : Reaches .statement n shifts (.template p parts)) :
    ∃ codes, Forall₂ PartGives parts codes ∧
      moved shifts (backquoted codes).toList <:+: page.script.toList := by
  obtain ⟨V, hV, hscript⟩ := statement_shown h hn
  obtain ⟨W, ⟨code, hcode, rfl⟩, hshown⟩ := hreaches.shown hV
  obtain ⟨codes, hcodes, rfl⟩ := template_gives hcode
  have hsolid := solid_backquoted codes
  exact ⟨codes, hcodes, hscript _ (solid_moved hsolid shifts) (hshown _ hsolid infix_rfl)⟩

lemma alternate_of_grammatical (h : Grammatical pos (.template p parts)) :
    Syntax.Alternate parts := by
  cases h with
  | template _ halternate => exact halternate

end UiScript.Script

namespace UiScript.Program

open Script

/-- Every template literal of a parsed program is reached through the code of a statement, unless it
stands in a part that the script does not show. However it is reached, it is in the script as the
codes of its parts between back quotes, each shifted by the code around it. A part keeps its white
space if nothing shifts the literal or if the part is within one line. Otherwise each shift puts
blanks before its further lines. -/
theorem templates_shifted {source file : String} {program : Program}
    (h : Program.parse source file = .ok program) (title : String) :
    ∃ page, program.toPage title = .ok page ∧
      ∀ p parts, .template p parts ∈ Node.outlineList program.body →
        ((∃ n ∈ program.body, ∃ shifts, Reaches .statement n shifts (.template p parts)) ∨
          ∃ n ∈ Node.outlineList program.body, ∃ k ∈ unwritten n, .template p parts ∈ k.outline) ∧
        ∀ n ∈ program.body, ∀ shifts, Reaches .statement n shifts (.template p parts) →
          ∃ codes, List.Forall₂ PartGives parts codes ∧
            (backquoted (codes.map (shifted shifts))).toList <:+: page.script.toList ∧
            ∀ code ∈ codes, shifted shifts code = code ↔ shifts = [] ∨ '\n' ∉ code.toList := by
  have hread := Syntax.grammatical_of_parse h
  obtain ⟨page, hpage⟩ := toPage_of_grammatical hread title
  refine ⟨page, hpage, fun p parts hmem => ⟨?_, fun n hn shifts hreaches => ?_⟩⟩
  · exact reached_or_lost hread hmem rfl
  · obtain ⟨pos, hpos, -⟩ := Syntax.readable_of_mem_outline hread _ hmem
    obtain ⟨codes, hcodes, hscript⟩ := template_in_script hpage hn hreaches
    rw [moved_backquoted shifts (alternate_of_grammatical hpos) hcodes] at hscript
    exact ⟨codes, hcodes, hscript, fun code _ => shifted_eq_self_iff⟩

/-- The second line of a literal inside a function starts with blanks that the literal has not. -/
theorem templates_shifted_function :
    let source := "fn f() \x7b\n  let s = \x60a\nb $\x7bx\x7d\x60\n\x7d"
    ∃ program page p parts, Program.parse source "main" = .ok program ∧
      .template p parts ∈ Node.outlineList program.body ∧ program.toPage "t" = .ok page ∧
      page.script =
        banner ++ "function f() \x7b\n  const s = \x60a\n  b $\x7bx\x7d\x60;\n\x7d" ∧
      ∃ n ∈ program.body, ∃ shifts codes, Reaches .statement n shifts (.template p parts) ∧
        List.Forall₂ PartGives parts codes ∧
        (backquoted (codes.map (shifted shifts))).toList <:+: page.script.toList := by
  intro source
  have hfacts : ((Program.parse source "main").toOption.map fun program =>
      ((program.toPage "t").toOption.map Page.script,
        (Node.outlineList program.body).any isTemplate,
        (Node.outlineList program.body).all fun n => (unwritten n).isEmpty)) =
      some (some (banner ++
        "function f() \x7b\n  const s = \x60a\n  b $\x7bx\x7d\x60;\n\x7d"), true, true) := by
    decide +kernel
  obtain ⟨program, hparse, hfacts⟩ := exists_of_toOption hfacts
  obtain ⟨hscript, hfacts⟩ := Prod.mk.inj hfacts
  obtain ⟨hany, hwritten⟩ := Prod.mk.inj hfacts
  obtain ⟨t, ht, htemplate⟩ := List.any_eq_true.mp hany
  obtain ⟨p, parts, rfl⟩ := eq_template_of_isTemplate htemplate
  obtain ⟨page, hpage, hall⟩ := templates_shifted hparse "t"
  obtain ⟨⟨n, hn, shifts, hreaches⟩ | ⟨m, hm, k, hk, -⟩, hemitted⟩ := hall p parts ht
  · obtain ⟨codes, hcodes, hinfix, -⟩ := hemitted n hn shifts hreaches
    rw [hpage] at hscript
    exact ⟨program, page, p, parts, hparse, ht, hpage, Option.some.inj hscript, n, hn, shifts,
      codes, hreaches, hcodes, hinfix⟩
  · have hempty := List.all_eq_true.mp hwritten m hm
    rw [List.isEmpty_iff.mp hempty] at hk
    cases hk

end UiScript.Program
