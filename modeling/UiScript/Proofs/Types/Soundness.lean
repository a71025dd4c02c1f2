import Mathlib.Data.List.Forall2
import UiScript.Eval.Evaluate
import UiScript.Proofs.Outcome
import UiScript.Proofs.Syntax.Outline
import UiScript.Types.Check

/-!
# Values have the types that are inferred

Expressions that consist of literals, names, operators, conditionals and members are data. The
checker infers the types of their values.
-/

namespace UiScript

open List

/-! ### Values of a type -/

namespace Value

def isNumber : Value → Bool
  | .int _ | .float _ | .nan _ => true
  | _ => false

def isString : Value → Bool
  | .str _ => true
  | _ => false

def isBool : Value → Bool
  | .bool _ => true
  | _ => false

def isNull : Value → Bool
  | .null => true
  | _ => false

def isList : Value → Bool
  | .list _ => true
  | _ => false

end Value

namespace Ty

/-- A value of the type with a name: a type without a rule of its own has all values. -/
def namedAdmits (name : String) (v : Value) : Bool :=
  if name = "Int" then v.isNumber
  else if name = "String" then v.isString
  else if name = "Bool" then v.isBool
  else if name = "Null" then v.isNull
  else true

mutual

/-- A value of a type. The items of a list may be anything, and so may be what a dictionary holds
besides the fields. -/
def admits : Ty → Value → Bool
  | .primitive name, v => namedAdmits name v
  | .array _, v => v.isList
  | .object fields, .dict entries => admitsFields fields entries
  | .object _, _ => false
  | .unknown, _ | .function .., _ | .component .., _ => true

def admitsFields : List (String × Ty) → Dict Value → Bool
  | [], _ => true
  | (name, t) :: fields, entries =>
    (match Dict.get? entries name with
      | some v => admits t v
      | none => false) && admitsFields fields entries

end

@[simp] lemma admits_any (v : Value) : any.admits v := by simp [admits, namedAdmits]

lemma admitsFields_iff {fields : List (String × Ty)} {entries : Dict Value} :
    admitsFields fields entries ↔
      ∀ f ∈ fields, ∃ v, Dict.get? entries f.1 = some v ∧ f.2.admits v := by
  induction fields with
  | nil => simp [admitsFields]
  | cons f fields ih =>
    obtain ⟨name, t⟩ := f
    rw [admitsFields, Bool.and_eq_true, ih, forall_mem_cons]
    cases Dict.get? entries name <;> simp

lemma admits_object_iff {fields : List (String × Ty)} {v : Value} :
    (object fields).admits v ↔
      ∃ entries, v = .dict entries ∧
        ∀ f ∈ fields, ∃ w, Dict.get? entries f.1 = some w ∧ f.2.admits w := by
  cases v with
  | dict => simp [admits, admitsFields_iff]
  | _ => simp [admits]

mutual

lemma eq_of_same {a b : Ty} (h : a.same b) : a = b := by
  cases a <;> cases b <;> simp only [same, Bool.false_eq_true, Bool.and_eq_true] at h
  · rfl
  · rw [beq_iff_eq.mp h]
  · rw [eq_of_same h]
  · rw [eq_of_sameFields h]
  · rw [eq_of_sameList h.1, eq_of_same h.2]
  · rw [beq_iff_eq.mp h.1, eq_of_sameFields h.2]

lemma eq_of_sameList {as bs : List Ty} (h : sameList as bs) : as = bs := by
  cases as <;> cases bs <;> simp only [sameList, Bool.false_eq_true, Bool.and_eq_true] at h
  · rfl
  · rw [eq_of_same h.1, eq_of_sameList h.2]

lemma eq_of_sameFields {as bs : List (String × Ty)} (h : sameFields as bs) : as = bs := by
  rcases as with _ | ⟨⟨k, a⟩, as⟩ <;> rcases bs with _ | ⟨⟨l, b⟩, bs⟩ <;>
    simp only [sameFields, Bool.false_eq_true, Bool.and_eq_true] at h
  · rfl
  · rw [beq_iff_eq.mp h.1.1, eq_of_same h.1.2, eq_of_sameFields h.2]

end

end Ty

/-! ### Values of operators -/

namespace Value

lemma isNumber_ofNumber (origin : Origin) (n : Number) : (ofNumber origin n).isNumber := by
  cases n with
  | int => rfl
  | float x => cases x <;> rfl

lemma plus_string (origin : Origin) {l r : Value} (h : l.isString ∨ r.isString) :
    Returns (fun v => v.isString) (plus origin l r) := by
  have hjoined : Returns (fun v : Value => v.isString)
      (do let a ← l.asText; let b ← r.asText; return .str (a ++ b)) :=
    .after fun _ => .after fun _ => .pure rfl
  unfold plus
  split
  · exact hjoined
  · exact hjoined
  next hl hr =>
    rcases h with h | h
    · cases l <;> simp_all [isString]
    · cases r <;> simp_all [isString]

lemma plus_number (origin : Origin) {l r : Value} (hl : l.isNumber) (hr : r.isNumber) :
    Returns (fun v => v.isNumber) (plus origin l r) := by
  unfold plus
  split
  · cases hl
  · cases hr
  · exact .map fun n => isNumber_ofNumber origin n

lemma binary_number {op : String} (h : op ∈ Types.arithmeticOperators) (origin : Origin)
    (l r : Value) : Returns (fun v => v.isNumber) (binary origin op l r) := by
  simp only [Types.arithmeticOperators, mem_cons, not_mem_nil, or_false] at h
  rcases h with rfl | rfl | rfl | rfl <;> exact .map fun n => isNumber_ofNumber _ n

lemma binary_bool {op : String} (h : op ∈ Types.comparisonOperators) (origin : Origin)
    (l r : Value) : Returns (fun v => v.isBool) (binary origin op l r) := by
  simp only [Types.comparisonOperators, mem_cons, not_mem_nil, or_false] at h
  rcases h with rfl | rfl | rfl | rfl | rfl | rfl <;> exact .pure rfl

end Value

/-! ### Data expressions -/

/-- The form of an expression that is made of data: the keys of an object differ, and a member is
written by its name. -/
def Node.isDataForm : Node → Bool
  | .identifier .. | .number _ (.number _) | .string .. | .boolean .. | .null .. | .template ..
  | .binary .. | .unary .. | .array .. | .conditional .. => true
  | .object _ properties => (properties.map (·.name)).Nodup
  | .member _ _ _ computed _ => !computed
  | _ => false

/-- An expression that consists of data. -/
def Node.IsData (n : Node) : Prop := ∀ m ∈ n.outline, m.isDataForm

/-- The names in an expression stand for values of their types. -/
def Node.Fits (n : Node) (Γ : Scope) (scope : Dict Value) : Prop :=
  ∀ place name, .identifier place name ∈ n.outline → ∀ t, Γ.lookup? name = some t →
    ∃ v, Dict.get? scope name = some v ∧ t.admits v

/-- If an expression has a value, it is one of a type. -/
def Node.Yields (n : Node) (Γ : Scope) (t : Ty) : Prop :=
  ∀ scope, n.Fits Γ scope → Returns (fun v => t.admits v) (n.evaluate scope)

variable {n : Node}

namespace Node

lemma IsData.part {k : Node} (h : n.IsData) (hk : k ∈ n.parts) : k.IsData :=
  fun m hm => h m (mem_outline_of_part hk hm)

lemma Fits.part {k : Node} {Γ : Scope} {scope : Dict Value} (h : n.Fits Γ scope)
    (hk : k ∈ n.parts) : k.Fits Γ scope :=
  fun place name hname => h place name (mem_outline_of_part hk hname)

end Node

namespace Types

/-! ### Checks that only report -/

/-- The check changes nothing but the list of diagnostics. If it adds none, what it gives has a
property in its scope. -/
def Judges {α : Type} (P : Scope → α → Prop) (m : Check α) : Prop :=
  ∀ c, ∃ a ds, m.run c = (a, { c with diagnostics := c.diagnostics ++ ds }) ∧
    (ds = [] → P c.scope a)

namespace Judges

variable {α β : Type} {P : Scope → α → Prop} {Q : Scope → β → Prop}

lemma pure {a : α} (h : ∀ Γ, P Γ a) : Judges P (Pure.pure a) :=
  fun c => ⟨a, [], by rw [append_nil]; rfl, fun _ => h c.scope⟩

lemma bind {m : Check α} {f : α → Check β} (h : Judges P m)
    (hf : ∀ a, Judges (fun Γ b => P Γ a → Q Γ b) (f a)) : Judges Q (m >>= f) := by
  intro c
  obtain ⟨a, ds, hrun, ha⟩ := h c
  obtain ⟨b, ds', hrun', hb⟩ := hf a { c with diagnostics := c.diagnostics ++ ds }
  refine ⟨b, ds ++ ds', ?_, fun hnil => ?_⟩
  · rw [StateT.run_bind, hrun]
    refine hrun'.trans ?_
    rw [append_assoc]
  · obtain ⟨hds, hds'⟩ := append_eq_nil_iff.mp hnil
    exact hb hds' (ha hds)

lemma mono {P' : Scope → α → Prop} {m : Check α} (h : Judges P m) (hP : ∀ Γ a, P Γ a → P' Γ a) :
    Judges P' m := by
  intro c
  obtain ⟨a, ds, hrun, ha⟩ := h c
  exact ⟨a, ds, hrun, fun hds => hP _ _ (ha hds)⟩

lemma ite {p : Prop} [Decidable p] {m m' : Check α} (h : p → Judges P m)
    (h' : ¬ p → Judges P m') : Judges P (if p then m else m') := by
  split
  · exact h ‹_›
  · exact h' ‹_›

/-- After a report there is nothing to be shown. -/
lemma report_pure (d : Diagnostic) (a : α) : Judges P (report d >>= fun _ => Pure.pure a) :=
  fun _ => ⟨a, [d], rfl, nofun⟩

lemma get_bind {f : Checker → Check α}
    (h : ∀ c, Judges (fun Γ a => Γ = c.scope → P Γ a) (f c)) : Judges P (get >>= f) := by
  intro c
  obtain ⟨a, ds, hrun, ha⟩ := h c c
  exact ⟨a, ds, hrun, fun hds => ha hds rfl⟩

lemma lookup (name : String) (place : Option Place) :
    Judges (fun Γ t => Γ.lookup? name = some t) (lookup name place) := by
  refine .get_bind fun c => ?_
  split
  next t ht => exact .pure fun Γ hΓ => hΓ ▸ ht
  · exact .report_pure _ _

lemma inOrder {as : List β} {f : β → Check α} {P : β → Scope → α → Prop}
    (h : ∀ a ∈ as, Judges (P a) (f a)) :
    Judges (fun Γ bs => Forall₂ (fun a b => P a Γ b) as bs) (inOrder (as.map f)) := by
  induction as with
  | nil => exact .pure fun _ => .nil
  | cons a as ih =>
    obtain ⟨ha, has⟩ := forall_mem_cons.mp h
    exact ha.bind fun b => (ih has).bind fun bs => .pure fun _ hbs hb => .cons hb hbs

end Judges

lemma inferUniform_judges (op : String) (required l r : Ty) (place : Option Place) :
    Judges (fun _ t => t = required ∧ l = required ∧ r = required)
      (inferUniform op required l r place) := by
  refine .ite (fun _ => .report_pure _ _) fun hsame => .pure fun _ => ?_
  obtain ⟨hl, hr⟩ : l.same required ∧ r.same required := by simpa using hsame
  exact ⟨rfl, Ty.eq_of_same hl, Ty.eq_of_same hr⟩

/-! ### Expressions -/

variable {p : Option Place} {Γ : Scope} {op : String} {left right : Node}

/-- What is inferred for an expression is right wherever nothing is reported. -/
def Sound (n : Node) : Prop := Judges n.Yields (judge n).infer

lemma sound_identifier (name : String) : Sound (.identifier p name) := by
  refine (Judges.lookup name p).mono fun Γ t ht scope hfits => ?_
  obtain ⟨v, hv, hadmits⟩ := hfits p name mem_cons_self t ht
  simp only [Node.evaluate, hv]
  exact .pure hadmits

lemma sound_number (n : Number) : Sound (.number p (.number n)) := by
  refine .pure fun Γ scope _ => .pure ?_
  exact Value.isNumber_ofNumber _ n

lemma sound_string (value : String) : Sound (.string p value) :=
  .pure fun _ _ _ => .pure rfl

lemma sound_boolean (value : Bool) : Sound (.boolean p value) :=
  .pure fun _ _ _ => .pure rfl

lemma sound_null : Sound (.null p) := .pure fun _ _ _ => .pure rfl

lemma sound_template {parts : List (Part Node)} (h : ∀ e, .hole e ∈ parts → Sound e) :
    Sound (.template p parts) := by
  have hparts : ∀ m ∈ judgeParts parts, Judges (fun _ _ => True) m := by
    induction parts with
    | nil => exact nofun
    | cons part parts ih =>
      have ih := ih fun e he => h e (mem_cons_of_mem _ he)
      cases part with
      | text => exact ih
      | hole e =>
        exact forall_mem_cons.mpr ⟨(h e mem_cons_self).mono fun _ _ _ => trivial, ih⟩
  have hall := Judges.inOrder (f := id) (P := fun _ _ _ => True) hparts
  rw [map_id] at hall
  exact hall.bind fun _ => .pure fun _ _ _ _ => .pure rfl

/-- The judgements of some nodes in order. -/
lemma judgeList_eq (ns : List Node) : judgeList ns = ns.map fun n => (n, judge n) := by
  induction ns with
  | nil => rfl
  | cons n ns ih => rw [judgeList, ih, map_cons]

lemma sound_array {elements : List Node} (h : ∀ n ∈ elements, Sound n) :
    Sound (.array p elements) := by
  have hlist (t : Ty) (Γ : Scope) : (Node.array p elements).Yields Γ (.array t) := by
    intro scope _
    exact .map fun _ => rfl
  simp only [Sound, judge, Judgement.ofExpr, inferArray, judgeList_eq, map_map]
  refine (Judges.inOrder h).bind fun types => ?_
  cases types with
  | nil => exact .pure fun Γ _ => hlist _ Γ
  | cons t => exact .pure fun Γ _ => hlist t Γ

/-- What is known of a property: one without an expression has the type of all values. -/
def EntryYields (e : Entry Node) (Γ : Scope) (t : Ty) : Prop :=
  match e.value with
  | none => t = .any
  | some n => n.Yields Γ t

lemma judgeEntries_eq (es : List (Entry Node)) :
    judgeEntries es = es.map fun e => ⟨e.name, judgeOption e.value⟩ := by
  induction es with
  | nil => rfl
  | cons e es ih => rw [judgeEntries, ih, map_cons]

lemma inferOption_judges {e : Entry Node} (h : ∀ n ∈ e.value, Sound n) :
    Judges (EntryYields e) (inferOption (judgeOption e.value)) := by
  unfold EntryYields
  cases hvalue : e.value with
  | none => exact .pure fun _ => rfl
  | some n => exact h n hvalue

/-- The values of some properties belong to the fields with their names and types. -/
lemma evaluateEntries_returns {es : List (Entry Node)} {types : List Ty}
    (h : Forall₂ (fun e t => EntryYields e Γ t) es types) {scope : Dict Value}
    (hfits : ∀ e ∈ es, ∀ n ∈ e.value, n.Fits Γ scope) :
    Returns (Forall₂ (fun f entry => f.1 = entry.1 ∧ f.2.admits entry.2)
      ((es.map (·.name)).zip types)) (Node.evaluateEntries es scope) := by
  induction h with
  | nil => exact .pure .nil
  | @cons e t es types he _ ih =>
    obtain ⟨hfit, hrest⟩ := forall_mem_cons.mp hfits
    have ih := ih hrest
    obtain ⟨name, value⟩ := e
    cases value with
    | none =>
      obtain rfl : t = .any := he
      exact ih.bind fun entries hentries => .pure (.cons ⟨rfl, Ty.admits_any _⟩ hentries)
    | some n =>
      refine (he scope (hfit n rfl)).bind fun v hv => ?_
      exact ih.bind fun entries hentries => .pure (.cons ⟨rfl, hv⟩ hentries)

section Fields

variable {fields : List (String × Ty)} {entries : Dict Value}
  (h : Forall₂ (fun f entry => f.1 = entry.1 ∧ f.2.admits entry.2) fields entries)
include h

lemma keys_eq_of_fields : fields.map Prod.fst = Dict.keys entries := by
  induction h with
  | nil => rfl
  | cons hf _ ih => exact congrArg₂ List.cons hf.1 ih

lemma get?_of_fields (hkeys : (fields.map Prod.fst).Nodup) :
    ∀ f ∈ fields, ∃ v, Dict.get? entries f.1 = some v ∧ f.2.admits v := by
  induction h with
  | nil => exact nofun
  | @cons f entry fields entries hf _ ih =>
    obtain ⟨hnew, hrest⟩ := nodup_cons.mp hkeys
    refine forall_mem_cons.mpr ⟨⟨entry.2, ?_, hf.2⟩, fun g hg => ?_⟩
    · rw [hf.1]
      exact lookup_cons_self
    · obtain ⟨v, hv, hadmits⟩ := ih hrest g hg
      have hne : g.1 ≠ entry.1 := by
        rw [← hf.1]
        exact fun heq => hnew (heq ▸ mem_map_of_mem hg)
      refine ⟨v, ?_, hadmits⟩
      rw [Dict.get?, lookup_cons, beq_false_of_ne hne]
      exact hv

end Fields

lemma sound_object {properties : List (Entry Node)} (hkeys : (properties.map (·.name)).Nodup)
    (h : ∀ e ∈ properties, ∀ n ∈ e.value, Sound n) : Sound (.object p properties) := by
  simp only [Sound, judge, Judgement.ofExpr, inferObject, judgeEntries_eq, map_map]
  refine (Judges.inOrder fun e he => inferOption_judges (h e he)).bind fun types => ?_
  refine .pure fun Γ htypes scope hfits => ?_
  refine (evaluateEntries_returns htypes fun e he n hn => ?_).bind fun entries hentries => .pure ?_
  · exact hfits.part (mem_filterMap.mpr ⟨e, he, hn⟩)
  · have hnames : ((properties.map (·.name)).zip types).map Prod.fst = properties.map (·.name) :=
      map_fst_zip (by simp [htypes.length_eq])
    rw [← hnames] at hkeys
    have hentriesKeys := keys_eq_of_fields hentries
    refine Ty.admits_object_iff.mpr ⟨_, rfl, ?_⟩
    rw [Dict.ofEntries_of_nodup (hentriesKeys ▸ hkeys)]
    exact get?_of_fields hentries hkeys

/-- Nothing is claimed by the type of all values. -/
lemma yields_any (n : Node) : n.Yields Γ .any := fun _ _ => .any Ty.admits_any

lemma yields_binary {l r t : Ty} (hand : op ≠ "&&") (hor : op ≠ "||") (hl : left.Yields Γ l)
    (hr : right.Yields Γ r) (h : ∀ origin a b, l.admits a → r.admits b →
      Returns (fun v => t.admits v) (Value.binary origin op a b)) :
    (Node.binary p op left right).Yields Γ t := by
  intro scope hfits
  rw [Node.evaluate]
  · refine (hl scope (hfits.part mem_cons_self)).bind fun a ha => ?_
    refine (hr scope (hfits.part (mem_cons_of_mem _ mem_cons_self))).bind fun b hb => ?_
    exact h _ a b ha hb
  · exact hand
  · exact hor

/-- Operators that may leave out the second operand give one of the two. -/
lemma yields_logical {t : Ty} (hop : op ∈ logicalOperators) (hl : left.Yields Γ t)
    (hr : right.Yields Γ t) : (Node.binary p op left right).Yields Γ t := by
  intro scope hfits
  have hleft := hl scope (hfits.part mem_cons_self)
  have hright := hr scope (hfits.part (mem_cons_of_mem _ mem_cons_self))
  simp only [logicalOperators, mem_cons, not_mem_nil, or_false] at hop
  rcases hop with rfl | rfl
  · exact hleft.bind fun a ha => .ite (fun _ => hright) fun _ => .pure ha
  · exact hleft.bind fun a ha => .ite (fun _ => .pure ha) fun _ => hright

lemma sound_plus {l r : Ty} :
    Judges (fun Γ t => right.Yields Γ r → left.Yields Γ l →
        (Node.binary p "+" left right).Yields Γ t)
      (if l.same .string || r.same .string then return .string
        else if l.same .int && r.same .int then return .int
        else return .any) := by
  refine .ite (fun hstring => ?_) fun _ => .ite (fun hint => ?_) fun _ => ?_
  · refine .pure fun Γ hr hl => yields_binary (by decide) (by decide) hl hr ?_
    intro origin a b ha hb
    rcases Bool.or_eq_true_iff.mp hstring with hsame | hsame
    · obtain rfl := Ty.eq_of_same hsame
      exact Value.plus_string origin (.inl ha)
    · obtain rfl := Ty.eq_of_same hsame
      exact Value.plus_string origin (.inr hb)
  · obtain ⟨hl, hr⟩ := Bool.and_eq_true_iff.mp hint
    obtain rfl := Ty.eq_of_same hl
    obtain rfl := Ty.eq_of_same hr
    refine .pure fun Γ hr hl => yields_binary (by decide) (by decide) hl hr ?_
    exact fun origin a b ha hb => Value.plus_number origin ha hb
  · exact .pure fun _ _ _ => yields_any _

lemma sound_binary (hl : Sound left) (hr : Sound right) : Sound (.binary p op left right) := by
  have hstrict {ops : List String} (hops : "&&" ∉ ops ∧ "||" ∉ ops) (hop : ops.contains op) :
      op ≠ "&&" ∧ op ≠ "||" := by
    have hop : op ∈ ops := by simpa using hop
    exact ⟨fun h => hops.1 (h ▸ hop), fun h => hops.2 (h ▸ hop)⟩
  refine hl.bind fun l => hr.bind fun r => .ite (fun hop => ?_) fun _ => ?_
  · obtain rfl := beq_iff_eq.mp hop
    exact sound_plus
  refine .ite (fun hop => ?_) fun _ => .ite (fun hop => ?_) fun _ =>
    .ite (fun hop => ?_) fun _ => ?_
  · refine (inferUniform_judges op .int l r p).mono ?_
    rintro Γ _ ⟨rfl, rfl, rfl⟩ hr hl
    obtain ⟨hand, hor⟩ := hstrict (by decide) hop
    refine yields_binary hand hor hl hr fun origin a b _ _ => ?_
    exact Value.binary_number (by simpa using hop) origin a b
  · refine .pure fun Γ hr hl => ?_
    obtain ⟨hand, hor⟩ := hstrict (by decide) hop
    refine yields_binary hand hor hl hr fun origin a b _ _ => ?_
    exact Value.binary_bool (by simpa using hop) origin a b
  · refine (inferUniform_judges op .bool l r p).mono ?_
    rintro Γ _ ⟨rfl, rfl, rfl⟩ hr hl
    exact yields_logical (by simpa using hop) hl hr
  · exact .pure fun _ _ _ => yields_any _

lemma sound_unary {operand : Node} (h : Sound operand) : Sound (.unary p op operand) := by
  refine h.bind fun t => .ite (fun hop => ?_) fun hop => .ite (fun _ => ?_) fun _ => ?_
  · refine .ite (fun _ => .report_pure _ _) fun _ => .pure fun Γ _ scope _ => ?_
    exact .after fun v => .ite (fun _ => .pure rfl) fun hnot => absurd hop hnot
  · refine .ite (fun _ => .report_pure _ _) fun _ => .pure fun Γ _ scope _ => ?_
    refine .after fun v => .ite (fun hnot => absurd hnot hop) fun _ => .pure ?_
    exact Value.isNumber_ofNumber _ _
  · exact .pure fun _ _ => yields_any _

lemma sound_member {obj : Node} (h : Sound obj) (property : String) (index : Option Node) :
    Sound (.member p obj property false index) := by
  simp only [Sound, judge, Judgement.ofExpr, inferMember, Bool.false_eq_true, if_false]
  refine h.bind fun t => ?_
  split
  next fields =>
    refine .pure fun Γ hobj scope hfits => ?_
    refine (hobj scope (hfits.part mem_cons_self)).bind fun v hv => ?_
    obtain ⟨entries, rfl, hentries⟩ := Ty.admits_object_iff.mp hv
    cases hfield : (Ty.object fields).field? property with
    | none => exact .any Ty.admits_any
    | some t =>
      obtain ⟨before, after, hfields, -⟩ := lookup_eq_some_iff.mp hfield
      obtain ⟨w, hw, hadmits⟩ := hentries (property, t) (by simp [hfields])
      refine .pure ?_
      rw [hw]
      exact hadmits
  next => exact .pure fun _ _ => yields_any _

lemma sound_conditional {condition consequent alternate : Node} (hc : Sound condition)
    (hyes : Sound consequent) (hno : Sound alternate) :
    Sound (.conditional p condition consequent alternate) := by
  refine hc.bind fun _ => hyes.bind fun yes => hno.bind fun no => .pure fun Γ hno hyes _ => ?_
  split
  next hsame =>
    obtain rfl := Ty.eq_of_same hsame
    intro scope hfits
    have hpart (k : Node) (hk : k ∈ [condition, consequent, alternate]) : k.Fits Γ scope :=
      hfits.part hk
    refine .after fun _ => .ite (fun _ => ?_) fun _ => ?_
    · exact hyes scope (hpart _ (by simp))
    · exact hno scope (hpart _ (by simp))
  next => exact yields_any _

/-- One case for each form of data. -/
lemma sound_of_isData (h : n.IsData) : Sound n := by
  induction n using Node.parts_induction with
  | h n ih =>
    have ih (k : Node) (hk : k ∈ n.parts) : Sound k := ih k hk (h.part hk)
    have hform := h n n.mem_outline_self
    cases n with
    | identifier p name => exact sound_identifier name
    | number p value =>
      cases value with
      | number n => exact sound_number n
      | truth => cases hform
    | string p value => exact sound_string value
    | boolean p value => exact sound_boolean value
    | null => exact sound_null
    | template =>
      refine sound_template fun e he => ih e ?_
      exact mem_filterMap.mpr ⟨_, he, rfl⟩
    | array => exact sound_array ih
    | object =>
      refine sound_object (of_decide_eq_true hform) fun e he n hn => ih n ?_
      exact mem_filterMap.mpr ⟨e, he, hn⟩
    | binary => exact sound_binary (ih _ (by simp [Node.parts])) (ih _ (by simp [Node.parts]))
    | unary => exact sound_unary (ih _ mem_cons_self)
    | member p obj property computed index =>
      obtain rfl : computed = false := by simpa [Node.isDataForm] using hform
      exact sound_member (ih obj mem_cons_self) property index
    | conditional =>
      exact sound_conditional (ih _ (by simp [Node.parts])) (ih _ (by simp [Node.parts]))
        (ih _ (by simp [Node.parts]))
    | _ => cases hform

/-- If the checker infers a type for a data expression and reports nothing, and the names in the
expression stand for values of their types, then the value of the expression, if it has one, is a
value of the inferred type. -/
theorem evaluate_admits {e : Node} (he : e.IsData) {before after : Checker} {t : Ty}
    (hinfer : (judge e).infer.run before = (t, after))
    (hquiet : after.diagnostics = before.diagnostics) {scope : Dict Value}
    (hfits : e.Fits before.scope scope) {v : Value} (hvalue : e.evaluate scope = .ok v) :
    t.admits v := by
  obtain ⟨t', ds, hrun, hyields⟩ := sound_of_isData he before
  obtain ⟨rfl, rfl⟩ := Prod.mk.inj (hinfer.symm.trans hrun)
  have hnil : ds = [] := List.append_right_eq_self.mp hquiet
  exact (hyields hnil scope hfits).value v hvalue

/-- Both branches of a conditional are objects with the same fields, so its member is a number. -/
theorem evaluate_admits_member :
    let name (s : String) : Node := .identifier none s
    let number (n : Int) : Node := .number none (.number (.int n))
    let object (label less : Node) : Node :=
      .object none [⟨"label", some label⟩, ⟨"less", some less⟩]
    let condition : Node := .binary none "&&" (name "flag") (.binary none "<" (name "n") (number 2))
    let e : Node := .member none
      (.conditional none condition
        (object (.binary none "+" (.string none "n") (name "n")) (.unary none "-" (name "n")))
        (object (.string none "") (number 0))) "less" false none
    let frames := [(none, [("n", Ty.int)]), (some 0, [("flag", Ty.bool)])]
    let checker : Checker := { scopes := ⟨⟨frames⟩, 1, Nat.one_lt_two⟩ }
    let scope : Dict Value := [("n", .int 1), ("flag", .bool true)]
    (judge e).infer.run checker = (.int, checker) ∧ e.evaluate scope = .ok (.int (-1)) ∧
      Ty.int.admits (.int (-1)) := by
  intro name number object condition e frames checker scope
  have hdata : e.IsData := by
    have hforms : e.outline.all Node.isDataForm := by decide
    exact List.all_eq_true.mp hforms
  have hfits : e.Fits checker.scope scope := by
    intro place s _ t ht
    by_cases hflag : s = "flag"
    · subst hflag
      obtain rfl : Ty.bool = t := Option.some.inj ht
      exact ⟨.bool true, rfl, rfl⟩
    by_cases hn : s = "n"
    · subst hn
      obtain rfl : Ty.int = t := Option.some.inj ht
      exact ⟨.int 1, rfl, rfl⟩
    · have hscope : checker.scope = [[("flag", .bool)], [("n", .int)]] := rfl
      simp [hscope, Scope.lookup?, Dict.get?, List.lookup_cons, beq_false_of_ne hflag,
        beq_false_of_ne hn] at ht
  have hinfer : (judge e).infer.run checker = (.int, checker) := rfl
  have hvalue : e.evaluate scope = .ok (.int (-1)) := rfl
  exact ⟨hinfer, hvalue, evaluate_admits hdata hinfer rfl hfits hvalue⟩

end Types

end UiScript
