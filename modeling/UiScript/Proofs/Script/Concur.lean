import Mathlib.Data.List.Chain
import Mathlib.Data.List.Forall2
import Mathlib.Data.Option.Basic
import UiScript.Proofs.Script.Forms
import UiScript.Proofs.Script.Marks
import UiScript.Proofs.Syntax.Trees

/-!
# Runs that end in the same way

The runs of the generator with all fallbacks are compared on the same nodes. Each construct succeeds
under each fallback, with the same code, if its parts do, and its code is free of a mark if theirs
is. Only components, and the handlers of events, bring in names of their own. On the way style rules
are added.
-/

namespace UiScript.Script

open List

attribute [local simp] String.append_assoc

/-! ### Runs that succeed -/

section

variable (k : Mark) (R : String → Prop)

/-- No mark is published, outside components there is no state, and the style rules have a
property. -/
structure Generator.Sound (g : Generator) : Prop where
  published : FreeAll k g.published
  stateNames : k ≠ .closing → g.stateNames = []
  css : ∀ rule ∈ g.css, R rule

/-- What no part of a run changes: the generator stays sound, the page keeps its title and
components, and style rules are only added. -/
structure Generator.Leads (g g' : Generator) : Prop where
  sound : g.Sound k R → g'.Sound k R
  title : g'.title = g.title
  components : g'.components = g.components
  css : g.css <+: g'.css

abbrev Fallback := Node → Gen String

/-- From any sound generator the action succeeds under each fallback, with related values and one
generator. -/
def Concur {α : Type} (V : (Fallback → α) → Prop) (m : Fallback → Gen α) : Prop :=
  ∀ ⦃g : Generator⦄, g.Sound k R →
    ∃ a g', (∀ u, (m u).run g = .ok (a u, g')) ∧ V a ∧ g.Leads k R g'

/-- The action gives the same value under each fallback, and the value has a property. -/
abbrev Yields {α : Type} (P : α → Prop) (m : Fallback → Gen α) : Prop :=
  Concur k R (fun a => ∃ b, P b ∧ a = fun _ => b) m

/-- The action gives code without the mark. -/
abbrev CodeFree (m : Fallback → Gen String) : Prop :=
  Yields k R (Free k) m

/-- The action gives lines of code without the mark. -/
abbrev LinesFree (m : Fallback → Gen (List String)) : Prop :=
  Yields k R (FreeAll k) m

end

variable {k : Mark} {R : String → Prop} {names : List String}

lemma Generator.Leads.trans {g g' g'' : Generator} (h : g.Leads k R g') (h' : g'.Leads k R g'') :
    g.Leads k R g'' :=
  ⟨fun hg => h'.sound (h.sound hg), h'.title.trans h.title, h'.components.trans h.components,
    h.css.trans h'.css⟩

/-- Nothing that matters is changed. -/
lemma Generator.Leads.of_same {g g' : Generator}
    (hnames : k ≠ .closing → g.stateNames = [] → g'.stateNames = [])
    (hpublished : g'.published = g.published) (htitle : g'.title = g.title)
    (hcomponents : g'.components = g.components) (hcss : g'.css = g.css) : g.Leads k R g' :=
  ⟨fun hg => ⟨hpublished ▸ hg.published, fun hk => hnames hk (hg.stateNames hk), hcss ▸ hg.css⟩,
    htitle, hcomponents, hcss ▸ prefix_rfl⟩

namespace Concur

variable {α β : Type} {V : (Fallback → α) → Prop} {W : (Fallback → β) → Prop} {P : α → Prop}
  {Q : β → Prop} {m : Fallback → Gen α} {f : Fallback → α → Gen β}

lemma pure {a : Fallback → α} (h : V a) : Concur k R V fun u => Pure.pure (a u) :=
  fun g _ => ⟨a, g, fun _ => rfl, h, .of_same (fun _ => id) rfl rfl rfl rfl⟩

lemma value {a : α} (h : P a) : Yields k R P fun _ => Pure.pure a := pure ⟨a, h, rfl⟩

lemma bind (h : Concur k R V m) (hf : ∀ a, V a → Concur k R W fun u => f u (a u)) :
    Concur k R W fun u => m u >>= f u := by
  intro g hg
  obtain ⟨a, g', hm, hv, hleads⟩ := h hg
  obtain ⟨b, g'', hfa, hw, hleads'⟩ := hf a hv (hleads.sound hg)
  refine ⟨b, g'', fun u => ?_, hw, hleads.trans hleads'⟩
  rw [StateT.run_bind, hm]
  exact hfa u

lemma andThen (h : Yields k R P m) (hf : ∀ a, P a → Concur k R W fun u => f u a) :
    Concur k R W fun u => m u >>= f u :=
  h.bind fun _ ⟨b, hb, hab⟩ => hab ▸ hf b hb

/-- What is made of the value of a run. -/
lemma bindPure {f : α → β} (h : Yields k R P m) (hf : ∀ a, P a → Q (f a)) :
    Yields k R Q fun u => m u >>= fun a => Pure.pure (f a) :=
  h.andThen fun a ha => value (hf a ha)

lemma map {f : α → β} (h : Yields k R P m) (hf : ∀ a, P a → Q (f a)) :
    Yields k R Q fun u => f <$> m u := by
  exact h.bindPure hf

lemma mono {P' : α → Prop} (h : Yields k R P m) (hP : ∀ a, P a → P' a) : Yields k R P' m := by
  intro g hg
  obtain ⟨a, g', hm, ⟨b, hb, hab⟩, hg'⟩ := h hg
  exact ⟨a, g', hm, ⟨b, hP b hb, hab⟩, hg'⟩

lemma any (h : Concur k R V m) : Concur k R (fun _ => True) m := by
  intro g hg
  obtain ⟨a, g', hm, -, hg'⟩ := h hg
  exact ⟨a, g', hm, trivial, hg'⟩

lemma getBind {f : Fallback → Generator → Gen α}
    (h : ∀ g, g.Sound k R → Concur k R V fun u => f u g) : Concur k R V fun u => get >>= f u :=
  fun g hg => h g hg hg

lemma modify {f : Generator → Generator} (h : ∀ g : Generator, g.Leads k R (f g)) :
    Yields k R (fun _ => True) fun _ => modify f :=
  fun g _ => ⟨_, f g, fun _ => rfl, ⟨(), trivial, rfl⟩, h g⟩

/-- Other state names, if there are none outside components. -/
lemma withStateNames {change : List String → List String}
    (hchange : k ≠ .closing → change [] = []) (h : Concur k R V m) :
    Concur k R V fun u => withStateNames change (m u) := by
  refine .getBind fun g hg => andThen (.modify fun g' => .of_same (fun hk _ => ?_) rfl rfl rfl rfl)
    fun _ _ => h.bind fun a ha => andThen
      (.modify fun g' => .of_same (fun hk _ => hg.stateNames hk) rfl rfl rfl rfl)
      fun _ _ => .pure ha
  exact hg.stateNames hk ▸ hchange hk

lemma rebinding (h : Concur k R V m) : Concur k R V fun u => rebinding names (m u) :=
  h.withStateNames fun _ => rfl

lemma ite {b : Bool} {m n : Fallback → Gen α} (hm : Concur k R V m) (hn : Concur k R V n) :
    Concur k R V fun u => if b then m u else n u := by
  cases b with
  | true => exact hm
  | false => exact hn

/-- The values of some actions in order, each with a property of its own. -/
lemma inOrder {S : α → β → Prop} {as : List α} (h : ∀ a ∈ as, Yields k R (S a) fun u => f u a) :
    Yields k R (Forall₂ S as) fun u => inOrder (as.map (f u)) := by
  induction as with
  | nil => exact .value .nil
  | cons a as ih =>
    obtain ⟨ha, has⟩ := forall_mem_cons.mp h
    exact ha.andThen fun b hb => (ih has).bindPure fun bs hbs => .cons hb hbs

/-- The values of some actions in order, all with one property. -/
lemma inOrderAll {as : List α} (h : ∀ a ∈ as, Yields k R Q fun u => f u a) :
    Yields k R (fun bs => ∀ b ∈ bs, Q b) fun u => Script.inOrder (as.map (f u)) := by
  refine (inOrder (S := fun _ => Q) h).mono fun bs hbs => ?_
  clear h
  induction hbs with
  | nil => exact nofun
  | cons hb _ ih => exact forall_mem_cons.mpr ⟨hb, ih⟩

end Concur

/-! ### Nodes -/

/-- The forms that a node has in a position give the same code under each fallback. State of a
component is written with the names of components. -/
structure Forms.Fit (k : Mark) (R : String → Prop) (pos : Syntax.Position) (f : Fallback → Forms) :
    Prop where
  expr : pos = .expression → CodeFree k R fun u => (f u).expr
  stmt : pos = .statement → CodeFree k R fun u => (f u).stmt
  cell : pos = .statement → k = .closing → CodeFree k R fun u => (f u).cell
  child : pos ≠ .expression → ∀ parent, Free k parent → LinesFree k R fun u => (f u).child parent

section Constructs

/-- All fallbacks lead to the same code for a node. -/
abbrev Fits (k : Mark) (R : String → Prop) (pos : Syntax.Position) (n : Node) : Prop :=
  Forms.Fit k R pos fun u => lowerWith u n

variable {n : Node} {ns : List Node} {es : List (Entry Node)} {ps : List (Param Node)}
  {name : String}

lemma operand_fits {isLoose : Node → Bool} (h : Fits k R .expression n) :
    CodeFree k R fun u => operand isLoose (n, lowerWith u n) := by
  change CodeFree k R fun u => do
    let code ← (lowerWith u n).expr
    return if isLoose n then "(" ++ code ++ ")" else code
  refine (h.expr rfl).bindPure fun code hcode => ?_
  split_ifs
  · simp (disch := decide) [hcode]
  · exact hcode

lemma codes_fit (h : ∀ n ∈ ns, Fits k R .expression n) :
    LinesFree k R fun u => inOrder ((lowerListWith u ns).map (·.2.expr)) := by
  simp only [lowerListWith_eq_map, map_map]
  exact .inOrderAll fun n hn => (h n hn).expr rfl

lemma statements_fit (h : ∀ n ∈ ns, Fits k R .statement n) :
    LinesFree k R fun u => inOrder ((lowerListWith u ns).map (·.2.stmt)) := by
  simp only [lowerListWith_eq_map, map_map]
  exact .inOrderAll fun n hn => (h n hn).stmt rfl

lemma block_fits (h : ∀ n ∈ ns, Fits k R .statement n) :
    CodeFree k R fun u => block (lowerListWith u ns) := by
  simp only [block, boundNames_lowerListWith]
  refine .rebinding ((statements_fit h).bindPure fun codes hcodes => ?_)
  split_ifs
  · exact .of_isFree (by decide)
  · exact (Free.unlines fun s hs => hcodes s (mem_of_mem_filter hs)).between

lemma parameters_fit (hnames : ∀ q ∈ ps, Free k q.name)
    (h : ∀ q ∈ ps, ∀ v ∈ q.default, Fits k R .expression v) :
    CodeFree k R fun u => parameters (lowerParamsWith u ps) := by
  simp only [parameters, lowerParamsWith_eq_map, map_map]
  refine (Concur.inOrderAll (Q := Free k) fun q hq => ?_).bindPure
    fun codes hcodes => Free.commaSeparated hcodes
  have hname := hnames q hq
  have hdefault := h q hq
  obtain ⟨name, written, value⟩ := q
  cases value with
  | none => exact .value hname
  | some v =>
    dsimp only [Function.comp_apply, lowerOptionWith]
    refine ((hdefault v rfl).expr rfl).bindPure fun code hcode => ?_
    simp (disch := decide) [hname, hcode]

lemma required_fits {m : Option Node} (hsome : m.isSome) (h : ∀ v ∈ m, Fits k R .expression v) :
    CodeFree k R fun u => required (lowerOptionWith u m) := by
  cases m with
  | none => cases hsome
  | some v => exact (h v rfl).expr rfl

/-! ### Expressions -/

/-- Only inside components there is state to write to. -/
lemma assignment_fits {target value : Node} (ht : Fits k R .expression target)
    (hname : ∀ name ∈ bareName? target, Free k name) (hv : Fits k R .expression value) :
    CodeFree k R fun u => assignment (target, lowerWith u target) (value, lowerWith u value) := by
  refine (hv.expr rfl).andThen fun code hcode => ?_
  dsimp only
  cases hbare : bareName? target with
  | some name =>
    have hname := hname name hbare
    refine .getBind fun g hg => ?_
    by_cases hk : k = .closing
    · subst hk
      refine .ite (.value ?_) (.value ?_) <;>
        simp (disch := decide) [Free.opens_append, hname, hcode]
    · rw [hg.stateNames hk]
      refine .value ?_
      simp (disch := decide) [hname, hcode]
  | none =>
    refine (ht.expr rfl).bindPure fun head hhead => ?_
    simp (disch := decide) [hhead, hcode]

lemma arrowFunction_fits {body : Fallback → Body Lowered} (hnames : ∀ q ∈ ps, Free k q.name)
    (h : ∀ q ∈ ps, ∀ v ∈ q.default, Fits k R .expression v)
    (hbody : CodeFree k R fun u =>
      match body u with | .block ns => block ns | .value n => operand isObject n) :
    CodeFree k R fun u => arrowFunction (lowerParamsWith u ps) (body u) := by
  simp only [arrowFunction, names_lowerParamsWith]
  refine (parameters_fit hnames h).andThen fun head hhead => ?_
  refine hbody.rebinding.bindPure fun code hcode => ?_
  simp (disch := decide) [hhead, hcode]

lemma callArguments_fit (isComponent : Bool) (hnames : ∀ n ∈ ns, ∀ name ∈ bareName? n, Free k name)
    (h : ∀ n ∈ ns, Fits k R .expression n) :
    CodeFree k R fun u => callArguments isComponent (lowerListWith u ns) := by
  refine .ite ?_ ((codes_fit h).bindPure fun codes hcodes => Free.commaSeparated hcodes)
  simp only [lowerListWith_eq_map, map_map]
  refine (Concur.inOrderAll (Q := Free k) fun n hn => ?_).bindPure
    fun codes hcodes => Free.braced_iff.mpr (Free.commaSeparated hcodes)
  dsimp only [Function.comp_apply]
  cases hbare : bareName? n with
  | some name => exact .value (hnames n hn name hbare)
  | none =>
    exact ((h n hn).expr rfl).bindPure fun code hcode =>
      (Free.opening_append (by decide)).mpr hcode

lemma call_fits (hn : Fits k R .expression n) (hnames : ∀ a ∈ ns, ∀ name ∈ bareName? a, Free k name)
    (h : ∀ a ∈ ns, Fits k R .expression a) :
    CodeFree k R fun u => call (n, lowerWith u n) (lowerListWith u ns) := by
  refine (operand_fits hn).andThen fun head hhead => .getBind fun g _ => ?_
  dsimp only
  refine (callArguments_fit _ hnames h).bindPure fun code hcode => ?_
  simp (disch := decide) [hhead, hcode]

lemma free_entry {key code : String} (hkey : NameFree k key) (hcode : Free k code) :
    Free k (objectKey key ++ ": " ++ code) := by
  simp (disch := decide) [Free.objectKey hkey, hcode]

lemma objectLiteral_fits (hkeys : ∀ e ∈ es, NameFree k e.name) (hsome : ∀ e ∈ es, e.value.isSome)
    (h : ∀ e ∈ es, ∀ v ∈ e.value, Fits k R .expression v) :
    CodeFree k R fun u => objectLiteral (lowerEntriesWith u es) := by
  simp only [objectLiteral, lowerEntriesWith_eq_map, map_map]
  refine (Concur.inOrderAll (Q := Free k) fun e he => ?_).bindPure
    fun codes hcodes => Free.braced_iff.mpr (Free.commaSeparated hcodes)
  exact (required_fits (hsome e he) (h e he)).bindPure fun code hcode =>
    free_entry (hkeys e he) hcode

lemma instanceCode_fits (hname : Free k name) (hkeys : ∀ e ∈ es, Free k e.name)
    (h : ∀ e ∈ es, ∀ v ∈ e.value, Fits k R .expression v) :
    CodeFree k R fun u => instanceCode name (lowerEntriesWith u es) := by
  simp only [instanceCode, lowerEntriesWith_eq_map, map_map]
  refine (Concur.inOrderAll (Q := Free k) fun e he => ?_).bindPure fun codes hcodes => ?_
  · have hvalue := h e he
    have hkey : NameFree k (if e.name.startsWith "@" then String.ofList (e.name.toList.drop 1)
        else e.name) := by
      intro _
      split_ifs
      · exact (hkeys e he).drop_one
      · exact hkeys e he
    obtain ⟨key, value⟩ := e
    cases value with
    | none => exact .value (free_entry hkey (.of_isFree (by decide)))
    | some v => exact ((hvalue v rfl).expr rfl).bindPure fun code hcode => free_entry hkey hcode
  · simp (disch := decide) [hname, Free.commaSeparated hcodes]

/-! ### Templates -/

/-- What a part of a template is written as. -/
def PartCode (k : Mark) (p : Part Node) (code : String) : Prop :=
  match p with
  | .text _ => Free k code
  | .hole _ => ∃ inner, Free k inner ∧ code = "$" ++ braced inner

/-- A text may end or start with a part of the mark, but no other text stands beside it. -/
lemma free_join_parts {parts : List (Part Node)} {codes : List String}
    (halternate : Syntax.Alternate parts) (h : Forall₂ (PartCode k) parts codes) :
    Free k (String.join codes) := by
  have hbrace : k.has '$' = false ∧ k.has '\x7d' = false := by cases k <;> decide
  induction h with
  | nil => exact .of_isFree (by decide)
  | @cons part code parts codes hcode hcodes ih =>
    obtain ⟨hnext, hrest⟩ := isChain_cons.mp halternate
    rw [String.join_cons]
    cases part with
    | text =>
      refine (Free.append_iff (.inr fun c hc => ?_)).mpr ⟨hcode, ih hrest⟩
      cases hcodes with
      | nil => cases hc
      | @cons next _ _ _ hcode' _ =>
        cases next with
        | text => exact absurd ⟨rfl, rfl⟩ (hnext _ rfl)
        | hole =>
          obtain ⟨inner, -, rfl⟩ := hcode'
          rw [String.join_cons, String.toList_append, String.toList_append] at hc
          cases hc
          exact hbrace.1
    | hole =>
      obtain ⟨inner, hinner, rfl⟩ := hcode
      refine (Free.append_iff (.inl fun c hc => ?_)).mpr ⟨?_, ih hrest⟩
      · rw [braced, ← String.append_assoc, String.toList_append,
          getLast?_append_of_ne_nil _ (by decide)] at hc
        cases hc
        exact hbrace.2
      · exact (Free.opening_append (by decide)).mpr (Free.braced_iff.mpr hinner)

lemma template_fits {parts : List (Part Node)} (halternate : Syntax.Alternate parts)
    (htexts : ∀ s, .text s ∈ parts → NameFree k s)
    (h : ∀ e, .hole e ∈ parts → Fits k R .expression e) :
    CodeFree k R fun u => template (lowerPartsWith u parts) := by
  simp only [template, lowerPartsWith_eq_map, map_map]
  refine (Concur.inOrder (S := PartCode k) fun p hp => ?_).bindPure fun codes hcodes => ?_
  · cases p with
    | text s => exact .value (Free.breakClosings (htexts s hp))
    | hole e => exact ((h e hp).expr rfl).bindPure fun code hcode => ⟨code, hcode, rfl⟩
  · simp (disch := decide) [free_join_parts halternate hcodes]

/-! ### Markup -/

lemma newElement_fits : CodeFree k R fun _ => newElement :=
  fun g _ => ⟨_, _, fun _ => rfl, ⟨_, Free.elementVariable g.nextElement, rfl⟩,
    .of_same (fun _ => id) rfl rfl rfl rfl⟩

/-- The handler of an event renders. -/
lemma attributeCode_fits {var : String} {value : Option Node} (hvar : Free k var)
    (hname : Free k name) (hevent : name.startsWith "@" → k ≠ .render)
    (h : ∀ v ∈ value, Fits k R .expression v) :
    CodeFree k R fun u => attributeCode var name (lowerOptionWith u value) := by
  unfold attributeCode
  by_cases hat : name.startsWith "@"
  · have hdrop := hname.drop_one
    have hlistener {handler : String} (hhandler : Free k handler) :
        Free k (var ++ ".addEventListener('" ++ String.ofList (name.toList.drop 1) ++
          "', function(e) " ++ braced (" (" ++ handler ++ ")(e); __render(); ") ++ ");") := by
      have hclosing : k.closes ")(e); __render(); " := by
        cases k with
        | render => exact absurd rfl (hevent hat)
        | closing | state => decide
      generalize String.ofList (name.toList.drop 1) = event at hdrop ⊢
      simp (disch := first | exact hclosing | decide) [Free.append_closes,
        hvar, hdrop, hhandler]
    simp only [if_pos hat]
    cases value with
    | none => exact .value (hlistener (.of_isFree (by decide)))
    | some v => exact ((h v rfl).expr rfl).bindPure fun code hcode => hlistener hcode
  · simp only [if_neg hat]
    cases value with
    | none =>
      refine .value ?_
      simp (disch := decide) [hvar, hname]
    | some v =>
      refine ((h v rfl).expr rfl).andThen fun code hcode => ?_
      dsimp only
      refine .ite (.value ?_) (.ite (.value ?_) (.value ?_)) <;>
        simp (disch := decide) [hvar, hname, hcode]

variable {parent : String}

lemma childLines_fit (hparent : Free k parent) {pos : Syntax.Position}
    (h : ∀ n ∈ ns, Fits k R pos n) (hpos : pos ≠ .expression) :
    LinesFree k R fun u => childLines parent (lowerListWith u ns) := by
  simp only [childLines, lowerListWith_eq_map, map_map]
  refine (Concur.inOrderAll fun n hn => (h n hn).child hpos parent hparent).bindPure ?_
  intro blocks hblocks line hline
  obtain ⟨block, hblock, hline⟩ := mem_flatten.mp hline
  exact hblocks block hblock line hline

lemma free_appendChild {code : String} (hparent : Free k parent) (hcode : Free k code) :
    Free k (parent ++ ".appendChild(" ++ code ++ ");") := by
  simp (disch := decide) [hparent, hcode]

lemma elementLines_fit (htag : Free k name) (hnames : ∀ e ∈ es, Free k e.name)
    (hevents : ∀ e ∈ es, e.name.startsWith "@" → k ≠ .render)
    (he : ∀ e ∈ es, ∀ v ∈ e.value, Fits k R .expression v)
    (h : ∀ n ∈ ns, Fits k R .child n) (hparent : Free k parent) : LinesFree k R fun u =>
      elementLines name (lowerEntriesWith u es) (lowerListWith u ns) parent := by
  refine newElement_fits.andThen fun var hvar => ?_
  simp only [lowerEntriesWith_eq_map, map_map]
  refine (Concur.inOrderAll (Q := Free k) fun e hmem => attributeCode_fits hvar (hnames e hmem)
    (hevents e hmem) (he e hmem)).andThen fun codes hcodes => ?_
  refine (childLines_fit hvar h nofun).bindPure fun inner hinner => ?_
  simp only [FreeAll, forall_mem_append, forall_mem_singleton]
  refine ⟨⟨⟨?_, hcodes⟩, hinner⟩, free_appendChild hparent hvar⟩
  simp (disch := decide) [hvar, htag]

lemma elementExpr_fits {lines : Fallback → String → Gen (List String)}
    (h : ∀ parent, Free k parent → LinesFree k R fun u => lines u parent) :
    CodeFree k R fun u => elementExpr (lines u) := by
  refine (h "__root" (.of_isFree (by decide))).bindPure fun inner hinner => ?_
  have hcode : FreeAll k (["const __root = document.createDocumentFragment();"] ++ inner ++
      ["return __root.firstChild;"]) := by
    simp only [FreeAll, forall_mem_append, forall_mem_singleton]
    exact ⟨⟨.of_isFree (by decide), hinner⟩, .of_isFree (by decide)⟩
  rw [Free.append_closing (by decide), Free.opening_append (by decide)]
  exact (Free.unlines hcode).between

/-- Whether an alternative is another conditional does not depend on the fallback. -/
lemma elseIf?_lowerListWith (ns : List Node) :
    (∀ u, elseIf? (lowerListWith u ns) = none) ∨
      ∃ n ∈ ns, ∀ u, elseIf? (lowerListWith u ns) = some (lowerWith u n) := by
  match ns with
  | [] => exact .inl fun _ => rfl
  | [n] =>
    by_cases hif : isIf n
    · exact .inr ⟨n, mem_cons_self, fun u => if_pos hif⟩
    · exact .inl fun u => if_neg hif
  | _ :: _ :: _ => exact .inl fun _ => rfl

/-! ### Blocks -/

lemma loopHead_fits (hname : Free k name) (hn : Fits k R .expression n) :
    CodeFree k R fun u => loopHead name (n, lowerWith u n) := by
  refine (hn.expr rfl).bindPure fun code hcode => ?_
  simp (disch := decide) [hname, hcode]

section Blocks

variable (hn : Fits k R .expression n) (h : ∀ n ∈ ns, Fits k R .statement n)
include h

lemma nestedLines_fit (hparent : Free k parent) :
    LinesFree k R fun u => nestedLines parent (lowerListWith u ns) := by
  refine (childLines_fit hparent h nofun).bindPure fun lines hlines line hline => ?_
  obtain ⟨inner, hinner, rfl⟩ := mem_map.mp hline
  exact (Free.opening_append (by decide)).mpr (hlines inner hinner)

lemma function_fits (hname : Free k name) (hnames : ∀ q ∈ ps, Free k q.name)
    (hdefaults : ∀ q ∈ ps, ∀ v ∈ q.default, Fits k R .expression v) :
    CodeFree k R fun u => function name (lowerParamsWith u ps) (lowerListWith u ns) := by
  simp only [function, names_lowerParamsWith]
  refine .rebinding ((parameters_fit hnames hdefaults).andThen fun head hhead => ?_)
  refine (block_fits h).bindPure fun code hcode => ?_
  simp (disch := decide) [hname, hhead, hcode]

lemma effect_fits : CodeFree k R fun u => effect (lowerListWith u ns) := by
  refine (block_fits h).bindPure fun code hcode => ?_
  simp (disch := decide) [hcode]

include hn

lemma childLoop_fits (hname : Free k name) (hparent : Free k parent) :
    LinesFree k R fun u => childLoop name (n, lowerWith u n) (lowerListWith u ns) parent := by
  refine (loopHead_fits hname hn).andThen fun head hhead => ?_
  refine (nestedLines_fit h hparent).rebinding.bindPure fun inner hinner => ?_
  refine forall_mem_append.mpr ⟨forall_mem_cons.mpr ⟨?_, hinner⟩, ?_⟩
  · exact (Free.append_closing (by decide)).mpr hhead
  · exact forall_mem_singleton.mpr (.of_isFree (by decide))

lemma forLoop_fits (hname : Free k name) :
    CodeFree k R fun u => forLoop name (n, lowerWith u n) (lowerListWith u ns) := by
  refine (loopHead_fits hname hn).andThen fun head hhead => ?_
  refine (block_fits h).rebinding.bindPure fun code hcode => ?_
  simp (disch := decide) [hhead, hcode]

variable {alternate : Option (List Node)}
  (halternate : ∀ ms ∈ alternate, ∀ m ∈ ms, Fits k R .statement m)
include halternate

lemma childConditional_fits (hparent : Free k parent) :
    LinesFree k R fun u => childConditional (n, lowerWith u n) (lowerListWith u ns)
      (lowerOptionListWith u alternate) parent := by
  refine (hn.expr rfl).andThen fun code hcode => ?_
  have hhead : Free k ("if (" ++ code ++ ") \x7b") := by
    simp (disch := decide) [hcode]
  refine (nestedLines_fit h hparent).andThen fun inner hinner => ?_
  have hstart : FreeAll k (("if (" ++ code ++ ") \x7b") :: inner) :=
    forall_mem_cons.mpr ⟨hhead, hinner⟩
  have hbrace : FreeAll k ["\x7d"] := forall_mem_singleton.mpr (.of_isFree (by decide))
  cases alternate with
  | none => exact .value (forall_mem_append.mpr ⟨hstart, hbrace⟩)
  | some others =>
    have hothers := halternate others rfl
    dsimp only [lowerOptionListWith]
    rcases elseIf?_lowerListWith others with hnone | ⟨m, hm, hsome⟩
    · simp only [hnone]
      refine (nestedLines_fit hothers hparent).bindPure fun outer houter => ?_
      refine forall_mem_append.mpr ⟨forall_mem_append.mpr ⟨hstart, ?_⟩, hbrace⟩
      exact forall_mem_cons.mpr ⟨.of_isFree (by decide), houter⟩
    · simp only [hsome]
      refine ((hothers m hm).child nofun parent hparent).andThen fun lines hlines => ?_
      cases lines with
      | nil => exact .value hstart
      | cons =>
        obtain ⟨hfirst, hrest⟩ := forall_mem_cons.mp hlines
        refine .value (forall_mem_append.mpr ⟨hstart, forall_mem_cons.mpr ⟨?_, hrest⟩⟩)
        exact (Free.opening_append (by decide)).mpr hfirst

lemma conditional_fits : CodeFree k R fun u => conditional (n, lowerWith u n) (lowerListWith u ns)
      (lowerOptionListWith u alternate) := by
  refine (hn.expr rfl).andThen fun c hc => (block_fits h).andThen fun yes hyes => ?_
  have helse {no : String} (hno : Free k no) :
      Free k ("if (" ++ c ++ ") " ++ yes ++ " else " ++ no) := by
    simp (disch := decide) [hc, hyes, hno]
  cases alternate with
  | none =>
    refine .value ?_
    simp (disch := decide) [hc, hyes]
  | some others =>
    have hothers := halternate others rfl
    dsimp only [lowerOptionListWith]
    rcases elseIf?_lowerListWith others with hnone | ⟨m, hm, hsome⟩
    · simp only [hnone]
      exact (block_fits hothers).bindPure fun no hno => helse hno
    · simp only [hsome]
      exact ((hothers m hm).stmt rfl).bindPure fun no hno => helse hno

end Blocks

/-! ### Statements -/

def styleName : Option String → String
  | some n => if n.isEmpty then "default" else n
  | none => "default"

def styleRule (name : Option String) (lines : List String) : String :=
  "." ++ ("lumina-" ++ styleName name) ++ " " ++ braced ("\n" ++ Text.unlines lines ++ "\n")

/-- What a property of a style is written as. Only numbers and strings are not written as code. -/
def PropertyLine (k : Mark) (e : Entry Node) (line : String) : Prop :=
  ∃ v ∈ e.value, ∃ text, line = "  " ++ kebab e.name ++ ": " ++ text ++ ";" ∧
    match styleText? v with
    | some plain => text = plain
    | none => Free k text

lemma propertyLine_fits {e : Entry Node} (hsome : e.value.isSome)
    (h : ∀ v ∈ e.value, Fits k R .expression v) :
    Yields k R (PropertyLine k e) fun u => do
      return "  " ++ kebab e.name ++ ": " ++ (← styleValue (lowerOptionWith u e.value)) ++ ";" := by
  obtain ⟨v, hv⟩ := Option.isSome_iff_exists.mp hsome
  have hvalue : Yields k R (fun text => match styleText? v with
      | some plain => text = plain
      | none => Free k text) fun u => styleValue (lowerOptionWith u e.value) := by
    rw [hv]
    dsimp only [lowerOptionWith, styleValue]
    cases styleText? v with
    | some => exact .value rfl
    | none => exact (h v hv).expr rfl
  exact hvalue.bindPure fun text htext => ⟨v, hv, text, rfl, htext⟩

lemma propertyLines_fit (hsome : ∀ e ∈ es, e.value.isSome)
    (h : ∀ e ∈ es, ∀ v ∈ e.value, Fits k R .expression v) :
    Yields k R (Forall₂ (PropertyLine k) es) fun u =>
      inOrder ((lowerEntriesWith u es).map fun (key, value) => do
        return "  " ++ kebab key ++ ": " ++ (← styleValue value) ++ ";") := by
  simp only [lowerEntriesWith_eq_map, map_map]
  exact .inOrder fun e he => propertyLine_fits (hsome e he) (h e he)

/-- A style rule is not part of the script. -/
lemma style_fits {name : Option String} (hsome : ∀ e ∈ es, e.value.isSome)
    (h : ∀ e ∈ es, ∀ v ∈ e.value, Fits k R .expression v)
    (hrule : ∀ lines, Forall₂ (PropertyLine k) es lines → R (styleRule name lines)) :
    Yields k R (fun _ => True) fun u => style name (lowerEntriesWith u es) := by
  refine Concur.andThen (.modify fun g => .of_same (fun _ => id) rfl rfl rfl rfl) fun _ _ =>
    (propertyLines_fit hsome h).andThen fun lines hlines => ?_
  refine .modify fun g => ⟨fun hg => ⟨hg.published, hg.stateNames, ?_⟩, rfl, rfl, ?_⟩
  · exact forall_mem_append.mpr ⟨hg.css, forall_mem_singleton.mpr (hrule lines hlines)⟩
  · exact prefix_append ..

lemma importCode_fits {specifiers : List String} (h : FreeAll k specifiers) :
    CodeFree k R fun _ => importCode specifiers := by
  refine .value ?_
  split_ifs
  · exact .of_isFree (by decide)
  · simp (disch := decide) [publishedObject, Free.commaSeparated h]

/-- What holds of the published names and of those that are added holds of all. -/
lemma forall_published {P : String → Prop} {published : List String}
    (h : ∀ name ∈ names, P name) (hpublished : ∀ name ∈ published, P name) :
    ∀ name ∈ names.foldl (fun ns n => if ns.contains n then ns else ns ++ [n]) published,
      P name := by
  induction names generalizing published with
  | nil => exact hpublished
  | cons name names ih =>
    obtain ⟨hname, hnames⟩ := forall_mem_cons.mp h
    refine ih hnames ?_
    dsimp only
    split_ifs
    · exact hpublished
    · exact forall_mem_append.mpr ⟨hpublished, forall_mem_singleton.mpr hname⟩

lemma publish_fits (h : FreeAll k names) : Yields k R (fun _ => True) fun _ => publish names :=
  .modify fun _ => ⟨fun hg => ⟨forall_published h hg.published, hg.stateNames, hg.css⟩, rfl, rfl,
    prefix_rfl⟩

lemma exportCode_fits {specifiers : List String} {declaration : Option Node}
    (hspecifiers : FreeAll k specifiers) (h : ∀ d ∈ declaration, Fits k R .statement d) :
    CodeFree k R fun u => exportCode specifiers (lowerOptionWith u declaration) := by
  refine (publish_fits hspecifiers).andThen fun _ _ => ?_
  cases declaration with
  | none => exact .value (.of_isFree (by decide))
  | some d => exact (h d rfl).stmt rfl

/-! ### Components -/

lemma stateCell_fits (hname : Free .closing name) (hn : Fits .closing R .expression n) :
    CodeFree .closing R fun u => stateCell name (n, lowerWith u n) := by
  refine (hn.expr rfl).bindPure fun code hcode => Free.unlines ?_
  simp only [FreeAll, forall_mem_cons]
  refine ⟨?_, ?_, ?_, ?_, by decide, forall_mem_nil _⟩ <;>
    simp (disch := decide) [Free.append_closes, Free.opens_append, hname, hcode]

/-- The sections of a component are the same under each fallback, apart from the root. -/
structure Sections.Fit (R : String → Prop) (s : Sections) (root : Fallback → Option Forms) :
    Prop where
  states : FreeAll .closing s.states
  effects : FreeAll .closing s.effects
  body : FreeAll .closing s.body
  root : (∀ u, root u = none) ∨
    ∃ f, Forms.Fit .closing R .statement f ∧ ∀ u, root u = some (f u)

/-- The action gives sections that fit. -/
abbrev Sorts (R : String → Prop) (m : Fallback → Gen Sections) : Prop :=
  Concur .closing R
    (fun t => ∃ s root, Sections.Fit R s root ∧ t = fun u => { s with root := root u }) m

lemma freeAll_concat {ss : List String} {s : String} (hss : FreeAll k ss) (hs : Free k s) :
    FreeAll k (ss ++ [s]) :=
  forall_mem_append.mpr ⟨hss, forall_mem_singleton.mpr hs⟩

variable {s : Sections} {root : Fallback → Option Forms}

lemma sortNode_fits {component : String} (hs : s.Fit R root) (hn : Fits .closing R .statement n) :
    Sorts R fun u => sortNode component { s with root := root u } (n, lowerWith u n) := by
  unfold sortNode
  dsimp only
  cases roleOf n
  case state =>
    exact (hn.cell rfl rfl).andThen fun code hcode =>
      .pure ⟨{ s with states := s.states ++ [code] }, root,
        { hs with states := freeAll_concat hs.states hcode }, rfl⟩
  case effect =>
    exact (hn.stmt rfl).andThen fun code hcode =>
      .pure ⟨{ s with effects := s.effects ++ [code] }, root,
        { hs with effects := freeAll_concat hs.effects hcode }, rfl⟩
  case style => exact (hn.stmt rfl).andThen fun _ _ => .pure ⟨s, root, hs, rfl⟩
  case other =>
    exact (hn.stmt rfl).andThen fun code hcode =>
      .pure ⟨{ s with body := s.body ++ [code] }, root,
        { hs with body := freeAll_concat hs.body hcode }, rfl⟩
  case markup =>
    rcases hs.root with hnone | ⟨f, -, hsome⟩
    · simp only [hnone]
      exact .pure ⟨s, _, { hs with root := .inr ⟨_, hn, fun _ => rfl⟩ }, rfl⟩
    · have hroot : root = fun u => some (f u) := funext hsome
      subst hroot
      exact Concur.andThen (.modify fun g => .of_same (fun _ => id) rfl rfl rfl rfl)
        fun _ _ => .pure ⟨s, _, hs, rfl⟩

lemma sortNodes_fit {component : String} (hs : s.Fit R root)
    (h : ∀ n ∈ ns, Fits .closing R .statement n) :
    Sorts R fun u => sortNodes component { s with root := root u } (lowerListWith u ns) := by
  induction ns generalizing s root with
  | nil => exact .pure ⟨s, root, hs, rfl⟩
  | cons n ns ih =>
    obtain ⟨hn, hns⟩ := forall_mem_cons.mp h
    refine (sortNode_fits hs hn).bind ?_
    rintro _ ⟨s, root, hs, rfl⟩
    exact ih hs hns

lemma Sections.Fit.rootLines (hs : s.Fit R root) :
    LinesFree .closing R fun u => Sections.rootLines { s with root := root u } := by
  rcases hs.root with hnone | ⟨f, hf, hsome⟩
  · simp only [hnone]
    exact .value nofun
  · simp only [hsome]
    exact hf.child nofun _ (by decide)

lemma free_componentText (hname : Free .closing name) (hs : s.Fit R root)
    {rootLines bindings : List String} (hroot : FreeAll .closing rootLines)
    (hbindings : FreeAll .closing bindings) :
    Free .closing (componentText name s rootLines bindings) := by
  have heffects : FreeAll .closing (s.effects.map (Text.indent 1)) :=
    forall_mem_map.mpr fun code hcode => (hs.effects code hcode).indent
  have hsections {sections : List String} (h : FreeAll .closing sections) :
      Free .closing ("function " ++ name ++ "(props) " ++
        braced ("\n" ++ Text.indent 1 (String.intercalate "\n\n" sections) ++ "\n")) := by
    have hjoined : Free .closing (String.intercalate "\n\n" sections) :=
      .intercalate (by decide) h
    rw [String.append_assoc, String.append_assoc, Free.opening_append (by decide),
      Free.append_closing_append (by decide) (by decide), Free.opening_append (by decide)]
    exact ⟨hname, hjoined.between⟩
  refine hsections ?_
  simp only [FreeAll, forall_mem_append, forall_mem_cons]
  refine ⟨⟨⟨⟨⟨Free.unlines ?_, forall_mem_nil _⟩, hbindings⟩, hs.states⟩, hs.body⟩, ?_,
    by decide, forall_mem_nil _⟩
  · simp only [FreeAll, forall_mem_cons]
    refine ⟨by decide, ?_, by decide, by decide, forall_mem_nil _⟩
    simp (disch := decide) [hname]
  · rw [Free.opens_append (by decide)]
    refine (Free.unlines ?_).between
    simp only [FreeAll, renderLines, forall_mem_append, forall_mem_cons]
    exact ⟨⟨⟨⟨⟨by decide, by decide, forall_mem_nil _⟩, hroot⟩, by decide, by decide, by decide,
      forall_mem_nil _⟩, heffects⟩, by decide, forall_mem_nil _⟩

lemma Sections.Fit.empty : Sections.Fit R {} fun _ => none :=
  ⟨nofun, nofun, nofun, .inl fun _ => rfl⟩

section Component

variable (hnames : ∀ q ∈ ps, Free .closing q.name)
  (hdefaults : ∀ q ∈ ps, ∀ v ∈ q.default, Fits .closing R .expression v)
include hnames hdefaults

lemma propDefaults_fit : LinesFree .closing R fun u =>
    inOrder ((lowerParamsWith u ps).filterMap fun p => p.2.map (propDefault p.1)) := by
  induction ps with
  | nil => exact .value nofun
  | cons q ps ih =>
    obtain ⟨hword, hwords⟩ := forall_mem_cons.mp hnames
    obtain ⟨hq, hps⟩ := forall_mem_cons.mp hdefaults
    obtain ⟨name, written, value⟩ := q
    cases value with
    | none => exact ih hwords hps
    | some v =>
      have hname : Free .closing name := hword
      have hdefault : CodeFree .closing R fun u => propDefault name (v, lowerWith u v) := by
        refine ((hq v rfl).expr rfl).bindPure fun code hcode => ?_
        simp (disch := decide) [hname, hcode]
      exact hdefault.andThen fun code hcode =>
        (ih hwords hps).bindPure fun codes hcodes => forall_mem_cons.mpr ⟨hcode, hcodes⟩

lemma propBindings_fit : LinesFree .closing R fun u => propBindings (lowerParamsWith u ps) := by
  have hplain (u : Fallback) :
      (lowerParamsWith u ps).map (fun p => "let " ++ p.1 ++ " = props." ++ p.1 ++ ";") =
        ps.map fun q => "let " ++ q.name ++ " = props." ++ q.name ++ ";" := by
    rw [lowerParamsWith_eq_map, map_map]
    rfl
  simp only [propBindings, hplain]
  refine (propDefaults_fit hnames hdefaults).bindPure fun defaults hlines => ?_
  split_ifs
  · exact nofun
  refine forall_mem_singleton.mpr (Free.unlines (forall_mem_append.mpr ⟨?_, hlines⟩))
  intro line hline
  obtain ⟨q, hq, rfl⟩ := mem_map.mp hline
  simp (disch := decide) [hnames q hq]

variable (hname : Free .closing name) (h : ∀ n ∈ ns, Fits .closing R .statement n)
include hname h

lemma componentCode_fits :
    CodeFree .closing R fun u =>
      componentCode name (lowerParamsWith u ps) (lowerListWith u ns) := by
  refine (sortNodes_fit .empty h).bind ?_
  rintro _ ⟨s, root, hs, rfl⟩
  refine hs.rootLines.andThen fun rootLines hroot => ?_
  exact (propBindings_fit hnames hdefaults).bindPure fun bindings hbindings =>
    free_componentText hname hs hroot hbindings

lemma component_fits :
    CodeFree .closing R fun u => component name (lowerParamsWith u ps) (lowerListWith u ns) := by
  simp only [component, stateNamesOf_lowerListWith]
  exact (componentCode_fits hnames hdefaults hname h).withStateNames fun hk => absurd rfl hk

end Component

end Constructs

end UiScript.Script
