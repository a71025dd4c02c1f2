import UiScript.Proofs.Page

/-!
# Style rules inside a page

The names of style properties, and strings among their values, get into the rules as they are, apart
from letter case. All else is code, and code closes no markup.
-/

namespace UiScript.Script

open List

open Text (unlines escaped mapRun lowerRuns)

open Syntax (Grammatical)

/-! ### Letter case -/

/-- Each character is kept, or else it is not in the mark of a closing tag before and after. -/
inductive Keeps : List Char → List Char → Prop
  | nil : Keeps [] []
  | same {c : Char} {cs ds : List Char} (h : Keeps cs ds) : Keeps (c :: cs) (c :: ds)
  | other {c d : Char} {block cs ds : List Char} (hc : Mark.closing.has c = false)
      (hblock : ∀ e ∈ d :: block, Mark.closing.has e = false) (h : Keeps cs ds) :
      Keeps (c :: cs) (d :: block ++ ds)

lemma pair_infix_cons {a b c : Char} {cs : List Char} :
    [a, b] <:+: c :: cs ↔ c = a ∧ cs.head? = some b ∨ [a, b] <:+: cs := by
  rw [infix_cons_iff]
  refine or_congr_left ?_
  cases cs with
  | nil => simp
  | cons => simp [cons_prefix_cons, eq_comm]

lemma pair_infix_append {a b : Char} {cs ds : List Char} (h : cs.getLast? ≠ some a) :
    [a, b] <:+: cs ++ ds ↔ [a, b] <:+: cs ∨ [a, b] <:+: ds := by
  induction cs with
  | nil => simp
  | cons c cs ih =>
    cases cs with
    | nil =>
      have hc : c ≠ a := fun hc => h (congrArg some hc)
      simp [pair_infix_cons, hc]
    | cons d cs =>
      have hcons : [a, b] <:+: c :: d :: cs ↔ c = a ∧ d = b ∨ [a, b] <:+: d :: cs := by
        rw [pair_infix_cons, head?_cons, Option.some.injEq]
      rw [cons_append, pair_infix_cons, ih h, hcons, or_assoc]
      simp

namespace Keeps

variable {cs ds : List Char}

lemma head_iff (h : Keeps cs ds) : ds.head? = some '/' ↔ cs.head? = some '/' := by
  cases h with
  | nil | same => rfl
  | @other c d block _ _ hc hblock _ =>
    have hd := hblock d mem_cons_self
    refine iff_of_false ?_ ?_ <;> rintro ⟨⟩
    · cases hd
    · cases hc

lemma closing_iff (h : Keeps cs ds) : ['<', '/'] <:+: ds ↔ ['<', '/'] <:+: cs := by
  induction h with
  | nil => rfl
  | same h ih => rw [pair_infix_cons, pair_infix_cons, h.head_iff, ih]
  | @other c d block cs ds hc hblock h ih =>
    have hskip {e : Char} (he : Mark.closing.has e = false) : e ≠ '<' := by
      rintro rfl
      cases he
    rw [pair_infix_cons, ← ih, or_iff_right fun hboth => hskip hc hboth.1]
    generalize d :: block = block at hblock
    induction block with
    | nil => rfl
    | cons e block ih =>
      obtain ⟨he, hblock⟩ := forall_mem_cons.mp hblock
      rw [cons_append, pair_infix_cons, or_iff_right fun hboth => hskip he hboth.1]
      exact ih hblock

end Keeps

lemma mapRun_lowerRuns (n : Nat) :
    mapRun lowerRuns n = n ∨ 65 ≤ n ∧ 65 ≤ mapRun lowerRuns n := by
  have hruns : ∀ run ∈ lowerRuns, 65 ≤ run.1 ∧ 65 ≤ run.1 + run.2.2.2 := by decide +kernel
  unfold mapRun
  split
  next first last step distance hrun =>
    have hmem := hruns _ (mem_of_find?_eq_some hrun)
    have hfirst := find?_some hrun
    simp only [Bool.and_eq_true, decide_eq_true_eq] at hfirst
    dsimp only at hmem
    omega
  next => exact .inl rfl

lemma has_closing_of_le {c : Char} (h : 65 ≤ c.toNat) : Mark.closing.has c = false := by
  rw [← Bool.not_eq_true]
  intro hc
  rcases Bool.or_eq_true_iff.mp hc with hc | hc <;> rw [eq_of_beq hc] at h <;>
    exact absurd h (by decide)

lemma keeps_lowerFrom (before cs : List Char) : Keeps cs (Text.lowerFrom before cs) := by
  induction cs generalizing before with
  | nil => exact .nil
  | cons c cs ih =>
    have hcs := ih (c :: before)
    unfold Text.lowerFrom Text.lowerChar
    split_ifs with hsigma hfinal hdotted
    · exact .other (by rw [eq_of_beq hsigma]; decide) (forall_mem_singleton.mpr rfl) hcs
    · exact .other (by rw [eq_of_beq hsigma]; decide) (forall_mem_singleton.mpr rfl) hcs
    · exact .other (by rw [eq_of_beq hdotted]; decide)
        (forall_mem_cons.mpr ⟨rfl, forall_mem_singleton.mpr rfl⟩) hcs
    · rcases mapRun_lowerRuns c.toNat with hsame | ⟨hc, hd⟩
      · rw [hsame, Char.ofNat_toNat]
        exact .same hcs
      · refine .other (has_closing_of_le hc) (forall_mem_singleton.mpr ?_) hcs
        by_cases hvalid : (mapRun lowerRuns c.toNat).isValidChar
        · rw [Char.ofNat, dif_pos hvalid]
          exact has_closing_of_le hd
        · rw [Char.ofNat, dif_neg hvalid]
          decide

lemma keeps_hyphens (cs : List Char) :
    Keeps cs (cs.flatMap fun c => if isAsciiCapital c then ['-', c] else [c]) := by
  induction cs with
  | nil => exact .nil
  | cons c cs ih =>
    rw [flatMap_cons]
    split_ifs with hc
    · have hcapital : Mark.closing.has c = false :=
        has_closing_of_le (of_decide_eq_true (Bool.and_eq_true_iff.mp hc).1)
      exact .other hcapital (forall_mem_cons.mpr ⟨by decide, by simpa using hcapital⟩) ih
    · exact .same ih

lemma free_kebab {name : String} : Free .closing (kebab name) ↔ Free .closing name := by
  have hlower := (keeps_lowerFrom [] (name.toList.flatMap fun c =>
    if isAsciiCapital c then ['-', c] else [c])).closing_iff
  have hhyphens := (keeps_hyphens name.toList).closing_iff
  unfold Free kebab Text.lower
  rw [String.toList_ofList, String.toList_ofList]
  exact not_congr (hlower.trans hhyphens)

/-! ### Rules -/

def plainText? : Node → Option String
  | .string _ value => some value
  | _ => none

/-- Neither the name of a style property nor its value, if that is a string, has a closing mark. -/
def HarmlessEntry (e : Entry Node) : Prop :=
  Free .closing e.name ∧ ∀ text ∈ e.value.bind plainText?, Free .closing text

def Harmless : Node → Prop
  | .style _ _ es => ∀ e ∈ es, HarmlessEntry e
  | _ => True

instance : DecidablePred HarmlessEntry := fun _ => inferInstanceAs (Decidable (_ ∧ _))

instance : DecidablePred Harmless := fun n => by
  unfold Harmless
  split <;> infer_instance

lemma free_propertyLine {e : Entry Node} {line : String} (h : PropertyLine .closing e line) :
    Free .closing line ↔ HarmlessEntry e := by
  obtain ⟨v, hv, text, rfl, htext⟩ := h
  have hvalue : Free .closing text ↔ ∀ text ∈ e.value.bind plainText?, Free .closing text := by
    rw [show e.value = some v from hv, Option.bind_some]
    cases v with
    | string =>
      cases htext
      simp [plainText?]
    | number =>
      cases htext
      refine iff_of_true ?_ nofun
      exact (Free.append_closes (by decide)).mpr (.of_numeral (numeral_numericText _))
    | _ => exact iff_of_true htext nofun
  simp (disch := decide) [String.append_assoc, free_kebab, hvalue, HarmlessEntry]

lemma free_styleRule {name : Option String} {es : List (Entry Node)} {lines : List String}
    (hname : ∀ word ∈ name, Free .closing word)
    (h : Forall₂ (PropertyLine .closing) es lines) :
    Free .closing (styleRule name lines) ↔ ∀ e ∈ es, HarmlessEntry e := by
  have hstyle : Free .closing (styleName name) := by
    unfold styleName
    split
    · split_ifs
      · decide
      · exact hname _ rfl
    · decide
  have hlines : Free .closing (unlines lines) ↔ FreeAll .closing lines :=
    ⟨Free.of_intercalate, Free.unlines⟩
  have hall : FreeAll .closing lines ↔ ∀ e ∈ es, HarmlessEntry e := by
    unfold FreeAll
    clear hlines
    induction h with
    | nil => simp
    | cons he _ ih => rw [forall_mem_cons, forall_mem_cons, free_propertyLine he, ih]
  unfold styleRule
  simp (disch := decide) [String.append_assoc, hstyle, hlines, hall]

/-! ### Rules that are sure to be written -/

/-- The style declaration is a statement itself, an exported one or one inside a component. -/
inductive Declares : Node → Node → Prop
  | style {p : Option Place} {name : Option String} {es : List (Entry Node)} :
      Declares (.style p name es) (.style p name es)
  | exported {p : Option Place} {specifiers : List String} {d m : Node} (h : Declares d m) :
      Declares (.exports p specifiers (some d)) m
  | component {p : Option Place} {name : String} {ps : List (Param Node)} {ns : List Node}
      {n m : Node} (hn : n ∈ ns) (h : Declares n m) : Declares (.component p name ps ns) m

lemma declares_of_not_harmless {n : Node} (h : ¬ Harmless n) : Declares n n := by
  cases n with
  | style => exact .style
  | _ => exact absurd trivial h

/-- Nothing is asked of the rules. -/
abbrev AnyRule : String → Prop := fun _ => True

/-- From any sound generator the action leaves a rule with a closing mark. -/
def Leaks {α : Type} (m : Fallback → Gen α) : Prop :=
  ∀ ⦃g : Generator⦄, g.Sound .closing AnyRule → ∀ u a g', (m u).run g = .ok (a, g') →
    ∃ rule ∈ g'.css, ¬ Free .closing rule

namespace Leaks

variable {α β : Type} {V : (Fallback → α) → Prop} {P : α → Prop} {m : Fallback → Gen α}
  {f : Fallback → α → Gen β}

/-- Rules that are there stay there. -/
lemma bind (h : Leaks m) (hm : Concur .closing AnyRule V m)
    (hf : ∀ a, V a → Concur .closing AnyRule (fun _ => True) fun u => f u (a u)) :
    Leaks fun u => m u >>= f u := by
  intro g hg u b g' hrun
  obtain ⟨a, g₁, hma, hv, hleads⟩ := hm hg
  obtain ⟨c, g₂, hfa, -, hleads'⟩ := hf a hv (hleads.sound hg)
  obtain ⟨rule, hrule, hmark⟩ := h hg u (a u) g₁ (hma u)
  rw [StateT.run_bind, hma] at hrun
  obtain ⟨-, rfl⟩ := Prod.mk.inj (Except.ok.inj ((hfa u).symm.trans hrun))
  exact ⟨rule, hleads'.css.subset hrule, hmark⟩

lemma bindPure {f : Fallback → α → β} (h : Leaks m) (hm : Concur .closing AnyRule V m) :
    Leaks fun u => m u >>= fun a => pure (f u a) :=
  h.bind hm fun _ _ => .pure trivial

lemma behind (hm : Concur .closing AnyRule V m) (hf : ∀ a, V a → Leaks fun u => f u (a u)) :
    Leaks fun u => m u >>= f u := by
  intro g hg u b g' hrun
  obtain ⟨a, g₁, hma, hv, hleads⟩ := hm hg
  rw [StateT.run_bind, hma] at hrun
  exact hf a hv (hleads.sound hg) u b g' hrun

lemma andThen (hm : Yields .closing AnyRule P m) (hf : ∀ a, P a → Leaks fun u => f u a) :
    Leaks fun u => m u >>= f u :=
  .behind hm fun _ ⟨b, hb, hab⟩ => hab ▸ hf b hb

lemma inOrder {f : Fallback → α → Gen β} {Q : β → Prop} {as : List α}
    (h : ∀ a ∈ as, Yields .closing AnyRule Q fun u => f u a) {a : α} (ha : a ∈ as)
    (hleak : Leaks fun u => f u a) : Leaks fun u => inOrder (as.map (f u)) := by
  induction as with
  | nil => cases ha
  | cons b as ih =>
    obtain ⟨hb, has⟩ := forall_mem_cons.mp h
    rcases mem_cons.mp ha with rfl | ha
    · exact hleak.bind hb fun _ _ => (Concur.inOrderAll has).bind fun _ _ => .pure trivial
    · exact .andThen hb fun _ _ => (ih has ha).bindPure (Concur.inOrderAll has)

lemma getBind {f : Fallback → Generator → Gen α} (h : ∀ g, Leaks fun u => f u g) :
    Leaks fun u => get >>= f u :=
  fun g hg => h g hg

lemma withStateNames {change : List String → List String} (h : Leaks m)
    (hm : Concur .closing AnyRule V m) : Leaks fun u => withStateNames change (m u) := by
  have hnames {f : Generator → List String} : Yields .closing AnyRule (fun _ => True) fun _ =>
      modify fun g => { g with stateNames := f g } :=
    .modify fun g => .of_same (fun hk => absurd rfl hk) rfl rfl rfl rfl
  refine .getBind fun g => .andThen hnames fun _ _ => h.bind hm fun _ _ => ?_
  exact hnames.andThen fun _ _ => .pure trivial

end Leaks

lemma sortNode_leaks {n m : Node} (hdeclares : Declares n m) {component : String} {s : Sections}
    {root : Fallback → Option Forms} (hfits : Fits .closing AnyRule .statement n)
    (h : Leaks fun u => (lowerWith u n).stmt) :
    Leaks fun u => sortNode component { s with root := root u } (n, lowerWith u n) := by
  cases hdeclares <;> exact h.bindPure (hfits.stmt rfl)

lemma component_leaks {name : String} {ps : List (Param Node)} {ns : List Node}
    (hname : Free .closing name) (hnames : ∀ q ∈ ps, Free .closing q.name)
    (hdefaults : ∀ q ∈ ps, ∀ v ∈ q.default, Fits .closing AnyRule .expression v)
    (h : ∀ n ∈ ns, Fits .closing AnyRule .statement n) {n m : Node} (hn : n ∈ ns)
    (hdeclares : Declares n m) (hleak : Leaks fun u => (lowerWith u n).stmt) :
    Leaks fun u => component name (lowerParamsWith u ps) (lowerListWith u ns) := by
  have hsort {s : Sections} {root : Fallback → Option Forms} (hs : s.Fit AnyRule root) :
      Leaks fun u => sortNodes name { s with root := root u } (lowerListWith u ns) := by
    induction ns generalizing s root with
    | nil => cases hn
    | cons k ns ih =>
      obtain ⟨hk, hns⟩ := forall_mem_cons.mp h
      rcases mem_cons.mp hn with rfl | hn
      · refine (sortNode_leaks hdeclares hk hleak).bind (sortNode_fits hs hk) ?_
        rintro _ ⟨s, root, hs, rfl⟩
        exact (sortNodes_fit hs hns).any
      · refine .behind (sortNode_fits hs hk) ?_
        rintro _ ⟨s, root, hs, rfl⟩
        exact ih hns hn hs
  have hcode : Leaks fun u => componentCode name (lowerParamsWith u ps) (lowerListWith u ns) := by
    refine (hsort .empty).bind (sortNodes_fit .empty h) ?_
    rintro _ ⟨s, root, hs, rfl⟩
    exact hs.rootLines.andThen fun _ _ =>
      (propBindings_fit hnames hdefaults).andThen fun _ _ => .pure trivial
  simp only [component, stateNamesOf_lowerListWith]
  exact hcode.withStateNames (componentCode_fits hnames hdefaults hname h)

/-- A style declaration with a closing mark in it has one in its rule. -/
lemma leaks_of_declares {n m : Node} (h : Declares n m) (hread : Grammatical .statement n)
    (hmark : ¬ Harmless m) : Leaks fun u => (lowerWith u n).stmt := by
  have hfits {pos : Syntax.Position} {k : Node} (h : Grammatical pos k) :
      Fits .closing AnyRule pos k :=
    fits_of_grammatical h fun m _ => ruleFits_true m
  have hword {name : String} (h : Syntax.Word (fun _ => True) name) : Free .closing name :=
    .of_word h.1 fun hk => absurd rfl hk
  induction h with
  | @style p name es =>
    cases hread with
    | style hsome hvalues hname =>
      have hall := fun e he v hv => hfits (hvalues e he v hv)
      refine Leaks.bindPure ?_ (style_fits hsome hall fun _ _ => trivial)
      refine .andThen (.modify fun g => .of_same (fun _ => id) rfl rfl rfl rfl) fun _ _ =>
        .andThen (propertyLines_fit hsome hall) fun lines hlines => ?_
      rintro g - u a g' ⟨⟩
      refine ⟨styleRule name lines, mem_append_right _ mem_cons_self, ?_⟩
      rwa [free_styleRule (fun word h => hword (hname word h)) hlines]
  | exported _ ih =>
    cases hread with
    | exports hspecifiers hdeclaration =>
      exact .andThen (publish_fits fun s hs => hword (hspecifiers s hs)) fun _ _ =>
        ih (hdeclaration _ rfl) hmark
  | component hn hdeclares ih =>
    cases hread with
    | component hname hnames hdefaults hbody =>
      exact component_leaks (hword hname) (fun q hq => hword (hnames q hq))
        (fun q hq v hv => hfits (hdefaults q hq v hv)) (fun n hn => hfits (hbody n hn)) hn hdeclares
        (ih (hbody _ hn) hmark)

/-! ### The style sheet inside a page -/

/-- No style sheet and no script starts before the page's own. -/
lemma styleHead_opens (title : String) : ¬ ['<', 's'] <:+: (styleHead title).toList := by
  have hmem : '<' ∉ (escaped title).toList := by
    rw [escaped, String.toList_ofList]
    intro h
    obtain ⟨c, -, hc⟩ := mem_flatMap.mp h
    unfold Text.escapedChar at hc
    split at hc <;> simp_all [eq_comm]
  have hlast : (escaped title).toList.getLast? ≠ some '<' :=
    fun h => hmem (mem_of_getLast? h)
  have hpair : ¬ ['<', 's'] <:+: (escaped title).toList :=
    fun h => hmem (h.subset mem_cons_self)
  simp (disch := first | exact hlast | decide +kernel) only [styleHead, unlines,
    String.intercalate_cons_cons, String.intercalate_singleton, String.append_assoc,
    String.toList_append, pair_infix_append, hpair, false_or]
  decide +kernel

lemma free_styleBody {css : String} (h : Free .closing css) : Free .closing (styleBody css) := by
  have hindent : Free .closing (Text.indent 2 css) := h.padLines (by decide)
  unfold styleBody
  rw [String.append_assoc, Free.opening_append (by decide), Free.append_closing (by decide)]
  refine Free.unlines ?_
  simp only [FreeAll, forall_mem_cons]
  exact ⟨by decide +kernel, by decide +kernel, hindent, forall_mem_nil _⟩

lemma getLast?_styleBody (css : String) : (styleBody css).toList.getLast? = some ' ' := by
  rw [styleBody, String.toList_append, getLast?_append_of_ne_nil _ (by decide)]
  rfl

lemma ruleFits_of_harmless {n : Node} (h : Harmless n) : RuleFits .closing (Free .closing) n := by
  cases n with
  | style => exact fun hname lines hlines => (free_styleRule hname hlines).mpr h
  | _ => trivial

end UiScript.Script

namespace UiScript.Program

open Script
open Syntax (Grammatical)

lemma free_css_of_harmless {source file : String} {program : Program}
    (h : Program.parse source file = .ok program)
    (hharmless : ∀ n ∈ Node.outlineList program.body, Harmless n) {title : String} {page : Page}
    (hpage : program.toPageWith Forms.unknown title = .ok page) : Free .closing page.css := by
  obtain ⟨page', hpage', -, -, rules, hrules, hcss⟩ := toPageWith_of_drawn (R := Free .closing)
    (fun _ _ hk => absurd rfl hk) (Syntax.grammatical_of_parse h) (fun n hn => permits_closing
      fun m hm => ruleFits_of_harmless (hharmless m (Node.mem_outlineList.mpr ⟨n, hn, hm⟩))) title
  obtain rfl : page = page' := Except.ok.inj (hpage.symm.trans (hpage' _))
  exact hcss ▸ .intercalate (by decide) hrules

lemma css_of_declares {program : Program} (hread : ∀ n ∈ program.body, Grammatical .statement n)
    {n m : Node} (hn : n ∈ program.body) (hdeclares : Declares n m) (hmark : ¬ Harmless m)
    {title : String} {page : Page} (hpage : program.toPageWith Forms.unknown title = .ok page) :
    ['<', '/'] <:+: page.css.toList := by
  have hleaks : Leaks fun u => inOrder ((lowerListWith u program.body).map (·.2.stmt)) := by
    simp only [lowerListWith_eq_map, List.map_map]
    refine .inOrder (Q := Free .closing) (fun k hk => ?_) hn
      (leaks_of_declares hdeclares (hread n hn) hmark)
    exact (fits_of_grammatical (hread k hk) fun m _ => ruleFits_true m).stmt rfl
  rw [toPageWith_eq] at hpage
  cases hrun : (inOrder ((lowerListWith Forms.unknown program.body).map (·.2.stmt))).run
      { title, components := program.body.filterMap declaredComponent? } with
  | error e =>
    rw [hrun] at hpage
    cases hpage
  | ok r =>
    rw [hrun] at hpage
    obtain rfl : pageOf r.1 r.2 = page := Except.ok.inj hpage
    have hsound : Generator.Sound .closing AnyRule
        { title, components := program.body.filterMap declaredComponent? } :=
      ⟨List.forall_mem_nil _, fun _ => rfl, List.forall_mem_nil _⟩
    obtain ⟨rule, hrule, hrulemark⟩ := hleaks hsound Forms.unknown r.1 r.2 hrun
    by_contra hfree
    have hall : Free .closing (String.intercalate "\n\n" r.2.css) := hfree
    exact hrulemark (hall.of_intercalate rule hrule)

/-- The style sheet of a parsed program has no closing mark, if no name and no string in its style
declarations has one. Then in its page the style sheet is not left before the page's own closing
tag, behind which the page's own script is the first one. A closing mark in a declaration that is
exported, or in a component, or neither, gets into the style sheet. -/
theorem styles_closed_once {source file : String} {program : Program}
    (h : Program.parse source file = .ok program) (title : String) :
    ∃ page rest, program.toPage title = .ok page ∧
      page.html = styleHead title ++ "<style>" ++ styleBody page.css ++ "</style>" ++ styleTail ++
        "<script>" ++ rest ∧
      ¬ ['<', 's'] <:+: (styleHead title).toList ∧ ¬ ['<', 's'] <:+: styleTail.toList ∧
      ((∀ n ∈ Node.outlineList program.body, Harmless n) →
        ¬ ['<', '/'] <:+: page.css.toList ∧
        ∀ before after, styleBody page.css ++ "</style>" ++ styleTail ++ "<script>" ++ rest =
          before ++ "</" ++ after → (styleBody page.css).toList <+: before.toList) ∧
      ∀ n ∈ program.body, ∀ m, Declares n m → ¬ Harmless m →
        ['<', '/'] <:+: page.css.toList := by
  have hread := Syntax.grammatical_of_parse h
  obtain ⟨page, hpage, -, hhtml⟩ := toPageWith_of_grammatical hread title
  refine ⟨page, scriptBody (program.body.filterMap declaredComponent?) page.script ++ "</script>" ++
    documentTail, hpage _, ?_, styleHead_opens title, by decide,
    fun hharmless => ?_, fun n hn m hdeclares hmark => ?_⟩
  · rw [hhtml, document, documentHead]
    simp only [String.append_assoc]
  · have hcss := free_css_of_harmless h hharmless (hpage _)
    refine ⟨hcss, fun before after heq => ?_⟩
    have hlists := congrArg String.toList heq
    simp only [String.append_assoc, String.toList_append] at hlists
    refine prefix_of_closing (free_styleBody hcss) ?_ hlists
    rw [getLast?_styleBody]
    decide
  · exact css_of_declares hread hn hdeclares hmark (hpage _)

/-- A string with a closing tag in it leaves the style sheet. -/
theorem styles_closed_once_hostile :
    let source := "style \x7b content: \"</style><script>\" \x7d"
    ∃ program page, Program.parse source "main" = .ok program ∧ program.toPage "t" = .ok page ∧
      ['<', '/'] <:+: page.css.toList := by
  intro source
  have hfacts : ((Program.parse source "main").toOption.map fun program =>
      program.body.any fun n => !decide (Harmless n)) = some true := by
    decide +kernel
  obtain ⟨program, hparse, hfacts⟩ := exists_of_toOption hfacts
  obtain ⟨n, hn, hmark⟩ := List.any_eq_true.mp hfacts
  rw [Bool.not_eq_true', decide_eq_false_iff_not] at hmark
  obtain ⟨page, -, hpage, -, -, -, -, hcss⟩ := styles_closed_once hparse "t"
  exact ⟨program, page, hparse, hpage, hcss n hn n (declares_of_not_harmless hmark) hmark⟩

end UiScript.Program
