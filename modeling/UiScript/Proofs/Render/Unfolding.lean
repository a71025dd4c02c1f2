import UiScript.Proofs.Outcome
import UiScript.Proofs.Render.Markup
import UiScript.Proofs.Syntax.Outline
import UiScript.Proofs.Syntax.Reading

/-!
# Markup of parsed programs

What a component is rendered to is an unfolding of its markup: conditionals are replaced by one of
their branches, loops by some copies of their body and instances by the markup of their component.
The props decide on no more than this and on escaped texts.
-/

namespace UiScript.Render

open List

open Syntax (Grammatical isHyphenated)

/-! ### Unfolding -/

def isRendered : Node → Bool
  | .text .. | .interpolation .. | .element .. | .use .. | .ifElse .. | .forEach .. => true
  | _ => false

def Component.root (c : Component) : List Node := (c.body.find? isRoot).toList

/-- The texts that a list of nodes can be rendered to, whatever its expressions are worth. -/
inductive Unfolds (all : List (String × Component)) : List Node → String → Prop
  | nil : Unfolds all [] ""
  | cons {n : Node} {ns : List Node} {s t : String} (hn : Unfolds all [n] s)
      (hns : Unfolds all ns t) : Unfolds all (n :: ns) (s ++ t)
  | silent {n : Node} (hn : isRendered n = false) : Unfolds all [n] ""
  | text {p : Option Place} {value : String} : Unfolds all [.text p value] (Text.escaped value)
  | interpolation {p : Option Place} {e : Node} {s : String} (hs : IsText s.toList) :
      Unfolds all [.interpolation p e] s
  | selfClosing {p : Option Place} {tag : String} {attributes : List (Entry Node)}
      {children : List Node} {texts : List String}
      (htexts : Forall₂ IsAttribute (shown attributes) texts) :
      Unfolds all [.element p tag attributes children true] (tagStart tag texts ++ " />")
  | element {p : Option Place} {tag : String} {attributes : List (Entry Node)}
      {children : List Node} {texts : List String} {inner : String}
      (htexts : Forall₂ IsAttribute (shown attributes) texts)
      (hinner : Unfolds all children inner) :
      Unfolds all [.element p tag attributes children false]
        (tagStart tag texts ++ ">" ++ inner ++ "</" ++ tag ++ ">")
  | use {p : Option Place} {name : String} {props : List (Entry Node)} {children : List Node}
      {selfClosing : Bool} {c : Component} {s : String} (hc : all.lookup name = some c)
      (hroot : Unfolds all c.root s) : Unfolds all [.use p name props children selfClosing] s
  | consequent {p : Option Place} {condition : Node} {consequent : List Node}
      {alternate : Option (List Node)} {s : String} (hs : Unfolds all consequent s) :
      Unfolds all [.ifElse p condition consequent alternate] s
  | alternate {p : Option Place} {condition : Node} {consequent : List Node}
      {alternate : Option (List Node)} {s : String} (hs : Unfolds all (alternate.getD []) s) :
      Unfolds all [.ifElse p condition consequent alternate] s
  | done {p : Option Place} {name : String} {iterable : Node} {body : List Node} :
      Unfolds all [.forEach p name iterable body] ""
  | again {p : Option Place} {name : String} {iterable : Node} {body : List Node} {s t : String}
      (hs : Unfolds all body s) (ht : Unfolds all [.forEach p name iterable body] t) :
      Unfolds all [.forEach p name iterable body] (s ++ t)

/-- The instances of components that a node can show: those outside other instances, elements that
close themselves and attributes. -/
inductive Shows : Node → String → Prop
  | use {p : Option Place} {name : String} {props : List (Entry Node)} {children : List Node}
      {selfClosing : Bool} : Shows (.use p name props children selfClosing) name
  | element {p : Option Place} {tag name : String} {attributes : List (Entry Node)}
      {children : List Node} {n : Node} (hn : n ∈ children) (h : Shows n name) :
      Shows (.element p tag attributes children false) name
  | consequent {p : Option Place} {condition n : Node} {consequent : List Node}
      {alternate : Option (List Node)} {name : String} (hn : n ∈ consequent) (h : Shows n name) :
      Shows (.ifElse p condition consequent alternate) name
  | alternate {p : Option Place} {condition n : Node} {consequent alternate : List Node}
      {name : String} (hn : n ∈ alternate) (h : Shows n name) :
      Shows (.ifElse p condition consequent (some alternate)) name
  | forEach {p : Option Place} {item name : String} {iterable n : Node} {body : List Node}
      (hn : n ∈ body) (h : Shows n name) : Shows (.forEach p item iterable body) name

/-! ### Rendering unfolds -/

variable {name : String}

def InstanceUnfolds (all : List (String × Component)) (name s : String) : Prop :=
  ∃ c, all.lookup name = some c ∧ Unfolds all c.root s

section Unfolding

variable {all : List (String × Component)} {use : String → Dict Value → Except RenderError String}
  {F : RenderError → Prop}

lemma joinItems_ends {p : Option Place} {iterable : Node} {body : List Node}
    {render : Value → Except RenderError String}
    (h : ∀ v, Ends F (Unfolds all body) (render v)) (vs : List Value) :
    Ends F (Unfolds all [.forEach p name iterable body]) (joinItems render vs) := by
  induction vs with
  | nil => exact .pure .done
  | cons v vs ih => exact (h v).bind fun s hs => ih.bind fun t ht => .pure (.again hs ht)

-- Apart from instances, rendering fails only where a number cannot be computed or written.
variable (hnumber : ∀ e, F (.number e))
include hnumber

lemma eval_ends (n : Node) (scope : Dict Value) : Ends F (fun _ => True) (eval n scope) :=
  .mapError hnumber (.any fun _ => trivial)

lemma escapedText_ends (v : Value) : Ends F (fun s => IsText s.toList) (escapedText v) :=
  .mapError hnumber (.map fun _ => isText_escaped _)

lemma styleTexts_ends (entries : List (String × Value)) :
    Ends F (fun _ => True) (styleTexts entries) := by
  induction entries with
  | nil => exact .pure trivial
  | cons entry entries ih =>
    refine .bind (.mapError hnumber (.any fun _ => trivial)) fun _ (_ : True) => ?_
    exact ih.bind fun _ _ => .pure trivial

/-- A value is written as text, also where it is a dictionary of style rules. -/
lemma attributeText_ends (name : String) (v : Value) :
    Ends F (fun text => ∃ value, IsText value.toList ∧ text = name ++ "=\"" ++ value ++ "\"")
      (attributeText name v) := by
  have hquoted {m : Except RenderError String} (hm : Ends F (fun s => IsText s.toList) m) :
      Ends F (fun text => ∃ value, IsText value.toList ∧ text = name ++ "=\"" ++ value ++ "\"")
        (m >>= fun text => .ok (name ++ "=\"" ++ text ++ "\"")) :=
    hm.bind fun text htext => .pure ⟨text, htext, rfl⟩
  have hescaped (v : Value) := hquoted (escapedText_ends hnumber v)
  cases v with
  | dict entries =>
    refine .ite (fun _ => hquoted ?_) fun _ => hescaped _
    exact (styleTexts_ends hnumber entries).map (fun _ _ => trivial) |>.map
      fun _ (_ : True) => isText_escaped _
  | _ => exact hescaped _

lemma attributeTexts_ends (attributes : List (Entry Node)) (scope : Dict Value) :
    Ends F (Forall₂ IsAttribute (shown attributes)) (attributeTexts scope attributes) := by
  induction attributes with
  | nil => exact .pure .nil
  | cons e es ih =>
    obtain ⟨name, value⟩ := e
    simp only [attributeTexts, shown, filter_cons]
    cases isEvent name with
    | true => exact ih
    | false =>
      cases value with
      | none => exact ih.bind fun texts htexts => .pure (.cons rfl htexts)
      | some n =>
        refine (eval_ends hnumber n scope).bind fun v _ => ?_
        refine (attributeText_ends hnumber name v).bind fun text htext => ?_
        exact ih.bind fun texts htexts => .pure (.cons htext htexts)

lemma propValues_ends (props : List (Entry Node)) (scope : Dict Value) :
    Ends F (fun _ => True) (propValues scope props) := by
  induction props with
  | nil => exact .pure trivial
  | cons e es ih =>
    obtain ⟨name, value⟩ := e
    cases value with
    | none => exact ih
    | some n =>
      refine .ite (fun _ => ih) fun _ => (eval_ends hnumber n scope).bind fun _ _ => ?_
      exact ih.bind fun _ _ => .pure trivial

lemma withDefaults_ends (params : List (Param Node)) (scope : Dict Value) :
    Ends F (fun _ => True) (withDefaults params scope) := by
  induction params generalizing scope with
  | nil => exact .pure trivial
  | cons q ps ih =>
    unfold withDefaults
    split
    · exact (eval_ends hnumber _ scope).bind fun _ _ => ih _
    · exact ih scope

lemma withBindings_ends (body : List Node) (scope : Dict Value) :
    Ends F (fun _ => True) (withBindings body scope) := by
  induction body generalizing scope with
  | nil => exact .pure trivial
  | cons n ns ih =>
    cases n with
    | state | binding => exact (eval_ends hnumber _ scope).bind fun _ _ => ih _
    | _ => exact ih scope

/-- If the instances that a node shows are unfoldings of their components, the node is one. It fails
for numbers, or as these instances do. -/
lemma markup_ends (n : Node)
    (huse : ∀ name, Shows n name → ∀ props, Ends F (InstanceUnfolds all name) (use name props))
    (scope : Dict Value) : Ends F (Unfolds all [n]) (markup use n scope) := by
  induction n using Node.parts_induction generalizing scope with
  | h n ih =>
    have hlist {ns : List Node} (hns : ∀ k ∈ ns, k ∈ n.parts)
        (hshows : ∀ k ∈ ns, ∀ name, Shows k name → Shows n name) (scope : Dict Value) :
        Ends F (Unfolds all ns) (markupList use ns scope) := by
      induction ns with
      | nil => exact .pure .nil
      | cons k ks ihs =>
        obtain ⟨hk, hks⟩ := forall_mem_cons.mp hns
        obtain ⟨hshow, hshows⟩ := forall_mem_cons.mp hshows
        refine .bind (ih k hk (fun name hname => huse name (hshow name hname)) scope) ?_
        exact fun s hs => (ihs hks hshows).bind fun t ht => .pure (.cons hs ht)
    cases n with
    | text => exact .pure .text
    | interpolation p e =>
      simp only [markup]
      refine (eval_ends hnumber e scope).bind fun v _ => ?_
      exact (escapedText_ends hnumber v).mono fun _ hs => .interpolation hs
    | element p tag attributes children selfClosing =>
      simp only [markup]
      refine (attributeTexts_ends hnumber attributes scope).bind fun texts htexts => ?_
      cases selfClosing with
      | true => exact .pure (.selfClosing htexts)
      | false =>
        refine .bind (hlist (fun k hk => mem_append_right _ hk) ?_ scope) ?_
        · exact fun k hk name => .element hk
        · exact fun inner hinner => .pure (.element htexts hinner)
    | use p name props =>
      simp only [markup]
      refine (propValues_ends hnumber props scope).bind fun values _ => ?_
      exact (huse name .use _).mono fun _ ⟨c, hc, hroot⟩ => .use hc hroot
    | ifElse p condition consequent alternate =>
      simp only [markup]
      refine (eval_ends hnumber condition scope).bind fun c _ => .ite (fun _ => ?_) fun _ => ?_
      · refine .mono (hlist (fun k hk => ?_) (fun k hk name => .consequent hk) scope)
          fun _ hs => .consequent hs
        exact mem_append_left _ (mem_cons_of_mem _ hk)
      · cases alternate with
        | none => exact .pure (.alternate .nil)
        | some =>
          refine .mono (hlist (fun k hk => ?_) (fun k hk name => .alternate hk) scope)
            fun _ hs => .alternate hs
          exact mem_append_right _ hk
    | forEach p item iterable =>
      simp only [markup]
      refine (eval_ends hnumber iterable scope).bind fun v _ => ?_
      cases v with
      | list items =>
        refine joinItems_ends (fun v => hlist (fun k hk => ?_) (fun k hk name => ?_) _) items
        · exact mem_cons_of_mem _ hk
        · exact .forEach hk
      | _ => exact .pure .done
    | _ => exact .pure (.silent rfl)

lemma instanceMarkup_ends {c : Component}
    (huse : ∀ n ∈ c.root, ∀ name, Shows n name → ∀ props,
      Ends F (InstanceUnfolds all name) (use name props)) (props : Dict Value) :
    Ends F (Unfolds all c.root) (instanceMarkup use c props) := by
  refine (withDefaults_ends hnumber c.params props).bind fun scope _ => ?_
  refine (withBindings_ends hnumber c.body scope).bind fun scope _ => ?_
  unfold Component.root at huse ⊢
  split
  next root hroot =>
    rw [hroot] at huse ⊢
    exact markup_ends hnumber root (huse root (mem_singleton_self root)) scope
  next hroot =>
    rw [hroot]
    exact .pure .nil

end Unfolding

/-- Each component is rendered inside others, so the induction is on how many may still follow. -/
lemma render_returns {all : List (String × Component)} (depth : Nat) (active : List String)
    (name : String) (props : Dict Value) :
    Returns (InstanceUnfolds all name) (render all depth active name props) := by
  induction depth generalizing active name props with
  | zero =>
    unfold render
    split
    · exact .error trivial
    · exact .ite (fun _ => .error trivial) fun _ => .error trivial
  | succ depth ih =>
    unfold render
    split
    · exact .error trivial
    next c hc =>
      refine .ite (fun _ => .error trivial) fun _ => ?_
      exact .mono (instanceMarkup_ends (fun _ => trivial)
        (fun _ _ inner _ => ih (name :: active) inner) props) fun _ hs => ⟨c, hc, hs⟩

/-! ### Unfoldings are markup -/

section Markup

variable {nodes : List Node} {all : List (String × Component)}

lemma isHyphenated_of_not_event (h : Syntax.isAttributeName name)
    (hevent : isEvent name = false) : isHyphenated name.toList := by
  unfold Syntax.isAttributeName at h
  split at h
  next cs hcs =>
    have hstarts : isEvent name := by
      unfold isEvent
      rw [String.startsWith_string_iff, hcs]
      exact ⟨cs, rfl⟩
    rw [hstarts] at hevent
    cases hevent
  next => exact h

/-- The tag of an element that can be read. -/
lemma isTag_of_grammatical {p : Option Place} {tag : String} {attributes : List (Entry Node)}
    {children : List Node} {selfClosing : Bool} {texts : List String}
    (hread : ∀ n ∈ nodes, ∃ pos, Grammatical pos n)
    (hn : .element p tag attributes children selfClosing ∈ nodes)
    (htexts : Forall₂ IsAttribute (shown attributes) texts) :
    IsTag nodes selfClosing tag texts := by
  obtain ⟨pos, hread⟩ := hread _ hn
  cases hread with
  | element htag hcase hnames =>
    refine ⟨htag.1, hcase, p, attributes, children, hn, fun e he => ?_, htexts⟩
    obtain ⟨hmem, hevent⟩ := mem_filter.mp he
    exact isHyphenated_of_not_event (hnames e hmem).1 (by simpa using hevent)

/-- The nodes have to be closed under taking parts and have to hold all components, so that an
unfolding never leaves them. -/
lemma Unfolds.markup (hread : ∀ n ∈ nodes, ∃ pos, Grammatical pos n)
    (hparts : ∀ n ∈ nodes, ∀ k ∈ n.parts, k ∈ nodes)
    (hroots : ∀ name c, all.lookup name = some c → ∀ n ∈ c.root, n ∈ nodes) {ns : List Node}
    {s : String} (h : Unfolds all ns s) (hns : ∀ n ∈ ns, n ∈ nodes) : Markup nodes s := by
  induction h with
  | nil => exact .empty
  | cons _ _ ihn ihns =>
    obtain ⟨hn, hns⟩ := forall_mem_cons.mp hns
    exact (ihn (forall_mem_singleton.mpr hn)).append (ihns hns)
  | silent => exact .empty
  | text => exact .text (isText_escaped _)
  | interpolation hs => exact .text hs
  | selfClosing htexts =>
    exact .selfClosing (isTag_of_grammatical hread (forall_mem_singleton.mp hns) htexts)
  | element htexts _ ih =>
    have hn := forall_mem_singleton.mp hns
    exact .element (isTag_of_grammatical hread hn htexts)
      (ih fun k hk => hparts _ hn k (mem_append_right _ hk))
  | use hc _ ih => exact ih (hroots _ _ hc)
  | consequent _ ih =>
    have hn := forall_mem_singleton.mp hns
    exact ih fun k hk => hparts _ hn k (mem_append_left _ (mem_cons_of_mem _ hk))
  | alternate _ ih =>
    have hn := forall_mem_singleton.mp hns
    exact ih fun k hk => hparts _ hn k (mem_append_right _ hk)
  | done => exact .empty
  | again _ _ ihs iht =>
    have hn := forall_mem_singleton.mp hns
    exact (ihs fun k hk => hparts _ hn k (mem_cons_of_mem _ hk)).append (iht hns)

lemma mem_outline_of_component {program : Program} {c : String × Component}
    (hc : c ∈ components program) {n : Node} (hn : n ∈ c.2.body) :
    n ∈ Node.outlineList program.body := by
  obtain ⟨root, hroot, hc⟩ := mem_filterMap.mp hc
  have hmem : root ∈ Node.outlineList program.body :=
    Node.mem_outlineList.mpr ⟨root, hroot, root.mem_outline_self⟩
  unfold component? at hc
  split at hc
  · cases hc
    exact Node.mem_outlineList_of_part hmem (mem_append_right _ hn)
  next p specifiers q name params body =>
    cases hc
    have hdeclared : .component q name params body ∈ Node.outlineList program.body :=
      Node.mem_outlineList_of_part hmem mem_cons_self
    exact Node.mem_outlineList_of_part hdeclared (mem_append_right _ hn)
  · cases hc

lemma mem_outline_of_root {program : Program} {c : Component}
    (hc : (components program).lookup name = some c) {n : Node} (hn : n ∈ c.root) :
    n ∈ Node.outlineList program.body := by
  obtain ⟨before, after, hall, -⟩ := lookup_eq_some_iff.mp hc
  have hmem : (name, c) ∈ components program :=
    hall ▸ mem_append_right _ mem_cons_self
  exact mem_outline_of_component hmem (mem_of_find?_eq_some (Option.mem_toList.mp hn))

end Markup

end UiScript.Render

namespace UiScript.Program

/-- Whatever a component of a parsed program is rendered to, with any props, is an unfolding of its
markup. It is markup whose tags and attributes are those of elements of the program, and no other
mark in it could start a tag. -/
theorem render_markup {source file : String} {program : Program}
    (h : Program.parse source file = .ok program) {component html : String} {props : Dict Value}
    (hrender : program.render component props = .ok html) :
    Render.Markup (Node.outlineList program.body) html ∧
      Render.TagsOf (Node.outlineList program.body) html.toList ∧
      ∃ c, (Render.components program).lookup component = some c ∧
        Render.Unfolds (Render.components program) c.root html := by
  have hread := Syntax.readable_of_mem_outline (Syntax.grammatical_of_parse h)
  obtain ⟨c, hc, hunfolds⟩ := (Render.render_returns _ _ _ _).value html hrender
  have hmarkup : Render.Markup (Node.outlineList program.body) html := by
    refine hunfolds.markup (fun n hn => ?_) (fun n hn k hk => ?_) (fun name c hc n hn => ?_)
      fun n hn => ?_
    · obtain ⟨pos, hn, -⟩ := hread n hn
      exact ⟨pos, hn⟩
    · exact Node.mem_outlineList_of_part hn hk
    · exact Render.mem_outline_of_root hc hn
    · exact Render.mem_outline_of_root hc hn
  exact ⟨hmarkup, hmarkup.tagsOf, c, hc, hunfolds⟩

/-- A prop that would end an attribute and start a script is text in both places. -/
theorem render_markup_hostile :
    let source := "component A(b) \x7b <p title=\x7bb\x7d>\x7bb\x7d<br/></p> \x7d"
    let props : Dict Value := [("b", .str "\"><script>")]
    let html := "<p title=\"&quot;&gt;&lt;script&gt;\">&quot;&gt;&lt;script&gt;<br /></p>"
    ∃ program, Program.parse source "main" = .ok program ∧ program.render "A" props = .ok html ∧
      Render.Markup (Node.outlineList program.body) html ∧
      Render.TagsOf (Node.outlineList program.body) html.toList ∧
      ∃ c, (Render.components program).lookup "A" = some c ∧
        Render.Unfolds (Render.components program) c.root html := by
  intro source props html
  have hrun : (Program.parse source "main").toOption.map (·.render "A" props) =
      some (.ok html) := by decide +kernel
  obtain ⟨program, hparse, hrender⟩ := exists_of_toOption hrun
  exact ⟨program, hparse, hrender, render_markup hparse hrender⟩

end UiScript.Program
