import Mathlib.Data.List.Dedup
import Mathlib.Data.List.Perm.Subperm
import Mathlib.Logic.Relation
import UiScript.Proofs.Render.Frames
import UiScript.Proofs.Render.Unfolding

/-!
# Components inside each other

The components that are being rendered at a time are declared and differ from each other. There are
no more of them than components, so rendering comes to an end by itself, and the bound that the
renderer counts down is never met.
-/

namespace UiScript.Render

open List

open Relation (ReflTransGen TransGen)

variable {all : List (String × Component)} {names : List String} {name : String}

/-! ### What is being rendered -/

/-- Names of components that are being rendered at a time: declared ones, each once. -/
structure IsActive (all : List (String × Component)) (names : List String) : Prop where
  nodup : names.Nodup
  declared : ∀ name ∈ names, (all.lookup name).isSome

def componentNames (all : List (String × Component)) : List String := (all.map Prod.fst).dedup

lemma mem_componentNames (h : (all.lookup name).isSome) : name ∈ componentNames all := by
  obtain ⟨c, hc⟩ := Option.isSome_iff_exists.mp h
  obtain ⟨before, after, rfl, -⟩ := lookup_eq_some_iff.mp hc
  simp [componentNames]

namespace IsActive

lemma nil : IsActive all [] := ⟨nodup_nil, nofun⟩

lemma cons (h : IsActive all names) (hdeclared : (all.lookup name).isSome)
    (hnew : name ∉ names) : IsActive all (name :: names) :=
  ⟨nodup_cons.mpr ⟨hnew, h.nodup⟩, forall_mem_cons.mpr ⟨hdeclared, h.declared⟩⟩

lemma tail (h : IsActive all names) : IsActive all names.tail :=
  ⟨h.nodup.tail, fun name hname => h.declared name (mem_of_mem_tail hname)⟩

lemma length_le (h : IsActive all names) : names.length ≤ (componentNames all).length :=
  (subperm_of_subset h.nodup fun name hname =>
    mem_componentNames (h.declared name hname)).length_le

end IsActive

/-- The names that were being rendered at any time, the latest first. -/
def Frames.history : Frames (List (List String)) where
  names times := times.headD []
  enter name times := (name :: times.headD []) :: times
  leave times := (times.headD []).tail :: times

lemma Frames.history_lawful (all : List (String × Component)) :
    Frames.history.Lawful all fun times => ∀ names ∈ times, IsActive all names := by
  have hlatest {times : List (List String)} (h : ∀ names ∈ times, IsActive all names) :
      IsActive all (times.headD []) := by
    cases times with
    | nil => exact .nil
    | cons names => exact h names mem_cons_self
  exact {
    names_enter := fun _ _ => rfl
    names_leave := fun _ => rfl
    enter := fun hs hdeclared hnew =>
      forall_mem_cons.mpr ⟨(hlatest hs).cons hdeclared hnew, hs⟩
    leave := fun hs => forall_mem_cons.mpr ⟨(hlatest hs).tail, hs⟩ }

/-! ### Rendering without a bound -/

/-- What rendering a component inside those of some names comes to, by the rules alone. As each
account of it is finite, there is one only if rendering ends. -/
inductive Renders (all : List (String × Component)) :
    List String → String → Dict Value → Except RenderError String → Prop
  | missing {names : List String} {name : String} {props : Dict Value}
      (hnone : all.lookup name = none) : Renders all names name props (.error (.notFound name))
  | refused {names : List String} {name : String} {props : Dict Value} {c : Component}
      (hc : all.lookup name = some c) (hactive : name ∈ names) :
      Renders all names name props (.error (.recursive name))
  | inside {names : List String} {name : String} {props : Dict Value} {c : Component}
      {use : String → Dict Value → Except RenderError String} (hc : all.lookup name = some c)
      (hnew : name ∉ names)
      (huse : ∀ inner props, Renders all (name :: names) inner props (use inner props)) :
      Renders all names name props (instanceMarkup use c props)

/-- As long as enough components may still follow, the bound is not met. -/
lemma renders_render {depth : Nat} (hactive : IsActive all names)
    (hdepth : (componentNames all).length ≤ depth + names.length) (name : String)
    (props : Dict Value) : Renders all names name props (render all depth names name props) := by
  induction depth using Nat.strongRecOn generalizing names name props with
  | _ depth ih =>
    unfold render
    split
    next hnone => exact .missing hnone
    next c hc =>
      split
      next hin => exact .refused hc (by simpa using hin)
      next hout =>
        have hnew : name ∉ names := by simpa using hout
        have hinside := hactive.cons (Option.isSome_of_eq_some hc) hnew
        have hlength := hinside.length_le
        rw [length_cons] at hlength
        cases depth with
        | zero => omega
        | succ depth =>
          refine .inside hc hnew fun inner props => ih depth (Nat.lt_succ_self depth) hinside ?_ _ _
          rw [length_cons]
          omega

lemma Renders.unique {props : Dict Value} {result result' : Except RenderError String}
    (h : Renders all names name props result) (h' : Renders all names name props result') :
    result = result' := by
  induction h generalizing result' with
  | missing hnone =>
    cases h' with
    | missing => rfl
    | refused hc | inside hc => exact absurd (hnone.symm.trans hc) nofun
  | refused hc hactive =>
    cases h' with
    | missing hnone => exact absurd (hnone.symm.trans hc) nofun
    | refused => rfl
    | inside _ hnew => exact absurd hactive hnew
  | @inside _ _ _ _ use hc hnew _ ih =>
    cases h' with
    | missing hnone => exact absurd (hnone.symm.trans hc) nofun
    | refused _ hactive => exact absurd hactive hnew
    | @inside _ _ _ _ use' hc' _ huse' =>
      obtain rfl := Option.some.inj (hc.symm.trans hc')
      have huse : use = use' := funext fun inner => funext fun props => ih _ _ (huse' inner props)
      rw [huse]

/-! ### Instances that are shown -/

/-- The markup of the first component shows an instance of the second. -/
def Uses (all : List (String × Component)) (outer inner : String) : Prop :=
  ∃ c, all.lookup outer = some c ∧ ∃ n ∈ c.root, Shows n inner

/-- There is an instance of the second component anywhere in the body of the first. -/
def Mentions (all : List (String × Component)) (outer inner : String) : Prop :=
  ∃ c, all.lookup outer = some c ∧ ∃ place props children selfClosing,
    .use place inner props children selfClosing ∈ Node.outlineList c.body

lemma Shows.mem_outline {n : Node} (h : Shows n name) : ∃ place props children selfClosing,
      .use place name props children selfClosing ∈ n.outline := by
  induction h with
  | use => exact ⟨_, _, _, _, Node.mem_outline_self _⟩
  | element hn _ ih =>
    obtain ⟨place, props, children, selfClosing, hmem⟩ := ih
    exact ⟨place, props, children, selfClosing,
      Node.mem_outline_of_part (mem_append_right _ hn) hmem⟩
  | consequent hn _ ih =>
    obtain ⟨place, props, children, selfClosing, hmem⟩ := ih
    exact ⟨place, props, children, selfClosing,
      Node.mem_outline_of_part (mem_append_left _ (mem_cons_of_mem _ hn)) hmem⟩
  | alternate hn _ ih =>
    obtain ⟨place, props, children, selfClosing, hmem⟩ := ih
    exact ⟨place, props, children, selfClosing,
      Node.mem_outline_of_part (mem_append_right _ hn) hmem⟩
  | forEach hn _ ih =>
    obtain ⟨place, props, children, selfClosing, hmem⟩ := ih
    exact ⟨place, props, children, selfClosing,
      Node.mem_outline_of_part (mem_cons_of_mem _ hn) hmem⟩

lemma Uses.mentions {outer inner : String} (h : Uses all outer inner) :
    Mentions all outer inner := by
  obtain ⟨c, hc, n, hn, hshows⟩ := h
  obtain ⟨place, props, children, selfClosing, hmem⟩ := hshows.mem_outline
  have hbody : n ∈ c.body := mem_of_find?_eq_some (Option.mem_toList.mp hn)
  exact ⟨c, hc, place, props, children, selfClosing, Node.mem_outlineList.mpr ⟨n, hbody, hmem⟩⟩

/-! ### Why rendering fails -/

/-- Who is to blame for a failure, in the markup that a component leads to: an instance without a
component, or a component that leads to itself. -/
def Blames (all : List (String × Component)) (component : String) : RenderError → Prop
  | .notFound name => ReflTransGen (Uses all) component name ∧ all.lookup name = none
  | .recursive name => ReflTransGen (Uses all) component name ∧ TransGen (Uses all) name name
  | .number _ => True

/-- The components that are being rendered lead from one to the next, so one that is met again leads
to itself. -/
lemma Renders.ends {component : String} {props : Dict Value}
    {result : Except RenderError String} (h : Renders all names name props result)
    (hreach : ReflTransGen (Uses all) component name)
    (htrail : ∀ outer ∈ names, TransGen (Uses all) outer name) :
    Ends (Blames all component) (InstanceUnfolds all name) result := by
  induction h with
  | missing hnone => exact .error ⟨hreach, hnone⟩
  | refused _ hactive => exact .error ⟨hreach, htrail _ hactive⟩
  | @inside names name props c use hc hnew _ ih =>
    refine .mono (instanceMarkup_ends (fun _ => trivial) (fun n hn inner hshows props => ?_) props)
      fun _ hs => ⟨c, hc, hs⟩
    have huses : Uses all name inner := ⟨c, hc, n, hn, hshows⟩
    refine ih inner props (hreach.tail huses) (forall_mem_cons.mpr ⟨.single huses, ?_⟩)
    exact fun outer houter => (htrail outer houter).tail huses

end UiScript.Render

namespace UiScript.Program

open Relation (ReflTransGen TransGen)
open Render (Frames IsActive Renders Uses Mentions components componentNames renderWith)

/-- Rendering ends, and refuses a component for using itself only where it does.

* The rules, which know no bound, lead to one result, the one that is given.
* The components that are being rendered at any time are declared and differ from each other, so
  there are no more of them than components.
* A component is refused for using itself only if it leads to itself through instances that markup
  shows; these are instances in the bodies of components.
* If the component leads to declared components only and none of them to itself, there is markup, or
  an expression has no value. -/
theorem render_ends (program : Program) (component : String) (props : Dict Value) :
    let all := components program
    let watched := (renderWith .history all all.length component props).run.run [[]]
    (∀ result, Renders all [] component props result ↔ result = program.render component props) ∧
      (watched.1 = program.render component props ∧
        ∀ names ∈ watched.2, IsActive all names ∧ names.length ≤ (componentNames all).length) ∧
      (∀ name, program.render component props = .error (.recursive name) →
        TransGen (Uses all) name name) ∧
      ((∀ name, ReflTransGen (Uses all) component name →
          (all.lookup name).isSome ∧ ¬ TransGen (Uses all) name name) →
        (∃ html, program.render component props = .ok html) ∨
          ∃ e, program.render component props = .error (.number e)) ∧
      ∀ outer inner, Uses all outer inner → Mentions all outer inner := by
  intro all watched
  have hbound : (componentNames all).length ≤ all.length + ([] : List String).length := by
    have hlength := (List.dedup_sublist (all.map Prod.fst)).length_le
    rwa [List.length_map] at hlength
  have hrenders : Renders all [] component props (program.render component props) :=
    Render.renders_render .nil hbound component props
  have hfails := (hrenders.ends .refl nofun).failure
  obtain ⟨times, hrun, -, htimes⟩ := Render.renderWith_keeps (Frames.history_lawful all) all.length
    [] component props [[]] rfl (List.forall_mem_singleton.mpr .nil)
  refine ⟨fun result => ⟨fun h => h.unique hrenders, fun h => h ▸ hrenders⟩, ?_, ?_, ?_, ?_⟩
  · have hwatched : watched = (program.render component props, times) := hrun
    rw [hwatched]
    exact ⟨rfl, fun names hnames => ⟨htimes names hnames, (htimes names hnames).length_le⟩⟩
  · exact fun name hname => (hfails _ hname).2
  · intro hgood
    cases hresult : program.render component props with
    | ok html => exact .inl ⟨html, rfl⟩
    | error e =>
      have hblames := hfails e hresult
      cases e with
      | number e => exact .inr ⟨e, rfl⟩
      | notFound name =>
        have hdeclared := (hgood name hblames.1).1
        rw [hblames.2] at hdeclared
        cases hdeclared
      | recursive name => exact absurd hblames.2 (hgood name hblames.1).2
  · exact fun outer inner => Uses.mentions

end UiScript.Program
