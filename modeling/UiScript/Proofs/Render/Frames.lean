import UiScript.Proofs.Syntax.Outline
import UiScript.Render

/-!
# Rendering with a state

A renderer enters a component before its markup is made and leaves it afterwards, also when
something inside fails. So at the end of every action the same components are being rendered as at
its start, and the result is that of rendering with the names handed down.
-/

namespace UiScript.Render

variable {σ α β : Type}

/-! ### Frames -/

/-- Components are entered and left like those of a stack, and an invariant of the state is kept
where a component is entered that is declared and not being rendered. -/
structure Frames.Lawful (frames : Frames σ) (all : List (String × Component)) (inv : σ → Prop) :
    Prop where
  names_enter (name : String) (s : σ) : frames.names (frames.enter name s) = name :: frames.names s
  names_leave (s : σ) : frames.names (frames.leave s) = (frames.names s).tail
  enter {name : String} {s : σ} (hs : inv s) (hdeclared : (all.lookup name).isSome)
    (hnew : name ∉ frames.names s) : inv (frames.enter name s)
  leave {s : σ} (hs : inv s) : inv (frames.leave s)

lemma Frames.stack_lawful (all : List (String × Component)) :
    Frames.stack.Lawful all fun _ => True where
  names_enter _ _ := rfl
  names_leave _ := rfl
  enter _ _ _ := trivial
  leave _ := trivial

/-- What comes last is done however the action ends. -/
lemma finally_run (action : Rendering σ α) (f : σ → σ) (s : σ) :
    (tryFinally action (modify f)).run.run s =
      ((action.run.run s).1, f (action.run.run s).2) := by
  have hended (ended : Except RenderError α × σ) :
      (tryFinally (m := Rendering σ) (ExceptT.mk fun _ => ended) (modify f)).run.run s =
        (ended.1, f ended.2) := by
    obtain ⟨result, s'⟩ := ended
    cases result <;> rfl
  exact hended (action.run.run s)

lemma Frames.within_run (frames : Frames σ) (name : String) (action : Rendering σ α) (s : σ) :
    (frames.within name action).run.run s =
      ((action.run.run (frames.enter name s)).1,
        frames.leave (action.run.run (frames.enter name s)).2) :=
  finally_run action frames.leave (frames.enter name s)

/-! ### Actions that keep the frames -/

/-- In every state where components with the given names are being rendered, the action has the
given result. Afterwards the same components are being rendered, and the invariant holds again. -/
def Keeps (frames : Frames σ) (inv : σ → Prop) (names : List String) (action : Rendering σ α)
    (result : Except RenderError α) : Prop :=
  ∀ s, frames.names s = names → inv s →
    ∃ s', action.run.run s = (result, s') ∧ frames.names s' = names ∧ inv s'

namespace Keeps

variable {frames : Frames σ} {inv : σ → Prop} {names : List String}

lemma pure (a : α) : Keeps frames inv names (Pure.pure a) (.ok a) :=
  fun s hs hinv => ⟨s, rfl, hs, hinv⟩

lemma throw (e : RenderError) : Keeps frames inv names (throw e : Rendering σ α) (.error e) :=
  fun s hs hinv => ⟨s, rfl, hs, hinv⟩

lemma lift (result : Except RenderError α) :
    Keeps frames inv names (liftM result : Rendering σ α) result :=
  fun s hs hinv => ⟨s, rfl, hs, hinv⟩

lemma bind {x : Rendering σ α} {f : α → Rendering σ β} {r : Except RenderError α}
    {g : α → Except RenderError β} (hx : Keeps frames inv names x r)
    (hf : ∀ a, Keeps frames inv names (f a) (g a)) :
    Keeps frames inv names (x >>= f) (r >>= g) := by
  intro s hs hinv
  obtain ⟨s', hrun, hs', hinv'⟩ := hx s hs hinv
  simp only [ExceptT.run_bind, StateT.run_bind, hrun]
  cases r with
  | error => exact ⟨s', rfl, hs', hinv'⟩
  | ok a => exact hf a s' hs' hinv'

lemma ite {p : Prop} [Decidable p] {x y : Rendering σ α} {r t : Except RenderError α}
    (hx : p → Keeps frames inv names x r) (hy : ¬ p → Keeps frames inv names y t) :
    Keeps frames inv names (if p then x else y) (if p then r else t) := by
  split
  · exact hx ‹_›
  · exact hy ‹_›

lemma get_bind {f : σ → Rendering σ α} {r : Except RenderError α}
    (h : ∀ s, frames.names s = names → Keeps frames inv names (f s) r) :
    Keeps frames inv names (get >>= f) r :=
  fun s hs hinv => h s hs s hs hinv

/-- What is kept inside a component is kept outside it. -/
lemma within {all : List (String × Component)} (hframes : frames.Lawful all inv) {name : String}
    (hdeclared : (all.lookup name).isSome) (hnew : name ∉ names) {action : Rendering σ α}
    {result : Except RenderError α} (h : Keeps frames inv (name :: names) action result) :
    Keeps frames inv names (frames.within name action) result := by
  rintro s rfl hinv
  obtain ⟨s', hrun, hs', hinv'⟩ :=
    h (frames.enter name s) (hframes.names_enter name s) (hframes.enter hinv hdeclared hnew)
  refine ⟨frames.leave s', ?_, ?_, hframes.leave hinv'⟩
  · rw [Frames.within_run, hrun]
  · rw [hframes.names_leave, hs', List.tail_cons]

end Keeps

/-! ### Markup and components -/

section Markup

variable {frames : Frames σ} {inv : σ → Prop} {names : List String}
  {use : String → Dict Value → Rendering σ String}
  {use' : String → Dict Value → Except RenderError String}

lemma joinItems_keeps {render : Value → Rendering σ String}
    {render' : Value → Except RenderError String}
    (h : ∀ v, Keeps frames inv names (render v) (render' v)) (vs : List Value) :
    Keeps frames inv names (joinItems render vs) (joinItems render' vs) := by
  induction vs with
  | nil => exact .pure _
  | cons v vs ih => exact (h v).bind fun text => ih.bind fun rest => .pure _

lemma markupList_keeps {ns : List Node}
    (h : ∀ n ∈ ns, ∀ scope, Keeps frames inv names (markup use n scope) (markup use' n scope))
    (scope : Dict Value) :
    Keeps frames inv names (markupList use ns scope) (markupList use' ns scope) := by
  induction ns with
  | nil => exact .pure _
  | cons n ns ih =>
    obtain ⟨hn, hns⟩ := List.forall_mem_cons.mp h
    exact (hn scope).bind fun text => (ih hns).bind fun rest => .pure _

lemma markup_keeps (huse : ∀ name props, Keeps frames inv names (use name props) (use' name props))
    (n : Node) (scope : Dict Value) :
    Keeps frames inv names (markup use n scope) (markup use' n scope) := by
  induction n using Node.parts_induction generalizing scope with
  | h n ih =>
    have hlist {ns : List Node} (hns : ∀ k ∈ ns, k ∈ n.parts) (scope : Dict Value) :
        Keeps frames inv names (markupList use ns scope) (markupList use' ns scope) :=
      markupList_keeps (fun k hk => ih k (hns k hk)) scope
    cases n with
    | text => exact .pure _
    | interpolation =>
      simp only [markup]
      exact .bind (.lift _) fun v => .lift _
    | element =>
      simp only [markup]
      refine .bind (.lift _) fun texts => .ite (fun _ => .pure _) fun _ => ?_
      exact (hlist (fun k hk => List.mem_append_right _ hk) scope).bind fun inner => .pure _
    | use p name =>
      simp only [markup]
      exact .bind (.lift _) fun values => huse name _
    | ifElse p condition consequent alternate =>
      simp only [markup]
      refine .bind (.lift _) fun c => .ite (fun _ => ?_) fun _ => ?_
      · exact hlist (fun k hk => List.mem_append_left _ (List.mem_cons_of_mem _ hk)) scope
      · cases alternate with
        | none => exact .pure _
        | some => exact hlist (fun k hk => List.mem_append_right _ hk) scope
    | forEach =>
      simp only [markup]
      refine .bind (.lift _) fun v => ?_
      cases v with
      | list items =>
        exact joinItems_keeps (fun v => hlist (fun k hk => List.mem_cons_of_mem _ hk) _) items
      | _ => exact .pure _
    | _ => exact .pure _

lemma instanceMarkup_keeps
    (huse : ∀ name props, Keeps frames inv names (use name props) (use' name props))
    (c : Component) (props : Dict Value) :
    Keeps frames inv names (instanceMarkup use c props) (instanceMarkup use' c props) := by
  refine .bind (.lift _) fun scope => .bind (.lift _) fun scope => ?_
  split
  · exact markup_keeps huse _ scope
  · exact .pure _

end Markup

/-- Rendering keeps the frames, and its result is the one with the names handed down. Each component
is rendered inside others, so the induction is on how many may still follow. -/
lemma renderWith_keeps {frames : Frames σ} {all : List (String × Component)} {inv : σ → Prop}
    (hframes : frames.Lawful all inv) (depth : Nat) (names : List String) (name : String)
    (props : Dict Value) :
    Keeps frames inv names (renderWith frames all depth name props)
      (render all depth names name props) := by
  induction depth generalizing names name props with
  | zero =>
    unfold renderWith render
    split
    · exact .throw _
    · exact .get_bind fun s hs => hs ▸ .ite (fun _ => .throw _) fun _ => .throw _
  | succ depth ih =>
    unfold renderWith render
    split
    · exact .throw _
    next c hc =>
      refine .get_bind fun s hs => hs ▸ .ite (fun _ => .throw _) fun hnew => ?_
      refine .within hframes (Option.isSome_of_eq_some hc) ?_ (instanceMarkup_keeps (ih _) c props)
      simpa using hnew

end UiScript.Render

/-! ### Renderers -/

namespace UiScript.Renderer

/-- A renderer answers as one with the names handed down does, and is not changed. -/
lemma render_eq (r : Renderer) (component : String) (props : Dict Value) :
    r.render component props =
      (Render.render r.components r.components.length r.rendering component props, r) := by
  obtain ⟨s, hrun, rfl, -⟩ := Render.renderWith_keeps (Render.Frames.stack_lawful r.components)
    r.components.length r.rendering component props r.rendering rfl trivial
  simp only [Renderer.render, hrun]

lemma renderAll_eq (r : Renderer) (calls : List (String × Dict Value)) :
    r.renderAll calls = calls.map fun call => ((r.render call.1 call.2).1, r) := by
  induction calls with
  | nil => rfl
  | cons call calls ih =>
    have hsame : (r.render call.1 call.2).2 = r := by rw [render_eq]
    rw [List.map_cons, ← ih, renderAll, hsame]
    exact congrArg (· :: _) (Prod.ext rfl hsame)

end UiScript.Renderer

namespace UiScript.Program

/-- Any number of components can be rendered in a row, whatever becomes of each of them: every
result is that of a renderer of its own, and after every one the renderer is as it was at first. A
renderer of its own gives the markup of the component, or the same failure. -/
theorem renderer_reusable (program : Program) (calls : List (String × Dict Value)) :
    program.renderer.renderAll calls =
        calls.map (fun call =>
          ((program.renderer.render call.1 call.2).1, program.renderer)) ∧
      ∀ component props,
        (program.renderer.render component props).1 = program.render component props := by
  refine ⟨Renderer.renderAll_eq _ calls, fun component props => ?_⟩
  rw [Renderer.render_eq]
  rfl

end UiScript.Program
