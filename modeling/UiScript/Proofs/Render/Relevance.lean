import UiScript.Proofs.Render.Frames
import UiScript.Script.Basic

/-!
# What rendering reads

Rendering looks into a scope by name only. Two scopes that agree on the names in a node give it the
same value and the same markup, and they still agree on these names once each of them has been
extended by the same variable.
-/

namespace UiScript.Render

open List

open Node (evaluate evaluateEntries evaluateList)

/-! ### Scopes that agree -/

/-- The same names out of some list are in both scopes, with the same values. -/
def Agree (names : List String) (p q : Dict Value) : Prop :=
  ∀ x ∈ names, Dict.get? p x = Dict.get? q x

def Within (names : List String) (n : Node) : Prop :=
  ∀ m ∈ n.outline, ∀ x ∈ Script.bareName? m, x ∈ names

variable {names : List String} {p q : Dict Value} {n : Node} {es : List (Entry Node)}
  {ns : List Node}

lemma Agree.set (h : Agree names p q) (name : String) (v : Value) :
    Agree names (Dict.set name v p) (Dict.set name v q) := by
  intro x hx
  by_cases hname : x = name
  · rw [hname, Dict.get?_set_self, Dict.get?_set_self]
  · rw [Dict.get?_set_of_ne hname, Dict.get?_set_of_ne hname, h x hx]

lemma Within.part {k : Node} (h : Within names n) (hk : k ∈ n.parts) : Within names k :=
  fun m hm => h m (Node.mem_outline_of_part hk hm)

/-! ### Expressions -/

lemma evaluateList_congr (h : ∀ n ∈ ns, n.evaluate p = n.evaluate q) :
    evaluateList ns p = evaluateList ns q := by
  induction ns with
  | nil => rfl
  | cons n ns ih =>
    obtain ⟨hn, hns⟩ := forall_mem_cons.mp h
    rw [evaluateList, evaluateList, hn, ih hns]

lemma evaluateEntries_congr (h : ∀ n ∈ es.filterMap (·.value), n.evaluate p = n.evaluate q) :
    evaluateEntries es p = evaluateEntries es q := by
  induction es with
  | nil => rfl
  | cons e es ih =>
    obtain ⟨name, _ | n⟩ := e
    · rw [evaluateEntries, evaluateEntries, ih h]
    · obtain ⟨hn, hes⟩ := forall_mem_cons.mp h
      rw [evaluateEntries, evaluateEntries, hn, ih hes]

/-- Scopes that agree on the names in an expression give it the same value. -/
lemma evaluate_congr (h : Agree names p q) (hn : Within names n) : n.evaluate p = n.evaluate q := by
  induction n using Node.parts_induction with
  | h n ih =>
    have hpart (k : Node) (hk : k ∈ n.parts) : k.evaluate p = k.evaluate q := ih k hk (hn.part hk)
    cases n with
    | identifier place name =>
      rw [evaluate, evaluate, h name (hn _ (Node.mem_outline_self _) name rfl)]
    | array place elements =>
      have helements : evaluateList elements p = _ := evaluateList_congr hpart
      rw [evaluate, evaluate, helements]
    | object place properties =>
      have hproperties : evaluateEntries properties p = _ := evaluateEntries_congr hpart
      rw [evaluate, evaluate, hproperties]
    | binary place op left right =>
      have hleft := hpart left (by simp [Node.parts])
      have hright := hpart right (by simp [Node.parts])
      by_cases hand : op = "&&"
      · rw [hand, evaluate, evaluate, hleft, hright]
      by_cases hor : op = "||"
      · rw [hor, evaluate, evaluate, hleft, hright]
      rw [evaluate, evaluate, hleft, hright] <;> assumption
    | unary place op operand =>
      rw [evaluate, evaluate, hpart operand mem_cons_self]
    | member place obj property computed index =>
      have hindex : Node.evaluateIndex index p = Node.evaluateIndex index q := by
        cases index with
        | none => rfl
        | some i => exact hpart i (by simp [Node.parts])
      rw [evaluate, evaluate, hpart obj mem_cons_self, hindex]
    | conditional place condition consequent alternate =>
      rw [evaluate, evaluate, hpart condition (by simp [Node.parts]),
        hpart consequent (by simp [Node.parts]), hpart alternate (by simp [Node.parts])]
    | _ => rfl

lemma eval_congr (h : Agree names p q) (hn : Within names n) : eval n p = eval n q := by
  rw [eval, eval, evaluate_congr h hn]

/-! ### Markup -/

lemma attributeTexts_congr (h : Agree names p q)
    (hes : ∀ n ∈ es.filterMap (·.value), Within names n) :
    attributeTexts p es = attributeTexts q es := by
  induction es with
  | nil => rfl
  | cons e es ih =>
    obtain ⟨name, _ | n⟩ := e
    · rw [attributeTexts, attributeTexts, ih hes]
    · obtain ⟨hn, hes⟩ := forall_mem_cons.mp hes
      rw [attributeTexts, attributeTexts, ih hes, eval_congr h hn]

lemma propValues_congr (h : Agree names p q) (hes : ∀ n ∈ es.filterMap (·.value), Within names n) :
    propValues p es = propValues q es := by
  induction es with
  | nil => rfl
  | cons e es ih =>
    obtain ⟨name, _ | n⟩ := e
    · exact ih hes
    · obtain ⟨hn, hes⟩ := forall_mem_cons.mp hes
      rw [propValues, propValues, ih hes, eval_congr h hn]

section Markup

variable {use : String → Dict Value → Except RenderError String}

lemma markupList_congr (h : ∀ n ∈ ns, markup use n p = markup use n q) :
    markupList use ns p = markupList use ns q := by
  induction ns with
  | nil => rfl
  | cons n ns ih =>
    obtain ⟨hn, hns⟩ := forall_mem_cons.mp h
    rw [markupList, markupList, hn, ih hns]

/-- Scopes that agree on the names in a node give it the same markup. Loops extend both scopes, so
the induction is for all scopes. -/
lemma markup_congr (hn : Within names n) (h : Agree names p q) :
    markup use n p = markup use n q := by
  induction n using Node.parts_induction generalizing p q with
  | h n ih =>
    have hpart {k : Node} (hk : k ∈ n.parts) : Within names k := hn.part hk
    have hlist (ns : List Node) (hns : ∀ k ∈ ns, k ∈ n.parts) {p q : Dict Value}
        (h : Agree names p q) : markupList use ns p = markupList use ns q :=
      markupList_congr fun k hk => ih k (hns k hk) (hpart (hns k hk)) h
    cases n with
    | interpolation => simp only [markup, eval_congr h (hpart mem_cons_self)]
    | element place tag attributes children =>
      have htexts := attributeTexts_congr h fun k hk => hpart (mem_append_left _ hk)
      simp only [markup, htexts, hlist children (fun k hk => mem_append_right _ hk) h]
    | use =>
      have hvalues := propValues_congr h fun k hk => hpart (mem_append_left _ hk)
      simp only [markup, hvalues]
    | ifElse place condition consequent alternate =>
      have hthen := hlist consequent
        (fun k hk => mem_append_left _ (mem_cons_of_mem _ hk)) h
      have helse : markupOption use alternate p = markupOption use alternate q := by
        cases alternate with
        | none => rfl
        | some ns => exact hlist ns (fun k hk => mem_append_right _ hk) h
      simp only [markup, eval_congr h (hpart mem_cons_self), hthen, helse]
    | forEach place name iterable body =>
      have hbody (v : Value) := hlist body (fun k hk => mem_cons_of_mem _ hk)
        (h.set name v)
      simp only [markup, eval_congr h (hpart mem_cons_self), funext hbody]
    | _ => simp only [markup]

end Markup

/-! ### Components -/

section Components

variable {f : Dict Value → Except RenderError String}

/-- Whatever reads only the names of a component, it may as well do so behind the default values. -/
lemma withDefaults_congr {ps : List (Param Node)} (hnames : ∀ s ∈ ps.map (·.name), s ∈ names)
    (hps : ∀ n ∈ ps.filterMap (·.default), Within names n)
    (hf : ∀ {p q}, Agree names p q → f p = f q) (h : Agree names p q) :
    (withDefaults ps p >>= f) = (withDefaults ps q >>= f) := by
  induction ps generalizing p q with
  | nil => exact hf h
  | cons s ps ih =>
    obtain ⟨hname, hrest⟩ := forall_mem_cons.mp hnames
    obtain ⟨name, written, _ | n⟩ := s
    · simp only [withDefaults, h name hname]
      cases Dict.get? q name <;> exact ih hrest hps h
    · obtain ⟨hn, hps⟩ := forall_mem_cons.mp hps
      simp only [withDefaults, h name hname]
      cases Dict.get? q name with
      | some => exact ih hrest hps h
      | none =>
        simp only [eval_congr h hn, bind_assoc]
        exact congrArg _ (funext fun v => ih hrest hps (h.set name v))

/-- So it may behind the values of the state and the variables. -/
lemma withBindings_congr (hns : ∀ n ∈ ns, Within names n)
    (hf : ∀ {p q}, Agree names p q → f p = f q) (h : Agree names p q) :
    (withBindings ns p >>= f) = (withBindings ns q >>= f) := by
  induction ns generalizing p q with
  | nil => exact hf h
  | cons n ns ih =>
    obtain ⟨hn, hrest⟩ := forall_mem_cons.mp hns
    cases n with
    | state _ name _ value | binding _ name _ _ value =>
      simp only [withBindings, eval_congr h (hn.part mem_cons_self), bind_assoc]
      exact congrArg _ (funext fun v => ih hrest (h.set name v))
    | _ => exact ih hrest h

end Components

/-- The names that count for a component: its parameters, and all names in their default values and
in its body. -/
def Component.relevant (c : Component) : List String :=
  c.params.map (·.name) ++
    (Node.outlineList (c.params.filterMap (·.default) ++ c.body)).filterMap Script.bareName?

lemma Component.within_relevant (c : Component)
    (hn : n ∈ c.params.filterMap (·.default) ++ c.body) : Within c.relevant n := by
  intro m hm x hx
  have hmem := Node.mem_outlineList.mpr ⟨n, hn, hm⟩
  exact mem_append_right _ (mem_filterMap.mpr ⟨m, hmem, hx⟩)

lemma instanceMarkup_congr {use : String → Dict Value → Except RenderError String} (c : Component)
    (h : Agree c.relevant p q) : instanceMarkup use c p = instanceMarkup use c q := by
  have hbody (n : Node) (hn : n ∈ c.body) : Within c.relevant n :=
    c.within_relevant (mem_append_right _ hn)
  refine withDefaults_congr (fun _ hs => mem_append_left _ hs)
    (fun n hn => c.within_relevant (mem_append_left _ hn)) (fun h => ?_) h
  refine withBindings_congr hbody (fun h => ?_) h
  cases hroot : c.body.find? isRoot with
  | none => rfl
  | some root => exact markup_congr (hbody root (mem_of_find?_eq_some hroot)) h

lemma render_congr {all : List (String × Component)} {name : String}
    (h : ∀ c, all.lookup name = some c → Agree c.relevant p q) (depth : Nat)
    (active : List String) : render all depth active name p = render all depth active name q := by
  cases hc : all.lookup name with
  | none => rw [render, render, hc]
  | some c =>
    cases depth with
    | zero => rw [render, render, hc]
    | succ => rw [render, render, hc]; simp only [instanceMarkup_congr c (h c hc)]

end UiScript.Render

namespace UiScript.Program

open Render

/-- Props that agree on the names that count for a component give the same markup or the same
failure, whatever else they hold and in whatever order: for a program, and for a renderer of it that
may be rendering other components. -/
theorem render_of_relevant (program : Program) (name : String) (p q : Dict Value)
    (h : ∀ c, (components program).lookup name = some c →
      ∀ x ∈ c.relevant, Dict.get? p x = Dict.get? q x) :
    program.render name p = program.render name q ∧
      ∀ r : Renderer, r.components = components program → r.render name p = r.render name q := by
  refine ⟨render_congr h _ _, fun r hr => ?_⟩
  rw [Renderer.render_eq, Renderer.render_eq, render_congr (by rwa [hr])]

/-- A prop that is named in the body only, one that is not named at all, and the other order. -/
theorem render_of_relevant_order :
    let greeting := .element none "p" [] [.interpolation none (.identifier none "a"),
      .interpolation none (.identifier none "b")] false
    let program : Program := { body := [.component none "C" [⟨"a", none, none⟩] [greeting]] }
    program.render "C" [("z", .null), ("a", .str "x"), ("b", .str "y")] =
      program.render "C" [("b", .str "y"), ("a", .str "x")] := by
  intro greeting program
  refine (render_of_relevant program "C" _ _ fun c hc => ?_).1
  obtain rfl := Option.some.inj hc
  have hrelevant : Component.relevant ⟨[⟨"a", none, none⟩], [greeting]⟩ = ["a", "a", "b"] := rfl
  rw [hrelevant]
  simp [Dict.get?_cons]

end UiScript.Program
