import Mathlib.Data.List.Forall2
import Mathlib.Data.Multiset.Range
import Mathlib.Data.Option.Basic
import Mathlib.Tactic.Abel
import UiScript.Proofs.Script.Forms
import UiScript.Proofs.Script.Renaming

/-!
# Two runs of the generator

What the generator writes depends on a node only through its head and through what its parts are
written as, and on its own state through everything but the remarks. Two runs are compared from
states with their own state names, so that both trees without places and trees without routed
assignments can stand on the second side.
-/

namespace UiScript.Script

open List

open Dom (elementName)

/-! ### Lists of nodes -/

lemma lowerList_eq_map (ns : List Node) : lowerList ns = ns.map fun n => (n, lower n) :=
  lowerListWith_eq_map _ ns

lemma lowerEntries_eq_map (es : List (Entry Node)) :
    lowerEntries es = es.map fun e => (e.name, lowerOption e.value) :=
  lowerEntriesWith_eq_map _ es

lemma lowerParams_eq_map (ps : List (Param Node)) :
    lowerParams ps = ps.map fun q => (q.name, lowerOption q.default) :=
  lowerParamsWith_eq_map _ ps

/-! ### The generators of two runs -/

lemma withStateNames_run {α : Type} (change : List String → List String) (m : Gen α)
    (g : Generator) : (withStateNames change m).run g =
      (m.run { g with stateNames := change g.stateNames } >>= fun r =>
        Except.ok (r.1, { r.2 with stateNames := g.stateNames })) :=
  rfl

/-- Two generators that differ in nothing but the remarks and the state names. These are `S` in the
first one and `S'` in the second one. -/
structure Alike (S S' : List String) (g g' : Generator) : Prop where
  left : g.stateNames = S
  right : g'.stateNames = S'
  title : g.title = g'.title
  components : g.components = g'.components
  styles : g.styles = g'.styles
  css : g.css = g'.css
  published : g.published = g'.published
  nextElement : g.nextElement = g'.nextElement

/-- The state names that a scope does not bind anew. -/
def hide (names S : List String) : List String := S.filter fun name => !names.contains name

/-- Two runs end in the same way, with related values. -/
inductive Agree {α β : Type} (S S' : List String) (V : α → β → Prop) :
    Except GenerateError (α × Generator) → Except GenerateError (β × Generator) → Prop
  | ok {a : α} {b : β} {g g' : Generator} (hv : V a b) (hg : Alike S S' g g') :
      Agree S S' V (.ok (a, g)) (.ok (b, g'))
  | error (e : GenerateError) : Agree S S' V (.error e) (.error e)

variable {α β : Type}

/-- From alike generators the two actions end in the same way. -/
def Coupled (S S' : List String) (V : α → β → Prop) (m : Gen α) (m' : Gen β) : Prop :=
  ∀ ⦃g g'⦄, Alike S S' g g' → Agree S S' V (m.run g) (m'.run g')

/-- From alike generators the two actions give the same. -/
abbrev SameCode (S S' : List String) (m m' : Gen α) : Prop := Coupled S S' Eq m m'

variable {S S' : List String} {lines lines' : String → Gen (List String)}

/-- The state names within the first action are those of its scope; behind it they are as before. -/
lemma Coupled.withStateNames_left {V : α → β → Prop} {change : List String → List String}
    {m : Gen α} {m' : Gen β} (h : Coupled (change S) S' V m m') :
    Coupled S S' V (withStateNames change m) m' := by
  intro g g' hg
  have hin : Alike (change S) S' { g with stateNames := change g.stateNames } g' :=
    { hg with left := by rw [hg.left] }
  have hm := h hin
  rw [withStateNames_run]
  generalize m.run _ = r, m'.run _ = r' at hm
  cases hm with
  | ok hv hout => exact .ok hv { hout with left := hg.left }
  | error e => exact .error e

/-! ### Runs with other numbers -/

/-- Two runs: how many elements the second one is ahead, and the state names of each. -/
structure Runs where
  ahead : ℕ
  left : List String
  right : List String

/-- The runs within a scope that binds some names anew. -/
abbrev Runs.hide (R : Runs) (names : List String) : Runs :=
  ⟨R.ahead, Script.hide names R.left, Script.hide names R.right⟩

lemma Runs.hide_nil (R : Runs) : R.hide [] = R := by simp [Runs.hide, Script.hide]

/-- What a run does to a generator, apart from the count of elements: it keeps the title and the
components, and adds style rules and published names, none of these twice. -/
structure Generator.Keeps (g h : Generator) : Prop where
  title : h.title = g.title
  components : h.components = g.components
  css : g.css <+: h.css
  published : g.published <+: h.published
  nodup : g.published.Nodup → h.published.Nodup

lemma Generator.Keeps.of_same {g h : Generator} (ht : h.title = g.title)
    (hc : h.components = g.components) (hs : h.css = g.css) (hp : h.published = g.published) :
    g.Keeps h :=
  ⟨ht, hc, hs ▸ prefix_rfl, hp ▸ prefix_rfl, fun hn => hp ▸ hn⟩

lemma Generator.Keeps.refl (g : Generator) : g.Keeps g := .of_same rfl rfl rfl rfl

lemma Generator.Keeps.trans {g h i : Generator} (hg : g.Keeps h) (hh : h.Keeps i) : g.Keeps i :=
  ⟨hh.title.trans hg.title, hh.components.trans hg.components, hg.css.trans hh.css,
    hg.published.trans hh.published, hh.nodup ∘ hg.nodup⟩

/-- The generators of two runs, whose style rules create the elements `F`. -/
structure Ahead (R : Runs) (F : Multiset ℕ) (g g' : Generator) : Prop where
  left : g.stateNames = R.left
  right : g'.stateNames = R.right
  title : g.title = g'.title
  components : g.components = g'.components
  styles : g.styles = g'.styles
  css : Each (Renamed R.ahead) F g.css g'.css
  published : g.published = g'.published
  nextElement : g'.nextElement = R.ahead + g.nextElement

/-- Two runs from `g` on end in the same way, with related values. What the values and the new style
rules create are the elements that were counted, each of them once. -/
inductive Ends {α β : Type} (R : Runs) (V : Multiset ℕ → α → β → Prop)
    (F : Multiset ℕ) (g : Generator) :
    Except GenerateError (α × Generator) → Except GenerateError (β × Generator) → Prop
  | ok {E F' : Multiset ℕ} {a : α} {b : β} {h h' : Generator} (hv : V E a b)
      (hh : Ahead R F' h h') (hk : g.Keeps h)
      (hcount : E + F' + .range g.nextElement = F + .range h.nextElement) :
      Ends R V F g (.ok (a, h)) (.ok (b, h'))
  | error (e : GenerateError) : Ends R V F g (.error e) (.error e)

/-- The two actions end in the same way from generators of which the second one is ahead. -/
def Paired (R : Runs) (V : Multiset ℕ → α → β → Prop) (m : Gen α) (m' : Gen β) :
    Prop :=
  ∀ ⦃g g' F⦄, Ahead R F g g' → Ends R V F g (m.run g) (m'.run g')

/-- The two actions write the same code, with other numbers. -/
abbrev Codes (R : Runs) (m m' : Gen String) : Prop := Paired R (Renamed R.ahead) m m'

/-- The two actions write the same lines, with other numbers. -/
abbrev Rows (R : Runs) (m m' : Gen (List String)) : Prop :=
  Paired R (Each (Renamed R.ahead)) m m'

/-- The value creates nothing. -/
def Nothing (E : Multiset ℕ) (_ : α) (_ : β) : Prop := E = 0

namespace Paired

variable {R : Runs} {α β γ δ : Type} {V : Multiset ℕ → α → β → Prop}
  {W : Multiset ℕ → γ → δ → Prop} {m : Gen α} {m' : Gen β}

/-- With the same numbers nothing differs. -/
lemma sameCode {m' : Gen α} {V : Multiset ℕ → α → α → Prop} (hV : ∀ {E a b}, V E a b → a = b)
    (h : Paired ⟨0, S, S'⟩ V m m') : SameCode S S' m m' := by
  intro g g' hg
  have hahead : Ahead ⟨0, S, S'⟩ 0 g g' :=
    { hg with css := hg.css ▸ .texts _, nextElement := by rw [hg.nextElement, Nat.zero_add] }
  have hm := h hahead
  generalize m.run g = r, m'.run g' = r' at hm ⊢
  cases hm with
  | ok hv hh =>
    exact .ok (hV hv)
      { hh with css := hh.css.eq, nextElement := by rw [hh.nextElement, Nat.zero_add] }
  | error e => exact .error e

/-- An action that gives the same as the second one may stand in its place. -/
lemma through {m' k : Gen β} (h : Paired R V m k) (h' : SameCode R.right R.right m' k) :
    Paired R V m m' := by
  intro g g' F hg
  have hm := h hg
  have hm' := h' ⟨hg.right, hg.right, rfl, rfl, rfl, rfl, rfl, rfl⟩
  generalize m.run g = r, m'.run g' = r', k.run g' = r'' at hm hm' ⊢
  cases hm with
  | error e =>
    cases hm'
    exact .error e
  | ok hv hh hk hcount =>
    cases hm' with
    | ok hw hl =>
      exact .ok (hw ▸ hv) ⟨hh.left, hl.left, hh.title.trans hl.title.symm,
        hh.components.trans hl.components.symm, hh.styles.trans hl.styles.symm, hl.css ▸ hh.css,
        hh.published.trans hl.published.symm, hl.nextElement.trans hh.nextElement⟩ hk hcount

/-- The end of two actions. -/
lemma done {X : Multiset ℕ → Multiset ℕ} {E : Multiset ℕ} {a : α} {b : β} (heq : E = X 0)
    (h : V E a b) : Paired R (fun E => V (X E)) (Pure.pure a) (Pure.pure b) :=
  fun g _ _ hg => .ok (heq ▸ h) hg (.refl g) (by rw [zero_add])

lemma pure {a : α} {b : β} (h : V 0 a b) : Paired R V (Pure.pure a) (Pure.pure b) :=
  done (X := id) rfl h

lemma throw (e : GenerateError) : Paired R V (MonadExcept.throw e) (MonadExcept.throw e) :=
  fun _ _ _ _ => .error e

lemma bind {f : α → Gen γ} {f' : β → Gen δ} (h : Paired R V m m')
    (hf : ∀ {E a b}, V E a b → Paired R (fun E' => W (E + E')) (f a) (f' b)) :
    Paired R W (m >>= f) (m' >>= f') := by
  intro g g' F hg
  have hm := h hg
  simp only [StateT.run_bind]
  generalize m.run g = r, m'.run g' = r' at hm
  cases hm with
  | error e => exact .error e
  | @ok E F' a b h h' hv hh hk hcount =>
    have hfa := hf hv hh
    change Ends R W F g ((f a).run h) ((f' b).run h')
    generalize (f a).run h = r, (f' b).run h' = r' at hfa ⊢
    cases hfa with
    | error e => exact .error e
    | @ok E' F'' c c' i i' hw hi hk' hcount' =>
      refine .ok hw hi (hk.trans hk') (add_right_cancel (b := F' + .range h.nextElement) ?_)
      calc
        E + E' + F'' + .range g.nextElement + (F' + .range h.nextElement) =
            E + F' + .range g.nextElement + (E' + F'' + .range h.nextElement) := by abel
        _ = F + .range i.nextElement + (F' + .range h.nextElement) := by
          rw [hcount, hcount']
          abel

/-- What is made of the values of two actions. -/
lemma bindPure {f : α → γ} {f' : β → δ} (h : Paired R V m m')
    (hf : ∀ {E a b}, V E a b → W E (f a) (f' b)) :
    Paired R W (m >>= fun a => Pure.pure (f a)) (m' >>= fun b => Pure.pure (f' b)) :=
  h.bind fun hv => done (by abel) (hf hv)

lemma map {f : α → γ} {f' : β → δ} (h : Paired R V m m')
    (hf : ∀ {E a b}, V E a b → W E (f a) (f' b)) : Paired R W (f <$> m) (f' <$> m') := by
  exact h.bindPure hf

/-- An action whose value creates nothing, and another one. -/
lemma andThen {f : α → Gen γ} {f' : β → Gen δ} (h : Paired R Nothing m m')
    (hf : ∀ a b, Paired R W (f a) (f' b)) : Paired R W (m >>= f) (m' >>= f') :=
  h.bind fun {E a b} hE => by simpa only [show E = 0 from hE, zero_add] using hf a b

lemma get_bind {f : Generator → Gen α} {f' : Generator → Gen β}
    (h : ∀ {g g' F}, Ahead R F g g' → Paired R V (f g) (f' g')) :
    Paired R V (get >>= f) (get >>= f') :=
  fun _ _ _ hg => h hg hg

/-- Only the first action looks at its generator. -/
lemma get_bind_left {f : Generator → Gen α} (h : ∀ {g g' F}, Ahead R F g g' → Paired R V (f g) m') :
    Paired R V (get >>= f) m' :=
  fun _ _ _ hg => h hg hg

lemma modify {f f' : Generator → Generator}
    (h : ∀ {g g' F}, Ahead R F g g' → Ahead R F (f g) (f' g'))
    (hk : ∀ g : Generator, g.Keeps (f g)) (hn : ∀ g, (f g).nextElement = g.nextElement) :
    Paired R Nothing (modify f) (modify f') :=
  fun g _ _ hg => .ok rfl (h hg) (hk g) (by rw [zero_add, hn])

/-- The state names within two actions are those of their scopes; behind them they are as before. -/
lemma withStateNames {change change' : List String → List String}
    (h : Paired ⟨R.ahead, change R.left, change' R.right⟩ V m m') :
    Paired R V (withStateNames change m) (withStateNames change' m') := by
  intro g g' F hg
  have hin : Ahead ⟨R.ahead, change R.left, change' R.right⟩ F
      { g with stateNames := change g.stateNames }
      { g' with stateNames := change' g'.stateNames } :=
    { hg with left := by rw [hg.left], right := by rw [hg.right] }
  have hm := h hin
  rw [withStateNames_run, withStateNames_run]
  generalize m.run _ = r, m'.run _ = r' at hm
  cases hm with
  | ok hv hout hk hcount =>
    exact .ok hv { hout with left := hg.left, right := hg.right }
      ⟨hk.title, hk.components, hk.css, hk.published, hk.nodup⟩ hcount
  | error e => exact .error e

lemma rebinding {names : List String} (h : Paired (R.hide names) V m m') :
    Paired R V (rebinding names m) (rebinding names m') :=
  withStateNames h

lemma ite {p : Prop} [Decidable p] {m n : Gen α} {m' n' : Gen β} (hm : Paired R V m m')
    (hn : Paired R V n n') : Paired R V (if p then m else n) (if p then m' else n') := by
  split
  · exact hm
  · exact hn

lemma inOrder {ms : List (Gen α)} {ms' : List (Gen β)} (h : Forall₂ (Paired R V) ms ms') :
    Paired R (Each V) (inOrder ms) (inOrder ms') := by
  induction h with
  | nil => exact .pure .nil
  | cons hm _ ih => exact hm.bind fun ha => ih.bind fun has => .done (by abel) (has.cons ha)

end Paired

/-! ### Nodes of two runs -/

/-- The generator sees no difference between two nodes, apart from their parts. -/
structure SameHead (n n' : Node) : Prop where
  formName : n.formName = n'.formName
  bareName : bareName? n = bareName? n'
  isObject : isObject n = isObject n'
  isIf : isIf n = isIf n'
  styleText : styleText? n = styleText? n'
  blockBinding : blockBinding? n = blockBinding? n'
  role : roleOf n = roleOf n'
  looseOperand : isLooseOperand n = isLooseOperand n'
  looseSigned : isLooseSigned n = isLooseSigned n'
  looseCallee : isLooseCallee n = isLooseCallee n'
  looseObject : isLooseObject n = isLooseObject n'

/-- Where a node stands. -/
inductive Position where
  | expression
  | statement
  | child

/-- The variable of a node that holds others: a fixed one, or that of an element. -/
inductive Named (d : ℕ) : String → String → Prop
  | fixed (s : String) : Named d s s
  | element (i : ℕ) : Named d (elementName i) (elementName (d + i))

/-- The forms that a node has in a position give the same code in both runs. -/
structure Forms.Alike (pos : Position) (R : Runs) (f f' : Forms) : Prop where
  expr : Codes R f.expr f'.expr
  stmt : pos = .statement → Codes R f.stmt f'.stmt
  child : pos = .child → ∀ {v v'}, Named R.ahead v v' → Rows R (f.child v) (f'.child v')
  cell : pos = .statement → Codes R f.cell f'.cell

/-- A node of the first run and its counterpart in the second one. -/
structure Lowered.Alike (pos : Position) (R : Runs) (n n' : Lowered) : Prop where
  head : SameHead n.1 n'.1
  forms : n.2.Alike pos R n'.2

/-- An expression of the first run and its counterpart in the second one. -/
abbrev ExprAlike (R : Runs) (n n' : Lowered) : Prop :=
  n.Alike .expression R n'

/-- A named value of the first run and its counterpart in the second one. -/
def EntryAlike (R : Runs) (e e' : String × Option Lowered) : Prop :=
  e.1 = e'.1 ∧ Option.Rel (ExprAlike R) e.2 e'.2

/-- The statements of a block of the first run and their counterparts in the second one. -/
abbrev BlockAlike (R : Runs) (ns ns' : List Lowered) : Prop :=
  Forall₂ (Lowered.Alike .statement (R.hide (boundNames ns))) ns ns'

/-- The children of an element in the first run and their counterparts in the second one. -/
abbrev ChildrenAlike (R : Runs) (ns ns' : List Lowered) : Prop :=
  Forall₂ (Lowered.Alike .child R) ns ns'

variable {R : Runs} {D : Multiset ℕ} {v v' t t' : String}

/-- A variable and what stands right behind it. -/
lemma Named.append (hv : Named R.ahead v v') {s : String}
    (hs : s.toList.head? ∈ [some '.', some ')']) (h : Renamed R.ahead D t t') :
    Renamed R.ahead D (v ++ s ++ t) (v' ++ s ++ t') := by
  cases hv with
  | fixed => exact h.before _
  | element i =>
    cases hcs : s.toList with
    | nil => simp [hcs] at hs
    | cons c cs =>
      have hsplit : s = String.singleton c ++ String.ofList cs :=
        String.toList_inj.mp (by simp [hcs])
      have huse : Chunk R.ahead 0 _ _ := .use i (by simpa [hcs] using hs)
      simpa only [hsplit, String.append_assoc, zero_add] using
        (h.before (String.ofList cs)).cons huse

section Forms

variable {pos : Position} {n n' : Node} {code code' : Gen String}

lemma Forms.Alike.ofExpr (h : Codes R code code') :
    (Forms.ofExpr code).Alike pos R (Forms.ofExpr code') :=
  have hstmt : Codes R _ _ := h.map fun hs => hs.after ";"
  { expr := h, stmt := fun _ => hstmt, cell := fun _ => hstmt,
    child := fun _ _ _ _ => hstmt.map fun hs => hs.lines }

lemma unknown_alike (h : n.formName = n'.formName) :
    Codes R (Forms.unknown n) (Forms.unknown n') := by
  rw [Forms.unknown, Forms.unknown, h]
  exact .pure (.text _)

lemma Forms.Alike.ofStmt (hn : n.formName = n'.formName) (h : Codes R code code') :
    (Forms.ofStmt (Forms.unknown n) code).Alike pos R (Forms.ofStmt (Forms.unknown n') code') :=
  { expr := unknown_alike hn, stmt := fun _ => h, cell := fun _ => h,
    child := fun _ _ _ _ => h.map fun hs => hs.lines }

lemma Forms.Alike.ofBoth (hn : n.formName = n'.formName)
    (hs : pos = .statement → Codes R code code')
    (hc : pos = .child → ∀ {v v'}, Named R.ahead v v' → Rows R (lines v) (lines' v')) :
    Forms.Alike pos R { Forms.ofStmt (Forms.unknown n) code with child := lines }
      { Forms.ofStmt (Forms.unknown n') code' with child := lines' } :=
  { expr := unknown_alike hn, stmt := hs, child := hc, cell := hs }

lemma Forms.Alike.withChild {f f' : Forms} (hf : f.Alike pos R f')
    (h : ∀ {v v'}, Named R.ahead v v' → Rows R (lines v) (lines' v')) :
    Forms.Alike pos R { f with child := lines } { f' with child := lines' } :=
  { hf with child := fun _ => h }

lemma Forms.Alike.withCell {f f' : Forms} (hf : f.Alike pos R f') (h : Codes R code code') :
    Forms.Alike pos R { f with cell := code } { f' with cell := code' } :=
  { hf with cell := fun _ => h }

end Forms

/-! ### Constructs of two runs -/

section Constructs

variable {n n' : Lowered} {ns ns' : List Lowered} {es es' : List (String × Option Lowered)}
  {m m' : Option Lowered}

/-- The forms of some nodes in order. -/
lemma inOrder_map {V : Multiset ℕ → β → β → Prop} {Q : α → α → Prop} {as as' : List α}
    {f f' : α → Gen β} (h : Forall₂ Q as as')
    (hf : ∀ {a a'}, Q a a' → Paired R V (f a) (f' a')) :
    Paired R (Each V) (inOrder (as.map f)) (inOrder (as'.map f')) := by
  refine .inOrder ?_
  rw [forall₂_map_left_iff, forall₂_map_right_iff]
  exact h.imp fun _ _ => hf

lemma operand_alike {isLoose : Node → Bool} (h : ExprAlike R n n')
    (hl : SameHead n.1 n'.1 → isLoose n.1 = isLoose n'.1) :
    Codes R (operand isLoose n) (operand isLoose n') := by
  refine h.forms.expr.bindPure fun hcode => ?_
  rw [hl h.head]
  split_ifs
  · exact (hcode.before _).after _
  · exact hcode

lemma required_alike (h : Option.Rel (ExprAlike R) m m') :
    Codes R (required m) (required m') := by
  cases h with
  | some h => exact h.forms.expr
  | none => exact .throw _

variable {pos : Position}

lemma filterMap_alike {f : Node → Option α}
    (h : Forall₂ (Lowered.Alike pos R) ns ns') (hf : ∀ n n', SameHead n n' → f n = f n') :
    ns.filterMap (fun n => f n.1) = ns'.filterMap (fun n => f n.1) := by
  induction h with
  | nil => rfl
  | cons hn _ ih => rw [filterMap_cons, hf _ _ hn.head, ih, filterMap_cons]

lemma boundNames_alike (h : Forall₂ (Lowered.Alike pos R) ns ns') :
    boundNames ns = boundNames ns' :=
  filterMap_alike h fun _ _ hn => hn.blockBinding

lemma names_alike (h : Forall₂ (EntryAlike R) es es') : es.map (·.1) = es'.map (·.1) := by
  induction h with
  | nil => rfl
  | cons he _ ih => rw [map_cons, he.1, ih, map_cons]

lemma block_alike (h : BlockAlike R ns ns') : Codes R (block ns) (block ns') := by
  unfold block
  rw [← boundNames_alike h]
  refine .rebinding ((inOrder_map h fun hn => hn.forms.stmt rfl).bindPure fun {E cs cs'} hcs => ?_)
  have hlines := hcs.filter
  generalize cs.filter (!·.isEmpty) = ls, cs'.filter (!·.isEmpty) = ls' at hlines ⊢
  cases hlines with
  | nil => exact .text _
  | cons hfirst hrest => exact (((hrest.cons hfirst).unlines.indent 1).before _ |>.after _).braced

lemma parameters_alike (h : Forall₂ (EntryAlike R) es es') :
    Codes R (parameters es) (parameters es') := by
  refine (inOrder_map h ?_).bindPure fun hcodes => hcodes.intercalate _
  rintro ⟨name, value⟩ ⟨name', value'⟩ ⟨rfl, hv⟩
  cases hv with
  | some hv => exact hv.forms.expr.bindPure fun hcode => hcode.before _
  | none => exact .pure (.text _)

lemma styleValue_alike (h : Option.Rel (ExprAlike R) m m') :
    Codes R (styleValue m) (styleValue m') := by
  cases h with
  | none => exact .throw _
  | some h =>
    simp only [styleValue, h.head.styleText]
    split
    · exact .pure (.text _)
    · exact h.forms.expr

/-- A style rule creates what the values do that it is made of. -/
lemma addRule_alike {V : Multiset ℕ → α → β → Prop} {a : Gen α} {b : Gen β} {f : α → String}
    {f' : β → String} (h : Paired R V a b)
    (hf : ∀ {E a b}, V E a b → Renamed R.ahead E (f a) (f' b)) :
    Paired R Nothing (a >>= fun a => modify fun g => { g with css := g.css ++ [f a] })
      (b >>= fun b => modify fun g => { g with css := g.css ++ [f' b] }) := by
  intro g g' F hg
  have hm := h hg
  simp only [StateT.run_bind]
  generalize a.run g = r, b.run g' = r' at hm
  cases hm with
  | error e => exact .error e
  | @ok E F' _ _ _ _ hv hh hk hcount =>
    refine .ok rfl { hh with css := hh.css.append (.single (hf hv)) }
      { hk with css := hk.css.trans (prefix_append ..) } ?_
    rw [← hcount, zero_add, add_comm E]

lemma style_alike (name : Option String) (h : Forall₂ (EntryAlike R) es es') :
    Paired R Nothing (style name es) (style name es') := by
  refine .andThen (.modify (fun hg => { hg with styles := by rw [hg.styles] })
    (fun g => .of_same rfl rfl rfl rfl) fun _ => rfl) fun _ _ => addRule_alike (inOrder_map h ?_)
      fun hcodes => ((hcodes.unlines.before _).after _).braced.before _
  rintro ⟨key, value⟩ ⟨key', value'⟩ ⟨rfl, hv⟩
  exact (styleValue_alike hv).bindPure fun hcode => (hcode.before _).after _

lemma assignment_target_alike {target target' value value' : Lowered}
    (hname : bareName? target.1 = none) (ht : ExprAlike R target target')
    (hv : ExprAlike R value value') :
    Codes R (assignment target value) (assignment target' value') := by
  have hname' : bareName? target'.1 = none := ht.head.bareName ▸ hname
  refine hv.forms.expr.bind fun hcode => ?_
  rw [hname, hname']
  exact ht.forms.expr.bind fun hhead => .done (by abel) ((hhead.after _).append hcode)

/-- A body of the first run and its counterpart in the second one. -/
inductive BodyAlike (R : Runs) : Body Lowered → Body Lowered → Prop
  | block {ns ns' : List Lowered} (h : BlockAlike R ns ns') :
      BodyAlike R (.block ns) (.block ns')
  | value {n n' : Lowered} (h : ExprAlike R n n') : BodyAlike R (.value n) (.value n')

lemma arrowFunction_alike {body body' : Body Lowered} (h : Forall₂ (EntryAlike R) es es')
    (hb : BodyAlike (R.hide (es.map (·.1))) body body') :
    Codes R (arrowFunction es body) (arrowFunction es' body') := by
  refine (parameters_alike h).bind fun hhead => ?_
  rw [← names_alike h]
  refine .bind (V := Renamed R.ahead) (.rebinding ?_) fun hcode =>
    .done (by abel) (((hhead.before _).after _).append hcode)
  cases hb with
  | block h => exact block_alike h
  | value h => exact operand_alike h (·.isObject)

lemma callArguments_alike (isComponent : Bool) (h : Forall₂ (ExprAlike R) ns ns') :
    Codes R (callArguments isComponent ns) (callArguments isComponent ns') := by
  refine .ite ((inOrder_map h fun {a a'} ha => ?_).bindPure fun hcodes =>
      (hcodes.intercalate _).braced)
    ((inOrder_map h fun ha => ha.forms.expr).bindPure fun hcodes => hcodes.intercalate _)
  rw [ha.head.bareName]
  split
  · exact .pure (.text _)
  · exact ha.forms.expr.bindPure fun hcode => hcode.before _

lemma call_alike (hn : ExprAlike R n n') (h : Forall₂ (ExprAlike R) ns ns') :
    Codes R (call n ns) (call n' ns') := by
  refine (operand_alike hn (·.looseCallee)).bind fun hhead => .get_bind fun hg => ?_
  rw [hn.head.bareName, hg.components]
  exact (callArguments_alike _ h).bind fun hcode =>
    .done (by abel) ((hhead.after _).append hcode |>.after _)

lemma member_alike (property : String) (computed : Bool)
    (hn : ExprAlike R n n') (h : Option.Rel (ExprAlike R) m m') :
    Codes R (member n property computed m) (member n' property computed m') := by
  refine (operand_alike hn (·.looseObject)).bind fun hhead => .ite ?_
    (.done (by abel) ((hhead.after _).after _))
  exact (required_alike h).bind fun hcode =>
    .done (by abel) ((hhead.after _).append hcode |>.after _)

lemma objectLiteral_alike (h : Forall₂ (EntryAlike R) es es') :
    Codes R (objectLiteral es) (objectLiteral es') := by
  refine (inOrder_map h ?_).bindPure fun hcodes => (hcodes.intercalate _).braced
  rintro ⟨key, value⟩ ⟨key', value'⟩ ⟨rfl, hv⟩
  exact (required_alike hv).bindPure fun hcode => hcode.before _

/-- A part of a template of the first run and its counterpart in the second one. -/
inductive PartAlike (R : Runs) : Part Lowered → Part Lowered → Prop
  | text (s : String) : PartAlike R (.text s) (.text s)
  | hole {n n' : Lowered} (h : ExprAlike R n n') : PartAlike R (.hole n) (.hole n')

lemma template_alike {ps ps' : List (Part Lowered)} (h : Forall₂ (PartAlike R) ps ps') :
    Codes R (template ps) (template ps') := by
  refine (inOrder_map h fun {p p'} hp => ?_).bindPure fun hcodes => (hcodes.join.before _).after _
  cases hp with
  | text => exact .pure (.text _)
  | hole hn => exact hn.forms.expr.bindPure fun hcode => hcode.braced.before _

variable (name : String)

lemma instanceCode_alike (h : Forall₂ (EntryAlike R) es es') :
    Codes R (instanceCode name es) (instanceCode name es') := by
  refine (inOrder_map h ?_).bindPure fun hcodes =>
    ((hcodes.intercalate _).braced.before _).after _
  rintro ⟨prop, value⟩ ⟨prop', value'⟩ ⟨rfl, hv⟩
  cases hv with
  | none => exact .pure (.text _)
  | some hv => exact hv.forms.expr.bindPure fun hcode => hcode.before _

/-! ### Markup of two runs -/

lemma attributeCode_alike (hvar : Named R.ahead v v') (h : Option.Rel (ExprAlike R) m m') :
    Codes R (attributeCode v name m) (attributeCode v' name m') := by
  have hlisten {E : Multiset ℕ} {code code' : String} (event : String)
      (hcode : Renamed R.ahead E code code') :
      Renamed R.ahead E
        (v ++ ".addEventListener('" ++ event ++ "', function(e) " ++
          braced (" (" ++ code ++ ")(e); __render(); ") ++ ");")
        (v' ++ ".addEventListener('" ++ event ++ "', function(e) " ++
          braced (" (" ++ code' ++ ")(e); __render(); ") ++ ");") := by
    simpa only [String.append_assoc] using
      hvar.append (by decide) ((((hcode.before _).after _).braced.before _).after _ |>.before _)
  cases h with
  | none =>
    exact .ite (.pure (hlisten _ (.text _)))
      (.pure ((hvar.append (by decide) (.text name)).after _))
  | some h =>
    refine .ite (h.forms.expr.bindPure fun hcode => hlisten _ hcode)
      (h.forms.expr.bind fun hcode => ?_)
    rw [h.head.isObject]
    refine .ite (.done (by abel) ((hvar.append (by decide) hcode).after _))
      (.ite (.done (by abel) ?_) (.done (by abel) ?_))
    · simpa only [String.append_assoc] using
        ((hvar.append (s := ".style, ") (by decide) hcode).before "Object.assign(").after ");"
    · simpa only [String.append_assoc] using
        (hvar.append (s := ".setAttribute('") (by decide)
          ((hcode.before "', ").before name)).after ");"

lemma childLines_alike (hv : Named R.ahead v v') (h : ChildrenAlike R ns ns') :
    Rows R (childLines v ns) (childLines v' ns') :=
  (inOrder_map h fun hn => hn.forms.child rfl hv).bindPure fun hlines => hlines.flatten

lemma nestedLines_alike (hv : Named R.ahead v v') (h : ChildrenAlike R ns ns') :
    Rows R (nestedLines v ns) (nestedLines v' ns') :=
  (childLines_alike hv h).bindPure fun hlines => hlines.map fun hs => hs.before _

/-- The new element, which the line that is still to be written creates. -/
lemma newElement_alike : Paired R
    (fun E v v' => ∃ i, E = {i} ∧ v = elementName i ∧ v' = elementName (R.ahead + i)) newElement
    newElement := by
  intro g g' F hg
  refine .ok (E := {g.nextElement}) ⟨g.nextElement, rfl, rfl, ?_⟩
    { hg with nextElement := ?_ } (.of_same rfl rfl rfl rfl) ?_
  · rw [← hg.nextElement]
    rfl
  · rw [hg.nextElement, Nat.add_assoc]
  · simp only [Multiset.range_succ, ← Multiset.singleton_add]
    abel

lemma elementLines_alike (tag : String) (he : Forall₂ (EntryAlike R) es es')
    (h : ChildrenAlike R ns ns') (hv : Named R.ahead v v') :
    Rows R (elementLines tag es ns v) (elementLines tag es' ns' v') := by
  refine newElement_alike.bind ?_
  rintro _ _ _ ⟨i, rfl, rfl, rfl⟩
  have hvar : Named R.ahead (elementName i) (elementName (R.ahead + i)) := .element i
  refine (inOrder_map (V := Renamed R.ahead) he ?_).bind fun hcodes =>
    (childLines_alike hvar h).bind fun hinner => ?_
  · rintro ⟨name, value⟩ ⟨name', value'⟩ ⟨rfl, hm⟩
    exact attributeCode_alike name hvar hm
  have hquote : " = document.createElement('" = " = document.createElement(" ++ "'" := by decide
  have hcreate : Renamed R.ahead {i}
      ("const " ++ elementName i ++ " = document.createElement('" ++ tag ++ "');")
      ("const " ++ elementName (R.ahead + i) ++ " = document.createElement('" ++ tag ++ "');") := by
    simpa only [hquote, creation, String.append_assoc, add_zero] using
      (Renamed.text ("'" ++ tag ++ "');")).cons (.creation i)
  have happend : Renamed R.ahead 0 (v ++ ".appendChild(" ++ elementName i ++ ");")
      (v' ++ ".appendChild(" ++ elementName (R.ahead + i) ++ ");") := by
    simpa only [String.append_assoc, String.append_empty] using
      hv.append (s := ".appendChild(") (by decide) (hvar.append (s := ");") (by decide) .nil)
  exact .done (by abel)
    ((((Each.single hcreate).append hcodes).append hinner).append (.single happend))

lemma elementExpr_alike (h : ∀ {v v'}, Named R.ahead v v' → Rows R (lines v) (lines' v')) :
    Codes R (elementExpr lines) (elementExpr lines') :=
  (h (.fixed _)).bind fun hinner => .done (by abel) (((((((Each.texts _).append hinner).append
    (.texts _)).unlines.indent 1).before _).after _).braced.before _ |>.after _)

lemma elseIf?_alike (h : Forall₂ (Lowered.Alike pos R) ns ns') :
    Option.Rel (Forms.Alike pos R) (elseIf? ns) (elseIf? ns') := by
  cases h with
  | nil => exact .none
  | cons hn hns =>
    cases hns with
    | nil =>
      simp only [elseIf?, hn.head.isIf]
      split
      · exact .some hn.forms
      · exact .none
    | cons => exact .none

lemma childConditional_alike {m m' : Option (List Lowered)} (hn : ExprAlike R n n')
    (h : ChildrenAlike R ns ns') (hm : Option.Rel (ChildrenAlike R) m m')
    (hv : Named R.ahead v v') :
    Rows R (childConditional n ns m v) (childConditional n' ns' m' v') := by
  refine hn.forms.expr.bind fun hcode => (nestedLines_alike hv h).bind fun hinner => ?_
  have hhead := (hcode.before "if (").after ") \x7b"
  cases hm with
  | none => exact .done (by abel) ((hinner.cons hhead).append (.texts _))
  | @some others others' hm =>
    have helse := elseIf?_alike hm
    dsimp only
    generalize elseIf? others = forms, elseIf? others' = forms' at helse ⊢
    cases helse with
    | none =>
      exact (nestedLines_alike hv hm).bind fun houter =>
        .done (by abel) (((hinner.cons hhead).append (houter.cons (.text _))).append (.texts _))
    | some hf =>
      refine (hf.child rfl hv).bind fun hlines => ?_
      cases hlines with
      | nil => exact .done (by abel) (hinner.cons hhead)
      | cons hfirst hrest =>
        exact .done (by abel) ((hinner.cons hhead).append (hrest.cons (hfirst.before _)))

lemma loopHead_alike (hn : ExprAlike R n n') :
    Codes R (loopHead name n) (loopHead name n') :=
  hn.forms.expr.bindPure fun hcode => (hcode.before _).after _

lemma childLoop_alike (hn : ExprAlike R n n') (h : ChildrenAlike (R.hide [name]) ns ns')
    (hv : Named R.ahead v v') : Rows R (childLoop name n ns v) (childLoop name n' ns' v') :=
  (loopHead_alike name hn).bind fun hhead => .bind (.rebinding (nestedLines_alike hv h))
    fun hinner => .done (by abel) ((hinner.cons (hhead.after _)).append (.texts _))

/-! ### Statements of two runs -/

/-- An alternative that is another conditional binds nothing, so both readings of it are in the
scope around it. -/
lemma elseIf?_block_alike (h : BlockAlike R ns ns') :
    Option.Rel (Forms.Alike .statement R) (elseIf? ns) (elseIf? ns') := by
  have helse := elseIf?_alike h
  generalize hforms : elseIf? ns = forms, elseIf? ns' = forms' at helse ⊢
  cases helse with
  | none => exact .none
  | some hf =>
    have hnone : boundNames ns = [] := by
      match ns, hforms with
      | [(m, _)], hforms =>
        have hm : isIf m := by
          by_contra hm
          simp [elseIf?, hm] at hforms
        cases m <;> first | rfl | cases hm
    rw [hnone, R.hide_nil] at hf
    exact .some hf

lemma conditional_alike {m m' : Option (List Lowered)} (hn : ExprAlike R n n')
    (h : BlockAlike R ns ns') (hm : Option.Rel (BlockAlike R) m m') :
    Codes R (conditional n ns m) (conditional n' ns' m') := by
  refine hn.forms.expr.bind fun hhead => (block_alike h).bind fun hcode => ?_
  have hif := ((hhead.before "if (").after ") ").append hcode
  cases hm with
  | none => exact .done (by abel) hif
  | @some others others' hm =>
    have helse := elseIf?_block_alike hm
    dsimp only
    generalize elseIf? others = forms, elseIf? others' = forms' at helse ⊢
    cases helse with
    | none =>
      exact (block_alike hm).bind fun hother => .done (by abel) ((hif.after _).append hother)
    | some hf =>
      exact (hf.stmt rfl).bind fun hother => .done (by abel) ((hif.after _).append hother)

lemma forLoop_alike (hn : ExprAlike R n n') (h : BlockAlike (R.hide [name]) ns ns') :
    Codes R (forLoop name n ns) (forLoop name n' ns') :=
  (loopHead_alike name hn).bind fun hhead => .bind (.rebinding (block_alike h)) fun hcode =>
    .done (by abel) ((hhead.after _).append hcode)

lemma function_alike (he : Forall₂ (EntryAlike (R.hide (es.map (·.1)))) es es')
    (h : BlockAlike (R.hide (es.map (·.1))) ns ns') :
    Codes R (function name es ns) (function name es' ns') := by
  unfold function
  rw [← names_alike he]
  exact .rebinding ((parameters_alike he).bind fun hhead => (block_alike h).bind fun hcode =>
    .done (by abel) (((hhead.before _).after _).append hcode))

lemma effect_alike (h : BlockAlike R ns ns') : Codes R (effect ns) (effect ns') :=
  (block_alike h).bindPure fun hcode => (hcode.before _).after _

/-- Names are added behind those that are there, and none that is there already. -/
lemma publish_grows (names ns : List String) :
    let ns' := names.foldl (fun ns n => if ns.contains n then ns else ns ++ [n]) ns
    ns <+: ns' ∧ (ns.Nodup → ns'.Nodup) := by
  induction names generalizing ns with
  | nil => exact ⟨prefix_rfl, id⟩
  | cons n names ih =>
    rw [foldl_cons]
    split_ifs with hn
    · exact ih ns
    · obtain ⟨hgrows, hnodup⟩ := ih (ns ++ [n])
      refine ⟨(prefix_append _ _).trans hgrows, fun h => hnodup (h.append (nodup_singleton n) ?_)⟩
      simpa using hn

lemma exportCode_alike (specifiers : List String)
    (h : Option.Rel (Lowered.Alike .statement R) m m') :
    Codes R (exportCode specifiers m) (exportCode specifiers m') := by
  refine .andThen (.modify (fun hg => { hg with published := by rw [hg.published] }) (fun g => ?_)
    fun _ => rfl) fun _ _ => ?_
  · obtain ⟨hgrows, hnodup⟩ := publish_grows specifiers g.published
    exact ⟨rfl, rfl, prefix_rfl, hgrows, hnodup⟩
  · cases h with
    | none => exact .pure (.text _)
    | some h => exact h.forms.stmt rfl

/-! ### Components of two runs -/

lemma stateCell_alike (hn : ExprAlike R n n') :
    Codes R (stateCell name n) (stateCell name n') :=
  hn.forms.expr.bind fun hcode =>
    .done (by abel) ((Each.texts _).cons ((hcode.before _).after _)).unlines

/-- The sections of a component in the two runs. -/
inductive Sections.Alike (R : Runs) : Multiset ℕ → Sections → Sections → Prop
  | mk {A B C : Multiset ℕ} {s s' : Sections} (states : Each (Renamed R.ahead) A s.states s'.states)
      (effects : Each (Renamed R.ahead) B s.effects s'.effects)
      (body : Each (Renamed R.ahead) C s.body s'.body)
      (root : Option.Rel (Forms.Alike .child R) s.root s'.root) :
      Sections.Alike R (A + B + C) s s'

/-- A node in the body of a component stands as a statement, and markup as a child. The code of a
style is not used, and creates nothing. -/
structure MemberAlike (R : Runs) (n n' : Lowered) : Prop where
  statement : n.Alike .statement R n'
  markup : roleOf n.1 = .markup → n.2.Alike .child R n'.2
  style : roleOf n.1 = .style → Paired R Nothing n.2.stmt n'.2.stmt

variable {s s' : Sections}

lemma sortNode_alike (hs : s.Alike R D s') (hn : MemberAlike R n n') :
    Paired R (fun E => Sections.Alike R (D + E)) (sortNode name s n)
      (sortNode name s' n') := by
  obtain ⟨⟨hhead, hforms⟩, hmarkup, hstyle⟩ := hn
  obtain ⟨hstates, heffects, hbody, hroot⟩ := hs
  unfold sortNode
  cases hrole : roleOf n.1 <;> rw [← hhead.role, hrole]
  case state =>
    exact (hforms.cell rfl).bind fun hcode =>
      .done (by abel) ⟨hstates.append (.single hcode), heffects, hbody, hroot⟩
  case effect =>
    exact (hforms.stmt rfl).bind fun hcode =>
      .done (by abel) ⟨hstates, heffects.append (.single hcode), hbody, hroot⟩
  case style =>
    exact (hstyle hrole).andThen fun _ _ => .done (by abel) ⟨hstates, heffects, hbody, hroot⟩
  case other =>
    exact (hforms.stmt rfl).bind fun hcode =>
      .done (by abel) ⟨hstates, heffects, hbody.append (.single hcode), hroot⟩
  case markup =>
    generalize hr : s.root = root, hr' : s'.root = root' at hroot ⊢
    cases hroot with
    | none => exact .done (by abel) ⟨hstates, heffects, hbody, .some (hmarkup hrole)⟩
    | some hf =>
      refine .andThen (.modify (fun hg => { hg with }) (fun _ => .of_same rfl rfl rfl rfl)
        fun _ => rfl) fun _ _ => .done (by abel) ⟨hstates, heffects, hbody, ?_⟩
      rw [hr, hr']
      exact .some hf

lemma sortNodes_alike (hs : s.Alike R D s') (h : Forall₂ (MemberAlike R) ns ns') :
    Paired R (fun E => Sections.Alike R (D + E)) (sortNodes name s ns)
      (sortNodes name s' ns') := by
  induction h generalizing s s' D with
  | nil => exact .done (by abel) hs
  | cons hn _ ih =>
    exact (sortNode_alike name hs hn).bind fun hs => by simpa only [add_assoc] using ih hs

lemma rootLines_alike (h : Option.Rel (Forms.Alike .child R) s.root s'.root) :
    Rows R s.rootLines s'.rootLines := by
  unfold Sections.rootLines
  generalize s.root = root, s'.root = root' at h ⊢
  cases h with
  | none => exact .pure .nil
  | some hf => exact hf.child rfl (.fixed _)

lemma propBindings_alike (h : Forall₂ (EntryAlike R) es es') :
    Rows R (propBindings es) (propBindings es') := by
  have hplain (f : String → String) : es.map (fun p => f p.1) = es'.map fun p => f p.1 := by
    simpa [Function.comp_def] using congrArg (List.map f) (names_alike h)
  unfold propBindings
  rw [hplain fun name => "let " ++ name ++ " = props." ++ name ++ ";"]
  have hdefaults : Rows R (inOrder (es.filterMap fun p => p.2.map (propDefault p.1)))
      (inOrder (es'.filterMap fun p => p.2.map (propDefault p.1))) := by
    refine .inOrder ?_
    clear hplain
    induction h with
    | nil => exact .nil
    | @cons e e' _ _ he _ ih =>
      obtain ⟨name, value⟩ := e
      obtain ⟨name', value'⟩ := e'
      obtain ⟨rfl, hv⟩ := he
      cases hv with
      | none => exact ih
      | some hv => exact .cons (hv.forms.expr.bindPure fun hcode => (hcode.before _).after _) ih
  cases h with
  | nil => exact .pure .nil
  | cons =>
    exact hdefaults.bind fun hcodes =>
      .done (by abel) (.single ((Each.texts _).append hcodes).unlines)

lemma componentCode_alike (he : Forall₂ (EntryAlike R) es es')
    (h : Forall₂ (MemberAlike R) ns ns') :
    Codes R (componentCode name es ns) (componentCode name es' ns') := by
  have hempty : Sections.Alike R (0 + 0 + 0) {} {} := .mk .nil .nil .nil .none
  have hsort := sortNodes_alike name hempty h
  simp only [zero_add] at hsort
  refine hsort.bind ?_
  rintro _ _ _ ⟨hstates, heffects, hbody, hroot⟩
  refine (rootLines_alike hroot).bind fun hrows => (propBindings_alike he).bind fun hbindings => ?_
  have hrender := ((((Each.texts ["__el.innerHTML = '';",
    "const __fragment = document.createDocumentFragment();"]).append hrows).append (.texts
    ["__el.appendChild(__fragment);", "if (!__mounted) \x7b", "  __mounted = true;"])).append
    (heffects.map fun hcode => hcode.indent 1)).append (.texts ["\x7d"])
  have hfunction := ((hrender.unlines.indent 1).before "\n").after "\n" |>.braced.before
    "function __render() "
  have hsections (intro : String) :=
    (((Each.texts [intro]).append hbindings).append hstates).append hbody |>.append
      ((Each.texts ["__render();\nreturn __el;"]).cons hfunction)
  exact .done (by abel)
    (((((hsections _).intercalate "\n\n").indent 1).before _ |>.after _).braced.before _)

lemma component_alike (he : Forall₂ (EntryAlike ⟨R.ahead, stateNamesOf ns, stateNamesOf ns⟩) es es')
    (h : Forall₂ (MemberAlike ⟨R.ahead, stateNamesOf ns, stateNamesOf ns⟩) ns ns') :
    Codes R (component name es ns) (component name es' ns') := by
  have hnames : stateNamesOf ns = stateNamesOf ns' :=
    filterMap_alike (h.imp fun _ _ hn => hn.statement) fun n n' hn => by
      rw [stateName?, stateName?, hn.role]
  unfold component
  rw [← hnames]
  exact .withStateNames (componentCode_alike name he h)

end Constructs

end UiScript.Script
