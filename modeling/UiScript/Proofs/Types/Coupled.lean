import Mathlib.Data.List.Forall2
import UiScript.Proofs.Places
import UiScript.Proofs.Types.Scopes
import UiScript.Types.Check

/-!
# Two runs of the checker

The checker knows its names by looking them up, and hands places on to its diagnostics without
looking at them. Two checks of alike nodes, made by two checkers in which every name means the same,
therefore give the same types and report the same, apart from places where these may differ.
-/

namespace UiScript

open List

def Diagnostic.seen (placed : Bool) (d : Diagnostic) : Diagnostic :=
  if placed then d else d.unplaced

lemma Diagnostic.seen_eq {placed : Bool} {d d' : Diagnostic} (h : d.unplaced = d'.unplaced)
    (hplace : placed → d.place = d'.place) : d.seen placed = d'.seen placed := by
  cases placed with
  | false => exact h
  | true =>
    cases d
    cases d'
    simp_all [unplaced, seen]

namespace Types

/-- What is compared of two runs. -/
structure View where
  /-- Diagnostics have the same places in both. -/
  placed : Bool
  /-- Each run keeps its current frame. -/
  keep : Bool

/-- The current frames may change. -/
def View.loose (v : View) : View := { v with keep := false }

abbrev View.strict : View := ⟨true, true⟩

/-- A name means the same in two checkers, both inside the same function. -/
structure AgreeAt (name : String) (c c' : Checker) : Prop where
  scope : c.scope.lookup? name = c'.scope.lookup? name
  components : Dict.get? c.components name = Dict.get? c'.components name
  imported : name ∈ c.imported ↔ name ∈ c'.imported
  result : c.result = c'.result
  function : c.function = c'.function

lemma AgreeAt.refl (name : String) (c : Checker) : AgreeAt name c c := ⟨rfl, rfl, .rfl, rfl, rfl⟩

variable {c c' : Checker}

lemma AgreeAt.symm {name : String} (h : AgreeAt name c c') : AgreeAt name c' c :=
  ⟨h.scope.symm, h.components.symm, h.imported.symm, h.result.symm, h.function.symm⟩

lemma AgreeAt.trans {name : String} {c'' : Checker} (h : AgreeAt name c c')
    (h' : AgreeAt name c' c'') : AgreeAt name c c'' :=
  ⟨h.scope.trans h'.scope, h.components.trans h'.components, h.imported.trans h'.imported,
    h.result.trans h'.result, h.function.trans h'.function⟩

/-- Every name means the same in two checkers. -/
def Agree (c c' : Checker) : Prop := ∀ name, AgreeAt name c c'

lemma Agree.scope (h : Agree c c') : c.scope.lookup? = c'.scope.lookup? :=
  funext fun name => (h name).scope

lemma Agree.scopes (h : Agree c c') {s s' : Scopes} (hs : s.visible.lookup? = s'.visible.lookup?) :
    Agree { c with scopes := s } { c' with scopes := s' } :=
  fun name => { h name with scope := congrFun hs name }

lemma Agree.withResult (h : Agree c c') (result : Option Ty) :
    Agree { c with result } { c' with result } :=
  fun name => { h name with result := rfl }

lemma Agree.withFunction (h : Agree c c') (result : Option Ty) (function : Option String) :
    Agree { c with result, function } { c' with result, function } :=
  fun name => { h.withResult result name with function := rfl }

def Checker.moved (c : Checker) (s : Scopes) (ds : List Diagnostic) : Checker :=
  { c with scopes := s, diagnostics := c.diagnostics ++ ds }

lemma Agree.moved (h : Agree c c') {s s' : Scopes} (hs : s.visible.lookup? = s'.visible.lookup?)
    (ds ds' : List Diagnostic) : Agree (c.moved s ds) (c'.moved s' ds') :=
  fun name => { h.scopes hs name with }

/-! ### Two runs side by side -/

/-- The two checks give and report the same, and every name means the same afterwards. Nothing but
the frames and the diagnostics may change. Of the frames below the given numbers only the current
ones may change, and these may not either if they are to be kept. -/
def Along {α : Type} (v : View) (n n' : Nat) (m m' : Check α) (c c' : Checker) : Prop :=
  ∃ a ds ds' s s', m.run c = (a, c.moved s ds) ∧ m'.run c' = (a, c'.moved s' ds') ∧
    c.scopes.Grown v.keep n s ∧ c'.scopes.Grown v.keep n' s' ∧
    ds.map (·.seen v.placed) = ds'.map (·.seen v.placed) ∧ s.visible.lookup? = s'.visible.lookup?

namespace Along

variable {α β : Type} {v : View} {n n' : Nat} {m m' : Check α}

lemma mono {k k' : Nat} (h : Along v n n' m m' c c') (hk : k ≤ n) (hk' : k' ≤ n') :
    Along v k k' m m' c c' := by
  obtain ⟨a, ds, ds', s, s', hrun, hrun', hs, hs', hrest⟩ := h
  exact ⟨a, ds, ds', s, s', hrun, hrun', hs.mono hk, hs'.mono hk', hrest⟩

lemma bind {k k' : Nat} {f f' : α → Check β} (hc : Agree c c') (h : Along v n n' m m' c c')
    (hk : k ≤ n) (hk' : k' ≤ n')
    (hf : ∀ a ds ds' s s', c.scopes.Grown v.keep n s → c'.scopes.Grown v.keep n' s' →
      Agree (c.moved s ds) (c'.moved s' ds') →
      Along v k k' (f a) (f' a) (c.moved s ds) (c'.moved s' ds')) :
    Along v k k' (m >>= f) (m' >>= f') c c' := by
  obtain ⟨a, ds, ds', s, s', hrun, hrun', hs, hs', hds, hvisible⟩ := h
  obtain ⟨b, es, es', t, t', hrest, hrest', ht, ht', hes, hvisible'⟩ :=
    hf a ds ds' s s' hs hs' (hc.moved hvisible ds ds')
  refine ⟨b, ds ++ es, ds' ++ es', t, t', ?_, ?_, (hs.mono hk).trans ht, (hs'.mono hk').trans ht',
    ?_, hvisible'⟩
  · rw [StateT.run_bind, hrun]
    refine hrest.trans ?_
    rw [Checker.moved, Checker.moved, Checker.moved, append_assoc]
  · rw [StateT.run_bind, hrun']
    refine hrest'.trans ?_
    rw [Checker.moved, Checker.moved, Checker.moved, append_assoc]
  · rw [map_append, map_append, hds, hes]

/-- What is done to the frames first. -/
lemma after {k k' : Check α} {s s' : Scopes} (hs : c.scopes.Grown v.keep n s)
    (hs' : c'.scopes.Grown v.keep n' s')
    (h : Along v n n' m m' { c with scopes := s } { c' with scopes := s' })
    (hk : k.run c = m.run { c with scopes := s })
    (hk' : k'.run c' = m'.run { c' with scopes := s' }) : Along v n n' k k' c c' := by
  obtain ⟨a, ds, ds', t, t', hrun, hrun', ht, ht', hrest⟩ := h
  exact ⟨a, ds, ds', t, t', hk.trans hrun, hk'.trans hrun', hs.trans ht, hs'.trans ht', hrest⟩

/-- The result is put back behind a check that left it as it was. -/
lemma withResult (t : Ty) (h : Along v n n' m m' { c with result := some t }
    { c' with result := some t }) : Along v n n' (withResult t m) (withResult t m') c c' := by
  obtain ⟨a, ds, ds', s, s', hrun, hrun', hrest⟩ := h
  refine ⟨a, ds, ds', s, s', ?_, ?_, hrest⟩
  · exact congrArg (fun r => (r.1, { r.2 with result := c.result })) hrun
  · exact congrArg (fun r => (r.1, { r.2 with result := c'.result })) hrun'

lemma withFunction (name : String) (t : Ty) (h : Along v n n' m m'
    { c with result := some t, function := some name }
    { c' with result := some t, function := some name }) :
    Along v n n' (withFunction name t m) (withFunction name t m') c c' := by
  obtain ⟨a, ds, ds', s, s', hrun, hrun', hrest⟩ := h
  refine ⟨a, ds, ds', s, s', ?_, ?_, hrest⟩
  · exact congrArg (fun r => (r.1, { r.2 with result := c.result, function := c.function })) hrun
  · exact congrArg (fun r => (r.1, { r.2 with result := c'.result, function := c'.function })) hrun'

end Along

/-- In checkers that agree the two checks go along with each other. -/
def Coupled {α : Type} (v : View) (m m' : Check α) : Prop :=
  ∀ ⦃c c'⦄, Agree c c' → Along v c.scopes.frames.length c'.scopes.frames.length m m' c c'

/-- The two checks go along with each other where two frames, alike and not entered yet, lie in the
current ones. The frames before these are looked at only. -/
def CoupledIn {α : Type} (v : View) (i i' : Nat) (m m' : Check α) : Prop :=
  ∀ ⦃c c' frame⦄, Agree c c' → c.scopes.Inner i frame → c'.scopes.Inner i' frame →
    Along v i i' m m' c c'

namespace Coupled

variable {α β : Type} {v : View} {m m' n n' : Check α}

lemma pure (a : α) : Coupled v (Pure.pure a) (Pure.pure a) := by
  intro c c' hc
  have hmoved (c : Checker) : c = c.moved c.scopes [] := by rw [Checker.moved, append_nil]
  refine ⟨a, [], [], c.scopes, c'.scopes, ?_, ?_, .refl .., .refl .., rfl, hc.scope⟩
  · exact congrArg (Prod.mk a) (hmoved c)
  · exact congrArg (Prod.mk a) (hmoved c')

lemma bind {f f' : α → Check β} (h : Coupled v m m') (hf : ∀ a, Coupled v (f a) (f' a)) :
    Coupled v (m >>= f) (m' >>= f') :=
  fun _ _ hc => (h hc).bind hc le_rfl le_rfl fun a _ _ _ _ hs hs' hmoved =>
    (hf a hmoved).mono hs.le hs'.le

lemma loose (h : Coupled v m m') : Coupled v.loose m m' := by
  intro c c' hc
  obtain ⟨a, ds, ds', s, s', hrun, hrun', hs, hs', hrest⟩ := h hc
  exact ⟨a, ds, ds', s, s', hrun, hrun', hs.loose, hs'.loose, hrest⟩

lemma bind_pure {f : α → β} (h : Coupled v m m') :
    Coupled v (m >>= fun a => Pure.pure (f a)) (m' >>= fun a => Pure.pure (f a)) :=
  h.bind fun a => .pure (f a)

lemma map {f : α → β} (h : Coupled v m m') : Coupled v (f <$> m) (f <$> m') := by
  exact h.bind_pure

lemma ite {p : Prop} [Decidable p] (hm : Coupled v m m') (hn : Coupled v n n') :
    Coupled v (if p then m else n) (if p then m' else n') := by
  split
  · exact hm
  · exact hn

/-- What is done with the checker depends on the meaning of names. -/
lemma get_bind {f f' : Checker → Check α} (hsame : ∀ c c', Agree c c' → f c = f c')
    (h : ∀ c, Coupled v (f c) (f' c)) : Coupled v (get >>= f) (get >>= f') := by
  intro c c' hc
  have hrun := h c' hc
  rw [← hsame c c' hc] at hrun
  exact hrun

lemma withResult (h : Coupled v m m') (t : Ty) : Coupled v (withResult t m) (withResult t m') :=
  fun _ _ hc => Along.withResult t (h (hc.withResult (some t)))

lemma inOrder {ms ms' : List (Check α)} (h : Forall₂ (Coupled v) ms ms') :
    Coupled v (inOrder ms) (inOrder ms') := by
  induction h with
  | nil => exact .pure _
  | cons hm _ ih => exact hm.bind fun a => ih.bind_pure

lemma inOrder_map {R : β → β → Prop} {bs bs' : List β} {f f' : β → Check α}
    (h : Forall₂ R bs bs') (hf : ∀ b b', R b b' → Coupled v (f b) (f' b')) :
    Coupled v (Types.inOrder (bs.map f)) (Types.inOrder (bs'.map f')) := by
  refine inOrder ?_
  rw [forall₂_map_left_iff, forall₂_map_right_iff]
  exact h.imp hf

lemma inOrder_same (bs : List β) {f f' : β → Check α} (hf : ∀ b, Coupled v (f b) (f' b)) :
    Coupled v (Types.inOrder (bs.map f)) (Types.inOrder (bs.map f')) :=
  inOrder_map (forall₂_same.mpr fun _ _ => rfl) fun b _ h => h ▸ hf b

lemma report {d d' : Diagnostic} (h : d.unplaced = d'.unplaced)
    (hplace : v.placed → d.place = d'.place) : Coupled v (report d) (report d') :=
  fun c c' hc => ⟨(), [d], [d'], c.scopes, c'.scopes, rfl, rfl, .refl .., .refl ..,
    congrArg (fun d => [d]) (Diagnostic.seen_eq h hplace), hc.scope⟩

section Places

variable {place place' : Option Place} (hplace : v.placed → place = place')
include hplace

lemma typeError (message : String) (expected actual : Option String) :
    Coupled v (Types.report (.typeError message place expected actual))
      (Types.report (.typeError message place' expected actual)) :=
  report rfl hplace

lemma nameError (message name : String) :
    Coupled v (Types.report (.nameError message name place))
      (Types.report (.nameError message name place')) :=
  report rfl hplace

lemma mismatch (message : String) (expected actual : Ty) :
    Coupled v (mismatch message place expected actual) (mismatch message place' expected actual) :=
  typeError hplace ..

lemma lookup (name : String) : Coupled v (lookup name place) (lookup name place') := by
  refine .get_bind (fun c c' hc => ?_) fun c => ?_
  · rw [(hc name).scope]
  · split
    · exact .pure _
    · exact (nameError hplace ..).bind_pure

end Places

lemma define (name : String) (t : Ty) : Coupled v.loose (define name t) (define name t) := by
  intro c c' hc
  refine .after (Scopes.grown_define ..) (Scopes.grown_define ..) (m := Pure.pure ()) ?_ rfl rfl
  refine (Coupled.pure () (hc.scopes ?_)).mono ?_ ?_
  · funext other
    rw [Scopes.visible_define, Scopes.visible_define, Scope.lookup?_define, Scope.lookup?_define]
    rw [← Checker.scope, (hc other).scope, Checker.scope]
  · exact (ScopeTree.length_define ..).ge
  · exact (ScopeTree.length_define ..).ge

end Coupled

/-! ### Frames -/

namespace CoupledIn

variable {α β : Type} {v : View} {i i' : Nat} {m m' : Check α}

/-- A frame is entered, and left whatever happened inside. -/
lemma withFrame (h : Coupled v.loose m m') :
    CoupledIn v i i' (withFrame i m) (withFrame i' m') := by
  intro c c' frame hc hi hi'
  have hinside : Agree { c with scopes := c.scopes.enter i }
      { c' with scopes := c'.scopes.enter i' } := by
    refine hc.scopes ?_
    rw [hi.visible_enter, hi'.visible_enter]
    exact Scope.lookup?_cons_congr frame hc.scope
  obtain ⟨a, ds, ds', s, s', hrun, hrun', hs, hs', hds, -⟩ := h hinside
  refine ⟨a, ds, ds', s.enter c.scopes.current, s'.enter c'.scopes.current, ?_, ?_,
    hi.grown_leave hs v.keep, hi'.grown_leave hs' v.keep, hds, ?_⟩
  · exact congrArg (fun r => (r.1, { r.2 with scopes := r.2.scopes.enter c.scopes.current })) hrun
  · exact congrArg (fun r => (r.1, { r.2 with scopes := r.2.scopes.enter c'.scopes.current })) hrun'
  · rw [(hi.grown_leave hs true).visible hi.current_lt,
      (hi'.grown_leave hs' true).visible hi'.current_lt]
    exact hc.scope

lemma withResult (h : CoupledIn v i i' m m') (t : Ty) :
    CoupledIn v i i' (withResult t m) (withResult t m') :=
  fun _ _ _ hc hi hi' => Along.withResult t (h (hc.withResult (some t)) hi hi')

lemma withFunction (h : CoupledIn v i i' m m') (name : String) (t : Ty) :
    CoupledIn v i i' (withFunction name t m) (withFunction name t m') :=
  fun _ _ _ hc hi hi' => Along.withFunction name t (h (hc.withFunction (some t) (some name)) hi hi')

/-- What is checked outside leaves the frames as they are. -/
lemma bind {f f' : α → Check β} (h : Coupled v m m') (hf : ∀ a, CoupledIn v i i' (f a) (f' a)) :
    CoupledIn v i i' (m >>= f) (m' >>= f') :=
  fun _ _ _ hc hi hi' => (h hc).bind hc hi.lt_length.le hi'.lt_length.le
    fun a _ _ _ _ hs hs' hmoved => hf a hmoved (hi.grown hs) (hi'.grown hs')

lemma defineIn (h : CoupledIn v i i' m m') (name : String) (t : Ty) :
    CoupledIn v i i' (defineIn i name t >>= fun _ => m) (defineIn i' name t >>= fun _ => m') := by
  intro c c' frame hc hi hi'
  have hs := c.scopes.grown_defineIn true i name t
  have hs' := c'.scopes.grown_defineIn true i' name t
  have hc : Agree { c with scopes := c.scopes.defineIn i name t }
      { c' with scopes := c'.scopes.defineIn i' name t } := by
    refine hc.scopes ?_
    rw [hs.visible hi.current_lt, hs'.visible hi'.current_lt]
    exact hc.scope
  exact .after (Scopes.grown_defineIn ..) (Scopes.grown_defineIn ..)
    (h hc (hi.define name t) (hi'.define name t)) rfl rfl

lemma bind_pure {f : α → β} (h : CoupledIn v i i' m m') :
    CoupledIn v i i' (m >>= fun a => Pure.pure (f a)) (m' >>= fun a => Pure.pure (f a)) :=
  fun _ _ _ hc hi hi' => (h hc hi hi').bind hc le_rfl le_rfl fun a _ _ _ _ hs hs' hmoved =>
    (Coupled.pure (f a) hmoved).mono (hi.lt_length.le.trans hs.le) (hi'.lt_length.le.trans hs'.le)

end CoupledIn

/-- A frame is opened in both runs. -/
lemma Coupled.openFrame {α : Type} {v : View} {f f' : Nat → Check α}
    (h : ∀ i i', CoupledIn v i i' (f i) (f' i')) :
    Coupled v (openFrame >>= f) (openFrame >>= f') := by
  intro c c' hc
  have hc : Agree { c with scopes := c.scopes.opened.2 }
      { c' with scopes := c'.scopes.opened.2 } := by
    refine hc.scopes ?_
    rw [(c.scopes.grown_opened true).visible c.scopes.current_lt,
      (c'.scopes.grown_opened true).visible c'.scopes.current_lt]
    exact hc.scope
  exact .after (Scopes.grown_opened ..) (Scopes.grown_opened ..)
    (h _ _ hc (Scopes.inner_opened _) (Scopes.inner_opened _)) rfl rfl

/-! ### Alike nodes -/

/-- Both judgements are coupled. The scope is not kept if a value is declared by the statement. -/
structure Judgement.Alike (v : View) (value : Bool) (j j' : Judgement) : Prop where
  infer : Coupled v j.infer j'.infer
  check : Coupled ⟨v.placed, !value && v.keep⟩ j.check j'.check

lemma Judgement.Alike.ofExpr {v : View} {m m' : Check Ty} (h : Coupled v m m') :
    (Judgement.ofExpr m).Alike v false (Judgement.ofExpr m') :=
  ⟨h, h.map⟩

lemma Judgement.Alike.ofStmt {v : View} {value : Bool} {m m' : Check Unit}
    (h : Coupled ⟨v.placed, !value && v.keep⟩ m m') :
    (Judgement.ofStmt m).Alike v value (Judgement.ofStmt m') :=
  ⟨.pure _, h⟩

/-- A node of the first run and its counterpart in the second one. Its type is inferred with the
scope kept, if that is asked for; as a statement it may define names. -/
structure Judged.Alike (v : View) (n n' : Judged) : Prop where
  place : v.placed → n.1.place = n'.1.place
  isTarget : isTarget n.1 = isTarget n'.1
  registered : registerFunction n.1 = registerFunction n'.1
  infer : Coupled v n.2.infer n'.2.infer
  check : Coupled v.loose n.2.check n'.2.check

/-- A named value of the first run and its counterpart in the second one. -/
structure EntryAlike (v : View) (e e' : Entry Judged) : Prop where
  name : e.name = e'.name
  value : Option.Rel (Judged.Alike v) e.value e'.value

/-- A parameter of the first run and its counterpart in the second one. -/
structure ParamAlike (v : View) (p p' : Param Judged) : Prop where
  name : p.name = p'.name
  written : p.written = p'.written
  default : Option.Rel (Judged.Alike v) p.default p'.default

section Constructs

variable {v : View} {n n' : Judged} {ns ns' : List Judged}
  {es es' : List (Entry Judged)} {ps ps' : List (Param Judged)} {m m' : Option Judged}
  {place place' : Option Place}

lemma inferOption_coupled (h : Option.Rel (Judged.Alike v) m m') :
    Coupled v (inferOption m) (inferOption m') := by
  cases h with
  | none => exact .pure _
  | some h => exact h.infer

lemma inferEntries_coupled (h : Forall₂ (EntryAlike v) es es') :
    Coupled v (inOrder (es.map fun e => inferOption e.value))
      (inOrder (es'.map fun e => inferOption e.value)) :=
  .inOrder_map h fun _ _ he => inferOption_coupled he.value

lemma paramTypes_alike (h : Forall₂ (ParamAlike v) ps ps') :
    paramTypes ps = paramTypes ps' := by
  induction h with
  | nil => rfl
  | cons hp _ ih =>
    simp only [paramTypes, map_cons, hp.written] at ih ⊢
    rw [ih]

lemma registerFunction_coupled (n : Node) :
    Coupled v.loose (registerFunction n) (registerFunction n) := by
  unfold registerFunction
  split
  · exact .define _ _
  · exact .pure _

lemma defineParams_coupled {α : Type} {m m' : Check α} {i i' : Nat}
    (h : Forall₂ (ParamAlike v) ps ps') (hm : CoupledIn v i i' m m') :
    CoupledIn v i i' (defineParams i ps >>= fun _ => m) (defineParams i' ps' >>= fun _ => m') := by
  induction h with
  | nil => exact hm
  | @cons p p' ps ps' hp _ ih =>
    change CoupledIn v i i' (inferOption p.default >>= fun _ => defineIn i p.name _ >>= fun _ =>
      defineParams i ps >>= fun _ => m) (inferOption p'.default >>= fun _ =>
        defineIn i' p'.name _ >>= fun _ => defineParams i' ps' >>= fun _ => m')
    refine .bind (inferOption_coupled hp.default) fun _ => ?_
    rw [hp.name, hp.written]
    exact ih.defineIn ..

/-- What follows in the frame of some parameters. -/
lemma bindParams_coupled {α : Type} {f f' : Nat → Check α} (h : Forall₂ (ParamAlike v) ps ps')
    (hf : ∀ i i', CoupledIn v i i' (f i) (f' i')) :
    Coupled v (bindParams ps >>= f) (bindParams ps' >>= f') :=
  Coupled.openFrame fun i i' => defineParams_coupled h (hf i i')

section Blocks

variable (h : Forall₂ (Judged.Alike v) ns ns')
include h

lemma checkBlockIn_coupled (i i' : Nat) :
    CoupledIn v i i' (checkBlockIn i ns) (checkBlockIn i' ns') := by
  refine .withFrame (.bind (.inOrder_map h fun n n' hn => ?_) fun _ => ?_)
  · rw [hn.registered]
    exact registerFunction_coupled n'.1
  · exact (Coupled.inOrder_map h fun _ _ hn => hn.check).bind_pure

lemma checkBlock_coupled : Coupled v (checkBlock ns) (checkBlock ns') :=
  .openFrame (checkBlockIn_coupled h)

lemma checkFreeBody_coupled (i i' : Nat) :
    CoupledIn v i i' (checkFreeBody i ns) (checkFreeBody i' ns') :=
  (checkBlockIn_coupled h i i').withResult .any

/-! ### Statements -/

lemma checkFunction_coupled (name : String) (result : Option TypeExpr)
    (hp : Forall₂ (ParamAlike v) ps ps') :
    Coupled v (checkFunction name ps result ns) (checkFunction name ps' result ns') :=
  bindParams_coupled hp fun i i' => (checkBlockIn_coupled h i i').withFunction name _

lemma checkComponent_coupled (hp : Forall₂ (ParamAlike v) ps ps') :
    Coupled v (checkComponent ps ns) (checkComponent ps' ns') :=
  bindParams_coupled hp (checkFreeBody_coupled h)

lemma checkFor_coupled (name : String) (hn : n.Alike v n') :
    Coupled v (checkFor name n ns) (checkFor name n' ns') :=
  hn.infer.bind fun _ => .openFrame fun i i' => (checkBlockIn_coupled h i i').defineIn ..

end Blocks

section Places

variable (hplace : v.placed → place = place')
include hplace

lemma checkBinding_coupled (what name : String) (written : Option TypeExpr) (hn : n.Alike v n') :
    Coupled v.loose (checkBinding what name written n place)
      (checkBinding what name written n' place') := by
  have hplace : v.loose.placed → place = place' := hplace
  refine hn.infer.loose.bind fun actual => ?_
  exact .ite (.bind (.mismatch hplace ..) fun _ => .define _ _) (.define _ _)

lemma checkReturn_coupled (h : Option.Rel (Judged.Alike v) m m') :
    Coupled v (checkReturn m place) (checkReturn m' place') := by
  cases h with
  | none => exact .pure _
  | some h =>
    refine h.infer.bind fun actual => .get_bind (fun c c' hc => ?_) fun c => ?_
    · rw [(hc "").result, (hc "").function]
    · cases c.result with
      | none => exact .pure _
      | some => exact .ite (.mismatch hplace ..) (.pure _)

lemma checkIf_coupled {alternate alternate' : Option (List Judged)} (hn : n.Alike v n')
    (h : Forall₂ (Judged.Alike v) ns ns')
    (ha : Option.Rel (Forall₂ (Judged.Alike v)) alternate alternate') :
    Coupled v (checkIf n ns alternate place) (checkIf n' ns' alternate' place') := by
  have hyes := checkBlock_coupled h
  refine hn.infer.bind fun t => ?_
  cases ha with
  | none =>
    have hrest := hyes.bind fun _ => .pure ()
    exact .ite ((Coupled.mismatch hplace ..).bind fun _ => hrest) hrest
  | some ha =>
    have hrest := hyes.bind fun _ => checkBlock_coupled ha
    exact .ite ((Coupled.mismatch hplace ..).bind fun _ => hrest) hrest

/-! ### Expressions -/

lemma inferUniform_coupled (op : String) (required left right : Ty) :
    Coupled v (inferUniform op required left right place)
      (inferUniform op required left right place') :=
  .ite (Coupled.mismatch hplace ..).bind_pure (.pure _)

lemma inferBinary_coupled (op : String) {left left' : Judged} (hl : left.Alike v left')
    (hn : n.Alike v n') :
    Coupled v (inferBinary op left n place) (inferBinary op left' n' place') := by
  refine hl.infer.bind fun l => hn.infer.bind fun r => ?_
  have hinfer (required : Ty) : Coupled v (inferUniform op required l r place)
      (inferUniform op required l r place') := inferUniform_coupled hplace op required l r
  refine .ite (.ite (.pure _) (.ite (.pure _) (.pure _))) (.ite (hinfer .int) ?_)
  exact .ite (.pure _) (.ite (hinfer .bool) (.pure _))

lemma inferUnary_coupled (op : String) (hn : n.Alike v n') :
    Coupled v (inferUnary op n place) (inferUnary op n' place') := by
  refine hn.infer.bind fun t => ?_
  have hrequires (required : Ty) := Coupled.ite (v := v) (p := (!t.same required) = true)
    ((Coupled.mismatch hplace s!"Operator {op} requires {required.text} operand" required t).bind
      fun _ => .pure required) (.pure required)
  exact .ite (hrequires .bool) (.ite (hrequires .int) (.pure _))

lemma inferAssign_coupled {target target' : Judged} (ht : target.Alike v target')
    (hn : n.Alike v n') :
    Coupled v (inferAssign target n place) (inferAssign target' n' place') := by
  unfold inferAssign
  rw [ht.isTarget]
  refine .ite ((Coupled.typeError hplace ..).bind fun _ => hn.infer) ?_
  refine ht.infer.bind fun expected => hn.infer.bind fun actual => ?_
  exact .ite (Coupled.mismatch hplace ..).bind_pure (.pure _)

/-- A diagnostic stands at the node, or else at the place of what is around it. -/
lemma orElse_place (hn : n.Alike v n') (h : v.placed) :
    (n.1.place <|> place) = (n'.1.place <|> place') := by
  rw [hn.place h, hplace h]

lemma checkArguments_coupled (i : Nat) (params : List Ty) (h : Forall₂ (Judged.Alike v) ns ns') :
    Coupled v (checkArguments place i params ns) (checkArguments place' i params ns') := by
  induction h generalizing i params with
  | nil => cases params <;> exact .pure _
  | cons hn _ ih =>
    cases params with
    | nil => exact hn.infer.bind fun _ => ih (i + 1) []
    | cons expected params =>
      have hrest := ih (i + 1) params
      refine hn.infer.bind fun actual => ?_
      exact .ite ((Coupled.mismatch (orElse_place hplace hn) ..).bind fun _ => hrest) hrest

lemma inferCall_coupled (hn : n.Alike v n') (h : Forall₂ (Judged.Alike v) ns ns') :
    Coupled v (inferCall n ns place) (inferCall n' ns' place') := by
  refine hn.infer.bind fun t => ?_
  cases t with
  | function params result =>
    rw [h.length_eq]
    have hrest := (checkArguments_coupled hplace 1 params h).bind fun _ => .pure result
    exact .ite ((Coupled.typeError hplace ..).bind fun _ => hrest) hrest
  | _ => exact (Coupled.inOrder_map h fun _ _ hn => hn.infer).bind_pure

end Places

lemma inferMember_coupled (property : String) (computed : Bool) (hn : n.Alike v n')
    (h : Option.Rel (Judged.Alike v) m m') :
    Coupled v (inferMember n property computed m) (inferMember n' property computed m') := by
  refine hn.infer.bind fun t => .ite ((inferOption_coupled h).bind fun _ => ?_) ?_
  · cases t <;> exact .pure _
  · cases t <;> exact .pure _

lemma inferArray_coupled (h : Forall₂ (Judged.Alike v) ns ns') :
    Coupled v (inferArray ns) (inferArray ns') := by
  refine (Coupled.inOrder_map h fun _ _ hn => hn.infer).bind fun types => ?_
  cases types <;> exact .pure _

lemma inferObject_coupled (h : Forall₂ (EntryAlike v) es es') :
    Coupled v (inferObject es) (inferObject es') := by
  have hnames : es.map (·.name) = es'.map (·.name) := by
    induction h with
    | nil => rfl
    | cons he _ ih => rw [map_cons, he.name, ih, map_cons]
  unfold inferObject
  rw [hnames]
  exact (inferEntries_coupled h).bind_pure

/-- A function with a block. -/
lemma inferArrow_coupled (hp : Forall₂ (ParamAlike v) ps ps')
    (h : Forall₂ (Judged.Alike v) ns ns') :
    Coupled v (inferArrow ps (.block ns)) (inferArrow ps' (.block ns')) := by
  unfold inferArrow
  rw [paramTypes_alike hp]
  exact bindParams_coupled hp fun i i' => (checkFreeBody_coupled h i i').bind_pure

/-- A function with an expression. -/
lemma inferArrow_value_coupled (hp : Forall₂ (ParamAlike v) ps ps') (hn : n.Alike v n') :
    Coupled v (inferArrow ps (.value n)) (inferArrow ps' (.value n')) := by
  unfold inferArrow
  rw [paramTypes_alike hp]
  exact bindParams_coupled hp fun i i' => (CoupledIn.withFrame hn.infer.loose).bind_pure

/-! ### Markup -/

/-- Some nodes of the first run and their counterparts as the children of markup. -/
def Children (v : View) : List Judged → List Judged → Prop :=
  Forall₂ fun n n' => Coupled v n.2.check n'.2.check

lemma checkElement_coupled (he : Forall₂ (EntryAlike v) es es') (h : Children v ns ns') :
    Coupled v (checkElement es ns) (checkElement es' ns') :=
  (inferEntries_coupled he).bind fun _ => (Coupled.inOrder_map h fun _ _ hn => hn).bind_pure

lemma checkProp_coupled (hplace : v.placed → place = place') (component : String)
    (type? : Option Ty) {e e' : Entry Judged} (h : EntryAlike v e e') :
    Coupled v (checkProp component type? place e)
      (checkProp component type? place' e') := by
  obtain ⟨name, value⟩ := e
  obtain ⟨name', value'⟩ := e'
  obtain ⟨rfl, hv⟩ := h
  cases hv with
  | none => exact .pure _
  | some hv =>
    refine hv.infer.bind fun actual => ?_
    cases type?.bind (·.field? name) with
    | none => exact .pure _
    | some => exact .ite (.mismatch (orElse_place hplace hv) ..) (.pure _)

lemma checkInstance_coupled (hplace : v.placed → place = place') (name : String)
    (he : Forall₂ (EntryAlike v) es es') (h : Children v ns ns') :
    Coupled v (checkInstance name es ns place) (checkInstance name es' ns' place') := by
  refine .get_bind (fun c c' hc => ?_) fun c => ?_
  · have himported : c.imported.contains name = c'.imported.contains name := by
      rw [Bool.eq_iff_iff, contains_iff_mem, contains_iff_mem]
      exact (hc name).imported
    simp only [(hc name).components, himported]
  · have hrest := (Coupled.inOrder_map he fun _ _ he => checkProp_coupled hplace name
      (Dict.get? c.components name) he).bind fun _ =>
        (Coupled.inOrder_map h fun _ _ hn => hn).bind_pure (f := fun _ => Ty.any)
    exact .ite ((Coupled.nameError hplace ..).bind fun _ => hrest) hrest

end Constructs

end Types

end UiScript
