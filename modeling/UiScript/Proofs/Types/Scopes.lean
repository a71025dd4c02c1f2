import Mathlib.Order.Nat
import UiScript.Types.Scope

/-!
# Trees of scopes

A frame lies in an earlier one, so what is visible from a frame depends on this one and on earlier
ones only. Names that are defined in later frames, and frames that are added, do not show.
-/

namespace UiScript

namespace Scope

lemma lookup?_define (name : String) (t : Ty) (s : Scope) (other : String) :
    (s.define name t).lookup? other = if other = name then some t else s.lookup? other := by
  cases s with
  | nil =>
    by_cases h : other = name
    · simp [define, lookup?, Dict.get?_cons, h]
    · have hnone : Dict.get? [(name, t)] other = none := by rw [Dict.get?_cons, if_neg h]; rfl
      simp [define, lookup?, hnone, h]
  | cons =>
    by_cases h : other = name
    · simp [define, lookup?, h, Dict.get?_set_self]
    · simp [define, lookup?, h, Dict.get?_set_of_ne]

lemma lookup?_cons_congr (frame : Frame) {s s' : Scope} (h : s.lookup? = s'.lookup?) :
    lookup? (frame :: s) = lookup? (frame :: s') := by
  funext name
  rw [lookup?, lookup?, h]

end Scope

namespace ScopeTree

variable {tree tree' : ScopeTree} {i n : Nat} {outer : Option Nat} {frame : Frame}

/-- Later frames are not looked at. -/
lemma scopeAmong_of_lt (h : i < n) : tree.scopeAmong n i = tree.scope i := by
  induction n with
  | zero => omega
  | succ n ih =>
    by_cases hi : i = n
    · rw [hi, scope]
    · rw [scopeAmong, if_neg hi]
      exact ih (by omega)

lemma scope_of_frame (h : tree.frames[i]? = some (outer, frame)) :
    tree.scope i = frame :: outer.elim [] (tree.scopeAmong i) := by
  rw [scope, scopeAmong, if_pos rfl, h]

/-- A frame is visible in front of the one that it lies in. -/
lemma scope_of_inner {p : Nat} (h : tree.frames[i]? = some (some p, frame)) (hp : p < i) :
    tree.scope i = frame :: tree.scope p := by
  rw [scope_of_frame h, Option.elim_some, scopeAmong_of_lt hp]

lemma scopeAmong_congr (h : ∀ j < n, tree'.frames[j]? = tree.frames[j]?) :
    tree'.scopeAmong n = tree.scopeAmong n := by
  induction n with
  | zero => rfl
  | succ n ih =>
    have ih := ih fun j hj => h j (Nat.lt_succ_of_lt hj)
    funext i
    rw [scopeAmong, scopeAmong, ih]
    split
    next hi => rw [h i (by omega)]
    · rfl

/-- What is visible from a frame depends on the frames up to this one. -/
lemma scope_congr (h : ∀ j ≤ i, tree'.frames[j]? = tree.frames[j]?) :
    tree'.scope i = tree.scope i :=
  congrFun (scopeAmong_congr fun j hj => h j (Nat.le_of_lt_succ hj)) i

lemma frames_define_of_ne {j : Nat} (h : i ≠ j) (name : String) (t : Ty) :
    (tree.define i name t).frames[j]? = tree.frames[j]? := by
  simp only [define, List.getElem?_modify, if_neg h, id_map']

lemma frames_define_self (h : tree.frames[i]? = some (outer, frame)) (name : String) (t : Ty) :
    (tree.define i name t).frames[i]? = some (outer, Dict.set name t frame) := by
  simp only [define, List.getElem?_modify, if_pos, h, Option.map_eq_map, Option.map_some]

/-- A name is defined in the innermost of the frames that are visible. -/
lemma scope_define_self (h : i < tree.frames.length) (name : String) (t : Ty) :
    (tree.define i name t).scope i = (tree.scope i).define name t := by
  obtain ⟨⟨outer, frame⟩, hframe⟩ : ∃ f, tree.frames[i]? = some f := ⟨_, List.getElem?_eq_getElem h⟩
  have hearlier : (tree.define i name t).scopeAmong i = tree.scopeAmong i :=
    scopeAmong_congr fun j hj => frames_define_of_ne (Nat.ne_of_gt hj) name t
  rw [scope_of_frame (frames_define_self hframe name t), scope_of_frame hframe, hearlier,
    Scope.define]

/-- A name is defined in the same frame of a tree with further frames. -/
lemma isPrefix_define (h : tree.frames <+: tree'.frames) (i : Nat) (name : String) (t : Ty) :
    (tree.define i name t).frames <+: (tree'.define i name t).frames := by
  rw [List.prefix_iff_getElem?] at h ⊢
  intro j hdefined
  have hj : j < tree.frames.length := by rwa [length_define] at hdefined
  rw [← List.getElem?_eq_getElem hdefined]
  simp only [define, List.getElem?_modify, h j hj, List.getElem?_eq_getElem hj]

lemma frames_child_of_lt {j : Nat} (h : j < tree.frames.length) :
    (tree.child i).2.frames[j]? = tree.frames[j]? :=
  List.getElem?_append_left h

end ScopeTree

namespace Scopes

variable {s s' s'' : Scopes} {keep : Bool} {i n : Nat} {frame : Frame}

lemma enter_of_lt (h : i < s.frames.length) : s.enter i = ⟨s.toScopeTree, i, h⟩ := dif_pos h

/-- What becomes of the frames below a number: none is lost, and only in the current one names may
be defined, unless that is to be kept. The current one is the same afterwards. -/
structure Grown (keep : Bool) (n : Nat) (s s' : Scopes) : Prop where
  current : s'.current = s.current
  le : s.frames.length ≤ s'.frames.length
  same : ∀ j < n, (j = s.current → keep) → s'.frames[j]? = s.frames[j]?

namespace Grown

lemma refl (keep : Bool) (n : Nat) (s : Scopes) : Grown keep n s s :=
  ⟨rfl, le_rfl, fun _ _ _ => rfl⟩

lemma trans (h : Grown keep n s s') (h' : Grown keep n s' s'') : Grown keep n s s'' where
  current := h'.current.trans h.current
  le := h.le.trans h'.le
  same j hj hkeep := (h'.same j hj (by rwa [h.current])).trans (h.same j hj hkeep)

lemma mono {m : Nat} (h : Grown keep n s s') (hm : m ≤ n) : Grown keep m s s' :=
  { h with same := fun j hj => h.same j (hj.trans_le hm) }

lemma loose (h : Grown keep n s s') : Grown false n s s' :=
  { h with same := fun j hj hother => h.same j hj fun hj => nomatch hother hj }

lemma visible (h : Grown true n s s') (hn : s.current < n) : s'.visible = s.visible := by
  rw [Scopes.visible, h.current]
  exact ScopeTree.scope_congr fun j hj => h.same j (hj.trans_lt hn) fun _ => rfl

/-- Frames are only added. -/
lemma isPrefix (h : Grown true s.frames.length s s') : s.frames <+: s'.frames := by
  rw [List.prefix_iff_getElem?]
  intro j hj
  rw [h.same j hj fun _ => rfl, List.getElem?_eq_getElem hj]

end Grown

lemma grown_define (n : Nat) (s : Scopes) (name : String) (t : Ty) :
    Grown false n s (s.defineIn s.current name t) where
  current := rfl
  le := (s.length_define s.current name t).ge
  same _ _ hj := ScopeTree.frames_define_of_ne (fun h => nomatch hj h.symm) name t

/-- A name in a frame does not show in the frames before it. -/
lemma grown_defineIn (keep : Bool) (s : Scopes) (i : Nat) (name : String) (t : Ty) :
    Grown keep i s (s.defineIn i name t) where
  current := rfl
  le := (s.length_define i name t).ge
  same _ hj _ := ScopeTree.frames_define_of_ne hj.ne' name t

lemma visible_define (s : Scopes) (name : String) (t : Ty) :
    (s.defineIn s.current name t).visible = s.visible.define name t :=
  ScopeTree.scope_define_self s.current_lt name t

/-! ### A frame inside the current one -/

/-- There is a frame in the current one, though not entered yet. -/
structure Inner (s : Scopes) (i : Nat) (frame : Frame) : Prop where
  current_lt : s.current < i
  eq : s.frames[i]? = some (some s.current, frame)

namespace Inner

lemma lt_length (h : s.Inner i frame) : i < s.frames.length :=
  (List.getElem?_eq_some_iff.mp h.eq).1

lemma visible_enter (h : s.Inner i frame) : (s.enter i).visible = frame :: s.visible := by
  rw [enter_of_lt h.lt_length]
  exact ScopeTree.scope_of_inner h.eq h.current_lt

/-- It stays as it is while the current frame is. -/
lemma grown (h : s.Inner i frame) (hs : Grown keep s.frames.length s s') : s'.Inner i frame where
  current_lt := hs.current ▸ h.current_lt
  eq := by rw [hs.same i h.lt_length fun hi => absurd hi h.current_lt.ne', h.eq, hs.current]

lemma define (h : s.Inner i frame) (name : String) (t : Ty) :
    (s.defineIn i name t).Inner i (Dict.set name t frame) :=
  ⟨h.current_lt, ScopeTree.frames_define_self h.eq name t⟩

/-- Whatever happens inside it, the frames before it are the same. -/
lemma grown_leave (h : s.Inner i frame)
    (hs : Grown false (s.enter i).frames.length (s.enter i) s') (keep : Bool) :
    Grown keep i s (s'.enter s.current) := by
  rw [enter_of_lt h.lt_length] at hs
  rw [enter_of_lt (s.current_lt.trans_le hs.le)]
  exact ⟨rfl, hs.le, fun j hj _ => hs.same j (hj.trans h.lt_length) fun hi => absurd hi hj.ne⟩

end Inner

lemma inner_opened (s : Scopes) : s.opened.2.Inner s.opened.1 [] :=
  ⟨s.current_lt, List.getElem?_concat_length⟩

lemma grown_opened (keep : Bool) (s : Scopes) : Grown keep s.frames.length s s.opened.2 where
  current := rfl
  le := Nat.le_of_lt (Nat.lt_of_lt_of_eq (Nat.lt_succ_self _) (s.length_child s.current).symm)
  same _ hj _ := ScopeTree.frames_child_of_lt hj

end Scopes

end UiScript
