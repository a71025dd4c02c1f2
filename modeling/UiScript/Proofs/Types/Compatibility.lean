import Mathlib.Tactic.Common
import UiScript.Types.Basic

/-!
# Laws of compatibility

Compatibility is not transitive, since a type between two others may agree with everything, and this
at any depth of arrays. A primitive that is called `Array` has the kind of arrays and no element, so
it agrees with arrays of all types.
-/

namespace UiScript.Ty

/-- The type, its element, the element of that one, and so on. -/
def spine : Ty → List Ty
  | .array e => .array e :: spine e
  | t => [t]

mutual

/-- The primitive of a name is the type or somewhere in it. -/
def holds (name : String) : Ty → Bool
  | .unknown => false
  | .primitive other => other == name
  | .array e => holds name e
  | .object fields => holdsFields name fields
  | .function params result => holdsList name params || holds name result
  | .component _ props => holdsFields name props

def holdsList (name : String) : List Ty → Bool
  | [] => false
  | t :: ts => holds name t || holdsList name ts

def holdsFields (name : String) : List (String × Ty) → Bool
  | [] => false
  | (_, t) :: fs => holds name t || holdsFields name fs

end

variable {a b c t : Ty}

lemma isUniversal_iff : t.isUniversal ↔ t = any ∨ t = void := by
  cases t <;> simp [isUniversal, kind]

lemma isCompatible_iff : isCompatible a b ↔ a.isUniversal ∨ b.isUniversal ∨
    a.kind = b.kind ∧ ∀ x y, a = .array x → b = .array y → isCompatible x y := by
  conv_lhs => unfold isCompatible
  by_cases ha : a.isUniversal
  · simp [ha]
  by_cases hb : b.isUniversal
  · simp [hb]
  by_cases hkind : a.kind = b.kind
  · simp only [ha, hb, hkind]
    cases a <;> cases b <;> simp
  · simp [ha, hb, hkind]

lemma isCompatible_array {x y : Ty} : isCompatible (.array x) (.array y) ↔ isCompatible x y := by
  simp [isCompatible_iff (a := .array x), isUniversal, kind]

/-- Only arrays are looked into, so what holds of elements and their arrays is shown along the
spine. -/
@[elab_as_elim]
lemma spineInduction {P : Ty → Prop} (array : ∀ e, P e → P (.array e))
    (other : ∀ t, (∀ e, t ≠ .array e) → P t) : ∀ t, P t
  | .array e => array e (spineInduction array other e)
  | .unknown => other _ nofun
  | .primitive _ => other _ nofun
  | .object _ => other _ nofun
  | .function _ _ => other _ nofun
  | .component _ _ => other _ nofun

lemma self_mem_spine (t : Ty) : t ∈ t.spine := by
  cases t <;> simp [spine]

lemma isCompatible_refl (t : Ty) : isCompatible t t := by
  induction t using spineInduction with
  | array e ih => exact isCompatible_array.mpr ih
  | other t ht => exact isCompatible_iff.mpr (.inr (.inr ⟨rfl, fun x _ hx => absurd hx (ht x)⟩))

lemma isCompatible_symm (h : isCompatible a b) : isCompatible b a := by
  induction a using spineInduction generalizing b with
  | array x ih =>
    rcases isCompatible_iff.mp h with ha | hb | ⟨hkind, hinner⟩
    · cases ha
    · exact isCompatible_iff.mpr (.inl hb)
    · refine isCompatible_iff.mpr (.inr (.inr ⟨hkind.symm, ?_⟩))
      rintro y x rfl ⟨⟩
      exact ih (hinner _ _ rfl rfl)
  | other t ht =>
    rcases isCompatible_iff.mp h with ha | hb | ⟨hkind, -⟩
    · exact isCompatible_iff.mpr (.inr (.inl ha))
    · exact isCompatible_iff.mpr (.inl hb)
    · exact isCompatible_iff.mpr (.inr (.inr ⟨hkind.symm, fun _ x _ hx => absurd hx (ht x)⟩))

/-- Two types that agree with a third one agree, unless their kinds are those of arrays. -/
lemma isCompatible_of_kind (hb : ¬ b.isUniversal) (hab : isCompatible a b) (hbc : isCompatible b c)
    (harray : ∀ x z, a = .array x → c = .array z → b.kind = "Array" → isCompatible x z) :
    isCompatible a c := by
  rcases isCompatible_iff.mp hab with ha | hb' | ⟨hkind, -⟩
  · exact isCompatible_iff.mpr (.inl ha)
  · exact absurd hb' hb
  rcases isCompatible_iff.mp hbc with hb' | hc | ⟨hkind', -⟩
  · exact absurd hb' hb
  · exact isCompatible_iff.mpr (.inr (.inl hc))
  refine isCompatible_iff.mpr (.inr (.inr ⟨hkind.trans hkind', fun x z hx hz => ?_⟩))
  exact harray x z hx hz (by rw [← hkind, hx, kind])

/-- A type between two others carries compatibility over, unless it agrees with too much. -/
lemma isCompatible_trans (hany : any ∉ b.spine) (hvoid : void ∉ b.spine)
    (harray : .primitive "Array" ∉ b.spine) (hab : isCompatible a b) (hbc : isCompatible b c) :
    isCompatible a c := by
  induction b using spineInduction generalizing a c with
  | array y ih =>
    refine isCompatible_of_kind (by simp [isUniversal, kind]) hab hbc ?_
    rintro x z rfl rfl -
    simp only [spine, List.mem_cons, not_or] at hany hvoid harray
    exact ih hany.2 hvoid.2 harray.2 (isCompatible_array.mp hab) (isCompatible_array.mp hbc)
  | other b hb =>
    have hmem := self_mem_spine b
    refine isCompatible_of_kind (fun huniversal => ?_) hab hbc fun x z _ _ hkind => ?_
    · rcases isUniversal_iff.mp huniversal with rfl | rfl
      · exact hany hmem
      · exact hvoid hmem
    · -- of the kind of arrays there are only arrays and the primitive of that name
      cases b with
      | array y => exact absurd rfl (hb y)
      | primitive name =>
        obtain rfl : name = "Array" := hkind
        exact absurd hmem harray
      | _ => simp [kind] at hkind

/-- A type that agrees with too much is between types that do not agree. -/
lemma exists_not_isCompatible (h : any ∈ b.spine ∨ void ∈ b.spine ∨ .primitive "Array" ∈ b.spine) :
    ∃ a c, isCompatible a b ∧ isCompatible b c ∧ ¬ isCompatible a c := by
  induction b using spineInduction with
  | array y ih =>
    obtain ⟨a, c, hab, hbc, hac⟩ := ih (by simpa [spine] using h)
    exact ⟨.array a, .array c, isCompatible_array.mpr hab, isCompatible_array.mpr hbc,
      fun hac' => hac (isCompatible_array.mp hac')⟩
  | other b hb =>
    have hspine : b.spine = [b] := by
      cases b with
      | array y => exact absurd rfl (hb y)
      | _ => rfl
    simp only [hspine, List.mem_singleton] at h
    rcases h with rfl | rfl | rfl
    · exact ⟨int, string, by decide, by decide, by decide⟩
    · exact ⟨int, string, by decide, by decide, by decide⟩
    · exact ⟨.array int, .array string, by decide, by decide, by decide⟩

lemma notMem_spine_of_holds {name : String} (h : ¬ t.holds name) : .primitive name ∉ t.spine := by
  induction t using spineInduction with
  | array y ih => simpa [spine] using ih h
  | other t ht =>
    cases t with
    | array y => exact absurd rfl (ht y)
    | primitive =>
      intro hmem
      cases List.mem_singleton.mp hmem
      exact h (beq_self_eq_true name)
    | _ => simp [spine]

/-- Compatibility is reflexive and symmetric, and `Any` and `Void` are compatible with everything. A
type carries compatibility over between all types just if its spine has neither of them, nor a
primitive that passes for an array; so every type does that has none of these on its spine. -/
theorem isCompatible_laws :
    (∀ t, isCompatible t t) ∧ (∀ a b, isCompatible a b = isCompatible b a) ∧
    (∀ u ∈ [any, void], ∀ t, isCompatible u t ∧ isCompatible t u) ∧
    (∀ a b c : Ty, ¬ a.holds "Array" → ¬ b.holds "Array" → ¬ c.holds "Array" →
      isCompatible a b → isCompatible b c → any ∉ b.spine → void ∉ b.spine → isCompatible a c) ∧
    ∀ b : Ty, (∀ a c, isCompatible a b → isCompatible b c → isCompatible a c) ↔
      any ∉ b.spine ∧ void ∉ b.spine ∧ .primitive "Array" ∉ b.spine := by
  refine ⟨isCompatible_refl, fun a b => ?_, fun u hu t => ?_,
    fun a b c _ hb _ hab hbc hany hvoid => ?_,
    fun b => ⟨fun h => ?_, fun h a c => isCompatible_trans h.1 h.2.1 h.2.2⟩⟩
  · exact Bool.eq_iff_iff.mpr ⟨isCompatible_symm, isCompatible_symm⟩
  · have huniversal : u.isUniversal := isUniversal_iff.mpr (by simpa using hu)
    exact ⟨isCompatible_iff.mpr (.inl huniversal), isCompatible_iff.mpr (.inr (.inl huniversal))⟩
  · exact isCompatible_trans hany hvoid (notMem_spine_of_holds hb) hab hbc
  · by_contra hspine
    obtain ⟨a, c, hab, hbc, hac⟩ := exists_not_isCompatible (b := b) (by tauto)
    exact hac (h a c hab hbc)

end UiScript.Ty
