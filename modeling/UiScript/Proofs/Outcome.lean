import Mathlib.Tactic.Common

/-!
# How actions end

An action that may fail ends with a failure or with a value. What is said of both is carried through
the actions it is put together of.
-/

namespace UiScript

/-- What comes of an action has a property, be it a failure or a value. -/
def Ends {ε α : Type} (F : ε → Prop) (P : α → Prop) : Except ε α → Prop
  | .error e => F e
  | .ok a => P a

abbrev Returns {ε α : Type} (P : α → Prop) (m : Except ε α) : Prop := Ends (fun _ => True) P m

namespace Ends

variable {ε α β : Type} {F : ε → Prop} {P : α → Prop} {Q : β → Prop} {m : Except ε α}

lemma value (h : Ends F P m) : ∀ a, m = .ok a → P a := by
  rintro a rfl
  exact h

lemma failure (h : Ends F P m) : ∀ e, m = .error e → F e := by
  rintro e rfl
  exact h

lemma pure {a : α} (h : P a) : Ends F P (.ok a) := h

lemma error {e : ε} (h : F e) : Ends F P (.error e) := h

lemma any (h : ∀ a, P a) : Returns P m := by
  cases m with
  | error => trivial
  | ok a => exact h a

lemma mono {P' : α → Prop} (h : Ends F P m) (hP : ∀ a, P a → P' a) : Ends F P' m := by
  cases m with
  | error => exact h
  | ok a => exact hP a h

lemma bind {f : α → Except ε β} (h : Ends F P m) (hf : ∀ a, P a → Ends F Q (f a)) :
    Ends F Q (m >>= f) := by
  cases m with
  | error => exact h
  | ok a => exact hf a h

lemma map {f : α → β} (h : Ends F P m) (hf : ∀ a, P a → Q (f a)) : Ends F Q (f <$> m) := by
  cases m with
  | error => exact h
  | ok a => exact hf a h

lemma mapError {δ : Type} {G : δ → Prop} {f : ε → δ} (hf : ∀ e, G (f e)) (h : Returns P m) :
    Ends G P (m.mapError f) := by
  cases m with
  | error e => exact hf e
  | ok => exact h

lemma ite {p : Prop} [Decidable p] {m' : Except ε α} (h : p → Ends F P m)
    (h' : ¬ p → Ends F P m') : Ends F P (if p then m else m') := by
  split
  · exact h ‹_›
  · exact h' ‹_›

end Ends

namespace Returns

variable {ε α β : Type} {Q : β → Prop} {m : Except ε α}

/-- Nothing needs to be known of what is returned first. -/
lemma after {f : α → Except ε β} (hf : ∀ a, Returns Q (f a)) : Returns Q (m >>= f) :=
  .bind (.any fun _ => trivial) fun a (_ : True) => hf a

lemma map {f : α → β} (hf : ∀ a, Q (f a)) : Returns Q (f <$> m) :=
  Ends.map (.any fun _ => trivial) fun a (_ : True) => hf a

end Returns

end UiScript
