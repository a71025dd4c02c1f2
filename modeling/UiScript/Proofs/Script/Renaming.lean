import Mathlib.Algebra.Order.Group.Multiset
import UiScript.Proofs.Dom.Static
import UiScript.Proofs.Script.Shift

/-!
# Texts with other numbers of elements

The variables of elements are numbered. A text that was written with greater numbers differs from
the original in these variables only, and it creates the same elements.
-/

namespace UiScript.Script

open List

open Dom (elementName)

/-- The start of the line that creates an element. -/
def creation (i : ℕ) : String := "const " ++ elementName i ++ " = document.createElement("

/-- A piece of a text, and the piece where numbers are greater by `d`: a character, the variable of
an element where it is used, or the start of the line that creates an element. -/
inductive Chunk (d : ℕ) : Multiset ℕ → String → String → Prop
  | char (c : Char) : Chunk d 0 (String.singleton c) (String.singleton c)
  | use (i : ℕ) {c : Char} (h : c = '.' ∨ c = ')') :
      Chunk d 0 (elementName i ++ String.singleton c) (elementName (d + i) ++ String.singleton c)
  | creation (i : ℕ) : Chunk d {i} (creation i) (creation (d + i))

/-- A text that creates some elements, and the text where their numbers are greater by `d`. -/
inductive Renamed (d : ℕ) : Multiset ℕ → String → String → Prop
  | nil : Renamed d 0 "" ""
  | cons {D E : Multiset ℕ} {a a' s s' : String} (ha : Chunk d D a a') (hs : Renamed d E s s') :
      Renamed d (D + E) (a ++ s) (a' ++ s')

/-- Lists with related items, which create some elements together. -/
inductive Each {α β : Type} (V : Multiset ℕ → α → β → Prop) :
    Multiset ℕ → List α → List β → Prop
  | nil : Each V 0 [] []
  | cons {D E : Multiset ℕ} {a : α} {b : β} {as : List α} {bs : List β} (ha : V D a b)
      (has : Each V E as bs) : Each V (D + E) (a :: as) (b :: bs)

variable {d : ℕ} {D E : Multiset ℕ} {a a' s s' t t' : String} {ls ls' : List String}

lemma newline_notMem_elementName (i : ℕ) : '\n' ∉ (elementName i).toList := by
  have hdigits : '\n' ∉ Nat.toDigits 10 i := fun h =>
    absurd (Token.isAsciiDigit_of_mem h) (by decide)
  simp [Dom.elementName_toList, hdigits]

namespace Renamed

lemma append (h : Renamed d D s s') (h' : Renamed d E t t') :
    Renamed d (D + E) (s ++ t) (s' ++ t') := by
  induction h with
  | nil => simpa using h'
  | cons ha _ ih =>
    rw [add_assoc, String.append_assoc, String.append_assoc]
    exact ih.cons ha

lemma text (s : String) : Renamed d 0 s s := by
  have hchars (cs : List Char) : Renamed d 0 (String.ofList cs) (String.ofList cs) := by
    induction cs with
    | nil => exact .nil
    | cons c cs ih =>
      have hcons : String.ofList (c :: cs) = String.singleton c ++ String.ofList cs :=
        String.toList_inj.mp (by simp)
      rw [hcons, ← zero_add 0]
      exact ih.cons (.char c)
  simpa using hchars s.toList

lemma before (s : String) (h : Renamed d D t t') : Renamed d D (s ++ t) (s ++ t') := by
  simpa using (text s).append h

lemma after (s : String) (h : Renamed d D t t') : Renamed d D (t ++ s) (t' ++ s) := by
  simpa using h.append (text s)

lemma braced (h : Renamed d D s s') : Renamed d D (braced s) (braced s') := (h.before _).after _

/-- Nothing is renamed if the numbers are the same. -/
lemma eq (h : Renamed 0 D s s') : s = s' := by
  induction h with
  | nil => rfl
  | cons ha _ ih =>
    rw [ih]
    cases ha <;> simp

lemma isEmpty (h : Renamed d D s s') : s = "" ∧ s' = "" ∧ D = 0 ∨ s ≠ "" ∧ s' ≠ "" := by
  cases h with
  | nil => exact .inl ⟨rfl, rfl, rfl⟩
  | cons ha => exact .inr (by cases ha <;> simp [creation])

end Renamed

namespace Each

variable {α β γ δ : Type} {V : Multiset ℕ → α → β → Prop} {W : Multiset ℕ → γ → δ → Prop}
  {as as' : List α} {bs bs' : List β}

lemma append (h : Each V D as bs) (h' : Each V E as' bs') :
    Each V (D + E) (as ++ as') (bs ++ bs') := by
  induction h with
  | nil => simpa using h'
  | cons ha _ ih =>
    rw [add_assoc]
    exact ih.cons ha

lemma flatten {ass : List (List α)} {bss : List (List β)} (h : Each (Each V) D ass bss) :
    Each V D ass.flatten bss.flatten := by
  induction h with
  | nil => exact .nil
  | cons ha _ ih => exact ha.append ih

lemma map {f : α → γ} {f' : β → δ} (h : Each V D as bs)
    (hf : ∀ {D a b}, V D a b → W D (f a) (f' b)) : Each W D (as.map f) (bs.map f') := by
  induction h with
  | nil => exact .nil
  | cons ha _ ih => exact ih.cons (hf ha)

lemma single {a : α} {b : β} (h : V D a b) : Each V D [a] [b] := by simpa using Each.nil.cons h

lemma texts (ls : List String) : Each (Renamed d) 0 ls ls := by
  induction ls with
  | nil => exact .nil
  | cons s _ ih => simpa using ih.cons (.text s)

lemma eq (h : Each (Renamed 0) D ls ls') : ls = ls' := by
  induction h with
  | nil => rfl
  | cons ha _ ih => rw [ha.eq, ih]

lemma filter (h : Each (Renamed d) D ls ls') :
    Each (Renamed d) D (ls.filter (!·.isEmpty)) (ls'.filter (!·.isEmpty)) := by
  induction h with
  | nil => exact .nil
  | cons ha _ ih =>
    rcases ha.isEmpty with ⟨rfl, rfl, rfl⟩ | hne
    · simpa using ih
    · simpa [hne] using ih.cons ha

lemma intercalate (sep : String) (h : Each (Renamed d) D ls ls') :
    Renamed d D (String.intercalate sep ls) (String.intercalate sep ls') := by
  induction h with
  | nil => exact .nil
  | cons ha has ih =>
    cases has with
    | nil => simpa using ha
    | cons =>
      rw [String.intercalate_cons_cons, String.intercalate_cons_cons]
      exact (ha.after sep).append ih

lemma join (h : Each (Renamed d) D ls ls') : Renamed d D (String.join ls) (String.join ls') := by
  induction h with
  | nil => exact .nil
  | cons ha _ ih =>
    rw [String.join_cons, String.join_cons]
    exact ha.append ih

lemma unlines (h : Each (Renamed d) D ls ls') :
    Renamed d D (Text.unlines ls) (Text.unlines ls') :=
  h.intercalate _

end Each

namespace Renamed

/-- A piece without a line feed stands in the first line. -/
lemma lines_cons (ha : Chunk d D a a') (hfeed : '\n' ∉ a.toList ∧ '\n' ∉ a'.toList)
    (h : Each (Renamed d) E (Text.lines s) (Text.lines s')) :
    Each (Renamed d) (D + E) (Text.lines (a ++ s)) (Text.lines (a' ++ s')) := by
  generalize hs : Text.lines s = ls, hs' : Text.lines s' = ls' at h
  cases h with
  | nil => exact absurd hs (lines_ne_nil s)
  | cons hl hls =>
    rw [lines_append hfeed.1 hs, lines_append hfeed.2 hs', ← add_assoc]
    exact hls.cons (hl.cons ha)

lemma lines (h : Renamed d D s s') : Each (Renamed d) D (Text.lines s) (Text.lines s') := by
  induction h with
  | nil => exact .single .nil
  | cons ha _ ih =>
    cases ha with
    | char c =>
      by_cases hc : c = '\n'
      · have hfeed (s : String) : Text.lines (String.singleton '\n' ++ s) = "" :: Text.lines s := by
          simp [Text.lines, Text.split, Text.splitAt]
        rw [hc, hfeed, hfeed]
        exact ih.cons .nil
      · exact lines_cons (.char c) (by simpa using Ne.symm hc) ih
    | use i hc =>
      refine lines_cons (.use i hc) ?_ ih
      rcases hc with rfl | rfl <;> simp [newline_notMem_elementName]
    | creation i =>
      exact lines_cons (.creation i) (by simp [creation, newline_notMem_elementName]) ih

lemma indent (level : ℕ) (h : Renamed d D s s') :
    Renamed d D (Text.indent level s) (Text.indent level s') := by
  refine Each.unlines (h.lines.map fun hs => ?_)
  rcases hs.isEmpty with ⟨rfl, rfl, rfl⟩ | hne
  · exact .nil
  · simpa [hne] using hs.before _

end Renamed

end UiScript.Script
