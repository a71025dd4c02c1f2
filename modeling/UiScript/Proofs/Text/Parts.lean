import Mathlib.Data.List.Basic
import Mathlib.Tactic.Common
import UiScript.Text.Lines

/-!
# Parts of a text

A text is split at every occurrence of a character. The parts with the character put between them
give the text again, and texts with the character between them are split into the parts of both.
-/

namespace UiScript.Text

variable {sep c : Char} {cs part : List Char} {parts : List (List Char)}

lemma splitAt_eq_cons (sep : Char) (cs : List Char) :
    ∃ part parts, splitAt sep cs = part :: parts ∧ part <+: cs := by
  induction cs with
  | nil => exact ⟨[], [], rfl, List.prefix_rfl⟩
  | cons c cs ih =>
    obtain ⟨part, parts, hsplit, hpart⟩ := ih
    rw [splitAt]
    split_ifs
    · exact ⟨[], _, rfl, List.nil_prefix⟩
    · rw [hsplit]
      exact ⟨c :: part, parts, rfl, List.cons_prefix_cons.mpr ⟨rfl, hpart⟩⟩

lemma splitAt_cons_sep (sep : Char) (cs : List Char) :
    splitAt sep (sep :: cs) = [] :: splitAt sep cs := by
  rw [splitAt, if_pos (by simp)]

/-- The parts of a text without its first character, if that does not separate them. -/
lemma splitAt_cons_of_ne (h : c ≠ sep) (hcs : splitAt sep cs = part :: parts) :
    splitAt sep (c :: cs) = (c :: part) :: parts := by
  rw [splitAt, if_neg (by simpa using h), hcs]

lemma splitAt_append_of_notMem {as : List Char} (h : sep ∉ as)
    (hcs : splitAt sep cs = part :: parts) : splitAt sep (as ++ cs) = (as ++ part) :: parts := by
  induction as with
  | nil => exact hcs
  | cons a as ih =>
    obtain ⟨ha, has⟩ := not_or.mp (mt List.mem_cons.mpr h)
    exact splitAt_cons_of_ne (Ne.symm ha) (ih has)

lemma splitAt_of_notMem (h : sep ∉ cs) : splitAt sep cs = [cs] := by
  have hsplit : splitAt sep [] = [] :: [] := rfl
  simpa using splitAt_append_of_notMem h hsplit

/-- Texts with a separator between them have the parts of both. -/
lemma splitAt_append_sep (as bs : List Char) :
    splitAt sep (as ++ sep :: bs) = splitAt sep as ++ splitAt sep bs := by
  induction as with
  | nil => exact splitAt_cons_sep sep bs
  | cons a as ih =>
    obtain ⟨part, parts, hsplit, -⟩ := splitAt_eq_cons sep as
    rw [hsplit, List.cons_append] at ih
    by_cases ha : a = sep
    · rw [ha, List.cons_append, splitAt_cons_sep, splitAt_cons_sep, ih, hsplit]
      rfl
    · rw [List.cons_append, splitAt_cons_of_ne ha ih, splitAt_cons_of_ne ha hsplit,
        List.cons_append]

lemma intercalate_splitAt (sep : Char) (cs : List Char) :
    [sep].intercalate (splitAt sep cs) = cs := by
  induction cs with
  | nil => rfl
  | cons c cs ih =>
    obtain ⟨part, parts, hsplit, -⟩ := splitAt_eq_cons sep cs
    by_cases hc : c = sep
    · rw [hc, splitAt_cons_sep, hsplit, List.intercalate_cons_cons, ← hsplit, ih]
      rfl
    · rw [splitAt_cons_of_ne hc hsplit, ← ih, hsplit]
      cases parts <;> simp [List.intercalate_cons_cons]

end UiScript.Text
