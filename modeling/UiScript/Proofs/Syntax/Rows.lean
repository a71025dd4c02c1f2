import Mathlib.Data.List.Forall2
import UiScript.Proofs.Syntax.Simulation
import UiScript.Proofs.Token.Rows

/-!
# Readings of the same rows

Two cursors whose tokens say the same, in whatever places, correspond to the end: this is the
simulation `Simulation.sameRows`.
-/

namespace UiScript.Syntax

open Token (Kind row row_eq_iff)

variable {ts ts' : List Token} {c c' : Cursor}

/-- Tokens that say the same, one by one. -/
abbrev SameRows : List Token → List Token → Prop := List.Forall₂ fun t t' => t.row = t'.row

/-- To say the same one by one is to have the same rows. -/
lemma sameRows_iff : SameRows ts ts' ↔ ts.map row = ts'.map row := by
  rw [← List.forall₂_eq_eq_eq, List.forall₂_map_left_iff, List.forall₂_map_right_iff]

/-- The kind of the next token is seen in its row. -/
lemma SameRows.head_any (h : SameRows ts ts') (k : Kind) :
    ts.head?.any (·.kind == k) = ts'.head?.any (·.kind == k) := by
  cases h with
  | nil => rfl
  | cons ht => simp [(row_eq_iff.mp ht).1]

namespace Cursor

/-- What the tokens from the cursor on say. -/
def rows (c : Cursor) : List Token.Row := c.tokens.map row

lemma rows_eq_iff : c.rows = c'.rows ↔
      c.current.row = c'.current.row ∧ c.rest.map row = c'.rest.map row := by
  simp only [rows, tokens, List.map_cons, List.cons.injEq]

lemma rows_next (h : c.rows = c'.rows) : c.next.rows = c'.next.rows := by
  obtain ⟨t, ts⟩ := c
  obtain ⟨t', ts'⟩ := c'
  have hrest := (rows_eq_iff.mp h).2
  cases sameRows_iff.mpr hrest with
  | nil => exact h
  | cons => exact hrest

end Cursor

/-- Separators are dropped by their kind. -/
lemma dropSeparators_rows {t t' : Token} (h : t.row = t'.row) (hs : SameRows ts ts') :
    (dropSeparators t ts).1.row = (dropSeparators t' ts').1.row ∧
      (dropSeparators t ts).2.map row = (dropSeparators t' ts').2.map row := by
  induction hs generalizing t t' with
  | nil => exact ⟨h, rfl⟩
  | cons hu hus ih =>
    have hk : t.kind = t'.kind := (row_eq_iff.mp h).1
    by_cases hsep : isSeparator t.kind
    · simp only [dropSeparators, hsep, hk ▸ hsep, if_true]
      exact ih hu
    · simp only [dropSeparators, hsep, hk ▸ hsep]
      exact ⟨h, sameRows_iff.mp (.cons hu hus)⟩

lemma Cursor.rows_skip (h : c.rows = c'.rows) : c.skip.rows = c'.skip.rows := by
  obtain ⟨hc, hr⟩ := Cursor.rows_eq_iff.mp h
  exact Cursor.rows_eq_iff.mpr (dropSeparators_rows hc (sameRows_iff.mpr hr))

/-- Looking for an arrow behind parentheses sees kinds only. -/
lemma closesBeforeArrow_rows (h : ts.map row = ts'.map row)
    (d : Nat) : closesBeforeArrow d ts = closesBeforeArrow d ts' := by
  replace h := sameRows_iff.mpr h
  induction h generalizing d with
  | nil => rfl
  | cons ht hts ih =>
    unfold closesBeforeArrow
    rw [(row_eq_iff.mp ht).1, SameRows.head_any hts]
    simp only [ih]

/-- Looking for an object behind a brace sees kinds only. -/
lemma opensObject_rows (h : ts.map row = ts'.map row) :
    opensObject ts = opensObject ts' := by
  replace h := sameRows_iff.mpr h
  induction h with
  | nil => rfl
  | @cons t t' _ _ ht hts ih =>
    have hk : t.kind = t'.kind := (row_eq_iff.mp ht).1
    by_cases hnl : t.kind = .newline
    · simpa [opensObject, List.dropWhile_cons, hnl, hk ▸ hnl] using ih
    · simp [opensObject, hk ▸ hnl, SameRows.head_any hts, hk]

/-- Readings from cursors whose tokens say the same. -/
def Simulation.sameRows : Simulation where
  near c c' := c.rows = c'.rows
  past c c' := c.rows = c'.rows
  whole := True
  current_of_near h := Or.inl (Cursor.rows_eq_iff.mp h).1
  length_of_near h := by
    have := congrArg List.length (Cursor.rows_eq_iff.mp h).2
    simp only [List.length_map] at this
    omega
  near_next h _ _ := Cursor.rows_next h
  rest_of_near {c c'} h _ _ := by
    rw [← List.map_eq_nil_iff (f := row), (Cursor.rows_eq_iff.mp h).2, List.map_eq_nil_iff]
  near_skip h := Or.inl (Cursor.rows_skip h)
  past_terminate {c c'} h := by
    have hk : c.current.kind = c'.current.kind :=
      (row_eq_iff.mp (Cursor.rows_eq_iff.mp h).1).1
    unfold Cursor.terminate
    rw [hk]
    split_ifs
    · exact Cursor.rows_next h
    · exact h
  past_of_near := id
  near_of_past := Or.inl
  near_fragments _ _ h := h
  arrow_of_near h _ := closesBeforeArrow_rows h 0
  object_of_near h _ := opensObject_rows (Cursor.rows_eq_iff.mp h).2

end UiScript.Syntax
