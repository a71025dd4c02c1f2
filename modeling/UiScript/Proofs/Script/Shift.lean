import Mathlib.Data.List.Infix
import Mathlib.Tactic.Common
import UiScript.Proofs.Text.Parts
import UiScript.Proofs.Token.Spelling
import UiScript.Script.Basic

/-!
# Lines moved to the right

Code is moved to the right as a whole, line by line, whatever stands in it. A piece of it that spans
several lines moves along: its first line keeps its text and every further one starts with more
blanks. Here is what becomes of such a piece, character by character.
-/

namespace UiScript.Script

open List

open Text (lines splitAt_eq_cons)

/-! ### Shifts -/

/-- How the lines of a piece of code are moved. -/
inductive Shift where
  /-- All lines but the empty ones, as in a block. -/
  | block
  /-- All lines, as those of a statement in a block among markup. -/
  | lines
  deriving DecidableEq

/-- Two blanks behind every line feed. If empty lines are to be left alone, there are none between
two line feeds. -/
def padFeeds (all : Bool) : List Char → List Char
  | [] => []
  | c :: cs =>
    if c = '\n' ∧ (all ∨ cs.head? ≠ some '\n') then '\n' :: ' ' :: ' ' :: padFeeds all cs
    else c :: padFeeds all cs

/-- Whether empty lines are moved too. -/
def Shift.all : Shift → Bool
  | .block => false
  | .lines => true

/-- What some shifts make of a piece of code that ends within a line. -/
def moved (shifts : List Shift) (cs : List Char) : List Char :=
  shifts.foldl (fun cs s => padFeeds s.all cs) cs

lemma moved_append (shifts shifts' : List Shift) (cs : List Char) :
    moved (shifts ++ shifts') cs = moved shifts' (moved shifts cs) :=
  foldl_append

variable {cs : List Char}

section PadFeeds

variable (all : Bool)

lemma padFeeds_cons (c : Char) (cs : List Char) :
    padFeeds all (c :: cs) =
      if c = '\n' ∧ (all ∨ cs.head? ≠ some '\n') then '\n' :: ' ' :: ' ' :: padFeeds all cs
      else c :: padFeeds all cs :=
  rfl

lemma head?_padFeeds (cs : List Char) : (padFeeds all cs).head? = cs.head? := by
  cases cs with
  | nil => rfl
  | cons =>
    rw [padFeeds]
    split_ifs with hc
    · rw [hc.1]
      rfl
    · rfl

/-- A piece that ended a line now ends with the blanks of the next one. -/
lemma getLast?_padFeeds (cs : List Char) : (padFeeds all cs).getLast? ≠ some '\n' := by
  induction cs with
  | nil => simp [padFeeds]
  | cons c cs ih =>
    rw [padFeeds]
    split_ifs with hc
    · rw [getLast?_cons_cons, getLast?_cons_cons]
      cases hcs : padFeeds all cs with
      | nil => decide
      | cons =>
        rw [getLast?_cons_cons, ← hcs]
        exact ih
    · cases hcs : padFeeds all cs with
      | nil =>
        have hnil : cs = [] := head?_eq_none_iff.mp (by rw [← head?_padFeeds all, hcs]; rfl)
        rintro ⟨⟩
        exact hc ⟨rfl, .inr (by simp [hnil])⟩
      | cons =>
        rw [getLast?_cons_cons, ← hcs]
        exact ih

/-- Pieces move by themselves unless an empty line arises where they meet. -/
lemma padFeeds_append {as bs : List Char} (h : as.getLast? ≠ some '\n' ∨ bs.head? ≠ some '\n') :
    padFeeds all (as ++ bs) = padFeeds all as ++ padFeeds all bs := by
  induction as with
  | nil => rfl
  | cons a as ih =>
    have hseam : a = '\n' ∧ (all ∨ (as ++ bs).head? ≠ some '\n') ↔
        a = '\n' ∧ (all ∨ as.head? ≠ some '\n') := by
      cases as with
      | nil =>
        refine and_congr_right fun ha => ?_
        have hbs : bs.head? ≠ some '\n' := h.resolve_left fun hne => hne (congrArg some ha)
        simp [hbs]
      | cons => rfl
    have hrest : as.getLast? ≠ some '\n' ∨ bs.head? ≠ some '\n' := by
      cases as with
      | nil => exact .inl (by simp)
      | cons => rwa [getLast?_cons_cons] at h
    rw [cons_append, padFeeds, padFeeds, if_congr hseam rfl rfl, ih hrest]
    split_ifs <;> rfl

/-- If empty lines are moved too, pieces always move by themselves. -/
lemma padFeeds_true_append (as bs : List Char) :
    padFeeds true (as ++ bs) = padFeeds true as ++ padFeeds true bs := by
  have hcons (c : Char) (cs : List Char) :
      padFeeds true (c :: cs) =
        (if c = '\n' then ['\n', ' ', ' '] else [c]) ++ padFeeds true cs := by
    rw [padFeeds]
    split_ifs <;> simp_all
  induction as with
  | nil => rfl
  | cons a as ih => rw [cons_append, hcons, hcons, ih, append_assoc]

lemma length_le_padFeeds (cs : List Char) : cs.length ≤ (padFeeds all cs).length := by
  induction cs with
  | nil => exact Nat.le_refl _
  | cons =>
    rw [padFeeds]
    split_ifs <;> simp only [length_cons] <;> omega

/-- The last one of some line feeds in a row is followed by blanks. -/
lemma length_lt_padFeeds (h : '\n' ∈ cs) : cs.length < (padFeeds all cs).length := by
  induction cs with
  | nil => cases h
  | cons c cs ih =>
    have hle := length_le_padFeeds all cs
    rw [padFeeds]
    split_ifs with hc
    · simp only [length_cons]
      omega
    · have hcs : '\n' ∈ cs := by
        rcases mem_cons.mp h with rfl | hcs
        · refine mem_of_mem_head? (not_not.mp fun hhead => hc ⟨rfl, .inr hhead⟩)
        · exact hcs
      have hlt := ih hcs
      simp only [length_cons]
      omega

lemma padFeeds_of_notMem (h : '\n' ∉ cs) : padFeeds all cs = cs := by
  induction cs with
  | nil => rfl
  | cons c cs ih =>
    obtain ⟨hc, hcs⟩ := not_or.mp (mt mem_cons.mpr h)
    rw [padFeeds, if_neg fun hfeed => hc hfeed.1.symm, ih hcs]

end PadFeeds

/-! ### Moved pieces -/

variable (shifts : List Shift)

lemma head?_moved (cs : List Char) : (moved shifts cs).head? = cs.head? := by
  induction shifts generalizing cs with
  | nil => rfl
  | cons s shifts ih => exact (ih _).trans (head?_padFeeds s.all cs)

lemma getLast?_moved (h : cs.getLast? ≠ some '\n') : (moved shifts cs).getLast? ≠ some '\n' := by
  induction shifts generalizing cs with
  | nil => exact h
  | cons s shifts ih => exact ih (getLast?_padFeeds s.all cs)

lemma moved_pieces {as bs : List Char} (h : as.getLast? ≠ some '\n' ∨ bs.head? ≠ some '\n') :
    moved shifts (as ++ bs) = moved shifts as ++ moved shifts bs := by
  induction shifts generalizing as bs with
  | nil => rfl
  | cons s shifts ih =>
    calc moved shifts (padFeeds s.all (as ++ bs))
      _ = moved shifts (padFeeds s.all as ++ padFeeds s.all bs) := by rw [padFeeds_append _ h]
      _ = moved shifts (padFeeds s.all as) ++ moved shifts (padFeeds s.all bs) :=
        ih (.inl (getLast?_padFeeds s.all as))

lemma length_le_moved (cs : List Char) : cs.length ≤ (moved shifts cs).length := by
  induction shifts generalizing cs with
  | nil => exact Nat.le_refl _
  | cons s shifts ih => exact (length_le_padFeeds s.all cs).trans (ih _)

lemma moved_of_notMem (h : '\n' ∉ cs) : moved shifts cs = cs := by
  induction shifts with
  | nil => rfl
  | cons => rwa [moved, foldl_cons, padFeeds_of_notMem _ h]

/-- A piece keeps its text only if nothing moves it or it is within one line. -/
lemma moved_eq_self_iff {shifts : List Shift} : moved shifts cs = cs ↔ shifts = [] ∨ '\n' ∉ cs := by
  refine ⟨fun heq => or_iff_not_imp_right.mpr fun hfeed => ?_, ?_⟩
  · cases shifts with
    | nil => rfl
    | cons s shifts =>
      have hmove := length_lt_padFeeds s.all (not_not.mp hfeed)
      have hrest := length_le_moved shifts (padFeeds s.all cs)
      have hlength := congrArg List.length heq
      rw [moved, foldl_cons, ← moved] at hlength
      omega
  · rintro (rfl | hfeed)
    · rfl
    · exact moved_of_notMem shifts hfeed

/-! ### Lines of a text -/

lemma toList_lines (s : String) :
    (lines s).map String.toList = Text.splitAt '\n' s.toList := by
  rw [lines, Text.split, map_map]
  exact (map_congr_left fun _ _ => String.toList_ofList).trans (map_id _)

lemma toList_unlines (ls : List String) :
    (Text.unlines ls).toList = ['\n'].intercalate (ls.map String.toList) :=
  String.toList_intercalate

@[simp] lemma unlines_lines (s : String) : Text.unlines (lines s) = s := by
  refine String.toList_inj.mp ?_
  rw [toList_unlines, toList_lines, Text.intercalate_splitAt]

lemma lines_ne_nil (s : String) : lines s ≠ [] := by
  obtain ⟨part, parts, hsplit, -⟩ := splitAt_eq_cons '\n' s.toList
  rw [lines, Text.split, hsplit]
  exact cons_ne_nil _ _

/-- A text without line feeds in front of the first line. -/
lemma lines_append {a : String} (ha : '\n' ∉ a.toList) {s first : String} {rest : List String}
    (h : lines s = first :: rest) : lines (a ++ s) = (a ++ first) :: rest := by
  refine (map_injective_iff.mpr fun _ _ => String.toList_inj.mp) ?_
  have hs : Text.splitAt '\n' s.toList = first.toList :: rest.map String.toList := by
    rw [← toList_lines, h, map_cons]
  rw [toList_lines, String.toList_append, Text.splitAt_append_of_notMem ha hs, map_cons,
    String.toList_append]

/-- Two blanks before every line but the first. -/
lemma splitAt_padFeeds {part : List Char} {parts : List (List Char)}
    (h : Text.splitAt '\n' cs = part :: parts) :
    Text.splitAt '\n' (padFeeds true cs) = part :: parts.map ([' ', ' '] ++ ·) := by
  induction cs generalizing part parts with
  | nil =>
    obtain ⟨rfl, rfl⟩ := List.cons.inj h
    rfl
  | cons c cs ih =>
    obtain ⟨part', parts', hsplit, -⟩ := splitAt_eq_cons '\n' cs
    have hrest := ih hsplit
    by_cases hc : c = '\n'
    · rw [Text.splitAt, if_pos (by simpa using hc), hsplit] at h
      obtain ⟨rfl, rfl⟩ := List.cons.inj h
      have hcons : padFeeds true (c :: cs) = '\n' :: ([' ', ' '] ++ padFeeds true cs) := by
        rw [padFeeds, if_pos ⟨hc, .inl rfl⟩]
        rfl
      rw [hcons, Text.splitAt, if_pos (beq_self_eq_true _),
        Text.splitAt_append_of_notMem (by decide) hrest, map_cons]
    · rw [Text.splitAt_cons_of_ne hc hsplit] at h
      obtain ⟨rfl, rfl⟩ := List.cons.inj h
      rw [padFeeds, if_neg fun hfeed => hc hfeed.1, Text.splitAt_cons_of_ne hc hrest]

lemma lines_padFeeds (s : String) :
    (lines s).map ("  " ++ ·) =
      lines ("  " ++ String.ofList (padFeeds true s.toList)) := by
  obtain ⟨part, parts, hsplit, -⟩ := splitAt_eq_cons '\n' s.toList
  refine (map_injective_iff.mpr fun _ _ => String.toList_inj.mp) ?_
  have hpad : '\n' ∉ "  ".toList := by decide
  rw [toList_lines, String.toList_append, String.toList_ofList (l := padFeeds true s.toList),
    Text.splitAt_append_of_notMem hpad (splitAt_padFeeds hsplit), map_map, lines,
    Text.split, hsplit]
  simp

/-! ### Indented text -/

/-- Two blanks before every line that is not empty, of a text that starts a line or does not. -/
def indentFrom : Bool → List Char → List Char
  | _, [] => []
  | start, c :: cs =>
    if c = '\n' then '\n' :: indentFrom true cs
    else if start then ' ' :: ' ' :: c :: indentFrom false cs
    else c :: indentFrom false cs

/-- Whether what follows a text starts a line. -/
def startsLine (start : Bool) (cs : List Char) : Bool :=
  cs.foldl (fun _ c => decide (c = '\n')) start

lemma indentFrom_append (start : Bool) (as bs : List Char) :
    indentFrom start (as ++ bs) = indentFrom start as ++ indentFrom (startsLine start as) bs := by
  induction as generalizing start with
  | nil => rfl
  | cons a as ih =>
    by_cases ha : a = '\n'
    · simp [indentFrom, startsLine, ha, ih]
    · cases start <;> simp [indentFrom, startsLine, ha, ih]

/-- Only a line that is not empty has blanks put before it. -/
lemma indentFrom_eq (start : Bool) (cs : List Char) :
    indentFrom start cs =
      (if start ∧ cs ≠ [] ∧ cs.head? ≠ some '\n' then [' ', ' '] else []) ++
        indentFrom false cs := by
  cases cs with
  | nil => simp [indentFrom]
  | cons c => by_cases hc : c = '\n' <;> cases start <;> simp [indentFrom, hc]

lemma indentFrom_eq_padFeeds (h : cs.getLast? ≠ some '\n') :
    indentFrom false cs = padFeeds false cs := by
  induction cs with
  | nil => rfl
  | cons c cs ih =>
    cases cs with
    | nil =>
      have hc : c ≠ '\n' := fun hc => h (congrArg some hc)
      simp [indentFrom, padFeeds, hc]
    | cons d =>
      rw [getLast?_cons_cons] at h
      have ih := ih h
      by_cases hc : c = '\n'
      · rw [indentFrom, if_pos hc, indentFrom_eq true, ih, padFeeds_cons false c, hc]
        by_cases hd : d = '\n' <;> simp [hd]
      · rw [indentFrom, if_neg hc, if_neg Bool.false_ne_true, ih, padFeeds_cons false c,
          if_neg fun hfeed => hc hfeed.1]

/-- A line with two blanks before it, unless it is empty. -/
def padded (line : List Char) : List Char := if line = [] then [] else ' ' :: ' ' :: line

lemma intercalate_padded {part : List Char} {parts : List (List Char)}
    (h : Text.splitAt '\n' cs = part :: parts) (start : Bool) :
    ['\n'].intercalate ((if start then padded part else part) :: parts.map padded) =
      indentFrom start cs := by
  induction cs generalizing part parts start with
  | nil =>
    obtain ⟨rfl, rfl⟩ := List.cons.inj h
    cases start <;> rfl
  | cons c cs ih =>
    obtain ⟨part', parts', hsplit, -⟩ := splitAt_eq_cons '\n' cs
    by_cases hc : c = '\n'
    · rw [Text.splitAt, if_pos (by simpa using hc), hsplit] at h
      obtain ⟨rfl, rfl⟩ := List.cons.inj h
      have hrest := ih hsplit true
      simp only [if_true] at hrest
      rw [map_cons, intercalate_cons_cons, hrest, indentFrom, if_pos hc]
      cases start <;> rfl
    · rw [Text.splitAt_cons_of_ne hc hsplit] at h
      obtain ⟨rfl, rfl⟩ := List.cons.inj h
      have hrest := ih hsplit false
      simp only [Bool.false_eq_true, if_false] at hrest
      rw [indentFrom, if_neg hc, ← hrest]
      cases start <;> cases parts' <;> simp [padded, intercalate_cons_cons]

/-- Code moved to the right by one level. -/
lemma toList_indent (s : String) : (Text.indent 1 s).toList = indentFrom true s.toList := by
  obtain ⟨part, parts, hsplit, -⟩ := splitAt_eq_cons '\n' s.toList
  have hline (line : String) :
      (if line.isEmpty then line else "  " ++ line).toList = padded line.toList := by
    rw [padded]
    split_ifs <;> simp_all
  rw [Text.indent, Text.padLines, toList_unlines, map_map, ← intercalate_padded hsplit true,
    if_pos rfl, ← map_cons (f := padded), ← hsplit, ← toList_lines, map_map]
  exact congrArg _ (map_congr_left fun line _ => hline line)

/-! ### Pieces inside code -/

/-- A piece of code that starts and ends within lines. -/
structure Solid (x : List Char) : Prop where
  ne_nil : x ≠ []
  head : x.head? ≠ some '\n'
  last : x.getLast? ≠ some '\n'

lemma solid_moved {x : List Char} (h : Solid x) (shifts : List Shift) : Solid (moved shifts x) := by
  refine ⟨fun hnil => h.ne_nil ?_, ?_, getLast?_moved shifts h.last⟩
  · have hhead := head?_moved shifts x
    rw [hnil] at hhead
    exact head?_eq_none_iff.mp hhead.symm
  · rw [head?_moved]
    exact h.head

/-- A piece of code that moves to the right is still there, but for its moved lines. -/
lemma infix_indent {x : List Char} (h : Solid x) {s : String} (hx : x <:+: s.toList) :
    moved [.block] x <:+: (Text.indent 1 s).toList := by
  obtain ⟨before, after, hs⟩ := hx
  rw [toList_indent, ← hs, indentFrom_append, indentFrom_append, indentFrom_eq _ x,
    indentFrom_eq_padFeeds h.last]
  refine ⟨indentFrom true before ++ if startsLine true before ∧ x ≠ [] ∧ x.head? ≠ some '\n' then
    [' ', ' '] else [], indentFrom (startsLine true (before ++ x)) after, ?_⟩
  rw [← append_assoc (indentFrom true before)]
  rfl

lemma infix_intercalate (sep : String) {ss ts : List String} (h : ss <:+: ts) (hne : ss ≠ []) :
    (String.intercalate sep ss).toList <:+: (String.intercalate sep ts).toList := by
  obtain ⟨before, after, rfl⟩ := h
  have hfront : (String.intercalate sep ss).toList <:+:
      (String.intercalate sep (before ++ ss)).toList := by
    cases before with
    | nil => exact infix_rfl
    | cons =>
      rw [String.intercalate_append_of_ne_nil (cons_ne_nil _ _) hne, String.toList_append]
      exact (suffix_append _ _).isInfix
  refine hfront.trans ?_
  cases after with
  | nil => rw [append_nil]
  | cons =>
    rw [String.intercalate_append_of_ne_nil (by simp [hne]) (cons_ne_nil _ _),
      String.append_assoc, String.toList_append]
    exact (prefix_append _ _).isInfix

end UiScript.Script
