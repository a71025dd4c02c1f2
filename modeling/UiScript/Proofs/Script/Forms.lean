import Mathlib.Tactic.Common
import UiScript.Script.Lower

/-!
# Forms of lists of nodes

The forms of some nodes, entries, parameters and parts of a template are those of each of them.
-/

namespace UiScript.Script

variable (unknown : Node → Gen String)

lemma lowerListWith_eq_map (ns : List Node) :
    lowerListWith unknown ns = ns.map fun n => (n, lowerWith unknown n) := by
  induction ns with
  | nil => rfl
  | cons n ns ih => rw [lowerListWith, ih, List.map_cons]

lemma lowerEntriesWith_eq_map (es : List (Entry Node)) :
    lowerEntriesWith unknown es = es.map fun e => (e.name, lowerOptionWith unknown e.value) := by
  induction es with
  | nil => rfl
  | cons e es ih => rw [lowerEntriesWith, ih, List.map_cons]

lemma lowerParamsWith_eq_map (ps : List (Param Node)) :
    lowerParamsWith unknown ps = ps.map fun q => (q.name, lowerOptionWith unknown q.default) := by
  induction ps with
  | nil => rfl
  | cons q ps ih => rw [lowerParamsWith, ih, List.map_cons]

/-- The part of a template with its code. -/
def lowerPartWith : Part Node → Part Lowered
  | .text s => .text s
  | .hole e => .hole (e, lowerWith unknown e)

lemma lowerPartsWith_eq_map (ps : List (Part Node)) :
    lowerPartsWith unknown ps = ps.map (lowerPartWith unknown) := by
  induction ps with
  | nil => rfl
  | cons p ps ih => cases p <;> rw [lowerPartsWith, ih, List.map_cons, lowerPartWith]

/-! ### Names -/

lemma names_lowerParamsWith (ps : List (Param Node)) :
    (lowerParamsWith unknown ps).map (·.1) = ps.map (·.name) := by
  rw [lowerParamsWith_eq_map, List.map_map]
  rfl

lemma boundNames_lowerListWith (ns : List Node) :
    boundNames (lowerListWith unknown ns) = ns.filterMap blockBinding? := by
  rw [boundNames, lowerListWith_eq_map, List.filterMap_map]
  rfl

lemma stateNamesOf_lowerListWith (ns : List Node) :
    stateNamesOf (lowerListWith unknown ns) = ns.filterMap stateName? := by
  rw [stateNamesOf, lowerListWith_eq_map, List.filterMap_map]
  rfl

end UiScript.Script
