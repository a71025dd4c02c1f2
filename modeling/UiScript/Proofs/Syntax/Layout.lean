import Mathlib.Algebra.GroupWithZero.Nat
import UiScript.Proofs.Syntax.Productions

/-!
# Reading a program sees no places

Programs whose tokens say the same are read alike: either both fail with the same message or both
give the same tree, apart from the places in it.
-/

namespace UiScript.Syntax

open Simulation

open Token (row tokenize_ok tokenize_error tokenize)

/-- Two outcomes of reading a program are the same apart from places. -/
def SameOutcome : Except SyntaxFault Program → Except SyntaxFault Program → Prop
  | .error e, .error e' => e.message = e'.message
  | .ok p, .ok p' => p.body.map Node.unplaced = p'.body.map Node.unplaced
  | _, _ => False

/-- The program that a finished reading gives. -/
def outcome (file : String) :
    EStateM.Result SyntaxFault Cursor (List Node) → Except SyntaxFault Program
  | .ok body _ => .ok { body, file, place := some ⟨1, 1, file⟩ }
  | .error e _ => .error e

lemma programBody_follows {S : Simulation} {r r' : Rules} (h : S.RulesFollow r r')
    (s : List Bracket) :
    S.Follows anyKind s s .inner (List.map Node.unplaced) (programBody r) (programBody r') := by
  refine .collectUntil ?_ (.inner_of_past (h.statement s))
  exact .bind_inner .skipNewlines fun _ _ _ => .test_inner (· == .endOfFile)

/-- What a token adds to the depth of nesting. -/
def rowWeight (r : Token.Row) : Nat := if r.template then r.value.length + 1 else 1

lemma nestingBound_eq (ts : List Token) :
    nestingBound ts = 2 + ((ts.map row).map rowWeight).sum := by
  induction ts with
  | nil => rfl
  | cons t ts ih =>
    have hstep : nestingBound (t :: ts) = rowWeight t.row + nestingBound ts := rfl
    rw [hstep, ih, List.map_cons, List.map_cons, List.sum_cons]
    omega

lemma length_le_nestingBound (ts : List Token) : ts.length + 2 ≤ nestingBound ts := by
  have hweight (r : Token.Row) : 1 ≤ rowWeight r := by
    unfold rowWeight
    split <;> omega
  have hsum : ts.length ≤ ((ts.map row).map rowWeight).sum := by
    induction ts with
    | nil => exact Nat.zero_le _
    | cons t =>
      simp only [List.map_cons, List.sum_cons, List.length_cons]
      have := hweight t.row
      omega
  rw [nestingBound_eq]
  omega

lemma nestingBound_rows {ts ts' : List Token} (h : ts.map row = ts'.map row) :
    nestingBound ts = nestingBound ts' := by
  rw [nestingBound_eq, nestingBound_eq, h]

lemma ofTokens_cons (t : Token) (ts : List Token) (file : String) :
    Program.ofTokens (t :: ts) file =
      outcome file (programBody (rules (nestingBound (t :: ts)))
        { current := t, rest := ts, file }) := by
  simp only [Program.ofTokens, parseTraced]
  cases programBody (rules (nestingBound (t :: ts))) { current := t, rest := ts, file } <;> rfl

/-- Two readings that agree both ways have the same outcome. Only one way is not enough: a reading
that gives up agrees with every other one. -/
private lemma sameOutcome_of_agrees {file file' : String}
    {r r' : EStateM.Result SyntaxFault Cursor (List Node)}
    (h : sameRows.Agrees .inner (List.map Node.unplaced) r r')
    (h' : sameRows.Agrees .inner (List.map Node.unplaced) r' r) :
    SameOutcome (outcome file r) (outcome file' r') := by
  cases h with
  | free hw => exact absurd trivial hw
  | lost hl => exact absurd trivial hl.2.1
  | fault hm => exact hm
  | ok hv => exact hv
  | endless =>
    cases h' with
    | endless => rfl
    | free hw => exact absurd trivial hw
    | fault hm => exact hm.symm
    | lost hl => exact absurd trivial hl.2.1

/-- Tokens that say the same make up the same program. -/
theorem ofTokens_rows {ts ts' : List Token} (h : ts.map row = ts'.map row) (file file' : String) :
    SameOutcome (Program.ofTokens ts file) (Program.ofTokens ts' file') := by
  cases ts with
  | nil =>
    obtain rfl : ts' = [] := by simpa using h.symm
    rfl
  | cons t us =>
    cases ts' with
    | nil => simp at h
    | cons =>
      rw [ofTokens_cons, ofTokens_cons, ← nestingBound_rows h]
      have hbody := programBody_follows (rules_follow sameRows _ _ (Nat.le_refl
        (nestingBound (t :: us)))) []
      exact sameOutcome_of_agrees (hbody.agrees trivial h) (hbody.agrees trivial h.symm)

/-- Sources whose tokens say the same make up the same program. -/
theorem parse_rows {source source' : String}
    (h : Token.sourceRows source = Token.sourceRows source') (file file' : String) :
    SameOutcome (Program.parse source file) (Program.parse source' file') := by
  unfold Program.parse
  cases ht : tokenize source file with
  | error =>
    cases ht' : tokenize source' file' with
    | error =>
      have hfault := (tokenize_error ht).symm.trans (h.trans (tokenize_error ht'))
      exact congrArg Token.Fault.message (Except.error.inj hfault)
    | ok => cases (tokenize_error ht).symm.trans (h.trans (tokenize_ok ht'))
  | ok =>
    cases ht' : tokenize source' file' with
    | error => cases (tokenize_ok ht).symm.trans (h.trans (tokenize_error ht'))
    | ok =>
      have hrows := (tokenize_ok ht).symm.trans (h.trans (tokenize_ok ht'))
      exact ofTokens_rows (Except.ok.inj hrows) file file'

end UiScript.Syntax
