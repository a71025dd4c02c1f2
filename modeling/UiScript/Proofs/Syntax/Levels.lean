import UiScript.Proofs.Syntax.Cursor
import UiScript.Proofs.Token.Rows

/-!
# Levels of expressions

The productions of expressions form a ladder. Each token that can go on with an expression does so
at one rung of it, its tightness; in front of a looser token a production ends where the one below
it ended.
-/

namespace UiScript.Syntax

open Token (Kind Row markRow)

/-! ### Stretches of tokens -/

def Over (rows : List Row) (c d : Cursor) : Prop :=
  ∃ us : List Token, us.map Token.row = rows ∧ c.tokens = us ++ d.tokens ∧ c.file = d.file ∧
    c.fragments = d.fragments

variable {c d : Cursor} {rows : List Row} {i : Nat} {mark : Symbol} {r : Rules} {n : Node}

lemma over_nil (h : Over [] c d) : c = d := by
  obtain ⟨us, hus, htokens, hfile, hfragments⟩ := h
  obtain rfl := List.map_eq_nil_iff.mp hus
  obtain ⟨hcurrent, hrest⟩ := List.cons.inj htokens
  cases c
  cases d
  simp_all

lemma over_cons {r : Row} (h : Over (r :: rows) c d) : c.current.row = r ∧ Over rows c.next d := by
  obtain ⟨us, hus, htokens, hfile, hfragments⟩ := h
  obtain ⟨u, us, rfl, hu, hus⟩ := List.map_eq_cons_iff.mp hus
  obtain ⟨hcurrent, hrest⟩ := List.cons.inj htokens
  have hne : c.rest ≠ [] := by
    rw [hrest]
    simp [Cursor.tokens]
  have hnext := Cursor.tokens_eq_cons_next hne
  refine ⟨by rw [hcurrent, hu], us, hus, ?_, ?_, ?_⟩
  · rw [hnext] at htokens
    exact (List.cons.inj htokens).2
  · rw [← hfile]
    cases hr : c.rest <;> simp [Cursor.next, hr]
  · rw [← hfragments]
    cases hr : c.rest <;> simp [Cursor.next, hr]

lemma over_append {rows' : List Row} {e : Cursor} (h : Over (rows ++ rows') c e) :
    ∃ d, Over rows c d ∧ Over rows' d e := by
  obtain ⟨us, hus, htokens, hfile, hfragments⟩ := h
  obtain ⟨us, us', rfl, rfl, rfl⟩ := List.map_eq_append_iff.mp hus
  obtain ⟨t, ts, hts⟩ := List.exists_cons_of_ne_nil (l := us' ++ e.tokens) (by simp [Cursor.tokens])
  refine ⟨{ c with current := t, rest := ts }, ⟨us, rfl, ?_, rfl, rfl⟩, us', rfl, hts.symm, hfile,
    hfragments⟩
  rw [htokens, List.append_assoc, hts]
  rfl

lemma over_length (h : Over rows c d) : c.rest.length = rows.length + d.rest.length := by
  obtain ⟨us, rfl, htokens, -⟩ := h
  have := congrArg List.length htokens
  simp only [Cursor.tokens, List.length_cons, List.length_append] at this
  rw [List.length_map]
  omega

/-! ### The ladder -/

/-- The level at which a token goes on with an expression that stands before it, or 11. -/
def tightness : Kind → Nat
  | .symbol .arrow => 0
  | .symbol .leftParen | .symbol .dot | .symbol .leftBracket => 1
  | .symbol .star | .symbol .slash | .symbol .percent => 2
  | .symbol .plus | .symbol .minus => 3
  | .symbol .lt | .symbol .gt | .symbol .lte | .symbol .gte => 4
  | .symbol .eq | .symbol .neq => 5
  | .symbol .and => 6
  | .symbol .or => 7
  | .symbol .question => 8
  | .symbol .assign => 9
  | .symbol .pipe => 10
  | _ => 11

def level (r : Rules) : Nat → Parse Node
  | 0 => primary r
  | 1 => unary r
  | 2 => multiplicative r
  | 3 => additive r
  | 4 => comparison r
  | 5 => equality r
  | 6 => conjunction r
  | 7 => disjunction r
  | 8 => conditional r
  | 9 => assignment r
  | _ => expression r

lemma checkAny_run (marks : List Symbol) (c : Cursor) :
    checkAny marks c =
      .ok (match c.current.kind with | .symbol mark => marks.contains mark | _ => false) c := by
  unfold checkAny
  rw [bind_ok (peek_run c)]
  cases c.current.kind <;> rfl

/-- A looser token is none of the operators of a level. -/
lemma checkAny_loose {marks : List Symbol} (hmarks : ∀ m ∈ marks, tightness (.symbol m) = i)
    (h : i < tightness c.current.kind) : checkAny marks c = .ok false c := by
  rw [checkAny_run]
  cases hk : c.current.kind with
  | symbol mark =>
    have hnot : marks.contains mark = false := by
      by_contra hin
      have := hmarks mark (by simpa using hin)
      rw [hk] at h
      omega
    simp only [hnot]
  | _ => rfl

lemma checkAny_mem {marks : List Symbol} (hmark : mark ∈ marks) (h : c.current.kind = .symbol mark)
    : checkAny marks c = .ok true c := by
  rw [checkAny_run, h]
  simp [hmark]

lemma check_loose (mark : Symbol) (h : tightness (.symbol mark) < tightness c.current.kind) :
    check (.symbol mark) c = .ok false c := by
  have hne : c.current.kind ≠ .symbol mark := by
    intro hk
    rw [hk] at h
    omega
  rw [check_run]
  simp [hne]

lemma accept_loose (mark : Symbol) (h : tightness (.symbol mark) < tightness c.current.kind) :
    accept (.symbol mark) c = .ok false c := by
  rw [accept_run, if_neg]
  intro hk
  rw [hk] at h
  omega

lemma isComparison_loose (h : 4 < tightness c.current.kind) : isComparison c = .ok false c := by
  unfold isComparison
  rw [bind_ok (check_loose .lt h)]
  exact checkAny_loose (by decide) h

lemma isComparison_mem (hmark : mark ∈ [Symbol.gt, .lte, .gte]) (h : c.current.kind = .symbol mark)
    : isComparison c = .ok true c := by
  have hlt : check (.symbol .lt) c = .ok false c := by
    rw [check_run, h]
    simp only [List.mem_cons, List.not_mem_nil, or_false] at hmark
    rcases hmark with rfl | rfl | rfl <;> rfl
  unfold isComparison
  rw [bind_ok hlt]
  exact checkAny_mem hmark h

lemma conditional_stop (h : disjunction r c = .ok n d) (hd : 8 < tightness d.current.kind) :
    conditional r c = .ok n d := by
  unfold conditional
  rw [bind_ok h, bind_ok (here_run d), bind_ok (accept_loose .question hd)]
  rfl

lemma assignment_stop (h : conditional r c = .ok n d) (hd : 9 < tightness d.current.kind) :
    assignment r c = .ok n d := by
  unfold assignment
  rw [bind_ok h, bind_ok (here_run d), bind_ok (accept_loose .assign hd)]
  rfl

/-! ### Levels that group to the left -/

def groupsLeft (i : Nat) : Bool := (2 ≤ i && i ≤ 7) || i == 10

def operatorAt : Nat → Parse Bool
  | 2 => checkAny [.star, .slash, .percent]
  | 3 => checkAny [.plus, .minus]
  | 4 => isComparison
  | 5 => checkAny [.eq, .neq]
  | 6 => check (.symbol .and)
  | 7 => check (.symbol .or)
  | _ => checkAny [.pipe]

/-- What the operators of a level make of their operands. -/
def joinAt : Nat → Option Place → String → Node → Node → Node
  | 6, place, _, left, right => .binary place Symbol.and.spelling left right
  | 7, place, _, left, right => .binary place Symbol.or.spelling left right
  | 10, place, _, left, right => .pipe place left right
  | _, place, op, left, right => .binary place op left right

abbrev stepAt (r : Rules) (i : Nat) : Node → Parse (Node ⊕ Node) :=
  operatorStep (operatorAt i) (level r (i - 1)) fun place => joinAt i place

lemma groupsLeft_cases (h : groupsLeft i) :
    i = 2 ∨ i = 3 ∨ i = 4 ∨ i = 5 ∨ i = 6 ∨ i = 7 ∨ i = 10 := by
  simp only [groupsLeft, Bool.or_eq_true, Bool.and_eq_true, decide_eq_true_eq, beq_iff_eq] at h
  omega

lemma level_eq_iterate (r : Rules) (h : groupsLeft i) :
    level r i = level r (i - 1) >>= iterate (stepAt r i) := by
  obtain rfl | rfl | rfl | rfl | rfl | rfl | rfl := groupsLeft_cases h <;> rfl

lemma operatorAt_loose (h : groupsLeft i) (hc : i < tightness c.current.kind) :
    operatorAt i c = .ok false c := by
  obtain rfl | rfl | rfl | rfl | rfl | rfl | rfl := groupsLeft_cases h
  · exact checkAny_loose (by decide) hc
  · exact checkAny_loose (by decide) hc
  · exact isComparison_loose hc
  · exact checkAny_loose (by decide) hc
  · exact check_loose .and hc
  · exact check_loose .or hc
  · exact checkAny_loose (by decide) hc

lemma isComparison_lt (h : c.current.kind = .symbol .lt)
    (hnext : (c.rest.head?.any fun t => isTagName t.kind t.value) = false) :
    isComparison c = .ok true c := by
  have hcheck : check (.symbol .lt) c = .ok true c := by simp [h]
  unfold isComparison
  rw [bind_ok hcheck, if_pos rfl, bind_ok (atElement_run c), hnext, Bool.and_false]
  rfl

/-- An operator is one of its level, unless it opens an element. -/
lemma operatorAt_mark (hmark : tightness (.symbol mark) = i) (h : groupsLeft i)
    (hkind : c.current.kind = .symbol mark)
    (hnext : mark = .lt → (c.rest.head?.any fun t => isTagName t.kind t.value) = false) :
    operatorAt i c = .ok true c := by
  have hcheck : check (.symbol mark) c = .ok true c := by simp [hkind]
  subst hmark
  cases mark <;> first
    | exact absurd h (by decide)
    | exact checkAny_mem (by decide) hkind
    | exact isComparison_mem (by decide) hkind
    | exact isComparison_lt hkind (hnext rfl)
    | exact hcheck

lemma stepAt_stop (h : groupsLeft i) (hd : i < tightness d.current.kind) (left : Node) :
    stepAt r i left d = .ok (.inr left) d := by
  unfold stepAt operatorStep
  rw [bind_ok (operatorAt_loose h hd)]
  rfl

/-- Above the first level all but two group to the left. -/
lemma level_cases (hpos : 1 ≤ i) (hlt : i < 10) : groupsLeft (i + 1) ∨ i = 7 ∨ i = 8 := by
  simp only [groupsLeft, Bool.or_eq_true, Bool.and_eq_true, decide_eq_true_eq, beq_iff_eq]
  omega

/-- In front of a looser token a level ends where the one below it ended. -/
lemma level_stop (hpos : 1 ≤ i) (hlt : i < 10) (h : level r i c = .ok n d)
    (hd : i + 1 < tightness d.current.kind) : level r (i + 1) c = .ok n d := by
  obtain hi | rfl | rfl := level_cases hpos hlt
  · rw [level_eq_iterate r hi, Nat.add_sub_cancel, bind_ok h, iterate, bind_ok (get_run d), loop,
      bind_ok (stepAt_stop hi hd n)]
    rfl
  · exact conditional_stop h hd
  · exact assignment_stop h hd

lemma level_error {f : SyntaxFault} (hpos : 1 ≤ i) (hlt : i < 10) (h : level r i c = .error f d) :
    level r (i + 1) c = .error f d := by
  obtain hi | rfl | rfl := level_cases hpos hlt
  · rw [level_eq_iterate r hi, Nat.add_sub_cancel, bind_error h]
  · exact bind_error h
  · exact bind_error h

/-- The operators between two operands, but for the one that may open markup. -/
def isInfix (mark : Symbol) : Bool :=
  mark != .lt && 2 ≤ tightness (.symbol mark) && tightness (.symbol mark) ≤ 7

end UiScript.Syntax
