import Mathlib.Data.List.Chain
import UiScript.Proofs.Script.Printing

/-!
# Precedence

A formula is a tree of names, numbers and operators. It is written with the parentheses that the
table of precedences asks for and with no others, and is read as the same tree. A level whose
operators group to the left is followed through its loop: what has been read so far is the left
operand of whatever comes next.
-/

namespace UiScript.Syntax

open List

open Token (Kind Row markRow wordRow numberRow endRow)

/-! ### Formulas -/

/-- The operators in front of an operand. -/
inductive Sign where
  | not | minus

/-- The operators between two operands. -/
inductive Operator where
  | times | divided | modulo
  | plus | minus
  | less | greater | atMost | atLeast
  | equal | unequal
  | and
  | or

/-- An expression of names, numbers and operators. -/
inductive Formula where
  | identifier (name : String) (isName : Token.wordKind name = .identifier)
  | integer (value : Nat)
  | signed (sign : Sign) (operand : Formula)
  | operation (op : Operator) (left right : Formula)
  | conditional (condition consequent alternate : Formula)
  | assign (target value : Formula)
  | pipe (left right : Formula)

def Sign.mark : Sign → Symbol
  | .not => .not
  | .minus => .minus

def Operator.mark : Operator → Symbol
  | .times => .star
  | .divided => .slash
  | .modulo => .percent
  | .plus => .plus
  | .minus => .minus
  | .less => .lt
  | .greater => .gt
  | .atMost => .lte
  | .atLeast => .gte
  | .equal => .eq
  | .unequal => .neq
  | .and => .and
  | .or => .or

/-- The rows of the table between the prefix operators, at 1, and the conditional, at 8. -/
def Operator.level : Operator → Nat
  | .times | .divided | .modulo => 2
  | .plus | .minus => 3
  | .less | .greater | .atMost | .atLeast => 4
  | .equal | .unequal => 5
  | .and => 6
  | .or => 7

/-- Rows of a level where another one is asked for: looser ones stand between parentheses. -/
def enclose (own wanted : Nat) (rows : List Row) : List Row :=
  if own ≤ wanted then rows else [markRow .leftParen] ++ rows ++ [markRow .rightParen]

namespace Formula

def node : Formula → Node
  | .identifier name _ => .identifier none name
  | .integer value => .number none (.number (.int value))
  | .signed sign operand => .unary none sign.mark.spelling operand.node
  | .operation op left right => .binary none op.mark.spelling left.node right.node
  | .conditional condition consequent alternate =>
    .conditional none condition.node consequent.node alternate.node
  | .assign target value => .assign none target.node value.node
  | .pipe left right => .pipe none left.node right.node

/-- The tokens of a formula where an operand of a level is asked for. An operator that groups to the
left asks for its own level on the left and for the next tighter one on the right; an assignment
groups to the right, but has a target as tight as a disjunction. -/
def render : Formula → Nat → List Row
  | .identifier name _, _ => [wordRow name]
  | .integer value, _ => [numberRow value.repr]
  | .signed sign operand, i => enclose 1 i ([markRow sign.mark] ++ operand.render 1)
  | .operation op left right, i =>
    enclose op.level i (left.render op.level ++ [markRow op.mark] ++ right.render (op.level - 1))
  | .conditional condition consequent alternate, i =>
    enclose 8 i (condition.render 7 ++ [markRow .question] ++ consequent.render 9 ++
      [markRow .colon] ++ alternate.render 9)
  | .assign target value, i => enclose 9 i (target.render 7 ++ [markRow .assign] ++ value.render 9)
  | .pipe left right, i => enclose 10 i (left.render 10 ++ [markRow .pipe] ++ right.render 9)

def integers : Formula → List Nat
  | .identifier .. => []
  | .integer value => [value]
  | .signed _ operand => operand.integers
  | .operation _ left right | .assign left right | .pipe left right =>
    left.integers ++ right.integers
  | .conditional condition consequent alternate =>
    condition.integers ++ consequent.integers ++ alternate.integers

end Formula

/-- No angle bracket stands in front of what could be the name of a tag. -/
def Untagged (rows : List Row) : Prop :=
  rows.IsChain fun r s => r.kind = .symbol .lt → isTagName s.kind s.value = false

variable {own wanted : Nat}

namespace Untagged

variable {rows rows' : List Row} {r : Row}

lemma left (h : Untagged (rows ++ rows')) : Untagged rows :=
  List.IsChain.left_of_append h

lemma right (h : Untagged (rows ++ rows')) : Untagged rows' :=
  List.IsChain.right_of_append h

lemma of_enclose (h : Untagged (enclose own wanted rows)) : Untagged rows := by
  unfold enclose at h
  split at h
  · exact h
  · exact h.left.right

/-- What stands behind an angle bracket does not open an element with it. -/
lemma behind (h : Untagged (rows ++ [r] ++ rows')) (hr : r.kind = .symbol .lt) {c d : Cursor}
    (hover : Over ([r] ++ rows') c d) (hne : rows' ≠ []) :
    (c.rest.head?.any fun t => isTagName t.kind t.value) = false := by
  obtain ⟨s, rows', rfl⟩ := exists_cons_of_ne_nil hne
  rw [append_assoc] at h
  have hs : isTagName s.kind s.value = false := (isChain_cons_cons.mp h.right).1 hr
  obtain ⟨-, hnext⟩ := over_cons hover
  have htokens := over_tokens hover
  obtain ⟨-, hrest⟩ := List.cons.inj htokens
  rw [hrest]
  have hrow := (over_cons hnext).1
  change isTagName c.next.current.kind c.next.current.value = false
  rw [kind_of_row hrow, value_of_row hrow, hs]

end Untagged

variable {i : Nat} {rows : List Row} {n : Node}

/-! ### Groups -/

/-- The rows are read at a level and go on at it, and their parentheses are closed. -/
structure Grouped (i : Nat) (rows : List Row) (n : Node) : Prop where
  balanced : Balanced rows
  reads : Reads i i rows n
  gathers : groupsLeft i → Gathers i rows n

namespace Grouped

variable {i : Nat} {rows rows' rows'' : List Row} {n n' n'' : Node}

lemma of_gathers (hi : groupsLeft i) (hbalanced : Balanced rows) (h : Gathers i rows n) :
    Grouped i rows n :=
  ⟨hbalanced, h.reads hi, fun _ => h⟩

lemma up (h : Grouped i rows n) (hpos : 1 ≤ i) {i' : Nat} (hi : i ≤ i') (hmax : i' ≤ 10) :
    Grouped i' rows n := by
  obtain rfl | hlt := Nat.eq_or_lt_of_le hi
  · exact h
  · exact ⟨h.balanced, h.reads.up (by omega),
      Reads.gathers (h.reads.up (by omega))⟩

lemma of_phrase (h : Phrase .chain rows n) (hpos : 1 ≤ i) (hmax : i ≤ 10) : Grouped i rows n :=
  up (i := 1) ⟨h.balanced, Opens.reads h.reads, nofun⟩ (Nat.le_refl 1) hpos hmax

/-- A group of the loosest level stands between parentheses wherever one is asked for. -/
lemma parens (h : Grouped 10 rows n) (hpos : 1 ≤ i) (hmax : i ≤ 10) :
    Grouped i ([markRow .leftParen] ++ rows ++ [markRow .rightParen]) n :=
  of_phrase ⟨starts_cons _ rfl (by decide), h.balanced.parens, opens_parens h.balanced h.reads⟩
    hpos hmax

/-- Parentheses are written exactly where the level is too loose. -/
lemma enclosed (h : Grouped i rows n) (hwanted : 1 ≤ wanted ∧ wanted ≤ 10 ∧ wanted ≠ 8)
    (hi : 1 ≤ i ∧ i ≤ 10 ∧ (own ≤ wanted → i ≤ wanted)) :
    Grouped wanted (enclose own wanted rows) n := by
  unfold enclose
  split
  case isTrue hle => exact h.up hi.1 (hi.2.2 hle) hwanted.2.1
  case isFalse => exact (h.up hi.1 hi.2.1 (Nat.le_refl 10)).parens hwanted.1 hwanted.2.1

lemma signed (sign : Sign) (h : Grouped 1 rows n) :
    Grouped 1 ([markRow sign.mark] ++ rows) (.unary none sign.mark.spelling n) := by
  have hmark : isLevel (.symbol sign.mark) ∧ isUnaryOperator (.symbol sign.mark) := by
    cases sign <;> decide
  exact ⟨(balanced_single hmark.1).append h.balanced, .signed hmark.2 h.reads, nofun⟩

lemma operation (op : Operator) (h : Grouped op.level rows n) (h' : Grouped (op.level - 1) rows' n')
    (hne : rows' ≠ []) (huntagged : Untagged (rows ++ [markRow op.mark] ++ rows')) :
    Grouped op.level (rows ++ [markRow op.mark] ++ rows') (.binary none op.mark.spelling n n') := by
  have hmark : tightness (.symbol op.mark) = op.level := by cases op <;> rfl
  have hleft : groupsLeft op.level := by cases op <;> rfl
  have hlevel : isLevel (.symbol op.mark) := by cases op <;> rfl
  have hjoin : joinAt op.level none op.mark.spelling n n' = .binary none op.mark.spelling n n' := by
    cases op <;> rfl
  rw [← hjoin]
  exact of_gathers hleft (h.balanced.joined hlevel h'.balanced)
    (.operator hmark hleft (h.gathers hleft) h'.reads fun hlt _ _ hop =>
      huntagged.behind (by rw [hlt]; rfl) hop hne)

lemma pipe (h : Grouped 10 rows n) (h' : Grouped 9 rows' n') :
    Grouped 10 (rows ++ [markRow .pipe] ++ rows') (.pipe none n n') := by
  have hgathers : Gathers 10 (rows ++ [markRow .pipe] ++ rows')
      (joinAt 10 none Symbol.pipe.spelling n n') :=
    .operator rfl rfl (h.gathers rfl) h'.reads nofun
  exact of_gathers rfl (h.balanced.joined rfl h'.balanced) hgathers

lemma conditional (h : Grouped 7 rows n) (h' : Grouped 9 rows' n') (h'' : Grouped 9 rows'' n'') :
    Grouped 9 (rows ++ [markRow .question] ++ rows' ++ [markRow .colon] ++ rows'')
      (.conditional none n n' n'') :=
  ⟨(h.balanced.joined rfl h'.balanced).joined rfl h''.balanced,
    .conditional (by decide) (by decide) h.reads h'.reads h''.reads, nofun⟩

lemma assign (h : Grouped 7 rows n) (h' : Grouped 9 rows' n') :
    Grouped 9 (rows ++ [markRow .assign] ++ rows') (.assign none n n') :=
  ⟨h.balanced.joined rfl h'.balanced, .assign h.reads h'.reads, nofun⟩

end Grouped

/-! ### Formulas as they are read -/

lemma enclose_ne_nil (h : rows ≠ []) : enclose own wanted rows ≠ [] := by
  unfold enclose
  split
  · exact h
  · simp

lemma Formula.render_ne_nil (e : Formula) (i : Nat) : e.render i ≠ [] := by
  cases e with
  | identifier | integer => exact cons_ne_nil _ _
  | _ => exact enclose_ne_nil (by simp)

/-- A formula is a group of every level but that of the conditional, which no operator asks for. -/
lemma Formula.grouped (e : Formula) (hintegers : ∀ n ∈ e.integers, n.repr.length ≤ maxIntegerDigits)
    (hi : 1 ≤ i ∧ i ≤ 10 ∧ i ≠ 8) (huntagged : Untagged (e.render i)) :
    Grouped i (e.render i) e.node := by
  induction e generalizing i with
  | identifier name isName => exact .of_phrase (phrase_identifier isName) hi.1 hi.2.1
  | integer value =>
    have hread := Numeral.readNumber_repr (hintegers value (mem_singleton_self value))
    exact .of_phrase (phrase_number hread) hi.1 hi.2.1
  | signed sign operand ih =>
    have hrows : Untagged ([markRow sign.mark] ++ operand.render 1) := huntagged.of_enclose
    exact ((ih hintegers (by decide) hrows.right).signed sign).enclosed hi (by omega)
  | operation op left right ihleft ihright =>
    obtain ⟨hints, hints'⟩ := forall_mem_append.mp hintegers
    have hop : 2 ≤ op.level ∧ op.level ≤ 7 := by cases op <;> decide
    have hrows : Untagged
        (left.render op.level ++ [markRow op.mark] ++ right.render (op.level - 1)) :=
      huntagged.of_enclose
    have hleft := ihleft hints (by omega) hrows.left.left
    have hright := ihright hints' (by omega) hrows.right
    exact (hleft.operation op hright (right.render_ne_nil _) hrows).enclosed hi (by omega)
  | conditional condition consequent alternate ih ih' ih'' =>
    obtain ⟨hints, hints''⟩ := forall_mem_append.mp hintegers
    obtain ⟨hints, hints'⟩ := forall_mem_append.mp hints
    have hrows : Untagged (condition.render 7 ++ [markRow .question] ++ consequent.render 9 ++
        [markRow .colon] ++ alternate.render 9) := huntagged.of_enclose
    have hcondition := ih hints (by decide) hrows.left.left.left.left
    have hconsequent := ih' hints' (by decide) hrows.left.left.right
    have halternate := ih'' hints'' (by decide) hrows.right
    exact (hcondition.conditional hconsequent halternate).enclosed hi (by omega)
  | assign target value ihtarget ihvalue =>
    obtain ⟨hints, hints'⟩ := forall_mem_append.mp hintegers
    have hrows : Untagged (target.render 7 ++ [markRow .assign] ++ value.render 9) :=
      huntagged.of_enclose
    have htarget := ihtarget hints (by decide) hrows.left.left
    have hvalue := ihvalue hints' (by decide) hrows.right
    exact (htarget.assign hvalue).enclosed hi (by omega)
  | pipe left right ihleft ihright =>
    obtain ⟨hints, hints'⟩ := forall_mem_append.mp hintegers
    have hrows : Untagged (left.render 10 ++ [markRow .pipe] ++ right.render 9) :=
      huntagged.of_enclose
    have hleft := ihleft hints (by decide) hrows.left.left
    have hright := ihright hints' (by decide) hrows.right
    exact (hleft.pipe hright).enclosed hi (by omega)

/-- A formula that is written with the parentheses of the table is read as that formula. -/
theorem ofTokens_formula (e : Formula)
    (hintegers : ∀ n ∈ e.integers, n.repr.length ≤ maxIntegerDigits)
    (huntagged : Untagged (e.render 10)) {ts : List Token}
    (hts : ts.map Token.row =
      [wordRow "let", wordRow "_", markRow .assign] ++ e.render 10 ++ [endRow]) (file : String) :
    ∃ p place value, Program.ofTokens ts file = .ok p ∧
      p.body = [.binding place "_" false none value] ∧ value.unplaced = e.node :=
  ofTokens_binding (e.grouped hintegers (by decide) huntagged).reads
    (by decide) hts file

/-- Every row of the table at once: one operator of each level, grouped against the table on one
side and along it on the other. -/
theorem ofTokens_formula_table :
    let a : Formula := .identifier "a" rfl
    let b : Formula := .identifier "b" rfl
    let e : Formula := .pipe (.pipe a (.assign (.assign a b) (.assign (.conditional a b a)
      (.conditional (.operation .or a (.operation .or a b)) (.assign a b) (.pipe a b)))))
      (.operation .less (.operation .less (.integer 10) (.signed .minus (.signed .not a)))
        (.operation .times (.operation .plus a b) (.signed .minus (.operation .times a b))))
    let rows := [wordRow "let", wordRow "_", markRow .assign] ++ e.render 10 ++ [endRow]
    let ts := rows.map fun r => (⟨r.kind, r.value, ⟨1, 1, ""⟩, r.template⟩ : Token)
    (∀ n ∈ e.integers, n.repr.length ≤ maxIntegerDigits) ∧ Untagged (e.render 10) ∧
      ∃ p place value, Program.ofTokens ts "" = .ok p ∧
        p.body = [.binding place "_" false none value] ∧ value.unplaced = e.node := by
  intro a b e rows ts
  have hintegers : ∀ n ∈ e.integers, n.repr.length ≤ maxIntegerDigits := by
    intro n hn
    obtain rfl : n = 10 := List.mem_singleton.mp hn
    exact (Nat.length_repr_le_iff (by decide)).mpr (by decide +kernel)
  have huntagged : Untagged (e.render 10) := by
    unfold Untagged
    decide
  exact ⟨hintegers, huntagged, ofTokens_formula e hintegers huntagged (List.map_map ..) ""⟩

/-! ### Numbers that are too long -/

lemma primary_overlong {n : Nat} (h : maxIntegerDigits < n.repr.length) (r : Rules) {c : Cursor}
    (hc : c.current.row = numberRow n.repr) :
    primary r c = .error (.numeral (.tooManyDigits n.repr.length)) c.next := by
  have hvalue : c.current.value = n.repr := value_of_row hc
  rw [primary_run, kind_of_row hc]
  change numberLiteral c = _
  unfold numberLiteral
  rw [bind_ok (advance_run c), hvalue, Numeral.readNumber_natRepr, if_pos h]
  rfl

/-- A number with too many digits cannot be the value of a name. -/
lemma ofTokens_overlong {n : Nat} (h : maxIntegerDigits < n.repr.length) {ts : List Token}
    (hts : ts.map Token.row =
      [wordRow "let", wordRow "_", markRow .assign, numberRow n.repr] ++ [endRow])
    (file : String) :
    Program.ofTokens ts file = .error (.numeral (.tooManyDigits n.repr.length)) := by
  obtain ⟨k, c, d, hover, -, -, -, -, hfail⟩ := ofTokens_let rfl hts file
  obtain ⟨hnumber, -⟩ := over_cons hover
  have hrun := primary_overlong h (rules k) hnumber
  have hprimary : expression (rules k) c = primary (rules k) c :=
    expression_eq_primary (by rw [kind_of_row hnumber]; rfl) (by simp [hrun])
  exact hfail _ _ (hprimary.trans hrun)

/-- The first number that is too long. -/
theorem ofTokens_formula_overlong :
    let e : Formula := .integer (10 ^ maxIntegerDigits)
    let rows := [wordRow "let", wordRow "_", markRow .assign] ++ e.render 10 ++ [endRow]
    let ts := rows.map fun r => (⟨r.kind, r.value, ⟨1, 1, ""⟩, r.template⟩ : Token)
    Untagged (e.render 10) ∧ ∃ digits,
      Program.ofTokens ts "" = .error (.numeral (.tooManyDigits digits)) := by
  intro e rows ts
  have hlong : maxIntegerDigits < (10 ^ maxIntegerDigits).repr.length :=
    Nat.lt_of_not_ge fun hle => Nat.lt_irrefl _ ((Nat.length_repr_le_iff (by decide)).mp hle)
  exact ⟨List.isChain_singleton _, _, ofTokens_overlong hlong (List.map_map ..) ""⟩

end UiScript.Syntax
