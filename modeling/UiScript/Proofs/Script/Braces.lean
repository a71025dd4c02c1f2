import UiScript.Proofs.Page
import UiScript.Proofs.Script.Steps

/-!
# Braces at the start of code

Where a statement or the body of an arrow function starts with a brace, a block is read. The code of
an expression starts with one just if its left spine, down to the first operand in parentheses, ends
in an object. An object that is the whole body of an arrow function is put in parentheses, and
nothing else is.
-/

namespace UiScript.Script

open Syntax (Grammatical)

/-! ### The first character -/

def StartsWithBrace (s : String) : Prop := s.toList.head? = some '\x7b'

instance (s : String) : Decidable (StartsWithBrace s) := inferInstanceAs (Decidable (_ = _))

attribute [local simp] StartsWithBrace

/-- What stands behind a text does not matter unless it starts with a brace itself. -/
lemma startsWithBrace_append {s t : String} (ht : ¬ StartsWithBrace t) :
    StartsWithBrace (s ++ t) ↔ StartsWithBrace s := by
  unfold StartsWithBrace at *
  rw [String.toList_append]
  cases s.toList with
  | nil => simpa using ht
  | cons => rfl

lemma not_startsWithBrace_word {name : String} (h : Token.isWord name) :
    ¬ StartsWithBrace name := by
  obtain ⟨c, cs, hname, hc, -⟩ := Token.isWord_iff h
  rw [StartsWithBrace, hname]
  rintro ⟨⟩
  exact absurd hc (by decide)

/-! ### The left spine -/

/-- The left spine of an expression ends in an object, with no parentheses on the way. -/
def leadsWithObject : Node → Bool
  | .object .. => true
  | .call _ callee _ => !isLooseCallee callee && leadsWithObject callee
  | .member _ obj _ _ _ => !isLooseObject obj && leadsWithObject obj
  | .pipe _ _ right => !isLooseCallee right && leadsWithObject right
  | .assign _ target _ => leadsWithObject target
  | _ => false

/-- The code of an expression starts with a brace just if its left spine ends in an object. -/
def Leads (n : Node) : Prop :=
  ∀ code, Gives (lower n).expr code → (StartsWithBrace code ↔ leadsWithObject n)

variable {n : Node} {code : String} {p : Option Place}

lemma Leads.of_not (hn : leadsWithObject n = false)
    (h : ∀ code, Gives (lower n).expr code → ¬ StartsWithBrace code) : Leads n := by
  intro code hcode
  rw [hn]
  exact iff_of_false (h code hcode) Bool.false_ne_true

lemma Leads.of_pure {c : String} (hn : leadsWithObject n = false) (hlower : (lower n).expr = pure c)
    (hc : ¬ StartsWithBrace c) : Leads n := by
  refine .of_not hn fun code hcode => ?_
  rw [hlower] at hcode
  rwa [hcode.of_pure]

lemma Leads.operand {isLoose : Node → Bool} (h : Leads n)
    (hcode : Gives (Script.operand isLoose (n, lower n)) code) :
    StartsWithBrace code ↔ !isLoose n && leadsWithObject n := by
  obtain ⟨inner, hinner, rfl⟩ := hcode.of_bindPure
  dsimp only
  cases isLoose n with
  | true => simp
  | false => exact h inner hinner

/-- Code behind the operand that an expression starts with. -/
lemma Leads.of_operand (isLoose : Node → Bool) {k : Node} (h : Leads k)
    (hn : leadsWithObject n = (!isLoose k && leadsWithObject k))
    (hcode : ∀ code, Gives (lower n).expr code → ∃ head rest, code = head ++ rest ∧
      Gives (Script.operand isLoose (k, lower k)) head ∧ ¬ StartsWithBrace rest) : Leads n := by
  intro code hgives
  obtain ⟨head, rest, rfl, hhead, hrest⟩ := hcode code hgives
  rw [startsWithBrace_append hrest, h.operand hhead, hn]

lemma Leads.call {callee : Node} {ns : List Node} (h : Leads callee) :
    Leads (.call p callee ns) := by
  refine .of_operand isLooseCallee h rfl fun code hcode => ?_
  rw [lower, lowerWith] at hcode
  obtain ⟨head, hhead, hrest⟩ := Gives.of_bind hcode
  obtain ⟨g, -, hrest⟩ := hrest.of_bind
  obtain ⟨inner, -, rfl⟩ := hrest.of_bindPure
  exact ⟨head, "(" ++ inner ++ ")", by simp only [String.append_assoc], hhead,
    by simp⟩

lemma Leads.member {obj : Node} {name : String} {computed : Bool}
    {index : Option Node} (h : Leads obj) : Leads (.member p obj name computed index) := by
  refine .of_operand isLooseObject h rfl fun code hcode => ?_
  rw [lower, lowerWith] at hcode
  obtain ⟨head, hhead, hrest⟩ := Gives.of_bind hcode
  split_ifs at hrest
  · obtain ⟨inner, -, rfl⟩ := hrest.of_bindPure
    exact ⟨head, "[" ++ inner ++ "]", by simp only [String.append_assoc], hhead,
      by simp⟩
  · exact ⟨head, "." ++ name, hrest.of_pure.trans (String.append_assoc ..), hhead,
      by simp⟩

lemma Leads.pipe {left right : Node} (h : Leads right) : Leads (.pipe p left right) := by
  refine .of_operand isLooseCallee h rfl fun code hcode => ?_
  rw [lower, lowerWith] at hcode
  obtain ⟨head, hhead, hrest⟩ := Gives.of_bind hcode
  obtain ⟨inner, -, rfl⟩ := hrest.of_bindPure
  exact ⟨head, "(" ++ inner ++ ")", by simp only [String.append_assoc], hhead,
    by simp⟩

lemma Leads.assign {target value : Node} (h : Leads target)
    (hname : ∀ name ∈ bareName? target, Token.isWord name) : Leads (.assign p target value) := by
  intro code hcode
  rw [lower, lowerWith] at hcode
  obtain ⟨inner, -, hrest⟩ := Gives.of_bind hcode
  have hequals : ¬ StartsWithBrace (" = " ++ inner) := by simp
  dsimp only at hrest
  split at hrest
  next name hbare =>
    obtain ⟨g, -, hrest⟩ := hrest.of_bind
    have hlead : leadsWithObject target = false := by
      cases target with
      | identifier => rfl
      | _ => cases hbare
    rw [leadsWithObject, hlead]
    refine iff_of_false ?_ Bool.false_ne_true
    split_ifs at hrest <;> rw [hrest.of_pure, String.append_assoc, startsWithBrace_append hequals]
    · simp
    · exact not_startsWithBrace_word (hname name hbare)
  next =>
    obtain ⟨head, hhead, rfl⟩ := hrest.of_bindPure
    rw [String.append_assoc, startsWithBrace_append hequals]
    exact h head hhead

lemma Leads.of_grammatical {pos : Syntax.Position} (h : Grammatical pos n)
    (hpos : pos = .expression) : Leads n := by
  induction h with
  | identifier hname =>
    exact .of_pure rfl (by rw [lower, lowerWith]; rfl) (not_startsWithBrace_word hname.1)
  | number =>
    refine .of_pure rfl (by rw [lower, lowerWith]; rfl) fun hbrace => ?_
    exact absurd (numeral_iff.mp (numeral_numericText _) _ (List.mem_of_mem_head? hbrace))
      (by decide)
  | string =>
    refine .of_pure rfl (by rw [lower, lowerWith]; rfl) ?_
    simp [stringLiteral_toList]
  | @boolean _ value =>
    exact .of_pure rfl (by rw [lower, lowerWith]; rfl) (by cases value <;> decide)
  | null => exact .of_pure rfl (by rw [lower, lowerWith]; rfl) (by decide)
  | template =>
    refine .of_not rfl fun code hcode => ?_
    rw [lower, lowerWith] at hcode
    obtain ⟨codes, -, rfl⟩ := hcode.of_bindPure
    simp
  | binary =>
    refine .of_not rfl fun code hcode => ?_
    rw [lower, lowerWith] at hcode
    obtain ⟨l, -, hrest⟩ := Gives.of_bind hcode
    obtain ⟨r, -, rfl⟩ := hrest.of_bindPure
    simp
  | unary hop =>
    refine .of_not rfl fun code hcode => ?_
    rw [lower, lowerWith] at hcode
    obtain ⟨inner, -, rfl⟩ := Gives.of_bindPure hcode
    obtain rfl | rfl : _ = "!" ∨ _ = "-" := by
      simpa [Syntax.unaryOperators, Symbol.spelling] using hop
    all_goals simp
  | call _ _ ih => exact .call (ih rfl)
  | member _ _ ih | index _ _ ih => exact .member (ih rfl)
  | assign ht _ ih => exact .assign (ih rfl) fun name hname => (word_of_bareName ht name hname).1
  | arrow | arrowValue =>
    refine .of_not rfl fun code hcode => ?_
    rw [lower, lowerWith] at hcode
    obtain ⟨head, -, hrest⟩ := Gives.of_bind hcode
    obtain ⟨body, -, rfl⟩ := hrest.of_bindPure
    simp
  | array =>
    refine .of_not rfl fun code hcode => ?_
    rw [lower, lowerWith] at hcode
    obtain ⟨codes, -, rfl⟩ := Gives.of_bindPure hcode
    simp
  | object =>
    intro code hcode
    rw [lower, lowerWith] at hcode
    obtain ⟨codes, -, rfl⟩ := hcode.of_bindPure
    simp [leadsWithObject, braced]
  | conditional =>
    refine .of_not rfl fun code hcode => ?_
    rw [lower, lowerWith] at hcode
    obtain ⟨c, -, hrest⟩ := Gives.of_bind hcode
    obtain ⟨yes, -, hrest⟩ := hrest.of_bind
    obtain ⟨no, -, rfl⟩ := hrest.of_bindPure
    simp
  | pipe _ _ _ ih => exact .pipe (ih rfl)
  | element =>
    refine .of_not rfl fun code hcode => ?_
    rw [lower, lowerWith] at hcode
    obtain ⟨rows, -, rfl⟩ := Gives.of_bindPure hcode
    simp
  | use hname =>
    refine .of_not rfl fun code hcode => ?_
    rw [lower, lowerWith] at hcode
    obtain ⟨codes, -, rfl⟩ := Gives.of_bindPure hcode
    rw [String.append_assoc, String.append_assoc,
      startsWithBrace_append (by simp)]
    exact not_startsWithBrace_word hname.1
  | ifElse hne | forEach hne => exact absurd hpos hne
  | _ => cases hpos

/-- A tree that can be read has code. -/
lemma exists_gives {pos : Syntax.Position} (h : Grammatical pos n) :
    (pos = .expression → ∃ code, Gives (lower n).expr code) ∧
      (pos = .statement → ∃ code, Gives (lower n).stmt code) := by
  have hfits : Fits .closing (fun _ => True) pos n :=
    fits_of_grammatical h fun m _ => ruleFits_true m
  have hsound : Generator.Sound .closing (fun _ => True) { title := "" } :=
    ⟨List.forall_mem_nil _, fun hk => absurd rfl hk, List.forall_mem_nil _⟩
  refine ⟨fun hpos => ?_, fun hpos => ?_⟩
  · obtain ⟨code, g, hrun, -⟩ := hfits.expr hpos hsound
    exact ⟨_, _, g, hrun _⟩
  · obtain ⟨code, g, hrun, -⟩ := hfits.stmt hpos hsound
    exact ⟨_, _, g, hrun _⟩

/-- The expression that an arrow function consists of. -/
def arrowValue? : Node → Option Node
  | .arrow _ _ (.value body) => some body
  | _ => none

lemma eq_arrow_of_arrowValue? {body : Node} (h : arrowValue? n = some body) :
    ∃ p params, n = .arrow p params (.value body) := by
  unfold arrowValue? at h
  split at h
  · cases h
    exact ⟨_, _, rfl⟩
  · cases h

end UiScript.Script

namespace UiScript.Program

open Script

/-- In the code of a parsed program, what follows the arrow of a function starts with a brace just
if an object is at the end of its left spine but is not the whole body, and an expression statement
starts with one just if an object is at the end of its left spine. -/
theorem braces_of_objects {source file : String} {program : Program}
    (h : Program.parse source file = .ok program) :
    (∀ p params body, .arrow p params (.value body) ∈ Node.outlineList program.body →
      (∃ code, Gives (lower (.arrow p params (.value body))).expr code) ∧
      ∀ code, Gives (lower (.arrow p params (.value body))).expr code → ∃ head inner rest,
        Gives (parameters (lowerParams params)) head ∧ Gives (lower body).expr inner ∧
        rest = (if isObject body then "(" ++ inner ++ ")" else inner) ∧
        code = "(" ++ head ++ ") => " ++ rest ∧
        (StartsWithBrace rest ↔ leadsWithObject body ∧ ¬ isObject body)) ∧
    ∀ p value, .expression p value ∈ Node.outlineList program.body →
      (∃ code, Gives (lower (.expression p value)).stmt code) ∧
      ∀ code, Gives (lower (.expression p value)).stmt code →
        (StartsWithBrace code ↔ leadsWithObject value) := by
  have hread := Syntax.grammatical_of_parse h
  refine ⟨fun p params body hmem => ?_, fun p value hmem => ?_⟩
  · obtain ⟨pos, hpos, -⟩ := Syntax.readable_of_mem_outline hread _ hmem
    cases hpos with
    | arrowValue hnames hdefaults hbody =>
      refine ⟨(exists_gives (.arrowValue hnames hdefaults hbody)).1 rfl, fun code hcode => ?_⟩
      rw [lower, lowerWith] at hcode
      obtain ⟨head, hhead, hrest⟩ := Gives.of_bind hcode
      obtain ⟨rest, hoperand, rfl⟩ := hrest.of_bindPure
      have hbrace := (Leads.of_grammatical hbody rfl).operand hoperand.of_rebinding
      obtain ⟨inner, hinner, heq⟩ := hoperand.of_rebinding.of_bindPure
      refine ⟨head, inner, rest, hhead, hinner, heq, rfl, hbrace.trans ?_⟩
      rw [Bool.and_eq_true, Bool.not_eq_true', and_comm, Bool.not_eq_true]
  · obtain ⟨pos, hpos, -⟩ := Syntax.readable_of_mem_outline hread _ hmem
    cases hpos with
    | expression he =>
      refine ⟨(exists_gives (.expression he)).2 rfl, fun code hcode => ?_⟩
      rw [lower, lowerWith] at hcode
      obtain ⟨inner, hinner, rfl⟩ := Gives.of_bindPure hcode
      rw [startsWithBrace_append (by decide)]
      exact Leads.of_grammatical he rfl inner hinner

/-- The body of an arrow function that is a member of an object starts with a brace. -/
theorem braces_of_objects_member :
    ∃ program p params body,
      Program.parse "let f = () => \x7ba: 1\x7d.b" "main" = .ok program ∧
      .arrow p params (.value body) ∈ Node.outlineList program.body ∧ ∃ head rest,
        Gives (lower (.arrow p params (.value body))).expr ("(" ++ head ++ ") => " ++ rest) ∧
        StartsWithBrace rest := by
  have hfacts : ((Program.parse "let f = () => \x7ba: 1\x7d.b" "main").toOption.map fun program =>
      (Node.outlineList program.body).any fun n =>
        (arrowValue? n).any fun body => leadsWithObject body && !isObject body) = some true := by
    decide +kernel
  obtain ⟨program, hparse, hfacts⟩ := exists_of_toOption hfacts
  obtain ⟨n, hn, hvalue⟩ := List.any_eq_true.mp hfacts
  cases hbody : arrowValue? n with
  | none =>
    rw [hbody] at hvalue
    cases hvalue
  | some body =>
    rw [hbody] at hvalue
    obtain ⟨hleads, hobject⟩ := Bool.and_eq_true_iff.mp hvalue
    obtain ⟨p, params, rfl⟩ := eq_arrow_of_arrowValue? hbody
    obtain ⟨⟨code, hcode⟩, hall⟩ := (braces_of_objects hparse).1 p params body hn
    obtain ⟨head, inner, rest, -, -, -, rfl, hbrace⟩ := hall code hcode
    exact ⟨program, p, params, body, hparse, hn, head, rest, hcode,
      hbrace.mpr ⟨hleads, by simpa using hobject⟩⟩

end UiScript.Program
