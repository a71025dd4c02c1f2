import UiScript.Proofs.Syntax.Phrases
import UiScript.Proofs.Syntax.Sequence
import UiScript.Proofs.Token.Spelling
import UiScript.Script.Lower

/-!
# Reading back what was written

Parentheses are written where an operand would otherwise be read in another way. So the code of an
expression is read as the same expression, apart from pipes, which become calls. An expression is
followed through all three stages at once: the text that is written for it, the tokens that the text
spells, and the phrase that they are.
-/

namespace UiScript

open List

open Token (Inline Spells Row markRow wordRow stringRow numberRow commaRows isWord inline_word
  wordKind row endRow spells_commaSeparated)
open Syntax (Phrase Grade)
open Bool (and_eq_true_iff or_eq_true_iff)

/-! ### Pipes as calls -/

namespace Node

mutual

def applied : Node → Node
  | .pipe p left right => .call p right.applied [left.applied]
  | .binary p op left right => .binary p op left.applied right.applied
  | .unary p op n => .unary p op n.applied
  | .call p callee arguments => .call p callee.applied (appliedList arguments)
  | .member p obj property computed index =>
    .member p obj.applied property computed (appliedOption index)
  | .assign p target value => .assign p target.applied value.applied
  | .arrow p params (.value body) => .arrow p (appliedParams params) (.value body.applied)
  | .array p elements => .array p (appliedList elements)
  | .object p properties => .object p (appliedEntries properties)
  | .conditional p condition consequent alternate =>
    .conditional p condition.applied consequent.applied alternate.applied
  | n => n

def appliedList : List Node → List Node
  | [] => []
  | n :: ns => n.applied :: appliedList ns

def appliedOption : Option Node → Option Node
  | none => none
  | some n => some n.applied

def appliedEntries : List (Entry Node) → List (Entry Node)
  | [] => []
  | ⟨name, value⟩ :: es => ⟨name, appliedOption value⟩ :: appliedEntries es

def appliedParams : List (Param Node) → List (Param Node)
  | [] => []
  | ⟨name, written, value⟩ :: ps => ⟨name, written, appliedOption value⟩ :: appliedParams ps

end

end Node

variable {name : String}

namespace Script

/-! ### Expressions that can be written -/

def isIdentifier (name : String) : Bool :=
  isWord name && wordKind name == .identifier

/-- A key that is a name, or one that is written between quotes. -/
def isWritableKey (key : String) : Bool :=
  isIdentifier key || (!isBareKey key.toList && key.toList.all Token.isWritable)

/-- The operator between two operands with that spelling. -/
def infixMark? (op : String) : Option Symbol :=
  (Symbol.double ++ Symbol.single).find? fun mark => Syntax.isInfix mark && mark.spelling == op

/-- The operator in front of an operand with that spelling. -/
def prefixMark? (op : String) : Option Symbol :=
  [Symbol.not, .minus].find? fun mark => mark.spelling == op

def isTarget : Node → Bool
  | .identifier .. | .member .. => true
  | _ => false

mutual

/-- An expression of the constructs that code is read back from. The one operator that is missing
may open markup. -/
def isPrintable : Node → Bool
  | .identifier _ name => isIdentifier name
  | .number _ (.number (.int n)) => 0 ≤ n && (toString n).length ≤ maxIntegerDigits
  | .string _ value => value.toList.all Token.isWritable
  | .boolean .. | .null .. => true
  | .binary _ op left right => (infixMark? op).isSome && isPrintable left && isPrintable right
  | .unary _ op n => (prefixMark? op).isSome && isPrintable n
  | .call _ callee arguments => isPrintable callee && arePrintable arguments
  | .member _ obj name false none => isWord name && isPrintable obj
  | .member _ obj name true (some index) => name == "" && isPrintable obj && isPrintable index
  | .assign _ target value => isTarget target && isPrintable target && isPrintable value
  | .arrow _ params (.value body) => arePrintableParams params && isPrintable body
  | .array _ elements => arePrintable elements
  | .object _ properties => arePrintableEntries properties
  | .conditional _ condition consequent alternate =>
    isPrintable condition && isPrintable consequent && isPrintable alternate
  | .pipe _ left right => isPrintable left && isPrintable right
  | _ => false

def arePrintable : List Node → Bool
  | [] => true
  | n :: ns => isPrintable n && arePrintable ns

def arePrintableEntries : List (Entry Node) → Bool
  | [] => true
  | ⟨key, some value⟩ :: es => isWritableKey key && isPrintable value && arePrintableEntries es
  | ⟨_, none⟩ :: _ => false

def arePrintableParams : List (Param Node) → Bool
  | [] => true
  | ⟨name, none, none⟩ :: ps => isIdentifier name && arePrintableParams ps
  | ⟨name, none, some value⟩ :: ps =>
    isIdentifier name && isPrintable value && arePrintableParams ps
  | ⟨_, some _, _⟩ :: _ => false

end

/-! ### Writing -/

/-- Where there are no components and no states, some code is written and nothing else happens. -/
def Writes {α : Type} (m : Gen α) (a : α) : Prop :=
  ∀ g : Generator, g.components = [] → g.stateNames = [] → m.run g = .ok (a, g)

namespace Writes

variable {α β : Type} {m : Gen α} {a : α} {b : β}

lemma pure (a : α) : Writes (pure a) a := fun _ _ _ => rfl

lemma bind {f : α → Gen β} (h : Writes m a) (h' : Writes (f a) b) : Writes (m >>= f) b := by
  intro g hc hs
  rw [StateT.run_bind, h g hc hs]
  exact h' g hc hs

lemma get_bind {f : Generator → Gen β}
    (h : ∀ g, g.components = [] → g.stateNames = [] → Writes (f g) b) : Writes (get >>= f) b :=
  fun g hc hs => h g hc hs g hc hs

lemma rebinding (h : Writes m a) (names : List String) : Writes (rebinding names m) a := by
  intro g hc hs
  have hsame :
      { g with stateNames := g.stateNames.filter fun name => !names.contains name } = g := by
    cases g
    simp_all
  have hrun : (Script.rebinding names m).run g =
      (m.run { g with stateNames := g.stateNames.filter fun name => !names.contains name } >>=
        fun r => Except.ok (r.1, { r.2 with stateNames := g.stateNames })) := rfl
  rw [hrun, hsame, h g hc hs]
  rfl

lemma inOrder_cons {ms : List (Gen α)} {as : List α} (h : Writes m a)
    (h' : Writes (inOrder ms) as) : Writes (inOrder (m :: ms)) (a :: as) :=
  h.bind (h'.bind (.pure _))

end Writes

/-! ### Constructs -/

/-- A text is written whose tokens are a phrase. -/
def Written (m : Gen String) (g : Grade) (n : Node) : Prop :=
  ∃ s rows, Writes m s ∧ Inline s rows ∧ Phrase g rows n

variable {m : Gen String} {β : Type}

/-- Texts are written whose tokens are items of a kind. -/
def WrittenAll (ms : List (Gen String)) (R : List Row → β → Prop) (bs : List β) : Prop :=
  ∃ ss rowss, Writes (inOrder ms) ss ∧ Forall₂ Inline ss rowss ∧ Forall₂ R rowss bs

lemma writtenAll_nil (R : List Row → β → Prop) : WrittenAll [] R [] :=
  ⟨[], [], .pure [], .nil, .nil⟩

lemma WrittenAll.cons {R : List Row → β → Prop} {ms : List (Gen String)}
    {b : β} {bs : List β} (h : ∃ s rows, Writes m s ∧ Inline s rows ∧ R rows b)
    (h' : WrittenAll ms R bs) : WrittenAll (m :: ms) R (b :: bs) := by
  obtain ⟨s, rows, hwrites, htext, hrows⟩ := h
  obtain ⟨ss, rowss, hwrites', htexts, hrowss⟩ := h'
  exact ⟨s :: ss, rows :: rowss, hwrites.inOrder_cons hwrites', .cons htext htexts,
    .cons hrows hrowss⟩

section Constructs

variable {m m' m'' : Gen String} {n n' n'' : Node} {g : Grade} {ms : List (Gen String)}

lemma Written.mono {g' : Grade} (h : Written m g n) (hg : g.rank ≤ g'.rank) : Written m g' n := by
  obtain ⟨s, rows, hwrites, htext, hphrase⟩ := h
  exact ⟨s, rows, hwrites, htext, hphrase.mono hg⟩

lemma Written.whole (h : Written m g n) : Written m .whole n :=
  h.mono (by cases g <;> decide)

/-- What is looser than its place allows is put between parentheses. -/
lemma Written.operand {isLoose : Node → Bool} {g' : Grade} {e : Node} {f : Forms}
    (h : Written f.expr g n) (hg : isLoose e = false → g.rank ≤ g'.rank) :
    Written (operand isLoose (e, f)) g' n := by
  obtain ⟨s, rows, hwrites, htext, hphrase⟩ := h
  cases hl : isLoose e with
  | true =>
    have hcode : Writes (Script.operand isLoose (e, f)) ("(" ++ s ++ ")") :=
      hwrites.bind (by rw [hl]; exact .pure _)
    refine ⟨_, _, hcode, htext.parens, ?_⟩
    exact (hphrase.mono (by cases g <;> decide)).parens.mono (by cases g' <;> decide)
  | false =>
    have hcode : Writes (Script.operand isLoose (e, f)) s :=
      hwrites.bind (by rw [hl]; exact .pure _)
    exact ⟨s, rows, hcode, htext, hphrase.mono (hg hl)⟩

lemma written_binary {mark : Symbol} (hmark : Syntax.isInfix mark) (h : Written m .operand n)
    (h' : Written m' .operand n') :
    Written (do
      let l ← m
      let r ← m'
      return "(" ++ l ++ " " ++ mark.spelling ++ " " ++ r ++ ")") .chain
      (.binary none mark.spelling n n') := by
  obtain ⟨s, rows, hwrites, htext, hphrase⟩ := h
  obtain ⟨s', rows', hwrites', htext', hphrase'⟩ := h'
  refine ⟨_, _, hwrites.bind (hwrites'.bind (.pure _)), ?_, (hphrase.binary hmark hphrase').parens⟩
  have hcode := (htext.spaced mark htext').parens
  simpa only [String.append_assoc] using hcode

lemma written_unary {mark : Symbol} (hmark : Syntax.isUnaryOperator (.symbol mark))
    (h : Written m .chain n) :
    Written (do return mark.spelling ++ (← m)) .operand (.unary none mark.spelling n) := by
  obtain ⟨s, rows, hwrites, htext, hphrase⟩ := h
  refine ⟨_, _, hwrites.bind (.pure _), htext.prefixed ?_, hphrase.unary hmark⟩
  cases mark <;> first | exact Token.heads_cons _ rfl | cases hmark

lemma written_conditional (h : Written m .operand n) (h' : Written m' .whole n')
    (h'' : Written m'' .whole n'') :
    Written (do
      let c ← m
      let yes ← m'
      let no ← m''
      return "(" ++ c ++ " ? " ++ yes ++ " : " ++ no ++ ")") .chain
      (.conditional none n n' n'') := by
  obtain ⟨s, rows, hwrites, htext, hphrase⟩ := h
  obtain ⟨s', rows', hwrites', htext', hphrase'⟩ := h'
  obtain ⟨s'', rows'', hwrites'', htext'', hphrase''⟩ := h''
  refine ⟨_, _, hwrites.bind (hwrites'.bind (hwrites''.bind (.pure _))), ?_,
    (hphrase.conditional hphrase' hphrase'').parens⟩
  have hyes : Inline (s ++ " ? " ++ s') _ := htext.spaced .question htext'
  have hno : Inline (s ++ " ? " ++ s' ++ " : " ++ s'') _ := hyes.spaced .colon htext''
  simpa only [String.append_assoc] using hno.parens

lemma written_member (hname : isWord name) (h : Written m .chain n) :
    Written (do return (← m) ++ "." ++ name) .chain (.member none n name false none) := by
  obtain ⟨s, rows, hwrites, htext, hphrase⟩ := h
  exact ⟨_, _, hwrites.bind (.pure _), htext.member hname, hphrase.member name⟩

lemma written_index (h : Written m .chain n) (h' : Written m' .whole n') :
    Written (do
      let code ← m
      return code ++ "[" ++ (← m') ++ "]") .chain (.member none n "" true (some n')) := by
  obtain ⟨s, rows, hwrites, htext, hphrase⟩ := h
  obtain ⟨s', rows', hwrites', htext', hphrase'⟩ := h'
  exact ⟨_, _, hwrites.bind (hwrites'.bind (.pure _)),
    htext.bracketed htext'.spells .leftBracket .rightBracket rfl rfl, hphrase.index hphrase'⟩

lemma written_array {ns : List Node} (h : WrittenAll ms (Phrase .whole) ns) :
    Written (do return "[" ++ commaSeparated (← inOrder ms) ++ "]") .chain (.array none ns) := by
  obtain ⟨ss, rowss, hwrites, htexts, hphrases⟩ := h
  exact ⟨_, _, hwrites.bind (.pure _),
    .enclosed (spells_commaSeparated htexts) .leftBracket .rightBracket rfl rfl,
    .array hphrases⟩

lemma written_object {es : List (Entry Node)} (h : WrittenAll ms Phrase.PropertyRows es) :
    Written (do return braced (commaSeparated (← inOrder ms))) .chain (.object none es) := by
  obtain ⟨ss, rowss, hwrites, htexts, hentries⟩ := h
  exact ⟨_, _, hwrites.bind (.pure _),
    .enclosed (spells_commaSeparated htexts) .leftBrace .rightBrace rfl rfl,
    .object hentries⟩

lemma written_call {callee : Lowered} {arguments : List Lowered} {ns : List Node}
    (h : Written (operand isLooseCallee callee) .chain n)
    (h' : WrittenAll (arguments.map (·.2.expr)) (Phrase .whole) ns) :
    Written (call callee arguments) .chain (.call none n ns) := by
  obtain ⟨s, rows, hwrites, htext, hphrase⟩ := h
  obtain ⟨ss, rowss, hwrites', htexts, hphrases⟩ := h'
  refine ⟨_, _, hwrites.bind (.get_bind fun g hc _ => ?_),
    htext.bracketed (spells_commaSeparated htexts) .leftParen .rightParen rfl rfl,
    hphrase.call hphrases⟩
  have hplain : (bareName? callee.1).any g.components.contains = false := by
    rw [hc]
    cases bareName? callee.1 <;> rfl
  have hargs : Writes (callArguments false arguments) (commaSeparated ss) := hwrites'.bind (.pure _)
  dsimp only
  rw [hplain]
  exact hargs.bind (.pure _)

lemma written_pipe (h : Written m .chain n) (h' : Written m' .whole n') :
    Written (do
      let callee ← m
      return callee ++ "(" ++ (← m') ++ ")") .chain (.call none n [n']) := by
  obtain ⟨s, rows, hwrites, htext, hphrase⟩ := h
  obtain ⟨s', rows', hwrites', htext', hphrase'⟩ := h'
  refine ⟨_, _, hwrites.bind (hwrites'.bind (.pure _)),
    htext.bracketed htext'.spells .leftParen .rightParen rfl rfl, ?_⟩
  have hcall := hphrase.call (.cons hphrase' .nil)
  rwa [Token.commaRows_singleton] at hcall

lemma written_assignment {target value : Lowered}
    (hname : ∀ name, bareName? target.1 = some name → target.2.expr = pure name)
    (h : Written target.2.expr .operand n) (h' : Written value.2.expr g n') :
    Written (assignment target value) .whole (.assign none n n') := by
  obtain ⟨s, rows, hwrites, htext, hphrase⟩ := h
  obtain ⟨s', rows', hwrites', htext', hphrase'⟩ := h'.whole
  have hcode : Inline (s ++ " = " ++ s') _ := htext.spaced .assign htext'
  refine ⟨_, _, hwrites'.bind ?_, hcode, hphrase.assign hphrase'⟩
  cases hbare : bareName? target.1 with
  | none => exact hwrites.bind (.pure _)
  | some name =>
    rw [hname name hbare] at hwrites
    refine .get_bind fun g _ hs => ?_
    rw [hs]
    change Writes (pure name >>= fun t => pure (t ++ " = " ++ s')) _
    exact hwrites.bind (.pure _)

lemma written_arrow {params : List (String × Option Lowered)} {body : Lowered}
    {ps : List (Param Node)} (hms : parameters params = commaSeparated <$> inOrder ms)
    (h : WrittenAll ms Phrase.ParamRows ps) (h' : Written (operand isObject body) .whole n) :
    Written (arrowFunction params (.value body)) .whole (.arrow none ps (.value n)) := by
  obtain ⟨ss, rowss, hwrites, htexts, hparams⟩ := h
  obtain ⟨s, rows, hwrites', htext, hphrase⟩ := h'
  have hhead : Writes (parameters params) (commaSeparated ss) := by
    rw [hms, map_eq_pure_bind]
    exact hwrites.bind (.pure _)
  refine ⟨_, _, hhead.bind ((hwrites'.rebinding _).bind (.pure _)), ?_, .arrow hparams hphrase⟩
  have hopen := Inline.enclosed (spells_commaSeparated htexts) .leftParen .rightParen rfl rfl
  have hcode : Inline ("(" ++ commaSeparated ss ++ ")" ++ " => " ++ s) _ :=
    hopen.spaced .arrow htext
  have hseam : "(" ++ commaSeparated ss ++ ") => " ++ s =
      "(" ++ commaSeparated ss ++ ")" ++ " => " ++ s := by
    simp only [String.append_assoc]
    rfl
  rwa [hseam]

end Constructs

/-! ### Expressions -/

/-- How tight the code of an expression is. -/
def gradeOf : Node → Grade
  | .assign .. | .arrow .. => .whole
  | .unary .. => .operand
  | _ => .chain

variable {n : Node} {name key : String}

lemma rank_operand (h : isLooseOperand n = false) : (gradeOf n).rank ≤ Grade.operand.rank := by
  cases n <;> first | exact Nat.zero_le _ | exact Nat.le_refl _ | cases h

lemma rank_chain (h : isLooseSigned n = false) : (gradeOf n).rank ≤ Grade.chain.rank := by
  cases n <;> first | exact Nat.zero_le _ | cases h

lemma not_isLooseSigned_of_callee (h : isLooseCallee n = false) : isLooseSigned n = false := by
  cases n <;> first | rfl | cases h

lemma not_isLooseSigned_of_object (h : isLooseObject n = false) : isLooseSigned n = false := by
  cases n <;> first | rfl | cases h

/-- The code of an expression is read as the expression, with calls for pipes. -/
abbrev ReadsBack (n : Node) : Prop := Written (lower n).expr (gradeOf n) n.applied.unplaced

namespace ReadsBack

variable {n : Node}

lemma operand (h : ReadsBack n) :
    Written (Script.operand isLooseOperand (n, lower n)) .operand n.applied.unplaced :=
  Written.operand h rank_operand

lemma signed (h : ReadsBack n) :
    Written (Script.operand isLooseSigned (n, lower n)) .chain n.applied.unplaced :=
  Written.operand h rank_chain

lemma callee (h : ReadsBack n) :
    Written (Script.operand isLooseCallee (n, lower n)) .chain n.applied.unplaced :=
  Written.operand h fun hl => rank_chain (not_isLooseSigned_of_callee hl)

lemma object (h : ReadsBack n) :
    Written (Script.operand isLooseObject (n, lower n)) .chain n.applied.unplaced :=
  Written.operand h fun hl => rank_chain (not_isLooseSigned_of_object hl)

lemma body (h : ReadsBack n) :
    Written (Script.operand isObject (n, lower n)) .whole n.applied.unplaced :=
  Written.operand h.whole fun _ => Nat.le_refl _

end ReadsBack

/-! ### Names, keys and operators -/

lemma isIdentifier_iff (h : isIdentifier name) :
    isWord name ∧ wordKind name = .identifier := by
  simpa [isIdentifier] using h

lemma infixMark_spec {op : String} (h : (infixMark? op).isSome) :
    ∃ mark : Symbol, Syntax.isInfix mark ∧ mark.spelling = op := by
  obtain ⟨mark, hmark⟩ := Option.isSome_iff_exists.mp h
  exact ⟨mark, by simpa using find?_some hmark⟩

lemma prefixMark_spec {op : String} (h : (prefixMark? op).isSome) :
    ∃ mark : Symbol, Syntax.isUnaryOperator (.symbol mark) ∧ mark.spelling = op := by
  obtain ⟨mark, hmark⟩ := Option.isSome_iff_exists.mp h
  refine ⟨mark, ?_, by simpa using find?_some hmark⟩
  have hmem := mem_of_find?_eq_some hmark
  simp only [mem_cons, not_mem_nil, or_false] at hmem
  rcases hmem with rfl | rfl <;> rfl

lemma isKeyChar_of_identifierChar {c : Char} (h : Token.isIdentifierChar c) : isKeyChar c := by
  simp only [Token.isIdentifierChar, Token.isIdentifierStart, Text.isAsciiDigit] at h
  simp only [isKeyChar, isKeyStart, isAsciiCapital]
  grind

lemma isBareKey_of_word (h : isWord key) : isBareKey key.toList := by
  obtain ⟨c, cs, hkey, hstart, hall⟩ := Token.isWord_iff h
  have hlast : cs.getLast? ≠ some '\n' := by
    intro hl
    have := all_eq_true.mp hall '\n' (mem_of_getLast? hl)
    exact absurd this (by decide)
  have hbody : cs.all isKeyChar :=
    all_eq_true.mpr fun d hd => isKeyChar_of_identifierChar (all_eq_true.mp hall d hd)
  have hfirst : isKeyStart c := by
    simp only [Token.isIdentifierStart] at hstart
    simp only [isKeyStart, isAsciiCapital]
    grind
  simp [hkey, isBareKey, hlast, hfirst, hbody]

lemma inline_objectKey (h : isWritableKey key) :
    ∃ r, Inline (objectKey key) [r] ∧ Phrase.IsKey r key := by
  rcases or_eq_true_iff.mp h with hword | hquoted
  · obtain ⟨hword, hkind⟩ := isIdentifier_iff hword
    rw [objectKey, if_pos (isBareKey_of_word hword)]
    exact ⟨wordRow key, inline_word hword, Or.inl ⟨rfl, hkind⟩⟩
  · obtain ⟨hbare, hall⟩ := and_eq_true_iff.mp hquoted
    rw [objectKey, if_neg (by simpa using hbare)]
    exact ⟨stringRow key, Token.inline_string hall, Or.inr rfl⟩

lemma written_entry (hkey : isWritableKey key) (h : Written m .whole n) :
    ∃ s rows, Writes (do return objectKey key ++ ": " ++ (← m)) s ∧ Inline s rows ∧
      Phrase.PropertyRows rows ⟨key, some n⟩ := by
  obtain ⟨s, rows, hwrites, htext, hphrase⟩ := h
  obtain ⟨r, hr, hkey⟩ := inline_objectKey hkey
  have hcolon : Spells (Token.Heads (!Token.isGapBlank ·)) ": " [markRow .colon] :=
    Token.spells_led .colon
  exact ⟨_, _, hwrites.bind (.pure _),
    hr.between hcolon (fun _ => Token.breaks_cons _ rfl) htext,
    r, rows, n, rfl, hkey, rfl, hphrase⟩

lemma written_param (h : isIdentifier name) :
    ∃ s rows, Writes (pure name) s ∧ Inline s rows ∧ Phrase.ParamRows rows ⟨name, none, none⟩ := by
  obtain ⟨hword, hkind⟩ := isIdentifier_iff h
  exact ⟨name, _, .pure name, inline_word hword, hkind, rfl, Or.inl ⟨rfl, rfl⟩⟩

lemma written_default (h : isIdentifier name) (h' : Written m .whole n) :
    ∃ s rows, Writes (do return name ++ " = " ++ (← m)) s ∧ Inline s rows ∧
      Phrase.ParamRows rows ⟨name, none, some n⟩ := by
  obtain ⟨hword, hkind⟩ := isIdentifier_iff h
  obtain ⟨s, rows, hwrites, htext, hphrase⟩ := h'
  have hcode : Inline (name ++ " = " ++ s) _ := (inline_word hword).spaced .assign htext
  exact ⟨_, _, hwrites.bind (.pure _), hcode, hkind, rfl, Or.inr ⟨rows, n, rfl, rfl, hphrase⟩⟩

/-! ### All expressions -/

mutual

lemma readsBack : ∀ n : Node, isPrintable n → ReadsBack n
  | .identifier _ name, h => by
    obtain ⟨hword, hkind⟩ := isIdentifier_iff h
    exact ⟨name, _, .pure name, inline_word hword, Syntax.phrase_identifier hkind⟩
  | .number _ (.number (.int n)), h => by
    obtain ⟨hpos, hlength⟩ : 0 ≤ n ∧ (toString n).length ≤ maxIntegerDigits := by
      simpa [isPrintable] using h
    obtain ⟨k, rfl⟩ := Int.eq_ofNat_of_zero_le hpos
    exact ⟨k.repr, _, .pure _, Token.inline_number k,
      Syntax.phrase_number (Numeral.readNumber_repr hlength)⟩
  | .string _ value, h =>
    ⟨stringLiteral value, _, .pure _, Token.inline_string h, Syntax.phrase_string value⟩
  | .boolean _ b, _ => by
    refine ⟨_, _, .pure _, inline_word ?_, Syntax.phrase_boolean b⟩
    cases b <;> decide
  | .null _, _ => ⟨"null", _, .pure _, inline_word (by decide), Syntax.phrase_null⟩
  | .binary _ op left right, h => by
    obtain ⟨h, hright⟩ := and_eq_true_iff.mp h
    obtain ⟨hop, hleft⟩ := and_eq_true_iff.mp h
    obtain ⟨mark, hmark, rfl⟩ := infixMark_spec hop
    exact written_binary hmark (readsBack left hleft).operand (readsBack right hright).operand
  | .unary _ op n, h => by
    obtain ⟨hop, hn⟩ := and_eq_true_iff.mp h
    obtain ⟨mark, hmark, rfl⟩ := prefixMark_spec hop
    exact written_unary hmark (readsBack n hn).signed
  | .call _ callee arguments, h => by
    obtain ⟨hcallee, harguments⟩ := and_eq_true_iff.mp h
    exact written_call (readsBack callee hcallee).callee (readsBackList arguments harguments)
  | .member _ obj name false none, h => by
    obtain ⟨hname, hobj⟩ := and_eq_true_iff.mp h
    exact written_member hname (readsBack obj hobj).object
  | .member _ obj name true (some index), h => by
    obtain ⟨⟨rfl, hobj⟩, hindex⟩ : (name = "" ∧ isPrintable obj) ∧ isPrintable index := by
      simpa [isPrintable] using h
    exact written_index (readsBack obj hobj).object (readsBack index hindex).whole
  | .assign _ target value, h => by
    obtain ⟨h, hvalue⟩ := and_eq_true_iff.mp h
    obtain ⟨hkind, htarget⟩ := and_eq_true_iff.mp h
    refine written_assignment (fun name hname => ?_) ((readsBack target htarget).mono ?_)
      (readsBack value hvalue)
    · cases target <;> cases hname
      rfl
    · cases target <;> first | exact Nat.zero_le _ | cases hkind
  | .arrow _ params (.value body), h => by
    obtain ⟨hparams, hbody⟩ := and_eq_true_iff.mp h
    exact written_arrow rfl (readsBackParams params hparams) (readsBack body hbody).body
  | .array _ elements, h => written_array (readsBackList elements h)
  | .object _ properties, h => written_object (readsBackEntries properties h)
  | .conditional _ condition consequent alternate, h => by
    obtain ⟨h, hn⟩ := and_eq_true_iff.mp h
    obtain ⟨hc, hy⟩ := and_eq_true_iff.mp h
    exact written_conditional (readsBack condition hc).operand (readsBack consequent hy).whole
      (readsBack alternate hn).whole
  | .pipe _ left right, h => by
    obtain ⟨hleft, hright⟩ := and_eq_true_iff.mp h
    exact written_pipe (readsBack right hright).callee (readsBack left hleft).whole

lemma readsBackList : ∀ ns : List Node, arePrintable ns →
    WrittenAll ((lowerList ns).map (·.2.expr)) (Phrase .whole)
      (Node.unplacedList (Node.appliedList ns))
  | [], _ => writtenAll_nil _
  | n :: ns, h => by
    obtain ⟨hn, hns⟩ := and_eq_true_iff.mp h
    exact .cons (readsBack n hn).whole (readsBackList ns hns)

lemma readsBackEntries : ∀ es : List (Entry Node), arePrintableEntries es →
    WrittenAll ((lowerEntries es).map fun (key, value) => do
      return objectKey key ++ ": " ++ (← required value)) Phrase.PropertyRows
      (Node.unplacedEntries (Node.appliedEntries es))
  | [], _ => writtenAll_nil _
  | ⟨key, some value⟩ :: es, h => by
    obtain ⟨h, hes⟩ := and_eq_true_iff.mp h
    obtain ⟨hkey, hvalue⟩ := and_eq_true_iff.mp h
    exact .cons (written_entry hkey (readsBack value hvalue).whole) (readsBackEntries es hes)

lemma readsBackParams : ∀ ps : List (Param Node), arePrintableParams ps →
    WrittenAll ((lowerParams ps).map fun (name, value) =>
      match value with
      | some v => do return name ++ " = " ++ (← v.2.expr)
      | none => return name) Phrase.ParamRows
      (Node.unplacedParams (Node.appliedParams ps))
  | [], _ => writtenAll_nil _
  | ⟨name, none, none⟩ :: ps, h => by
    obtain ⟨hname, hps⟩ := and_eq_true_iff.mp h
    exact .cons (written_param hname) (readsBackParams ps hps)
  | ⟨name, none, some value⟩ :: ps, h => by
    obtain ⟨h, hps⟩ := and_eq_true_iff.mp h
    obtain ⟨hname, hvalue⟩ := and_eq_true_iff.mp h
    exact .cons (written_default hname (readsBack value hvalue).whole) (readsBackParams ps hps)

end

end Script

/-! ### Reading a declaration -/

namespace Syntax

variable {rows : List Token.Row} {ts : List Token}

/-- What the tokens of a program are read as, if they are one statement. -/
lemma ofTokens_single (hts : ts.map row = rows ++ [endRow]) (file : String) :
    ∃ k c d, Over rows c d ∧ d.AtEnd ∧ c.tokens = ts ∧ c.file = file ∧ nestingBound ts = k + 1 ∧
      (isSeparator c.current.kind = false → c.current.kind ≠ .endOfFile →
        (∀ n e, (rules (k + 1)).statement c = .ok n e → e.current.kind = .endOfFile →
          ∃ p, Program.ofTokens ts file = .ok p ∧ p.body = [n]) ∧
        ∀ f e, (rules (k + 1)).statement c = .error f e → Program.ofTokens ts file = .error f) := by
  obtain ⟨us, es, rfl, hus, hes⟩ := map_eq_append_iff.mp hts
  obtain ⟨e, es', rfl, he, hes'⟩ := map_eq_cons_iff.mp hes
  obtain rfl : es' = [] := by simpa using hes'
  let d : Cursor := { current := e, rest := [], file }
  have hd : d.AtEnd := ⟨congrArg Token.Row.kind he, rfl⟩
  obtain ⟨t, ts, hsplit⟩ : ∃ t ts, us ++ [e] = t :: ts := exists_cons_of_ne_nil (by simp)
  let c : Cursor := { current := t, rest := ts, file }
  have hbound := length_le_nestingBound (us ++ [e])
  obtain ⟨k, hk⟩ : ∃ k, nestingBound (us ++ [e]) = k + 1 :=
    ⟨nestingBound (us ++ [e]) - 1, by omega⟩
  rw [hsplit] at hk ⊢
  refine ⟨k, c, d, ⟨us, hus, hsplit.symm, rfl, rfl⟩, hd, rfl, rfl, hk, fun hline hne => ?_⟩
  have hskip : c.skip = c := skip_eq_self hline
  rw [← hk]
  refine ⟨fun n e hn he => ?_, fun f x hf => ofTokens_error hskip hne hf⟩
  have hstatements : Statements (rules (nestingBound (t :: ts))) c [n] e :=
    .cons (d := e) (by rwa [hskip]) (by rwa [hskip]) (.nil e)
  refine ofTokens_of_statements hstatements ?_ (by simp)
  rw [skip_eq_self (by rw [he]; rfl), he]

/-- They may be read up to the last one. -/
lemma ofTokens_statement (hts : ts.map row = rows ++ [endRow]) (file : String) :
    ∃ k c d, Over rows c d ∧ d.current.kind = .endOfFile ∧ c.rest.length + 2 ≤ k ∧
      (isSeparator c.current.kind = false → c.current.kind ≠ .endOfFile →
        (∀ n, (rules (k + 1)).statement c = .ok n d →
          ∃ p, Program.ofTokens ts file = .ok p ∧ p.body = [n]) ∧
        ∀ f e, (rules (k + 1)).statement c = .error f e → Program.ofTokens ts file = .error f) := by
  obtain ⟨k, c, d, hover, hd, rfl, -, hk, hprogram⟩ := ofTokens_single hts file
  refine ⟨k, c, d, hover, hd.1, ?_, fun hline hne => ?_⟩
  · have hbound := length_le_nestingBound c.tokens
    rw [hk, Cursor.tokens, length_cons] at hbound
    omega
  · exact ⟨fun n hn => (hprogram hline hne).1 n d hn hd.1, (hprogram hline hne).2⟩

/-- What stands behind `let`, a name with its type and an equals sign is the value of the name. -/
lemma statement_let {r : Rules} {c d : Cursor} {written : Option TypeExpr}
    (hlet : c.current.row = wordRow "let") (hword : c.next.current.row = wordRow name)
    (hname : wordKind name = .identifier)
    (htype : optionalType r c.next.next = .ok written d)
    (hassign : d.current.row = markRow .assign) :
    statement r c = (do
      let value ← r.expression
      skipTerminator
      return Node.binding c.current.place name false written value) d.next := by
  have hkind : c.current.kind = .keyword .letWord := kind_of_row hlet
  unfold statement
  rw [bind_ok (peek_run c), hkind]
  change bindingDeclaration r c = _
  unfold bindingDeclaration nameAndValue
  rw [bind_ok (here_run c), bind_ok (advance_run c), bind_assoc,
    bind_ok (expectIdentifier_run hword hname), bind_assoc, bind_ok htype, bind_assoc,
    bind_ok (expectSymbol_row hassign), hkind]
  simp only [bind_assoc]
  rfl

/-- Tokens that declare a name are read as what stands behind the equals sign is. -/
lemma ofTokens_let (hname : wordKind name = .identifier) (hts : ts.map row =
      [wordRow "let", wordRow name, markRow .assign] ++ rows ++ [endRow]) (file : String) :
    ∃ k c d, Over rows c d ∧ d.AtEnd ∧ d.file = file ∧ nestingBound ts = k + 2 ∧
      (∀ n e, expression (rules k) c = .ok n e → e.current.kind = .endOfFile →
        ∃ p place, Program.ofTokens ts file = .ok p ∧
          p.body = [.binding place name false none n]) ∧
      ∀ f e, expression (rules k) c = .error f e → Program.ofTokens ts file = .error f := by
  obtain ⟨k, c, d, hover, hd, rfl, hfile, hk, hprogram⟩ := ofTokens_single hts file
  have hfile : d.file = file := by
    obtain ⟨-, -, -, hsame, -⟩ := hover
    exact hsame.symm.trans hfile
  obtain ⟨hlet, hover⟩ := over_cons hover
  obtain ⟨hword, hover⟩ := over_cons hover
  obtain ⟨hassign, hover⟩ := over_cons hover
  have hkind : c.current.kind = .keyword .letWord := kind_of_row hlet
  obtain ⟨hread, hfail⟩ := hprogram (by rw [hkind]; rfl) (by rw [hkind]; exact nofun)
  have hbound := length_le_nestingBound c.tokens
  obtain ⟨k, rfl⟩ : ∃ l, k = l + 1 := ⟨k - 1, by omega⟩
  have htype : optionalType (rules (k + 1)) c.next.next = .ok none c.next.next :=
    Phrase.optionalType_none (by simp [kind_of_mark hassign])
  have hstatement : (rules (k + 2)).statement c = _ := statement_let hlet hword hname htype hassign
  refine ⟨k, _, d, hover, hd, hfile, hk, fun n e hn he => ?_, fun f e hf => ?_⟩
  · have hend : e.terminate = e := by simp [Cursor.terminate, he, isSeparator]
    rw [bind_ok (show (rules (k + 1)).expression _ = .ok n e from hn),
      bind_ok (skipTerminator_run e), hend] at hstatement
    obtain ⟨p, hp, hbody⟩ := hread _ e hstatement he
    exact ⟨p, _, hp, hbody⟩
  · exact hfail f e (hstatement.trans (bind_error hf))

variable {n : Node}

/-- Tokens that declare a name and give it an expression are a program with that declaration. -/
lemma ofTokens_binding (h : Reads 10 10 rows n)
    (hname : wordKind name = .identifier) (hts : ts.map row =
      [wordRow "let", wordRow name, markRow .assign] ++ rows ++ [endRow]) (file : String) :
    ∃ p place value, Program.ofTokens ts file = .ok p ∧
      p.body = [.binding place name false none value] ∧ value.unplaced = n := by
  obtain ⟨k, c, d, hover, hd, -, hk, hprogram, -⟩ := ofTokens_let hname hts file
  have hlength := congrArg List.length hts
  have hbound := length_le_nestingBound ts
  simp only [length_map, length_append, length_cons, length_nil] at hlength
  obtain ⟨value, hread, hvalue⟩ := h (k := k) (by omega) hover (by rw [hd.1]; decide)
  obtain ⟨p, place, hp, hbody⟩ := hprogram value d hread hd.1
  exact ⟨p, place, value, hp, hbody, hvalue⟩

/-- Code that is a phrase is read as the value that it is declared for. -/
lemma parse_binding {code : String} (htext : Inline code rows) (h : Phrase .whole rows n)
    (name : String) (hname : Script.isIdentifier name) (file : String) :
    ∃ p place value, Program.parse ("let " ++ name ++ " = " ++ code) file = .ok p ∧
      p.body = [.binding place name false none value] ∧ value.unplaced = n := by
  obtain ⟨hword, hkind⟩ := Script.isIdentifier_iff hname
  obtain ⟨hscan, hrows⟩ := Token.scan_of_spells (htext.binding hword).spells Token.breaks_nil
  obtain ⟨ts, hparse, hts⟩ := tokenize_of_scan hscan file
  have hline : ∀ r ∈ [wordRow "let", wordRow name, markRow .assign] ++ rows,
      r.kind ≠ .newline := by
    have hwords : Balanced ([wordRow "let"] ++ [wordRow name] ++ [markRow .assign]) :=
      ((balanced_single rfl).append (balanced_single (Phrase.isLevel_wordKind name))).append
        (balanced_single rfl)
    exact (hwords.append h.balanced).sameLine
  rw [hrows, Token.pruneRows_sameLine hline] at hts
  have hreads : Reads 10 10 rows n :=
    Reads.up h.reads (by decide)
  obtain ⟨p, place, value, hp, hbody⟩ := ofTokens_binding hreads hkind hts file
  exact ⟨p, place, value, hparse.trans hp, hbody⟩

end Syntax

namespace Script

/-! ### Code as it is read -/

/-- The code of an expression is read as the expression again, grouped as it was; only a pipe
becomes a call. -/
theorem parse_lower_expr {e : Node} (h : isPrintable e) {g : Generator} (hc : g.components = [])
    (hs : g.stateNames = []) (file : String) :
    ∃ code, (lower e).expr.run g = .ok (code, g) ∧
      ∃ p place value, Program.parse ("let _ = " ++ code) file = .ok p ∧
        p.body = [.binding place "_" false none value] ∧ value.unplaced = e.applied.unplaced := by
  obtain ⟨code, rows, hwrites, htext, hphrase⟩ := (readsBack e h).whole
  obtain ⟨p, place, value, hparse, hvalue⟩ :=
    Syntax.parse_binding htext hphrase "_" (by decide) file
  have hseam : "let " ++ "_" ++ " = " ++ code = "let _ = " ++ code := by
    rw [show "let " ++ "_" ++ " = " = "let _ = " from rfl]
  rw [hseam] at hparse
  exact ⟨code, hwrites g hc hs, p, place, value, hparse, hvalue⟩

/-- Two signs in a row, a function that is called, and an object behind an arrow: each is written
so that it is not read as something else. -/
theorem parse_lower_expr_pipe :
    let e : Node := .pipe none (.unary none "-" (.unary none "-" (.identifier none "a")))
      (.arrow none [⟨"b", none, some (.string none "</b>")⟩]
        (.value (.object none [⟨"c d", some (.assign none
          (.member none (.identifier none "b") "if" false none) (.identifier none "a"))⟩])))
    let code := "((b = \"<\\/b>\") => (\x7b\"c d\": b.if = a\x7d))(-(-a))"
    isPrintable e ∧ (lower e).expr.run { title := "" } = .ok (code, { title := "" }) ∧
      ∃ p place value, Program.parse ("let _ = " ++ code) "main" = .ok p ∧
        p.body = [.binding place "_" false none value] ∧ value.unplaced = e.applied.unplaced := by
  intro e code
  have hprintable : isPrintable e := by decide
  have hrun : (lower e).expr.run { title := "" } = .ok (code, { title := "" }) := rfl
  obtain ⟨code', hcode', hparse⟩ :=
    parse_lower_expr hprintable (g := { title := "" }) rfl rfl "main"
  obtain rfl : code = code' := by
    rw [hrun] at hcode'
    exact (Prod.mk.inj (Except.ok.inj hcode')).1
  exact ⟨hprintable, hrun, hparse⟩

end Script

end UiScript
