import Mathlib.Tactic.Common
import UiScript.Proofs.Places
import UiScript.Syntax.Grammar

/-!
# What readers do to the cursor

Each primitive reader either leaves the cursor or moves it by `next`, `skip` or `terminate`. The
brackets among the tokens that are passed are tracked by `nest`.
-/

namespace UiScript.Syntax

open Token (Kind)

/-! ### Moves -/

namespace Cursor

def tokens (c : Cursor) : List Token := c.current :: c.rest

/-- The cursor after the current token, unless that is the last one. -/
def next (c : Cursor) : Cursor :=
  match c.rest with
  | [] => c
  | t :: ts => { c with current := t, rest := ts }

/-- The cursor after all separators in front. -/
def skip (c : Cursor) : Cursor :=
  { c with
    current := (dropSeparators c.current c.rest).1
    rest := (dropSeparators c.current c.rest).2 }

def terminate (c : Cursor) : Cursor := if isSeparator c.current.kind then c.next else c

/-- Only the mark of the end is left. -/
def AtEnd (c : Cursor) : Prop := c.current.kind = .endOfFile ∧ c.rest = []

variable {c : Cursor}

lemma next_of_rest_nil (h : c.rest = []) : c.next = c := by
  simp [next, h]

lemma tokens_eq_cons_next (h : c.rest ≠ []) : c.tokens = c.current :: c.next.tokens := by
  cases hr : c.rest with
  | nil => exact absurd hr h
  | cons => simp [next, tokens, hr]

lemma next_tokens {us : List Token} (h : c.rest = us) (hne : us ≠ [] := by simp) :
    c.next.tokens = us :=
  ((List.cons.inj (tokens_eq_cons_next (h ▸ hne))).2.symm).trans h

/-- The last token marks the end. -/
def Ended (c : Cursor) : Prop := ∃ ts t, c.tokens = ts ++ [t] ∧ t.kind = .endOfFile

lemma Ended.of_append {d : Cursor} {u : List Token} (hc : c.Ended) (h : c.tokens = u ++ d.tokens) :
    d.Ended := by
  obtain ⟨ts, t, hts, ht⟩ := hc
  rcases List.eq_nil_or_concat d.tokens with hd | ⟨us, w, hd⟩
  · simp [tokens] at hd
  · rw [hts, hd, List.concat_eq_append, ← List.append_assoc] at h
    obtain ⟨-, hw⟩ := List.append_inj' h rfl
    simp only [List.cons.injEq, and_true] at hw
    exact ⟨us, w, by rw [hd, List.concat_eq_append], hw ▸ ht⟩

/-- A cursor that does not stand before the end has more tokens. -/
lemma Ended.rest_ne_nil (hc : c.Ended) (h : c.current.kind ≠ .endOfFile) : c.rest ≠ [] := by
  obtain ⟨ts, t, hts, ht⟩ := hc
  intro hr
  cases ts with
  | nil =>
    simp only [tokens, hr, List.nil_append, List.cons.injEq, and_true] at hts
    exact h (hts ▸ ht)
  | cons => simp [tokens, hr] at hts

end Cursor

/-! ### Results of primitive readers -/

variable {α β : Type} {m : Parse α} {f : α → Parse β} {c d : Cursor} {us vs : List Token}
  {kind : Kind}

lemma bind_run (m : Parse α) (f : α → Parse β) (c : Cursor) :
    (m >>= f) c =
      match m c with
      | .ok a c' => f a c'
      | .error e c' => .error e c' := by
  show EStateM.bind m f c = _
  unfold EStateM.bind
  cases m c <;> rfl

@[simp] lemma pure_run (a : α) (c : Cursor) : (pure a : Parse α) c = .ok a c := rfl

@[simp] lemma throw_run (e : SyntaxFault) (c : Cursor) :
    (throw e : Parse α) c = .error e c := rfl

@[simp] lemma get_run (c : Cursor) : (get : Parse Cursor) c = .ok c c := rfl

@[simp] lemma set_run (c d : Cursor) : (set d : Parse PUnit) c = .ok ⟨⟩ d := rfl

lemma bind_ok {a : α} (h : m c = .ok a d) : (m >>= f) c = f a d := by
  rw [bind_run, h]

lemma bind_error {e : SyntaxFault} (h : m c = .error e d) : (m >>= f) c = .error e d := by
  rw [bind_run, h]

/-- A sequence succeeds if both of its readers do, one after the other. -/
lemma bind_eq_ok {b : β} : (m >>= f) c = .ok b d ↔ ∃ a c', m c = .ok a c' ∧ f a c' = .ok b d := by
  rw [bind_run]
  cases m c <;> simp

variable (c)

@[simp] lemma peek_run : peek c = .ok c.current.kind c := rfl

@[simp] lemma here_run : here c = .ok c.current.place c := rfl

@[simp] lemma peekNext_run : peekNext c = .ok c.rest.head? c := rfl

@[simp] lemma check_run (kind : Kind) (c : Cursor) :
    check kind c = .ok (c.current.kind == kind) c := rfl

@[simp] lemma atEnd_run : atEnd c = .ok (c.current.kind == .endOfFile) c := rfl

@[simp] lemma advance_run : advance c = .ok c.current c.next := by
  obtain ⟨current, rest, file, fragments⟩ := c
  cases rest <;> rfl

@[simp] lemma skipNewlines_run : skipNewlines c = .ok ⟨⟩ c.skip := rfl

lemma accept_run (kind : Kind) (c : Cursor) :
    accept kind c = if c.current.kind = kind then .ok true c.next else .ok false c := by
  unfold accept
  rw [bind_ok (check_run kind c)]
  by_cases h : c.current.kind = kind
  · simp [h, bind_ok (advance_run c)]
  · simp [h]

lemma expect_run (kind : Kind) (c : Cursor) :
    expect kind c =
      if c.current.kind = kind then .ok c.current c.next
      else .error (.expected kind c.current) c := by
  unfold expect
  rw [bind_ok (get_run c)]
  by_cases h : c.current.kind = kind <;> simp [h]

lemma expectSymbol_run (mark : Symbol) (c : Cursor) :
    expectSymbol mark c =
      if c.current.kind = .symbol mark then .ok () c.next
      else .error (.expected (.symbol mark) c.current) c := by
  unfold expectSymbol
  rw [bind_run, expect_run]
  split_ifs <;> rfl

/-- A token that may stand for a name. -/
def isName : Kind → Bool
  | .identifier | .keyword _ => true
  | _ => false

lemma expectName_run :
    expectName c =
      if isName c.current.kind then .ok c.current.value c.next
      else .error (.expectedName c.current) c := by
  unfold expectName
  rw [bind_ok (get_run c)]
  cases h : c.current.kind <;> simp [isName, bind_ok (advance_run c)]

lemma skipTerminator_run : skipTerminator c = .ok () c.terminate := by
  unfold skipTerminator Cursor.terminate
  rw [bind_run, accept_run]
  by_cases h : c.current.kind = .newline
  · simp [h, isSeparator]
  · by_cases h' : c.current.kind = .symbol .semicolon
    · simp [h', bind_run, accept_run, isSeparator]
    · have hs : isSeparator c.current.kind = false := by
        unfold isSeparator
        split <;> simp_all
      simp [h, h', bind_run, accept_run, hs]

/-! ### Looking ahead -/

@[simp] lemma atObject_run : atObject c = .ok (opensObject c.rest) c := rfl

@[simp] lemma atArrowFunction_run :
    atArrowFunction c = .ok (closesBeforeArrow 0 c.tokens) c := rfl

@[simp] lemma atElement_run :
    atElement c =
      .ok (c.current.kind == .symbol .lt && c.rest.head?.any fun t => isTagName t.kind t.value) c :=
  rfl

@[simp] lemma atClosingTag_run :
    atClosingTag c =
      .ok (c.current.kind == .symbol .lt && c.rest.head?.any (·.kind == .symbol .slash)) c := rfl

variable {c}

/-! ### Messages

The message of a fault depends on what the tokens say, not on where they stand. -/

lemma message_expected (wanted : Kind) (got : Token) :
    (SyntaxFault.expected wanted got).message =
      "Expected " ++ wanted.label ++ ", got " ++ got.kind.label ++ " ('" ++ got.value ++ "')" := rfl

lemma message_expectedName (got : Token) :
    (SyntaxFault.expectedName got).message =
      "Expected identifier, got " ++ got.kind.label ++ " ('" ++ got.value ++ "')" := rfl

lemma message_unexpected (got : Token) :
    (SyntaxFault.unexpected got).message =
      "Unexpected token: " ++ got.kind.label ++ " ('" ++ got.value ++ "')" := rfl

/-! ### Brackets -/

/-- A kind of bracket that can be open. -/
inductive Bracket where
  | paren
  | bracket
  | brace
  deriving DecidableEq

/-- The brackets that are open after a token, the innermost first. No reader passes a bracket that
closes nothing, nor the mark of the end. -/
def nestStep (stack : List Bracket) : Kind → Option (List Bracket)
  | .symbol .leftParen => some (.paren :: stack)
  | .symbol .leftBracket => some (.bracket :: stack)
  | .symbol .leftBrace => some (.brace :: stack)
  | .symbol .rightParen =>
    match stack with
    | .paren :: outer => some outer
    | _ => none
  | .symbol .rightBracket =>
    match stack with
    | .bracket :: outer => some outer
    | _ => none
  | .symbol .rightBrace =>
    match stack with
    | .brace :: outer => some outer
    | _ => none
  | .endOfFile => none
  | _ => some stack

def nest (stack : List Bracket) (ts : List Token) : Option (List Bracket) :=
  ts.foldlM (fun s t => nestStep s t.kind) stack

@[simp] lemma nest_nil (s : List Bracket) : nest s [] = some s := rfl

lemma nest_cons (s : List Bracket) (t : Token) (ts : List Token) :
    nest s (t :: ts) = (nestStep s t.kind).bind fun s' => nest s' ts := rfl

lemma nest_cons_iff {s s' : List Bracket} {t : Token} {ts : List Token} :
    nest s (t :: ts) = some s' ↔ ∃ s₁, nestStep s t.kind = some s₁ ∧ nest s₁ ts = some s' :=
  Option.bind_eq_some_iff

lemma nest_append {s s₁ s₂ : List Bracket} (hu : nest s us = some s₁) (hv : nest s₁ vs = some s₂) :
    nest s (us ++ vs) = some s₂ := by
  rw [nest, List.foldlM_append]
  change (nest s us).bind (fun s' => nest s' vs) = some s₂
  rw [hu, Option.bind_some, hv]

/-- A token that stands inside a statement: neither a separator nor the mark of the end. -/
def isInside (kind : Kind) : Bool := !isSeparator kind && kind != .endOfFile

/-- A token inside a statement that something complete may end with. -/
def isPlain (kind : Kind) : Bool := isInside kind && kind != .symbol .comma

lemma isInside_of_isPlain (h : isPlain kind) : isInside kind :=
  (Bool.and_eq_true_iff.mp h).1

lemma ne_comma_of_isPlain (h : isPlain kind) : kind ≠ .symbol .comma := by
  rintro rfl
  simp [isPlain] at h

lemma ne_endOfFile_of_isInside (h : isInside kind) : kind ≠ .endOfFile := by
  rintro rfl
  simp [isInside] at h

lemma ne_newline_of_isInside (h : isInside kind) : kind ≠ .newline := by
  rintro rfl
  simp [isInside, isSeparator] at h

/-- Separators open and close nothing. -/
lemma nestStep_separator (h : isSeparator kind) (s : List Bracket) : nestStep s kind = some s := by
  unfold isSeparator at h
  split at h <;> simp_all [nestStep]

lemma isPlain_of_isName (h : isName kind) : isPlain kind := by
  cases kind <;> simp_all [isName, isPlain, isInside, isSeparator]

lemma nestStep_name (h : isName kind) (s : List Bracket) : nestStep s kind = some s := by
  cases kind <;> simp_all [isName, nestStep]

lemma dropSeparators_append (t : Token) (ts : List Token) :
    ∃ us, t :: ts = us ++ (dropSeparators t ts).1 :: (dropSeparators t ts).2 ∧
      ∀ u ∈ us, isSeparator u.kind := by
  induction ts generalizing t with
  | nil => exact ⟨[], by simp [dropSeparators]⟩
  | cons u us ih =>
    by_cases h : isSeparator t.kind
    · obtain ⟨vs, hvs, hall⟩ := ih u
      refine ⟨t :: vs, by simp [dropSeparators, h, hvs], ?_⟩
      simpa [h] using hall
    · exact ⟨[], by simp [dropSeparators, h]⟩

lemma nest_separators (h : ∀ u ∈ us, isSeparator u.kind) (s : List Bracket) :
    nest s us = some s := by
  induction us with
  | nil => rfl
  | cons u us ih =>
    rw [nest_cons, nestStep_separator (h u (by simp)) s, Option.bind_some]
    exact ih fun v hv => h v (by simp [hv])

lemma Cursor.skip_append (c : Cursor) :
    ∃ us, c.tokens = us ++ c.skip.tokens ∧ ∀ u ∈ us, isSeparator u.kind :=
  dropSeparators_append c.current c.rest

/-! ### What is passed -/

def Finished (ts : List Token) : Prop := ∀ t ∈ ts.getLast?, t.kind ≠ .symbol .comma

lemma Finished.append (hu : Finished us) (hv : Finished vs) : Finished (us ++ vs) := by
  intro t ht
  rw [List.getLast?_append] at ht
  cases hl : vs.getLast? with
  | none => exact hu t (by simpa [hl] using ht)
  | some => exact hv t (by simpa [hl] using ht)

lemma Finished.append_left (hv : Finished vs) (hne : vs ≠ []) : Finished (us ++ vs) := by
  intro t ht
  rw [List.getLast?_append] at ht
  cases hl : vs.getLast? with
  | none => exact absurd (List.getLast?_eq_none_iff.mp hl) hne
  | some => exact hv t (by simpa [hl] using ht)

lemma finished_separators (h : ∀ u ∈ us, isSeparator u.kind) : Finished us := by
  intro t ht hk
  have := h t (List.mem_of_getLast? ht)
  simp [hk, isSeparator] at this

end UiScript.Syntax
