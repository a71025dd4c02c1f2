import UiScript.Proofs.Syntax.Genuine
import UiScript.Proofs.Syntax.Rounds

/-!
# Readers

Reading tokens of which the last one marks the end goes on for as long as it uses up tokens. It can
fail in three ways: at a token that does not belong where it is, in a fragment of a template that
cannot be cut into tokens, and at an integer with too many digits. A reader is described by this, by
whether it passes a token where it succeeds, and by what its results are if the tokens come from a
source. Each way to build readers out of others has a rule here.
-/

namespace UiScript.Syntax

open List

open Token (Kind IsNumeral IsDigits)

/-! ### Faults -/

/-- The lists of tokens that are read with some tokens: these, and those of the fragments in their
templates. -/
inductive Within (file : String) (ts : List Token) : List Token → Prop
  | self : Within file ts ts
  | fragment {us vs : List Token} {t : Token} {fragment : List Char} (h : Within file ts us)
      (ht : t ∈ us) (hkind : t.kind = .string) (htemplate : t.template)
      (hhole : .hole fragment ∈ (segments [] t.value.toList).1)
      (hvs : Token.tokenize (String.ofList fragment) file = .ok vs) : Within file ts vs

inductive Documented (file : String) (ts : List Token) : SyntaxFault → Prop
  /-- The grammar does not allow a token. -/
  | grammar {f : SyntaxFault} {us : List Token} {t : Token} {details : List (String × Value)}
      (h : Within file ts us) (ht : t ∈ us)
      (hf : f.diagnostic? = some (.grammarError f.message (some t.place) details)) :
      Documented file ts f
  /-- A fragment cannot be cut into tokens. -/
  | lexical {us : List Token} {t : Token} {fragment : List Char} {e : Token.LexError}
      (h : Within file ts us) (ht : t ∈ us) (hkind : t.kind = .string) (htemplate : t.template)
      (hhole : .hole fragment ∈ (segments [] t.value.toList).1)
      (he : Token.tokenize (String.ofList fragment) file = .error e) :
      Documented file ts (.lexical e)
  /-- An integer is too long. -/
  | digits {us : List Token} {t : Token} (h : Within file ts us) (ht : t ∈ us)
      (hkind : t.kind = .number) (hdigits : IsDigits t.value.toList)
      (hlong : 4300 < t.value.length) :
      Documented file ts (.numeral (.tooManyDigits t.value.length))

/-! ### Cursors -/

/-- The fragments of templates among some tokens are cut into such tokens again. -/
def FragmentClosed (L : Token → Prop) : Prop :=
  ∀ t, L t → t.template → ∀ fragment, .hole fragment ∈ (segments [] t.value.toList).1 →
    ∀ file us, Token.tokenize (String.ofList fragment) file = .ok us → ∀ u ∈ us, L u

/-- Tokens to be read. Any will do for the ways in which reading ends. What is read of them matters
if they are `genuine`: then they come from a source, and are `Among` some tokens. -/
structure Input where
  file : String
  tokens : List Token
  genuine : Prop
  Among : Token → Prop
  closed : genuine → FragmentClosed Among

/-- The cursor stands among tokens that are read with the input, and they nest less deep than a
bound. -/
structure Cursor.Fits (I : Input) (k : Nat) (c : Cursor) : Prop where
  within : ∃ us, Within I.file I.tokens us ∧ c.tokens <:+ us
  ended : c.Ended
  bound : nestingBound c.tokens ≤ k
  file : c.file = I.file
  numerals : ∀ t ∈ c.tokens, t.kind = .number → IsNumeral t.value.toList
  lexed : I.genuine → c.Lexed I.Among

lemma nestingBound_cons (t : Token) (ts : List Token) :
    nestingBound (t :: ts) = rowWeight t.row + nestingBound ts := rfl

lemma nestingBound_suffix {ts us : List Token} (h : ts <:+ us) :
    nestingBound ts + us.length ≤ nestingBound us + ts.length := by
  obtain ⟨vs, rfl⟩ := h
  induction vs with
  | nil => exact Nat.le_refl _
  | cons v =>
    have hweight : 1 ≤ rowWeight v.row := by
      unfold rowWeight
      split <;> omega
    rw [cons_append, nestingBound_cons, length_cons]
    omega

namespace Cursor.Fits

variable {I : Input} {k k' : Nat} {c d : Cursor}

/-- A cursor farther on fits a bound that is smaller by the tokens that were passed. -/
lemma onward (h : c.Fits I k) (htokens : d.tokens <:+ c.tokens) (hfile : d.file = c.file)
    (hk : k + d.tokens.length ≤ k' + c.tokens.length) : d.Fits I k' where
  within :=
    let ⟨us, hus, hc⟩ := h.within
    ⟨us, hus, htokens.trans hc⟩
  ended :=
    let ⟨_, hu⟩ := htokens
    h.ended.of_append hu.symm
  bound := by
    have := nestingBound_suffix htokens
    have := h.bound
    omega
  file := hfile.trans h.file
  numerals t ht := h.numerals t (htokens.subset ht)
  lexed g := (h.lexed g).of_suffix htokens

lemma same_bound (h : c.Fits I k) (htokens : d.tokens <:+ c.tokens) (hfile : d.file = c.file) :
    d.Fits I k :=
  h.onward htokens hfile (Nat.add_le_add_left htokens.length_le k)

lemma next (h : c.Fits I k) (hkind : c.current.kind ≠ .endOfFile) :
    c.next.tokens <:+ c.tokens ∧ c.next.file = c.file ∧
      c.next.tokens.length < c.tokens.length := by
  have hcons := tokens_eq_cons_next (h.ended.rest_ne_nil hkind)
  refine ⟨⟨[c.current], hcons.symm⟩, ?_, by rw [hcons]; exact Nat.lt_succ_self _⟩
  unfold Cursor.next
  split <;> rfl

lemma current_mem (h : c.Fits I k) : ∃ us, Within I.file I.tokens us ∧ c.current ∈ us := by
  obtain ⟨us, hus, hc⟩ := h.within
  exact ⟨us, hus, hc.subset mem_cons_self⟩

lemma blame (h : c.Fits I k) {f : SyntaxFault} {details : List (String × Value)}
    (hf : f.diagnostic? = some (.grammarError f.message (some c.current.place) details)) :
    Documented I.file I.tokens f :=
  let ⟨_, hus, hc⟩ := h.current_mem
  .grammar hus hc hf

end Cursor.Fits

section Start

variable {I : Input} {us : List Token} (h : Within I.file I.tokens us)
  (hend : ∃ us t, I.tokens = us ++ [t] ∧ t.kind = .endOfFile)
  (hnumbers : ∀ t ∈ I.tokens, t.kind = .number → IsNumeral t.value.toList)
include h hend hnumbers

/-- All lists of tokens that are read end with the mark of the end, and their numbers are
numerals. -/
lemma Within.ended :
    (∃ vs t, us = vs ++ [t] ∧ t.kind = .endOfFile) ∧
      ∀ t ∈ us, t.kind = .number → IsNumeral t.value.toList := by
  cases h with
  | self => exact ⟨hend, hnumbers⟩
  | fragment _ _ _ _ _ hvs =>
    exact ⟨tokenize_ended hvs, fun t ht => isNumeral_of_genuine (Token.tokenize_genuine hvs t ht)⟩

lemma Within.fits {k : Nat} {c : Cursor} (hc : c.tokens <:+ us) (hfile : c.file = I.file)
    (hbound : nestingBound c.tokens ≤ k) (hlexed : I.genuine → c.Lexed I.Among) : c.Fits I k := by
  obtain ⟨⟨vs, t, hvs, ht⟩, hnumerals⟩ := h.ended hend hnumbers
  obtain ⟨ws, hws⟩ := hc
  cases us with
  | nil => simp at hvs
  | cons u rest =>
    have hwhole : Cursor.Ended { c with current := u, rest } := ⟨vs, t, hvs, ht⟩
    exact {
      within := ⟨u :: rest, h, ws, hws⟩
      ended := hwhole.of_append hws.symm
      bound := hbound
      file := hfile
      numerals := fun t ht => hnumerals t (hws ▸ mem_append_right ws ht)
      lexed := hlexed }

end Start

lemma suffix_skip (c : Cursor) : c.skip.tokens <:+ c.tokens := by
  obtain ⟨us, hus, -⟩ := dropSeparators_append c.current c.rest
  exact ⟨us, hus.symm⟩

/-! ### Readers -/

variable {α : Type}

/-- Whatever the value. -/
def Always (_ : α) : Prop := True

def Never (_ : α) : Prop := False

def Anywhere (_ : Cursor) : Prop := True

def OpensTag (c : Cursor) : Prop :=
  (c.current.kind == .symbol .lt && c.rest.head?.any fun t => isTagName t.kind t.value) = true

/-- A result of a reader that started at a cursor. It is farther on, past a token if the value is
such that it must be, and the value of genuine tokens has a property. -/
def EndsWell (I : Input) (must P : α → Prop) (c : Cursor) :
    EStateM.Result SyntaxFault Cursor α → Prop
  | .ok a d =>
    d.tokens <:+ c.tokens ∧ d.file = c.file ∧ (must a → d.tokens.length < c.tokens.length) ∧
      (I.genuine → P a)
  | .error e _ => Documented I.file I.tokens e

/-- Where the reader may start, among tokens that nest less deep than a bound, it ends well. -/
def Safe (I : Input) (k : Nat) (pre : Cursor → Prop) (m : Parse α) (must P : α → Prop) : Prop :=
  ∀ c, c.Fits I k → pre c → EndsWell I must P c (m c)

namespace EndsWell

variable {α : Type} {I : Input} {must must' P P' : α → Prop} {k : Nat} {c d : Cursor} {a : α}
  {r : EStateM.Result SyntaxFault Cursor α}

lemma onward (h : EndsWell I must P d r) (htokens : d.tokens <:+ c.tokens) (hfile : d.file = c.file)
    (hmust : ∀ a, must' a → must a ∨ d.tokens.length < c.tokens.length) :
    EndsWell I must' P c r := by
  cases r with
  | error => exact h
  | ok a =>
    obtain ⟨htokens', hfile', hshort, hP⟩ := h
    refine ⟨htokens'.trans htokens, hfile'.trans hfile, fun ha => ?_, hP⟩
    rcases hmust a ha with ha | hlt
    · exact Nat.lt_of_lt_of_le (hshort ha) htokens.length_le
    · exact Nat.lt_of_le_of_lt htokens'.length_le hlt

lemma imp (h : EndsWell I must P c r) (hP : ∀ a, P a → P' a) : EndsWell I must P' c r := by
  cases r with
  | error => exact h
  | ok a => exact ⟨h.1, h.2.1, h.2.2.1, fun g => hP a (h.2.2.2 g)⟩

lemma stay (ha : ¬ must a) (hP : I.genuine → P a) : EndsWell I must P c (.ok a c) :=
  ⟨suffix_refl _, rfl, fun h => absurd h ha, hP⟩

lemma next (hc : c.Fits I k) (hkind : c.current.kind ≠ .endOfFile) (hP : I.genuine → P a) :
    EndsWell I must P c (.ok a c.next) :=
  let ⟨htokens, hfile, hlt⟩ := hc.next hkind
  ⟨htokens, hfile, fun _ => hlt, hP⟩

end EndsWell

namespace Safe

variable {α β : Type} {I : Input} {k k' : Nat} {pre pre' : Cursor → Prop} {m m' : Parse α}
  {f : α → Parse β} {must Q : α → Prop} {must' P : β → Prop} {kind : Kind}

lemma weaken (h : Safe I k pre m must Q) (hpre : ∀ c, pre' c → pre c) : Safe I k pre' m must Q :=
  fun c hc hc' => h c hc (hpre c hc')

lemma anywhere (h : Safe I k Anywhere m must Q) : Safe I k pre m must Q :=
  h.weaken fun _ _ => trivial

lemma imp {Q' : α → Prop} (h : Safe I k pre m must Q) (hQ : ∀ a, Q a → Q' a) :
    Safe I k pre m must Q' :=
  fun c hc hpre => (h c hc hpre).imp hQ

lemma never (h : Safe I k pre m must Q) : Safe I k pre m Never Q :=
  fun c hc hpre => (h c hc hpre).onward (suffix_refl _) rfl fun _ => False.elim

lemma lower (h : Safe I (k + 1) pre m must Q) : Safe I k pre m must Q :=
  fun c hc => h c (hc.onward (suffix_refl _) rfl (Nat.add_le_add_right (Nat.le_succ k) _))

lemma pure {a : α} (ha : ¬ must a) (hQ : I.genuine → Q a) : Safe I k pre (pure a) must Q :=
  fun _ _ _ => .stay ha hQ

lemma skip {a : α} (hQ : I.genuine → Q a) : Safe I k pre (Pure.pure a) Never Q := .pure id hQ

lemma idle {a : α} : Safe I k pre (Pure.pure a) Never Always := .skip fun _ => trivial

lemma throw {e : SyntaxFault} (he : ∀ c, c.Fits I k → pre c → Documented I.file I.tokens e) :
    Safe I k pre (throw e) must Q := he

lemma throw_bind {e : SyntaxFault} (he : Documented I.file I.tokens e) :
    Safe I k pre (MonadExcept.throw e >>= f) must' P :=
  fun _ _ _ => he

lemma ite {p : Prop} [Decidable p] (hm : p → Safe I k pre m must Q)
    (hm' : ¬ p → Safe I k pre m' must Q) : Safe I k pre (if p then m else m') must Q := by
  split_ifs with hp
  · exact hm hp
  · exact hm' hp

/-- Two readers one after the other. The second has to pass a token only if the first has not, and
nests less deep if it has. -/
lemma seq (hm : Safe I k pre m must Q) (hk : k ≤ k' + 1)
    (hpast : ∀ a, must a → (I.genuine → Q a) → Safe I k' Anywhere (f a) Never P)
    (hnot : ∀ a, ¬ must a → (I.genuine → Q a) → Safe I k Anywhere (f a) must' P) :
    Safe I k pre (m >>= f) must' P := by
  intro c hc hpre
  rw [bind_run]
  have hfirst := hm c hc hpre
  cases hrun : m c with
  | error =>
    rw [hrun] at hfirst
    exact hfirst
  | ok a d =>
    rw [hrun] at hfirst
    obtain ⟨htokens, hfile, hshort, hQ⟩ := hfirst
    by_cases ha : must a
    · have hlt := hshort ha
      have hrest := hpast a ha hQ d (hc.onward htokens hfile (by omega)) trivial
      exact hrest.onward htokens hfile fun _ _ => .inr hlt
    · have hrest := hnot a ha hQ d (hc.same_bound htokens hfile) trivial
      exact hrest.onward htokens hfile fun _ => .inl

lemma bind (hm : Safe I k pre m must Q)
    (hf : ∀ a, (I.genuine → Q a) → Safe I k Anywhere (f a) must' P) :
    Safe I k pre (m >>= f) must' P :=
  hm.never.seq (Nat.le_add_right k 1) (fun _ ha => ha.elim) fun a _ => hf a

/-- What follows a token nests less deep. -/
lemma after (hm : Safe I (k + 1) pre m Always Q)
    (hf : ∀ a, (I.genuine → Q a) → Safe I k Anywhere (f a) Never P) :
    Safe I (k + 1) pre (m >>= f) must' P :=
  hm.seq (Nat.le_refl _) (fun a _ => hf a) fun _ ha => absurd trivial ha

/-- What follows a token does not have to pass one. -/
lemma past (hm : Safe I k pre m Always Q)
    (hf : ∀ a, (I.genuine → Q a) → Safe I k Anywhere (f a) Never P) :
    Safe I k pre (m >>= f) must' P :=
  hm.seq (Nat.le_add_right k 1) (fun a _ => hf a) fun _ ha => absurd trivial ha

lemma map {g : α → β} (hm : Safe I k pre m must Q) (hg : ∀ a, Q a → P (g a)) :
    Safe I k pre (g <$> m) Never P := by
  exact hm.bind fun a ha => .skip fun h => hg a (ha h)

/-- A test leaves the cursor where it is. -/
lemma read {v : Cursor → α} (hm : ∀ c, m c = .ok (v c) c)
    (hf : ∀ a, Safe I k (fun c => pre c ∧ v c = a) (f a) must' P) :
    Safe I k pre (m >>= f) must' P := by
  intro c hc hpre
  rw [bind_ok (hm c)]
  exact hf (v c) c hc ⟨hpre, rfl⟩

/-! ### Single tokens -/

lemma test {v : Cursor → α} (hm : ∀ c, m c = .ok (v c) c) : Safe I k pre m Never Always := by
  intro c _ _
  rw [hm c]
  exact .stay id fun _ => trivial

lemma skipNewlines : Safe I k pre skipNewlines Never Always :=
  fun c _ _ => ⟨suffix_skip c, rfl, False.elim, fun _ => trivial⟩

lemma skipTerminator : Safe I k pre skipTerminator Never Always := by
  intro c hc _
  rw [skipTerminator_run, Cursor.terminate]
  split_ifs with hkind
  · exact .next hc (fun hend => by rw [hend] at hkind; cases hkind) fun _ => trivial
  · exact .stay id fun _ => trivial

section

variable (hkind : ∀ c, pre c → c.current.kind ≠ .endOfFile)
include hkind

/-- What follows a token may be about it, and nests less deep. -/
lemma advance_bind {f : Token → Parse β}
    (hf : ∀ c, c.Fits I (k + 1) → pre c → Safe I k Anywhere (f c.current) Never P) :
    Safe I (k + 1) pre (advance >>= f) must' P := by
  intro c hc hpre
  obtain ⟨htokens, hfile, hlt⟩ := hc.next (hkind c hpre)
  have hrest := hf c hc hpre c.next (hc.onward htokens hfile (by omega)) trivial
  rw [bind_ok (advance_run c)]
  exact hrest.onward htokens hfile fun _ _ => .inr hlt

lemma advance {Q : Token → Prop}
    (hQ : ∀ c, c.Lexed I.Among → pre c → Q c.current) : Safe I k pre advance Always Q := by
  intro c hc hpre
  rw [advance_run]
  exact .next hc (hkind c hpre) fun g => hQ c (hc.lexed g) hpre

lemma token : Safe I k pre Syntax.advance Always fun t => Valued I.Among t.value :=
  .advance hkind fun _ hc _ => hc.valued

end

lemma move : Safe I k pre Syntax.advance Never Always := by
  intro c hc _
  rw [advance_run]
  by_cases hrest : c.rest = []
  · rw [Cursor.next_of_rest_nil hrest]
    exact .stay id fun _ => trivial
  · refine ⟨⟨[c.current], (Cursor.tokens_eq_cons_next hrest).symm⟩, ?_, False.elim,
      fun _ => trivial⟩
    unfold Cursor.next
    split <;> rfl

lemma accept (hkind : kind ≠ .endOfFile) :
    Safe I k pre (accept kind) (· = true) Always := by
  intro c hc _
  rw [accept_run]
  split_ifs with hc'
  · exact .next hc (hc' ▸ hkind) fun _ => trivial
  · exact .stay Bool.false_ne_true fun _ => trivial

/-- What follows an optional token does not have to pass another one. -/
lemma accept_ite (hkind : kind ≠ .endOfFile) (hm : Safe I k Anywhere m Never Q)
    (hm' : Safe I k Anywhere m' must Q) :
    Safe I k pre (Syntax.accept kind >>= fun b => if b = true then m else m') must Q :=
  (accept hkind).seq (Nat.le_add_right k 1)
    (fun _ hb _ => .ite (fun _ => hm) fun hno => absurd hb hno)
    fun _ hb _ => .ite (fun hyes => absurd hyes hb) fun _ => hm'

lemma expect {Q : Token → Prop} (hkind : kind ≠ .endOfFile)
    (hQ : ∀ c, c.Lexed I.Among → pre c → c.current.kind = kind → Q c.current) :
    Safe I k pre (expect kind) Always Q := by
  intro c hc hpre
  rw [expect_run]
  split_ifs with hc'
  · exact .next hc (hc' ▸ hkind) fun g => hQ c (hc.lexed g) hpre hc'
  · exact hc.blame rfl

lemma expectKind (hkind : kind ≠ .endOfFile) :
    Safe I k pre (Syntax.expect kind) Always Always :=
  .expect hkind fun _ _ _ _ => trivial

lemma expectSymbol {mark : Symbol} : Safe I k pre (expectSymbol mark) Always Always :=
  .past (.expectKind (by simp)) fun _ _ => .idle

lemma symbol {mark : Symbol} (hm : Safe I k Anywhere m must Q) :
    Safe I k pre (Syntax.expectSymbol mark >>= fun _ => m) must Q :=
  .bind .expectSymbol fun _ _ => hm

lemma newlines (hm : Safe I k Anywhere m must Q) :
    Safe I k pre (Syntax.skipNewlines >>= fun _ => m) must Q :=
  .bind .skipNewlines fun _ _ => hm

lemma symbol_bind {mark : Symbol} {f : Unit → Parse β}
    (hf : Safe I k (fun d => ∃ c, pre c ∧ d = c.next) (f ()) Never P) :
    Safe I (k + 1) pre (Syntax.expectSymbol mark >>= f) must' P := by
  intro c hc hpre
  rw [bind_run, expectSymbol_run]
  split_ifs with hkind
  · obtain ⟨htokens, hfile, hlt⟩ := hc.next (by rw [hkind]; simp)
    have hrest := hf c.next (hc.onward htokens hfile (by omega)) ⟨c, hpre, rfl⟩
    exact hrest.onward htokens hfile fun _ _ => .inr hlt
  · exact hc.blame rfl

/-- What follows a token may be about it. -/
lemma expect_bind (hkind : kind ≠ .endOfFile) {f : Token → Parse β}
    (hf : ∀ c : Cursor, c.Fits I k → Safe I k Anywhere (f c.current) Never P) :
    Safe I k pre (Syntax.expect kind >>= f) must' P := by
  intro c hc _
  rw [bind_run, expect_run]
  split_ifs with hc'
  · obtain ⟨htokens, hfile, hlt⟩ := hc.next (hc' ▸ hkind)
    have hrest := hf c hc c.next (hc.same_bound htokens hfile) trivial
    exact hrest.onward htokens hfile fun _ _ => .inr hlt
  · exact hc.blame rfl

lemma identifier {Q : String → Prop}
    (hQ : ∀ c, c.Lexed I.Among → pre c → Word I.Among c.current.value → Q c.current.value) :
    Safe I k pre expectIdentifier Always Q := by
  refine .past (Q := fun t => Q t.value) (.expect (by simp) fun c hc hpre hk => ?_)
    fun _ ht => .skip ht
  exact hQ c hc hpre (hc.word (by simp [hk, isName]))

lemma expectIdentifier : Safe I k pre expectIdentifier Always (Word I.Among) :=
  .identifier fun _ _ _ hword => hword

lemma expectName : Safe I k pre expectName Always (Word I.Among) := by
  intro c hc _
  rw [expectName_run]
  split_ifs with hc'
  · exact .next hc (fun hend => by rw [hend] at hc'; cases hc') fun g => (hc.lexed g).word hc'
  · exact hc.blame rfl

lemma element_ite (hm : Safe I k OpensTag m must Q) (hm' : Safe I k pre m' must Q) :
    Safe I k pre (atElement >>= fun b => if b = true then m else m') must Q := by
  refine .read atElement_run fun b => .ite (fun hb => ?_) fun _ => hm'.weaken fun _ hc => hc.1
  exact hm.weaken fun c hc => hc.2.trans hb

/-- An expression that may be left out. -/
lemma given {m : Parse Node} {must R : Node → Prop} (hm : Safe I k pre m must R) :
    Safe I k pre (some <$> m) Never fun value => ∀ v ∈ value, R v :=
  hm.map fun _ he _ hv => Option.some.inj hv ▸ he

lemma missing {R : Node → Prop} :
    Safe I k pre (Pure.pure none) Never fun value => ∀ v ∈ value, R v := .skip fun _ => nofun

end Safe

/-! ### Loops -/

/-- One round of a loop. It keeps an invariant and passes a token unless it is the last one, which
has the result. -/
def Round {β : Type} (I : Input) (k : Nat) (step : α → Parse (α ⊕ β)) (J : α → Prop)
    (P : β → Prop) : Prop :=
  ∀ a, (I.genuine → J a) → Safe I k Anywhere (step a) (·.isLeft = true) (Sum.elim J P)

/-- One round of a loop that collects values. -/
def Collects (I : Input) (k : Nat) (step : List α → Parse (List α ⊕ List α))
    (Q : α → Prop) : Prop :=
  Round I k step (fun as => ∀ a ∈ as, Q a) fun as => ∀ a ∈ as, Q a

section Loops

variable {α β : Type} {I : Input} {k : Nat} {pre : Cursor → Prop} {J Q : α → Prop} {P : β → Prop}
  {step : α → Parse (α ⊕ β)} {done : Parse Bool} {item : Parse α} {between : Parse Unit} {a : α}
  {acc : List α}

namespace Safe

/-- A loop ends if each of its rounds but the last one passes a token. -/
lemma loop (hstep : Round I k step J P) (n : Nat) (ha : I.genuine → J a) :
    Safe I k (·.rest.length + 1 < n) (loop step n a) Never P := by
  induction n generalizing a with
  | zero => exact fun c _ hn => absurd hn (Nat.not_lt_zero _)
  | succ n ih =>
    intro c hc hn
    have hround := hstep a ha c hc trivial
    rw [Syntax.loop, bind_run]
    cases hrun : step a c with
    | error =>
      rw [hrun] at hround
      exact hround
    | ok x d =>
      rw [hrun] at hround
      obtain ⟨htokens, hfile, hlt, hx⟩ := hround
      cases x with
      | inr => exact ⟨htokens, hfile, False.elim, hx⟩
      | inl =>
        have hlt := hlt rfl
        have hrest := ih hx d (hc.same_bound htokens hfile)
          (by simp only [Cursor.tokens, length_cons] at hlt; omega)
        exact hrest.onward htokens hfile fun _ => .inl

lemma iterate (hstep : Round I k step J P) (ha : I.genuine → J a) :
    Safe I k pre (iterate step a) Never P := by
  intro c hc _
  exact loop hstep _ ha c hc (Nat.lt_succ_self _)

lemma collect {step : List α → Parse (List α ⊕ List α)} (hstep : Collects I k step Q) :
    Safe I k pre (Syntax.iterate step []) Never fun as => ∀ a ∈ as, Q a :=
  .iterate hstep fun _ => nofun

lemma last {b : β} (hb : I.genuine → P b) :
    Safe I k pre (Pure.pure (.inr b) : Parse (α ⊕ β)) (·.isLeft = true) (Sum.elim J P) :=
  .pure Bool.false_ne_true hb

lemma collected (hacc : I.genuine → ∀ a ∈ acc, Q a) :
    Safe I k pre (Pure.pure (.inr acc.reverse) : Parse (List α ⊕ List α)) (·.isLeft = true)
      (Sum.elim (fun as => ∀ a ∈ as, Q a) fun as => ∀ a ∈ as, Q a) :=
  .last fun g a ha => hacc g a (mem_reverse.mp ha)

lemma another (ha : I.genuine → Q a) (hacc : I.genuine → ∀ a ∈ acc, Q a) :
    Safe I k pre (Pure.pure (.inl (a :: acc)) : Parse (List α ⊕ List α)) Never
      (Sum.elim (fun as => ∀ a ∈ as, Q a) fun as => ∀ a ∈ as, Q a) :=
  .skip fun g => forall_mem_cons.mpr ⟨ha g, hacc g⟩

end Safe

lemma untilStep_round (hdone : Safe I k Anywhere done Never Always)
    (hitem : Safe I k Anywhere item Always Q) : Collects I k (untilStep done item) Q :=
  fun _ hacc => hdone.bind fun _ _ => .ite (fun _ => .collected hacc) fun _ =>
    hitem.past fun _ ha => .another ha hacc

lemma separatedStep_round (hdone : Safe I k Anywhere done Never Always)
    (hitem : Safe I k Anywhere item Always Q) (hbetween : Safe I k Anywhere between Never Always) :
    Collects I k (separatedStep done item between) Q := by
  intro acc hacc
  refine hdone.bind fun _ _ => .ite (fun _ => .collected hacc) fun _ => hitem.past fun a ha => ?_
  have hcons (g : I.genuine) : ∀ b ∈ a :: acc, Q b := forall_mem_cons.mpr ⟨ha g, hacc g⟩
  exact .accept_ite (by simp) (hbetween.bind fun _ _ => .another ha hacc)
    (Safe.collected hcons).never

end Loops

/-! ### Operators -/

/-- A test for some symbols, which leaves the cursor where it is. -/
def Recognizes (m : Parse Bool) (marks : List Symbol) : Prop :=
  ∀ c, ∃ b, m c = .ok b c ∧ (b = true → ∃ mark ∈ marks, c.current.kind = .symbol mark)

lemma recognizes_checkAny (marks : List Symbol) : Recognizes (checkAny marks) marks := by
  refine fun c => ⟨_, checkAny_run marks c, fun hmark => ?_⟩
  split at hmark
  · exact ⟨_, contains_iff_mem.mp hmark, ‹_›⟩
  · cases hmark

lemma recognizes_check (mark : Symbol) : Recognizes (check (.symbol mark)) [mark] :=
  fun c => ⟨_, check_run _ c, fun hmark => ⟨mark, mem_singleton_self _, eq_of_beq hmark⟩⟩

lemma recognizes_isComparison : Recognizes isComparison [.lt, .gt, .lte, .gte] := by
  intro c
  unfold isComparison
  rw [bind_ok (check_run _ c)]
  split_ifs with hlt
  · exact ⟨_, rfl, fun _ => ⟨.lt, mem_cons_self, eq_of_beq hlt⟩⟩
  · obtain ⟨b, hb, hmark⟩ := recognizes_checkAny [.gt, .lte, .gte] c
    refine ⟨b, hb, fun hyes => ?_⟩
    obtain ⟨mark, hmem, hkind⟩ := hmark hyes
    exact ⟨mark, mem_cons_of_mem _ hmem, hkind⟩

section Levels

variable {I : Input} {k : Nat} {pre : Cursor → Prop} {isOperator : Parse Bool}
  {operand : Parse Node} {marks : List Symbol} {join : Place → String → Node → Node → Node}
  {R : Node → Prop}

/-- Operands pass tokens, and so does an operator in front of one. -/
lemma operatorStep_round (hop : Recognizes isOperator marks)
    (hoperand : Safe I (k + 1) Anywhere operand Always R)
    (hjoin : ∀ place left right, ∀ mark ∈ marks, R left → R right →
      R (join place mark.spelling left right)) :
    Round I k (operatorStep isOperator operand join) R R := by
  intro left hleft c hc _
  obtain ⟨b, hb, hmark⟩ := hop c
  unfold operatorStep
  rw [bind_ok hb]
  cases b with
  | false => exact .stay Bool.false_ne_true hleft
  | true =>
    obtain ⟨mark, hmem, hkind⟩ := hmark rfl
    have hafter : Safe I k (· = c) (do
        let op ← advance
        let right ← operand
        return .inl (join c.current.place op.value left right))
        (fun x : Node ⊕ Node => x.isLeft = true) (Sum.elim R R) := by
      refine .past (Q := fun op => op.value = mark.spelling) (.advance ?_ ?_) fun op hop => ?_
      · rintro _ rfl
        simp [hkind]
      · rintro _ hlexed rfl
        exact hlexed.current.spelling hkind
      · refine hoperand.lower.bind fun right hright => .skip fun g => ?_
        rw [hop g]
        exact hjoin _ _ _ mark hmem (hleft g) (hright g)
    exact hafter c hc rfl

lemma leftAssociative_safe (hoperand : Safe I (k + 1) Anywhere operand Always R)
    (hstep : Round I k (operatorStep isOperator operand join) R R) :
    Safe I (k + 1) pre (leftAssociative isOperator operand join) Always R :=
  hoperand.anywhere.after fun _ he => .iterate hstep he

end Levels

end UiScript.Syntax
