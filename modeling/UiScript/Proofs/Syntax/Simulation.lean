import UiScript.Proofs.Syntax.Cursor

/-!
# Readings that follow one another

Two readers are compared from two cursors on. A `Simulation` says which cursors correspond: `near`
in the midst of a statement and `past` behind one. If the comparison is not for the `whole` of the
tokens, the first reading comes to its end where the second one stands before a line end. There,
inside something that is still to be closed, nothing is compared any more.

`Simulation.Follows` is the judgement about two readers. It is closed under the combinators that the
grammar is written with, so each production follows from the productions that it uses.
-/

namespace UiScript.Syntax

open Token (Kind row row_eq_iff)

variable {α β γ δ : Type}

/-- Which cursors of two readings correspond. -/
structure Simulation where
  /-- Both cursors stand at the same point inside a statement. -/
  near : Cursor → Cursor → Prop
  /-- Both cursors stand behind the same statement. -/
  past : Cursor → Cursor → Prop
  /-- The comparison goes on to the end, and faults are compared too. -/
  whole : Prop
  current_of_near {c c' : Cursor} : near c c' → c.current.row = c'.current.row ∨
    ¬whole ∧ c.AtEnd ∧ c'.current.kind = .newline
  length_of_near {c c' : Cursor} : near c c' → c.rest.length ≤ c'.rest.length
  near_next {c c' : Cursor} : near c c' → c.current.row = c'.current.row →
    isInside c.current.kind → near c.next c'.next
  rest_of_near {c c' : Cursor} : near c c' → c.current.row = c'.current.row →
    isInside c.current.kind → (c.rest = [] ↔ c'.rest = [])
  near_skip {c c' : Cursor} : near c c' → near c.skip c'.skip ∨
    ¬whole ∧ c.skip.AtEnd ∧ past c.skip c'.skip ∧ c'.skip.current.kind ≠ .keyword .elseWord
  past_terminate {c c' : Cursor} : near c c' → past c.terminate c'.terminate
  past_of_near {c c' : Cursor} : near c c' → past c c'
  near_of_past {c c' : Cursor} : past c c' → near c c' ∨ ¬whole ∧ c.AtEnd
  near_fragments {c c' : Cursor} (ns ns' : List Nat) : near c c' →
    near { c with fragments := ns } { c' with fragments := ns' }
  arrow_of_near {c c' : Cursor} : near c c' → c.current.kind = .symbol .leftParen →
    closesBeforeArrow 0 c.tokens = closesBeforeArrow 0 c'.tokens
  object_of_near {c c' : Cursor} : near c c' → c.current.kind = .symbol .leftBrace →
    opensObject c.rest = opensObject c'.rest

namespace Simulation

/-- How closely the cursors correspond after two readings. -/
inductive Grade where
  | near
  | past
  /-- As `near`, unless the first reading has come to its end. -/
  | inner
  deriving DecidableEq

variable (S : Simulation) {mark : Symbol} {p : Kind → String → Bool}

/-- The comparison is over: the first reading has come to its end, and something is still to be
closed. -/
def Lost (g : Grade) (c : Cursor) : Prop := g = .inner ∧ ¬S.whole ∧ c.AtEnd

/-- The cursors correspond after two readings that succeeded. -/
def At : Grade → Cursor → Cursor → Prop
  | .past => S.past
  | _ => S.near

/-- The results of two readings agree; of a value only its view is compared. -/
inductive Agrees (g : Grade) (v : α → γ) :
    EStateM.Result SyntaxFault Cursor α → EStateM.Result SyntaxFault Cursor α → Prop
  | endless {c : Cursor} {r} : Agrees g v (.error .endless c) r
  | free {e : SyntaxFault} {c : Cursor} {r} (h : ¬S.whole) : Agrees g v (.error e c) r
  | fault {e e' : SyntaxFault} {c c' : Cursor} (h : e.message = e'.message) :
      Agrees g v (.error e c) (.error e' c')
  | lost {a : α} {c : Cursor} {r} (h : S.Lost g c) : Agrees g v (.ok a c) r
  | ok {a b : α} {c c' : Cursor} (hv : v a = v b) (h : S.At g c c') :
      Agrees g v (.ok a c) (.ok b c')

/-- A reading passes tokens that turn the open brackets `s` into `s'`. Except inside something that
is still to be closed, they do not end with a comma. -/
def Passes (s s' : List Bracket) (g : Grade) (c c₁ : Cursor) : Prop :=
  ∃ u, c.tokens = u ++ c₁.tokens ∧ nest s u = some s' ∧ (g = .inner ∨ Finished u)

/-- From corresponding cursors, where the first one stands before a token of a kind in `P`, the
readers agree. The first one turns the open brackets `s` into `s'`. -/
structure Follows (P : Kind → Prop) (s s' : List Bracket) (g : Grade) (v : α → γ)
    (m m' : Parse α) : Prop where
  reads {c c₁ : Cursor} {a : α} : c.Ended → P c.current.kind → m c = .ok a c₁ →
    Passes s s' g c c₁
  agrees {c c' : Cursor} : P c.current.kind → S.near c c' → S.Agrees g v (m c) (m' c')

def anyKind (_ : Kind) : Prop := True

/-- Readers of a node inside a statement follow one another. -/
abbrev FollowsNode (s : List Bracket) (m m' : Parse Node) : Prop :=
  S.Follows anyKind s s .near Node.unplaced m m'

variable {S} {P Q : Kind → Prop} {s s₁ s₂ : List Bracket} {g : Grade} {v : α → γ} {w : β → δ}

variable {c c' d : Cursor} {g' : Grade} {m : Parse α} {f : α → Parse β} {kind : Kind}

/-- A test decides between two readers. -/
abbrev choose (test : Parse Bool) (a b : Parse α) : Parse α :=
  test >>= fun x => if x = true then a else b

/-- At its end a reading stays there. -/
lemma Lost.of_append (h : S.Lost g c) {u : List Token} (hu : c.tokens = u ++ d.tokens) :
    S.Lost g d := by
  obtain ⟨hg, hw, hkind, hrest⟩ := h
  rw [Cursor.tokens, hrest] at hu
  cases u with
  | nil =>
    obtain ⟨hcurrent, hrest⟩ := List.cons.inj hu
    exact ⟨hg, hw, hcurrent ▸ hkind, hrest.symm⟩
  | cons t ts => cases ts <;> cases (List.cons.inj hu).2

lemma Lost.ended (h : S.Lost g c) : c.Ended :=
  ⟨[], c.current, by rw [Cursor.tokens, h.2.2.2]; rfl, h.2.2.1⟩

/-! ### Agreement -/

/-- Agreement in a weaker sense. -/
lemma Agrees.mono {w : α → δ} {r r' : EStateM.Result SyntaxFault Cursor α} (h : S.Agrees g v r r')
    (hg : g = .inner → g' = .inner) (hok : ∀ {a b c c'}, v a = v b → S.At g c c' →
      w a = w b ∧ S.At g' c c' ∨ S.Lost g' c) : S.Agrees g' w r r' := by
  cases h with
  | endless => exact .endless
  | free hw => exact .free hw
  | fault hm => exact .fault hm
  | lost hl => exact .lost ⟨hg hl.1, hl.2⟩
  | ok hv hc =>
    rcases hok hv hc with ⟨hw, hc⟩ | hl
    · exact .ok hw hc
    · exact .lost hl

/-- Readings that agree so far agree to the end if what comes next does. Where the comparison is
over, only the result of the first one matters. -/
lemma Agrees.bind {m' : Parse α} {f' : α → Parse β} (h : S.Agrees g v (m c) (m' c'))
    (hlost : ∀ {a d}, S.Lost g d → ∀ {b e}, f a d = .ok b e → S.Lost g' e)
    (hok : ∀ {a b d d'}, m c = .ok a d → v a = v b → S.At g d d' →
      S.Agrees g' w (f a d) (f' b d')) : S.Agrees g' w ((m >>= f) c) ((m' >>= f') c') := by
  rw [bind_run, bind_run]
  generalize m c = r at h hok
  generalize m' c' = r' at h
  cases h with
  | endless => exact .endless
  | free hw => exact .free hw
  | fault hm => exact .fault hm
  | ok hv hc => exact hok rfl hv hc
  | @lost a d _ hl =>
    show S.Agrees g' w (f a d) _
    cases hr : f a d with
    | ok => exact .lost (hlost hl hr)
    | error => exact .free hl.2.1

/-- Before a token inside a statement, the first reading is not at its end. -/
lemma row_of_near (h : S.near c c') (hi : isInside c.current.kind) :
    c.current.row = c'.current.row :=
  (S.current_of_near h).resolve_right fun hb => ne_endOfFile_of_isInside hi hb.2.1.1

/-! ### Passing tokens -/

lemma Passes.refl (s : List Bracket) (g : Grade) (c : Cursor) : Passes s s g c c :=
  ⟨[], rfl, rfl, Or.inr fun _ ht => nomatch ht⟩

lemma Passes.next (hc : c.Ended) (hi : isInside c.current.kind)
    (hs : nestStep s c.current.kind = some s₁) (hg : g = .inner ∨ c.current.kind ≠ .symbol .comma) :
    Passes s s₁ g c c.next := by
  refine ⟨[c.current],
    Cursor.tokens_eq_cons_next (hc.rest_ne_nil (ne_endOfFile_of_isInside hi)), ?_,
    hg.imp_right ?_⟩
  · simp [nest_cons, hs]
  · intro hk t ht
    simp only [List.getLast?_singleton, Option.mem_some_iff] at ht
    rwa [← ht]

lemma Passes.skip (s : List Bracket) (g : Grade) (c : Cursor) : Passes s s g c c.skip := by
  obtain ⟨us, hus, hall⟩ := c.skip_append
  exact ⟨us, hus, nest_separators hall s, Or.inr (finished_separators hall)⟩

lemma Passes.terminate (s : List Bracket) (g : Grade) (hc : c.Ended) :
    Passes s s g c c.terminate := by
  unfold Cursor.terminate
  split_ifs with h
  · have hk : c.current.kind ≠ .endOfFile := by
      intro he
      simp [he, isSeparator] at h
    have hall : ∀ u ∈ [c.current], isSeparator u.kind := by simpa using h
    exact ⟨[c.current], Cursor.tokens_eq_cons_next (hc.rest_ne_nil hk), nest_separators hall s,
      Or.inr (finished_separators hall)⟩
  · exact .refl s g c

section

variable (h : Passes s s₁ g c d)
include h

lemma Passes.weaken (hg : g = .inner → g' = .inner) : Passes s s₁ g' c d := by
  obtain ⟨u, hu, hn, hf⟩ := h
  exact ⟨u, hu, hn, hf.imp_left hg⟩

lemma Passes.trans {e : Cursor} (h' : Passes s₁ s₂ g' d e)
    (hg : g = .inner → g' = .inner) : Passes s s₂ g' c e := by
  obtain ⟨u, hu, hn, hf⟩ := h.weaken hg
  obtain ⟨u', hu', hn', hf'⟩ := h'
  refine ⟨u ++ u', by rw [hu, hu', List.append_assoc], nest_append hn hn', ?_⟩
  rcases hf with hf | hf
  · exact Or.inl hf
  · exact hf'.imp_right hf.append

/-- Whatever came before, the last tokens tell whether something is finished. -/
lemma Passes.trans_of_lt {e : Cursor} (h' : Passes s₁ s₂ g' d e)
    (hlt : e.rest.length < d.rest.length) : Passes s s₂ g' c e := by
  obtain ⟨u, hu, hn, -⟩ := h
  obtain ⟨u', hu', hn', hf'⟩ := h'
  refine ⟨u ++ u', by rw [hu, hu', List.append_assoc], nest_append hn hn', ?_⟩
  refine hf'.imp_right fun hf => hf.append_left ?_
  rintro rfl
  have := congrArg List.length hu'
  simp only [Cursor.tokens, List.nil_append, List.length_cons] at this
  omega

lemma Passes.ended (hc : c.Ended) : d.Ended := by
  obtain ⟨u, hu, -⟩ := h
  exact hc.of_append hu

lemma Passes.lost (hc : S.Lost g' c) : S.Lost g' d := by
  obtain ⟨u, hu, -⟩ := h
  exact hc.of_append hu

lemma Passes.length_le : d.rest.length ≤ c.rest.length := by
  obtain ⟨u, hu, -⟩ := h
  have := congrArg List.length hu
  simp only [Cursor.tokens, List.length_append, List.length_cons] at this
  omega

end

/-- A reader that does not go back. -/
def Moves (m : Parse α) : Prop :=
  ∀ c a d, c.Ended → m c = .ok a d → d.Ended ∧ d.rest.length ≤ c.rest.length

/-- A reader that passes at least one token. -/
def Takes (m : Parse α) : Prop :=
  ∀ c a d, c.Ended → m c = .ok a d → d.Ended ∧ d.rest.length < c.rest.length

lemma Takes.bind (h : Takes m) (hf : ∀ a, Moves (f a)) : Takes (m >>= f) := by
  intro c b e hc hr
  obtain ⟨a, d, hm, hfd⟩ := bind_eq_ok.mp hr
  obtain ⟨hd, hlt⟩ := h c a d hc hm
  obtain ⟨he, hle⟩ := hf a d b e hd hfd
  exact ⟨he, by omega⟩

lemma Moves.bind_takes (h : Moves m) (hf : ∀ a, Takes (f a)) : Takes (m >>= f) := by
  intro c b e hc hr
  obtain ⟨a, d, hm, hfd⟩ := bind_eq_ok.mp hr
  obtain ⟨hd, hle⟩ := h c a d hc hm
  obtain ⟨he, hlt⟩ := hf a d b e hd hfd
  exact ⟨he, by omega⟩

lemma takes_next (hc : c.Ended) (hk : c.current.kind ≠ .endOfFile) :
    c.next.Ended ∧ c.next.rest.length < c.rest.length := by
  have htokens := Cursor.tokens_eq_cons_next (hc.rest_ne_nil hk)
  refine ⟨hc.of_append (u := [c.current]) htokens, ?_⟩
  have := congrArg List.length htokens
  simp only [Cursor.tokens, List.length_cons] at this
  omega

lemma takes_expect (h : kind ≠ .endOfFile) : Takes (expect kind) := by
  intro c a d hc hr
  rw [expect_run] at hr
  split_ifs at hr with hk
  cases hr
  exact takes_next hc (hk ▸ h)

lemma moves_pure (a : α) : Moves (pure a) := by
  intro c b d hc hr
  cases hr
  exact ⟨hc, Nat.le_refl _⟩

lemma takes_expectSymbol : Takes (expectSymbol mark) :=
  (takes_expect (by simp)).bind fun _ => moves_pure _

lemma moves_skipNewlines : Moves skipNewlines := by
  intro c a d hc hr
  cases hr
  have hskip := Passes.skip [] .near c
  exact ⟨hskip.ended hc, hskip.length_le⟩

lemma takes_accept {a b : Parse α} (hk : kind ≠ .endOfFile) (ha : Takes a) (hb : Takes b) :
    Takes (choose (accept kind) a b) := by
  intro c x d hc hr
  rw [choose, bind_run, accept_run] at hr
  by_cases h : c.current.kind = kind
  · rw [if_pos h] at hr
    obtain ⟨hn, hlt⟩ := takes_next hc (h ▸ hk)
    obtain ⟨hd, hlt'⟩ := ha c.next x d hn hr
    exact ⟨hd, by omega⟩
  · rw [if_neg h] at hr
    exact hb c x d hc hr

namespace Follows

/-! ### Weaker judgements -/

variable {m m' : Parse α} {f f' : α → Parse β}

lemma weaken (h : S.Follows Q s s₁ g v m m') (hP : ∀ k, P k → Q k) :
    S.Follows P s s₁ g v m m' where
  reads hc hk := h.reads hc (hP _ hk)
  agrees hk := h.agrees (hP _ hk)

lemma any (h : S.Follows anyKind s s₁ g v m m') : S.Follows P s s₁ g v m m' :=
  h.weaken fun _ _ => trivial

lemma past (h : S.Follows P s s₁ .near v m m') :
    S.Follows P s s₁ .past v m m' where
  reads hc hk hr := (h.reads hc hk hr).weaken fun hg => nomatch hg
  agrees hk hn := (h.agrees hk hn).mono nofun fun hv hc => Or.inl ⟨hv, S.past_of_near hc⟩

lemma inner (h : S.Follows P s s₁ .near v m m') :
    S.Follows P s s₁ .inner v m m' where
  reads hc hk hr := (h.reads hc hk hr).weaken fun _ => rfl
  agrees hk hn := (h.agrees hk hn).mono nofun fun hv hc => Or.inl ⟨hv, hc⟩

lemma inner_of_past (h : S.Follows P s s₁ .past v m m') :
    S.Follows P s s₁ .inner v m m' where
  reads hc hk hr := (h.reads hc hk hr).weaken fun _ => rfl
  agrees hk hn := (h.agrees hk hn).mono nofun fun hv hc =>
    (S.near_of_past hc).imp (fun hc => ⟨hv, hc⟩) fun hl => ⟨rfl, hl⟩

/-! ### Sequences -/

lemma pure {a b : α} (h : v a = v b) : S.Follows P s s .near v (pure a) (pure b) where
  reads _ _ hr := by
    cases hr
    exact .refl _ _ _
  agrees _ hn := .ok h hn

lemma throw {e e' : SyntaxFault} (h : S.whole → e.message = e'.message) :
    S.Follows P s s₁ g v (throw e : Parse α) (throw e') where
  reads _ _ hr := nomatch hr
  agrees _ _ := by
    by_cases hw : S.whole
    · exact .fault (h hw)
    · exact .free hw

/-- A reader that gives up is compared with nothing. -/
lemma endless : S.Follows P s s₁ g v (MonadExcept.throw .endless) m where
  reads _ _ hr := nomatch hr
  agrees _ _ := .endless

lemma throw_bind {e e' : SyntaxFault} (h : S.whole → e.message = e'.message) :
    S.Follows P s s₁ g w ((MonadExcept.throw e : Parse α) >>= f) (MonadExcept.throw e' >>= f') :=
  Follows.throw h

/-- A value is made of what was read. -/
lemma yield {f f' : α → β} (hm : S.Follows P s s₁ g v m m')
    (hf : ∀ a b, v a = v b → w (f a) = w (f' b)) :
    S.Follows P s s₁ g w (m >>= fun a => Pure.pure (f a)) (m' >>= fun a => Pure.pure (f' a)) where
  reads {c d b} hc hk hr := by
    obtain ⟨a, e, hme, hp⟩ := bind_eq_ok.mp hr
    cases hp
    exact hm.reads hc hk hme
  agrees hk hn := by
    refine (hm.agrees hk hn).bind ?_ fun _ hv hc => .ok (hf _ _ hv) hc
    intro a d hl b e hr
    cases hr
    exact hl

lemma map {f f' : α → β} (hm : S.Follows P s s₁ g v m m')
    (hf : ∀ a b, v a = v b → w (f a) = w (f' b)) : S.Follows P s s₁ g w (f <$> m) (f' <$> m') := by
  rw [map_eq_pure_bind, map_eq_pure_bind]
  exact hm.yield hf

/-- Where the comparison is over after the first reader, it is over after both. -/
lemma sequence (hm : S.Follows P s s₁ g' v m m') (hg' : g' ≠ .past) (hg : g' = .inner → g = .inner)
    (hf : ∀ a b, v a = v b → S.Follows anyKind s₁ s₂ g w (f a) (f' b)) :
    S.Follows P s s₂ g w (m >>= f) (m' >>= f') where
  reads hc hk hr := by
    obtain ⟨a, e, hme, hfe⟩ := bind_eq_ok.mp hr
    have hpass := hm.reads hc hk hme
    exact hpass.trans ((hf a a rfl).reads (hpass.ended hc) trivial hfe) hg
  agrees hk hn := by
    refine (hm.agrees hk hn).bind ?_ fun _ hv hc => (hf _ _ hv).agrees trivial ?_
    · intro a d hl b e hr
      exact ((hf a a rfl).reads hl.ended trivial hr).lost ⟨hg hl.1, hl.2⟩
    · cases g' with
      | past => exact absurd rfl hg'
      | _ => exact hc

lemma bind (hm : S.Follows P s s₁ .near v m m')
    (hf : ∀ a b, v a = v b → S.Follows anyKind s₁ s₂ g w (f a) (f' b)) :
    S.Follows P s s₂ g w (m >>= f) (m' >>= f') :=
  hm.sequence nofun nofun hf

lemma bind_id (hm : S.Follows P s s₁ .near id m m')
    (hf : ∀ a, S.Follows anyKind s₁ s₂ g w (f a) (f' a)) :
    S.Follows P s s₂ g w (m >>= f) (m' >>= f') :=
  hm.bind fun a b hab => by
    obtain rfl : a = b := hab
    exact hf a

lemma bind_inner (hm : S.Follows P s s₁ .inner v m m')
    (hf : ∀ a b, v a = v b → S.Follows anyKind s₁ s₂ .inner w (f a) (f' b)) :
    S.Follows P s s₂ .inner w (m >>= f) (m' >>= f') :=
  hm.sequence nofun id hf

lemma moves (h : S.Follows anyKind s s₁ g v m m') : Moves m := by
  intro c a d hc hr
  have hpass := h.reads hc trivial hr
  exact ⟨hpass.ended hc, hpass.length_le⟩

/-- Where the next reader takes a token, the first reading is not at its end. -/
lemma bind_takes (hm : S.Follows P s s₁ .inner v m m') (ht : ∀ a, Takes (f a))
    (hf : ∀ a b, v a = v b → S.Follows anyKind s₁ s₂ g w (f a) (f' b)) :
    S.Follows P s s₂ g w (m >>= f) (m' >>= f') where
  reads hc hk hr := by
    obtain ⟨a, e, hme, hfe⟩ := bind_eq_ok.mp hr
    have hpass := hm.reads hc hk hme
    have he := hpass.ended hc
    exact hpass.trans_of_lt ((hf a a rfl).reads he trivial hfe) (ht a _ _ _ he hfe).2
  agrees hk hn := by
    refine (hm.agrees hk hn).bind ?_ fun _ hv hc => (hf _ _ hv).agrees trivial hc
    intro a d hl b e hr
    have hlt := (ht a _ _ _ hl.ended hr).2
    rw [hl.2.2.2] at hlt
    exact absurd hlt (Nat.not_lt_zero _)

lemma lift (h : S.Follows P s s₁ .near v m m') : S.Follows P s s₁ g v m m' := by
  cases g with
  | near => exact h
  | inner => exact h.inner
  | past => exact h.past

end Follows

/-! ### What corresponding cursors have in common -/

/-- A test does not tell a line end from the end. -/
def Blind (p : Kind → String → Bool) : Prop := ∀ x y, p .endOfFile x = p .newline y

/-- A test for a token inside a statement. -/
lemma blind_beq (hi : isInside kind) : Blind fun k _ => k == kind := by
  intro x y
  simp only [beq_false_of_ne (ne_endOfFile_of_isInside hi).symm,
    beq_false_of_ne (ne_newline_of_isInside hi).symm]

/-- A blind test comes out alike. -/
lemma test_of_near (h : S.near c c') (p : Kind → Bool) (hp : Blind fun k _ => p k) :
    p c.current.kind = p c'.current.kind := by
  rcases S.current_of_near h with hr | ⟨-, hc, hk⟩
  · rw [(row_eq_iff.mp hr).1]
  · rw [hc.1, hk]
    exact hp "" ""

/-- A blind test of the token behind one inside a statement comes out alike. -/
lemma head_of_near (h : S.near c c') (hi : isInside c.current.kind) (hp : Blind p) :
    (c.rest.head?.any fun t => p t.kind t.value) = c'.rest.head?.any fun t => p t.kind t.value := by
  have hrow := row_of_near h hi
  have hrest := S.rest_of_near h hrow hi
  have hnext := S.near_next h hrow hi
  cases hr : c.rest with
  | nil => rw [hrest.mp hr]
  | cons =>
    cases hr' : c'.rest with
    | nil => rw [hrest.mpr hr'] at hr; cases hr
    | cons =>
      simp only [Cursor.next, hr, hr'] at hnext
      simp only [List.head?_cons, Option.any_some]
      rcases S.current_of_near hnext with hrow | ⟨-, hc, hk⟩
      · obtain ⟨hkind, hvalue, -⟩ := row_eq_iff.mp hrow
        simp_all
      · rw [hc.1, hk]
        exact hp _ _

/-- A blind test of a symbol and of the token behind it comes out alike. -/
lemma behind_of_near (h : S.near c c') (hi : isInside (.symbol mark)) (hp : Blind p) :
    (c.current.kind == .symbol mark && c.rest.head?.any fun t => p t.kind t.value) =
      (c'.current.kind == .symbol mark && c'.rest.head?.any fun t => p t.kind t.value) := by
  rw [← test_of_near h (· == .symbol mark) (blind_beq hi)]
  by_cases hk : c.current.kind = .symbol mark
  · rw [head_of_near h (hk ▸ hi) hp]
  · rw [beq_false_of_ne hk, Bool.false_and, Bool.false_and]

namespace Follows

/-! ### Tests -/

variable {a b a' b' : Parse α} {kind : Kind}

/-- A test that leaves the cursor and comes out alike decides between readers that follow. -/
lemma observe {R : Kind → Prop} {m : Parse Bool} {t : Cursor → Bool} (hm : ∀ c, m c = .ok (t c) c)
    (hn : ∀ {c c'}, P c.current.kind → S.near c c' → t c = t c')
    (hQ : ∀ {c}, P c.current.kind → t c = true → Q c.current.kind)
    (hR : ∀ {c}, P c.current.kind → t c = false → R c.current.kind) (ht : S.Follows Q s s₁ g v a a')
    (hf : S.Follows R s s₁ g v b b') :
    S.Follows P s s₁ g v (choose m a b) (choose m a' b') where
  reads {c d x} hc hk hr := by
    rw [choose, bind_ok (hm c)] at hr
    cases hcase : t c with
    | true => exact ht.reads hc (hQ hk hcase) (by simpa [hcase] using hr)
    | false => exact hf.reads hc (hR hk hcase) (by simpa [hcase] using hr)
  agrees {c c'} hk hnear := by
    rw [choose, choose, bind_ok (hm c), bind_ok (hm c'), ← hn hk hnear]
    cases hcase : t c with
    | true => exact ht.agrees (hQ hk hcase) hnear
    | false => exact hf.agrees (hR hk hcase) hnear

/-- A test that is not blind may end the comparison. -/
lemma test_inner (p : Kind → Bool) :
    S.Follows P s s .inner id (do return p (← peek)) (do return p (← peek)) where
  reads _ _ hr := by
    cases hr
    exact .refl _ _ _
  agrees {c c'} _ hn := by
    rcases S.current_of_near hn with hrow | ⟨hw, hc, -⟩
    · exact .ok (by rw [(row_eq_iff.mp hrow).1]) hn
    · exact .lost ⟨rfl, hw, hc⟩

lemma check_inner : S.Follows P s s .inner id (check kind) (check kind) :=
  test_inner (· == kind)

lemma check_ite (hi : isInside kind) (ht : S.Follows (· = kind) s s₁ g v a a')
    (hf : S.Follows P s s₁ g v b b') :
    S.Follows P s s₁ g v (choose (check kind) a b) (choose (check kind) a' b') := by
  refine observe (check_run kind)
    (fun _ hn => test_of_near hn (· == kind) (blind_beq hi)) ?_ (fun h _ => h) ht hf
  intro c _ h
  exact eq_of_beq h

/-- The start of an element decides. -/
lemma element_ite (ht : S.Follows (· = .symbol .lt) s s₁ g v a a')
    (hf : S.Follows P s s₁ g v b b') :
    S.Follows P s s₁ g v (choose atElement a b) (choose atElement a' b') := by
  refine observe atElement_run (fun _ hn => behind_of_near hn rfl fun _ _ => rfl) ?_
    (fun h _ => h) ht hf
  intro c _ h
  exact eq_of_beq (Bool.and_eq_true_iff.mp h).1

/-- The start of a closing tag decides. -/
lemma closingTag_ite (ht : S.Follows P s s₁ g v a a') (hf : S.Follows P s s₁ g v b b') :
    S.Follows P s s₁ g v (choose atClosingTag a b) (choose atClosingTag a' b') := by
  refine observe atClosingTag_run (fun _ hn => ?_) (fun h _ => h) (fun h _ => h) ht hf
  exact behind_of_near hn rfl (p := fun kind _ => kind == .symbol .slash) fun _ _ => rfl

/-- Whether a brace opens an object decides. -/
lemma object_ite (ht : S.Follows (· = .symbol .leftBrace) s s₁ g v a a')
    (hf : S.Follows (· = .symbol .leftBrace) s s₁ g v b b') :
    S.Follows (· = .symbol .leftBrace) s s₁ g v (choose atObject a b) (choose atObject a' b') :=
  observe atObject_run (fun hk hn => S.object_of_near hn hk) (fun h _ => h) (fun h _ => h) ht hf

/-- A token of a kind and what is seen behind it decide. -/
lemma check_and_ite {m : Parse β} {look : Cursor → β} {f : β → Bool} (hi : isInside kind)
    (hm : ∀ c, m c = .ok (look c) c)
    (hn : ∀ {c c'}, S.near c c' → c.current.kind = kind → f (look c) = f (look c'))
    (hQ : ∀ {c}, c.current.kind = kind → f (look c) = true → Q c.current.kind)
    (ht : S.Follows Q s s₁ g v a a') (hf : S.Follows P s s₁ g v b b') :
    S.Follows P s s₁ g v
      (Syntax.check kind >>= fun x => m >>= fun y => if (x && f y) = true then a else b)
      (Syntax.check kind >>= fun x => m >>= fun y => if (x && f y) = true then a' else b') := by
  have hone (a b : Parse α) :
      (Syntax.check kind >>= fun x => m >>= fun y => if (x && f y) = true then a else b) =
        choose (Syntax.check kind >>= fun x => m >>= fun y => Pure.pure (x && f y)) a b := by
    simp only [bind_assoc, pure_bind]
  rw [hone a b, hone a' b']
  refine observe (t := fun c => c.current.kind == kind && f (look c)) ?_ ?_ ?_ (fun h _ => h)
    ht hf
  · intro c
    rw [bind_ok (check_run kind c), bind_ok (hm c)]
    rfl
  · intro c c' _ hnear
    have hsame := test_of_near hnear (· == kind) (blind_beq hi)
    by_cases hk : c.current.kind = kind
    · rw [← hsame, hn hnear hk]
    · rw [← hsame, beq_false_of_ne hk, Bool.false_and, Bool.false_and]
  · intro c _ h
    obtain ⟨hk, hlook⟩ := Bool.and_eq_true_iff.mp h
    exact hQ (eq_of_beq hk) hlook

/-- Whether a parenthesis opens an arrow function decides. -/
lemma arrow_ite (ht : S.Follows (· = .symbol .leftParen) s s₁ g v a a')
    (hf : S.Follows (· = .symbol .leftParen) s s₁ g v b b') :
    S.Follows (· = .symbol .leftParen) s s₁ g v (choose atArrowFunction a b)
      (choose atArrowFunction a' b') :=
  observe atArrowFunction_run (fun hk hn => S.arrow_of_near hn hk) (fun h _ => h) (fun h _ => h)
    ht hf

lemma here_bind {f f' : Place → Parse α} (h : ∀ p p', S.Follows P s s₁ g v (f p) (f' p')) :
    S.Follows P s s₁ g v (here >>= f) (here >>= f') where
  reads hc hk hr := (h _ default).reads hc hk hr
  agrees hk hn := (h _ _).agrees hk hn

/-- The kind of the current token decides; a line end and the end lead to the same reader. -/
lemma peek_bind {f f' : Kind → Parse α} (hl : f' .newline = f' .endOfFile)
    (h : ∀ k, P k → S.Follows (· = k) s s₁ g v (f k) (f' k)) :
    S.Follows P s s₁ g v (peek >>= f) (peek >>= f') where
  reads hc hk hr := (h _ hk).reads hc rfl hr
  agrees {c c'} hk hn := by
    rw [bind_ok (peek_run c), bind_ok (peek_run c')]
    have hsame : f' c'.current.kind = f' c.current.kind := by
      rcases S.current_of_near hn with hrow | ⟨-, hc, hk'⟩
      · rw [(row_eq_iff.mp hrow).1]
      · rw [hk', hc.1, hl]
    rw [hsame]
    exact (h _ hk).agrees rfl hn

/-- The current token decides; nothing is read at the end. -/
lemma get_bind {f f' : Cursor → Parse α}
    (h : ∀ (k : Kind) (c c' : Cursor), c.current.kind = k → c'.current.kind = k →
      c.current.value = c'.current.value → S.Follows (· = k) s s₁ g v (f c) (f' c'))
    (hend : ∀ c, c.current.kind = .endOfFile → ∃ e, f c c = .error e c) :
    S.Follows P s s₁ g v (get >>= f) (get >>= f') where
  reads {c d a} hc _ hr := (h _ c c rfl rfl rfl).reads hc rfl hr
  agrees {c c'} _ hn := by
    rw [bind_ok (get_run c), bind_ok (get_run c')]
    rcases S.current_of_near hn with hrow | ⟨hw, hc, -⟩
    · obtain ⟨hkind, hvalue, -⟩ := row_eq_iff.mp hrow
      exact (h _ c c' rfl hkind.symm hvalue).agrees rfl hn
    · obtain ⟨e, he⟩ := hend c hc.1
      rw [he]
      exact .free hw

/-! ### Single tokens -/

private lemma advance_of (hg : g ≠ .past) (hP : ∀ k, P k →
      isInside k ∧ nestStep s k = some s₁ ∧ (g = .inner ∨ k ≠ .symbol .comma)) :
    S.Follows P s s₁ g row advance advance where
  reads {c d a} hc hk hr := by
    rw [advance_run] at hr
    cases hr
    obtain ⟨hi, hs, hcomma⟩ := hP _ hk
    exact .next hc hi hs hcomma
  agrees {c c'} hk hn := by
    have hi := (hP _ hk).1
    have hrow := row_of_near hn hi
    rw [advance_run, advance_run]
    refine .ok hrow ?_
    cases g with
    | past => exact absurd rfl hg
    | _ => exact S.near_next hn hrow hi

lemma advance (hP : ∀ k, P k → isPlain k ∧ nestStep s k = some s₁) :
    S.Follows P s s₁ .near row advance advance :=
  advance_of nofun fun k hk => (hP k hk).imp isInside_of_isPlain fun hs =>
    ⟨hs, .inr (ne_comma_of_isPlain (hP k hk).1)⟩

lemma advance_inner (hP : ∀ k, P k → isInside k ∧ nestStep s k = some s₁) :
    S.Follows P s s₁ .inner row Syntax.advance Syntax.advance :=
  advance_of nofun fun k hk => ⟨(hP k hk).1, (hP k hk).2, .inl rfl⟩

/-- Passes a token whose kind was seen before. -/
lemma advance_kind (hi : isPlain kind) (hs : nestStep s kind = some s₁) :
    S.Follows (· = kind) s s₁ .near row Syntax.advance Syntax.advance :=
  advance fun _ hk => hk ▸ ⟨hi, hs⟩

lemma step (hi : isPlain kind) (hs : nestStep s kind = some s₁)
    (h : S.Follows anyKind s₁ s₂ g v a a') :
    S.Follows (· = kind) s s₂ g v (Syntax.advance >>= fun _ => a)
      (Syntax.advance >>= fun _ => a') :=
  .bind (.advance_kind hi hs) fun _ _ _ => h

/-- A token that may be passed decides. Something follows a comma. -/
private lemma accept_ite_of (hi : isInside kind) (hs : nestStep s kind = some s₁)
    (hg : g = .inner ∨ kind ≠ .symbol .comma) (ht : S.Follows anyKind s₁ s₂ g v a a')
    (hf : S.Follows P s s₂ g v b b') :
    S.Follows P s s₂ g v (choose (accept kind) a b) (choose (accept kind) a' b') where
  reads {c d x} hc hk hr := by
    rw [choose, bind_run, accept_run] at hr
    by_cases h : c.current.kind = kind
    · simp only [h, if_true] at hr
      have hnext : Passes s s₁ g c c.next := .next hc (h ▸ hi) (h ▸ hs) (h ▸ hg)
      exact hnext.trans (ht.reads (hnext.ended hc) trivial hr) id
    · rw [if_neg h] at hr
      exact hf.reads hc hk (by simpa using hr)
  agrees {c c'} hk hn := by
    have hsame := test_of_near hn (· == kind) (blind_beq hi)
    rw [choose, choose, bind_run, bind_run, accept_run, accept_run]
    by_cases h : c.current.kind = kind
    · have h' : c'.current.kind = kind := by simpa [h] using hsame
      rw [if_pos h, if_pos h']
      exact ht.agrees trivial (S.near_next hn (row_of_near hn (h ▸ hi)) (h ▸ hi))
    · have h' : c'.current.kind ≠ kind := by simpa [h] using hsame
      rw [if_neg h, if_neg h']
      exact hf.agrees hk hn

lemma accept_ite (hi : isPlain kind) (hs : nestStep s kind = some s₁)
    (ht : S.Follows anyKind s₁ s₂ g v a a') (hf : S.Follows P s s₂ g v b b') :
    S.Follows P s s₂ g v (choose (accept kind) a b) (choose (accept kind) a' b') :=
  accept_ite_of (isInside_of_isPlain hi) hs (Or.inr (ne_comma_of_isPlain hi)) ht hf

/-- A comma is passed inside something that is still to be closed. -/
lemma comma_ite (ht : S.Follows anyKind s s₂ .inner v a a') (hf : S.Follows P s s₂ .inner v b b') :
    S.Follows P s s₂ .inner v (choose (accept (.symbol .comma)) a b)
      (choose (accept (.symbol .comma)) a' b') :=
  accept_ite_of rfl rfl (Or.inl rfl) ht hf

lemma comma : S.Follows P s s .inner id (accept (.symbol .comma)) (accept (.symbol .comma)) := by
  have h : S.Follows P s s .inner id
      (choose (accept (.symbol .comma)) (Pure.pure true) (Pure.pure false))
      (choose (accept (.symbol .comma)) (Pure.pure true) (Pure.pure false)) :=
    comma_ite (.inner (.pure rfl)) (.inner (.pure rfl))
  have heq : (fun x : Bool => if x = true then Pure.pure true else Pure.pure false) =
      (Pure.pure : Bool → Parse Bool) := by
    funext x
    cases x <;> rfl
  rwa [choose, heq, bind_pure] at h

/-- A token of some kinds has to be there. What is told of it, or of another one, depends on what it
is and not on where it stands. -/
private lemma expect_of (ok : Kind → Bool) (value : Token → α) (fault : Token → SyntaxFault)
    {m : Parse α} (hm : ∀ c, m c = if ok c.current.kind then .ok (value c.current) c.next
      else .error (fault c.current) c)
    (hok : ∀ k, ok k → isPlain k ∧ nestStep s k = some s₁)
    (hv : ∀ {t t' : Token}, t.row = t'.row → v (value t) = v (value t'))
    (hfault : ∀ {t t' : Token}, t.kind = t'.kind → t.value = t'.value →
      (fault t).message = (fault t').message) : S.Follows P s s₁ .near v m m where
  reads {c d a} hc hk hr := by
    rw [hm] at hr
    split_ifs at hr with h
    cases hr
    obtain ⟨hi, hs⟩ := hok _ h
    exact .next hc (isInside_of_isPlain hi) hs (Or.inr (ne_comma_of_isPlain hi))
  agrees {c c'} hk hn := by
    rw [hm, hm]
    rcases S.current_of_near hn with hrow | ⟨hw, hc, -⟩
    · obtain ⟨hkind, hvalue, -⟩ := row_eq_iff.mp hrow
      rw [← hkind]
      split_ifs with h
      · exact .ok (hv hrow) (S.near_next hn hrow (isInside_of_isPlain (hok _ h).1))
      · exact .fault (hfault hkind hvalue)
    · rw [if_neg fun h => ne_endOfFile_of_isInside (isInside_of_isPlain (hok _ h).1) hc.1]
      exact .free hw

lemma expect (hi : isPlain kind) (hs : nestStep s kind = some s₁) :
    S.Follows P s s₁ .near row (expect kind) (expect kind) :=
  expect_of (· == kind) id (.expected kind) (fun c => by simp [expect_run])
    (fun k hk => eq_of_beq hk ▸ ⟨hi, hs⟩) id fun hkind hvalue => by
      rw [message_expected, message_expected, hkind, hvalue]

lemma expectSymbol (hi : isPlain (.symbol mark)) (hs : nestStep s (.symbol mark) = some s₁) :
    S.Follows P s s₁ .near id (expectSymbol mark) (expectSymbol mark) :=
  (expect hi hs).bind fun _ _ _ => .pure rfl

/-- A symbol, and then what follows it. -/
lemma symbol (hi : isPlain (.symbol mark)) (hs : nestStep s (.symbol mark) = some s₁)
    (h : S.Follows anyKind s₁ s₂ g v a a') :
    S.Follows P s s₂ g v (Syntax.expectSymbol mark >>= fun _ => a)
      (Syntax.expectSymbol mark >>= fun _ => a') :=
  .bind_id (.expectSymbol hi hs) fun _ => h

lemma expectIdentifier : S.Follows P s s .near id expectIdentifier expectIdentifier :=
  (expect rfl rfl).bind fun _ _ h => .pure (row_eq_iff.mp h).2.1

lemma expectName : S.Follows P s s .near id expectName expectName :=
  expect_of isName (·.value) .expectedName expectName_run
    (fun _ hk => ⟨isPlain_of_isName hk, nestStep_name hk s⟩)
    (fun hrow => (row_eq_iff.mp hrow).2.1) fun hkind hvalue => by
      rw [message_expectedName, message_expectedName, hkind, hvalue]

/-! ### Separators -/

lemma skipNewlines : S.Follows P s s .inner id skipNewlines skipNewlines where
  reads {c d a} _ _ hr := by
    cases hr
    exact .skip s .inner c
  agrees {c c'} _ hn := by
    rcases S.near_skip hn with hn' | ⟨hw, hc, -⟩
    · exact .ok rfl hn'
    · exact .lost ⟨rfl, hw, hc⟩

lemma skipTerminator : S.Follows P s s .past id skipTerminator skipTerminator where
  reads {c d a} hc _ hr := by
    rw [skipTerminator_run] at hr
    cases hr
    exact .terminate s .past hc
  agrees {c c'} _ hn := by
    rw [skipTerminator_run, skipTerminator_run]
    exact .ok rfl (S.past_terminate hn)

/-- Behind line ends a word may continue the statement. A second reading that goes on where the
first one has come to its end does not stand before that word. -/
lemma skip_else {x x' : α} (ha : S.Follows anyKind s s .past v a a') (hx : v x = v x') :
    S.Follows P s s .past v
      (Syntax.skipNewlines >>= fun _ => choose (accept (.keyword .elseWord)) a (Pure.pure x))
      (Syntax.skipNewlines >>= fun _ =>
        choose (accept (.keyword .elseWord)) a' (Pure.pure x')) := by
  have hword : S.Follows anyKind s s .past v (choose (accept (.keyword .elseWord)) a (Pure.pure x))
      (choose (accept (.keyword .elseWord)) a' (Pure.pure x')) :=
    accept_ite rfl rfl ha (Follows.pure hx).past
  refine { reads := fun {c d b} hc _ hr => ?_, agrees := fun {c c'} _ hn => ?_ }
  · rw [bind_ok (skipNewlines_run c)] at hr
    have hskip := Passes.skip s .past c
    exact hskip.trans (hword.reads (hskip.ended hc) trivial hr) id
  · rw [bind_ok (skipNewlines_run c), bind_ok (skipNewlines_run c')]
    rcases S.near_skip hn with hn' | ⟨hw, hc, hpast, hword'⟩
    · exact hword.agrees trivial hn'
    · rw [choose, choose, bind_run, bind_run, accept_run, accept_run, if_neg (by simp [hc.1]),
        if_neg hword']
      exact .ok hx hpast

/-! ### What has to be closed -/

lemma close {m m' : Parse α} {f f' : α → Parse β} {s₃ : List Bracket}
    (hm : S.Follows P s s₁ .inner v m m') (hi : isPlain (.symbol mark))
    (hs : nestStep s₁ (.symbol mark) = some s₂)
    (hf : ∀ a b, v a = v b → S.Follows anyKind s₂ s₃ g w (f a) (f' b)) :
    S.Follows P s s₃ g w (m >>= fun a => Syntax.expectSymbol mark >>= fun _ => f a)
      (m' >>= fun a => Syntax.expectSymbol mark >>= fun _ => f' a) := by
  refine hm.bind_takes (fun a => takes_expectSymbol.bind fun _ => (hf a a rfl).moves)
    fun a b hab => ?_
  exact (expectSymbol hi hs).bind_id fun _ => hf a b hab

/-- As `close`, behind line ends. -/
lemma skip_close {m m' : Parse α} {f f' : α → Parse β} {s₃ : List Bracket}
    (hm : S.Follows anyKind s s₁ .inner v m m') (hi : isPlain (.symbol mark))
    (hs : nestStep s₁ (.symbol mark) = some s₂)
    (hf : ∀ a b, v a = v b → S.Follows anyKind s₂ s₃ g w (f a) (f' b)) :
    S.Follows P s s₃ g w
      (Syntax.skipNewlines >>= fun _ => m >>= fun a => Syntax.expectSymbol mark >>= fun _ => f a)
      (Syntax.skipNewlines >>= fun _ => m' >>= fun a =>
        Syntax.expectSymbol mark >>= fun _ => f' a) := by
  refine skipNewlines.bind_takes (fun _ => ?_) fun _ _ _ => hm.close hi hs hf
  exact hm.moves.bind_takes fun a => takes_expectSymbol.bind fun _ => (hf a a rfl).moves

/-! ### Loops -/

lemma ite {b : Bool} {m₁ m₂ m₁' m₂' : Parse α} (h₁ : S.Follows P s s₁ g v m₁ m₁')
    (h₂ : S.Follows P s s₁ g v m₂ m₂') :
    S.Follows P s s₁ g v (if b then m₁ else m₂) (if b then m₁' else m₂') := by
  cases b
  · exact h₂
  · exact h₁

/-- Loops follow if their steps do, and the second one may go on as long. -/
lemma loop {step step' : α → Parse (α ⊕ β)} (hg : g ≠ .past)
    (hstep : ∀ a b, v a = v b → S.Follows anyKind s s g (Sum.map v w) (step a) (step' b)) :
    ∀ (n n' : Nat), n ≤ n' → ∀ a b, v a = v b →
      S.Follows anyKind s s g w (loop step n a) (loop step' n' b)
  | 0, _, _, _, _, _ => { reads := fun _ _ hr => (nomatch hr), agrees := fun _ _ => .endless }
  | n + 1, 0, hn, _, _, _ => absurd hn (by omega)
  | n + 1, n' + 1, hn, a, b, hv => by
    unfold Syntax.loop
    refine (hstep a b hv).sequence hg id fun x y hxy => ?_
    cases x with
    | inl a' =>
      cases y with
      | inl b' => exact loop hg hstep n n' (by omega) a' b' (by simpa using hxy)
      | inr => simp at hxy
    | inr =>
      cases y with
      | inl => simp at hxy
      | inr => exact (Follows.pure (by simpa using hxy)).lift

lemma iterate {step step' : α → Parse (α ⊕ β)} (hg : g ≠ .past)
    (hstep : ∀ a b, v a = v b → S.Follows anyKind s s g (Sum.map v w) (step a) (step' b))
    {a b : α} (hv : v a = v b) :
    S.Follows anyKind s s g w (iterate step a) (iterate step' b) where
  reads {c _ _} hc hk hr := (loop hg hstep _ _ (Nat.le_refl _) a b hv).reads hc hk hr
  agrees {c c'} hk hn := by
    have hlen := Nat.add_le_add_right (S.length_of_near hn) 2
    exact (loop hg hstep _ _ hlen a b hv).agrees hk hn

lemma withNewlines {item item' : Parse α} (h : S.Follows P s s' .inner v item item') :
    S.Follows P s s' .inner v (withNewlines item) (withNewlines item') :=
  h.bind_inner fun _ _ ha => bind_inner skipNewlines fun _ _ _ => (Follows.pure ha).inner

lemma withComma {item item' : Parse α} (h : S.Follows P s s' .near v item item') :
    S.Follows P s s' .inner v (withComma item) (withComma item') :=
  h.inner.bind_inner fun _ _ ha => bind_inner comma fun _ _ _ =>
    bind_inner skipNewlines fun _ _ _ => (Follows.pure ha).inner

lemma collectUntil {done done' : Parse Bool} {item item' : Parse α}
    (hdone : S.Follows anyKind s s .inner id done done')
    (hitem : S.Follows anyKind s s .inner v item item') :
    S.Follows anyKind s s .inner (List.map v) (collectUntil done item)
      (collectUntil done' item') := by
  refine iterate (v := List.map v) (by simp) (fun as bs hab => ?_) rfl
  refine hdone.bind_inner fun b b' hb => ?_
  obtain rfl : b = b' := hb
  refine .ite ?_ ?_
  · refine (Follows.pure ?_).inner
    simp [List.map_reverse, hab]
  · refine hitem.bind_inner fun a a' ha => (Follows.pure ?_).inner
    simp [ha, hab]

lemma collectSeparated {done done' : Parse Bool} {item item' : Parse α}
    {between between' : Parse Unit} (hdone : S.Follows anyKind s s .inner id done done')
    (hitem : S.Follows anyKind s s .inner v item item')
    (hbetween : S.Follows anyKind s s .inner id between between') :
    S.Follows anyKind s s .inner (List.map v) (collectSeparated done item between)
      (collectSeparated done' item' between') := by
  refine iterate (v := List.map v) (by simp) (fun as bs hab => ?_) rfl
  refine hdone.bind_inner fun b b' hb => ?_
  obtain rfl : b = b' := hb
  refine .ite ?_ ?_
  · refine (Follows.pure ?_).inner
    simp [List.map_reverse, hab]
  · refine hitem.bind_inner fun a a' ha => comma_ite ?_ ?_
    · refine hbetween.bind_inner fun _ _ _ => (Follows.pure ?_).inner
      simp [ha, hab]
    · refine (Follows.pure ?_).inner
      simp [ha, hab]

/-- Operators are inside a statement and no brackets. -/
lemma leftAssociative {isOperator : Parse Bool} {t : Cursor → Bool} {operand operand' : Parse Node}
    {join : Place → String → Node → Node → Node}
    (hop : ∀ c, isOperator c = .ok (t c) c)
    (hn : ∀ {c c'}, S.near c c' → t c = t c')
    (hin : ∀ {c}, t c = true → isPlain c.current.kind ∧ nestStep s c.current.kind = some s)
    (hjoin : ∀ p p' op {l l' r r'}, l.unplaced = l'.unplaced → r.unplaced = r'.unplaced →
      (join p op l r).unplaced = (join p' op l' r').unplaced)
    (hoperand : S.FollowsNode s operand operand') :
    S.FollowsNode s (leftAssociative isOperator operand join)
      (leftAssociative isOperator operand' join) := by
  refine hoperand.bind fun l l' hl => iterate (v := Node.unplaced) (by simp) (fun l l' hl => ?_) hl
  refine observe (Q := fun k => isPlain k ∧ nestStep s k = some s) hop (fun _ h => hn h)
    (fun _ h => hin h) (fun h _ => h) ?_ ?_
  · refine here_bind fun p p' => (advance fun _ h => h).bind fun op op' hop' => ?_
    refine hoperand.bind fun r r' hr => .pure ?_
    rw [(row_eq_iff.mp hop').2.1]
    simp [hjoin p p' op'.value hl hr]
  · exact .pure (by simp [hl])

end Follows

end Simulation

end UiScript.Syntax
