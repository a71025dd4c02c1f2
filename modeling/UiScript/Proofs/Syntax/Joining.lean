import UiScript.Proofs.Syntax.Statements

/-!
# Statements followed by other statements

The tokens of a program are read alike whether the program ends after them or other statements
follow, on a new line or behind a separator. Readers look ahead from an opening bracket without a
bound, but the brackets of a program are closed in it, so they never look further.
-/

namespace UiScript.Syntax

open List

open Token (Kind row row_eq_iff newlineRow endRow)

/-! ### Looking ahead from an open bracket -/

variable {s : List Bracket} {t e : Token} {ts ts' vs us : List Token} {c d : Cursor}
  {ns : List Node}

lemma count_nestStep {s₁ : List Bracket} {k : Kind} (h : nestStep s k = some s₁)
    (hl : k ≠ .symbol .leftParen) (hr : k ≠ .symbol .rightParen) :
    s₁.count .paren = s.count .paren := by
  unfold nestStep at h
  split at h
  · exact absurd rfl hl
  · cases h
    simp
  · cases h
    simp
  · exact absurd rfl hr
  · split at h
    · cases h
      simp
    · cases h
  · split at h
    · cases h
      simp
    · cases h
  · cases h
  · cases h
    rfl

lemma closesBeforeArrow_cons (hl : t.kind ≠ .symbol .leftParen) (hr : t.kind ≠ .symbol .rightParen)
    (he : t.kind ≠ .endOfFile) (d : Nat) (ts : List Token) :
    closesBeforeArrow d (t :: ts) = closesBeforeArrow d ts := by
  rw [closesBeforeArrow]
  split <;> simp_all

/-- The parenthesis that is looked for is closed among tokens that close all brackets. -/
lemma closesBeforeArrow_append {vs' : List Token} {d : Nat} (hn : nest s ts = some [])
    (hd : 1 ≤ d) (hs : d ≤ s.count .paren)
    (hv : (vs.head?.any (·.kind == .symbol .arrow)) = vs'.head?.any (·.kind == .symbol .arrow)) :
    closesBeforeArrow d (ts ++ vs) = closesBeforeArrow d (ts ++ vs') := by
  induction ts generalizing s d with
  | nil =>
    cases hn
    simp at hs
    omega
  | cons t ts ih =>
    obtain ⟨s₁, hs₁, hn₁⟩ := nest_cons_iff.mp hn
    simp only [cons_append]
    by_cases hl : t.kind = .symbol .leftParen
    · obtain rfl : Bracket.paren :: s = s₁ := by simpa [hl, nestStep] using hs₁
      simp only [closesBeforeArrow, hl]
      exact ih hn₁ (by omega) (by simpa using hs)
    by_cases hr : t.kind = .symbol .rightParen
    · simp only [closesBeforeArrow, hr]
      split_ifs with h1
      · cases ts with
        | nil => exact hv
        | cons => rfl
      · rw [hr] at hs₁
        simp only [nestStep] at hs₁
        split at hs₁
        · cases hs₁
          exact ih hn₁ (by omega) (by simp at hs; omega)
        · cases hs₁
    have he : t.kind ≠ .endOfFile := by
      intro he
      simp [he, nestStep] at hs₁
    rw [closesBeforeArrow_cons hl hr he, closesBeforeArrow_cons hl hr he]
    exact ih hn₁ hd (by rwa [count_nestStep hs₁ hl hr])

/-- What tells an object from a block stands among the tokens that close all brackets. -/
lemma opensObject_append {b : Bracket} (hn : nest (b :: s) ts = some []) (vs vs' : List Token) :
    opensObject (ts ++ vs) = opensObject (ts ++ vs') := by
  induction ts with
  | nil => cases hn
  | cons t ts ih =>
    obtain ⟨s₁, hs₁, hn₁⟩ := nest_cons_iff.mp hn
    by_cases hnl : t.kind = .newline
    · obtain rfl : b :: s = s₁ := by simpa [hnl, nestStep] using hs₁
      simpa [opensObject, hnl] using ih hn₁
    · cases ts with
      | cons => simp [opensObject, hnl]
      | nil =>
        cases hn₁
        have hk : t.kind ≠ .identifier ∧ t.kind ≠ .string := by
          refine ⟨fun hk => ?_, fun hk => ?_⟩ <;> simp [hk, nestStep] at hs₁
        simp [opensObject, hnl, beq_false_of_ne hk.1, beq_false_of_ne hk.2]

/-! ### The joint -/

lemma dropSeparators_eq (hus : ∀ u ∈ us, isSeparator u.kind)
    (ht : isSeparator t.kind = false) {x : Token} {xs : List Token} (h : x :: xs = us ++ t :: ts) :
    dropSeparators x xs = (t, ts) := by
  induction us generalizing x xs with
  | nil =>
    obtain ⟨rfl, rfl⟩ := List.cons.inj h
    cases xs <;> simp [dropSeparators, ht]
  | cons u us ih =>
    rw [cons_append] at h
    obtain ⟨rfl, rfl⟩ := List.cons.inj h
    cases hl : us ++ t :: ts with
    | nil => simp at hl
    | cons =>
      rw [dropSeparators, if_pos (hus x (by simp))]
      exact ih (fun v hv => hus v (by simp [hv])) hl.symm

lemma separators_split (ts : List Token) :
    (∀ t ∈ ts, isSeparator t.kind) ∨
    ∃ us t vs, ts = us ++ t :: vs ∧ (∀ u ∈ us, isSeparator u.kind) ∧
      isSeparator t.kind = false := by
  induction ts with
  | nil => exact Or.inl (by simp)
  | cons t ts ih =>
    by_cases ht : isSeparator t.kind
    · rcases ih with hall | ⟨us, u, vs, rfl, hus, hu⟩
      · exact Or.inl (by simpa [ht] using hall)
      · exact Or.inr ⟨t :: us, u, vs, rfl, by simpa [ht] using hus, hu⟩
    · exact Or.inr ⟨[], t, ts, rfl, by simp, by simpa using ht⟩

lemma separators_rows (h : ts.map row = ts'.map row)
    (hts : ∀ t ∈ ts, isSeparator t.kind) : ∀ t ∈ ts', isSeparator t.kind := by
  intro t' ht'
  have hmem : t'.row ∈ ts.map row := h ▸ mem_map_of_mem ht'
  obtain ⟨t, ht, hrow⟩ := mem_map.mp hmem
  rw [← (row_eq_iff.mp hrow).1]
  exact hts t ht

lemma Cursor.skip_tokens (us : List Token)
    (h : c.tokens = us ++ t :: ts) (hus : ∀ u ∈ us, isSeparator u.kind)
    (ht : isSeparator t.kind = false) : c.skip.tokens = t :: ts := by
  have hdrop := dropSeparators_eq hus ht h
  simp [Cursor.skip, Cursor.tokens, hdrop]

lemma Cursor.Ended.skip_inside (hc : c.Ended) : isSeparator c.skip.current.kind = false := by
  rcases separators_split c.tokens with hall | ⟨us, t, vs, hsplit, hus, ht⟩
  · obtain ⟨ts, e, hts, he⟩ := hc
    have := hall e (by simp [hts])
    simp [he, isSeparator] at this
  · rwa [(List.cons.inj (Cursor.skip_tokens us hsplit hus ht)).1]

/-- Statements that follow others: separators, and what the next statement starts with. -/
structure Joint where
  gap : List Token
  first : Token
  more : List Token
  gap_separators : ∀ t ∈ gap, isSeparator t.kind
  first_inside : isSeparator first.kind = false
  first_ne_arrow : first.kind ≠ .symbol .arrow
  first_ne_else : first.kind ≠ .keyword .elseWord

namespace Joint

variable (j : Joint)

def tokens : List Token := j.gap ++ j.first :: j.more

/-- Tokens that say the same up to the joint, with all brackets closed there. The statements behind
it are on a new line, or a separator stands before them. -/
structure Before (ts ts' : List Token) : Prop where
  rows : ts.map row = ts'.map row
  closed : ∃ s, nest s ts = some []
  parted : (∃ t ∈ j.tokens.head?, t.kind = .newline) ∨ ∃ t ∈ ts.getLast?, isSeparator t.kind

/-- One reading ends where the other one goes on behind the joint. -/
def Near (c c' : Cursor) : Prop :=
  ∃ ts ts' e, c.tokens = ts ++ [e] ∧ e.kind = .endOfFile ∧ c'.tokens = ts' ++ j.tokens ∧
    j.Before ts ts'

variable {j}

lemma Before.append_right (us us' : List Token) (h : j.Before (us ++ ts) (us' ++ ts'))
    (hts : ts.map row = ts'.map row)
    (hne : ts ≠ [] ∨ ∃ t ∈ j.tokens.head?, t.kind = .newline) : j.Before ts ts' where
  rows := hts
  closed := by
    obtain ⟨s, hs⟩ := h.closed
    rw [nest, foldlM_append] at hs
    obtain ⟨s₁, -, hs₁⟩ := Option.bind_eq_some_iff.mp hs
    exact ⟨s₁, hs₁⟩
  parted := by
    rcases hne with hne | hnl
    · refine h.parted.imp_right ?_
      rintro ⟨t, ht, hsep⟩
      cases hl : ts.getLast? with
      | none => exact absurd (getLast?_eq_none_iff.mp hl) hne
      | some => exact ⟨t, by simpa [hl] using ht, hsep⟩
    · exact Or.inl hnl

lemma Before.ne_endOfFile (h : j.Before ts ts') (ht : t ∈ ts) : t.kind ≠ .endOfFile := by
  obtain ⟨s, hs⟩ := h.closed
  clear h
  induction ts generalizing s with
  | nil => simp at ht
  | cons u us ih =>
    obtain ⟨s₁, hs₁, hn₁⟩ := nest_cons_iff.mp hs
    rcases mem_cons.mp ht with rfl | ht
    · intro he
      simp [he, nestStep] at hs₁
    · exact ih ht s₁ hn₁

lemma Before.ne_endOfFile_head (h : j.Before (t :: ts) ts') : t.kind ≠ .endOfFile :=
  h.ne_endOfFile (by simp)

variable {c c' : Cursor}

/-- Either the first reading has come to its end and a new line follows in the second one, or both
stand before the same token. -/
lemma Near.cases (h : j.Near c c') :
    (c.AtEnd ∧ c'.tokens = j.tokens ∧ c'.current.kind = .newline) ∨
    ∃ ts ts' e, c.rest = ts ++ [e] ∧ e.kind = .endOfFile ∧ c'.rest = ts' ++ j.tokens ∧
      j.Before (c.current :: ts) (c'.current :: ts') := by
  obtain ⟨ts, ts', e, hc, he, hc', hb⟩ := h
  cases ts with
  | nil =>
    obtain rfl : ts' = [] := by simpa using hb.rows.symm
    obtain ⟨hcur, hrest⟩ := List.cons.inj hc
    obtain ⟨t, ht, hk⟩ : ∃ t ∈ j.tokens.head?, t.kind = .newline := by simpa using hb.parted
    refine Or.inl ⟨⟨hcur ▸ he, hrest⟩, hc', ?_⟩
    have hhead : c'.tokens.head? = some t := by rw [hc']; exact ht
    obtain rfl : c'.current = t := by simpa [Cursor.tokens] using hhead
    exact hk
  | cons t ts =>
    cases ts' with
    | nil => simpa using hb.rows
    | cons t' ts' =>
      obtain ⟨rfl, hrest⟩ := List.cons.inj hc
      obtain ⟨rfl, hrest'⟩ := List.cons.inj hc'
      exact Or.inr ⟨ts, ts', e, hrest, he, hrest', hb⟩

lemma Near.next (h : j.Near c c') (hi : isInside c.current.kind) : j.Near c.next c'.next := by
  rcases h.cases with ⟨hend, -⟩ | ⟨ts, ts', e, hr, he, hr', hb⟩
  · exact absurd hend.1 (ne_endOfFile_of_isInside hi)
  refine ⟨ts, ts', e, Cursor.next_tokens hr, he, Cursor.next_tokens hr' (by simp [tokens]), ?_⟩
  refine Before.append_right [c.current] [c'.current] hb (List.cons.inj hb.rows).2 ?_
  cases ts with
  | cons => exact Or.inl (by simp)
  | nil =>
    -- the last token before the joint is no separator, so a new line follows
    refine Or.inr (hb.parted.resolve_right ?_)
    simp [isInside] at hi
    simp [hi]

/-- Behind separators the first reading is at its end and the second one at the first statement
behind the joint, or both are still before it. -/
lemma Near.skip (h : j.Near c c') :
    (c.skip.AtEnd ∧ c'.skip.tokens = j.first :: j.more) ∨
    (j.Near c.skip c'.skip ∧ c.skip.current.kind ≠ .endOfFile) := by
  obtain ⟨ts, ts', e, hc, he, hc', hb⟩ := h
  have hsep : isSeparator e.kind = false := by rw [he]; rfl
  rcases separators_split ts with hall | ⟨us, t, vs, rfl, hus, ht⟩
  · have hall' := separators_rows hb.rows hall
    refine Or.inl ⟨?_, ?_⟩
    · obtain ⟨hcur, hrest⟩ := List.cons.inj (Cursor.skip_tokens ts hc hall hsep)
      exact ⟨hcur ▸ he, hrest⟩
    · refine Cursor.skip_tokens (ts' ++ j.gap) ?_ ?_ j.first_inside
      · rw [hc', tokens, append_assoc]
      · intro u hu
        rcases mem_append.mp hu with hu | hu
        · exact hall' u hu
        · exact j.gap_separators u hu
  · have hrows := hb.rows
    rw [map_append, map_cons] at hrows
    obtain ⟨us', tvs', rfl, hrus, hrtvs⟩ := map_eq_append_iff.mp hrows.symm
    obtain ⟨t', vs', rfl, hrt, hrvs⟩ := map_eq_cons_iff.mp hrtvs
    have hus' := separators_rows hrus.symm hus
    have ht' : isSeparator t'.kind = false := by rwa [(row_eq_iff.mp hrt).1]
    have hskip : c.skip.tokens = t :: (vs ++ [e]) := by
      refine Cursor.skip_tokens us ?_ hus ht
      rw [hc, append_assoc, cons_append]
    have hskip' : c'.skip.tokens = t' :: (vs' ++ j.tokens) := by
      refine Cursor.skip_tokens us' ?_ hus' ht'
      rw [hc', append_assoc, cons_append]
    have hbefore : j.Before (t :: vs) (t' :: vs') :=
      hb.append_right us us' (by simp [hrt, hrvs]) (Or.inl (by simp))
    refine Or.inr ⟨⟨t :: vs, t' :: vs', e, hskip, he, hskip', hbefore⟩, ?_⟩
    rw [(List.cons.inj hskip).1]
    exact hbefore.ne_endOfFile_head

lemma Near.terminate (h : j.Near c c') :
    j.Near c.terminate c'.terminate ∨
      c.terminate.AtEnd ∧ c'.terminate.skip.tokens = j.first :: j.more := by
  rcases h.cases with ⟨hend, hc', hk⟩ | ⟨ts, ts', e, hr, he, hr', hb⟩
  · have hterm : c.terminate = c := by simp [Cursor.terminate, hend.1, isSeparator]
    have hterm' : c'.terminate = c'.next := by simp [Cursor.terminate, hk, isSeparator]
    rw [hterm, hterm']
    refine Or.inr ⟨hend, ?_⟩
    cases hg : j.gap with
    | nil =>
      have hfirst : c'.current = j.first := by
        rw [tokens, hg] at hc'
        exact (List.cons.inj hc').1
      have := j.first_inside
      simp [← hfirst, hk, isSeparator] at this
    | cons g gs =>
      have hrest : c'.rest = gs ++ j.first :: j.more := by
        rw [tokens, hg] at hc'
        exact (List.cons.inj hc').2
      refine Cursor.skip_tokens gs (Cursor.next_tokens hrest) (fun u hu => ?_) j.first_inside
      exact j.gap_separators u (by simp [hg, hu])
  · have hkind : c.current.kind = c'.current.kind :=
      (row_eq_iff.mp (List.cons.inj hb.rows).1).1
    unfold Cursor.terminate
    rw [← hkind]
    split_ifs with hsep
    · have hnext := Cursor.next_tokens hr
      have hnext' := Cursor.next_tokens hr' (by simp [tokens])
      cases ts with
      | nil =>
        obtain rfl : ts' = [] := by simpa using (List.cons.inj hb.rows).2.symm
        obtain ⟨hcur, hrest⟩ := List.cons.inj hnext
        refine Or.inr ⟨⟨hcur ▸ he, hrest⟩, ?_⟩
        exact Cursor.skip_tokens j.gap hnext' j.gap_separators j.first_inside
      | cons t ts =>
        refine Or.inl ⟨t :: ts, ts', e, hnext, he, hnext', ?_⟩
        exact Before.append_right [c.current] [c'.current] hb
          (List.cons.inj hb.rows).2 (Or.inl (by simp))
    · exact Or.inl h

variable (j) in
lemma head_ne_arrow : (j.tokens.head?.any (·.kind == .symbol .arrow)) = false := by
  cases hg : j.gap with
  | nil => simp [tokens, hg, j.first_ne_arrow]
  | cons g =>
    have hsep := j.gap_separators g (by simp [hg])
    have hne : g.kind ≠ .symbol .arrow := by
      intro hk
      simp [hk, isSeparator] at hsep
    simp [tokens, hg, hne]

namespace Near

variable {c c' : Cursor}

lemma current (h : j.Near c c') :
    c.current.row = c'.current.row ∨ ¬False ∧ c.AtEnd ∧ c'.current.kind = .newline := by
  rcases h.cases with ⟨hend, -, hk⟩ | ⟨ts, ts', e, -, -, -, hb⟩
  · exact Or.inr ⟨id, hend, hk⟩
  · exact Or.inl (List.cons.inj hb.rows).1

lemma length_le (h : j.Near c c') : c.rest.length ≤ c'.rest.length := by
  rcases h.cases with ⟨hend, -⟩ | ⟨ts, ts', e, hr, -, hr', hb⟩
  · simp [hend.2]
  · have hlen := congrArg List.length hb.rows
    simp only [length_map, length_cons] at hlen
    simp only [hr, hr', Joint.tokens, length_append, length_cons, length_nil]
    omega

lemma rest (h : j.Near c c') (hi : isInside c.current.kind) : c.rest = [] ↔ c'.rest = [] := by
  rcases h.cases with ⟨hend, -⟩ | ⟨ts, ts', e, hr, -, hr', -⟩
  · exact absurd hend.1 (ne_endOfFile_of_isInside hi)
  · simp [hr, hr', Joint.tokens]

lemma arrow (h : j.Near c c') (hk : c.current.kind = .symbol .leftParen) :
    closesBeforeArrow 0 c.tokens = closesBeforeArrow 0 c'.tokens := by
  rcases h.cases with ⟨hend, -⟩ | ⟨ts, ts', e, hr, he, hr', hb⟩
  · simp [hend.1] at hk
  obtain ⟨s, hs⟩ := hb.closed
  obtain ⟨s₁, hs₁, hn₁⟩ := nest_cons_iff.mp hs
  obtain rfl : Bracket.paren :: s = s₁ := by simpa [hk, nestStep] using hs₁
  have hk' : c'.current.kind = .symbol .leftParen :=
    hk ▸ (row_eq_iff.mp (List.cons.inj hb.rows).1).1.symm
  have hrows : (ts ++ j.tokens).map row = (ts' ++ j.tokens).map row := by
    simp [(List.cons.inj hb.rows).2]
  simp only [Cursor.tokens, closesBeforeArrow, hk, hk', hr, hr']
  have hhead : ([e].head?.any (·.kind == .symbol .arrow)) =
      j.tokens.head?.any (·.kind == .symbol .arrow) := by
    simp [he, j.head_ne_arrow]
  rw [closesBeforeArrow_append hn₁ (by omega) (by simp) hhead, closesBeforeArrow_rows hrows]

lemma object (h : j.Near c c') (hk : c.current.kind = .symbol .leftBrace) :
    opensObject c.rest = opensObject c'.rest := by
  rcases h.cases with ⟨hend, -⟩ | ⟨ts, ts', e, hr, he, hr', hb⟩
  · simp [hend.1] at hk
  obtain ⟨s, hs⟩ := hb.closed
  obtain ⟨s₁, hs₁, hn₁⟩ := nest_cons_iff.mp hs
  obtain rfl : Bracket.brace :: s = s₁ := by simpa [hk, nestStep] using hs₁
  have hrows : (ts ++ j.tokens).map row = (ts' ++ j.tokens).map row := by
    simp [(List.cons.inj hb.rows).2]
  rw [hr, hr', opensObject_append hn₁ [e] j.tokens, opensObject_rows hrows]

end Near

end Joint

/-- Readings of tokens up to a joint. -/
def Simulation.joining (j : Joint) : Simulation where
  near := j.Near
  past c c' := j.Near c c' ∨ c.AtEnd ∧ c'.skip.tokens = j.first :: j.more
  whole := False
  current_of_near h := h.current
  length_of_near h := h.length_le
  near_next h _ := h.next
  rest_of_near h _ := h.rest
  near_skip h := by
    rcases h.skip with ⟨hend, hskip⟩ | ⟨hnear, -⟩
    · refine Or.inr ⟨id, hend, Or.inr ⟨hend, ?_⟩, ?_⟩
      · exact Cursor.skip_tokens [] hskip (forall_mem_nil _) j.first_inside
      · rw [(List.cons.inj hskip).1]
        exact j.first_ne_else
    · exact Or.inl hnear
  past_terminate h := h.terminate
  past_of_near := Or.inl
  near_of_past h := h.imp_right fun h => ⟨id, h.1⟩
  near_fragments _ _ h := h
  arrow_of_near := Joint.Near.arrow
  object_of_near := Joint.Near.object

/-! ### Statements up to a joint -/

open Simulation

variable {r r' : Rules}

/-- The statements of a program are also read if others follow, and then the next one is at the
joint. -/
lemma Statements.of_joining {j : Joint} (hr : (joining j).RulesFollow r r') {c' : Cursor}
    (h : Statements r c ns d) (hd : d.skip.current.kind = .endOfFile) (hc : (joining j).past c c') :
    ∃ ns' d', Statements r' c' ns' d' ∧ ns.map Node.unplaced = ns'.map Node.unplaced ∧
      d'.skip.tokens = j.first :: j.more := by
  induction h generalizing c' with
  | nil =>
    rcases hc with hnear | ⟨-, hskip⟩
    · rcases hnear.skip with ⟨-, hskip⟩ | ⟨-, hk⟩
      · exact ⟨[], c', .nil c', rfl, hskip⟩
      · exact absurd hd hk
    · exact ⟨[], c', .nil c', rfl, hskip⟩
  | @cons c d e n ns hk hn _ ih =>
    have hnear : j.Near c.skip c'.skip := by
      rcases hc with hnear | ⟨hend, -⟩
      · exact (hnear.skip.resolve_left fun h => hk h.1.1).1
      · refine absurd ?_ hk
        simp [Cursor.skip, hend.2, dropSeparators, hend.1]
    have hagrees := (hr.statement []).agrees trivial hnear
    rw [hn] at hagrees
    generalize hn' : r'.statement c'.skip = result at hagrees
    cases hagrees with
    | lost hl => cases hl.1
    | @ok _ n' _ d' hv hpast =>
      obtain ⟨ns', e', hns', hview, he'⟩ := ih hd hpast
      have hk' : c'.skip.current.kind ≠ .endOfFile := by
        have hrow := hnear.current.resolve_right fun hb => hk hb.2.1.1
        rwa [← (row_eq_iff.mp hrow).1]
      exact ⟨n' :: ns', e', .cons hk' hn' hns', by simp [hv, hview], he'⟩

/-- The tokens of a program close all brackets, and do not end with a comma. -/
lemma closed_of_statements (hr : sameRows.RulesFollow r r)
    (hc : c.tokens = ts ++ [e]) (he : e.kind = .endOfFile)
    (hts : ∀ t ∈ ts, t.kind ≠ .endOfFile) (h : Statements r c ns d)
    (hd : d.skip.current.kind = .endOfFile) : nest [] ts = some [] ∧ Finished ts := by
  obtain ⟨u, hu, hn, hf⟩ := (h.passes hr ⟨ts, e, hc, he⟩).trans (.skip [] .past d) id
  obtain rfl : u = ts := by
    rcases append_eq_append_iff.mp (hc.symm.trans hu) with ⟨vs, rfl, hvs⟩ | ⟨vs, rfl, hvs⟩
    · cases vs with
      | nil => simp
      | cons => simp [Cursor.tokens] at hvs
    · cases vs with
      | nil => simp
      | cons v =>
        obtain ⟨hv, -⟩ := List.cons.inj hvs
        exact absurd (hv ▸ hd) (hts v (by simp))
  exact ⟨hn, hf.resolve_left (by simp)⟩

/-- If such tokens end with one behind which a line end carries nothing, it is a separator. -/
lemma separator_of_opener (hn : nest [] ts = some []) (hf : Finished ts)
    (ht : t ∈ ts.getLast?) (ho : t.kind.isOpener) : isSeparator t.kind := by
  obtain ⟨us, rfl⟩ := getLast?_eq_some_iff.mp ht
  rw [nest, foldlM_append] at hn
  obtain ⟨s, -, hs⟩ := Option.bind_eq_some_iff.mp hn
  obtain ⟨s₁, hs₁, hnil⟩ := nest_cons_iff.mp hs
  cases hnil
  have hcomma := hf t ht
  unfold Token.Kind.isOpener at ho
  split at ho <;> simp_all [nestStep, isSeparator]

/-- What comes behind the separators in front only depends on the rows. -/
lemma rows_of_split (h : ts = us ++ t :: vs)
    (hus : ∀ u ∈ us, isSeparator u.kind) (ht : isSeparator t.kind = false) :
    (ts.map row).dropWhile (isSeparator ·.kind) = (t :: vs).map row := by
  subst h
  rw [map_append, dropWhile_append_of_pos (by simpa [row] using hus)]
  simp [row, ht]

lemma startsNothing_of_statements {n : Nat}
    (h : Statements (rules n) c ns d) (hd : d.skip.current.kind = .endOfFile) :
    startsNothing c.skip.current.kind = false := by
  cases h with
  | nil => simp [hd, startsNothing, Token.Kind.isCloser]
  | cons hk hn =>
    by_contra hs
    exact rules_statement_fails (by simpa using hs) n _ _ hn

/-! ### Two programs -/

/-- The tokens of two programs, the first one without its end, and those of both together. The line
end between them carries nothing if the first one ends with an opener, and the one in front of the
second program is dropped. -/
structure Joined (ts₁ ts₂ ts : List Token) where
  lead : List Token.Row
  sep : List Token.Row
  rest : List Token.Row
  rows₂ : ts₂.map row = lead ++ (rest ++ [endRow])
  rows : ts.map row = ts₁.map row ++ (sep ++ (rest ++ [endRow]))
  lead_eq : lead = [] ∨ lead = [newlineRow]
  sep_eq : sep = [newlineRow] ∨ sep = [] ∧ ∃ t ∈ ts₁.getLast?, t.kind.isOpener

namespace Joined

variable {ts₁ ts₂ ts : List Token}

lemma nestingBound_left (h : Joined ts₁ ts₂ ts) (he : e.row = endRow) :
    nestingBound (ts₁ ++ [e]) ≤ nestingBound ts := by
  rw [nestingBound_eq, nestingBound_eq, h.rows]
  simp only [map_append, map_cons, map_nil, sum_append, he]
  omega

lemma nestingBound_right (h : Joined ts₁ ts₂ ts) : nestingBound ts₂ ≤ nestingBound ts := by
  have hlead : (h.lead.map rowWeight).sum ≤ 1 := by
    rcases h.lead_eq with hl | hl <;> simp [hl, rowWeight, newlineRow]
  have hsep : 1 ≤ ((ts₁.map row).map rowWeight).sum + (h.sep.map rowWeight).sum := by
    rcases h.sep_eq with hs | ⟨-, t, ht, -⟩
    · simp [hs, rowWeight, newlineRow]
    · obtain ⟨us, rfl⟩ := getLast?_eq_some_iff.mp ht
      have hpos : 1 ≤ rowWeight t.row := by
        unfold rowWeight
        split_ifs <;> omega
      simp only [map_append, map_cons, map_nil, sum_append, sum_cons]
      omega
  rw [nestingBound_eq, nestingBound_eq, h.rows, h.rows₂]
  simp only [map_append, sum_append]
  omega

/-- The second program starts behind the joint as it does on its own. -/
lemma exists_joint (h : Joined ts₁ ts₂ ts)
    (hts₂ : ts₂ = us ++ t :: vs) (hus : ∀ u ∈ us, isSeparator u.kind)
    (ht : isSeparator t.kind = false) (hstart : startsNothing t.kind = false) :
    ∃ (j : Joint) (ts₁' : List Token), ts = ts₁' ++ j.tokens ∧
      ts₁.map row = ts₁'.map row ∧
      (t :: vs).map row = (j.first :: j.more).map row ∧
      (h.sep = [newlineRow] → ∃ z ∈ j.tokens.head?, z.kind = .newline) := by
  obtain ⟨ts₁', zs, rfl, hr₁, hrz⟩ := map_eq_append_iff.mp h.rows
  have hskip {xs : List Token.Row} (hxs : xs = [] ∨ xs = [newlineRow])
      (ys : List Token.Row) :
      (xs ++ ys).dropWhile (isSeparator ·.kind) = ys.dropWhile (isSeparator ·.kind) := by
    rcases hxs with rfl | rfl <;> rfl
  have hsame : (zs.map row).dropWhile (isSeparator ·.kind) =
      (ts₂.map row).dropWhile (isSeparator ·.kind) := by
    rw [hrz, h.rows₂, hskip h.lead_eq, hskip (h.sep_eq.symm.imp_left And.left)]
  rw [rows_of_split hts₂ hus ht] at hsame
  rcases separators_split zs with hall | ⟨us', t', vs', rfl, hus', ht'⟩
  · have hnil : (zs.map row).dropWhile (isSeparator ·.kind) = [] := by
      rw [← append_nil (zs.map row), dropWhile_append_of_pos]
      · rfl
      · simpa [row] using hall
    rw [hnil] at hsame
    simp at hsame
  · rw [rows_of_split rfl hus' ht'] at hsame
    have hkind : t'.kind = t.kind := congrArg Token.Row.kind (List.cons.inj hsame).1
    have harrow : t'.kind ≠ .symbol .arrow := by
      intro hk
      simp [← hkind, hk, startsNothing] at hstart
    have helse : t'.kind ≠ .keyword .elseWord := by
      intro hk
      simp [← hkind, hk, startsNothing, Token.Kind.isCloser] at hstart
    refine ⟨⟨us', t', vs', hus', ht', harrow, helse⟩, ts₁', rfl, hr₁.symm, hsame.symm, fun hs => ?_⟩
    rw [hs, singleton_append] at hrz
    obtain ⟨z, zs', hzs, hz, -⟩ := map_eq_cons_iff.mp hrz
    exact ⟨z, by simp [Joint.tokens, hzs], congrArg Token.Row.kind hz⟩

end Joined

theorem ofTokens_joined {ts₁ ts₂ : List Token} (h : Joined ts₁ ts₂ ts)
    (he : e.row = endRow) (hts₁ : ∀ t ∈ ts₁, t.kind ≠ .endOfFile) {file₁ file₂ : String}
    {p₁ p₂ : Program} (h₁ : Program.ofTokens (ts₁ ++ [e]) file₁ = .ok p₁)
    (h₂ : Program.ofTokens ts₂ file₂ = .ok p₂) (file : String) :
    ∃ p, Program.ofTokens ts file = .ok p ∧
      p.body.map Node.unplaced = p₁.body.map Node.unplaced ++ p₂.body.map Node.unplaced := by
  obtain ⟨c₁, d₁, hc₁, hs₁, hd₁, hlen₁⟩ := statements_of_ofTokens h₁
  obtain ⟨c₂, d₂, hc₂, hs₂, hd₂, hlen₂⟩ := statements_of_ofTokens h₂
  have hkind : e.kind = .endOfFile := congrArg Token.Row.kind he
  obtain ⟨hn, hf⟩ := closed_of_statements (rules_follow sameRows _ _ (Nat.le_refl _)) hc₁ hkind
    hts₁ hs₁ hd₁
  have hend₂ : c₂.Ended := by
    obtain ⟨us, es, rfl, -, hes⟩ := map_eq_append_iff.mp
      (h.rows₂.trans (append_assoc _ _ _).symm)
    obtain ⟨e', es', rfl, he', hes'⟩ := map_eq_cons_iff.mp hes
    obtain rfl : es' = [] := by simpa using hes'
    exact ⟨us, e', hc₂, congrArg Token.Row.kind he'⟩
  -- where the second program starts, on its own and behind the joint
  obtain ⟨us, hus, hall⟩ := c₂.skip_append
  have hstart := startsNothing_of_statements hs₂ hd₂
  have hinside := hend₂.skip_inside
  obtain ⟨j, ts₁', rfl, hr₁, hrj, hnl⟩ := h.exists_joint (hc₂.symm.trans hus) hall hinside hstart
  have hparted : (∃ t ∈ j.tokens.head?, t.kind = .newline) ∨
      ∃ t ∈ ts₁.getLast?, isSeparator t.kind := by
    rcases h.sep_eq with hsep | ⟨-, t, ht, ho⟩
    · exact Or.inl (hnl hsep)
    · exact Or.inr ⟨t, ht, separator_of_opener hn hf ht ho⟩
  obtain ⟨t, zs, hts⟩ : ∃ t zs, ts₁' ++ j.tokens = t :: zs :=
    exists_cons_of_ne_nil (by simp [Joint.tokens])
  let c : Cursor := { current := t, rest := zs, file }
  have hnear : j.Near c₁ c :=
    ⟨ts₁, ts₁', e, hc₁, hkind, hts.symm, ⟨hr₁, ⟨[], hn⟩, hparted⟩⟩
  obtain ⟨ns₁, d, hst₁, hv₁, hd⟩ :=
    hs₁.of_joining (rules_follow (joining j) _ _ (h.nestingBound_left he)) hd₁ (Or.inl hnear)
  have hrows : c₂.skip.rows = d.skip.rows := hrj.trans (by rw [Cursor.rows, hd])
  obtain ⟨ns₂, d', hst₂, hv₂, hd'⟩ :=
    hs₂.of_rows (rules_follow sameRows _ _ h.nestingBound_right) hrows
  have hend : d'.skip.current.kind = .endOfFile := by
    rw [← (row_eq_iff.mp (Cursor.rows_eq_iff.mp hd').1).1, hd₂]
  have hlength : (ns₁ ++ ns₂).length < zs.length + 2 := by
    have h₁ := hlen₁ ⟨ts₁, e, hc₁, hkind⟩
    have h₂ := hlen₂ hend₂
    have hskip := (Passes.skip [] .near c₁).length_le
    have hl₁ := congrArg List.length hc₁
    have hl₁' := congrArg List.length hr₁
    have hlj := congrArg List.length hrj
    have hlts := congrArg List.length hts
    have hlv₁ := congrArg List.length hv₁
    have hlv₂ := congrArg List.length hv₂
    simp only [Cursor.tokens, Joint.tokens, length_append, length_map, length_cons,
      length_nil] at hl₁ hl₁' hlj hlts hlv₁ hlv₂ ⊢
    omega
  rw [hts] at hst₁ hst₂ ⊢
  obtain ⟨p, hp, hbody⟩ := ofTokens_of_statements (hst₁.append hst₂) hend hlength
  exact ⟨p, hp, by simp [hbody, hv₁, hv₂]⟩

end UiScript.Syntax
