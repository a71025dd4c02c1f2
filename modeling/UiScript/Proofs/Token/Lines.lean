import UiScript.Proofs.Token.Scan

/-!
# Line ends between two sources

Which line ends are dropped only depends on their neighbours, so the tokens of two sources with a
line end between them are those of the first one and those of the second one; only what becomes of
the line ends in between is decided anew.
-/

namespace UiScript.Token

open List

/-! ### The kinds of raw tokens -/

lemma Scans.isRaw {cs rest : List Char} {ps : List Piece} (h : Scans cs ps rest) :
    ∀ p ∈ ps, p.lexeme.IsRaw := by
  induction h with
  | nil => simp
  | cons h _ ih =>
    intro p hp
    rcases mem_cons.mp hp with rfl | hp
    · exact (Cuts.of_lexeme h).isRaw
    · exact ih p hp

/-- The mark of the end is not among the tokens of a source, and all line ends say the same. -/
lemma rowsOf_scan (cs : List Char) : ∀ r ∈ rowsOf (scan cs).1,
    r.kind ≠ .endOfFile ∧ (r.kind = .newline → r = newlineRow) := by
  intro r hr
  obtain ⟨p, hp, hrow⟩ := mem_filterMap.mp hr
  obtain ⟨rest, hrest⟩ := Scans.of_scan (append_nil (scan cs).1).symm
  have hraw := hrest.isRaw p hp
  cases hx : p.lexeme with
  | gap => simp [Piece.row?, hx] at hrow
  | token kind value template =>
    obtain rfl : (⟨kind, value, template⟩ : Row) = r := by simpa [Piece.row?, hx] using hrow
    rw [hx] at hraw
    refine ⟨hraw.1, fun hk => ?_⟩
    obtain ⟨hv, ht⟩ := hraw.2 hk
    rw [newlineRow, ← hv, ← ht, ← hk]

/-! ### Dropping line ends -/

lemma keepRow_ne_nil (kept : List Row) (r : Row) : keepRow kept r ≠ [] := by
  cases kept <;> simp only [keepRow] <;> split_ifs <;> simp

variable {kept rows : List Row} {r : Row}

/-- Only the last token that was kept matters for the next one. -/
lemma keepRow_append (h : kept ≠ []) (before : List Row) (r : Row) :
    keepRow (kept ++ before) r = keepRow kept r ++ before := by
  obtain ⟨last, kept, rfl⟩ := exists_cons_of_ne_nil h
  simp only [keepRow, cons_append]
  split_ifs <;> rfl

lemma foldl_keepRow_append (h : kept ≠ []) (before rows : List Row) :
    rows.foldl keepRow (kept ++ before) = rows.foldl keepRow kept ++ before := by
  induction rows generalizing kept with
  | nil => rfl
  | cons r rows ih =>
    rw [foldl_cons, foldl_cons, keepRow_append h, ih (keepRow_ne_nil kept r)]

/-- A token that is neither a line end nor a closer is kept and changes nothing before it. -/
lemma keepRow_cons (hline : r.kind ≠ .newline) (hclose : r.kind.isCloser = false) (kept : List Row)
    : keepRow kept r = r :: kept := by
  simp [keepRow, hline, hclose]

lemma foldl_keepRow_cons (hline : r.kind ≠ .newline) (hclose : r.kind.isCloser = false)
    (kept rows : List Row) : (r :: rows).foldl keepRow kept = rows.foldl keepRow [r] ++ kept := by
  rw [foldl_cons, keepRow_cons hline hclose]
  exact foldl_keepRow_append (cons_ne_nil r []) kept rows

/-- A line end behind an opener is dropped. -/
lemma keepRow_newline_opener {last : Row} (h : last.kind.isOpener) (kept : List Row) :
    keepRow (last :: kept) newlineRow = last :: kept := by
  simp [keepRow, newlineRow, h]

/-- A line end is kept or stands behind an opener. -/
lemma keepRow_newline (kept : List Row) :
    keepRow kept newlineRow = newlineRow :: kept ∨
      keepRow kept newlineRow = kept ∧ ∃ last ∈ kept.head?, last.kind.isOpener := by
  cases kept with
  | nil => exact Or.inl rfl
  | cons last kept =>
    by_cases h : last.kind.isOpener
    · exact Or.inr ⟨keepRow_newline_opener h kept, last, rfl, h⟩
    · exact Or.inl (by simp [keepRow, newlineRow, h])

/-- Behind a line end, whether it was kept or not, more line ends are dropped. -/
lemma foldl_keepRow_newlines (kept : List Row) (n : Nat) :
    (List.replicate n newlineRow).foldl keepRow (keepRow kept newlineRow) =
      keepRow kept newlineRow := by
  have hagain : keepRow (keepRow kept newlineRow) newlineRow = keepRow kept newlineRow := by
    rcases keepRow_newline kept with h | ⟨h, last, hlast, ho⟩
    · rw [h, keepRow_newline_opener rfl]
    · rw [h, h]
  induction n with
  | zero => rfl
  | succ n ih => rw [replicate_succ, foldl_cons, hagain, ih]

/-- A source starts with line ends, and then with another token or its end. -/
lemma newlines_split (rows : List Row) (h : ∀ r ∈ rows, r.kind = .newline → r = newlineRow) :
    ∃ n rest, rows = List.replicate n newlineRow ++ rest ∧
      ∀ r ∈ rest.head?, r.kind ≠ .newline := by
  induction rows with
  | nil => exact ⟨0, [], rfl, by simp⟩
  | cons r rows ih =>
    by_cases hr : r.kind = .newline
    · obtain ⟨n, rest, rfl, hrest⟩ := ih fun s hs => h s (by simp [hs])
      exact ⟨n + 1, rest, by rw [h r (by simp) hr]; rfl, hrest⟩
    · exact ⟨0, r :: rows, rfl, by simpa using hr⟩

/-- A token that is no line end is never dropped, so the first one stays the first one. -/
lemma foldl_keepRow_singleton (hr : r.kind ≠ .newline) (rows : List Row) :
    ∃ kept, rows.foldl keepRow [r] = kept ++ [r] := by
  suffices hstep : ∀ kept, ∃ kept', rows.foldl keepRow (kept ++ [r]) = kept' ++ [r] from hstep []
  induction rows with
  | nil => exact fun kept => ⟨kept, rfl⟩
  | cons s rows ih =>
    intro kept
    rw [foldl_cons]
    by_cases hkept : kept = []
    · subst hkept
      have hone : keepRow [r] s = [] ++ [r] ∨ keepRow [r] s = [s] ++ [r] := by
        simp only [keepRow, beq_iff_eq, if_neg hr]
        split_ifs <;> simp
      rw [nil_append]
      rcases hone with hone | hone <;> rw [hone]
      · exact ih []
      · exact ih [s]
    · rw [keepRow_append hkept]
      exact ih _

lemma mem_keepRow {s : Row} (h : s ∈ keepRow kept r) : s ∈ kept ∨ s = r := by
  cases kept <;> simp only [keepRow] at h <;> split_ifs at h <;> simp_all <;> tauto

/-- Nothing is added to a source. -/
lemma mem_pruneRows {s : Row} (h : s ∈ pruneRows rows) : s ∈ rows := by
  have hfold (kept : List Row) (hs : s ∈ rows.foldl keepRow kept) : s ∈ kept ∨ s ∈ rows := by
    clear h
    induction rows generalizing kept with
    | nil => exact Or.inl hs
    | cons r rows ih =>
      rcases ih _ hs with hs | hs
      · exact (mem_keepRow hs).imp_right fun hr => by simp [hr]
      · exact Or.inr (mem_cons_of_mem r hs)
  simpa using hfold [] (mem_reverse.mp h)

lemma sublist_keepRow (kept : List Row) (r : Row) : (keepRow kept r).Sublist (r :: kept) := by
  cases kept with
  | nil =>
    simp only [keepRow]
    split_ifs <;> exact Sublist.refl _
  | cons =>
    simp only [keepRow]
    split_ifs
    · exact sublist_cons_self _ _
    · exact Sublist.refl _
    · exact (sublist_cons_self _ _).cons_cons r
    · exact Sublist.refl _
    · exact Sublist.refl _

lemma sublist_pruneRows (rows : List Row) : (pruneRows rows).Sublist rows := by
  have hfold (kept : List Row) : (rows.foldl keepRow kept).Sublist (rows.reverse ++ kept) := by
    induction rows generalizing kept with
    | nil => exact Sublist.refl _
    | cons r rows ih =>
      rw [foldl_cons, reverse_cons, append_assoc]
      exact (ih _).trans ((Sublist.refl _).append (sublist_keepRow kept r))
  have hall := (hfold []).reverse
  rwa [append_nil, reverse_reverse] at hall

/-- Some rows without some of their line ends. -/
def Thinned (us rows : List Row) : Prop :=
  us.Sublist rows ∧ us.filter (·.kind != .newline) = rows.filter (·.kind != .newline)

lemma thinned_keepRow (kept : List Row) (r : Row) : Thinned (keepRow kept r) (r :: kept) := by
  refine ⟨sublist_keepRow kept r, ?_⟩
  cases kept with
  | nil =>
    simp only [keepRow]
    split_ifs <;> rfl
  | cons last before =>
    simp only [keepRow]
    split_ifs with hline hopen hclose hlast
    · exact (filter_cons_of_neg (by simpa using hline)).symm
    · rfl
    · have hdrop : (last :: before).filter (·.kind != .newline) =
          before.filter (·.kind != .newline) := filter_cons_of_neg (by simpa using hlast)
      rw [filter_cons, filter_cons, hdrop]
    · rfl
    · rfl

/-- Only line ends are dropped. -/
lemma thinned_pruneRows (rows : List Row) : Thinned (pruneRows rows) rows := by
  refine ⟨sublist_pruneRows rows, ?_⟩
  have hfold (kept : List Row) : (rows.foldl keepRow kept).filter (·.kind != .newline) =
      (rows.reverse ++ kept).filter (·.kind != .newline) := by
    induction rows generalizing kept with
    | nil => rfl
    | cons r rows ih =>
      rw [foldl_cons, ih, filter_append, (thinned_keepRow kept r).2, ← filter_append,
        reverse_cons, append_assoc, singleton_append]
  rw [pruneRows, filter_reverse, hfold, append_nil, filter_reverse,
    reverse_reverse]

/-- What is left of two texts is what is left of each. -/
lemma thinned_append {us rows' : List Row} (h : Thinned us (rows ++ rows')) :
    ∃ vs ws, us = vs ++ ws ∧ Thinned vs rows ∧ Thinned ws rows' := by
  obtain ⟨hsub, hfilter⟩ := h
  obtain ⟨vs, ws, rfl, hvs, hws⟩ := sublist_append_iff.mp hsub
  rw [filter_append, filter_append] at hfilter
  have hv := (hvs.filter (·.kind != .newline)).length_le
  have hw := (hws.filter (·.kind != .newline)).length_le
  have hlength := congrArg List.length hfilter
  rw [length_append, length_append] at hlength
  obtain ⟨hv, hw⟩ := append_inj hfilter (by omega)
  exact ⟨vs, ws, rfl, ⟨hvs, hv⟩, hws, hw⟩

lemma Thinned.eq_of_sameLine {us : List Row} (h : Thinned us rows)
    (hrows : ∀ r ∈ rows, r.kind ≠ .newline) : us = rows := by
  have hkeep {vs : List Row} (hvs : ∀ r ∈ vs, r.kind ≠ .newline) :
      vs.filter (·.kind != .newline) = vs :=
    filter_eq_self.mpr fun r hr => by simpa using hvs r hr
  rw [← hkeep fun r hr => hrows r (h.1.subset hr), ← hkeep hrows, h.2]

/-- Nothing is dropped where no line ends. -/
lemma pruneRows_sameLine (h : ∀ r ∈ rows, r.kind ≠ .newline) : pruneRows rows = rows := by
  have hkeep {r : Row} (hr : r.kind ≠ .newline) (kept : List Row)
      (hkept : ∀ s ∈ kept.head?, s.kind ≠ .newline) : keepRow kept r = r :: kept := by
    cases kept with
    | nil => simp [keepRow, hr]
    | cons s => simp [keepRow, hr, hkept s rfl]
  have hfold (kept : List Row) (hkept : ∀ s ∈ kept.head?, s.kind ≠ .newline) :
      rows.foldl keepRow kept = rows.reverse ++ kept := by
    induction rows generalizing kept with
    | nil => rfl
    | cons r rows ih =>
      have hr := h r (by simp)
      rw [foldl_cons, hkeep hr kept hkept, ih (fun s hs => h s (by simp [hs]))]
      · simp
      · simpa using hr
  rw [pruneRows, hfold [] (by simp), append_nil, reverse_reverse]

/-! ### Two sources -/

/-- Rows that start with neither a line end nor a closer are kept on their own. -/
lemma foldl_keepRow_start (h : ∀ r ∈ rows.head?, r.kind ≠ .newline ∧ r.kind.isCloser = false)
    (kept : List Row) : rows.foldl keepRow kept = rows.foldl keepRow [] ++ kept := by
  cases rows with
  | nil => rfl
  | cons r =>
    obtain ⟨hline, hclose⟩ := h r rfl
    rw [foldl_keepRow_cons hline hclose, foldl_keepRow_cons hline hclose, append_nil]

lemma pruneRows_end (rows : List Row) :
    pruneRows (rows ++ [endRow]) = pruneRows rows ++ [endRow] := by
  rw [pruneRows, foldl_append, foldl_cons, foldl_nil,
    keepRow_cons (by decide) (by decide), reverse_cons, pruneRows]

/-- Line ends in front of everything become one. -/
lemma foldl_keepRow_lead (n : Nat) :
    (List.replicate n newlineRow).foldl keepRow [] = [] ∨
      (List.replicate n newlineRow).foldl keepRow [] = [newlineRow] := by
  cases n with
  | zero => exact Or.inl rfl
  | succ n => exact Or.inr (foldl_keepRow_newlines [] n)

/-- A closer behind the line ends at the start becomes the first row. -/
lemma head?_pruneRows_closer (hline : r.kind ≠ .newline) (hclose : r.kind.isCloser) (n : Nat)
    (rows : List Row) : (pruneRows (List.replicate n newlineRow ++ r :: rows)).head? = some r := by
  have hfirst : keepRow ((List.replicate n newlineRow).foldl keepRow []) r = [r] := by
    rcases foldl_keepRow_lead n with h | h <;> rw [h] <;>
      simp [keepRow, hline, hclose, newlineRow]
  obtain ⟨kept, hkept⟩ := foldl_keepRow_singleton hline rows
  rw [pruneRows, foldl_append, foldl_cons, hfirst, hkept, reverse_append]
  rfl

/-- The rows of two sources with a line end in between, as long as the second one does not start
with a closer. -/
theorem pruneRows_joined (rows₁ : List Row) {rows₂ : List Row}
    (hraw : ∀ r ∈ rows₂, r.kind = .newline → r = newlineRow)
    (hclose : ∀ r ∈ (pruneRows rows₂).head?, r.kind.isCloser = false) :
    ∃ lead sep rest, pruneRows rows₂ = lead ++ rest ∧
      pruneRows (rows₁ ++ newlineRow :: rows₂) = pruneRows rows₁ ++ (sep ++ rest) ∧
      (lead = [] ∨ lead = [newlineRow]) ∧
      (sep = [newlineRow] ∨ sep = [] ∧ ∃ r ∈ (pruneRows rows₁).getLast?, r.kind.isOpener) := by
  obtain ⟨n, rows, rfl, hline⟩ := newlines_split rows₂ hraw
  have hstart : ∀ r ∈ rows.head?, r.kind ≠ .newline ∧ r.kind.isCloser = false := by
    intro r hr
    refine ⟨hline r hr, ?_⟩
    by_contra hc
    obtain ⟨rows, rfl⟩ := head?_eq_some_iff.mp hr
    have hhead := head?_pruneRows_closer (hline r hr) (by simpa using hc) n rows
    exact hc (hclose r hhead)
  have hjoined : pruneRows (rows₁ ++ newlineRow :: (List.replicate n newlineRow ++ rows)) =
      (keepRow (rows₁.foldl keepRow []) newlineRow).reverse ++ pruneRows rows := by
    rw [pruneRows, foldl_append, foldl_cons, foldl_append, foldl_keepRow_newlines,
      foldl_keepRow_start hstart, reverse_append, pruneRows]
  have hsecond : pruneRows (List.replicate n newlineRow ++ rows) =
      ((List.replicate n newlineRow).foldl keepRow []).reverse ++ pruneRows rows := by
    rw [pruneRows, foldl_append, foldl_keepRow_start hstart, reverse_append, pruneRows]
  have hlead : ((List.replicate n newlineRow).foldl keepRow []).reverse = [] ∨
      ((List.replicate n newlineRow).foldl keepRow []).reverse = [newlineRow] := by
    rcases foldl_keepRow_lead n with h | h <;> simp [h]
  rcases keepRow_newline (rows₁.foldl keepRow []) with h | ⟨h, last, hlast, ho⟩
  · refine ⟨_, [newlineRow], _, hsecond, ?_, hlead, Or.inl rfl⟩
    rw [hjoined, h, reverse_cons, append_assoc]
    rfl
  · refine ⟨_, [], _, hsecond, ?_, hlead, Or.inr ⟨rfl, last, ?_, ho⟩⟩
    · rw [hjoined, h, nil_append]
      rfl
    · rwa [pruneRows, getLast?_reverse]

end UiScript.Token
