import UiScript.Proofs.Token.Scan

/-!
# Gaps between tokens

Blanks and complete block comments may be put in wherever a token ends, and in front of the source.
The tokens before them are stopped by the blank in front of them, and the scan goes on behind them
as it did.
-/

namespace UiScript.Token

/-- Blanks and complete block comments. -/
inductive Filler : List Char → Prop
  | nil : Filler []
  | blank {c : Char} {w : List Char} (hc : isGapBlank c) (hw : Filler w) : Filler (c :: w)
  | comment {body w : List Char} (hbody : ¬ ['*', '/'] <:+: body) (hw : Filler w) :
      Filler ('/' :: '*' :: (body ++ '*' :: '/' :: w))

variable {w cs rest t : List Char} {ps : List Piece} {c b : Char}

lemma Filler.of_blanks (h : ∀ c ∈ w, isGapBlank c) : Filler w := by
  induction w with
  | nil => exact .nil
  | cons c w ih => exact .blank (h c (by simp)) (ih fun d hd => h d (by simp [hd]))

/-! ### What a scan yields -/

def yield (cs : List Char) : List Row × Option Fault := (rowsOf (scan cs).1, (scan cs).2)

lemma Scans.yield_eq (h : Scans cs ps rest) :
    yield cs = (rowsOf ps ++ (yield rest).1, (yield rest).2) := by
  simp [yield, h.scan_eq, rowsOf]

lemma yield_gap (h : lexeme c (t ++ cs) = .ok (.gap, t.length)) :
    yield (c :: (t ++ cs)) = yield cs := by
  rw [(Scans.cons h (.nil cs)).yield_eq]
  rfl

lemma yield_blank_run (hc : isGapBlank c) (cs : List Char) :
    yield (c :: cs) = yield (cs.dropWhile isGapBlank) := by
  have hgap := yield_gap (Cuts.blanks hc (run_takeWhile _ cs)).lexeme_eq
  rwa [List.takeWhile_append_dropWhile] at hgap

/-- A blank yields nothing, also if more blanks follow. -/
lemma yield_blank (hc : isGapBlank c) (cs : List Char) : yield (c :: cs) = yield cs := by
  rw [yield_blank_run hc]
  cases cs with
  | nil => rfl
  | cons d =>
    by_cases hd : isGapBlank d
    · rw [yield_blank_run hd, List.dropWhile_cons_of_pos hd]
    · rw [List.dropWhile_cons_of_neg hd]

lemma yield_comment {body : List Char} (h : ¬ ['*', '/'] <:+: body) (w : List Char) :
    yield ('/' :: '*' :: (body ++ '*' :: '/' :: w)) = yield w := by
  have hcut : Cuts '/' ('*' :: (body ++ ['*', '/'])) w .gap := .blockComment h
  simpa using yield_gap hcut.lexeme_eq

lemma Filler.yield_append (hw : Filler w) (cs : List Char) : yield (w ++ cs) = yield cs := by
  induction hw with
  | nil => rfl
  | blank hc _ ih => rw [List.cons_append, yield_blank hc, ih]
  | @comment body w hbody _ ih =>
    have htext : ('/' :: '*' :: (body ++ '*' :: '/' :: w)) ++ cs =
        '/' :: '*' :: (body ++ '*' :: '/' :: (w ++ cs)) := by simp
    rw [htext, yield_comment hbody, ih]

/-! ### Where a gap ends -/

/-- A gap goes on as far as it can. -/
lemma Cuts.not_prolongs (h : Cuts c t rest .gap) :
    ∀ d ∈ rest.head?, prolongs (c :: t) d = false := by
  intro d hd
  cases h with
  | blanks hc h =>
    rw [prolongs_blank hc]
    exact h.2 d hd
  | lineComment h => exact h.2 d hd
  | blockComment => rfl

lemma Scans.not_prolongs (h : Scans cs ps rest) :
    ∀ p ∈ ps.getLast?, p.lexeme = .gap → ∀ d ∈ rest.head?, prolongs p.text d = false := by
  induction h with
  | nil => simp
  | @cons c t cs rest x ps h hs ih =>
    cases ps with
    | nil =>
      cases hs
      intro p hp hx
      obtain rfl : ⟨c :: t, x⟩ = p := by simpa using hp
      exact (Cuts.of_lexeme ((show x = .gap from hx) ▸ h)).not_prolongs
    | cons => simpa using ih

/-! ### Putting in a gap -/

def Piece.IsLineComment (p : Piece) : Prop := p.lexeme = .gap ∧ ['/', '/'] <+: p.text

lemma Scans.of_append {qs : List Piece} (h : Scans cs (ps ++ qs) rest) :
    ∃ mid, Scans cs ps mid ∧ Scans mid qs rest := by
  induction ps generalizing cs with
  | nil => exact ⟨cs, .nil cs, h⟩
  | cons p ps ih =>
    cases h with
    | cons hl hs =>
      obtain ⟨mid, hp, hq⟩ := ih hs
      exact ⟨mid, .cons hl hp, hq⟩

/-- Behind pieces that no blank prolongs, a gap changes nothing. -/
lemma yield_insert_closed (h : Scans cs ps rest)
    (hlast : ∀ p ∈ ps.getLast?, p.lexeme = .gap → ∀ d, prolongs p.text d = false)
    (hb : isGapBlank b) (hw : Filler w) : yield (textOf ps ++ (b :: w ++ rest)) = yield cs := by
  have hstop : Stops (b :: w ++ rest) := by simp [Stops, isStop, hb]
  have hswap := h.swap hstop fun p hp hx d _ => hlast p hp hx d
  rw [hswap.yield_eq, (Filler.blank hb hw).yield_append, ← h.yield_eq]

lemma yield_insert_blank (h : Scans cs ps (c :: (t ++ rest))) (hc : isGapBlank c)
    (ht : ∀ d ∈ t, isGapBlank d) (hw : Filler w) :
    yield (textOf ps ++ (c :: t ++ (w ++ rest))) = yield cs := by
  have hstop : Stops (c :: t ++ (w ++ rest)) := by simp [Stops, isStop, hc]
  have hswap := h.swap hstop fun p hp hx d hd => h.not_prolongs p hp hx d hd
  have hblanks : Filler (c :: t) := .of_blanks (by simpa [hc] using ht)
  have hrest : yield (c :: t ++ (w ++ rest)) = yield (c :: (t ++ rest)) := by
    rw [hblanks.yield_append, hw.yield_append, ← List.cons_append, hblanks.yield_append]
  rw [hswap.yield_eq, hrest, ← h.yield_eq]

/-- A gap may be put in anywhere between two pieces, but not right behind a line comment. -/
theorem yield_insert (h : Scans cs ps rest) (hline : ∀ p ∈ ps.getLast?, ¬ p.IsLineComment)
    (hb : isGapBlank b) (hw : Filler w) :
    yield (textOf ps ++ (b :: w ++ rest)) = yield cs := by
  rcases List.eq_nil_or_concat ps with rfl | ⟨ps, p, rfl⟩
  · exact yield_insert_closed h (by simp) hb hw
  · rw [List.concat_eq_append] at h hline ⊢
    obtain ⟨mid, hps, hp⟩ := h.of_append
    cases hp with
    | @cons c t _ _ x _ hl hnil =>
      cases hnil
      cases x with
      | token => exact yield_insert_closed h (by simp) hb hw
      | gap =>
        cases Cuts.of_lexeme hl with
        | blanks hc h =>
          have hinsert := yield_insert_blank hps hc h.1 (.blank hb hw)
          simpa [textOf] using hinsert
        | @lineComment body =>
          exact absurd ⟨rfl, ⟨body, rfl⟩⟩ (hline ⟨'/' :: '/' :: body, .gap⟩ (by simp))
        | @blockComment body =>
          refine yield_insert_closed h (fun p hp _ d => ?_) hb hw
          obtain rfl : ⟨'/' :: '*' :: (body ++ ['*', '/']), .gap⟩ = p := by simpa using hp
          rfl

/-- The tokens of a source into which a gap was put say the same, before line ends are dropped and
after. -/
lemma rawTokens_insert {source file : String} {raw : List Token}
    (h : rawTokens source file = .ok raw) {qs : List Piece}
    (hps : (scan source.toList).1 = ps ++ qs) (hline : ∀ p ∈ ps.getLast?, ¬ p.IsLineComment)
    (hb : isGapBlank b) (hw : Filler w) :
    ∃ raw', rawTokens (String.ofList (textOf ps ++ (b :: w ++ textOf qs))) file = .ok raw' ∧
      raw'.map row = raw.map row := by
  obtain ⟨hfault, hrows⟩ := rawTokens_ok h
  have hcut := Scans.of_scan_none hfault
  rw [hps] at hcut
  obtain ⟨mid, hcutp, hcutq⟩ := hcut.of_append
  obtain rfl : mid = textOf qs := by simpa using hcutq.text_eq
  have hyield := yield_insert hcutp hline hb hw
  obtain ⟨hrows', hfault'⟩ := Prod.ext_iff.mp hyield
  rw [← String.toList_ofList (l := textOf ps ++ (b :: w ++ textOf qs))] at hrows' hfault'
  obtain ⟨raw', hraw', hmap⟩ := rawTokens_of_scan (hfault'.trans hfault) file
  exact ⟨raw', hraw', by rw [hmap, hrows]; exact congrArg (· ++ [endRow]) hrows'⟩

end UiScript.Token
