import Mathlib.Data.List.Chain
import UiScript.Token.Lines

/-!
# Which line ends stay

Line ends are dropped in one pass that looks back at what was kept and takes a line end back when a
closer follows. The rule behind it looks at both sides of a run of line ends: the first one of the
run stays, unless the run follows an opener or precedes a closer.
-/

namespace UiScript.Token

open List

/-! ### The rule -/

/-- A line end right after one of these carries nothing. -/
def openers : List Kind :=
  [.symbol .leftBrace, .symbol .leftParen, .symbol .leftBracket, .symbol .comma, .symbol .semicolon]

/-- A line end right before one of these carries nothing. -/
def closers : List Kind :=
  [.symbol .rightBrace, .symbol .rightParen, .symbol .rightBracket, .keyword .elseWord]

lemma isOpener_iff (k : Kind) : k.isOpener ↔ k = .newline ∨ k ∈ openers := by
  cases k with
  | symbol mark => cases mark <;> decide
  | _ => simp [Kind.isOpener, openers]

lemma isCloser_iff (k : Kind) : k.isCloser ↔ k ∈ closers := by
  cases k with
  | symbol mark => cases mark <;> decide
  | keyword word => cases word <;> decide
  | _ => simp [Kind.isCloser, closers]

/-- A line end may stay behind such a token, or at the start. -/
def leads (before : Option Token) : Bool :=
  before.all fun t => t.kind != .newline && !openers.contains t.kind

/-- The first token behind the line ends in front. -/
def behindRun (ts : List Token) : Option Token := (ts.dropWhile (·.kind == .newline)).head?

/-- A line end may stay before such tokens. -/
def trails (ts : List Token) : Bool := (behindRun ts).all fun t => !closers.contains t.kind

/-- A line end at that index is the first one of its run, which neither follows an opener nor
precedes a closer. -/
def endsStatement (ts : List Token) (i : Nat) : Bool :=
  leads (ts.take i).getLast? && trails (ts.drop i)

def pruned (before : Option Token) : List Token → List Token
  | [] => []
  | t :: ts =>
    if t.kind != .newline || (leads before && trails (t :: ts)) then t :: pruned (some t) ts
    else pruned (some t) ts

/-- The rule goes from token to token. -/
lemma filter_eq_pruned (us ts : List Token) :
    ((ts.zipIdx us.length).filter fun x =>
      x.1.kind != .newline || endsStatement (us ++ ts) x.2).map Prod.fst =
      pruned us.getLast? ts := by
  induction ts generalizing us with
  | nil => rfl
  | cons t ts ih =>
    have hhere : endsStatement (us ++ t :: ts) us.length =
        (leads us.getLast? && trails (t :: ts)) := by
      simp [endsStatement]
    have hrest := ih (us ++ [t])
    rw [append_assoc, singleton_append, length_append, length_singleton,
      getLast?_concat] at hrest
    rw [zipIdx_cons, filter_cons, pruned, hhere]
    split_ifs with hstay
    · rw [map_cons, hrest]
    · exact hrest

/-! ### The pass -/

lemma leads_some (t : Token) : leads (some t) = !t.kind.isOpener := by
  rw [Bool.eq_iff_iff, Bool.not_eq_true', ← Bool.not_eq_true, isOpener_iff]
  simp [leads]

variable {t : Token} {before : Option Token}

lemma trails_newline (h : t.kind = .newline) (ts : List Token) : trails (t :: ts) = trails ts := by
  simp [trails, behindRun, h]

lemma trails_cons (h : t.kind ≠ .newline) (ts : List Token) :
    trails (t :: ts) = !t.kind.isCloser := by
  rw [Bool.eq_iff_iff, Bool.not_eq_true', ← Bool.not_eq_true, isCloser_iff]
  simp [trails, behindRun, h]

lemma pruned_newline (h : t.kind = .newline) (before : Option Token) (ts : List Token) :
    pruned before (t :: ts) =
      if leads before && trails ts then t :: pruned (some t) ts else pruned (some t) ts := by
  simp [pruned, h, trails_newline h]

lemma pruned_cons (h : t.kind ≠ .newline) (before : Option Token) (ts : List Token) :
    pruned before (t :: ts) = t :: pruned (some t) ts := by
  simp [pruned, h]

/-- Of what stands before the tokens it only matters whether a line end may follow it. -/
lemma pruned_congr {before' : Option Token} (h : leads before = leads before') (ts : List Token) :
    pruned before ts = pruned before' ts := by
  cases ts with
  | nil => rfl
  | cons => simp only [pruned, h]

/-- The tokens kept so far, the last one first, without a line end that will be taken back. -/
def settled (kept ts : List Token) : List Token :=
  match kept with
  | [] => []
  | last :: before => if last.kind == .newline && !trails ts then before else last :: before

lemma settled_of_ne {last : Token} (h : last.kind ≠ .newline) (kept ts : List Token) :
    settled (last :: kept) ts = last :: kept := by
  simp [settled, h]

/-- A line end stays for now if it may follow the last token kept. -/
lemma keep_newline (h : t.kind = .newline) (kept : List Token) :
    keep kept t = if leads kept.head? then t :: kept else kept := by
  cases kept with
  | nil => simp [keep, h, leads]
  | cons last => cases hopen : last.kind.isOpener <;> simp [keep, h, leads_some, hopen]

/-- Another token is kept, and decides about a line end before it. -/
lemma keep_of_ne (h : t.kind ≠ .newline) (kept ts : List Token) :
    keep kept t = t :: settled kept (t :: ts) := by
  cases kept with
  | nil => simp [keep, h, settled]
  | cons =>
    simp only [keep, settled, trails_cons h]
    split_ifs <;> simp_all

/-- The pass follows the rule: what it has kept but for a line end that will be taken back stays,
and the tokens to come are pruned as the last token kept has it. -/
lemma foldl_keep (kept ts : List Token) :
    (ts.foldl keep kept).reverse = (settled kept ts).reverse ++ pruned kept.head? ts := by
  induction ts generalizing kept with
  | nil => cases kept <;> simp [settled, pruned, trails, behindRun]
  | cons t ts ih =>
    rw [foldl_cons, ih]
    by_cases hline : t.kind = .newline
    · have hlead : leads (some t) = false := by simp [leads, hline]
      rw [keep_newline hline, pruned_newline hline]
      cases hbefore : leads kept.head? with
      | false =>
        have hsettled : settled kept ts = settled kept (t :: ts) := by
          simp only [settled, trails_newline hline]
        simp [hsettled, pruned_congr (hbefore.trans hlead.symm)]
      | true =>
        have hsettled : settled kept (t :: ts) = kept := by
          cases kept with
          | nil => rfl
          | cons last before =>
            refine settled_of_ne (fun hlast => ?_) before _
            simp [leads, hlast] at hbefore
        rw [hsettled]
        cases htrail : trails ts <;> simp [settled, hline, htrail]
    · rw [keep_of_ne hline, settled_of_ne hline, pruned_cons hline, head?_cons,
        reverse_cons, append_assoc, singleton_append]

lemma pruneNewlines_eq_pruned (ts : List Token) : pruneNewlines ts = pruned none ts :=
  foldl_keep [] ts

/-! ### What is left -/

/-- A token may stand right before another one: no line end follows an opener or a line end, and no
closer follows a line end. -/
def MayPrecede (t u : Token) : Prop :=
  (u.kind = .newline → t.kind ≠ .newline ∧ t.kind ∉ openers) ∧
    (t.kind = .newline → u.kind ∉ closers)

/-- Behind a line end the next token is the one behind its run. -/
lemma head?_pruned (h : leads before = false) (ts : List Token) :
    (pruned before ts).head? = behindRun ts := by
  induction ts generalizing before with
  | nil => rfl
  | cons t ts ih =>
    by_cases hline : t.kind = .newline
    · have hlead : leads (some t) = false := by simp [leads, hline]
      have hrun : behindRun (t :: ts) = behindRun ts := by simp [behindRun, hline]
      rw [pruned_newline hline, h, Bool.false_and, if_neg Bool.false_ne_true, ih hlead, hrun]
    · simp [pruned_cons hline, behindRun, hline]

/-- A line end in front may follow what stands before. -/
lemma leads_of_newline {ts : List Token} (ht : t ∈ (pruned before ts).head?)
    (hline : t.kind = .newline) : leads before := by
  by_contra hlead
  rw [head?_pruned (Bool.not_eq_true _ ▸ hlead), behindRun] at ht
  have hnot := head?_dropWhile_not (fun t : Token => t.kind == .newline) ts
  simp [Option.mem_def.mp ht, hline] at hnot

lemma filter_pruned (before : Option Token) (ts : List Token) :
    (pruned before ts).filter (·.kind != .newline) = ts.filter (·.kind != .newline) := by
  induction ts generalizing before with
  | nil => rfl
  | cons t ts ih =>
    rw [pruned]
    split_ifs with hstay
    · rw [filter_cons, filter_cons, ih]
    · have hline : t.kind = .newline := by
        simp only [Bool.or_eq_true, not_or, bne_iff_ne, ne_eq, Decidable.not_not] at hstay
        exact hstay.1
      rw [ih, filter_cons_of_neg (by simp [hline])]

lemma isChain_pruned (before : Option Token) (ts : List Token) :
    (pruned before ts).IsChain MayPrecede := by
  induction ts generalizing before with
  | nil => exact .nil
  | cons t ts ih =>
    by_cases hline : t.kind = .newline
    · have hlead : leads (some t) = false := by simp [leads, hline]
      rw [pruned_newline hline]
      split_ifs with hstay
      · refine isChain_cons.mpr ⟨fun u hu => ⟨fun hu' => ?_, fun _ => ?_⟩, ih _⟩
        · exact absurd (leads_of_newline hu hu') (by simp [hlead])
        · rw [head?_pruned hlead] at hu
          have htrail : trails ts := (Bool.and_eq_true_iff.mp hstay).2
          simpa [trails, Option.mem_def.mp hu] using htrail
      · exact ih _
    · rw [pruned_cons hline]
      refine isChain_cons.mpr ⟨fun u hu => ⟨fun hu' => ?_, fun ht => absurd ht hline⟩, ih _⟩
      simpa [leads] using leads_of_newline hu hu'

/-- Where nothing is to be dropped, nothing is. -/
lemma pruned_of_isChain {ts : List Token} (h : (before.toList ++ ts).IsChain MayPrecede) :
    pruned before ts = ts := by
  induction ts generalizing before with
  | nil => rfl
  | cons t ts ih =>
    have hafter := isChain_cons.mp (isChain_append.mp h).2.1
    have hrest : pruned (some t) ts = ts := ih (isChain_append.mp h).2.1
    by_cases hline : t.kind = .newline
    · have hlead : leads before := by
        cases before with
        | none => rfl
        | some =>
          have hb := (isChain_cons.mp h).1 t rfl
          simpa [leads] using hb.1 hline
      have htrail : trails ts := by
        cases ts with
        | nil => rfl
        | cons u =>
          have hu := hafter.1 u rfl
          have hne : u.kind ≠ .newline := fun hu' => (hu.1 hu').1 hline
          rw [trails_cons hne, Bool.not_eq_true', ← Bool.not_eq_true, isCloser_iff]
          exact hu.2 hline
      rw [pruned_newline hline, hlead, htrail, hrest]
      rfl
    · rw [pruned_cons hline, hrest]

/-- Dropping line ends follows a rule that looks at both sides: all other tokens stay in their
order, and of the line ends those stay that are the first of their run, which neither follows an
opener nor precedes a closer. So no line end is left behind another one or behind an opener, and no
closer is left behind a line end, and nothing more is dropped the second time. -/
theorem pruneNewlines_by_rule (ts : List Token) :
    (pruneNewlines ts).filter (·.kind != .newline) = ts.filter (·.kind != .newline) ∧
      pruneNewlines ts =
        (ts.zipIdx.filter fun x => x.1.kind != .newline || endsStatement ts x.2).map Prod.fst ∧
      (pruneNewlines ts).IsChain MayPrecede ∧
      pruneNewlines (pruneNewlines ts) = pruneNewlines ts := by
  rw [pruneNewlines_eq_pruned (pruneNewlines ts), pruneNewlines_eq_pruned ts]
  have hchain := isChain_pruned none ts
  exact ⟨filter_pruned none ts, (filter_eq_pruned [] ts).symm, hchain, pruned_of_isChain hchain⟩

end UiScript.Token
