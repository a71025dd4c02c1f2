import UiScript.Proofs.Places
import UiScript.Token.Lines

/-!
# What the tokens of a source say

The rows of a source's tokens are made from the texts of its pieces alone; where the source is from
and where in it a token stands only show in the places.
-/

namespace UiScript.Token

def Piece.row? (piece : Piece) : Option Row :=
  match piece.lexeme with
  | .gap => none
  | .token kind value template => some ⟨kind, value, template⟩

def rowsOf (pieces : List Piece) : List Row := pieces.filterMap Piece.row?

/-- The row of a line end. -/
def newlineRow : Row := ⟨.newline, newlineValue, false⟩

def endRow : Row := ⟨.endOfFile, "", false⟩

def wordRow (word : String) : Row := ⟨wordKind word, word, false⟩

def markRow (mark : Symbol) : Row := ⟨.symbol mark, mark.spelling, false⟩

/-- The row of a string in double quotes. -/
def stringRow (value : String) : Row := ⟨.string, value, false⟩

def numberRow (text : String) : Row := ⟨.number, text, false⟩

def commaRows (rowss : List (List Row)) : List Row := [markRow .comma].intercalate rowss

lemma commaRows_cons_cons (rows rows' : List Row) (rowss : List (List Row)) :
    commaRows (rows :: rows' :: rowss) =
      rows ++ [markRow .comma] ++ commaRows (rows' :: rowss) := by
  simp [commaRows, List.intercalate]

lemma commaRows_singleton (rows : List Row) : commaRows [rows] = rows := by
  simp [commaRows, List.intercalate]

/-- Takes in the next row, as `keep` does. -/
def keepRow (kept : List Row) (r : Row) : List Row :=
  if r.kind == .newline then
    match kept with
    | last :: _ => if last.kind.isOpener then kept else r :: kept
    | [] => [r]
  else if r.kind.isCloser then
    match kept with
    | last :: before => if last.kind == .newline then r :: before else r :: kept
    | [] => [r]
  else r :: kept

/-- Drops the line ends that end no statement. -/
def pruneRows (rows : List Row) : List Row := (rows.foldl keepRow []).reverse

def sourceRows (source : String) : Except Fault (List Row) :=
  match scan source.toList with
  | (_, some fault) => .error fault
  | (pieces, none) => .ok (pruneRows (rowsOf pieces ++ [endRow]))

lemma placed_rows (p : Place) (pieces : List Piece) :
    (placed p pieces).1.map row = rowsOf pieces := by
  induction pieces generalizing p with
  | nil => rfl
  | cons piece pieces ih =>
    cases hl : piece.lexeme with
    | gap => simpa [placed, rowsOf, Piece.row?, hl] using ih _
    | token => simpa [placed, rowsOf, Piece.row?, hl, row] using ih _

lemma keep_rows (kept : List Token) (t : Token) :
    (keep kept t).map row = keepRow (kept.map row) t.row := by
  cases kept with
  | nil => simp only [keep, keepRow, row, List.map_nil]; split_ifs <;> rfl
  | cons =>
    simp only [keep, keepRow, row, List.map_cons]
    split_ifs <;> rfl

lemma pruneNewlines_rows (ts : List Token) :
    (pruneNewlines ts).map row = pruneRows (ts.map row) := by
  have hfold (kept : List Token) :
      (ts.foldl keep kept).map row = (ts.map row).foldl keepRow (kept.map row) := by
    induction ts generalizing kept with
    | nil => rfl
    | cons t ts ih => rw [List.foldl_cons, ih, keep_rows, List.map_cons, List.foldl_cons]
  rw [pruneNewlines, List.map_reverse, hfold, List.map_nil, pruneRows]

variable {source file : String}

lemma rawTokens_ok {ts : List Token} (h : rawTokens source file = .ok ts) :
    (scan source.toList).2 = none ∧ ts.map row = rowsOf (scan source.toList).1 ++ [endRow] := by
  unfold rawTokens at h
  rcases hs : scan source.toList with ⟨pieces, fault⟩
  cases fault with
  | some => simp [hs] at h
  | none =>
    simp only [hs, Except.ok.injEq] at h
    subst h
    simp [placed_rows, row, endRow]

/-- A source without a fault is cut into tokens under any name. -/
lemma rawTokens_of_scan (h : (scan source.toList).2 = none) (file : String) :
    ∃ ts, rawTokens source file = .ok ts ∧
      ts.map row = rowsOf (scan source.toList).1 ++ [endRow] := by
  cases hraw : rawTokens source file with
  | ok ts => exact ⟨ts, rfl, (rawTokens_ok hraw).2⟩
  | error =>
    unfold rawTokens at hraw
    rcases hs : scan source.toList with ⟨pieces, fault⟩
    obtain rfl : fault = none := by simpa [hs] using h
    simp [hs] at hraw

lemma tokenize_ok {ts : List Token} (h : tokenize source file = .ok ts) :
    sourceRows source = .ok (ts.map row) := by
  unfold tokenize at h
  cases hraw : rawTokens source file with
  | error => simp [hraw, Except.map] at h
  | ok =>
    simp only [hraw, Except.map, Except.ok.injEq] at h
    subst h
    obtain ⟨hfault, hrows⟩ := rawTokens_ok hraw
    rw [pruneNewlines_rows, hrows]
    rcases hs : scan source.toList with ⟨pieces, fault⟩
    simp_all [sourceRows]

lemma tokenize_error {e : LexError} (h : tokenize source file = .error e) :
    sourceRows source = .error e.fault := by
  unfold tokenize rawTokens at h
  rcases hs : scan source.toList with ⟨pieces, fault⟩
  cases fault with
  | none => simp [hs, Except.map] at h
  | some =>
    simp only [hs, Except.map, Except.error.injEq] at h
    simp [sourceRows, hs, ← h]

/-- A source says the same under any name. -/
lemma tokenize_files (source file file' : String) :
    (∃ e e', tokenize source file = .error e ∧ tokenize source file' = .error e' ∧
      e.fault = e'.fault) ∨
    ∃ ts ts', tokenize source file = .ok ts ∧ tokenize source file' = .ok ts' ∧
      ts.map row = ts'.map row := by
  cases h : tokenize source file with
  | error e =>
    cases h' : tokenize source file' with
    | error e' =>
      have hfault := (tokenize_error h).symm.trans (tokenize_error h')
      exact Or.inl ⟨e, e', rfl, rfl, by simpa using hfault⟩
    | ok => cases (tokenize_error h).symm.trans (tokenize_ok h')
  | ok ts =>
    cases h' : tokenize source file' with
    | error => cases (tokenize_ok h).symm.trans (tokenize_error h')
    | ok ts' =>
      have hrows := (tokenize_ok h).symm.trans (tokenize_ok h')
      exact Or.inr ⟨ts, ts', rfl, rfl, by simpa using hrows⟩

end UiScript.Token
