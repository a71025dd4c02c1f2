import Mathlib.Data.List.TakeWhile
import UiScript.Proofs.Syntax.Layout
import UiScript.Proofs.Syntax.Trees
import UiScript.Proofs.Token.Lines
import UiScript.Proofs.Token.Tiling

/-!
# The tokens of a source

What is known of the tokens that a source is cut into: their values, how deep they nest, and that
the last one marks the end.
-/

namespace UiScript.Token

/-! ### Tokens of a source -/

/-- The row of a token that some source has. -/
def Row.Genuine (r : Row) : Prop := r = endRow ∨ ∃ text, TextOf text r

lemma Scans.genuine {cs rest : List Char} {ps : List Piece} (h : Scans cs ps rest) :
    ∀ r ∈ rowsOf ps, r.Genuine := by
  induction h with
  | nil => exact nofun
  | @cons c t cs rest x ps h _ ih =>
    have hx := (Cuts.of_lexeme h).describes
    cases x with
    | gap => exact ih
    | token => exact List.forall_mem_cons.mpr ⟨.inr ⟨_, hx⟩, ih⟩

/-- The tokens of a source are those of its pieces, and the mark of the end. -/
lemma scans_of_tokenize {source file : String} {ts : List Token}
    (h : tokenize source file = .ok ts) :
    ∃ ps, Scans source.toList ps [] ∧ ts.map row = pruneRows (rowsOf ps) ++ [endRow] := by
  have hrows := tokenize_ok h
  unfold sourceRows at hrows
  rcases hs : scan source.toList with ⟨ps, fault⟩
  rw [hs] at hrows
  cases fault with
  | some => cases hrows
  | none =>
    have hfault : (scan source.toList).2 = none := by rw [hs]
    have hcut := Scans.of_scan_none hfault
    rw [hs] at hcut
    refine ⟨ps, hcut, ?_⟩
    rw [← pruneRows_end]
    exact (Except.ok.inj hrows).symm

lemma tokenize_genuine {source file : String} {ts : List Token}
    (h : tokenize source file = .ok ts) : ∀ t ∈ ts, t.row.Genuine := by
  intro t ht
  obtain ⟨ps, hcut, hrows⟩ := scans_of_tokenize h
  have hmem : t.row ∈ pruneRows (rowsOf ps) ++ [endRow] := hrows ▸ List.mem_map_of_mem ht
  rcases List.mem_append.mp hmem with hmem | hmem
  · exact hcut.genuine _ (mem_pruneRows hmem)
  · exact .inl (List.mem_singleton.mp hmem)

namespace Row.Genuine

variable {r : Row}

lemma isWord (h : r.Genuine) (hkind : Syntax.isName r.kind) : isWord r.value := by
  rcases h with rfl | ⟨text, htext⟩
  · cases hkind
  · cases htext with
    | word h => exact h
    | _ => cases hkind

lemma spelling (h : r.Genuine) {mark : Symbol} (hkind : r.kind = .symbol mark) :
    r.value = mark.spelling := by
  rcases h with rfl | ⟨text, htext⟩
  · cases hkind
  · cases htext with
    | mark => cases hkind; rfl
    | word =>
      unfold wordRow wordKind at hkind
      dsimp only at hkind
      split at hkind <;> cases hkind
    | _ => cases hkind

end Row.Genuine

end UiScript.Token

namespace UiScript.Numeral

open List

open Token (IsDigits IsNumeral)

lemma readDecimal_point {ds es : List Char} (hds : IsDigits ds) (hes : IsDigits es)
    (negative : Bool) : (readDecimal negative (ds ++ '.' :: es)).isSome := by
  have hpoint : Text.isAsciiDigit '.' = false := by decide
  have hdigits (cs : List Char) (h : IsDigits cs) : ∀ c ∈ cs, Text.isAsciiDigit c :=
    all_eq_true.mp h.2
  have hwhole : (ds ++ '.' :: es).takeWhile Text.isAsciiDigit = ds := by
    rw [takeWhile_append_of_pos (hdigits ds hds),
      takeWhile_cons_of_neg (by simp [hpoint]), append_nil]
  have hrest : (ds ++ '.' :: es).dropWhile Text.isAsciiDigit = '.' :: es := by
    rw [dropWhile_append_of_pos (hdigits ds hds),
      dropWhile_cons_of_neg (by simp [hpoint])]
  have hnone : es.dropWhile Text.isAsciiDigit = [] := dropWhile_eq_nil_iff.mpr (hdigits es hes)
  unfold readDecimal
  simp only [hwhole, hrest, hnone, List.isEmpty_iff, hds.1, Bool.and_eq_true, false_and, if_false]
  rfl

/-- A numeral can be read unless it is an integer with too many digits. -/
lemma readNumber_of_isNumeral {text : String} (h : IsNumeral text.toList) :
    (∃ n, readNumber text = .ok n) ∨
      IsDigits text.toList ∧ maxIntegerDigits < text.length ∧
        readNumber text = .error (.tooManyDigits text.length) := by
  generalize hcs : text.toList = cs at h
  cases h with
  | whole hds =>
    subst hcs
    have hread := readNumber_digits hds.1 (all_eq_true.mp hds.2)
    by_cases hlong : maxIntegerDigits < text.length
    · rw [if_pos hlong] at hread
      exact .inr ⟨hds, hlong, hread⟩
    · rw [if_neg hlong] at hread
      exact .inl ⟨_, hread⟩
  | @point ds es hds hes =>
    have hdecimal : ∀ c ∈ text.toList, isDecimalChar c := by
      rw [hcs]
      intro c hc
      rcases mem_append.mp hc with hc | hc
      · simp [isDecimalChar, all_eq_true.mp hds.2 c hc]
      · rcases mem_cons.mp hc with rfl | hc
        · rfl
        · simp [isDecimalChar, all_eq_true.mp hes.2 c hc]
    have hunderscore : '_' ∉ text.toList := fun hin => absurd (hdecimal '_' hin) (by decide)
    have hpoint : text.toList.contains '.' = true := by simp [hcs]
    obtain ⟨x, hx⟩ := Option.isSome_iff_exists.mp (readDecimal_point hds hes false)
    left
    rw [readNumber, if_pos hpoint, readFloat, core_decimal hdecimal,
      dropUnderscores_of_notMem hunderscore]
    rw [← hcs] at hx
    simp only [Option.bind_eq_bind, Option.bind_some, sign_decimal hdecimal, hx]
    split_ifs <;> exact ⟨_, rfl⟩

end UiScript.Numeral

namespace UiScript.Syntax

open Token (IsNumeral IsDigits Row rowsOf endRow Scans)

/-! ### The nesting of the tokens of a source -/

/-- The depth of nesting that some rows cannot exceed. -/
def rowsBound (rows : List Row) : Nat := rows.foldr (fun r n => rowWeight r + n) 2

lemma nestingBound_eq_rows (ts : List Token) : nestingBound ts = rowsBound (ts.map Token.row) := by
  rw [rowsBound, List.foldr_map]
  rfl

lemma rowsBound_sublist {rows rows' : List Row} (h : rows.Sublist rows') :
    rowsBound rows ≤ rowsBound rows' := by
  induction h with
  | slnil => exact Nat.le_refl _
  | cons r _ ih => exact Nat.le_trans ih (Nat.le_add_left _ _)
  | cons_cons r _ ih => exact Nat.add_le_add_left ih _

lemma rowWeight_le {text : List Char} {r : Row} (h : Token.TextOf text r) (hne : text ≠ []) :
    rowWeight r ≤ text.length := by
  have hplain (hr : r.template = false) : rowWeight r ≤ text.length := by
    rw [rowWeight, hr]
    exact List.length_pos_iff.mpr hne
  cases h with
  | template => simp [rowWeight]
  | _ => exact hplain rfl

lemma rowsBound_of_scans {cs rest : List Char} {ps : List Token.Piece} (h : Scans cs ps rest)
    (rows : List Row) : rowsBound (rowsOf ps ++ rows) ≤ cs.length + rowsBound rows := by
  induction h with
  | nil => exact Nat.le_add_left _ _
  | @cons c t cs rest x ps h _ ih =>
    have hx := (Token.Cuts.of_lexeme h).describes
    have hlength : (c :: (t ++ cs)).length = (c :: t).length + cs.length := by
      rw [← List.cons_append, List.length_append]
    rw [hlength]
    cases x with
    | gap => exact Nat.le_trans ih (by omega)
    | token kind value template =>
      have hweight := rowWeight_le hx (List.cons_ne_nil c t)
      have hcons : rowsBound (rowsOf (⟨c :: t, .token kind value template⟩ :: ps) ++ rows) =
          rowWeight ⟨kind, value, template⟩ + rowsBound (rowsOf ps ++ rows) := rfl
      rw [hcons]
      omega

lemma nestingBound_tokenize {source file : String} {ts : List Token}
    (h : Token.tokenize source file = .ok ts) : nestingBound ts ≤ source.length + 3 := by
  obtain ⟨ps, hcut, hrows⟩ := Token.scans_of_tokenize h
  rw [nestingBound_eq_rows, hrows, ← String.length_toList]
  refine Nat.le_trans (rowsBound_sublist ?_) (rowsBound_of_scans hcut [endRow])
  exact (Token.sublist_pruneRows _).append (List.Sublist.refl _)

lemma tokenize_ended {source file : String} {ts : List Token}
    (h : Token.tokenize source file = .ok ts) : ∃ us t, ts = us ++ [t] ∧ t.kind = .endOfFile := by
  obtain ⟨ps, -, hrows⟩ := Token.scans_of_tokenize h
  obtain ⟨us, vs, rfl, -, hvs⟩ := List.map_eq_append_iff.mp hrows
  obtain ⟨t, rfl, ht⟩ := List.map_eq_singleton_iff.mp hvs
  exact ⟨us, t, rfl, congrArg Row.kind ht⟩

lemma isNumeral_of_genuine {r : Row} (h : r.Genuine) (hkind : r.kind = .number) :
    IsNumeral r.value.toList := by
  rcases h with rfl | ⟨text, htext⟩
  · cases hkind
  · cases htext with
    | number h => exact h
    | word =>
      unfold Token.wordRow Token.wordKind at hkind
      dsimp only at hkind
      split at hkind <;> cases hkind
    | _ => cases hkind

/-! ### Cursors -/

/-- All tokens that are left come from a source, and are among some tokens. -/
def Cursor.Lexed (L : Token → Prop) (c : Cursor) : Prop := ∀ t ∈ c.tokens, t.row.Genuine ∧ L t

namespace Cursor.Lexed

variable {L : Token → Prop} {c d : Cursor}

lemma current (h : c.Lexed L) : c.current.row.Genuine := (h _ List.mem_cons_self).1

lemma valued (h : c.Lexed L) : Valued L c.current.value :=
  ⟨c.current, (h _ List.mem_cons_self).2, rfl⟩

lemma word (h : c.Lexed L) (hkind : isName c.current.kind) : Word L c.current.value :=
  ⟨h.current.isWord hkind, h.valued⟩

lemma quoted (h : c.Lexed L) (hkind : c.current.kind = .string) :
    Quoted L c.current.place c.current.value :=
  ⟨c.current, (h _ List.mem_cons_self).2, hkind, rfl, rfl⟩

lemma of_suffix (h : c.Lexed L) (hd : d.tokens <:+ c.tokens) : d.Lexed L :=
  fun t ht => h t (hd.subset ht)

end Cursor.Lexed

end UiScript.Syntax
