import UiScript.Proofs.Token.Spelling

/-!
# What a source is made of

A source is a row of tiles: the texts of its tokens with gaps between them. What may be a gap and
what may be the text of a token is said here without the scanner, and so is the place of a token,
which counts the line feeds before it and the characters since the last of them. Scanning cuts every
source into such tiles, up to its end or to a character where there is none.
-/

namespace UiScript.Token

open List

/-! ### Places -/

/-- The place behind some text at the start of a file. -/
def placeAfter (file : String) (before : List Char) : Place :=
  ⟨1 + before.count '\n', 1 + (before.reverse.takeWhile (· != '\n')).length, file⟩

lemma afterChar_placeAfter (file : String) (before : List Char) (c : Char) :
    afterChar (placeAfter file before) c = placeAfter file (before ++ [c]) := by
  by_cases hc : c = '\n'
  · subst hc
    simp [afterChar, placeAfter, Nat.add_assoc]
  · simp [afterChar, placeAfter, hc, Nat.add_comm]

lemma afterText_placeAfter (file : String) (before text : List Char) :
    afterText (placeAfter file before) text = placeAfter file (before ++ text) := by
  induction text generalizing before with
  | nil => rw [append_nil]; rfl
  | cons c text ih =>
    have hstep : afterText (placeAfter file before) (c :: text) =
        afterText (afterChar (placeAfter file before) c) text := rfl
    rw [hstep, afterChar_placeAfter, ih, append_assoc, singleton_append]

/-! ### Texts up to a character -/

lemma take_takeWhile {α : Type} (p : α → Bool) (cs : List α) :
    cs.take (cs.takeWhile p).length = cs.takeWhile p :=
  (prefix_iff_eq_take.mp (List.takeWhile_prefix p)).symm

variable {cs u t gap : List Char} {c : Char} {x : Lexeme} {r : Row}

/-! ### Gaps -/

/-- Blanks and complete comments, with what stands behind them. A line comment is complete where the
line or the source ends. -/
inductive IsGap : List Char → List Char → Prop
  | nil (rest : List Char) : IsGap [] rest
  | blank {c : Char} {gap rest : List Char} (hc : c = ' ' ∨ c = '\t' ∨ c = '\r')
      (h : IsGap gap rest) : IsGap (c :: gap) rest
  | lineComment {body gap rest : List Char} (hbody : '\n' ∉ body)
      (hend : ∀ c ∈ (gap ++ rest).head?, c = '\n') (h : IsGap gap rest) :
      IsGap ('/' :: '/' :: (body ++ gap)) rest
  | blockComment {body gap rest : List Char} (hbody : ¬ ['*', '/'] <:+: body)
      (h : IsGap gap rest) : IsGap ('/' :: '*' :: (body ++ '*' :: '/' :: gap)) rest

lemma IsGap.append {gap' rest : List Char} (h : IsGap gap (gap' ++ rest))
    (h' : IsGap gap' rest) : IsGap (gap ++ gap') rest := by
  generalize hbehind : gap' ++ rest = behind at h
  induction h with
  | nil => exact h'
  | blank hc _ ih => exact .blank hc (ih hbehind)
  | lineComment hbody hend _ ih =>
    rw [← hbehind, ← append_assoc] at hend
    rw [cons_append, cons_append, append_assoc]
    exact .lineComment hbody hend (ih hbehind)
  | blockComment hbody _ ih =>
    rw [cons_append, cons_append, append_assoc]
    exact .blockComment hbody (ih hbehind)

lemma isGap_blanks (h : gap.all isGapBlank) (rest : List Char) : IsGap gap rest := by
  induction gap with
  | nil => exact .nil rest
  | cons c gap ih =>
    obtain ⟨hc, hgap⟩ : isGapBlank c ∧ gap.all isGapBlank := by simpa using h
    exact .blank (by simpa [isGapBlank, or_assoc] using hc) (ih hgap)

lemma commentLength?_eq_none (h : commentLength? cs = none) : ¬ ['*', '/'] <:+: cs := by
  induction cs with
  | nil => simp
  | cons c cs ih =>
    rw [commentLength?_cons] at h
    split_ifs at h with hc
    rw [infix_cons_iff]
    rintro (hstart | hinfix)
    · obtain ⟨rfl, rest, rfl⟩ := cons_prefix_cons.mp hstart
      exact hc ⟨rfl, rfl⟩
    · exact ih (by simpa using h) hinfix

/-! ### Texts of tokens -/

/-- At least one digit and nothing else. -/
def IsDigits (cs : List Char) : Prop := cs ≠ [] ∧ cs.all Text.isAsciiDigit

/-- Digits, and perhaps a point and more digits. -/
inductive IsNumeral : List Char → Prop
  | whole {ds : List Char} (h : IsDigits ds) : IsNumeral ds
  | point {ds es : List Char} (hds : IsDigits ds) (hes : IsDigits es) : IsNumeral (ds ++ '.' :: es)

inductive TextOf : List Char → Row → Prop
  | newline : TextOf ['\n'] newlineRow
  | number {text : String} (h : IsNumeral text.toList) : TextOf text.toList (numberRow text)
  | word {text : String} (h : isWord text) : TextOf text.toList (wordRow text)
  | mark (mark : Symbol) : TextOf mark.spelling.toList (markRow mark)
  | quoted {body value : List Char} (h : Decodes body value) :
      TextOf ('"' :: (body ++ ['"'])) (stringRow (String.ofList value))
  | template {body : List Char} (h : '\x60' ∉ body) :
      TextOf ('\x60' :: (body ++ ['\x60'])) ⟨.string, String.ofList body, true⟩

lemma TextOf.kind_ne {text : List Char} (h : TextOf text r) : r.kind ≠ .endOfFile := by
  cases h with
  | word =>
    unfold wordRow wordKind
    dsimp only
    split <;> exact nofun
  | _ => exact nofun

/-! ### Numbers -/

lemma isNumeral_take (hc : Text.isAsciiDigit c) (cs : List Char) :
    IsNumeral (c :: cs.take (numberRest cs)) := by
  have hwhole : IsDigits (c :: cs.takeWhile Text.isAsciiDigit) :=
    ⟨by simp, by simp [hc, all_takeWhile]⟩
  rw [numberRest_eq, take_add, take_takeWhile]
  generalize cs.drop (cs.takeWhile Text.isAsciiDigit).length = behind
  unfold fractionLength
  split
  · rename_i after
    split_ifs with hnone
    · rw [take_zero, append_nil]
      exact .whole hwhole
    · rw [take_succ_cons, take_takeWhile]
      refine .point hwhole ⟨?_, all_takeWhile⟩
      rintro hnil
      rw [hnil] at hnone
      exact hnone rfl
  · rw [take_zero, append_nil]
    exact .whole hwhole

lemma length_le_takeWhile {p : Char → Bool} (h : u.all p) (v : List Char) :
    u.length ≤ ((u ++ v).takeWhile p).length := by
  rw [takeWhile_append_of_pos (by simpa using h), length_append]
  omega

/-- A number takes in what can belong to it. -/
lemma length_le_numberRest (h : IsNumeral (c :: u)) (v : List Char) :
    u.length ≤ numberRest (u ++ v) := by
  rw [numberRest_eq]
  generalize htext : c :: u = text at h
  cases h with
  | whole hds =>
    obtain ⟨-, hall⟩ := hds
    rw [← htext, all_cons, Bool.and_eq_true] at hall
    have := length_le_takeWhile hall.2 v
    omega
  | @point ds es hds hes =>
    obtain ⟨hne, hall⟩ := hds
    cases ds with
    | nil => exact absurd rfl hne
    | cons d ds =>
      obtain ⟨rfl, rfl⟩ : c = d ∧ u = ds ++ '.' :: es := by simpa using htext
      obtain ⟨-, hds⟩ : Text.isAsciiDigit c ∧ ds.all Text.isAsciiDigit := by simpa using hall
      have hwhole : (ds ++ '.' :: es ++ v).takeWhile Text.isAsciiDigit = ds := by
        rw [append_assoc, takeWhile_append_of_pos (by simpa using hds)]
        simp [Text.isAsciiDigit]
      have hfraction := length_le_takeWhile hes.2 v
      have hpos := length_pos_iff.mpr hes.1
      rw [hwhole, append_assoc, drop_left, cons_append, fractionLength,
        if_neg (by simp only [beq_iff_eq]; omega), length_append, length_cons]
      omega

/-! ### Symbols -/

lemma mem_symbols (mark : Symbol) : mark ∈ Symbol.double ++ Symbol.single := by
  cases mark <;> decide

lemma symbol?_spec {mark : Symbol} (h : symbol? c cs = some mark) :
    mark.spelling.toList <+: c :: cs ∧
      mark.spelling.toList.length = mark.spelling.length - 1 + 1 := by
  have hpre := find?_some h
  rw [List.isPrefixOf_iff_prefix] at hpre
  refine ⟨hpre, ?_⟩
  rw [String.length_toList]
  cases mark <;> rfl

/-! ### Single pieces -/

def Lexeme.Describes (text rest : List Char) : Lexeme → Prop
  | .gap => IsGap text rest
  | .token kind value template => TextOf text ⟨kind, value, template⟩

/-- A piece is what its text says. -/
lemma Cuts.describes (h : Cuts c t cs x) : x.Describes (c :: t) cs := by
  cases h with
  | blanks hc h => exact isGap_blanks (by simpa [hc] using h.1) cs
  | newline => exact .newline
  | @lineComment body _ h =>
    have hgap : IsGap ('/' :: '/' :: (body ++ [])) cs :=
      .lineComment (fun hmem => by simpa using h.1 '\n' hmem) (fun d hd => by simpa using h.2 d hd)
        (.nil cs)
    rwa [append_nil] at hgap
  | blockComment h => exact .blockComment h (.nil cs)
  | number hc h =>
    have hnumeral := isNumeral_take hc (t ++ cs)
    rw [h, take_left, ← String.toList_ofList (l := c :: t)] at hnumeral
    have htext := TextOf.number hnumeral
    rwa [String.toList_ofList] at htext
  | word hc h =>
    have hword : isWord (String.ofList (c :: t)) := by simpa [isWord, hc] using h.1
    have htext := TextOf.word hword
    rwa [String.toList_ofList] at htext
  | string h => exact .quoted h
  | template h => exact .template h
  | @mark _ _ _ mark _ _ h ht =>
    have hmark : mark.spelling.toList = c :: t := by
      obtain ⟨hpre, hpos⟩ := symbol?_spec h
      rw [prefix_iff_eq_take.mp hpre, hpos, ht, take_succ_cons, take_left]
    rw [← hmark, String.ofList_toList]
    exact .mark mark

lemma isAsciiDigit_of_numeral (h : IsNumeral (c :: u)) : Text.isAsciiDigit c := by
  generalize htext : c :: u = text at h
  cases h with
  | whole h =>
    rw [← htext] at h
    exact (Bool.and_eq_true_iff.mp h.2).1
  | @point ds es h _ =>
    cases ds with
    | nil => exact absurd rfl h.1
    | cons =>
      obtain ⟨rfl, -⟩ := List.cons.inj htext
      exact (Bool.and_eq_true_iff.mp h.2).1

/-- Where a symbol of one character stands, there is a piece, unless a comment has no end. -/
lemma lexeme_of_single {mark : Symbol} (h : mark.spelling.toList = [c]) (hc : isSymbolStart c)
    (v : List Char) : (∃ x, lexeme c v = .ok x) ∨ lexeme c v = .error .unterminatedComment := by
  by_cases hcomment : c = '/' ∧ (v.head? = some '/' ∨ v.head? = some '*')
  · obtain ⟨rfl, hv | hv⟩ := hcomment <;> obtain ⟨ds, rfl⟩ := head?_eq_some_iff.mp hv
    · exact .inl ⟨_, lexeme_lineComment ds⟩
    · rw [lexeme_blockComment]
      cases commentLength? ds with
      | none => exact .inr rfl
      | some => exact .inl ⟨_, rfl⟩
  · rw [lexeme_symbol hc (by simpa [not_or] using hcomment)]
    cases hs : symbol? c v with
    | some => exact .inl ⟨_, rfl⟩
    | none =>
      have hnone := find?_eq_none.mp hs mark (mem_symbols mark)
      simp [h] at hnone

/-- Where the text of a token stands, a piece of at least its length is found. Only a slash may
open a comment that has no end. -/
lemma lexeme_of_textOf (h : TextOf (c :: u) r) (v : List Char) :
    (∃ x n, lexeme c (u ++ v) = .ok (x, n) ∧ u.length ≤ n) ∨
      lexeme c (u ++ v) = .error .unterminatedComment := by
  generalize htext : c :: u = text at h
  cases h with
  | newline =>
    obtain ⟨rfl, rfl⟩ := List.cons.inj htext
    exact .inl ⟨_, _, lexeme_newline v, Nat.le_refl _⟩
  | number hnumeral =>
    rw [← htext] at hnumeral
    have hc : Text.isAsciiDigit c := isAsciiDigit_of_numeral hnumeral
    exact .inl ⟨_, _, lexeme_number hc _, length_le_numberRest hnumeral v⟩
  | word hword =>
    obtain ⟨d, ds, hds, hstart, hall⟩ := isWord_iff hword
    obtain ⟨rfl, rfl⟩ := List.cons.inj (htext.trans hds)
    exact .inl ⟨_, _, lexeme_word hstart _, length_le_takeWhile hall v⟩
  | mark mark =>
    rcases spelling_cases mark with ⟨d, hd, hstart⟩ | ⟨d, e, hd, hstart, hslash⟩
    · obtain ⟨rfl, rfl⟩ := List.cons.inj (htext.trans hd)
      rcases lexeme_of_single hd hstart v with ⟨x, hx⟩ | hcomment
      · exact .inl ⟨x.1, x.2, hx, Nat.zero_le _⟩
      · exact .inr hcomment
    · obtain ⟨rfl, rfl⟩ := List.cons.inj (htext.trans hd)
      have hlen : mark.spelling.length = 2 := by rw [← String.length_toList, hd]; rfl
      rw [lexeme_symbol hstart fun hc => absurd hc hslash, cons_append, nil_append,
        symbol?_of_double hd]
      exact .inl ⟨_, _, rfl, by rw [hlen]; exact Nat.le_refl _⟩
  | @quoted body value hdecodes =>
    obtain ⟨rfl, rfl⟩ := List.cons.inj htext
    exact .inl ⟨_, _, (Cuts.string hdecodes).lexeme_eq, by simp⟩
  | @template body hbody =>
    obtain ⟨rfl, rfl⟩ := List.cons.inj htext
    exact .inl ⟨_, _, (Cuts.template hbody).lexeme_eq, by simp⟩

/-- No longer text of a token stands where a piece was found. -/
lemma lexeme_longest (h : lexeme c (t ++ cs) = .ok (x, t.length)) {more : List Char}
    (hmore : TextOf (c :: (t ++ more)) r) (hpre : more <+: cs) : more = [] := by
  obtain ⟨v, rfl⟩ := hpre
  rw [← append_assoc] at h
  rcases lexeme_of_textOf hmore v with ⟨y, n, hok, hlen⟩ | herror
  · rw [h] at hok
    cases hok
    rw [length_append] at hlen
    exact length_eq_zero_iff.mp (by omega)
  · rw [h] at herror
    cases herror

/-! ### Faults -/

/-- What is wrong at a character, by what stands behind it: something that is opened there is not
closed, or neither a gap nor the text of a token starts there. -/
inductive FaultAt : Char → List Char → Fault → Prop
  | comment {rest : List Char} (h : ¬ ['*', '/'] <:+: rest) :
      FaultAt '/' ('*' :: rest) .unterminatedComment
  | string {rest : List Char}
      (h : ∀ body value, Decodes body value → ¬ body ++ ['"'] <+: rest) :
      FaultAt '"' rest .unterminatedString
  | template {rest : List Char} (h : '\x60' ∉ rest) : FaultAt '\x60' rest .unterminatedTemplate
  | unexpected {c : Char} {rest : List Char} (hblank : ¬ isGapBlank c)
      (h : ∀ text r, TextOf (c :: text) r → ¬ text <+: rest) : FaultAt c rest (.unexpected c)

lemma not_prefix_of_unexpected (h : lexeme c cs = .error (.unexpected c)) {text : List Char}
    (htext : TextOf (c :: text) r) : ¬ text <+: cs := by
  rintro ⟨v, rfl⟩
  rcases lexeme_of_textOf htext v with ⟨x, n, hok, -⟩ | herror
  · rw [h] at hok
    cases hok
  · rw [h] at herror
    cases herror

lemma lexeme_faultAt {fault : Fault} (h : lexeme c cs = .error fault) : FaultAt c cs fault := by
  rcases cuts_or_jams c cs with ⟨t, rest, x, rfl, hcut⟩ | ⟨fault', hjam⟩
  · cases hcut.lexeme_eq.symm.trans h
  have hfault := hjam.lexeme_eq
  cases hfault.symm.trans h
  cases hjam with
  | comment hnone => exact .comment (commentLength?_eq_none hnone)
  | string hr =>
    refine .string fun body value hdecodes hpre => ?_
    obtain ⟨rest, rfl⟩ := hpre
    rw [append_assoc, singleton_append, stringRest?_of_decodes hdecodes] at hr
    cases hr
  | template hmem => exact .template hmem
  | unexpected hc =>
    refine .unexpected ?_ fun text r htext => not_prefix_of_unexpected hfault htext
    intro hblank
    simp [isSymbolStart, hblank] at hc

/-! ### Tiles -/

/-- A part of a source as a row of tiles. It stands between `before` and `rest`. Each token has the
longest text that stands there, and the place of its first character. -/
inductive Tiles (file : String) (rest : List Char) : List Char → List Char → List Token → Prop
  | gap {before gap : List Char} (h : IsGap gap rest) : Tiles file rest before gap []
  | token {before gap text cs : List Char} {t : Token} {ts : List Token}
      (hgap : IsGap gap (text ++ (cs ++ rest))) (htext : TextOf text t.row)
      (hlongest : ∀ more r, TextOf (text ++ more) r → more <+: cs ++ rest → more = [])
      (hplace : t.place = placeAfter file (before ++ gap))
      (h : Tiles file rest (before ++ gap ++ text) cs ts) :
      Tiles file rest before (gap ++ text ++ cs) (t :: ts)

namespace Tiles

variable {file : String} {rest before cs : List Char} {ts : List Token}

/-- Two gaps in a row are one. -/
lemma led (hgap : IsGap gap (cs ++ rest))
    (h : Tiles file rest (before ++ gap) cs ts) : Tiles file rest before (gap ++ cs) ts := by
  cases h with
  | gap h => exact .gap (hgap.append h)
  | @token _ gap' text cs t ts hgap' htext hlongest hplace h =>
    rw [append_assoc, append_assoc] at hgap
    rw [← append_assoc, ← append_assoc]
    rw [append_assoc] at hplace
    rw [append_assoc before] at h
    exact .token (hgap.append hgap') htext hlongest hplace h

lemma kind_ne (h : Tiles file rest before cs ts) : ∀ t ∈ ts, t.kind ≠ .endOfFile := by
  induction h with
  | gap => exact nofun
  | token _ htext _ _ _ ih => exact forall_mem_cons.mpr ⟨htext.kind_ne, ih⟩

end Tiles

lemma Scans.tiles {rest : List Char} {ps : List Piece} (h : Scans cs ps rest) (file : String)
    (before : List Char) :
    Tiles file rest before (textOf ps) (placed (placeAfter file before) ps).1 ∧
      (placed (placeAfter file before) ps).2 = placeAfter file (before ++ textOf ps) := by
  induction h generalizing before with
  | nil => exact ⟨.gap (.nil _), by rw [textOf, flatMap_nil, append_nil]; rfl⟩
  | @cons c t cs rest x ps h hs ih =>
    obtain ⟨htiles, hend⟩ := ih (before ++ c :: t)
    have htext : textOf (⟨c :: t, x⟩ :: ps) = c :: t ++ textOf ps := rfl
    have hx := (Cuts.of_lexeme h).describes
    rw [hs.text_eq] at h hx
    simp only [placed, afterText_placeAfter, htext]
    cases x with
    | gap => exact ⟨.led hx htiles, by rw [hend, append_assoc]⟩
    | token =>
      refine ⟨?_, by rw [hend, append_assoc]⟩
      exact .token (.nil _) hx (fun more r hmore => lexeme_longest h hmore)
        (by rw [append_nil]) (by rwa [append_nil])

/-- Every source is tiled by its tokens and gaps. Either the tiles reach its end, which one last
token marks, or they reach a character where something is wrong, and the fault is placed there. -/
theorem rawTokens_tile (source file : String) :
    (∃ ts, rawTokens source file =
        .ok (ts ++ [⟨.endOfFile, "", placeAfter file source.toList, false⟩]) ∧
      (∀ t ∈ ts, t.kind ≠ .endOfFile) ∧ Tiles file [] [] source.toList ts) ∨
    ∃ before c rest fault ts, source.toList = before ++ c :: rest ∧
      rawTokens source file = .error ⟨fault, placeAfter file before⟩ ∧
      FaultAt c rest fault ∧ Tiles file (c :: rest) [] before ts := by
  rcases Scans.of_scan_all source.toList with
    ⟨hfault, hcut⟩ | ⟨c, rest, fault, hfault, hl, hcut⟩ <;>
    obtain ⟨htiles, hend⟩ := hcut.tiles file [] <;> have htext := hcut.text_eq
  · rw [List.append_nil] at htext
    rw [List.nil_append] at hend
    rw [← htext] at htiles hend
    refine .inl ⟨_, ?_, htiles.kind_ne, htiles⟩
    simp only [rawTokens, hfault, ← hend]
    rfl
  · refine .inr ⟨_, c, rest, fault, _, htext, ?_, lexeme_faultAt hl, htiles⟩
    rw [List.nil_append] at hend
    simp only [rawTokens, hfault, ← hend]
    rfl

end UiScript.Token
