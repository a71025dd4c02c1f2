import UiScript.Proofs.Token.Rows

/-!
# Where a piece ends

What a piece is depends on its own text and on what stops it. A blank or a line end behind a token
stops it just as well as what stood there before, and so does the end of the source. A run of blanks
is not stopped by a blank, and a line comment only by a line end.
-/

namespace UiScript.Token

open List

open Text (isAsciiDigit)

def isStop (c : Char) : Bool := isGapBlank c || c == '\n'

/-- The text is empty or starts with a character that stops every token. -/
def Stops (cs : List Char) : Prop := ∀ c ∈ cs.head?, isStop c

variable {c : Char} {cs t u v rest : List Char} {n : Nat} {x : Lexeme} {p : Char → Bool}

lemma isStop_cases (h : isStop c) : c = ' ' ∨ c = '\t' ∨ c = '\r' ∨ c = '\n' := by
  simpa [isStop, isGapBlank, or_assoc] using h

/-! ### Runs -/

/-- All characters of a kind that stand in front of the rest. -/
def Run (p : Char → Bool) (t rest : List Char) : Prop :=
  (∀ d ∈ t, p d) ∧ ∀ d ∈ rest.head?, p d = false

lemma run_iff : Run p t rest ↔ (t ++ rest).takeWhile p = t := by
  induction t with
  | nil => cases rest <;> simp [Run, takeWhile_cons]
  | cons c t ih =>
    by_cases hc : p c
    · simpa [Run, hc] using ih
    · simp [Run, hc]

lemma run_takeWhile (p : Char → Bool) (cs : List Char) :
    Run p (cs.takeWhile p) (cs.dropWhile p) :=
  run_iff.mpr (by rw [takeWhile_append_dropWhile])

/-- What else stands behind a run ends it too, if it does not go on with it. -/
lemma Run.swap {s : List Char} (h : Run p t (s ++ u))
    (hv : s = [] → ∀ d ∈ v.head?, p d = false) : Run p t (s ++ v) := by
  refine ⟨h.1, ?_⟩
  cases s with
  | nil => exact hv rfl
  | cons => exact h.2

/-- A run that ends within `t` ends there whatever follows; one that ends with `t` is stopped. -/
lemma takeWhile_swap {α : Type} {p : α → Bool} {t u v : List α}
    (h : ((t ++ u).takeWhile p).length ≤ t.length)
    (hv : ((t ++ u).takeWhile p).length < t.length ∨ ∀ c ∈ v.head?, p c = false) :
    (t ++ v).takeWhile p = (t ++ u).takeWhile p := by
  induction t with
  | nil =>
    have hu : u.takeWhile p = [] := length_eq_zero_iff.mp (by simpa using h)
    have hhead := hv.resolve_left (by simp)
    rw [nil_append, nil_append, hu]
    cases v with
    | nil => rfl
    | cons c => simp [hhead c (by simp)]
  | cons c t ih =>
    by_cases hc : p c
    · simp only [cons_append, takeWhile_cons, hc, if_true, length_cons] at h hv ⊢
      rw [ih (by omega) (hv.imp_left fun h => by omega)]
    · simp [hc]

/-! ### Comments, strings, numbers and symbols -/

lemma commentLength?_cons (c : Char) (cs : List Char) :
    commentLength? (c :: cs) =
      if c = '*' ∧ cs.head? = some '/' then some 2 else (commentLength? cs).map (· + 1) := by
  split_ifs with h
  · obtain ⟨rfl, hcs⟩ := h
    obtain ⟨ds, rfl⟩ := head?_eq_some_iff.mp hcs
    rfl
  · rw [commentLength?]
    rintro ds rfl rfl
    simp at h

lemma commentLength?_body {body : List Char} (h : ¬ ['*', '/'] <:+: body) (rest : List Char) :
    commentLength? (body ++ '*' :: '/' :: rest) = some (body.length + 2) := by
  induction body with
  | nil => rfl
  | cons c body ih =>
    have hopen : ¬ (c = '*' ∧ (body ++ '*' :: '/' :: rest).head? = some '/') := by
      rintro ⟨rfl, hhead⟩
      cases body with
      | nil => simp at hhead
      | cons d body =>
        obtain rfl : d = '/' := by simpa using hhead
        exact h ⟨[], body, rfl⟩
    rw [cons_append, commentLength?_cons, if_neg hopen,
      ih fun hin => h (hin.trans (suffix_cons c body).isInfix)]
    rfl

/-- The end mark of a comment is the first one behind its start. -/
lemma exists_body_of_commentLength? (h : commentLength? cs = some n) :
    ∃ body rest, cs = body ++ '*' :: '/' :: rest ∧ ¬ ['*', '/'] <:+: body := by
  induction cs generalizing n with
  | nil => cases h
  | cons c cs ih =>
    rw [commentLength?_cons] at h
    split_ifs at h with hc
    · obtain ⟨rfl, hcs⟩ := hc
      obtain ⟨ds, rfl⟩ := head?_eq_some_iff.mp hcs
      exact ⟨[], ds, rfl, by simp⟩
    · obtain ⟨k, hk, -⟩ := Option.map_eq_some_iff.mp h
      obtain ⟨body, rest, rfl, hbody⟩ := ih hk
      refine ⟨c :: body, rest, rfl, ?_⟩
      rw [infix_cons_iff]
      rintro (hstart | hinfix)
      · obtain ⟨rfl, ds, hds⟩ := cons_prefix_cons.mp hstart
        exact hc ⟨rfl, by rw [← hds]; rfl⟩
      · exact hbody hinfix

/-- What the text between two quotes stands for. -/
inductive Decodes : List Char → List Char → Prop
  | nil : Decodes [] []
  | plain {c : Char} {body value : List Char} (hquote : c ≠ '"') (hback : c ≠ '\\')
      (h : Decodes body value) : Decodes (c :: body) (c :: value)
  | lineFeed {body value : List Char} (h : Decodes body value) :
      Decodes ('\\' :: 'n' :: body) ('\n' :: value)
  | tab {body value : List Char} (h : Decodes body value) :
      Decodes ('\\' :: 't' :: body) ('\t' :: value)
  | escaped {c : Char} {body value : List Char} (hn : c ≠ 'n') (ht : c ≠ 't')
      (h : Decodes body value) : Decodes ('\\' :: c :: body) (c :: value)

lemma Decodes.unescape {body value : List Char} (h : Decodes body value) (c : Char) :
    Decodes ('\\' :: c :: body) (unescape c :: value) := by
  unfold Token.unescape
  split
  · exact .lineFeed h
  · exact .tab h
  · exact .escaped ‹_› ‹_› h

lemma stringRest?_cons (hq : c ≠ '"') (hb : c ≠ '\\') (cs : List Char) :
    stringRest? (c :: cs) = (stringRest? cs).map fun x => (c :: x.1, x.2 + 1) := by
  rw [stringRest?]
  · exact hq
  · exact fun _ _ h => absurd h hb
  · exact fun h => absurd h hb

lemma stringRest?_escape (c : Char) (cs : List Char) :
    stringRest? ('\\' :: c :: cs) =
      (stringRest? cs).map fun x => (unescape c :: x.1, x.2 + 2) := rfl

/-- What is written between quotes is read, whatever stands behind them. -/
lemma stringRest?_of_decodes {body value : List Char} (h : Decodes body value) (rest : List Char) :
    stringRest? (body ++ '"' :: rest) = some (value, body.length + 1) := by
  induction h with
  | nil => rfl
  | plain hquote hback _ ih => rw [cons_append, stringRest?_cons hquote hback, ih]; rfl
  | lineFeed _ ih => rw [cons_append, cons_append, stringRest?_escape, ih]; rfl
  | tab _ ih => rw [cons_append, cons_append, stringRest?_escape, ih]; rfl
  | @escaped c _ _ hn ht _ ih =>
    have hc : unescape c = c := by
      unfold unescape
      split <;> first | rfl | contradiction
    rw [cons_append, cons_append, stringRest?_escape, ih, hc]
    rfl

lemma exists_body_of_stringRest? : ∀ {cs : List Char} {x : List Char × Nat},
    stringRest? cs = some x → ∃ body value rest, cs = body ++ '"' :: rest ∧ Decodes body value
  | [], x, h => by cases h
  | c :: cs, x, h => by
    by_cases hq : c = '"'
    · exact ⟨[], [], cs, by rw [hq]; rfl, .nil⟩
    by_cases hb : c = '\\'
    · subst hb
      cases cs with
      | nil => cases h
      | cons d cs =>
        obtain ⟨y, hy, -⟩ := Option.map_eq_some_iff.mp ((stringRest?_escape d cs).symm.trans h)
        obtain ⟨body, value, rest, rfl, hbody⟩ := exists_body_of_stringRest? hy
        exact ⟨'\\' :: d :: body, _, rest, rfl, hbody.unescape d⟩
    · obtain ⟨y, hy, -⟩ := Option.map_eq_some_iff.mp ((stringRest?_cons hq hb cs).symm.trans h)
      obtain ⟨body, value, rest, rfl, hbody⟩ := exists_body_of_stringRest? hy
      exact ⟨c :: body, _, rest, rfl, .plain hq hb hbody⟩

lemma isAsciiDigit_of_stop (h : isStop c) : isAsciiDigit c = false := by
  rcases isStop_cases h with rfl | rfl | rfl | rfl <;> decide

lemma Stops.not_digit (h : Stops cs) : ∀ c ∈ cs.head?, isAsciiDigit c = false :=
  fun c hc => isAsciiDigit_of_stop (h c hc)

/-- The length of a point and the digits behind it. -/
def fractionLength : List Char → Nat
  | '.' :: cs =>
    if (cs.takeWhile isAsciiDigit).length == 0 then 0
    else (cs.takeWhile isAsciiDigit).length + 1
  | _ => 0

lemma fractionLength_of_ne (h : c ≠ '.') (cs : List Char) : fractionLength (c :: cs) = 0 := by
  unfold fractionLength
  split
  · rename_i heq
    exact absurd (List.cons.inj heq).1 h
  · rfl

lemma numberRest_eq (cs : List Char) :
    numberRest cs = (cs.takeWhile isAsciiDigit).length +
      fractionLength (cs.drop (cs.takeWhile isAsciiDigit).length) := by
  unfold numberRest
  dsimp only
  generalize cs.drop _ = ds
  split
  · rw [fractionLength]
    split_ifs <;> omega
  · rename_i hne
    cases ds with
    | nil => rfl
    | cons d ds => rw [fractionLength_of_ne (fun hd => hne ds (by rw [hd])), Nat.add_zero]

lemma fractionLength_swap (h : fractionLength (t ++ u) ≤ t.length) (hv : Stops v) :
    fractionLength (t ++ v) = fractionLength (t ++ u) := by
  cases t with
  | nil =>
    have hzero : fractionLength u = 0 := by simpa using h
    rw [nil_append, nil_append, hzero]
    cases v with
    | nil => rfl
    | cons d v =>
      refine fractionLength_of_ne ?_ v
      rintro rfl
      exact absurd (hv '.' (by simp)) (by decide)
  | cons c t =>
    by_cases hc : c = '.'
    · subst hc
      have hlen : ((t ++ u).takeWhile isAsciiDigit).length ≤ t.length := by
        simp only [cons_append, fractionLength, length_cons] at h
        split_ifs at h with h0
        · rw [eq_of_beq h0]
          exact Nat.zero_le _
        · omega
      simp only [cons_append, fractionLength, takeWhile_swap hlen (Or.inr hv.not_digit)]
    · rw [cons_append, cons_append, fractionLength_of_ne hc, fractionLength_of_ne hc]

lemma numberRest_swap (h : numberRest (t ++ u) ≤ t.length) (hv : Stops v) :
    numberRest (t ++ v) = numberRest (t ++ u) := by
  rw [numberRest_eq] at h
  have hwhole : ((t ++ u).takeWhile isAsciiDigit).length ≤ t.length := by omega
  rw [numberRest_eq, numberRest_eq, takeWhile_swap hwhole (Or.inr hv.not_digit),
    drop_append_of_le_length hwhole, drop_append_of_le_length hwhole]
  rw [drop_append_of_le_length hwhole] at h
  have hfraction : fractionLength (t.drop ((t ++ u).takeWhile isAsciiDigit).length ++ u) ≤
      (t.drop ((t ++ u).takeWhile isAsciiDigit).length).length := by
    rw [length_drop]
    omega
  rw [fractionLength_swap hfraction hv]

lemma not_isStop_of_spelling (mark : Symbol) :
    ∀ c ∈ mark.spelling.toList.tail, isStop c = false := by
  have hall : mark.spelling.toList.tail.all (fun c => !isStop c) = true := by
    cases mark <;> rfl
  simpa using hall

lemma length_spelling (mark : Symbol) : mark.spelling.toList.length ≤ 2 := by
  cases mark <;> decide

/-- A symbol that fits into the text before is there whatever follows. -/
lemma spelling_prefix {s : List Char} (h : s <+: c :: (t ++ u)) (hs : s.length ≤ (c :: t).length) :
    s <+: c :: (t ++ v) := by
  have ht : s <+: c :: t := prefix_of_prefix_length_le h (prefix_append (c :: t) u) hs
  exact ht.trans (prefix_append (c :: t) v)

lemma symbol?_swap {mark : Symbol} (h : symbol? c (t ++ u) = some mark)
    (hn : mark.spelling.length - 1 ≤ t.length) (hv : Stops v) : symbol? c (t ++ v) = some mark := by
  obtain ⟨hp, as, bs, hsplit, has⟩ := find?_eq_some_iff_append.mp h
  refine find?_eq_some_iff_append.mpr ⟨?_, as, bs, hsplit, fun a ha => ?_⟩
  · rw [List.isPrefixOf_iff_prefix] at hp ⊢
    refine spelling_prefix hp ?_
    rw [← String.length_toList] at hn
    simp only [length_cons]
    omega
  · have hna := has a ha
    rw [Bool.not_eq_true', Bool.eq_false_iff] at hna ⊢
    refine fun hpa => hna ?_
    rw [List.isPrefixOf_iff_prefix] at hpa ⊢
    refine spelling_prefix hpa ?_
    by_contra hlen
    -- a longer symbol would hold the character that stops tokens
    have hspell := length_spelling a
    obtain rfl : t = [] := length_eq_zero_iff.mp (by simp at hlen; omega)
    cases hs : a.spelling.toList with
    | nil => simp [hs] at hlen
    | cons x xs =>
      rw [hs] at hpa hlen
      obtain ⟨-, hxs⟩ := cons_prefix_cons.mp hpa
      cases xs with
      | nil => simp at hlen
      | cons d =>
        cases v with
        | nil => simp at hxs
        | cons =>
          obtain ⟨rfl, -⟩ := cons_prefix_cons.mp hxs
          have hstop := hv d (by simp)
          rw [not_isStop_of_spelling a d (by simp [hs])] at hstop
          cases hstop

/-! ### Pieces by their first character -/

lemma lexeme_blank (h : isGapBlank c) (cs : List Char) :
    lexeme c cs = .ok (.gap, (cs.takeWhile isGapBlank).length) := by
  simp [lexeme, h]

lemma lexeme_newline (cs : List Char) :
    lexeme '\n' cs = .ok (.token .newline newlineValue false, 0) := rfl

lemma lexeme_lineComment (cs : List Char) :
    lexeme '/' ('/' :: cs) = .ok (.gap, (cs.takeWhile (· != '\n')).length + 1) := rfl

lemma lexeme_blockComment (cs : List Char) :
    lexeme '/' ('*' :: cs) =
      match commentLength? cs with
      | some n => .ok (.gap, n + 1)
      | none => .error .unterminatedComment := rfl

lemma lexeme_string (cs : List Char) :
    lexeme '"' cs =
      match stringRest? cs with
      | some x => .ok (.token .string (String.ofList x.1) false, x.2)
      | none => .error .unterminatedString := by
  cases hs : stringRest? cs <;> simp [lexeme, hs, isGapBlank, isAsciiDigit]

lemma lexeme_template (cs : List Char) :
    lexeme '\x60' cs =
      if (cs.takeWhile (· != '\x60')).length < cs.length then
        .ok (.token .string (String.ofList (cs.takeWhile (· != '\x60'))) true,
          (cs.takeWhile (· != '\x60')).length + 1)
      else .error .unterminatedTemplate := rfl

lemma isIdentifierChar_of_stop (h : isStop c) : isIdentifierChar c = false := by
  rcases isStop_cases h with rfl | rfl | rfl | rfl <;> decide

lemma isGapBlank_eq_false (h : isIdentifierChar c) : isGapBlank c = false := by
  by_contra hb
  have hstop : isStop c := by simp [isStop, Bool.not_eq_false _ ▸ hb]
  rw [isIdentifierChar_of_stop hstop] at h
  cases h

lemma isIdentifierChar_of_digit (h : isAsciiDigit c) : isIdentifierChar c := by
  simp [isIdentifierChar, h]

lemma isIdentifierChar_of_start (h : isIdentifierStart c) : isIdentifierChar c := by
  simp [isIdentifierChar, h]

/-- The characters of words and numbers start no other piece. -/
lemma ne_of_isIdentifierChar (h : isIdentifierChar c) :
    c ≠ '\n' ∧ c ≠ '/' ∧ c ≠ '"' ∧ c ≠ '\x60' := by
  refine ⟨?_, ?_, ?_, ?_⟩ <;> (rintro rfl; exact absurd h (by decide))

lemma lexeme_number (h : isAsciiDigit c) (cs : List Char) :
    lexeme c cs =
      .ok (.token .number (String.ofList (c :: cs.take (numberRest cs))) false, numberRest cs) := by
  have hc := isIdentifierChar_of_digit h
  obtain ⟨hline, hslash, -⟩ := ne_of_isIdentifierChar hc
  simp [lexeme, isGapBlank_eq_false hc, hline, hslash, h]

lemma isAsciiDigit_of_start (h : isIdentifierStart c) : isAsciiDigit c = false := by
  by_contra hd
  obtain ⟨-, hle⟩ : '0' ≤ c ∧ c ≤ '9' := by simpa [isAsciiDigit] using hd
  simp only [isIdentifierStart, Bool.or_eq_true, Bool.and_eq_true, decide_eq_true_eq,
    beq_iff_eq] at h
  rcases h with (⟨hge, -⟩ | ⟨hge, -⟩) | rfl
  · exact absurd (Char.le_trans hge hle) (by decide)
  · exact absurd (Char.le_trans hge hle) (by decide)
  · exact absurd hle (by decide)

lemma lexeme_word (h : isIdentifierStart c) (cs : List Char) :
    lexeme c cs =
      .ok (.token (wordKind (String.ofList (c :: cs.takeWhile isIdentifierChar)))
        (String.ofList (c :: cs.takeWhile isIdentifierChar)) false,
        (cs.takeWhile isIdentifierChar).length) := by
  have hc := isIdentifierChar_of_start h
  have hdigit := isAsciiDigit_of_start h
  obtain ⟨hline, hslash, hquote, hback⟩ := ne_of_isIdentifierChar hc
  have htake : cs.take (cs.takeWhile isIdentifierChar).length = cs.takeWhile isIdentifierChar :=
    (prefix_iff_eq_take.mp (List.takeWhile_prefix _)).symm
  simp [lexeme, isGapBlank_eq_false hc, hline, hslash, hquote, hback, hdigit, h, htake]

def isSymbolStart (c : Char) : Bool :=
  !isGapBlank c && c != '\n' && !isIdentifierChar c && c != '"' && c != '\x60'

lemma lexeme_symbol (h : isSymbolStart c)
    (hcomment : c = '/' → cs.head? ≠ some '/' ∧ cs.head? ≠ some '*') :
    lexeme c cs =
      match symbol? c cs with
      | some mark =>
        .ok (.token (.symbol mark) (String.ofList (c :: cs.take (mark.spelling.length - 1))) false,
          mark.spelling.length - 1)
      | none => .error (.unexpected c) := by
  simp only [isSymbolStart, isIdentifierChar, Bool.and_eq_true, Bool.not_eq_true',
    Bool.or_eq_false_iff, bne_iff_ne] at h
  obtain ⟨⟨⟨⟨hblank, hline⟩, hstart, hdigit⟩, hquote⟩, hback⟩ := h
  have hline' : (c == '/' && cs.head? == some '/') = false := by
    simpa using fun hc => (hcomment hc).1
  have hblock : (c == '/' && cs.head? == some '*') = false := by
    simpa using fun hc => (hcomment hc).2
  cases hs : symbol? c cs <;>
    simp [lexeme, hblank, hline, hline', hblock, hdigit, hquote, hback, hstart, hs]

lemma char_cases (c : Char) :
    isGapBlank c ∨ c = '\n' ∨ isAsciiDigit c ∨ isIdentifierStart c ∨ c = '"' ∨ c = '\x60' ∨
      isSymbolStart c := by
  by_cases hb : isGapBlank c
  · exact Or.inl hb
  by_cases hd : isAsciiDigit c
  · exact Or.inr (Or.inr (Or.inl hd))
  by_cases hw : isIdentifierStart c
  · exact Or.inr (Or.inr (Or.inr (Or.inl hw)))
  simp only [isSymbolStart, isIdentifierChar, hb, hd, hw]
  simp
  tauto

/-! ### Cutting out a piece -/

lemma length_takeWhile_le {α : Type} (p : α → Bool) (cs : List α) :
    (cs.takeWhile p).length ≤ cs.length :=
  (List.takeWhile_prefix p).length_le

lemma fractionLength_le (cs : List Char) : fractionLength cs ≤ cs.length := by
  unfold fractionLength
  split
  · rename_i cs
    have := length_takeWhile_le isAsciiDigit cs
    split_ifs <;> simp only [length_cons] <;> omega
  · omega

lemma numberRest_le (cs : List Char) : numberRest cs ≤ cs.length := by
  rw [numberRest_eq]
  have hwhole := length_takeWhile_le isAsciiDigit cs
  have hfraction := fractionLength_le (cs.drop (cs.takeWhile isAsciiDigit).length)
  rw [length_drop] at hfraction
  omega

lemma symbol?_le {mark : Symbol} (h : symbol? c cs = some mark) :
    mark.spelling.length - 1 ≤ cs.length := by
  have hp := find?_some h
  rw [List.isPrefixOf_iff_prefix] at hp
  have := hp.length_le
  rw [← String.length_toList]
  simp only [length_cons] at this
  omega

/-- A piece by its first character and its further text, what follows it, and what it is. -/
inductive Cuts : Char → List Char → List Char → Lexeme → Prop
  | blanks {c : Char} {t rest : List Char} (hc : isGapBlank c) (h : Run isGapBlank t rest) :
      Cuts c t rest .gap
  | newline {rest : List Char} : Cuts '\n' [] rest (.token .newline newlineValue false)
  | lineComment {body rest : List Char} (h : Run (· != '\n') body rest) :
      Cuts '/' ('/' :: body) rest .gap
  | blockComment {body rest : List Char} (h : ¬ ['*', '/'] <:+: body) :
      Cuts '/' ('*' :: (body ++ ['*', '/'])) rest .gap
  | number {c : Char} {t rest : List Char} (hc : isAsciiDigit c)
      (h : numberRest (t ++ rest) = t.length) :
      Cuts c t rest (.token .number (String.ofList (c :: t)) false)
  | word {c : Char} {t rest : List Char} (hc : isIdentifierStart c)
      (h : Run isIdentifierChar t rest) :
      Cuts c t rest (.token (wordKind (String.ofList (c :: t))) (String.ofList (c :: t)) false)
  | string {body value rest : List Char} (h : Decodes body value) :
      Cuts '"' (body ++ ['"']) rest (.token .string (String.ofList value) false)
  | template {body rest : List Char} (h : '\x60' ∉ body) :
      Cuts '\x60' (body ++ ['\x60']) rest (.token .string (String.ofList body) true)
  | mark {c : Char} {t rest : List Char} {mark : Symbol} (hc : isSymbolStart c)
      (hcomment : c = '/' → (t ++ rest).head? ≠ some '/' ∧ (t ++ rest).head? ≠ some '*')
      (h : symbol? c (t ++ rest) = some mark) (ht : mark.spelling.length - 1 = t.length) :
      Cuts c t rest (.token (.symbol mark) (String.ofList (c :: t)) false)

lemma run_until {a : Char} (h : a ∉ t) (hrest : ∀ d ∈ rest.head?, d = a) : Run (· != a) t rest :=
  ⟨fun d hd => bne_iff_ne.mpr (ne_of_mem_of_not_mem hd h), fun d hd => by simp [hrest d hd]⟩

lemma Cuts.lexeme_eq (h : Cuts c t rest x) : lexeme c (t ++ rest) = .ok (x, t.length) := by
  cases h with
  | blanks hc h => rw [lexeme_blank hc, run_iff.mp h]
  | newline => rfl
  | lineComment h => rw [cons_append, lexeme_lineComment, run_iff.mp h]; rfl
  | @blockComment body _ h =>
    have htext : '*' :: (body ++ ['*', '/']) ++ rest = '*' :: (body ++ '*' :: '/' :: rest) := by
      simp
    rw [htext, lexeme_blockComment, commentLength?_body h]
    simp
  | number hc h => rw [lexeme_number hc, h, take_left]
  | word hc h => rw [lexeme_word hc, run_iff.mp h]
  | string h =>
    rw [append_assoc, singleton_append, lexeme_string, stringRest?_of_decodes h]
    simp
  | @template body _ h =>
    have hrun : Run (· != '\x60') body ('\x60' :: rest) := run_until h (by simp)
    rw [append_assoc, singleton_append, lexeme_template, run_iff.mp hrun,
      if_pos (by simp)]
    simp
  | mark hc hcomment h ht =>
    rw [lexeme_symbol hc hcomment, h]
    dsimp only
    rw [ht, take_left]

/-- Why no piece can be cut out. -/
inductive Jams : Char → List Char → Fault → Prop
  | comment {cs : List Char} (h : commentLength? cs = none) :
      Jams '/' ('*' :: cs) .unterminatedComment
  | string {cs : List Char} (h : stringRest? cs = none) : Jams '"' cs .unterminatedString
  | template {cs : List Char} (h : '\x60' ∉ cs) : Jams '\x60' cs .unterminatedTemplate
  | unexpected {c : Char} {cs : List Char} (hc : isSymbolStart c)
      (hcomment : c = '/' → cs.head? ≠ some '/' ∧ cs.head? ≠ some '*')
      (h : symbol? c cs = none) : Jams c cs (.unexpected c)

lemma Jams.lexeme_eq {fault : Fault} (h : Jams c cs fault) : lexeme c cs = .error fault := by
  cases h with
  | comment h => rw [lexeme_blockComment, h]
  | string h => rw [lexeme_string, h]
  | template h =>
    have hrun : Run (· != '\x60') cs [] := run_until h (by simp)
    have hall := run_iff.mp hrun
    rw [append_nil] at hall
    rw [lexeme_template, hall, if_neg (Nat.lt_irrefl _)]
  | unexpected hc hcomment h => rw [lexeme_symbol hc hcomment, h]

/-- At each character a piece is cut out, or it is known why not. -/
lemma cuts_or_jams (c : Char) (cs : List Char) :
    (∃ t rest x, cs = t ++ rest ∧ Cuts c t rest x) ∨ ∃ fault, Jams c cs fault := by
  have hrun (p : Char → Bool) (cs : List Char) : cs = cs.takeWhile p ++ cs.dropWhile p :=
    takeWhile_append_dropWhile.symm
  rcases char_cases c with hb | rfl | hd | hw | rfl | rfl | hs
  · exact .inl ⟨_, _, _, hrun _ cs, .blanks hb (run_takeWhile _ cs)⟩
  · exact .inl ⟨_, _, _, rfl, .newline⟩
  · refine .inl ⟨_, _, _, (take_append_drop (numberRest cs) cs).symm, .number hd ?_⟩
    rw [take_append_drop, length_take_of_le (numberRest_le cs)]
  · exact .inl ⟨_, _, _, hrun _ cs, .word hw (run_takeWhile _ cs)⟩
  · cases hr : stringRest? cs with
    | none => exact .inr ⟨_, .string hr⟩
    | some =>
      obtain ⟨body, value, rest, rfl, hbody⟩ := exists_body_of_stringRest? hr
      exact .inl ⟨_, _, _, append_cons .., .string hbody⟩
  · by_cases hmem : '\x60' ∈ cs
    · obtain ⟨body, rest, rfl, hbody⟩ := eq_append_cons_of_mem hmem
      exact .inl ⟨_, _, _, append_cons .., .template hbody⟩
    · exact .inr ⟨_, .template hmem⟩
  · by_cases hline : c = '/' ∧ cs.head? = some '/'
    · obtain ⟨rfl, hcs⟩ := hline
      obtain ⟨ds, rfl⟩ := head?_eq_some_iff.mp hcs
      exact .inl ⟨_, _, _, congrArg ('/' :: ·) (hrun _ ds), .lineComment (run_takeWhile _ ds)⟩
    by_cases hblock : c = '/' ∧ cs.head? = some '*'
    · obtain ⟨rfl, hcs⟩ := hblock
      obtain ⟨ds, rfl⟩ := head?_eq_some_iff.mp hcs
      cases hl : commentLength? ds with
      | none => exact .inr ⟨_, .comment hl⟩
      | some =>
        obtain ⟨body, rest, rfl, hbody⟩ := exists_body_of_commentLength? hl
        exact .inl ⟨_, rest, _, by simp, .blockComment hbody⟩
    · have hcomment : c = '/' → cs.head? ≠ some '/' ∧ cs.head? ≠ some '*' := fun hc =>
        ⟨fun hd => hline ⟨hc, hd⟩, fun hd => hblock ⟨hc, hd⟩⟩
      cases hm : symbol? c cs with
      | none => exact .inr ⟨_, .unexpected hs hcomment hm⟩
      | some mark =>
        have hcut := take_append_drop (mark.spelling.length - 1) cs
        rw [← hcut] at hcomment
        refine .inl ⟨_, _, _, hcut.symm, .mark hs hcomment (hcut.symm ▸ hm) ?_⟩
        rw [length_take_of_le (symbol?_le hm)]

lemma exists_cuts (h : lexeme c cs = .ok (x, n)) :
    ∃ t rest, cs = t ++ rest ∧ t.length = n ∧ Cuts c t rest x := by
  rcases cuts_or_jams c cs with ⟨t, rest, y, rfl, hcut⟩ | ⟨fault, hjam⟩
  · cases hcut.lexeme_eq.symm.trans h
    exact ⟨t, rest, rfl, rfl, hcut⟩
  · cases hjam.lexeme_eq.symm.trans h

lemma Cuts.of_lexeme (h : lexeme c (t ++ rest) = .ok (x, t.length)) : Cuts c t rest x := by
  obtain ⟨t', rest', htext, hlength, hcut⟩ := exists_cuts h
  obtain ⟨rfl, rfl⟩ := append_inj htext hlength.symm
  exact hcut

/-- The text of a piece is in the source. -/
lemma lexeme_le (h : lexeme c cs = .ok (x, n)) : n ≤ cs.length := by
  obtain ⟨t, rest, rfl, rfl, -⟩ := exists_cuts h
  simp

/-! ### What stops a piece -/

/-- A gap with this text goes on if the character follows: a line comment with anything but a line
end, and blanks with more blanks. A block comment is closed. -/
def prolongs : List Char → Char → Bool
  | '/' :: '/' :: _, d => d != '\n'
  | '/' :: _, _ => false
  | _, d => isGapBlank d

lemma prolongs_newline (text : List Char) : prolongs text '\n' = false := by
  unfold prolongs
  split <;> rfl

lemma prolongs_blank (h : isGapBlank c) (t : List Char) (d : Char) :
    prolongs (c :: t) d = isGapBlank d := by
  unfold prolongs
  split
  · rename_i heq
    cases heq
    cases h
  · rename_i heq
    cases heq
    cases h
  · rfl

/-- What starts no comment with what followed does not start one before a stop either. -/
lemma head_swap (hv : Stops v) {d : Char} (hd : isStop d = false) (h : (t ++ u).head? ≠ some d) :
    (t ++ v).head? ≠ some d := by
  cases t with
  | cons => exact h
  | nil =>
    intro hhead
    rw [hv d hhead] at hd
    cases hd

/-- A piece is the same whatever stops it. -/
theorem Cuts.swap {s : List Char} (h : Cuts c t (s ++ u) x) (hv : Stops v)
    (hgap : x = .gap → s = [] → ∀ d ∈ v.head?, prolongs (c :: t) d = false) :
    Cuts c t (s ++ v) x := by
  cases h with
  | blanks hc h =>
    exact .blanks hc (h.swap fun hs d hd => prolongs_blank hc t d ▸ hgap rfl hs d hd)
  | newline => exact .newline
  | lineComment h => exact .lineComment (h.swap (hgap rfl))
  | blockComment h => exact .blockComment h
  | number hc h =>
    rw [← append_assoc] at h
    refine .number hc ?_
    rw [← append_assoc, numberRest_swap (by rw [h, length_append]; omega) hv, h]
  | word hc h => exact .word hc (h.swap fun _ d hd => isIdentifierChar_of_stop (hv d hd))
  | string h => exact .string h
  | template h => exact .template h
  | mark hc hcomment h ht =>
    rw [← append_assoc] at hcomment h
    refine .mark hc (fun hslash => ?_) ?_ ht <;> rw [← append_assoc]
    · exact ⟨head_swap hv rfl (hcomment hslash).1, head_swap hv rfl (hcomment hslash).2⟩
    · exact symbol?_swap h (by simp [ht]) hv

/-! ### What a piece can be -/

/-- No lexeme marks the end, and all line ends say the same. -/
def Lexeme.IsRaw : Lexeme → Prop
  | .gap => True
  | .token kind value template =>
    kind ≠ .endOfFile ∧ (kind = .newline → value = newlineValue ∧ template = false)

lemma isRaw_wordKind (word value : String) : (Lexeme.token (wordKind word) value false).IsRaw := by
  unfold wordKind
  split <;> simp [Lexeme.IsRaw]

lemma Cuts.isRaw (h : Cuts c t rest x) : x.IsRaw := by
  cases h with
  | word => exact isRaw_wordKind _ _
  | _ => simp [Lexeme.IsRaw]

/-! ### Cutting a source into pieces -/

lemma scan_ok (h : lexeme c (t ++ cs) = .ok (x, t.length)) :
    scan (c :: (t ++ cs)) = (⟨c :: t, x⟩ :: (scan cs).1, (scan cs).2) := by
  rw [scan, h]
  simp

lemma scan_error {fault : Fault} (h : lexeme c cs = .error fault) :
    scan (c :: cs) = ([], some fault) := by
  rw [scan, h]

/-- The first pieces of a source, and what is left behind them. -/
inductive Scans : List Char → List Piece → List Char → Prop
  | nil (cs : List Char) : Scans cs [] cs
  | cons {c : Char} {t cs rest : List Char} {x : Lexeme} {ps : List Piece}
      (h : lexeme c (t ++ cs) = .ok (x, t.length)) (hs : Scans cs ps rest) :
      Scans (c :: (t ++ cs)) (⟨c :: t, x⟩ :: ps) rest

def textOf (ps : List Piece) : List Char := ps.flatMap Piece.text

namespace Scans

variable {cs rest : List Char} {ps : List Piece}

lemma scan_eq (h : Scans cs ps rest) : scan cs = (ps ++ (scan rest).1, (scan rest).2) := by
  induction h with
  | nil => rfl
  | cons h _ ih => rw [scan_ok h, ih]; rfl

lemma text_eq (h : Scans cs ps rest) : cs = textOf ps ++ rest := by
  induction h with
  | nil => rfl
  | cons _ _ ih => simp [textOf, ih]

lemma of_scan : ∀ {cs : List Char} {ps qs : List Piece}, (scan cs).1 = ps ++ qs →
    ∃ rest, Scans cs ps rest
  | cs, [], _, _ => ⟨cs, .nil cs⟩
  | [], p :: ps, qs, h => by simp [scan] at h
  | c :: cs, p :: ps, qs, h => by
    cases hl : lexeme c cs with
    | error =>
      rw [scan_error hl] at h
      cases h
    | ok y =>
      obtain ⟨x, n⟩ := y
      have hlen : (cs.take n).length = n := length_take_of_le (lexeme_le hl)
      have hok : lexeme c (cs.take n ++ cs.drop n) = .ok (x, (cs.take n).length) := by
        rw [take_append_drop, hlen, hl]
      rw [← take_append_drop n cs, scan_ok hok, cons_append] at h
      obtain ⟨rfl, hps⟩ := List.cons.inj h
      obtain ⟨rest, hrest⟩ := of_scan hps
      refine ⟨rest, ?_⟩
      have hcons := Scans.cons hok hrest
      rwa [take_append_drop] at hcons
termination_by cs => cs.length

lemma textOf_ne_nil (h : Scans cs ps rest) (hps : ps ≠ []) : textOf ps ≠ [] := by
  cases h with
  | nil => exact absurd rfl hps
  | cons => simp [textOf]

/-- Pieces stay as they are if something else stops them. -/
lemma swap (h : Scans cs ps rest) (hv : Stops v)
    (hlast : ∀ p ∈ ps.getLast?, p.lexeme = .gap → ∀ d ∈ v.head?, prolongs p.text d = false) :
    Scans (textOf ps ++ v) ps v := by
  induction h with
  | nil => exact .nil v
  | @cons c t cs rest x ps h hs ih =>
    have htext : textOf (⟨c :: t, x⟩ :: ps) ++ v = c :: (t ++ (textOf ps ++ v)) := by
      simp [textOf]
    rw [htext]
    refine .cons ?_ (ih ?_)
    · rw [hs.text_eq] at h
      refine ((Cuts.of_lexeme h).swap hv fun hgap hnil => ?_).lexeme_eq
      cases ps with
      | nil => exact hlast ⟨c :: t, x⟩ (by simp) hgap
      | cons => exact absurd hnil (hs.textOf_ne_nil (cons_ne_nil _ _))
    · refine fun p hp => hlast p ?_
      cases ps with
      | nil => simp at hp
      | cons => simpa using hp

/-- A source is cut into pieces up to its end or to a fault. -/
lemma of_scan_all (cs : List Char) :
    ((scan cs).2 = none ∧ Scans cs (scan cs).1 []) ∨
      ∃ c rest fault, (scan cs).2 = some fault ∧ lexeme c rest = .error fault ∧
        Scans cs (scan cs).1 (c :: rest) := by
  obtain ⟨rest, hcut⟩ := of_scan (append_nil (scan cs).1).symm
  have hfault := congrArg Prod.snd hcut.scan_eq
  have hpieces : (scan rest).1 = [] := by simpa using congrArg Prod.fst hcut.scan_eq
  cases rest with
  | nil => exact .inl ⟨by rw [hfault, scan], hcut⟩
  | cons c rest =>
    cases hl : lexeme c rest with
    | ok =>
      rw [scan, hl] at hpieces
      cases hpieces
    | error fault =>
      rw [scan_error hl] at hfault
      exact .inr ⟨c, rest, fault, hfault, hl, hcut⟩

/-- A source without a fault is made up of its pieces. -/
lemma of_scan_none (h : (scan cs).2 = none) : Scans cs (scan cs).1 [] := by
  rcases of_scan_all cs with ⟨-, hcut⟩ | ⟨c, rest, fault, hfault, -, -⟩
  · exact hcut
  · rw [h] at hfault
    cases hfault

end Scans

/-- A source, a line end and another source are cut into the pieces of both. -/
lemma scan_append_newline (h : (scan cs).2 = none) (ds : List Char) :
    scan (cs ++ '\n' :: ds) =
      ((scan cs).1 ++ ⟨['\n'], .token .newline newlineValue false⟩ :: (scan ds).1,
        (scan ds).2) := by
  have hcut := Scans.of_scan_none h
  have hstop : Stops ('\n' :: ds) := by simp [Stops, isStop]
  have hswap := (hcut.swap hstop (by simp [prolongs_newline])).scan_eq
  have hline : scan ('\n' :: ds) =
      (⟨['\n'], .token .newline newlineValue false⟩ :: (scan ds).1, (scan ds).2) :=
    scan_ok (t := []) (lexeme_newline ds)
  rw [hline, ← append_nil (textOf _), ← hcut.text_eq] at hswap
  exact hswap

end UiScript.Token
