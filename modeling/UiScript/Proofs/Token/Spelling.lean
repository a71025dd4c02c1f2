import UiScript.Number.Numeral
import UiScript.Proofs.Script.Strings
import UiScript.Proofs.Token.Scan

/-!
# Texts that spell tokens

A text spells some tokens if it is cut into just these in front of whatever may follow it. What may
follow depends on its last token: a word is prolonged by a letter, a number also by a point and a
digit, and a symbol by the second character of another symbol or of a comment.
-/

namespace UiScript.Token

/-! ### What may follow -/

/-- The text is empty or starts with a character of a class. -/
def Heads (p : Char → Bool) (cs : List Char) : Prop := ∀ c ∈ cs.head?, p c

/-- No text at all is prolonged. -/
def Anything (_ : List Char) : Prop := True

/-- Neither a word nor a number is prolonged. -/
def Breaks (cs : List Char) : Prop := Heads (!isIdentifierChar ·) cs ∧ fractionLength cs = 0

/-- The second character of a symbol or of the start of a comment. -/
def isSecond (c : Char) : Bool := ['=', '>', '&', '|', '.', '/', '*'].contains c

/-- A text is cut into tokens with some rows, in front of all that may follow it. -/
def Spells (follows : List Char → Prop) (s : String) (rows : List Row) : Prop :=
  ∀ rest, follows rest → ∃ ps, Scans (s.toList ++ rest) ps rest ∧ rowsOf ps = rows

variable {p : Char → Bool} {c : Char} {cs rest : List Char}

lemma heads_nil : Heads p [] := fun _ h => nomatch h

lemma heads_cons (cs : List Char) (h : p c) : Heads p (c :: cs) := by
  intro d hd
  cases hd
  exact h

lemma heads_append {s : String} (hs : Heads p s.toList) (hne : s ≠ "") (rest : List Char) :
    Heads p (s.toList ++ rest) := by
  cases h : s.toList with
  | nil => exact absurd (String.toList_eq_nil_iff.mp h) hne
  | cons c =>
    rw [h] at hs
    exact heads_cons _ (hs c rfl)

/-- A character that prolongs no word and is no point. -/
def isBreak (c : Char) : Bool := !isIdentifierChar c && c != '.'

lemma breaks_cons (cs : List Char) (h : isBreak c) : Breaks (c :: cs) := by
  obtain ⟨hword, hpoint⟩ := Bool.and_eq_true_iff.mp h
  exact ⟨heads_cons cs hword, fractionLength_of_ne (by simpa using hpoint) cs⟩

/-- A point in front of a word belongs to no number. -/
lemma breaks_point (h : isIdentifierStart c) (cs : List Char) : Breaks ('.' :: c :: cs) := by
  refine ⟨heads_cons _ rfl, ?_⟩
  simp [fractionLength, isAsciiDigit_of_start h]

lemma breaks_nil : Breaks [] := ⟨heads_nil, rfl⟩

/-! ### Texts in a row -/

lemma Scans.append {mid : List Char} {ps qs : List Piece} (h : Scans cs ps mid)
    (h' : Scans mid qs rest) : Scans cs (ps ++ qs) rest := by
  induction h with
  | nil => exact h'
  | cons hx _ ih => exact .cons hx (ih h')

namespace Spells

variable {follows follows' : List Char → Prop} {s t : String} {rows rows' : List Row}

lemma append (hs : Spells follows s rows) (ht : Spells follows' t rows')
    (h : ∀ rest, follows' rest → follows (t.toList ++ rest)) :
    Spells follows' (s ++ t) (rows ++ rows') := by
  intro rest hrest
  obtain ⟨ps, hps, rfl⟩ := hs _ (h rest hrest)
  obtain ⟨qs, hqs, rfl⟩ := ht rest hrest
  refine ⟨ps ++ qs, ?_, List.filterMap_append⟩
  rw [String.toList_append, List.append_assoc]
  exact hps.append hqs

/-- The second text starts with a character that may follow the first one. -/
lemma append_cons (hs : Spells (Heads p) s rows) (ht : Spells follows t rows')
    (htext : t.toList = c :: cs) (hc : p c) : Spells follows (s ++ t) (rows ++ rows') :=
  hs.append ht fun rest _ => by
    rw [htext]
    exact heads_cons _ hc

lemma weaken (hs : Spells follows s rows) (h : ∀ rest, follows' rest → follows rest) :
    Spells follows' s rows :=
  fun rest hrest => hs rest (h rest hrest)

lemma anywhere (hs : Spells Anything s rows) : Spells follows s rows := hs.weaken fun _ _ => trivial

lemma empty : Spells Anything "" [] := fun rest _ => ⟨[], .nil rest, rfl⟩

end Spells

/-! ### Single tokens -/

/-- A piece spells what it is if no other piece starts in the same way. -/
lemma spells_piece {follows : List Char → Prop} {s : String} {t : List Char} {x : Lexeme}
    (hs : s.toList = c :: t) (h : ∀ rest, follows rest → lexeme c (t ++ rest) = .ok (x, t.length)) :
    Spells follows s (rowsOf [⟨c :: t, x⟩]) := by
  intro rest hrest
  rw [hs]
  exact ⟨_, .cons (h rest hrest) (.nil rest), rfl⟩

/-- The text is a word: a name or a keyword. -/
def isWord (word : String) : Bool :=
  match word.toList with
  | [] => false
  | c :: cs => isIdentifierStart c && cs.all isIdentifierChar

lemma takeWhile_append_heads (h : cs.all p) (hrest : Heads (!p ·) rest) :
    (cs ++ rest).takeWhile p = cs := by
  rw [List.takeWhile_append_of_pos (List.all_eq_true.mp h)]
  cases rest with
  | nil => simp
  | cons c =>
    have hc : p c = false := by simpa using hrest c rfl
    simp [hc]

lemma dropWhile_append_heads (h : cs.all p) (hrest : Heads (!p ·) rest) :
    (cs ++ rest).dropWhile p = rest := by
  have hsplit := List.takeWhile_append_dropWhile (p := p) (l := cs ++ rest)
  rw [takeWhile_append_heads h hrest] at hsplit
  exact List.append_cancel_left hsplit

lemma isWord_iff {word : String} (h : isWord word) :
    ∃ c cs, word.toList = c :: cs ∧ isIdentifierStart c ∧ cs.all isIdentifierChar := by
  unfold isWord at h
  split at h
  · cases h
  · rename_i c cs hword
    exact ⟨c, cs, hword, Bool.and_eq_true_iff.mp h⟩

lemma spells_word {word : String} (h : isWord word) :
    Spells (Heads (!isIdentifierChar ·)) word [wordRow word] := by
  obtain ⟨c, cs, hword, hstart, hall⟩ := isWord_iff h
  have hself : String.ofList (c :: cs) = word := by rw [← hword, String.ofList_toList]
  refine spells_piece (x := .token (wordKind word) word false) hword fun rest hrest => ?_
  rw [lexeme_word hstart, takeWhile_append_heads hall hrest, hself]

lemma spells_blank : Spells (Heads (!isGapBlank ·)) " " [] := by
  refine spells_piece (c := ' ') (t := []) (x := .gap) rfl fun rest hrest => ?_
  rw [lexeme_blank rfl, List.nil_append, ← List.nil_append rest, takeWhile_append_heads rfl hrest]

/-! ### Numbers -/

lemma isAsciiDigit_of_mem {n : Nat} (h : c ∈ Nat.toDigits 10 n) : Text.isAsciiDigit c := by
  have hdigit := Nat.isDigit_of_mem_toDigits (by decide) (by decide) h
  simpa [Text.isAsciiDigit, Char.isDigit, Char.le_def] using hdigit

lemma toList_repr_cons (n : Nat) : ∃ c cs, n.repr.toList = c :: cs ∧ Text.isAsciiDigit c ∧
    cs.all Text.isAsciiDigit := by
  have hdigits : ∀ c ∈ n.repr.toList, Text.isAsciiDigit c := by
    rw [Nat.toList_repr]
    exact fun c => isAsciiDigit_of_mem
  cases h : n.repr.toList with
  | nil =>
    rw [Nat.toList_repr] at h
    exact absurd h Nat.toDigits_ne_nil
  | cons c cs =>
    rw [h] at hdigits
    exact ⟨c, cs, rfl, hdigits c (by simp),
      List.all_eq_true.mpr fun d hd => hdigits d (by simp [hd])⟩

lemma heads_digit (h : Breaks cs) : Heads (!Text.isAsciiDigit ·) cs := by
  intro c hc
  have hword := h.1 c hc
  by_contra hdigit
  simp [isIdentifierChar_of_digit (c := c) (by simpa using hdigit)] at hword

lemma spells_number (n : Nat) : Spells Breaks n.repr [numberRow n.repr] := by
  obtain ⟨c, cs, hn, hc, hcs⟩ := toList_repr_cons n
  have hself : String.ofList (c :: cs) = n.repr := by rw [← hn, String.ofList_toList]
  refine spells_piece (x := .token .number n.repr false) hn fun rest hrest => ?_
  have hlength : numberRest (cs ++ rest) = cs.length := by
    rw [numberRest_eq, takeWhile_append_heads hcs (heads_digit hrest), List.drop_left, hrest.2,
      Nat.add_zero]
  rw [lexeme_number hc, hlength, List.take_left, hself]

end UiScript.Token

namespace UiScript.Numeral

open List

variable {cs : List Char} {c : Char}

lemma dropUnderscores_of_notMem (h : '_' ∉ cs) (before : Option Char) :
    dropUnderscores before cs = some cs := by
  induction cs generalizing before with
  | nil => simp [dropUnderscores]
  | cons c cs ih =>
    obtain ⟨hc, hcs⟩ := not_or.mp (mt mem_cons.mpr h)
    rw [dropUnderscores, ih hcs]
    · rfl
    · exact Ne.symm hc

lemma digit_bounds (h : Text.isAsciiDigit c) : 48 ≤ c.toNat ∧ c.toNat ≤ 57 := by
  obtain ⟨hlow, hhigh⟩ : '0' ≤ c ∧ c ≤ '9' := by simpa [Text.isAsciiDigit] using h
  exact ⟨hlow, hhigh⟩

def isDecimalChar (c : Char) : Bool := Text.isAsciiDigit c || c == '.'

lemma decimal_bounds (h : isDecimalChar c) : 46 ≤ c.toNat ∧ c.toNat ≤ 57 := by
  rcases Bool.or_eq_true_iff.mp h with hdigit | hpoint
  · have := digit_bounds hdigit
    omega
  · rw [eq_of_beq hpoint]
    decide

lemma toAscii_decimal (h : isDecimalChar c) : toAscii c = c := by
  have hlt : c.toNat < 127 := by
    have := decimal_bounds h
    omega
  simp [toAscii, hlt]

lemma isEdgeBlank_decimal (h : isDecimalChar c) : isEdgeBlank c = false := by
  have hlow := (decimal_bounds h).1
  have hblank : c ≠ ' ' := by
    rintro rfl
    exact absurd hlow (by decide)
  have hreturn : ¬ c ≤ '\r' := fun hle => absurd (Nat.le_trans hlow hle) (by decide)
  simp [isEdgeBlank, hblank, hreturn]

lemma dropWhile_none {p : Char → Bool} (h : ∀ c ∈ cs, p c = false) : cs.dropWhile p = cs := by
  cases cs with
  | nil => rfl
  | cons c => simp [h c (by simp)]

lemma core_decimal {text : String} (h : ∀ c ∈ text.toList, isDecimalChar c) :
    core text = text.toList := by
  have hmap : text.toList.map toAscii = text.toList := by
    rw [map_congr_left fun c hc => toAscii_decimal (h c hc), map_id']
  have hblank : ∀ c ∈ text.toList, isEdgeBlank c = false :=
    fun c hc => isEdgeBlank_decimal (h c hc)
  rw [core, hmap, Text.trimBy, dropWhile_none hblank,
    dropWhile_none fun c hc => hblank c (mem_reverse.mp hc), reverse_reverse]

lemma sign_decimal (h : ∀ c ∈ cs, isDecimalChar c) : sign cs = (false, cs) := by
  unfold sign
  split
  · exact absurd (h '-' mem_cons_self) (by decide)
  · exact absurd (h '+' mem_cons_self) (by decide)
  · rfl

lemma digitRun_digits {ds : List Char} (h : ∀ d ∈ ds, Text.isAsciiDigit d) :
    digitRun ds = some (ds, []) := by
  have hall : ∀ d ∈ ds, (Text.isAsciiDigit d || d == '_') = true := fun d hd => by simp [h d hd]
  have htake := Token.takeWhile_append_heads (all_eq_true.mpr hall) Token.heads_nil
  rw [append_nil] at htake
  have hdrop : ds.dropWhile (fun c => Text.isAsciiDigit c || c == '_') = [] := by
    have hsplit := takeWhile_append_dropWhile (l := ds)
      (p := fun c => Text.isAsciiDigit c || c == '_')
    rw [htake] at hsplit
    exact append_right_eq_self.mp hsplit
  unfold digitRun
  dsimp only
  rw [htake, dropUnderscores_of_notMem fun hin => absurd (h '_' hin) (by decide), hdrop]

/-- Digits are a number unless there are too many of them. -/
lemma readNumber_digits {text : String} (hne : text.toList ≠ [])
    (h : ∀ c ∈ text.toList, Text.isAsciiDigit c) :
    readNumber text =
      if maxIntegerDigits < text.length then .error (.tooManyDigits text.length)
      else .ok (.int (natOfDigits text.toList)) := by
  have hpoint : text.toList.contains '.' = false := by
    by_contra hin
    exact absurd (h '.' (by simpa using hin)) (by decide)
  have hdecimal : ∀ c ∈ text.toList, isDecimalChar c := fun c hc => by simp [isDecimalChar, h c hc]
  rw [readNumber, hpoint, readInteger, core_decimal hdecimal, sign_decimal hdecimal]
  simp only [digitRun_digits h, String.length_toList, isEmpty_nil]
  split_ifs <;> simp_all [Except.map, Binary64.signed]

/-- The digits of a number are read as the number, unless there are too many of them. -/
lemma readNumber_natRepr (n : Nat) :
    readNumber n.repr =
      if maxIntegerDigits < n.repr.length then .error (.tooManyDigits n.repr.length)
      else .ok (.int n) := by
  have hdigits : ∀ c ∈ n.repr.toList, Text.isAsciiDigit c := by
    rw [Nat.toList_repr]
    exact fun c => Token.isAsciiDigit_of_mem
  have hne : n.repr.toList ≠ [] := by
    rw [Nat.toList_repr]
    exact Nat.toDigits_ne_nil
  have hnat : natOfDigits n.repr.toList = n := by
    rw [Nat.toList_repr]
    exact Nat.ofDigitChars_toDigits (by decide) (by decide)
  rw [readNumber_digits hne hdigits, hnat]

lemma readNumber_repr {n : Nat} (h : n.repr.length ≤ maxIntegerDigits) :
    readNumber n.repr = .ok (.int n) := by
  rw [readNumber_natRepr, if_neg (Nat.not_lt.mpr h)]

end UiScript.Numeral

namespace UiScript.Token

open List

/-! ### Symbols -/

variable {mark : Symbol} {c : Char} {cs : List Char} {s t : String} {rows rows' : List Row}

lemma isSecond_of_double (h : mark ∈ Symbol.double) :
    ∃ x y, mark.spelling.toList = [x, y] ∧ isSecond y := by
  cases mark <;> first | exact ⟨_, _, rfl, rfl⟩ | simp [Symbol.double] at h

/-- A symbol is read as itself if no longer one can be read. -/
lemma symbol?_of_single (h : mark.spelling.toList = [c]) {rest : List Char}
    (hdouble : ∀ m ∈ Symbol.double, ¬ m.spelling.toList <+: c :: rest) :
    symbol? c rest = some mark := by
  have hnone : Symbol.double.find? (fun m => m.spelling.toList.isPrefixOf (c :: rest)) = none := by
    simpa [find?_eq_none] using hdouble
  rw [symbol?, find?_append, hnone, Option.none_or]
  cases mark <;> first | (cases h; rfl) | cases h

lemma symbol?_of_double {x y : Char} (h : mark.spelling.toList = [x, y]) (rest : List Char) :
    symbol? x (y :: rest) = some mark := by
  cases mark <;> first | (cases h; rfl) | cases h

lemma spelling_cases (mark : Symbol) :
    (∃ c, mark.spelling.toList = [c] ∧ isSymbolStart c) ∨
      ∃ x y, mark.spelling.toList = [x, y] ∧ isSymbolStart x ∧ x ≠ '/' := by
  cases mark <;> first
    | exact Or.inl ⟨_, rfl, by decide⟩
    | exact Or.inr ⟨_, _, rfl, by decide, by decide⟩

lemma spells_single {follows : List Char → Prop} (h : mark.spelling.toList = [c])
    (hstart : isSymbolStart c)
    (hslash : ∀ rest, follows rest → c = '/' → rest.head? ≠ some '/' ∧ rest.head? ≠ some '*')
    (hdouble : ∀ rest, follows rest → ∀ m ∈ Symbol.double, ¬ m.spelling.toList <+: c :: rest) :
    Spells follows mark.spelling [markRow mark] := by
  have hself : String.ofList [c] = mark.spelling := by rw [← h, String.ofList_toList]
  have hlength : mark.spelling.length - 1 = 0 := by rw [← String.length_toList, h]; rfl
  refine spells_piece (x := .token (.symbol mark) mark.spelling false) h fun rest hrest => ?_
  rw [nil_append, lexeme_symbol hstart (hslash rest hrest),
    symbol?_of_single h (hdouble rest hrest)]
  simp [hlength, hself]

lemma spells_symbol (mark : Symbol) :
    Spells (Heads (!isSecond ·)) mark.spelling [markRow mark] := by
  rcases spelling_cases mark with ⟨c, h, hstart⟩ | ⟨x, y, h, hstart, hslash⟩
  · refine spells_single h hstart (fun rest hrest _ => ?_) fun rest hrest m hm hprefix => ?_
    · constructor <;> intro hhead <;> exact absurd (hrest _ hhead) (by decide)
    · obtain ⟨x, y, hm, hy⟩ := isSecond_of_double hm
      rw [hm, cons_prefix_cons] at hprefix
      have hhead := (head?_eq_some_iff.mpr ⟨_, hprefix.2.choose_spec.symm⟩)
      simpa [hy] using hrest y hhead
  · have hself : String.ofList [x, y] = mark.spelling := by rw [← h, String.ofList_toList]
    have hlength : mark.spelling.length - 1 = 1 := by rw [← String.length_toList, h]; rfl
    refine spells_piece (x := .token (.symbol mark) mark.spelling false) h fun rest _ => ?_
    rw [cons_append, nil_append, lexeme_symbol hstart fun hx => absurd hx hslash,
      symbol?_of_double h]
    simp [hlength, hself]

def isAlone (mark : Symbol) : Bool :=
  mark != .slash && mark.spelling.length == 1 &&
    Symbol.double.all fun m => m.spelling.toList.head? != mark.spelling.toList.head?

lemma spells_alone (h : isAlone mark) : Spells Anything mark.spelling [markRow mark] := by
  simp only [isAlone, Bool.and_eq_true, bne_iff_ne, ne_eq, beq_iff_eq, all_eq_true] at h
  obtain ⟨⟨hslash, hlength⟩, hdouble⟩ := h
  rcases spelling_cases mark with ⟨c, hc, hstart⟩ | ⟨x, y, hxy, -⟩
  · refine spells_single hc hstart (fun rest _ hcslash => ?_) fun rest _ m hm hprefix => ?_
    · subst hcslash
      exact absurd (by cases mark <;> first | rfl | cases hc) hslash
    · refine hdouble m hm ?_
      obtain ⟨x, y, hm, -⟩ := isSecond_of_double hm
      rw [hm, cons_prefix_cons] at hprefix
      rw [hm, hc, hprefix.1]
      rfl
  · rw [← String.length_toList, hxy] at hlength
    cases hlength

/-! ### Strings -/

/-- A character that a string literal keeps or that has an escape in it. -/
def isWritable (c : Char) : Bool := ' ' ≤ c || c == '\n' || c == '\t'

/-- The letter of an escape stands for the same character in a string of a program. -/
lemma unescape_of_writable {letter : Char} (h : Json.escapeChar? letter = some c)
    (hc : isWritable c) : unescape letter = c := by
  unfold Json.escapeChar? at h
  split at h
  case h_9 => cases h
  all_goals
    obtain rfl := Option.some.inj h
    first | rfl | exact absurd hc (by decide)

/-- A literal is read as what it denotes, unless that has other control characters. -/
lemma stringRest?_of_denotes {body : List Char} (h : Json.Denotes body cs) (hcs : cs.all isWritable)
    (rest : List Char) : stringRest? (body ++ rest) = some (cs, body.length) := by
  induction h with
  | close => rfl
  | plain _ hquote hback _ ih =>
    obtain ⟨-, hcs⟩ := Bool.and_eq_true_iff.mp (all_cons.symm.trans hcs)
    rw [cons_append, stringRest?_cons hquote hback, ih hcs]
    rfl
  | escape hletter _ ih =>
    obtain ⟨hc, hcs⟩ := Bool.and_eq_true_iff.mp (all_cons.symm.trans hcs)
    rw [cons_append, cons_append, stringRest?_escape, ih hcs]
    simp [unescape_of_writable hletter hc]
  | @code c _ _ _ hcontrol hshort _ _ _ _ =>
    obtain ⟨hc, -⟩ := Bool.and_eq_true_iff.mp (all_cons.symm.trans hcs)
    have hescaped : c = '\n' ∨ c = '\t' := by
      simpa [isWritable, Char.not_le.mpr hcontrol] using hc
    rcases hescaped with rfl | rfl <;> cases hshort

lemma spells_string (h : s.toList.all isWritable) :
    Spells Anything (Script.stringLiteral s) [stringRow s] := by
  refine spells_piece (x := .token .string s false) (Script.stringLiteral_toList s) fun rest _ => ?_
  rw [lexeme_string, stringRest?_of_denotes (Script.denotes_quotedBody s.toList) h]
  simp

/-! ### Texts between brackets -/

/-- A character that an expression or a closing bracket starts with. -/
def isFirst (c : Char) : Bool :=
  isIdentifierChar c ||
    ['"', '(', ')', '[', ']', '\x7b', '\x7d', '!', '-'].contains c

lemma not_isGapBlank_of_first (h : isFirst c) : !isGapBlank c := by
  by_contra hb
  rw [Bool.not_eq_true', Bool.not_eq_false] at hb
  simp only [isGapBlank, Bool.or_eq_true, beq_iff_eq] at hb
  rcases hb with (rfl | rfl) | rfl <;> exact absurd h (by decide)

lemma not_isSecond_of_first (h : isFirst c) : !isSecond c := by
  by_contra hs
  simp only [isSecond, contains_eq_mem, Bool.not_eq_true', Bool.not_eq_false,
    decide_eq_true_eq, mem_cons, not_mem_nil, or_false] at hs
  rcases hs with rfl | rfl | rfl | rfl | rfl | rfl | rfl <;> exact absurd h (by decide)

/-- A text that may stand behind a blank, and before one. -/
structure Inline (s : String) (rows : List Row) : Prop where
  first : Heads isFirst s.toList
  nonempty : s ≠ ""
  spells : Spells Breaks s rows

lemma Heads.mono {p q : Char → Bool} (h : Heads p cs) (hpq : ∀ c, p c → q c) : Heads q cs :=
  fun c hc => hpq c (h c hc)

lemma Inline.heads (h : Inline s rows) (rest : List Char) : Heads isFirst (s.toList ++ rest) :=
  heads_append h.first h.nonempty rest

lemma ne_empty_append (h : s ≠ "") (t : String) : s ++ t ≠ "" := by
  simp [h]

lemma heads_append_of_ne {p : Char → Bool} (h : Heads p s.toList) (hne : s ≠ "") (t : String) :
    Heads p (s ++ t).toList := by
  rw [String.toList_append]
  exact heads_append h hne _

lemma spells_spaced (mark : Symbol) :
    Spells (Heads (!isGapBlank ·)) (" " ++ mark.spelling ++ " ") [markRow mark] := by
  have hmark : Spells (Heads (!isSecond ·)) (" " ++ mark.spelling) [markRow mark] := by
    refine spells_blank.append (spells_symbol mark) fun rest _ => ?_
    cases mark <;> exact heads_cons _ rfl
  exact hmark.append_cons spells_blank rfl rfl

lemma spells_led (mark : Symbol) :
    Spells (Heads (!isGapBlank ·)) (mark.spelling ++ " ") [markRow mark] :=
  (spells_symbol mark).append_cons spells_blank rfl rfl

/-- Two texts with something between them that ends with a blank. -/
lemma Inline.between {f : String} {between : List Row} (hs : Inline s rows)
    (hf : Spells (Heads (!isGapBlank ·)) f between) (hbreak : ∀ rest, Breaks (f.toList ++ rest))
    (ht : Inline t rows') : Inline (s ++ f ++ t) (rows ++ between ++ rows') where
  first := by
    rw [String.append_assoc]
    exact heads_append_of_ne hs.first hs.nonempty _
  nonempty := by
    rw [String.append_assoc]
    exact ne_empty_append hs.nonempty _
  spells := by
    refine (hs.spells.append hf fun rest _ => hbreak rest).append ht.spells fun rest _ => ?_
    exact (ht.heads rest).mono fun _ => not_isGapBlank_of_first

/-- Two texts around a symbol between blanks. -/
lemma Inline.spaced (hs : Inline s rows) (mark : Symbol) (ht : Inline t rows') :
    Inline (s ++ (" " ++ mark.spelling ++ " ") ++ t) (rows ++ [markRow mark] ++ rows') := by
  refine hs.between (spells_spaced mark) (fun rest => ?_) ht
  rw [String.append_assoc, String.toList_append]
  exact breaks_cons _ rfl

/-- A text between two brackets. -/
lemma Spells.enclosed (h : Spells Breaks s rows) (left right : Symbol) (hleft : isAlone left)
    (hright : isAlone right) :
    Spells Anything (left.spelling ++ s ++ right.spelling)
      ([markRow left] ++ rows ++ [markRow right]) := by
  refine ((spells_alone hleft).append h fun _ _ => trivial).append (spells_alone hright)
    fun rest _ => ?_
  cases right <;> first | exact breaks_cons _ rfl | cases hright

def isOpening : Symbol → Bool
  | .leftParen | .leftBracket | .leftBrace => true
  | _ => false

lemma isAlone_of_opening (h : isOpening mark) : isAlone mark := by
  cases mark <;> first | decide | cases h

lemma Inline.enclosed (h : Spells Breaks s rows) (left right : Symbol) (hleft : isOpening left)
    (hright : isAlone right) :
    Inline (left.spelling ++ s ++ right.spelling) ([markRow left] ++ rows ++ [markRow right]) := by
  have hfirst : Heads isFirst left.spelling.toList := by
    cases left <;> first | exact heads_cons _ rfl | cases hleft
  have hne : left.spelling ≠ "" := by
    cases left <;> decide
  rw [String.append_assoc]
  refine ⟨heads_append_of_ne hfirst hne _, ne_empty_append hne _, ?_⟩
  rw [← String.append_assoc]
  exact (h.enclosed left right (isAlone_of_opening hleft) hright).anywhere

lemma Inline.parens (h : Inline s rows) :
    Inline ("(" ++ s ++ ")") ([markRow .leftParen] ++ rows ++ [markRow .rightParen]) :=
  .enclosed h.spells .leftParen .rightParen rfl rfl

/-- A text with an access or a call behind it. -/
lemma Inline.followed (hs : Inline s rows) (ht : Spells Breaks t rows')
    (hbreak : ∀ rest, Breaks (t.toList ++ rest)) :
    Inline (s ++ t) (rows ++ rows') where
  first := heads_append_of_ne hs.first hs.nonempty _
  nonempty := ne_empty_append hs.nonempty _
  spells := hs.spells.append ht fun rest _ => hbreak rest

lemma Inline.bracketed (hs : Inline s rows) (ht : Spells Breaks t rows') (left right : Symbol)
    (hleft : isOpening left) (hright : isAlone right) :
    Inline (s ++ left.spelling ++ t ++ right.spelling)
      (rows ++ ([markRow left] ++ rows' ++ [markRow right])) := by
  have htext : s ++ left.spelling ++ t ++ right.spelling =
      s ++ (left.spelling ++ t ++ right.spelling) := by
    simp only [String.append_assoc]
  rw [htext]
  have hinner := ht.enclosed left right (isAlone_of_opening hleft) hright
  refine hs.followed hinner.anywhere fun rest => ?_
  rw [String.toList_append, String.toList_append]
  cases left <;> first | exact breaks_cons _ rfl | cases hleft

lemma Inline.member {name : String} (hs : Inline s rows) (h : isWord name) :
    Inline (s ++ "." ++ name) (rows ++ [markRow .dot, wordRow name]) := by
  obtain ⟨c, cs, hname, hstart, -⟩ := isWord_iff h
  rw [String.append_assoc]
  have hsecond : ∀ rest, Heads (!isSecond ·) (name.toList ++ rest) := by
    intro rest
    rw [hname]
    refine heads_cons _ (not_isSecond_of_first ?_)
    simp [isFirst, isIdentifierChar_of_start hstart]
  refine hs.followed (((spells_symbol .dot).append (spells_word h)
    fun rest _ => hsecond rest).weaken fun _ hrest => hrest.1) fun rest => ?_
  rw [String.toList_append, hname]
  exact breaks_point hstart _

/-- An operator in front. -/
lemma Inline.prefixed (hs : Inline s rows) (hmark : Heads isFirst mark.spelling.toList) :
    Inline (mark.spelling ++ s) ([markRow mark] ++ rows) where
  first := heads_append_of_ne hmark (by cases mark <;> decide) _
  nonempty := ne_empty_append (by cases mark <;> decide) _
  spells := (spells_symbol mark).append hs.spells fun rest _ =>
    (hs.heads rest).mono fun _ => not_isSecond_of_first

/-- A text of words, numbers or strings by itself. -/
lemma Inline.of_spells (hs : s.toList = c :: cs) (hc : isFirst c) (h : Spells Breaks s rows) :
    Inline s rows where
  first := by
    rw [hs]
    exact heads_cons _ hc
  nonempty := by
    rintro rfl
    cases hs
  spells := h

lemma inline_word {word : String} (h : isWord word) : Inline word [wordRow word] := by
  obtain ⟨c, cs, hword, hstart, -⟩ := isWord_iff h
  refine .of_spells hword ?_ ((spells_word h).weaken fun _ hrest => hrest.1)
  simp [isFirst, isIdentifierChar_of_start hstart]

lemma inline_number (n : Nat) : Inline n.repr [numberRow n.repr] := by
  obtain ⟨c, cs, hn, hc, -⟩ := toList_repr_cons n
  refine .of_spells hn ?_ (spells_number n)
  simp [isFirst, isIdentifierChar_of_digit hc]

lemma inline_string (h : s.toList.all isWritable) : Inline (Script.stringLiteral s) [stringRow s] :=
  .of_spells (Script.stringLiteral_toList s) rfl (spells_string h).anywhere

lemma heads_commaSeparated (hs : ∀ rest, Heads isFirst (s.toList ++ rest)) (ss : List String)
    (rest : List Char) : Heads isFirst ((String.intercalate ", " (s :: ss)).toList ++ rest) := by
  cases ss with
  | nil =>
    exact hs rest
  | cons =>
    rw [String.intercalate_cons_cons, String.append_assoc, String.toList_append, append_assoc]
    exact hs _

/-- Texts with commas between them. -/
lemma spells_commaSeparated {ss : List String} {rowss : List (List Row)}
    (h : Forall₂ Inline ss rowss) :
    Spells Breaks (Script.commaSeparated ss) (commaRows rowss) := by
  induction h with
  | nil => exact Spells.empty.anywhere
  | cons hs htail ih =>
    cases htail with
    | nil =>
      rw [commaRows_singleton, Script.commaSeparated, String.intercalate_singleton]
      exact hs.spells
    | @cons s' rows' ss rowss hs' htail =>
      rw [commaRows_cons_cons, Script.commaSeparated, String.intercalate_cons_cons]
      have hcomma : Spells (Heads (!isGapBlank ·)) ", " [markRow .comma] := spells_led .comma
      refine (hs.spells.append hcomma fun rest _ => breaks_cons _ rfl).append ih
        fun rest _ => ?_
      exact (heads_commaSeparated hs'.heads ss rest).mono fun _ => not_isGapBlank_of_first

/-! ### Declarations -/

lemma scan_of_spells {follows : List Char → Prop} (h : Spells follows s rows) (hnil : follows []) :
    (scan s.toList).2 = none ∧ rowsOf (scan s.toList).1 = rows := by
  obtain ⟨ps, hps, rfl⟩ := h [] hnil
  have hscan := hps.scan_eq
  rw [append_nil, scan, append_nil] at hscan
  rw [hscan]
  exact ⟨rfl, rfl⟩

/-- A declaration of a value in one line. -/
lemma Inline.binding (h : Inline s rows) {name : String} (hname : isWord name) :
    Inline ("let " ++ name ++ " = " ++ s)
      ([wordRow "let", wordRow name, markRow .assign] ++ rows) := by
  have hvalue : Inline (name ++ " = " ++ s) ([wordRow name] ++ [markRow .assign] ++ rows) :=
    (inline_word hname).spaced .assign h
  have hword : isWord "let" := by decide
  exact (inline_word hword).between spells_blank (fun _ => breaks_cons _ rfl) hvalue

end UiScript.Token
