import UiScript.Proofs.Script.Printing
import UiScript.Proofs.Syntax.Rounds

/-!
# Reading back written types

The text of a type nests angle brackets to any depth, so it ends with a run of them. A bracket that
closes is a token of its own whenever no equals sign follows, and a type ends where no bracket
opens: behind the name of a value and behind the arrow of a function, the text of a type is read as
that type.
-/

namespace UiScript

open List

open Token (Row Spells Heads Breaks Anything markRow wordRow isGapBlank heads_cons spells_word
  spells_blank spells_led spells_alone isWord row endRow)
open Syntax

/-! ### Types as tokens -/

variable {ts : List TypeExpr} {t : TypeExpr}

namespace TypeExpr

mutual

def isNamed : TypeExpr → Bool
  | .mk name arguments => Script.isIdentifier name && areNamed arguments

def areNamed : List TypeExpr → Bool
  | [] => true
  | t :: ts => t.isNamed && areNamed ts

end

mutual

/-- What the tokens of a written type say. -/
def rows : TypeExpr → List Row
  | .mk name [] => [wordRow name]
  | .mk name (t :: ts) => wordRow name :: markRow .lt :: (t.rows ++ moreRows ts ++ [markRow .gt])

/-- Further arguments, each behind a comma. -/
def moreRows : List TypeExpr → List Row
  | [] => []
  | t :: ts => markRow .comma :: (t.rows ++ moreRows ts)

end

lemma isNamed_iff {name : String} (h : (mk name ts).isNamed) :
    isWord name ∧ Token.wordKind name = .identifier ∧ areNamed ts := by
  rw [isNamed, Bool.and_eq_true] at h
  obtain ⟨hword, hkind⟩ := Script.isIdentifier_iff h.1
  exact ⟨hword, hkind, h.2⟩

lemma areNamed_cons (h : areNamed (t :: ts)) : t.isNamed ∧ areNamed ts := by
  rwa [areNamed, Bool.and_eq_true] at h

mutual

lemma rows_sameLine : ∀ t : TypeExpr, ∀ r ∈ t.rows, r.kind ≠ .newline
  | .mk name [] => by
    intro r hr
    obtain rfl := mem_singleton.mp hr
    exact wordKind_ne_newline name
  | .mk name (t :: ts) => by
    intro r hr
    simp only [rows, mem_cons, mem_append, not_mem_nil, or_false] at hr
    rcases hr with rfl | rfl | (hr | hr) | rfl
    · exact wordKind_ne_newline name
    · exact nofun
    · exact rows_sameLine t r hr
    · exact moreRows_sameLine ts r hr
    · exact nofun

lemma moreRows_sameLine : ∀ ts : List TypeExpr, ∀ r ∈ moreRows ts, r.kind ≠ .newline
  | [] => by simp [moreRows]
  | t :: ts => by
    intro r hr
    simp only [moreRows, mem_cons, mem_append] at hr
    rcases hr with rfl | hr | hr
    · exact nofun
    · exact rows_sameLine t r hr
    · exact moreRows_sameLine ts r hr

end

/-! ### The text of a type -/

/-- Neither a name nor a bracket that closes is prolonged. -/
def Stops (cs : List Char) : Prop := Heads (fun c => !Token.isIdentifierChar c && c != '=') cs

lemma spells_gt : Spells Stops ">" [markRow .gt] := by
  have hgt : Symbol.gt.spelling.toList = ['>'] := rfl
  refine Token.spells_single hgt (by decide) (fun _ _ h => nomatch h) ?_
  intro rest hrest m hm hlonger
  obtain ⟨cs, hcs⟩ := hlonger
  cases m with
  | gte =>
    obtain rfl := (List.cons.inj hcs).2
    exact absurd (hrest '=' rfl) (by decide)
  | _ => first | simp [Symbol.double] at hm; done | cases hcs

lemma heads_text (h : t.isNamed) (rest : List Char) :
    Heads Token.isFirst (t.text.toList ++ rest) := by
  obtain ⟨name, ts⟩ := t
  have hname := Token.inline_word (isNamed_iff h).1
  cases ts with
  | nil => exact hname.heads rest
  | cons =>
    rw [text, String.append_assoc, String.append_assoc, String.toList_append, append_assoc]
    exact hname.heads _

mutual

lemma spells_text : ∀ t : TypeExpr, t.isNamed → Spells Stops t.text t.rows
  | .mk name [], h =>
    (spells_word (isNamed_iff h).1).weaken fun _ hrest =>
      hrest.mono fun _ hc => (Bool.and_eq_true_iff.mp hc).1
  | .mk name (t :: ts), h => by
    obtain ⟨hword, -, harguments⟩ := isNamed_iff h
    obtain ⟨ht, hts⟩ := areNamed_cons harguments
    have hopen : Spells (Heads (!Token.isSecond ·)) (name ++ "<") [wordRow name, markRow .lt] :=
      (spells_word hword).append_cons (Token.spells_symbol .lt) rfl rfl
    have hinside := spells_texts ts hts (spells_text t ht)
    refine (hopen.append hinside fun rest _ => ?_).append_cons spells_gt rfl rfl
    exact (Token.heads_commaSeparated (heads_text ht) _ rest).mono
      fun _ => Token.not_isSecond_of_first

/-- A text goes on with further arguments. -/
lemma spells_texts : ∀ ts : List TypeExpr, areNamed ts → ∀ {s : String} {rows : List Row},
    Spells Stops s rows →
      Spells Stops (String.intercalate ", " (s :: text.texts ts)) (rows ++ moreRows ts)
  | [], _, s, rows, hs => by
    rw [text.texts, String.intercalate_singleton, moreRows, append_nil]
    exact hs
  | t :: ts, h, s, rows, hs => by
    obtain ⟨ht, hts⟩ := areNamed_cons h
    have hcomma : Spells (Heads (!isGapBlank ·)) (s ++ ", ") (rows ++ [markRow .comma]) :=
      hs.append_cons (spells_led .comma) rfl rfl
    rw [text.texts, String.intercalate_cons_cons, moreRows, append_cons]
    refine hcomma.append (spells_texts ts hts (spells_text t ht)) fun rest _ => ?_
    exact (Token.heads_commaSeparated (heads_text ht) _ rest).mono
      fun _ => Token.not_isGapBlank_of_first

end

end TypeExpr

/-! ### The tokens of a type -/

namespace Syntax

variable {c d : Cursor}

lemma accept_other {kind : Token.Kind} (h : c.current.kind ≠ kind) :
    accept kind c = .ok false c := by
  rw [accept_run, if_neg h]

/-- No bracket opens between two arguments, nor behind the last one. -/
lemma kind_of_more (hover : Over (TypeExpr.moreRows ts) c d)
    (hd : d.current.kind = .symbol .gt) : c.current.kind ≠ .symbol .lt := by
  cases ts with
  | nil =>
    obtain rfl := over_nil hover
    simp [hd]
  | cons =>
    rw [kind_of_mark (over_cons hover).1]
    exact nofun

mutual

/-- The tokens of a type are read as the type, in front of anything but a bracket that opens. -/
lemma typeExpr_over : ∀ t : TypeExpr, t.isNamed → ∀ {k : Nat} {c d : Cursor},
    t.rows.length < k → Over t.rows c d → d.current.kind ≠ .symbol .lt →
      (rules k).typeExpr c = .ok t d
  | _, _, 0, _, _, hk, _, _ => absurd hk (Nat.not_lt_zero _)
  | .mk name [], h, k + 1, c, d, hk, hover, hd => by
    obtain ⟨hname, rfl, -⟩ := over_single hover
    have hkind := (TypeExpr.isNamed_iff h).2.1
    change typeExpr (rules k) c = _
    rw [typeExpr, bind_ok (expectIdentifier_run hname hkind), bind_ok (accept_other hd)]
    rfl
  | .mk name (t :: ts), h, k + 1, c, d, hk, hover, hd => by
    obtain ⟨-, hkind, harguments⟩ := TypeExpr.isNamed_iff h
    obtain ⟨ht, hts⟩ := TypeExpr.areNamed_cons harguments
    rw [TypeExpr.rows] at hover hk
    simp only [length_append, length_cons, length_nil] at hk
    obtain ⟨hname, hover⟩ := over_cons hover
    obtain ⟨hopen, hover⟩ := over_cons hover
    obtain ⟨e, harguments, hclose, rfl, -⟩ := over_snoc hover
    obtain ⟨a, hfirst, hmore⟩ := over_append harguments
    have hfirst := typeExpr_over t ht (k := k) (by omega) hfirst
      (kind_of_more hmore (kind_of_mark hclose))
    have hmore : iterate (typeArgumentStep (rules k)) [t] a = .ok (t :: ts) e :=
      typeArguments_over ts hts (by omega) hmore (kind_of_mark hclose) [t] (Nat.le_refl _)
    change typeExpr (rules k) c = _
    rw [typeExpr, bind_ok (expectIdentifier_run hname hkind),
      bind_ok (accept_row hopen), if_pos rfl, bind_ok hfirst, bind_ok hmore,
      bind_ok (expectSymbol_row hclose)]
    rfl

lemma typeArguments_over : ∀ ts : List TypeExpr, TypeExpr.areNamed ts →
    ∀ {k : Nat} {c d : Cursor}, (TypeExpr.moreRows ts).length < k →
      Over (TypeExpr.moreRows ts) c d → d.current.kind = .symbol .gt →
        ∀ (acc : List TypeExpr) {m : Nat}, c.rest.length + 2 ≤ m →
          loop (typeArgumentStep (rules k)) m acc c = .ok (acc.reverse ++ ts) d
  | [], _, k, c, d, _, hover, hd, acc, m, hm => by
    obtain rfl := over_nil hover
    rw [append_nil]
    refine loop_inr (by omega) ?_
    unfold typeArgumentStep
    rw [bind_ok (accept_other (by simp [hd]))]
    rfl
  | t :: ts, h, k, c, d, hk, hover, hd, acc, m, hm => by
    obtain ⟨ht, hts⟩ := TypeExpr.areNamed_cons h
    have hlength := over_length hover
    rw [TypeExpr.moreRows] at hover hk hlength
    simp only [length_append, length_cons] at hk hlength
    obtain ⟨hcomma, hover⟩ := over_cons hover
    obtain ⟨e, hfirst, hmore⟩ := over_append hover
    have hlength' := over_length hmore
    have hfirst := typeExpr_over t ht (k := k) (by omega) hfirst (kind_of_more hmore hd)
    have hmore := typeArguments_over ts hts (k := k) (by omega) hmore hd (t :: acc) (m := m - 1)
      (by omega)
    have hstep : typeArgumentStep (rules k) acc c = .ok (.inl (t :: acc)) e := by
      unfold typeArgumentStep
      rw [bind_ok (accept_row hcomma), if_pos rfl, bind_ok hfirst]
      rfl
    rw [loop_inl (by omega) hstep]
    simpa using hmore

end

/-! ### Declarations with types -/

variable {t : TypeExpr} {ts : List Token}

lemma optionalType_over (h : t.isNamed) {k : Nat} (hk : t.rows.length < k)
    (hover : Over (markRow .colon :: t.rows) c d) (hd : d.current.kind ≠ .symbol .lt) :
    optionalType (rules k) c = .ok (some t) d := by
  obtain ⟨hcolon, hover⟩ := over_cons hover
  unfold optionalType
  rw [bind_ok (accept_row hcolon), if_pos rfl, bind_ok (typeExpr_over t h hk hover hd)]
  rfl

lemma resultType_over (h : t.isNamed) {k : Nat} (hk : t.rows.length < k)
    (hover : Over (markRow .minus :: markRow .gt :: t.rows) c d)
    (hd : d.current.kind ≠ .symbol .lt) : resultType (rules k) c = .ok (some t) d := by
  have htokens := over_tokens hover
  obtain ⟨hminus, hover⟩ := over_cons hover
  obtain ⟨hgt, hover⟩ := over_cons hover
  have hnext : c.rest.head? = some c.next.current := by
    rw [show c.rest = c.next.tokens from (List.cons.inj htokens).2]
    rfl
  unfold resultType
  rw [bind_ok (check_run _ c), bind_ok (peekNext_run c), hnext, if_pos]
  · rw [bind_ok (advance_run c), bind_ok (advance_run c.next),
      bind_ok (typeExpr_over t h hk hover hd)]
    rfl
  · simp [kind_of_mark hminus, kind_of_mark hgt]

lemma block_empty {r : Rules} (hover : Over [markRow .leftBrace, markRow .rightBrace] c d) :
    block r c = .ok [] d := by
  obtain ⟨hopen, hover⟩ := over_cons hover
  obtain ⟨hclose, rfl, -⟩ := over_single hover
  have hkind : c.next.current.kind = .symbol .rightBrace := kind_of_mark hclose
  have hbody : blockBody r c.next = .ok [] c.next := by
    unfold blockBody
    rw [bind_ok (skipNewlines_run _), skip_eq_self (by rw [hkind]; rfl)]
    refine loop_inr (Nat.succ_pos _) ?_
    rw [untilStep, bind_ok (a := true) (d := c.next)]
    · rfl
    · rw [bind_ok (check_run _ _), bind_ok (atEnd_run _), hkind]
      rfl
  unfold block
  rw [bind_ok (expectSymbol_row hopen), bind_ok hbody,
    bind_ok (expectSymbol_row hclose)]
  rfl

lemma params_empty {r : Rules} (h : c.current.kind = .symbol .rightParen) :
    params r c = .ok [] c := by
  have hover : Over [] c c := ⟨[], rfl, rfl, rfl, rfl⟩
  have hitems : Forall₂ (ItemReads (param r) id .rightParen) [] [] := .nil
  obtain ⟨ps, hps, hnil⟩ := collectSeparated_over rfl hitems hover h
  rw [map_eq_nil_iff.mp hnil] at hps
  unfold params
  rw [bind_ok (skip_list rfl hitems hover h), hps]

/-- A value whose type is written. -/
lemma ofTokens_typed (h : t.isNamed) (hts : ts.map row =
    [wordRow "let", wordRow "x", markRow .colon] ++ t.rows ++ [markRow .assign, wordRow "null"] ++
      [endRow]) (file : String) :
    ∃ p place value, Program.ofTokens ts file = .ok p ∧
      p.body = [.binding place "x" false (some t) value] ∧ value.unplaced = .null none := by
  obtain ⟨k, c, d, hover, hd, hk, hprogram⟩ := ofTokens_statement hts file
  have hlength := over_length hover
  simp only [length_append, length_cons, length_nil] at hlength
  obtain ⟨k, rfl⟩ : ∃ l, k = l + 1 := ⟨k - 1, by omega⟩
  obtain ⟨e, hover, hvalue⟩ := over_append hover
  obtain ⟨hlet, hover⟩ := over_cons hover
  obtain ⟨hword, htype⟩ := over_cons hover
  obtain ⟨hassign, hvalue⟩ := over_cons hvalue
  have hkind : c.current.kind = .keyword .letWord := kind_of_row hlet
  have htype := optionalType_over h (k := k + 1) (by omega) htype (by simp [kind_of_mark hassign])
  obtain ⟨value, hread, hnull⟩ := phrase_null.operand.whole.expression (k := k + 1)
    (by simp only [length_singleton]; omega) hvalue (by rw [hd]; decide)
  have hstatement : (rules (k + 2)).statement c = _ := statement_let hlet hword rfl htype hassign
  have hend : d.terminate = d := by simp [Cursor.terminate, hd, isSeparator]
  rw [bind_ok hread, bind_ok (skipTerminator_run d), hend] at hstatement
  obtain ⟨p, hp, hbody⟩ := (hprogram (by rw [hkind]; rfl) (by simp [hkind])).1 _ hstatement
  exact ⟨p, _, value, hp, hbody, hnull⟩

/-- A function whose result's type is written. -/
lemma ofTokens_function (h : t.isNamed) (hts : ts.map row =
    [wordRow "fn", wordRow "f", markRow .leftParen, markRow .rightParen, markRow .minus,
      markRow .gt] ++ t.rows ++ [markRow .leftBrace, markRow .rightBrace] ++ [endRow])
    (file : String) :
    ∃ p place, Program.ofTokens ts file = .ok p ∧
      p.body = [.function place "f" [] (some t) []] := by
  obtain ⟨k, c, d, hover, hd, hk, hprogram⟩ := ofTokens_statement hts file
  have hlength := over_length hover
  simp only [length_append, length_cons, length_nil] at hlength
  obtain ⟨k, rfl⟩ : ∃ l, k = l + 1 := ⟨k - 1, by omega⟩
  obtain ⟨e, hover, hblock⟩ := over_append hover
  obtain ⟨hfn, hover⟩ := over_cons hover
  obtain ⟨hword, hover⟩ := over_cons hover
  obtain ⟨hopen, hover⟩ := over_cons hover
  obtain ⟨hclose, htype⟩ := over_cons hover
  have hkind : c.current.kind = .keyword .fnWord := kind_of_row hfn
  have hparams := params_empty (r := rules (k + 1)) (kind_of_mark hclose)
  have htype := resultType_over h (k := k + 1) (by omega) htype
    (by simp [kind_of_mark (over_cons hblock).1])
  have hstatement : (rules (k + 2)).statement c =
      .ok (.function c.current.place "f" [] (some t) []) d := by
    change statement (rules (k + 1)) c = _
    unfold statement
    rw [bind_ok (peek_run c), hkind]
    change functionDeclaration _ c = _
    unfold functionDeclaration
    rw [bind_ok (here_run c), bind_ok (advance_run c),
      bind_ok (expectIdentifier_run hword rfl), bind_ok (expectSymbol_row hopen),
      bind_ok hparams, bind_ok (expectSymbol_row hclose), bind_ok htype,
      bind_ok (block_empty hblock)]
    rfl
  obtain ⟨p, hp, hbody⟩ := (hprogram (by rw [hkind]; rfl) (by simp [hkind])).1 _ hstatement
  exact ⟨p, _, hp, hbody⟩

end Syntax

namespace TypeExpr

lemma spells_leading (word : String) (h : isWord word) :
    Spells (Heads (!isGapBlank ·)) (word ++ " ") [wordRow word] :=
  (spells_word h).append_cons spells_blank rfl rfl

lemma spells_binding : Spells (Heads (!isGapBlank ·)) "let x: "
    [wordRow "let", wordRow "x", markRow .colon] :=
  (spells_leading "let" (by decide)).append_cons
    ((spells_word (show isWord "x" by decide)).append_cons (spells_led .colon) rfl rfl) rfl rfl

lemma spells_value : Spells Breaks " = null" [markRow .assign, wordRow "null"] := by
  have hnull : isWord "null" := by decide
  exact (Token.spells_spaced .assign).append_cons (Token.inline_word hnull).spells rfl rfl

lemma spells_function : Spells (Heads (!isGapBlank ·)) "fn f() -> "
    [wordRow "fn", wordRow "f", markRow .leftParen, markRow .rightParen, markRow .minus,
      markRow .gt] := by
  have hmark (mark : Symbol) (h : Token.isAlone mark) :
      Spells Anything mark.spelling [markRow mark] := spells_alone h
  have hparens : Spells Anything "()" [markRow .leftParen, markRow .rightParen] :=
    (hmark .leftParen rfl).append (hmark .rightParen rfl) fun _ _ => trivial
  have hcall : Spells Anything "f()" [wordRow "f", markRow .leftParen, markRow .rightParen] :=
    (spells_word (show isWord "f" by decide)).append_cons hparens rfl rfl
  have harrow : Spells (Heads (!isGapBlank ·)) " -> " [markRow .minus, markRow .gt] :=
    spells_blank.append_cons ((hmark .minus rfl).append (spells_led .gt) fun _ _ => trivial) rfl rfl
  exact ((spells_leading "fn" (by decide)).append_cons hcall rfl rfl).append harrow
    fun _ _ => trivial

lemma spells_braces : Spells Anything " \x7b \x7d" [markRow .leftBrace, markRow .rightBrace] := by
  have hbrace (mark : Symbol) (h : Token.isAlone mark) :
      Spells Anything (" " ++ mark.spelling) [markRow mark] := by
    refine spells_blank.append (spells_alone h) fun _ _ => ?_
    cases mark <;> exact heads_cons _ rfl
  exact (hbrace .leftBrace rfl).append (hbrace .rightBrace rfl) fun _ _ => trivial

/-- The tokens of a source that writes a type between two texts. -/
lemma parse_around (h : t.isNamed) {left right : String} {before after : List Row}
    {follows : List Char → Prop} (hleft : Spells (Heads (!isGapBlank ·)) left before)
    (hright : Spells follows right after) (hstops : ∀ rest, Stops (right.toList ++ rest))
    (hnil : follows []) (hline : ∀ r ∈ before ++ after, r.kind ≠ .newline) (file : String) :
    ∃ ts : List Token, Program.parse (left ++ t.text ++ right) file = Program.ofTokens ts file ∧
      ts.map row = before ++ t.rows ++ after ++ [endRow] := by
  have hcode : Spells follows (left ++ t.text ++ right) (before ++ t.rows ++ after) :=
    (hleft.append (spells_text t h) fun rest _ =>
      (heads_text h rest).mono fun _ => Token.not_isGapBlank_of_first).append hright
        fun rest _ => hstops rest
  have hline : ∀ r ∈ before ++ t.rows ++ after, r.kind ≠ .newline := by
    intro r hr
    simp only [mem_append] at hr hline
    rcases hr with (hr | hr) | hr
    · exact hline r (Or.inl hr)
    · exact rows_sameLine t r hr
    · exact hline r (Or.inr hr)
  obtain ⟨hscan, hrows⟩ := Token.scan_of_spells hcode hnil
  obtain ⟨ts, hparse, hts⟩ := tokenize_of_scan hscan file
  rw [hrows, Token.pruneRows_sameLine hline] at hts
  exact ⟨ts, hparse, hts⟩

/-- The text of a type is read as that type, both for a value and for the result of a function. -/
theorem parse_text {t : TypeExpr} (h : t.isNamed) (file : String) :
    (∃ p place value, Program.parse ("let x: " ++ t.text ++ " = null") file = .ok p ∧
      p.body = [.binding place "x" false (some t) value] ∧ value.unplaced = .null none) ∧
    ∃ p place, Program.parse ("fn f() -> " ++ t.text ++ " \x7b \x7d") file = .ok p ∧
      p.body = [.function place "f" [] (some t) []] := by
  constructor
  · obtain ⟨ts, hparse, hts⟩ := parse_around h spells_binding spells_value
      (fun _ => heads_cons _ rfl) Token.breaks_nil (by decide) file
    rw [hparse]
    exact ofTokens_typed h hts file
  · obtain ⟨ts, hparse, hts⟩ := parse_around h spells_function spells_braces
      (fun _ => heads_cons _ rfl) trivial (by decide) file
    rw [hparse]
    exact ofTokens_function h hts file

/-- Three brackets close in a row. -/
theorem parse_text_nested :
    let t : TypeExpr := .mk "Map" [.mk "_" [], .mk "Array" [.mk "Array" [.mk "t1" []]]]
    t.isNamed ∧ t.text = "Map<_, Array<Array<t1>>>" ∧
      (∃ p place value, Program.parse "let x: Map<_, Array<Array<t1>>> = null" "main" = .ok p ∧
        p.body = [.binding place "x" false (some t) value] ∧ value.unplaced = .null none) ∧
      ∃ p place, Program.parse "fn f() -> Map<_, Array<Array<t1>>> \x7b \x7d" "main" = .ok p ∧
        p.body = [.function place "f" [] (some t) []] := by
  intro t
  have hnamed : t.isNamed := by decide
  exact ⟨hnamed, rfl, parse_text hnamed "main"⟩

end TypeExpr

end UiScript
