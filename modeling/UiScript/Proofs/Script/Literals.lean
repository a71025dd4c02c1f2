import UiScript.Proofs.Dom.Statement
import UiScript.Proofs.Script.Templates
import UiScript.Proofs.Syntax.Sourced

/-!
# The values of literals

A back-quoted literal of a source is raw: it has the characters between its quotes. Without an
expression in it, it is written as a string literal, and its value in a browser is that text. With
one, its texts are written between back quotes as they are, and a browser reads them for escapes and
for line ends.
-/

namespace UiScript.Script

open List

open Syntax (Occurs BackQuoted Segment)

/-! ### Units of texts -/

/-- The UTF-16 units of a code point. -/
def codeUnits (n : Nat) : List Nat :=
  if n < 0x10000 then [n] else [0xD800 + (n - 0x10000) / 0x400, 0xDC00 + (n - 0x10000) % 0x400]

lemma length_codeUnits (n : Nat) : 1 ≤ (codeUnits n).length ∧ (codeUnits n).length ≤ 2 := by
  unfold codeUnits
  split_ifs <;> simp

/-- The units of a text, which are its value as a string. -/
def units (cs : List Char) : List Nat := cs.flatMap fun c => codeUnits c.toNat

lemma units_cons (c : Char) (cs : List Char) : units (c :: cs) = codeUnits c.toNat ++ units cs :=
  flatMap_cons

/-- The value of a string literal between double quotes. -/
def stringUnits? (code : List Char) : Option (List Nat) :=
  match code with
  | '"' :: cs => (Dom.quoted? '"' cs).bind fun x => if x.2.isEmpty then some (units x.1) else none
  | _ => none

lemma stringUnits?_stringLiteral (s : String) :
    stringUnits? (stringLiteral s).toList = some (units s.toList) := by
  have hbody := Dom.quoted?_of_denotes (denotes_quotedBody s.toList) []
  rw [append_nil] at hbody
  rw [stringLiteral_toList, stringUnits?, hbody]
  rfl

/-! ### Texts of templates -/

/-- How far a browser has read the text of a template. -/
inductive Progress where
  | plain
  /-- Behind a carriage return, which a line feed belongs to. -/
  | carriage
  /-- Behind a backslash. -/
  | escape
  /-- Behind the escape of the null character, which no digit may follow. -/
  | null
  /-- Behind the letter of an escape by a code point. -/
  | unicode
  /-- Before some more digits of a unit. -/
  | digits (left value : Nat)
  /-- Within the braces around a code point. -/
  | braces (value : Option Nat)

namespace Progress

def text (c : Char) : List Nat × Progress :=
  if c == '\\' then ([], escape)
  else if c == '\r' then ([10], carriage)
  else (codeUnits c.toNat, plain)

/-- Reads one character: the units that it ends, and how far this is. -/
def step : Progress → Char → Option (List Nat × Progress)
  | plain, c => some (text c)
  | carriage, c => some (if c == '\n' then ([], plain) else text c)
  | null, c => if Text.isAsciiDigit c then none else some (text c)
  | escape, c =>
    match c with
    | 'x' => some ([], digits 2 0)
    | 'u' => some ([], unicode)
    | '0' => some ([0], null)
    | '\r' => some ([], carriage)
    | '\n' | '\u2028' | '\u2029' => some ([], plain)
    | c => (Dom.escapeChar? c).map fun d => (codeUnits d.toNat, plain)
  | unicode, c =>
    if c == '\x7b' then some ([], braces none)
    else (Text.hexValue? c).map fun d => ([], digits 3 d)
  | digits left value, c => (Text.hexValue? c).map fun d =>
    if left ≤ 1 then ([value * 16 + d], plain) else ([], digits (left - 1) (value * 16 + d))
  | braces value, c =>
    if c == '\x7d' then value.map fun n => (codeUnits n, plain)
    else (Text.hexValue? c).bind fun d =>
      if value.getD 0 * 16 + d ≤ 0x10FFFF then some ([], braces (value.getD 0 * 16 + d)) else none

/-- The text may end here. -/
def isComplete : Progress → Bool
  | plain | carriage | null => true
  | _ => false

/-- The units of the rest of a text, if it has no wrong escape. -/
def finish : Progress → List Char → Option (List Nat)
  | r, [] => if r.isComplete then some [] else none
  | r, c :: cs => (r.step c).bind fun x => (finish x.2 cs).map (x.1 ++ ·)

lemma finish_cons (r : Progress) (c : Char) (cs : List Char) :
    r.finish (c :: cs) = (r.step c).bind fun x => (x.2.finish cs).map (x.1 ++ ·) :=
  rfl

end Progress

def templateUnits? (code : List Char) : Option (List Nat) := Progress.plain.finish code

namespace Progress

variable {r : Progress} {c : Char} {x : List Nat × Progress}

/-- A closing mark is broken where a browser reads plain text. -/
lemma plain_of_less (h : r.step '<' = some x) : x.2 = plain := by
  cases r with
  | unicode | digits | braces => cases h
  | plain | carriage | null | escape =>
    cases h
    rfl

lemma finish_escaped_slash (cs : List Char) :
    plain.finish ('\\' :: '/' :: cs) = plain.finish ('/' :: cs) := by
  have hback : plain.step '\\' = some ([], escape) := rfl
  have hslash : escape.step '/' = plain.step '/' := rfl
  rw [finish_cons, hback, Option.bind_some, finish_cons, hslash, ← finish_cons]
  exact Option.map_id'

/-- The backslash in a broken closing mark is no part of the value. -/
lemma finish_interpose (r : Progress) (cs : List Char) :
    r.finish (Text.interpose '<' '\\' '/' cs) = r.finish cs := by
  fun_induction Text.interpose '<' '\\' '/' cs generalizing r with
  | case1 => rfl
  | case2 => rfl
  | case3 c d cs hmark ih =>
    obtain ⟨hc, hd⟩ := Bool.and_eq_true_iff.mp hmark
    obtain rfl := eq_of_beq hc
    obtain rfl := eq_of_beq hd
    rw [interpose_cons (by decide), finish_cons, finish_cons]
    cases hx : r.step '<' with
    | none => rfl
    | some =>
      rw [Option.bind_some, Option.bind_some, plain_of_less hx, finish_escaped_slash,
        ← interpose_cons (by decide), ih]
  | case4 c d cs _ ih =>
    rw [finish_cons, finish_cons]
    refine congrArg _ (funext fun x => ?_)
    rw [ih]

/-- How many more units than characters an escape may still give. -/
def credit : Progress → Nat
  | braces _ => 1
  | _ => 0

lemma length_escapeChar? {d : Char} (h : Dom.escapeChar? c = some d) :
    (codeUnits d.toNat).length ≤ (codeUnits c.toNat).length := by
  unfold Dom.escapeChar? at h
  split at h
  case h_13 =>
    split_ifs at h
    cases h
    exact Nat.le_refl _
  all_goals cases h
  all_goals decide

lemma text_length (c : Char) :
    (text c).1.length + (text c).2.credit ≤ (codeUnits c.toNat).length := by
  have hpos := (length_codeUnits c.toNat).1
  unfold text
  split_ifs
  · exact Nat.zero_le _
  · exact hpos
  · exact Nat.le_refl _

/-- No character adds units of its own. -/
lemma step_length (h : r.step c = some x) :
    x.1.length + x.2.credit ≤ (codeUnits c.toNat).length + r.credit := by
  have hpos := (length_codeUnits c.toNat).1
  cases r with
  | plain =>
    cases h
    exact text_length c
  | carriage =>
    cases h
    split_ifs
    · exact Nat.zero_le _
    · exact text_length c
  | null =>
    rw [step] at h
    split_ifs at h
    cases h
    exact text_length c
  | escape =>
    rw [step.eq_def] at h
    dsimp only at h
    split at h
    case h_8 =>
      obtain ⟨d, hd, rfl⟩ := Option.map_eq_some_iff.mp h
      exact length_escapeChar? hd
    all_goals cases h
    all_goals decide
  | unicode =>
    rw [step] at h
    split_ifs at h
    · cases h
      exact hpos
    · obtain ⟨d, -, rfl⟩ := Option.map_eq_some_iff.mp h
      exact Nat.zero_le _
  | digits =>
    obtain ⟨d, -, rfl⟩ := Option.map_eq_some_iff.mp h
    split_ifs
    · exact hpos
    · exact Nat.zero_le _
  | braces =>
    rw [step] at h
    split_ifs at h
    · obtain ⟨n, -, rfl⟩ := Option.map_eq_some_iff.mp h
      have := (length_codeUnits n).2
      simp only [credit]
      omega
    · obtain ⟨d, -, hd⟩ := Option.bind_eq_some_iff.mp h
      split_ifs at hd
      cases hd
      simp [credit]

lemma finish_length {us : List Nat} {cs : List Char} (h : r.finish cs = some us) :
    us.length ≤ (units cs).length + r.credit := by
  induction cs generalizing r us with
  | nil =>
    rw [finish] at h
    split_ifs at h
    cases h
    exact Nat.zero_le _
  | cons c cs ih =>
    rw [finish_cons] at h
    obtain ⟨x, hx, h⟩ := Option.bind_eq_some_iff.mp h
    obtain ⟨vs, hvs, rfl⟩ := Option.map_eq_some_iff.mp h
    have hstep := step_length hx
    have hrest := ih hvs
    rw [units_cons, length_append, length_append]
    omega

end Progress

/-- A text of a template keeps its value just if nothing in it is read in another way. -/
lemma templateUnits?_eq_units_iff (cs : List Char) :
    templateUnits? cs = some (units cs) ↔ '\\' ∉ cs ∧ '\r' ∉ cs := by
  unfold templateUnits?
  induction cs with
  | nil => simp [Progress.finish, Progress.isComplete, units]
  | cons c cs ih =>
    rw [Progress.finish_cons, Progress.step, Option.bind_some, Progress.text, units_cons,
      mem_cons, mem_cons, not_or, not_or]
    split_ifs with hback hcarriage
    · -- the backslash has a unit of its own, which no escape makes up for
      obtain rfl := eq_of_beq hback
      refine iff_of_false (fun h => ?_) fun h => h.1.1 rfl
      obtain ⟨us, hus, heq⟩ := Option.map_eq_some_iff.mp h
      have hlength := Progress.finish_length hus
      have heq := congrArg List.length heq
      rw [nil_append, length_append] at heq
      have hpos := (length_codeUnits ('\\' : Char).toNat).1
      simp only [Progress.credit] at hlength
      omega
    · obtain rfl := eq_of_beq hcarriage
      refine iff_of_false (fun h => ?_) fun h => h.2.1 rfl
      obtain ⟨us, -, heq⟩ := Option.map_eq_some_iff.mp h
      cases heq
    · have hc : '\\' ≠ c ∧ '\r' ≠ c := ⟨fun h => hback (h ▸ rfl), fun h => hcarriage (h ▸ rfl)⟩
      rw [and_iff_right hc.1, and_iff_right hc.2, ← ih]
      cases Progress.plain.finish cs with
      | none => simp
      | some => simp

/-- The same of a text as it is written. -/
lemma templateUnits?_breakClosings (s : String) :
    templateUnits? (breakClosings s).toList = some (units s.toList) ↔
      '\\' ∉ s.toList ∧ '\r' ∉ s.toList := by
  rw [← templateUnits?_eq_units_iff, breakClosings, String.toList_ofList, templateUnits?,
    Progress.finish_interpose]
  rfl

/-! ### Literals of a program -/

lemma mem_of_mem_interpose {a m b c : Char} {cs : List Char} (h : c ∈ Text.interpose a m b cs) :
    c = m ∨ c ∈ cs := by
  fun_induction Text.interpose a m b cs with
  | case1 => cases h
  | case2 => exact .inr h
  | case3 d e cs hmark ih =>
    rcases mem_cons.mp h with rfl | h
    · exact .inr (eq_of_beq (Bool.and_eq_true_iff.mp hmark).1 ▸ mem_cons_self)
    · rcases mem_cons.mp h with rfl | h
      · exact .inl rfl
      · exact (ih h).imp_right (mem_cons_of_mem _)
  | case4 d e cs _ ih =>
    rcases mem_cons.mp h with rfl | h
    · exact .inr mem_cons_self
    · exact (ih h).imp_right (mem_cons_of_mem _)

/-- A string literal is within one line. -/
lemma feed_notMem_stringLiteral (s : String) : '\n' ∉ (stringLiteral s).toList := by
  rw [stringLiteral_toList, quotedBody, mem_cons]
  rintro (h | h)
  · cases h
  · rcases mem_of_mem_interpose h with h | h
    · cases h
    · rcases mem_append.mp h with h | h
      · obtain ⟨c, -, hc⟩ := mem_flatMap.mp h
        rcases Dom.stringChar_spec c with ⟨heq, hplain⟩ | ⟨ds, heq, hds⟩
        · rw [heq, mem_singleton] at hc
          exact absurd (hc ▸ hplain) (by decide)
        · rw [heq] at hc
          rcases mem_cons.mp hc with hc | hc
          · cases hc
          · exact absurd (hds _ hc) (by decide)
      · cases mem_singleton.mp h

lemma afterText_of_notMem {text : List Char} (h : '\n' ∉ text) (p : Place) :
    Token.afterText p text = { p with column := p.column + text.length } := by
  induction text generalizing p with
  | nil => rfl
  | cons c text ih =>
    obtain ⟨hc, htext⟩ := not_or.mp (mem_cons.not.mp h)
    have hstep : Token.afterChar p c = { p with column := p.column + 1 } := by
      simp [Token.afterChar, Ne.symm hc]
    have hrun : Token.afterText p (c :: text) = Token.afterText (Token.afterChar p c) text := rfl
    rw [hrun, hstep, ih htext, length_cons, Nat.add_assoc, Nat.add_comm 1]

lemma tokenize_stringLiteral {s : String} (h : s.toList.all Token.isWritable) (file : String) :
    Token.tokenize (stringLiteral s) file =
      .ok [⟨.string, s, ⟨1, 1, file⟩, false⟩,
        ⟨.endOfFile, "", ⟨1, 1 + (stringLiteral s).length, file⟩, false⟩] := by
  have hread := Token.stringRest?_of_denotes (denotes_quotedBody s.toList) h []
  rw [append_nil] at hread
  have hscan : Token.scan (stringLiteral s).toList =
      ([⟨(stringLiteral s).toList, .token .string s false⟩], none) := by
    rw [stringLiteral_toList, Token.scan, Token.lexeme_string, hread]
    simp [Token.scan]
  have hplace := afterText_of_notMem (feed_notMem_stringLiteral s) ⟨1, 1, file⟩
  rw [String.length_toList] at hplace
  unfold Token.tokenize Token.rawTokens
  rw [hscan]
  simp only [Token.placed, hplace]
  rfl

/-- A string is written as a literal in double quotes that holds no closing mark of markup and is
read back as that string: by the rules of the grammar, by the reader of documents and by a browser.
If the string has no control character but ends of lines and tabs, the literal is also a whole
source whose only token is that string. -/
theorem stringLiteral_read_back (s : String) :
    (∃ body, (stringLiteral s).toList = '"' :: body ∧ Json.Denotes body s.toList) ∧
      ¬ "</".toList <:+: (stringLiteral s).toList ∧
      Json.read (stringLiteral s).toList = .ok (.str s) ∧
      stringUnits? (stringLiteral s).toList = some (units s.toList) ∧
      (s.toList.all Token.isWritable → ∀ file, Token.tokenize (stringLiteral s) file =
        .ok [⟨.string, s, ⟨1, 1, file⟩, false⟩,
          ⟨.endOfFile, "", ⟨1, 1 + (stringLiteral s).length, file⟩, false⟩]) := by
  have hdenotes := denotes_quotedBody s.toList
  refine ⟨⟨_, stringLiteral_toList s, hdenotes⟩, Free.closing_breakClosings _, ?_,
    stringUnits?_stringLiteral s, tokenize_stringLiteral⟩
  rw [stringLiteral_toList, Json.read_of_denotes hdenotes, String.ofList_toList]

/-- Closing marks, one of them with a backslash in it, a quote and the end of a line. -/
theorem stringLiteral_read_back_marks :
    Token.tokenize "\"<\\/b><\\\\/\\\"\\n<\"" "main" =
      .ok [⟨.string, "</b><\\/\"\n<", ⟨1, 1, "main"⟩, false⟩,
        ⟨.endOfFile, "", ⟨1, 17, "main"⟩, false⟩] := by
  have hcode : stringLiteral "</b><\\/\"\n<" = "\"<\\/b><\\\\/\\\"\\n<\"" := by decide +kernel
  have hread := (stringLiteral_read_back "</b><\\/\"\n<").2.2.2.2 (by decide) "main"
  rwa [hcode] at hread

/-! ### Literals in a script -/

variable {p : Option Place}

/-- A string inside a statement is in the script as a literal, wherever it stands. -/
lemma string_in_script {program : Program} {title : String} {page : Page}
    (h : program.toPage title = .ok page) {n : Node} (hn : n ∈ program.body) {shifts : List Shift}
    {value : String} (hreaches : Reaches .statement n shifts (.string p value)) :
    (stringLiteral value).toList <:+: page.script.toList := by
  obtain ⟨V, hV, hscript⟩ := statement_shown h hn
  obtain ⟨W, ⟨code, hcode, rfl⟩, hshown⟩ := hreaches.shown hV
  rw [lower, lowerWith] at hcode
  obtain rfl := hcode.of_pure
  have hfeed := feed_notMem_stringLiteral value
  have hsolid : Solid (stringLiteral value).toList := by
    refine ⟨?_, ?_, ?_⟩
    · rw [stringLiteral_toList]
      exact cons_ne_nil _ _
    · exact fun hhead => hfeed (mem_of_head? hhead)
    · exact fun hlast => hfeed (mem_of_getLast? hlast)
  have hmoved := hscript _ (solid_moved hsolid shifts) (hshown _ hsolid infix_rfl)
  rwa [moved_of_notMem shifts hfeed] at hmoved

/-- Where the characters of a literal come from: a back-quoted one has them in the source. -/
lemma string_occurs {source file : String} {pos : Syntax.Position}
    {value : String} (h : Syntax.Drawn (Occurs source file) pos (.string p value)) :
    ∃ t, Occurs source file t ∧ t.kind = .string ∧ some t.place = p ∧ t.value = value ∧
      (t.template → BackQuoted source file p value.toList) := by
  cases h with
  | string hvalue =>
    obtain ⟨t, ht, hkind, rfl, rfl⟩ := hvalue
    exact ⟨t, ht, hkind, rfl, rfl, ht.sourced.backQuoted⟩

lemma template_occurs {source file : String} {pos : Syntax.Position}
    {parts : List (Part Node)} (h : Syntax.Drawn (Occurs source file) pos (.template p parts)) :
    ∃ pieces, BackQuoted source file p (pieces.flatMap Segment.spelling) ∧
      Forall₂ Syntax.Part.Follows parts pieces := by
  cases h with
  | template _ _ _ hfilled =>
    obtain ⟨t, ht, htemplate, rfl, -, hclosed, hfollows⟩ := hfilled
    refine ⟨_, ?_, hfollows⟩
    rw [Syntax.segments_spelling hclosed]
    exact ht.sourced.backQuoted htemplate

def boundText? : Node → Option String
  | .binding _ _ _ _ (.template _ (.text s :: _)) => some s
  | _ => none

lemma eq_binding_of_boundText? {n : Node} {s : String} (h : boundText? n = some s) :
    ∃ p name mutable written q parts,
      n = .binding p name mutable written (.template q (.text s :: parts)) := by
  unfold boundText? at h
  split at h
  · cases h
    exact ⟨_, _, _, _, _, _, rfl⟩
  · cases h

end UiScript.Script

namespace UiScript.Program

open Script
open Syntax (Occurs BackQuoted Segment)

/-- Every back-quoted literal of a parsed program has its characters between back quotes at its
place in the source. One that is a string is in the script as a literal whose value is that text. A
template consists of the texts and fragments there; where no code around it shifts its lines, each
of its texts has the same value in the script just if it has no backslash and no carriage return.
Both are in the script, unless they stand in a part that it does not show. -/
theorem backquoted_values {source file : String} {program : Program}
    (h : Program.parse source file = .ok program) (title : String) :
    ∃ page, program.toPage title = .ok page ∧
      (∀ t ∈ Node.outlineList program.body, isLiteral t →
        (∃ n ∈ program.body, ∃ shifts, Reaches .statement n shifts t) ∨
          ∃ n ∈ Node.outlineList program.body, ∃ k ∈ unwritten n, t ∈ k.outline) ∧
      (∀ p value, .string p value ∈ Node.outlineList program.body →
        (∃ t, Occurs source file t ∧ t.kind = .string ∧ some t.place = p ∧ t.value = value ∧
          (t.template → BackQuoted source file p value.toList)) ∧
        ∀ n ∈ program.body, ∀ shifts, Reaches .statement n shifts (.string p value) →
          (stringLiteral value).toList <:+: page.script.toList ∧
          stringUnits? (stringLiteral value).toList = some (units value.toList)) ∧
      ∀ p parts, .template p parts ∈ Node.outlineList program.body →
        (∃ pieces, BackQuoted source file p (pieces.flatMap Segment.spelling) ∧
          List.Forall₂ Syntax.Part.Follows parts pieces) ∧
        ∀ n ∈ program.body, Reaches .statement n [] (.template p parts) →
          ∃ codes, List.Forall₂ PartGives parts codes ∧
            (backquoted codes).toList <:+: page.script.toList ∧
            ∀ s code, (.text s, code) ∈ parts.zip codes →
              (templateUnits? code.toList = some (units s.toList) ↔
                '\\' ∉ s.toList ∧ '\r' ∉ s.toList) := by
  have hread := Syntax.grammatical_of_parse h
  have hdrawn := Syntax.readable_of_mem_outline (Syntax.occurs_of_parse h)
  obtain ⟨page, hpage⟩ := toPage_of_grammatical hread title
  refine ⟨page, hpage, fun t ht hliteral => reached_or_lost hread ht hliteral,
    fun p value hmem => ?_, fun p parts hmem => ?_⟩
  · obtain ⟨pos, hpos, -⟩ := hdrawn _ hmem
    exact ⟨string_occurs hpos, fun n hn shifts hreaches =>
      ⟨string_in_script hpage hn hreaches, stringUnits?_stringLiteral value⟩⟩
  · obtain ⟨pos, hpos, -⟩ := hdrawn _ hmem
    refine ⟨template_occurs hpos, fun n hn hreaches => ?_⟩
    obtain ⟨codes, hcodes, hscript⟩ := template_in_script hpage hn hreaches
    refine ⟨codes, hcodes, hscript, fun s code hpair => ?_⟩
    obtain rfl : code = breakClosings s := (List.forall₂_iff_zip.mp hcodes).2 hpair
    exact templateUnits?_breakClosings s

/-- A backslash and a letter between back quotes are read as a line feed. -/
theorem backquoted_values_escape :
    ∃ program page p parts codes s code,
      Program.parse "let s = \x60a\\n$\x7bx\x7d\x60" "main" = .ok program ∧
      .template p parts ∈ Node.outlineList program.body ∧ program.toPage "t" = .ok page ∧
      (backquoted codes).toList <:+: page.script.toList ∧ (.text s, code) ∈ parts.zip codes ∧
      templateUnits? code.toList ≠ some (units s.toList) := by
  have hfacts : ((Program.parse "let s = \x60a\\n$\x7bx\x7d\x60" "main").toOption.map fun program =>
      program.body.head?.bind boundText?) = some (some "a\\n") := by
    decide +kernel
  obtain ⟨program, hparse, hfacts⟩ := exists_of_toOption hfacts
  obtain ⟨n, hhead, hn⟩ := Option.bind_eq_some_iff.mp hfacts
  have hmem := List.mem_of_head? hhead
  obtain ⟨p, name, mutable, written, q, parts, rfl⟩ := eq_binding_of_boundText? hn
  have ht := Node.mem_outlineList.mpr ⟨_, hmem,
    Node.mem_outline_of_part List.mem_cons_self (Node.mem_outline_self _)⟩
  obtain ⟨page, hpage, -, -, hall⟩ := backquoted_values hparse "t"
  obtain ⟨codes, hcodes, hscript, htexts⟩ :=
    (hall q _ ht).2 _ hmem (.inside (i := ⟨[], .expression, _⟩) List.mem_cons_self (.here _))
  cases hcodes with
  | @cons _ code _ codes _ _ =>
    refine ⟨program, page, q, _, _, "a\\n", code, hparse, ht, hpage, hscript, List.mem_cons_self,
      fun hvalue => ?_⟩
    exact ((htexts _ code List.mem_cons_self).mp hvalue).1 (by decide)

end UiScript.Program
