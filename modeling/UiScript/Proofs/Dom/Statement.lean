import UiScript.Json.Reader
import UiScript.Proofs.Dom.Document
import UiScript.Proofs.Token.Spelling

/-!
# Statements that build documents

The statements that build markup are read from their text. A statement is a row of words, string
literals and marks, and has one of five forms, each of which stands for an operation. A string that
was written as a literal is read as it was, whatever characters it has.
-/

namespace UiScript.Dom

open Script (isKeyStart isKeyChar)

/-! ### String literals -/

/-- The character that another one stands for after a backslash. Escapes by a code and line
continuations are not among these. -/
def escapeChar? (c : Char) : Option Char :=
  match c with
  | 'b' => some '\x08'
  | 't' => some '\t'
  | 'n' => some '\n'
  | 'v' => some '\x0b'
  | 'f' => some '\x0c'
  | 'r' => some '\r'
  | 'x' | 'u' | '\n' | '\r' | ' ' | ' ' => none
  | c => if Text.isAsciiDigit c then none else some c

def unitChar? (n : Nat) : Option Char :=
  if Json.isHighSurrogate n || Json.isLowSurrogate n then none else some (Char.ofNat n)

/-- Reads a string literal up to its closing mark: its value, and what follows it. -/
def quoted? (mark : Char) : List Char → Option (List Char × List Char)
  | [] => none
  | '\\' :: 'u' :: a :: b :: c :: d :: cs => do
    let char ← Json.unit? [a, b, c, d] >>= unitChar?
    Prod.map (char :: ·) id <$> quoted? mark cs
  | '\\' :: c :: cs => do
    let char ← escapeChar? c
    Prod.map (char :: ·) id <$> quoted? mark cs
  | c :: cs =>
    if c == mark then some ([], cs)
    else if c == '\\' || c == '\n' || c == '\r' then none
    else Prod.map (c :: ·) id <$> quoted? mark cs

/-! ### Statements -/

inductive Piece where
  | word (name : String)
  | string (value : String)
  | mark (c : Char)
  deriving DecidableEq

/-- The marks that stand between words and strings. -/
def marks : List Char := ['(', ')', '.', ',', ';', '=']

/-- The pieces of a text; the number bounds how many there are, with the blanks. -/
def pieces : Nat → List Char → Option (List Piece)
  | _, [] => some []
  | 0, _ => none
  | bound + 1, c :: cs =>
    if c == ' ' then pieces bound cs
    else if marks.contains c then (.mark c :: ·) <$> pieces bound cs
    else if isKeyStart c then
      (.word (String.ofList (c :: cs.takeWhile isKeyChar)) :: ·) <$>
        pieces bound (cs.dropWhile isKeyChar)
    else if c == '\'' || c == '"' then do
      let (value, rest) ← quoted? c cs
      (.string (String.ofList value) :: ·) <$> pieces bound rest
    else none

/-- The operation that some pieces stand for. The class of an element is one of its attributes. -/
def operationOf? : List Piece → Option Operation
  | [.word a, .word var, .mark '=', .word b, .mark '.', .word c, .mark '(', .string tag, .mark ')',
      .mark ';'] =>
    if [a, b, c] = ["const", "document", "createElement"] then some (.create var tag) else none
  | [.word var, .mark '.', .word a, .mark '(', .string name, .mark ',', .string value, .mark ')',
      .mark ';'] =>
    if a = "setAttribute" then some (.setAttribute var name value) else none
  | [.word var, .mark '.', .word a, .mark '=', .string value, .mark ';'] =>
    if a = "className" then some (.setAttribute var "class" value) else none
  | [.word var, .mark '.', .word a, .mark '(', .word b, .mark '.', .word c, .mark '(',
      .string value, .mark ')', .mark ')', .mark ';'] =>
    if [a, b, c] = ["appendChild", "document", "createTextNode"] then some (.appendText var value)
    else none
  | [.word var, .mark '.', .word a, .mark '(', .word child, .mark ')', .mark ';'] =>
    if a = "appendChild" then some (.append var child) else none
  | _ => none

def operation? (statement : String) : Option Operation :=
  pieces statement.toList.length statement.toList >>= operationOf?

def Document.run (doc : Document) (statements : List String) : Option Document :=
  statements.foldlM (fun doc statement => operation? statement >>= doc.apply) doc

/-! ### Reading string literals -/

variable {c : Char}

section Quoted

variable {mark : Char} {cs : List Char}

lemma quoted?_escape {char : Char} (h : escapeChar? c = some char) :
    quoted? mark ('\\' :: c :: cs) = Prod.map (char :: ·) id <$> quoted? mark cs := by
  have hu : c ≠ 'u' := by
    rintro rfl
    cases h
  rw [quoted?]
  · simp [h]
  · intro _ _ _ _ _ hc
    exact absurd hc hu

lemma quoted?_code {n : Nat} {digits : List Char} (hlength : digits.length = 4)
    (hunit : Json.unit? digits = some n) (hc : unitChar? n = some c) :
    quoted? mark ('\\' :: 'u' :: digits ++ cs) = Prod.map (c :: ·) id <$> quoted? mark cs := by
  match digits, hlength with
  | [_, _, _, _], _ => simp [quoted?, hunit, hc]

lemma quoted?_plain (h : c ∉ [mark, '\\', '\n', '\r']) :
    quoted? mark (c :: cs) = Prod.map (c :: ·) id <$> quoted? mark cs := by
  obtain ⟨hmark, hback, hfeed, hreturn⟩ : c ≠ mark ∧ c ≠ '\\' ∧ c ≠ '\n' ∧ c ≠ '\r' := by
    simpa using h
  rw [quoted?]
  · simp [hmark, hback, hfeed, hreturn]
  · intro _ _ _ _ _ hc
    exact absurd hc hback
  · intro _ _ hc
    exact absurd hc hback

end Quoted

/-- Every character stands for itself between single quotes. -/
def isQuotable (name : String) : Bool :=
  name.toList.all (· ∉ ['\'', '\\', '\n', '\r'])

lemma quoted?_quotable {name : String} (h : isQuotable name) (rest : List Char) :
    quoted? '\'' (name.toList ++ '\'' :: rest) = some (name.toList, rest) := by
  unfold isQuotable at h
  generalize name.toList = cs at h ⊢
  induction cs with
  | nil => rfl
  | cons c cs ih =>
    obtain ⟨hc, hcs⟩ := Bool.and_eq_true_iff.mp (List.all_cons.symm.trans h)
    rw [List.cons_append, quoted?_plain (of_decide_eq_true hc), ih hcs]
    rfl

/-- The letter of an escape stands for the same character in a script. -/
lemma escapeChar?_of_json {letter : Char} (h : Json.escapeChar? letter = some c) :
    escapeChar? letter = some c := by
  unfold Json.escapeChar? at h
  split at h
  case h_9 => cases h
  all_goals
    obtain rfl := Option.some.inj h
    rfl

lemma unitChar?_toNat (c : Char) : unitChar? c.toNat = some c := by
  simp [unitChar?, Json.isHighSurrogate_toNat c]

def escapeChars : List Char := "\"\\bfnrtu0123456789abcdef".toList

/-- What a character of a string is written as: itself, or an escape. -/
lemma stringChar_spec (c : Char) :
    Json.stringChar (fun c => ' ' ≤ c) c = [c] ∧ ' ' ≤ c ∨
      ∃ ds, Json.stringChar (fun c => ' ' ≤ c) c = '\\' :: ds ∧ ∀ d ∈ ds, d ∈ escapeChars := by
  cases hshort : Json.shortEscape? c with
  | some letter =>
    refine .inr ⟨[letter], by simp [Json.stringChar, hshort], List.forall_mem_singleton.mpr ?_⟩
    unfold Json.shortEscape? at hshort
    split at hshort
    case h_8 => cases hshort
    all_goals
      cases hshort
      decide
  | none =>
    by_cases hplain : ' ' ≤ c
    · exact .inl ⟨by simp [Json.stringChar, hshort, hplain], hplain⟩
    · have hlt : c.toNat < 32 := UInt32.lt_iff_toNat_lt.mp (Char.not_le.mp hplain)
      have hhex : ∀ n < 32, 'u' :: Text.hex 4 n ⊆ escapeChars := by decide
      exact .inr ⟨_, Script.stringChar_control hshort hlt, fun _ hd => hhex c.toNat hlt hd⟩

/-- A literal is read as what it denotes, whatever follows it. -/
lemma quoted?_of_denotes {body cs : List Char} (h : Json.Denotes body cs) (rest : List Char) :
    quoted? '"' (body ++ rest) = some (cs, rest) := by
  induction h with
  | close => rfl
  | @plain c _ _ hc hquote hback _ ih =>
    have hline : c ≠ '\n' ∧ c ≠ '\r' := by
      constructor <;> rintro rfl <;> exact absurd hc (by decide)
    rw [List.cons_append, quoted?_plain (by simp [hquote, hback, hline]), ih]
    rfl
  | escape hletter _ ih =>
    rw [List.cons_append, List.cons_append, quoted?_escape (escapeChar?_of_json hletter), ih]
    rfl
  | @code c _ _ _ _ _ hdigits hc _ ih =>
    rw [List.append_assoc, quoted?_code hdigits hc (unitChar?_toNat c), ih]
    rfl

/-! ### Reading statements -/

def isVariable (name : String) : Bool :=
  match name.toList with
  | [] => false
  | c :: cs => isKeyStart c && cs.all isKeyChar

def Consists (cs : List Char) (ps : List Piece) : Prop :=
  ∀ bound, cs.length ≤ bound → pieces bound cs = some ps

namespace Consists

variable {cs : List Char} {ps : List Piece}

lemma nil : Consists [] [] := by
  intro bound _
  cases bound <;> rfl

/-- What is read before the rest of a text takes up at least one of its characters. -/
lemma of_cons {rest : List Char} {p : List Piece → List Piece}
    (h : ∀ bound, pieces (bound + 1) (c :: cs) = p <$> pieces bound rest)
    (hlength : rest.length ≤ cs.length) (hrest : Consists rest ps) : Consists (c :: cs) (p ps) := by
  intro bound hbound
  obtain ⟨bound, rfl⟩ := Nat.exists_eq_add_one_of_ne_zero (Nat.ne_zero_of_lt hbound)
  rw [h, hrest bound (Nat.le_trans hlength (Nat.le_of_succ_le_succ hbound))]
  rfl

lemma blank (h : Consists cs ps) : Consists (' ' :: cs) ps :=
  of_cons (p := id) (fun bound => by simp [pieces]) (Nat.le_refl _) h

lemma mark (c : Char) (h : Consists cs ps) (hc : marks.contains c) :
    Consists (c :: cs) (.mark c :: ps) := by
  have hblank : c ≠ ' ' := by
    rintro rfl
    cases hc
  exact of_cons (fun bound => by simp [pieces, hblank, List.contains_iff_mem.mp hc])
    (Nat.le_refl _) h

/-- A name, in front of a character that ends it. -/
lemma word (name : String) (hname : isVariable name) (h : Consists (c :: cs) ps)
    (hend : !isKeyChar c) : Consists (name.toList ++ c :: cs) (.word name :: ps) := by
  have hcs : Token.Heads (!isKeyChar ·) (c :: cs) := Token.heads_cons _ hend
  unfold isVariable at hname
  split at hname
  · cases hname
  · rename_i c name' hlist
    obtain ⟨hc, hname'⟩ := Bool.and_eq_true_iff.mp hname
    have hself : String.ofList (c :: name') = name := by rw [← hlist, String.ofList_toList]
    have htake := Token.takeWhile_append_heads hname' hcs
    have hdrop := Token.dropWhile_append_heads hname' hcs
    have hother : c ≠ ' ' ∧ c ∉ marks := by
      constructor
      · rintro rfl
        exact absurd hc (by decide)
      · intro hmem
        have hmarks : marks.all (!isKeyStart ·) := by decide
        simpa [hc] using List.all_eq_true.mp hmarks c hmem
    rw [hlist, List.cons_append]
    refine of_cons (fun bound => ?_) (by simp) h
    simp [pieces, hother, hc, htake, hdrop, hself]

lemma string {m : Char} (hm : m = '\'' ∨ m = '"') {body value : List Char}
    (hbody : quoted? m (body ++ cs) = some (value, cs)) (h : Consists cs ps) :
    Consists (m :: (body ++ cs)) (.string (String.ofList value) :: ps) := by
  have hother : m ≠ ' ' ∧ m ∉ marks ∧ ¬ isKeyStart m := by
    rcases hm with rfl | rfl <;> decide
  refine of_cons (fun bound => ?_) (by simp) h
  simp [pieces, hother, hm, hbody]

lemma quotable (name : String) (hname : isQuotable name) (h : Consists cs ps) :
    Consists ('\'' :: (name.toList ++ '\'' :: cs)) (.string name :: ps) := by
  have hbody : quoted? '\'' (name.toList ++ ['\''] ++ cs) = some (name.toList, cs) := by
    rw [List.append_assoc]
    exact quoted?_quotable hname cs
  simpa using string (.inl rfl) hbody h

lemma literal (s : String) (h : Consists cs ps) :
    Consists ((Script.stringLiteral s).toList ++ cs) (.string s :: ps) := by
  rw [Script.stringLiteral_toList]
  simpa using string (.inr rfl) (quoted?_of_denotes (Script.denotes_quotedBody s.toList) cs) h

lemma member (obj property : String) (hobj : isVariable obj) (h : Consists (c :: cs) ps)
    (hproperty : isVariable property) (hend : !isKeyChar c) :
    Consists (obj.toList ++ '.' :: (property.toList ++ c :: cs))
      (.word obj :: .mark '.' :: .word property :: ps) :=
  word obj hobj ((word property hproperty h hend).mark '.' rfl) rfl

/-- The end of a statement after an opening bracket. -/
lemma closing : Consists [')', ';'] [.mark ')', .mark ';'] := (nil.mark ';' rfl).mark ')' rfl

lemma operation? {statement : String} (h : Consists cs ps) (hcs : statement.toList = cs) :
    Dom.operation? statement = operationOf? ps := by
  subst hcs
  rw [Dom.operation?, h _ (Nat.le_refl _)]
  rfl

end Consists

/-! ### The forms of statements -/

section Forms

variable {var child name tag : String}

section

variable (hvar : isVariable var)
include hvar

lemma operation?_create (htag : isQuotable tag) :
    operation? ("const " ++ var ++ " = document.createElement('" ++ tag ++ "');") =
      some (.create var tag) := by
  have hcall := (Consists.closing.quotable tag htag).mark '(' rfl
  have hdocument := hcall.member "document" "createElement" (by decide) (by decide) rfl
  have hdeclared := (hdocument.blank.mark '=' rfl).blank.word var hvar rfl
  exact (hdeclared.blank.word "const" (by decide) rfl).operation? (by simp)

lemma operation?_setBare (hname : isQuotable name) :
    operation? (var ++ ".setAttribute('" ++ name ++ "', '');") =
      some (.setAttribute var name "") := by
  have hvalue := (Consists.closing.quotable "" (by decide)).blank.mark ',' rfl
  have hcall := (hvalue.quotable name hname).mark '(' rfl
  exact (hcall.member var "setAttribute" hvar (by decide) rfl).operation? (by simp)

lemma operation?_setLiteral (hname : isQuotable name) (value : String) :
    operation? (var ++ ".setAttribute('" ++ name ++ "', " ++ Script.stringLiteral value ++ ");") =
      some (.setAttribute var name value) := by
  have hvalue := (Consists.closing.literal value).blank.mark ',' rfl
  have hcall := (hvalue.quotable name hname).mark '(' rfl
  exact (hcall.member var "setAttribute" hvar (by decide) rfl).operation? (by simp)

lemma operation?_setClass (value : String) :
    operation? (var ++ ".className = " ++ Script.stringLiteral value ++ ";") =
      some (.setAttribute var "class" value) := by
  have hvalue := ((Consists.nil.mark ';' rfl).literal value).blank.mark '=' rfl
  exact (hvalue.blank.member var "className" hvar (by decide) rfl).operation? (by simp)

lemma operation?_appendText (value : String) :
    operation? (var ++ ".appendChild(document.createTextNode(" ++ Script.stringLiteral value ++
      "));") = some (.appendText var value) := by
  have hvalue := ((Consists.closing.mark ')' rfl).literal value).mark '(' rfl
  have hdocument := hvalue.member "document" "createTextNode" (by decide) (by decide) rfl
  have hcall := hdocument.mark '(' rfl
  exact (hcall.member var "appendChild" hvar (by decide) rfl).operation? (by simp)

lemma operation?_append (hchild : isVariable child) :
    operation? (var ++ ".appendChild(" ++ child ++ ");") = some (.append var child) := by
  have hcall := (Consists.closing.word child hchild rfl).mark '(' rfl
  exact (hcall.member var "appendChild" hvar (by decide) rfl).operation? (by simp)

end

end Forms

end UiScript.Dom
