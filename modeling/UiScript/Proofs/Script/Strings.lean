import Mathlib.Tactic.Common
import UiScript.Json.Reader
import UiScript.Script.Text

/-!
# String literals

What a string literal denotes is said by its grammar: a character stands for itself, or it is
written behind a backslash by a letter; other control characters are written by their code. The
literal of a string denotes the string, also where a closing mark of markup was broken in it, so
every reader of the grammar reads it back.
-/

namespace UiScript.Json

/-- The rest of a string literal, its closing quote included, and the characters that it denotes. -/
inductive Denotes : List Char → List Char → Prop
  | close : Denotes ['"'] []
  | plain {c : Char} {body cs : List Char} (hc : ' ' ≤ c) (hquote : c ≠ '"') (hback : c ≠ '\\')
      (h : Denotes body cs) : Denotes (c :: body) (c :: cs)
  | escape {letter c : Char} {body cs : List Char} (hc : escapeChar? letter = some c)
      (h : Denotes body cs) : Denotes ('\\' :: letter :: body) (c :: cs)
  | code {c : Char} {digits body cs : List Char} (hcontrol : c < ' ')
      (hshort : shortEscape? c = none) (hdigits : digits.length = 4)
      (hc : unit? digits = some c.toNat) (h : Denotes body cs) :
      Denotes ('\\' :: 'u' :: digits ++ body) (c :: cs)

end UiScript.Json

namespace UiScript.Script

open Json (Denotes stringChar)

open Text (interpose hex)

/-! ### Breaking closing marks -/

variable {c : Char}

lemma interpose_cons (h : c ≠ '<') (cs : List Char) :
    interpose '<' '\\' '/' (c :: cs) = c :: interpose '<' '\\' '/' cs := by
  cases cs with
  | nil => rfl
  | cons => simp [interpose, h]

lemma interpose_append {cs : List Char} (h : '<' ∉ cs) (ds : List Char) :
    interpose '<' '\\' '/' (cs ++ ds) = cs ++ interpose '<' '\\' '/' ds := by
  induction cs with
  | nil => rfl
  | cons c cs ih =>
    obtain ⟨hc, hcs⟩ := not_or.mp (List.mem_cons.not.mp h)
    rw [List.cons_append, interpose_cons (Ne.symm hc), ih hcs, List.cons_append]

/-! ### Characters of strings -/

def quotedBody (cs : List Char) : List Char :=
  interpose '<' '\\' '/' (cs.flatMap (stringChar fun c => ' ' ≤ c) ++ ['"'])

lemma stringLiteral_toList (s : String) :
    (stringLiteral s).toList = '"' :: quotedBody s.toList := by
  simp only [stringLiteral, breakClosings, Json.wideString, Json.stringWith,
    String.toList_ofList, List.cons_append]
  exact interpose_cons (by decide) _

lemma quotedBody_cons (c : Char) (cs : List Char) :
    quotedBody (c :: cs) = interpose '<' '\\' '/'
      (stringChar (fun c => ' ' ≤ c) c ++
        (cs.flatMap (stringChar fun c => ' ' ≤ c) ++ ['"'])) := by
  rw [quotedBody, List.flatMap_cons, List.append_assoc]

/-- A closing mark of markup is broken, and nothing else is added. -/
lemma quotedBody_plain (h : stringChar (fun c => ' ' ≤ c) c = [c]) (cs : List Char) :
    quotedBody (c :: cs) = c :: quotedBody cs ∨
      ∃ ys, quotedBody cs = '/' :: ys ∧ quotedBody (c :: cs) = c :: '\\' :: '/' :: ys := by
  rw [quotedBody_cons, h, List.singleton_append, quotedBody]
  cases hw : cs.flatMap (stringChar fun c => ' ' ≤ c) ++ ['"'] with
  | nil => simp at hw
  | cons d ds =>
    by_cases hclose : c = '<' ∧ d = '/'
    · obtain ⟨rfl, rfl⟩ := hclose
      have htail := interpose_cons (c := '/') (by decide) ds
      exact Or.inr ⟨_, htail, by rw [interpose, htail]; rfl⟩
    · exact Or.inl (by rw [interpose]; simp [hclose])

/-- The escapes of single characters denote them, and no mark of markup is among their letters. -/
lemma escapeChar?_of_shortEscape {letter : Char} (h : Json.shortEscape? c = some letter) :
    Json.escapeChar? letter = some c ∧ letter ≠ '<' := by
  unfold Json.shortEscape? at h
  split at h
  case h_8 => cases h
  all_goals
    obtain rfl := Option.some.inj h
    decide

/-- The code of a control character is read as that character. -/
lemma unit?_hex : ∀ n < 32, (hex 4 n).length = 4 ∧ Json.unit? (hex 4 n) = some n ∧
    '<' ∉ hex 4 n := by
  decide

lemma stringChar_control (hshort : Json.shortEscape? c = none) (hlt : c.toNat < 32) :
    stringChar (fun c => ' ' ≤ c) c = '\\' :: 'u' :: hex 4 c.toNat := by
  have hplain : ¬ ' ' ≤ c := Char.not_le.mpr (UInt32.lt_iff_toNat_lt.mpr hlt)
  have hunit : c.toNat < 0x10000 := Nat.lt_trans hlt (by decide)
  rw [stringChar, hshort, Json.codeEscape]
  simp only [hplain, decide_false, Bool.false_eq_true, if_false, hunit, if_true]
  rfl

/-- A string that is written denotes itself. -/
lemma denotes_quotedBody (cs : List Char) : Denotes (quotedBody cs) cs := by
  induction cs with
  | nil => exact .close
  | cons c cs ih =>
    cases hshort : Json.shortEscape? c with
    | some letter =>
      obtain ⟨hletter, hne⟩ := escapeChar?_of_shortEscape hshort
      have hbody : quotedBody (c :: cs) = '\\' :: letter :: quotedBody cs := by
        rw [quotedBody_cons, stringChar, hshort]
        have hmem : '<' ∉ ['\\', letter] := by simpa using hne.symm
        exact interpose_append hmem _
      exact hbody ▸ .escape hletter ih
    | none =>
      by_cases hplain : ' ' ≤ c
      · have hchar : stringChar (fun c => ' ' ≤ c) c = [c] := by
          simp [stringChar, hshort, hplain]
        have hquote : c ≠ '"' := by rintro rfl; cases hshort
        have hback : c ≠ '\\' := by rintro rfl; cases hshort
        rcases quotedBody_plain hchar cs with hbody | ⟨ys, hys, hbody⟩
        · exact hbody ▸ .plain hplain hquote hback ih
        · -- a closing mark of markup was broken, and its slash is escaped now
          rw [hys] at ih
          rw [hbody]
          cases ih with
          | plain _ _ _ h => exact .plain hplain hquote hback (.escape rfl h)
      · have hcontrol : c < ' ' := Char.not_le.mp hplain
        have hlt : c.toNat < 32 := UInt32.lt_iff_toNat_lt.mp hcontrol
        obtain ⟨hlength, hunit, hmem⟩ := unit?_hex c.toNat hlt
        have hbody : quotedBody (c :: cs) = '\\' :: 'u' :: hex 4 c.toNat ++ quotedBody cs := by
          rw [quotedBody_cons, stringChar_control hshort hlt]
          exact interpose_append (by simpa using hmem) _
        exact hbody ▸ .code hcontrol hshort hlength hunit ih

end UiScript.Script

namespace UiScript.Json

open List

/-! ### Reading literals -/

variable {cs body : List Char}

lemma Denotes.ne_nil (h : Denotes body cs) : body ≠ [] := by
  cases h <;> simp

lemma readString_plain {c : Char} (hc : ' ' ≤ c) (hquote : c ≠ '"') (hback : c ≠ '\\')
    (start fuel offset : Nat) (cs acc : List Char) :
    readString start (fuel + 1) ⟨offset, c :: cs⟩ acc =
      readString start fuel ⟨offset + 1, cs⟩ (c :: acc) := by
  rw [readString]
  split
  case h_6 d ds _ _ _ _ heq =>
    obtain ⟨rfl, rfl⟩ := List.cons.inj heq
    rw [if_neg (Char.not_lt.mpr hc)]
    rfl
  all_goals simp_all

lemma readString_escape {letter c : Char} (hc : escapeChar? letter = some c)
    (start fuel offset : Nat) (cs acc : List Char) :
    readString start (fuel + 1) ⟨offset, '\\' :: letter :: cs⟩ acc =
      readString start fuel ⟨offset + 2, cs⟩ (c :: acc) := by
  unfold escapeChar? at hc
  split at hc
  case h_9 => cases hc
  all_goals
    obtain rfl := Option.some.inj hc
    rfl

/-- A character is no half of a pair of units. -/
lemma isHighSurrogate_toNat (c : Char) :
    isHighSurrogate c.toNat = false ∧ isLowSurrogate c.toNat = false := by
  have hvalid : c.toNat < 0xD800 ∨ 0xDFFF < c.toNat ∧ c.toNat < 0x110000 := c.valid
  simp only [isHighSurrogate, isLowSurrogate, Bool.and_eq_false_iff, decide_eq_false_iff_not]
  omega

lemma readCode_unit {c : Char} {digits rest : List Char} (hdigits : digits.length = 4)
    (hc : unit? digits = some c.toNat) (hrest : rest ≠ []) (offset : Nat) :
    readCode offset (digits ++ rest) = .ok (c, 4) := by
  obtain ⟨hhigh, hlow⟩ := isHighSurrogate_toNat c
  have hlength : ¬ (digits ++ rest).length < 5 := by
    have := length_pos_iff.mpr hrest
    simp only [length_append, hdigits]
    omega
  have hunit : unit? (digits ++ rest) = some c.toNat := by
    rw [← hc, unit?, unit?, ← hdigits, take_left, take_length]
  have hchar : unitChar c.toNat = c := by simp [unitChar, hhigh, hlow]
  rw [readCode, if_neg hlength, hunit]
  simp only [hhigh, hchar, Bool.false_and, Bool.false_eq_true, if_false]
  split <;> rfl

lemma readString_code {c : Char} {digits rest : List Char} (hdigits : digits.length = 4)
    (hc : unit? digits = some c.toNat) (hrest : rest ≠ []) (start fuel offset : Nat)
    (acc : List Char) :
    readString start (fuel + 1) ⟨offset, '\\' :: 'u' :: digits ++ rest⟩ acc =
      readString start fuel ⟨offset + 6, rest⟩ (c :: acc) := by
  have hdrop : (digits ++ rest).drop 4 = rest := by rw [← hdigits, drop_left]
  change (readCode (offset + 1) (digits ++ rest)).bind _ = _
  rw [readCode_unit hdigits hc hrest (offset + 1)]
  change readString start fuel ⟨offset + 6, (digits ++ rest).drop 4⟩ (c :: acc) = _
  rw [hdrop]

lemma readString_of_denotes (h : Denotes body cs) (rest : List Char)
    (start fuel offset : Nat) (hfuel : body.length ≤ fuel) (acc : List Char) :
    readString start fuel ⟨offset, body ++ rest⟩ acc =
      .ok (String.ofList (acc.reverse ++ cs), ⟨offset + body.length, rest⟩) := by
  induction h generalizing fuel offset acc with
  | close =>
    obtain ⟨fuel, rfl⟩ := Nat.exists_eq_add_of_le' hfuel
    simp [readString, Cursor.skip]
  | @plain c body cs hc hquote hback _ ih =>
    have hoffset : offset + 1 + body.length = offset + (body.length + 1) := by omega
    rw [length_cons] at hfuel ⊢
    obtain ⟨fuel, rfl⟩ := Nat.exists_eq_add_one_of_ne_zero (Nat.ne_zero_of_lt hfuel)
    rw [cons_append, readString_plain hc hquote hback, ih _ _ (by omega), hoffset]
    simp
  | @escape letter c body cs hc _ ih =>
    have hoffset : offset + 2 + body.length = offset + (body.length + 1 + 1) := by omega
    rw [length_cons, length_cons] at hfuel ⊢
    obtain ⟨fuel, rfl⟩ := Nat.exists_eq_add_one_of_ne_zero (Nat.ne_zero_of_lt hfuel)
    rw [cons_append, cons_append, readString_escape hc, ih _ _ (by omega), hoffset]
    simp
  | @code c digits body cs _ _ hdigits hc hbody ih =>
    have hlength : ('\\' :: 'u' :: digits ++ body).length = body.length + 6 := by
      rw [length_append, length_cons, length_cons, hdigits, Nat.add_comm]
    have hoffset : offset + 6 + body.length = offset + (body.length + 6) := by omega
    have hrest : body ++ rest ≠ [] := by simp [hbody.ne_nil]
    rw [hlength] at hfuel ⊢
    obtain ⟨fuel, rfl⟩ := Nat.exists_eq_add_one_of_ne_zero (Nat.ne_zero_of_lt hfuel)
    rw [append_assoc, readString_code hdigits hc hrest, ih _ _ (by omega), hoffset]
    simp

lemma read_of_denotes (h : Denotes body cs) :
    read ('"' :: body) = .ok (.str (String.ofList cs)) := by
  have hread := readString_of_denotes h [] 0 (body.length + 1) 1 (by omega) []
  rw [append_nil] at hread
  have hvalue (fuel : Nat) : readValue (fuel + 1) ⟨0, '"' :: body⟩ =
      .ok (.str (String.ofList cs), ⟨1 + body.length, []⟩) := by
    change (readString 0 (body.length + 1) ⟨1, body⟩ []).bind _ = _
    rw [hread]
    rfl
  change (readValue (2 * (body.length + 1) + 2) ⟨0, '"' :: body⟩).bind _ = _
  rw [hvalue]
  rfl

end UiScript.Json
