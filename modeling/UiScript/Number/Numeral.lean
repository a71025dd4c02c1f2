import UiScript.Number.Basic
import UiScript.Text.Blank
import UiScript.Text.Digit
import UiScript.Text.Quoted

/-!
# Numerals

Reading integers and floating point numbers from text. Blanks around a numeral are dropped, digits
of all scripts count, and single underscores may stand between digits.
-/

namespace UiScript

inductive NumeralError where
  | notInteger (base : Nat) (text : String)
  | notFloat (text : String)
  | tooManyDigits (count : Nat)
  deriving DecidableEq, Inhabited

def NumeralError.message : NumeralError → String
  | .notInteger base text =>
    s!"invalid literal for int() with base {base}: " ++
      String.ofList ((Text.quoted text).toList.take 200)
  | .notFloat text => "could not convert string to float: " ++ Text.quoted text
  | .tooManyDigits count =>
    s!"Exceeds the limit ({maxIntegerDigits} digits) for integer string conversion: " ++
      s!"value has {count} digits; " ++ digitLimitHint

namespace Numeral

def isEdgeBlank (c : Char) : Bool := c == ' ' || ('\t' ≤ c && c ≤ '\r')

/-- A character of a numeral in ASCII: other scripts' digits and blanks become ASCII ones, and what
no numeral holds becomes a question mark. -/
def toAscii (c : Char) : Char :=
  if c.toNat < 127 then c
  else if Text.isBlank c then ' '
  else
    match Text.digitValue? c with
    | some d => Char.ofNat ('0'.toNat + d)
    | none => '?'

def core (text : String) : List Char := Text.trimBy isEdgeBlank (text.toList.map toAscii)

/-- A sign in front and the rest. -/
def sign : List Char → Bool × List Char
  | '-' :: cs => (true, cs)
  | '+' :: cs => (false, cs)
  | cs => (false, cs)

/-- The natural number with the given decimal digits. -/
def natOfDigits (ds : List Char) : Nat :=
  ds.foldl (fun n d => 10 * n + (d.toNat - '0'.toNat)) 0

/-- Drops the underscores, each of which must stand between two digits. -/
def dropUnderscores : Option Char → List Char → Option (List Char)
  | _, [] => some []
  | before, '_' :: cs =>
    let between := before.any Text.isAsciiDigit && cs.head?.any Text.isAsciiDigit
    if between then dropUnderscores none cs else none
  | _, c :: cs => (dropUnderscores (some c) cs).map (c :: ·)

/-- A run of digits with underscores in front, and what follows it; `none` if an underscore
stands alone. -/
def digitRun (cs : List Char) : Option (List Char × List Char) :=
  let member (c : Char) : Bool := Text.isAsciiDigit c || c == '_'
  match dropUnderscores none (cs.takeWhile member) with
  | some ds => some (ds, cs.dropWhile member)
  | none => none

def readInteger (text : String) : Except NumeralError Int :=
  let (negative, cs) := sign (core text)
  match digitRun cs with
  | none => .error (.notInteger 10 text)
  | some (ds, rest) =>
    if maxIntegerDigits < ds.length then .error (.tooManyDigits ds.length)
    else if ds.isEmpty || !rest.isEmpty then .error (.notInteger 10 text)
    else .ok (Binary64.signed negative (natOfDigits ds))

/-- The letter behind a zero that tells the base of a numeral. -/
def baseLetter? : Nat → Option Char
  | 2 => some 'b'
  | 8 => some 'o'
  | 16 => some 'x'
  | _ => none

/-- The natural number that some digits write to a base; `none` if one of them is no digit. -/
def natTo? (base : Nat) (ds : List Char) : Option Nat :=
  ds.foldlM (fun n c => do
    let d ← Text.hexValue? c
    if d < base then some (n * base + d) else none) 0

/-- Reads an integer to a base of two, eight or sixteen, without underscores. There is no limit on
its digits. -/
def readIntegerTo (base : Nat) (text : String) : Except NumeralError Int :=
  let (negative, cs) := sign (core text)
  let ds :=
    match cs with
    | '0' :: c :: rest => if baseLetter? base == some c.toLower then rest else cs
    | _ => cs
  match if ds.isEmpty then none else natTo? base ds with
  | some n => .ok (Binary64.signed negative n)
  | none => .error (.notInteger base text)

/-- A decimal exponent that fills the rest of the text. -/
def readExponent : List Char → Option Int
  | [] => some 0
  | e :: cs =>
    if e == 'e' || e == 'E' then
      let (negative, ds) := sign cs
      if ds.isEmpty || !ds.all Text.isAsciiDigit then none
      else some (Binary64.signed negative (natOfDigits ds))
    else none

/-- An unsigned decimal: digits with at most one point among or beside them, then an exponent. -/
def readDecimal (negative : Bool) (cs : List Char) : Option Binary64 :=
  let whole := cs.takeWhile Text.isAsciiDigit
  let rest := cs.dropWhile Text.isAsciiDigit
  let (fraction, rest) :=
    match rest with
    | '.' :: after => (after.takeWhile Text.isAsciiDigit, after.dropWhile Text.isAsciiDigit)
    | _ => ([], rest)
  if whole.isEmpty && fraction.isEmpty then none
  else
    (readExponent rest).map fun e =>
      Binary64.ofDecimal negative (natOfDigits (whole ++ fraction)) (e - fraction.length)

def readFloat (text : String) : Except NumeralError Binary64 :=
  let read : Option Binary64 := do
    let cs ← dropUnderscores none (core text)
    let (negative, cs) := sign cs
    let name := String.ofList (cs.map Char.toLower)
    if name == "inf" || name == "infinity" then return .infinite negative
    else if name == "nan" then return .nan
    else readDecimal negative cs
  match read with
  | some x => .ok x
  | none => .error (.notFloat text)

/-- Reads the text of a number in a program: a floating point number if it has a point. -/
def readNumber (text : String) : Except NumeralError Number :=
  if text.toList.contains '.' then (readFloat text).map Number.float
  else (readInteger text).map Number.int

end Numeral

end UiScript
