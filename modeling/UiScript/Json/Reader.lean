import UiScript.Number.Numeral
import UiScript.Value.Basic

/-!
# Reading JSON

A document is one value between blanks. Errors name their cause and the place where reading stopped.
Besides the standard the reader takes `NaN`, `Infinity` and `-Infinity`.
-/

namespace UiScript.Json

open Text (hexValue?)

/-- What is wrong with a document. -/
inductive Cause where
  | byteOrderMark
  | extraData
  | value
  | propertyName
  | colon
  | comma
  | unterminatedString
  | controlCharacter
  | escape
  | unicodeEscape
  deriving DecidableEq, Inhabited

def Cause.message : Cause → String
  | .byteOrderMark => "Unexpected UTF-8 BOM (decode using utf-8-sig)"
  | .extraData => "Extra data"
  | .value => "Expecting value"
  | .propertyName => "Expecting property name enclosed in double quotes"
  | .colon => "Expecting ':' delimiter"
  | .comma => "Expecting ',' delimiter"
  | .unterminatedString => "Unterminated string starting at"
  | .controlCharacter => "Invalid control character at"
  | .escape => "Invalid \\escape"
  | .unicodeEscape => "Invalid \\uXXXX escape"

/-- Why a document cannot be read: its form is wrong at an offset, or a numeral is too long. -/
inductive ReadError where
  | malformed (cause : Cause) (offset : Nat)
  | numeral (error : NumeralError)
  deriving DecidableEq, Inhabited

def lineColumn (text : List Char) (offset : Nat) : Nat × Nat :=
  let before := text.take offset
  let line := before.count '\n' + 1
  let column := (before.reverse.takeWhile (· != '\n')).length + 1
  (line, column)

def placedMessage (text : List Char) (cause : Cause) (offset : Nat) : String :=
  let (line, column) := lineColumn text offset
  s!"{cause.message}: line {line} column {column} (char {offset})"

/-- What is left of a document, and how much was read. -/
structure Cursor where
  offset : Nat
  rest : List Char

namespace Cursor

/-- Moves over the first `n` characters. -/
def skip (c : Cursor) (n : Nat) : Cursor := ⟨c.offset + n, c.rest.drop n⟩

def isSpace (c : Char) : Bool := c == ' ' || c == '\t' || c == '\n' || c == '\r'

/-- Moves over blanks. -/
def skipSpace (c : Cursor) : Cursor := c.skip (c.rest.takeWhile isSpace).length

end Cursor

/-- The UTF-16 unit written by the first four characters. -/
def unit? (cs : List Char) : Option Nat :=
  match cs.take 4 with
  | [a, b, c, d] => do
    return ((← hexValue? a) * 16 + (← hexValue? b)) * 256 + (← hexValue? c) * 16 + (← hexValue? d)
  | _ => none

def isHighSurrogate (n : Nat) : Bool := 0xD800 ≤ n && n < 0xDC00

def isLowSurrogate (n : Nat) : Bool := 0xDC00 ≤ n && n < 0xE000

/-- The character of a unit; half a surrogate pair stands for the replacement character. -/
def unitChar (n : Nat) : Char :=
  if isHighSurrogate n || isLowSurrogate n then '\ufffd' else Char.ofNat n

def pairChar (high low : Nat) : Char :=
  Char.ofNat (0x10000 + (high - 0xD800) * 0x400 + (low - 0xDC00))

/-- The character that a letter after a backslash stands for. -/
def escapeChar? : Char → Option Char
  | '"' => some '"'
  | '\\' => some '\\'
  | '/' => some '/'
  | 'b' => some '\x08'
  | 'f' => some '\x0c'
  | 'n' => some '\n'
  | 'r' => some '\r'
  | 't' => some '\t'
  | _ => none

/-- Reads the code after `\u`, which stands at `offset`; the result has the number of characters
used after the `u`. Four digits must be followed by at least one more character. -/
def readCode (offset : Nat) (cs : List Char) : Except ReadError (Char × Nat) :=
  if cs.length < 5 then .error (.malformed .unicodeEscape offset)
  else
    match unit? cs with
    | none => .error (.malformed .unicodeEscape offset)
    | some high =>
      match cs.drop 4 with
      | '\\' :: 'u' :: more =>
        if isHighSurrogate high && 5 ≤ more.length then
          match unit? more with
          | none => .error (.malformed .unicodeEscape (offset + 6))
          | some low =>
            if isLowSurrogate low then .ok (pairChar high low, 10) else .ok (unitChar high, 4)
        else .ok (unitChar high, 4)
      | _ => .ok (unitChar high, 4)

/-- Reads the characters of a string up to its closing quote. `start` is where the string began,
`acc` what was read, last first. -/
def readString (start : Nat) : Nat → Cursor → List Char → Except ReadError (String × Cursor)
  | 0, _, _ => .error (.malformed .unterminatedString start)
  | fuel + 1, cur, acc =>
    match cur.rest with
    | [] => .error (.malformed .unterminatedString start)
    | '"' :: _ => .ok (String.ofList acc.reverse, cur.skip 1)
    | ['\\'] => .error (.malformed .unterminatedString start)
    | '\\' :: 'u' :: cs => do
      let (c, used) ← readCode (cur.offset + 1) cs
      readString start fuel (cur.skip (2 + used)) (c :: acc)
    | '\\' :: e :: _ =>
      match escapeChar? e with
      | some c => readString start fuel (cur.skip 2) (c :: acc)
      | none => .error (.malformed .escape cur.offset)
    | c :: _ =>
      if c < ' ' then .error (.malformed .controlCharacter cur.offset)
      else readString start fuel (cur.skip 1) (c :: acc)

/-- The integer part of a number in front: a zero, or digits that do not start with one. -/
def wholePart : List Char → List Char
  | '0' :: _ => ['0']
  | cs => cs.takeWhile Text.isAsciiDigit

/-- The fraction in front, with its point, if a digit follows the point. -/
def fractionPart : List Char → List Char
  | '.' :: cs =>
    match cs.takeWhile Text.isAsciiDigit with
    | [] => []
    | ds => '.' :: ds
  | _ => []

/-- The exponent in front, if a digit follows its mark and sign. -/
def exponentPart : List Char → List Char
  | e :: cs =>
    if e == 'e' || e == 'E' then
      let mark := match cs with
        | '+' :: _ => ['+']
        | '-' :: _ => ['-']
        | _ => []
      match (cs.drop mark.length).takeWhile Text.isAsciiDigit with
      | [] => []
      | ds => e :: mark ++ ds
    else []
  | [] => []

def readNumber (cur : Cursor) : Except ReadError (Value × Cursor) :=
  let mark := match cur.rest with
    | '-' :: _ => ['-']
    | _ => []
  let cs := cur.rest.drop mark.length
  let whole := wholePart cs
  if whole.isEmpty then .error (.malformed .value cur.offset)
  else
    let fraction := fractionPart (cs.drop whole.length)
    let exponent := exponentPart (cs.drop (whole.length + fraction.length))
    let text := String.ofList (mark ++ whole ++ fraction ++ exponent)
    let next := cur.skip (mark.length + whole.length + fraction.length + exponent.length)
    let read :=
      if fraction.isEmpty && exponent.isEmpty then (Numeral.readInteger text).map Value.int
      else (Numeral.readFloat text).map Value.float
    match read with
    | .ok v => .ok (v, next)
    | .error e => .error (.numeral e)

def words : List (String × Value) := [
  ("null", .null), ("true", .bool true), ("false", .bool false), ("NaN", .nan (.given [])),
  ("Infinity", .float (.infinite false)), ("-Infinity", .float (.infinite true))]

/-- Reads a word or a number in front. -/
def readScalar (cur : Cursor) : Except ReadError (Value × Cursor) :=
  match words.find? fun (word, _) => word.toList.isPrefixOf cur.rest with
  | some (word, v) => .ok (v, cur.skip word.length)
  | none => readNumber cur

mutual

def readValue : Nat → Cursor → Except ReadError (Value × Cursor)
  | 0, cur => .error (.malformed .value cur.offset)
  | fuel + 1, cur =>
    match cur.rest with
    | '"' :: cs => do
      let (s, next) ← readString cur.offset (cs.length + 1) (cur.skip 1) []
      return (.str s, next)
    | '[' :: _ =>
      let next := (cur.skip 1).skipSpace
      match next.rest with
      | ']' :: _ => .ok (.list [], next.skip 1)
      | _ => readItems fuel next []
    | '\x7b' :: _ =>
      let next := (cur.skip 1).skipSpace
      match next.rest with
      | '\x7d' :: _ => .ok (.dict [], next.skip 1)
      | _ => readEntries fuel next []
    | _ => readScalar cur

def readItems : Nat → Cursor → List Value → Except ReadError (Value × Cursor)
  | 0, cur, _ => .error (.malformed .value cur.offset)
  | fuel + 1, cur, acc => do
    let (v, next) ← readValue fuel cur
    let next := next.skipSpace
    match next.rest with
    | ']' :: _ => return (.list (v :: acc).reverse, next.skip 1)
    | ',' :: _ => readItems fuel (next.skip 1).skipSpace (v :: acc)
    | _ => throw (.malformed .comma next.offset)

/-- Reads the entries of a dictionary, of which at least one is to come. -/
def readEntries : Nat → Cursor → List (String × Value) → Except ReadError (Value × Cursor)
  | 0, cur, _ => .error (.malformed .value cur.offset)
  | fuel + 1, cur, acc =>
    match cur.rest with
    | '"' :: cs => do
      let (key, next) ← readString cur.offset (cs.length + 1) (cur.skip 1) []
      let next := next.skipSpace
      match next.rest with
      | ':' :: _ =>
        let (v, next) ← readValue fuel (next.skip 1).skipSpace
        let next := next.skipSpace
        match next.rest with
        | '\x7d' :: _ => return (.dict (Dict.ofEntries ((key, v) :: acc).reverse), next.skip 1)
        | ',' :: _ => readEntries fuel (next.skip 1).skipSpace ((key, v) :: acc)
        | _ => throw (.malformed .comma next.offset)
      | _ => throw (.malformed .colon next.offset)
    | _ => .error (.malformed .propertyName cur.offset)

end

def read (text : List Char) : Except ReadError Value :=
  match text with
  | '\ufeff' :: _ => .error (.malformed .byteOrderMark 0)
  | _ => do
    let (v, next) ← readValue (2 * text.length + 2) (Cursor.skipSpace ⟨0, text⟩)
    let next := next.skipSpace
    if next.rest.isEmpty then return v else throw (.malformed .extraData next.offset)

end UiScript.Json
