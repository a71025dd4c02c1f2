import UiScript.Yaml.Fault

/-!
# A place in a document

A document is read from a cursor, which knows the line and the column that it stands at. Lines end
at a line feed and at three further characters.
-/

namespace UiScript.Yaml

/-! ### Characters -/

/-- A character that a document may hold. -/
def isAllowed (c : Char) : Bool :=
  let n := c.toNat
  n == 0x09 || n == 0x0A || n == 0x0D || (0x20 ≤ n && n ≤ 0x7E) || n == 0x85 ||
    (0xA0 ≤ n && n ≤ 0xFFFD) || 0x10000 ≤ n

/-- A character that ends a line. -/
def isBreak (c : Char) : Bool := c == '\n' || c == '\u0085' || c == '\u2028' || c == '\u2029'

def isBlank (c : Char) : Bool := c == ' ' || c == '\t'

/-- A blank, a tab or a line end. -/
def isGap (c : Char) : Bool := isBlank c || isBreak c

/-- The mark at the start of a text, which takes no column. -/
def byteOrderMark : Char := '\ufeff'

/-- A letter, a digit, a hyphen or an underscore. -/
def isWordChar (c : Char) : Bool :=
  ('0' ≤ c && c ≤ '9') || ('A' ≤ c && c ≤ 'Z') || ('a' ≤ c && c ≤ 'z') || c == '-' || c == '_'

/-- A character with a meaning of its own inside brackets. -/
def isFlowMark (c : Char) : Bool := c == ',' || c == '[' || c == ']' || c == '\x7b' || c == '\x7d'

/-- The text ends, or goes on with a character of a kind. -/
def endsOr (p : Char → Bool) : List Char → Bool
  | [] => true
  | c :: _ => p c

/-- The text ends, or goes on with a gap. -/
def startsWithGap (cs : List Char) : Bool := endsOr isGap cs

/-- Three equal characters that start or end a document stand here. -/
def startsMarker (mark : Char) : List Char → Bool
  | a :: b :: c :: cs => a == mark && b == mark && c == mark && startsWithGap cs
  | _ => false

/-- A line here would start or end a document. -/
def startsAnyMarker (cs : List Char) : Bool := startsMarker '-' cs || startsMarker '.' cs

/-- A line end as it counts in a text. -/
def unifiedBreak (c : Char) : Char := if c == '\u0085' then '\n' else c

/-- Line ends inside a scalar: a single line feed becomes a blank, and one before others is
dropped. -/
def foldedBreaks (first : Char) (more : List Char) : List Char :=
  if first != '\n' then first :: more else if more.isEmpty then [' '] else more

/-! ### Cursors -/

/-- The text still to be read, and where it starts. -/
structure Cursor where
  rest : List Char
  /-- How many characters were passed. -/
  index : Nat := 0
  line : Nat := 0
  column : Nat := 0
  deriving Inhabited

/-- The cursor behind some characters. -/
def Cursor.drop (s : Cursor) : Nat → Cursor
  | 0 => s
  | n + 1 =>
    match s.rest with
    | [] => s
    | c :: cs =>
      let next : Cursor :=
        if isBreak c then { rest := cs, index := s.index + 1, line := s.line + 1, column := 0 }
        else
          { rest := cs, index := s.index + 1, line := s.line
            column := if c == byteOrderMark then s.column else s.column + 1 }
      next.drop n

/-- A part of a document is read, or has a fault. -/
abbrev Scan := StateT Cursor (Except Fault)

namespace Scan

def malformed {α : Type} : Scan α := throw .malformed

def skip (n : Nat) : Scan Unit := modify (·.drop n)

def peek? : Scan (Option Char) := return (← get).rest.head?

/-- Goes on to a later part of the text. -/
def goTo (rest : List Char) : Scan Unit := do skip ((← get).rest.length - rest.length)

/-- Takes characters of a kind. -/
def takeWhile (p : Char → Bool) : Scan (List Char) := do
  let cs := (← get).rest.takeWhile p
  skip cs.length
  return cs

def skipWhile (p : Char → Bool) : Scan Unit := do let _ ← takeWhile p

def skipBlanks : Scan Unit := skipWhile (· == ' ')

def expect (c : Char) : Scan Unit := do
  if (← peek?) == some c then skip 1 else malformed

/-- The text must end here or go on with a character of a kind. -/
def expectEndOr (p : Char → Bool) : Scan Unit := do
  if !endsOr p (← get).rest then malformed

/-- Takes a line end, if one stands here. -/
def lineBreak? : Scan (Option Char) := do
  match ← peek? with
  | some c =>
    if isBreak c then
      skip 1
      return some (unifiedBreak c)
    else return none
  | none => return none

/-- Passes over a comment. -/
def skipComment : Scan Unit := do
  if (← peek?) == some '#' then skipWhile (!isBreak ·)

/-- Passes over the rest of a line, which may hold a comment only. -/
def endLine : Scan Unit := do
  skipBlanks
  skipComment
  expectEndOr isBreak
  let _ ← lineBreak?

end Scan

end UiScript.Yaml
