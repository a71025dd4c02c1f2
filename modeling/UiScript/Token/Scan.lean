import UiScript.Text.Digit
import UiScript.Token.Basic

/-!
# Cutting a source into pieces

A source is cut from left to right into gaps (blanks and comments) and lexemes. Each piece keeps its
exact text, so that the pieces of a source always make it up again, and the place of a token follows
from the texts before it.
-/

namespace UiScript.Token

/-- What no piece can start with. -/
inductive Fault where
  | unterminatedComment
  | unterminatedString
  | unterminatedTemplate
  | unexpected (c : Char)
  deriving DecidableEq, Inhabited

def Fault.message : Fault → String
  | .unterminatedComment => "Unterminated block comment"
  | .unterminatedString => "Unterminated string literal"
  | .unterminatedTemplate => "Unterminated template string"
  | .unexpected c => s!"Unexpected character '{c}'"

inductive Lexeme where
  | gap
  | token (kind : Kind) (value : String) (template : Bool)
  deriving DecidableEq, Inhabited

/-- A piece of a source with its exact text. -/
structure Piece where
  text : List Char
  lexeme : Lexeme
  deriving DecidableEq, Inhabited

/-! ### Character classes -/

def isGapBlank (c : Char) : Bool := c == ' ' || c == '\t' || c == '\r'

def isIdentifierStart (c : Char) : Bool :=
  ('a' ≤ c && c ≤ 'z') || ('A' ≤ c && c ≤ 'Z') || c == '_'

def isIdentifierChar (c : Char) : Bool := isIdentifierStart c || Text.isAsciiDigit c

/-! ### Pieces

Each function below is given what follows the first character or characters of a piece, and returns
how many further characters the piece has. -/

/-- The length of the rest of a block comment, its end mark included. -/
def commentLength? : List Char → Option Nat
  | '*' :: '/' :: _ => some 2
  | _ :: cs => (commentLength? cs).map (· + 1)
  | [] => none

/-- What a character after a backslash stands for in a string. -/
def unescape : Char → Char
  | 'n' => '\n'
  | 't' => '\t'
  | c => c

/-- The characters that the rest of a string denotes, and its length, the closing quote included. -/
def stringRest? : List Char → Option (List Char × Nat)
  | '"' :: _ => some ([], 1)
  | '\\' :: c :: cs => (stringRest? cs).map fun (value, n) => (unescape c :: value, n + 2)
  | ['\\'] => none
  | c :: cs => (stringRest? cs).map fun (value, n) => (c :: value, n + 1)
  | [] => none

/-- The length of the rest of a number: more digits, then a point and digits if a digit follows the
point. -/
def numberRest (cs : List Char) : Nat :=
  let whole := (cs.takeWhile Text.isAsciiDigit).length
  match cs.drop whole with
  | '.' :: after =>
    let fraction := (after.takeWhile Text.isAsciiDigit).length
    if fraction == 0 then whole else whole + 1 + fraction
  | _ => whole

/-- The symbol whose spelling stands in front, the longer one first. -/
def symbol? (c : Char) (cs : List Char) : Option Symbol :=
  (Symbol.double ++ Symbol.single).find? fun mark => mark.spelling.toList.isPrefixOf (c :: cs)

def wordKind (word : String) : Kind :=
  match Keyword.ofSpelling? word with
  | some k => .keyword k
  | none => .identifier

/-- The piece that starts with `c`, and how many characters of what follows belong to it. -/
def lexeme (c : Char) (cs : List Char) : Except Fault (Lexeme × Nat) :=
  let plain (kind : Kind) (n : Nat) : Lexeme × Nat :=
    (.token kind (String.ofList (c :: cs.take n)) false, n)
  if isGapBlank c then .ok (.gap, (cs.takeWhile isGapBlank).length)
  else if c == '\n' then .ok (.token .newline newlineValue false, 0)
  else if c == '/' && cs.head? == some '/' then
    .ok (.gap, (cs.takeWhile (· != '\n')).length)
  else if c == '/' && cs.head? == some '*' then
    match commentLength? (cs.drop 1) with
    | some n => .ok (.gap, n + 1)
    | none => .error .unterminatedComment
  else if Text.isAsciiDigit c then .ok (plain .number (numberRest cs))
  else if c == '"' then
    match stringRest? cs with
    | some (value, n) => .ok (.token .string (String.ofList value) false, n)
    | none => .error .unterminatedString
  else if c == '\x60' then
    let body := cs.takeWhile (· != '\x60')
    if body.length < cs.length then
      .ok (.token .string (String.ofList body) true, body.length + 1)
    else .error .unterminatedTemplate
  else if isIdentifierStart c then
    let n := (cs.takeWhile isIdentifierChar).length
    .ok (plain (wordKind (String.ofList (c :: cs.take n))) n)
  else
    match symbol? c cs with
    | some mark => .ok (plain (.symbol mark) (mark.spelling.length - 1))
    | none => .error (.unexpected c)

def scan : List Char → List Piece × Option Fault
  | [] => ([], none)
  | c :: cs =>
    match lexeme c cs with
    | .error fault => ([], some fault)
    | .ok (piece, n) =>
      let (pieces, fault) := scan (cs.drop n)
      (⟨c :: cs.take n, piece⟩ :: pieces, fault)
termination_by cs => cs.length
decreasing_by simp only [List.length_drop, List.length_cons]; omega

/-! ### Places -/

def afterChar (p : Place) (c : Char) : Place :=
  if c == '\n' then { p with line := p.line + 1, column := 1 }
  else { p with column := p.column + 1 }

def afterText (p : Place) (text : List Char) : Place := text.foldl afterChar p

/-- The tokens among some pieces, the first of which starts at `p`, and the place after them. -/
def placed (p : Place) : List Piece → List Token × Place
  | [] => ([], p)
  | piece :: pieces =>
    let (tokens, last) := placed (afterText p piece.text) pieces
    match piece.lexeme with
    | .gap => (tokens, last)
    | .token kind value template => (⟨kind, value, p, template⟩ :: tokens, last)

structure LexError where
  fault : Fault
  place : Place
  deriving DecidableEq, Inhabited

def LexError.diagnostic (e : LexError) : Diagnostic :=
  Diagnostic.lexicalError e.fault.message (some e.place)

/-- All tokens of a source, with a last one that marks its end. -/
def rawTokens (source file : String) : Except LexError (List Token) :=
  let (pieces, fault) := scan source.toList
  let (tokens, last) := placed ⟨1, 1, file⟩ pieces
  match fault with
  | some fault => .error ⟨fault, last⟩
  | none => .ok (tokens ++ [⟨.endOfFile, "", last, false⟩])

end UiScript.Token
