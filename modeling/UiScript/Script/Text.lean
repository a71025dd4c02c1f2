import UiScript.Json.Writer
import UiScript.Syntax.Basic
import UiScript.Text.Case
import UiScript.Text.Lines

/-!
# Texts in generated code
-/

namespace UiScript.Script

/-- Every closing mark of markup is broken by a backslash, so that it cannot end a script. -/
def breakClosings (s : String) : String := String.ofList (Text.interpose '<' '\\' '/' s.toList)

/-- A string literal that is safe inside an inline script. -/
def stringLiteral (s : String) : String := breakClosings (Json.wideString s)

def isAsciiCapital (c : Char) : Bool := 'A' ≤ c && c ≤ 'Z'

/-- A hyphen before every ASCII capital, and all in lower case: `backgroundColor` becomes
`background-color`. -/
def kebab (name : String) : String :=
  Text.lower <| String.ofList <|
    name.toList.flatMap fun c => if isAsciiCapital c then ['-', c] else [c]

/-- A letter that may start a bare property name. -/
def isKeyStart (c : Char) : Bool :=
  ('a' ≤ c && c ≤ 'z') || isAsciiCapital c || c == '_' || c == '$'

def isKeyChar (c : Char) : Bool := isKeyStart c || ('0' ≤ c && c ≤ '9')

/-- A name that is written without quotes; one line feed may end it. -/
def isBareKey (key : List Char) : Bool :=
  match key with
  | [] => false
  | c :: cs =>
    let body := if cs.getLast? == some '\n' then cs.dropLast else cs
    isKeyStart c && body.all isKeyChar

/-- A property name. -/
def objectKey (key : String) : String := if isBareKey key.toList then key else stringLiteral key

/-- A floating point number that is an integer is written as one. -/
def floatText (x : Binary64) : String :=
  match x.toInt? with
  | some n => toString n
  | none => x.toText

def numericText : Numeric → String
  | .number (.int n) => toString n
  | .number (.float x) => floatText x
  | .truth b => if b then "True" else "False"

def braced (s : String) : String := "\x7b" ++ s ++ "\x7d"

/-- Entries of an object or arguments. -/
def commaSeparated (items : List String) : String := String.intercalate ", " items

end UiScript.Script
