import UiScript.Text.Digit
import UiScript.Text.Lines
import UiScript.Yaml.Timestamp

/-!
# Tags

The tag of a node tells its type. A plain scalar without a tag gets the one that its text suggests.
-/

namespace UiScript.Yaml

open Text (isAsciiDigit isHexDigit)

inductive Tag where
  | null
  | bool
  | int
  | float
  | binary
  | timestamp
  | str
  | seq
  | map
  | set
  | pairs
  /-- The entries of the value are taken over into the mapping. -/
  | merge
  /-- The value stands for the mapping where a scalar is wanted. -/
  | value
  | unknown
  deriving DecidableEq, Inhabited

namespace Tag

/-- What the tags of the format start with. -/
def standard : String := "tag:yaml.org,2002:"

def names : List (String × Tag) := [
  ("null", .null), ("bool", .bool), ("int", .int), ("float", .float), ("binary", .binary),
  ("timestamp", .timestamp), ("str", .str), ("seq", .seq), ("map", .map), ("set", .set),
  ("omap", .pairs), ("pairs", .pairs), ("merge", .merge), ("value", .value)]

def ofName (name : String) : Tag :=
  ((names.find? fun (n, _) => standard ++ n == name).map Prod.snd).getD .unknown

/-! ### Numbers -/

/-- A digit or an underscore, which may stand among digits. -/
def isDigitOrGap (c : Char) : Bool := isAsciiDigit c || c == '_'

/-- The text behind a sign. -/
def unsigned : List Char → List Char
  | '-' :: cs => cs
  | '+' :: cs => cs
  | cs => cs

def isDigitRun : List Char → Bool
  | c :: cs => isAsciiDigit c && cs.all isDigitOrGap
  | [] => false

/-- One or two digits below sixty. -/
def isSixtieth : List Char → Bool
  | [a] => isAsciiDigit a
  | [a, b] => '0' ≤ a && a ≤ '5' && isAsciiDigit b
  | _ => false

/-- A number before a colon and sixtieths behind it. -/
def isSexagesimal (cs : List Char) : Bool :=
  match Text.splitAt ':' cs with
  | first :: p :: ps => isDigitRun first && (p :: ps).all isSixtieth
  | _ => false

/-- An unsigned integer: binary, octal, hexadecimal, decimal or to the base sixty. -/
def isNatural (cs : List Char) : Bool :=
  match cs with
  | ['0'] => true
  | '0' :: 'b' :: ds => !ds.isEmpty && ds.all fun c => c == '0' || c == '1' || c == '_'
  | '0' :: 'x' :: ds => !ds.isEmpty && ds.all fun c => isHexDigit c || c == '_'
  | '0' :: ds => ds.all fun c => ('0' ≤ c && c ≤ '7') || c == '_'
  | cs => isDigitRun cs || isSexagesimal cs

/-- A signed exponent, or none. -/
def isExponent : List Char → Bool
  | [] => true
  | e :: s :: ds =>
    (e == 'e' || e == 'E') && (s == '-' || s == '+') && !ds.isEmpty && ds.all isAsciiDigit
  | _ => false

def isFraction (cs : List Char) : Bool := isExponent (cs.dropWhile isDigitOrGap)

def isDecimal (cs : List Char) : Bool :=
  match cs with
  | '.' :: d :: ds => isAsciiDigit d && isFraction ds
  | cs =>
    let digits := unsigned cs
    match digits.dropWhile isDigitOrGap with
    | '.' :: fraction => isDigitRun (digits.takeWhile isDigitOrGap) && isFraction fraction
    | _ => false

/-- A number to the base sixty with a decimal fraction. -/
def isSexagesimalFraction (cs : List Char) : Bool :=
  match (unsigned cs).reverse.dropWhile isDigitOrGap with
  | '.' :: before => isSexagesimal before.reverse
  | _ => false

def isFloat (cs : List Char) : Bool :=
  isDecimal cs || isSexagesimalFraction cs ||
    [".inf", ".Inf", ".INF"].contains (String.ofList (unsigned cs)) ||
    [".nan", ".NaN", ".NAN"].contains (String.ofList cs)

/-! ### Plain scalars -/

def nullWords : List String := ["~", "null", "Null", "NULL"]

def boolWords : List String := [
  "yes", "Yes", "YES", "no", "No", "NO", "true", "True", "TRUE", "false", "False", "FALSE",
  "on", "On", "ON", "off", "Off", "OFF"]

/-- The text without one line feed at its end. -/
def withoutLastBreak (cs : List Char) : List Char :=
  if cs.getLast? == some '\n' then cs.dropLast else cs

/-- The tag that a text suggests. One line feed at its end does not count. -/
def ofText (s : String) : Tag :=
  let cs := withoutLastBreak s.toList
  let word := String.ofList cs
  if s.isEmpty then .null
  else if boolWords.contains word then .bool
  else if isFloat cs then .float
  else if isNatural (unsigned cs) then .int
  else if word == "<<" then .merge
  else if nullWords.contains word then .null
  else if Timestamp.isWritten s then .timestamp
  else if word == "=" then .value
  else if ["!", "&", "*"].contains word then .unknown
  else .str

end Tag

end UiScript.Yaml
