import UiScript.Text.Quoted
import UiScript.Value.Basic

/-!
# Writing JSON

Strings are written with or without non-ASCII characters, documents on one line or indented by two
blanks a level.
-/

namespace UiScript.Json

/-- A UTF-16 unit written by its code. -/
def unitEscape (n : Nat) : List Char := ['\\', 'u'] ++ Text.hex 4 n

/-- A character written by its code, as two units if it needs them. -/
def codeEscape (c : Char) : List Char :=
  let n := c.toNat
  if n < 0x10000 then unitEscape n
  else
    unitEscape (0xD800 + (n - 0x10000) / 0x400) ++ unitEscape (0xDC00 + (n - 0x10000) % 0x400)

def shortEscape? : Char → Option Char
  | '"' => some '"'
  | '\\' => some '\\'
  | '\n' => some 'n'
  | '\r' => some 'r'
  | '\t' => some 't'
  | '\x08' => some 'b'
  | '\x0c' => some 'f'
  | _ => none

def stringChar (plain : Char → Bool) (c : Char) : List Char :=
  match shortEscape? c with
  | some letter => ['\\', letter]
  | none => if plain c then [c] else codeEscape c

def stringWith (plain : Char → Bool) (s : String) : String :=
  String.ofList ('"' :: s.toList.flatMap (stringChar plain) ++ ['"'])

def asciiString (s : String) : String := stringWith (fun c => ' ' ≤ c && c ≤ '~') s

/-- A string literal that keeps every character but the controls below the blank. -/
def wideString (s : String) : String := stringWith (fun c => ' ' ≤ c) s

/-- A floating point number; the three that JSON does not know are named. -/
def float : Binary64 → String
  | .nan => "NaN"
  | .infinite s => if s then "-Infinity" else "Infinity"
  | x => x.toText

/-! ### Documents -/

mutual

/-- A document on one line. -/
def compact : Value → String
  | .null => "null"
  | .bool b => if b then "true" else "false"
  | .int n => toString n
  | .float x => float x
  | .nan _ => float .nan
  | .str s => asciiString s
  | .list items => "[" ++ String.intercalate ", " (compactItems items) ++ "]"
  | .dict entries => "\x7b" ++ String.intercalate ", " (compactEntries entries) ++ "\x7d"

def compactItems : List Value → List String
  | [] => []
  | v :: vs => compact v :: compactItems vs

def compactEntries : List (String × Value) → List String
  | [] => []
  | (k, v) :: rest => (asciiString k ++ ": " ++ compact v) :: compactEntries rest

end

/-- A line feed and the blanks of a level. -/
def lineStart (level : Nat) : String := "\n" ++ String.ofList (List.replicate (2 * level) ' ')

/-- Items between two brackets, each on lines of its own. -/
def bracketed (opening closing : String) (level : Nat) (items : List String) : String :=
  if items.isEmpty then opening ++ closing
  else
    opening ++ lineStart (level + 1) ++
      String.intercalate ("," ++ lineStart (level + 1)) items ++ lineStart level ++ closing

mutual

def indentedAt (level : Nat) : Value → String
  | .null => "null"
  | .bool b => if b then "true" else "false"
  | .int n => toString n
  | .float x => float x
  | .nan _ => float .nan
  | .str s => asciiString s
  | .list items => bracketed "[" "]" level (indentedItems (level + 1) items)
  | .dict entries => bracketed "\x7b" "\x7d" level (indentedEntries (level + 1) entries)

def indentedItems (level : Nat) : List Value → List String
  | [] => []
  | v :: vs => indentedAt level v :: indentedItems level vs

def indentedEntries (level : Nat) : List (String × Value) → List String
  | [] => []
  | (k, v) :: rest =>
    (asciiString k ++ ": " ++ indentedAt level v) :: indentedEntries level rest

end

/-- A document indented by two blanks a level. -/
def indented (v : Value) : String := indentedAt 0 v

end UiScript.Json
