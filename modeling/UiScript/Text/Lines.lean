/-!
# Lines
-/

namespace UiScript.Text

/-- The parts of a list between occurrences of a separator; there is always at least one part. -/
def splitAt (sep : Char) : List Char → List (List Char)
  | [] => [[]]
  | c :: cs =>
    if c == sep then [] :: splitAt sep cs
    else
      match splitAt sep cs with
      | part :: parts => (c :: part) :: parts
      | [] => [[c]]

/-- The parts of a text between occurrences of a separator. -/
def split (sep : Char) (s : String) : List String := (splitAt sep s.toList).map String.ofList

def lines (s : String) : List String := split '\n' s

def unlines (ls : List String) : String := String.intercalate "\n" ls

def padLines (pad s : String) : String :=
  unlines ((lines s).map fun line => if line.isEmpty then line else pad ++ line)

/-- The text moved to the right by some levels of two blanks. -/
def indent (level : Nat) (s : String) : String :=
  padLines (String.ofList (List.replicate (2 * level) ' ')) s

/-- A carriage return, alone or before a line feed, becomes a line feed. -/
def unifyNewlines : List Char → List Char
  | '\r' :: '\n' :: cs => '\n' :: unifyNewlines cs
  | '\r' :: cs => '\n' :: unifyNewlines cs
  | c :: cs => c :: unifyNewlines cs
  | [] => []

/-- The text with every occurrence of the two characters `a b` written as `a m b`. -/
def interpose (a m b : Char) : List Char → List Char
  | [] => []
  | [c] => [c]
  | c :: d :: cs =>
    if c == a && d == b then a :: m :: interpose a m b (d :: cs) else c :: interpose a m b (d :: cs)

end UiScript.Text
