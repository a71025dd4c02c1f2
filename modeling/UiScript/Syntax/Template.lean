/-!
# The parts of a template

A template alternates literal text with fragments between `${` and the brace that balances it.
-/

namespace UiScript.Syntax

/-- A part of a template before its fragments are read. -/
inductive Segment where
  | text (literal : List Char)
  | hole (fragment : List Char)
  deriving DecidableEq, Inhabited

/-- How many characters there are up to and with the brace that closes `depth` open ones. -/
def holeLength? : Nat → List Char → Option Nat
  | _, [] => none
  | depth, c :: cs =>
    if c == '\x7b' then (holeLength? (depth + 1) cs).map (· + 1)
    else if c == '\x7d' then
      if depth ≤ 1 then some 1 else (holeLength? (depth - 1) cs).map (· + 1)
    else (holeLength? depth cs).map (· + 1)

/-- The literal part with the given characters, last first, unless there are none. -/
def literalSegment (acc : List Char) : List Segment :=
  if acc.isEmpty then [] else [.text acc.reverse]

/-- The segments of a template, and whether its last fragment lacks an end. `acc` holds the literal
characters before, last first. -/
def segments (acc : List Char) : List Char → List Segment × Bool
  | [] => (literalSegment acc, false)
  | '$' :: '\x7b' :: cs =>
    match holeLength? 1 cs with
    | none => (literalSegment acc, true)
    | some n =>
      let (more, unclosed) := segments [] (cs.drop n)
      (literalSegment acc ++ .hole (cs.take (n - 1)) :: more, unclosed)
  | c :: cs => segments (c :: acc) cs
termination_by cs => cs.length
decreasing_by all_goals simp only [List.length_drop, List.length_cons]; omega

/-- The text has the mark that opens a fragment. -/
def hasHole : List Char → Bool
  | '$' :: '\x7b' :: _ => true
  | _ :: cs => hasHole cs
  | [] => false

end UiScript.Syntax
