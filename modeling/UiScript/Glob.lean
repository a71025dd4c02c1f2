/-!
# File name patterns

`*` stands for any text, also across slashes, `?` for any character and `[…]` for a character of a
set; a set that starts with `!` is negated. A bracket that is not closed stands for itself.
-/

namespace UiScript

namespace Glob

/-- A part of a pattern. -/
inductive Atom where
  | star
  | any
  | literal (c : Char)
  | set (negated : Bool) (singles : List Char) (ranges : List (Char × Char))
  deriving DecidableEq, Inhabited

/-- The body of a set up to its closing bracket, and the rest behind that. A bracket right at the
start belongs to the body. -/
def setBody? (cs : List Char) : Option (List Char × List Char) :=
  let (negation, more) := match cs with
    | '!' :: more => (['!'], more)
    | more => ([], more)
  let (bracket, more) := match more with
    | ']' :: more => ([']'], more)
    | more => ([], more)
  match more.dropWhile (· != ']') with
  | ']' :: rest => some (negation ++ bracket ++ more.takeWhile (· != ']'), rest)
  | _ => none

/-- The chunks of a set body between the hyphens that make a range. Such a hyphen has at least as
many characters before it as the first number says; further chunks have two or more. -/
def chunks : Nat → List Char → List Char → List (List Char)
  | _, current, [] => [current.reverse]
  | 0, current, '-' :: cs => current.reverse :: chunks 2 [] cs
  | n, current, c :: cs => chunks (n - 1) (c :: current) cs

/-- An empty last chunk is a hyphen that stands for itself. -/
def closeChunks : List (List Char) → List (List Char)
  | [chunk, []] => [chunk ++ ['-']]
  | chunk :: rest => chunk :: closeChunks rest
  | [] => []

/-- Drops ranges that run downwards, with their ends; the last ones go first. -/
def dropEmptyRanges : List (List Char) → List (List Char)
  | [] => []
  | chunk :: rest =>
    match dropEmptyRanges rest with
    | [] => [chunk]
    | next :: more =>
      match chunk.getLast?, next.head? with
      | some a, some b =>
        if a > b then (chunk.dropLast ++ next.tail) :: more else chunk :: next :: more
      | _, _ => chunk :: next :: more

/-- The ranges between neighbouring chunks. -/
def rangesOf : List (List Char) → List (Char × Char)
  | chunk :: next :: more =>
    match chunk.getLast?, next.head? with
    | some a, some b => (a, b) :: rangesOf (next :: more)
    | _, _ => rangesOf (next :: more)
  | _ => []

/-- The set that a body describes. A body that is empty matches nothing, and a negated empty one
everything. -/
def setAtom (body : List Char) : Atom :=
  let parts :=
    if body.contains '-' then
      dropEmptyRanges (closeChunks (chunks (if body.head? == some '!' then 2 else 1) [] body))
    else [body]
  match parts with
  | ('!' :: first) :: rest => .set true (first ++ rest.flatten) (rangesOf (first :: rest))
  | parts => .set false parts.flatten (rangesOf parts)

/-- The atoms of a pattern; the first argument bounds their number. -/
def atomsFrom : Nat → List Char → List Atom
  | 0, _ => []
  | _, [] => []
  | n + 1, '*' :: cs => .star :: atomsFrom n cs
  | n + 1, '?' :: cs => .any :: atomsFrom n cs
  | n + 1, '[' :: cs =>
    match setBody? cs with
    | some (body, rest) => setAtom body :: atomsFrom n rest
    | none => .literal '[' :: atomsFrom n cs
  | n + 1, c :: cs => .literal c :: atomsFrom n cs

def atoms (pattern : String) : List Atom := atomsFrom pattern.toList.length pattern.toList

def Atom.fits : Atom → Char → Bool
  | .star, _ | .any, _ => true
  | .literal d, c => c == d
  | .set negated singles ranges, c =>
    (singles.contains c || ranges.any fun (a, b) => a ≤ c && c ≤ b) != negated

/-- Some end of a text has a property. -/
def someSuffix (p : List Char → Bool) : List Char → Bool
  | [] => p []
  | c :: cs => p (c :: cs) || someSuffix p cs

/-- The whole text fits the atoms. -/
def fits : List Atom → List Char → Bool
  | [], cs => cs.isEmpty
  | .star :: as, cs => someSuffix (fits as) cs
  | _ :: _, [] => false
  | a :: as, c :: cs => a.fits c && fits as cs

end Glob

def Glob.matches (pattern text : String) : Bool := Glob.fits (Glob.atoms pattern) text.toList

end UiScript
