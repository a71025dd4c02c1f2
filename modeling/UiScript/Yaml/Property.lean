import UiScript.Text.Utf8
import UiScript.Yaml.Cursor

/-!
# Anchors, tags and directives

A node may carry an anchor, by which other places refer to it, and a tag, which tells its type. A
tag is a handle and a suffix; directives before a document say what the handles stand for.
-/

namespace UiScript.Yaml

open Scan

/-- A line with a percent sign before a document. -/
inductive Directive where
  | version (major : Int)
  | handle (handle expansion : String)
  | unknown
  deriving DecidableEq, Inhabited

def word : Scan String := do
  let cs ← takeWhile isWordChar
  if cs.isEmpty then malformed else return String.ofList cs

/-- Takes the name of an anchor behind its mark. -/
def anchorName : Scan String := do
  skip 1
  let name ← word
  expectEndOr fun c => isGap c || "?:,]\x7d%@\x60".toList.contains c
  return name

/-! ### Tags -/

/-- A character of a tag's suffix that stands for itself. -/
def isTagChar (c : Char) : Bool :=
  isWordChar c || ";/?:@&=+$,.!~*'()[]".toList.contains c

/-- A blank or a line end. -/
def isBlankOrBreak (c : Char) : Bool := c == ' ' || isBreak c

/-- The bytes of a run of percent signs with two hexadecimal digits each, and what follows. The
number bounds them. -/
def escapedBytes : Nat → List Char → Except Fault (List UInt8 × List Char)
  | n + 1, '%' :: a :: b :: cs =>
    match Text.hexValue? a, Text.hexValue? b with
    | some x, some y => do
      let (more, rest) ← escapedBytes n cs
      return (UInt8.ofNat (16 * x + y) :: more, rest)
    | _, _ => .error .malformed
  | _, '%' :: _ => .error .malformed
  | _, cs => .ok ([], cs)

/-- Takes characters of a tag; the number bounds the runs of them. -/
def tagChars : Nat → Scan (List Char)
  | 0 => return []
  | n + 1 => do
    let plain ← takeWhile isTagChar
    let cs := (← get).rest
    if cs.head? == some '%' then
      let (bytes, rest) ← (escapedBytes cs.length cs : Except Fault _)
      goTo rest
      match Text.Utf8.decode bytes with
      | .ok text => return plain ++ text.toList ++ (← tagChars n)
      | .error _ => malformed
    else return plain

def tagSuffix : Scan String := do
  let before := (← get).rest.length
  let cs ← tagChars before
  if (← get).rest.length == before then malformed else return String.ofList cs

/-- Takes a handle: one exclamation mark, or two with a word between them that may be empty. -/
def tagHandle : Scan String := do
  expect '!'
  if (← peek?) == some ' ' then return "!"
  else
    let name ← takeWhile isWordChar
    expect '!'
    return "!" ++ String.ofList name ++ "!"

/-- Takes a tag: its handle, if it is not written out, and its suffix. -/
def tagParts : Scan (Option String × String) := do
  let cs := (← get).rest.drop 1
  let parts ←
    if cs.head? == some '<' then do
      skip 2
      let suffix ← tagSuffix
      expect '>'
      pure (none, suffix)
    else if startsWithGap cs then do
      skip 1
      pure (none, "!")
    else if (cs.takeWhile (!isBlankOrBreak ·)).contains '!' then do
      let handle ← tagHandle
      pure (some handle, ← tagSuffix)
    else do
      skip 1
      pure (some "!", ← tagSuffix)
  expectEndOr isBlankOrBreak
  return parts

/-! ### Directives -/

def versionNumber : Scan Int := do
  let ds ← takeWhile Text.isAsciiDigit
  if ds.isEmpty then malformed
  else
    match Numeral.readInteger (String.ofList ds) with
    | .ok n => return n
    | .error e => throw (.numeral e)

def versionDirective : Scan Directive := do
  skipBlanks
  let major ← versionNumber
  expect '.'
  let _ ← versionNumber
  expectEndOr isBlankOrBreak
  return .version major

def handleDirective : Scan Directive := do
  skipBlanks
  let handle ← tagHandle
  if (← peek?) != some ' ' then malformed
  skipBlanks
  let expansion ← tagSuffix
  expectEndOr isBlankOrBreak
  return .handle handle expansion

/-- Takes a directive with its line. -/
def directive : Scan Directive := do
  skip 1
  let name ← word
  expectEndOr isBlankOrBreak
  let d ←
    if name == "YAML" then versionDirective
    else if name == "TAG" then handleDirective
    else do
      skipWhile (!isBreak ·)
      pure .unknown
  endLine
  return d

end UiScript.Yaml
