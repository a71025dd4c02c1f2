import UiScript.Yaml.Cursor

/-!
# How scalars are written

A scalar is written plain, between single or double quotes, or as a block of lines that stand to the
right of what is around them. Line ends inside a scalar are folded, other than in a literal block.
-/

namespace UiScript.Yaml

open Scan

/-! ### Plain scalars -/

/-- A character that no plain scalar starts with. -/
def isIndicator (c : Char) : Bool := isGap c || "-?:,[]\x7b\x7d#&*!|>'\"%@\x60".toList.contains c

/-- A plain scalar may start here. -/
def startsPlain (inFlow : Bool) : List Char → Bool
  | [] => false
  | c :: cs =>
    !isIndicator c ||
      (!startsWithGap cs && (c == '-' || (!inFlow && (c == '?' || c == ':'))))

/-- The characters of a plain scalar up to a gap or a mark. -/
def plainChunk (inFlow : Bool) : List Char → List Char
  | [] => []
  | c :: cs =>
    let endsKey := c == ':' && (startsWithGap cs || (inFlow && endsOr isFlowMark cs))
    if isGap c || endsKey || (inFlow && (c == '?' || isFlowMark c)) then []
    else c :: plainChunk inFlow cs

/-- Takes line ends and the blanks among them; none if a document starts or ends at a line. The
number bounds the characters. -/
def plainBreaks : Nat → Scan (Option (List Char))
  | 0 => return some []
  | n + 1 => do
    skipBlanks
    match ← lineBreak? with
    | none => return some []
    | some b =>
      if startsAnyMarker (← get).rest then return none
      else return (← plainBreaks n).map (b :: ·)

/-- Takes the gap behind a chunk of a plain scalar. It is empty where the scalar ends for sure; the
flag tells of a line end. -/
def plainGap : Scan (List Char × Bool) := do
  let blanks ← takeWhile (· == ' ')
  match ← lineBreak? with
  | none => return (blanks, false)
  | some first =>
    let rest := (← get).rest
    if startsAnyMarker rest then return ([], true)
    else
      match ← plainBreaks rest.length with
      | none => return ([], true)
      | some more => return (foldedBreaks first more, true)

/-- Takes the chunks of a plain scalar behind a gap. In a block, later lines must not start before
the margin. The flag tells whether the last gap held a line end; the number bounds the chunks. -/
def plainChunks (inFlow : Bool) (margin : Nat) : Nat → List Char → Bool → Scan (List Char × Bool)
  | 0, _, broken => return ([], broken)
  | n + 1, gap, broken => do
    let rest := (← get).rest
    let chunk := plainChunk inFlow rest
    if chunk.isEmpty || rest.head? == some '#' then return ([], broken)
    else
      skip chunk.length
      let (next, broken) ← plainGap
      let after ← get
      let ends := next.isEmpty || after.rest.head? == some '#' ||
        (!inFlow && after.column < margin)
      if ends then return (gap ++ chunk, broken)
      else
        let (more, broken) ← plainChunks inFlow margin n next broken
        return (gap ++ chunk ++ more, broken)

/-- Takes a plain scalar and the gap behind it; the flag tells whether that holds a line end. -/
def plainScalar (inFlow : Bool) (margin : Nat) : Scan (String × Bool) := do
  let (text, broken) ← plainChunks inFlow margin (← get).rest.length [] false
  return (String.ofList text, broken)

/-! ### Quoted scalars -/

/-- Line ends and the blanks around them behind a line end, and what follows. No document may start
or end there. The number bounds the line ends. -/
def quotedBreaks : Nat → List Char → Except Fault (List Char × List Char)
  | 0, cs => .ok ([], cs)
  | n + 1, cs =>
    if startsAnyMarker cs then .error .malformed
    else
      match cs.dropWhile isBlank with
      | [] => .ok ([], [])
      | c :: rest =>
        if isBreak c then do
          let (more, rest) ← quotedBreaks n rest
          return (unifiedBreak c :: more, rest)
        else .ok ([], c :: rest)

/-- The text of a gap inside quotes, and what follows it. -/
def quotedGap (cs : List Char) : Except Fault (List Char × List Char) :=
  match cs.dropWhile isBlank with
  | [] => .error .malformed
  | c :: rest =>
    if isBreak c then do
      let (more, rest) ← quotedBreaks rest.length rest
      return (foldedBreaks (unifiedBreak c) more, rest)
    else .ok (cs.takeWhile isBlank, c :: rest)

/-- The text of a scalar behind a single quote, and what follows the closing one. The number bounds
the steps. -/
def singleQuoted : Nat → List Char → Except Fault (List Char × List Char)
  | 0, _ => .error .malformed
  | _, [] => .error .malformed
  | n + 1, '\'' :: '\'' :: cs => do
    let (text, rest) ← singleQuoted n cs
    return ('\'' :: text, rest)
  | _, '\'' :: cs => .ok ([], cs)
  | n + 1, c :: cs =>
    if isGap c then do
      let (gap, rest) ← quotedGap (c :: cs)
      let (text, rest) ← singleQuoted n rest
      return (gap ++ text, rest)
    else do
      let (text, rest) ← singleQuoted n cs
      return (c :: text, rest)

def escape? : Char → Option Char
  | '0' => some '\x00'
  | 'a' => some '\x07'
  | 'b' => some '\x08'
  | 't' => some '\t'
  | '\t' => some '\t'
  | 'n' => some '\n'
  | 'v' => some '\x0b'
  | 'f' => some '\x0c'
  | 'r' => some '\r'
  | 'e' => some '\x1b'
  | ' ' => some ' '
  | '"' => some '"'
  | '\\' => some '\\'
  | '/' => some '/'
  | 'N' => some '\u0085'
  | '_' => some '\u00a0'
  | 'L' => some '\u2028'
  | 'P' => some '\u2029'
  | _ => none

/-- How many hexadecimal digits follow an escape. -/
def codeLength? : Char → Option Nat
  | 'x' => some 2
  | 'u' => some 4
  | 'U' => some 8
  | _ => none

/-- The number that hexadecimal digits of a length write, and what follows them. -/
def code? (length : Nat) (cs : List Char) : Option (Nat × List Char) :=
  let ds := cs.take length
  if ds.length == length then (Numeral.natTo? 16 ds).map fun n => (n, cs.drop length) else none

/-- An escaped second half of a character that is written in two halves. -/
def secondHalf? : List Char → Option (Nat × List Char)
  | '\\' :: e :: cs => do
    let (code, rest) ← code? (← codeLength? e) cs
    if 0xDC00 ≤ code && code < 0xE000 then some (code, rest) else none
  | _ => none

def escapedChar (length : Nat) (cs : List Char) : Except Fault (Char × List Char) :=
  match code? length cs with
  | none => .error .malformed
  | some (code, rest) =>
    if 0x10FFFF < code then .error (.noCharacter code)
    else if 0xD800 ≤ code && code < 0xDC00 then
      match secondHalf? rest with
      | some (second, rest) =>
        .ok (Char.ofNat (0x10000 + (code - 0xD800) * 0x400 + (second - 0xDC00)), rest)
      | none => .ok ('\ufffd', rest)
    else if 0xDC00 ≤ code && code < 0xE000 then .ok ('\ufffd', rest)
    else .ok (Char.ofNat code, rest)

/-- The text of a scalar behind a double quote, and what follows the closing one. The number bounds
the steps. -/
def doubleQuoted : Nat → List Char → Except Fault (List Char × List Char)
  | 0, _ => .error .malformed
  | _, [] => .error .malformed
  | _, '"' :: cs => .ok ([], cs)
  | n + 1, '\\' :: cs =>
    match cs with
    | [] => .error .malformed
    | e :: cs =>
      match escape? e, codeLength? e with
      | some c, _ => do
        let (text, rest) ← doubleQuoted n cs
        return (c :: text, rest)
      | none, some length => do
        let (c, rest) ← escapedChar length cs
        let (text, rest) ← doubleQuoted n rest
        return (c :: text, rest)
      | none, none =>
        if isBreak e then do
          let (breaks, rest) ← quotedBreaks cs.length cs
          let (text, rest) ← doubleQuoted n rest
          return (breaks ++ text, rest)
        else .error .malformed
  | n + 1, c :: cs =>
    if isGap c then do
      let (gap, rest) ← quotedGap (c :: cs)
      let (text, rest) ← doubleQuoted n rest
      return (gap ++ text, rest)
    else do
      let (text, rest) ← doubleQuoted n cs
      return (c :: text, rest)

/-- Takes a scalar between quotes, which are double or single. -/
def quotedScalar (double : Bool) : Scan String := do
  skip 1
  let cs := (← get).rest
  let (text, rest) ←
    (if double then doubleQuoted (cs.length + 1) cs else singleQuoted (cs.length + 1) cs :
      Except Fault _)
  goTo rest
  return String.ofList text

/-! ### Blocks of lines -/

/-- What becomes of the line ends at the end of a block. -/
inductive Chomping where
  /-- All are dropped. -/
  | strip
  | clip
  /-- All are kept. -/
  | keep
  deriving DecidableEq, Inhabited

/-- Takes the sign that tells about the last line ends. -/
def chomping? : Scan (Option Chomping) := do
  match ← peek? with
  | some '+' =>
    skip 1
    return some .keep
  | some '-' =>
    skip 1
    return some .strip
  | _ => return none

/-- Takes the digit that tells how far a block stands to the right. -/
def increment? : Scan (Option Nat) := do
  match (← peek?).filter Text.isAsciiDigit with
  | some '0' => malformed
  | some c =>
    skip 1
    return some (c.toNat - '0'.toNat)
  | none => return none

/-- Takes the head of a block: the sign and the digit in any order. -/
def blockHead : Scan (Chomping × Option Nat) := do
  let first ← chomping?
  let increment ← increment?
  let chomping ← if first.isNone && increment.isSome then chomping? else pure first
  expectEndOr fun c => c == ' ' || isBreak c
  endLine
  return (chomping.getD .clip, increment)

/-- Takes the empty lines before a block, and finds the widest of its first blanks. The number
bounds the characters. -/
def blockStart : Nat → Nat → Scan (List Char × Nat)
  | 0, widest => return ([], widest)
  | n + 1, widest => do
    skipBlanks
    let widest := max widest (← get).column
    match ← lineBreak? with
    | none => return ([], widest)
    | some b =>
      let (more, widest) ← blockStart n widest
      return (b :: more, widest)

/-- Takes empty lines, and the blanks before a column. The number bounds the lines. -/
def blockBreaks (column : Nat) : Nat → Scan (List Char)
  | 0 => return []
  | n + 1 => do
    let c ← get
    skip (((c.rest.take (column - c.column)).takeWhile (· == ' ')).length)
    match ← lineBreak? with
    | none => return []
    | some b => return b :: (← blockBreaks column n)

/-- A line of a block stands here. -/
def atBlockLine (column : Nat) : Scan Bool := do
  let c ← get
  return c.column == column && !c.rest.isEmpty

/-- Takes the lines of a block behind some empty ones: the text, the last line end and the empty
lines at the end. The number bounds the lines. -/
def blockLines (folded : Bool) (column : Nat) :
    Nat → List Char → List Char → Scan (List Char × List Char × List Char)
  | 0, breaks, last => return ([], last, breaks)
  | n + 1, breaks, last => do
    if ← atBlockLine column then
      let isFlush := !(← peek?).any isBlank
      let line ← takeWhile (!isBreak ·)
      let ending := (← lineBreak?).toList
      let next ← blockBreaks column (← get).rest.length
      let goesOn ← atBlockLine column
      let joins := folded && ending == ['\n'] && isFlush && !(← peek?).any isBlank
      let joint :=
        if !goesOn then [] else if !joins then ending else if next.isEmpty then [' '] else []
      let (more, last, tail) ← blockLines folded column n next ending
      return (breaks ++ line ++ joint ++ more, last, tail)
    else return ([], last, breaks)

/-- Takes a block of lines behind its mark. The margin is that of what is around it. -/
def blockScalar (folded : Bool) (margin : Nat) : Scan String := do
  skip 1
  let (chomping, increment) ← blockHead
  let least := max margin 1
  let bound := (← get).rest.length
  let (breaks, column) ←
    match increment with
    | none => do
      let (breaks, widest) ← blockStart bound 0
      pure (breaks, max least widest)
    | some n => do
      let column := least + n - 1
      pure (← blockBreaks column bound, column)
  let (text, last, tail) ← blockLines folded column (bound + 1) breaks []
  let ending := match chomping with
    | .strip => []
    | .clip => last
    | .keep => last ++ tail
  return String.ofList (text ++ ending)

end UiScript.Yaml
