import UiScript.Text.Base64
import UiScript.Text.Case
import UiScript.Yaml.Fault
import UiScript.Yaml.Tag

/-!
# Data of a document

What a node stands for. The parts of a collection are given by the numbers of their nodes.
-/

namespace UiScript.Yaml

inductive Datum where
  | null
  | bool (b : Bool)
  | int (n : Int)
  | float (x : Binary64)
  | text (s : String)
  | bytes (bs : List UInt8)
  | date (d : Date)
  | time (t : Timestamp)
  | list (items : List Nat)
  | pairs (entries : List (Nat × Nat))
  | set (keys : List Nat)
  | dict (entries : List (Nat × Nat))
  deriving DecidableEq, Inhabited

namespace Datum

/-! ### Keys -/

def isKey : Datum → Bool
  | .list _ | .pairs _ | .set _ | .dict _ => false
  | _ => true

/-- The number that a key counts as. -/
def number? : Datum → Option Number
  | .bool b => some (.int (if b then 1 else 0))
  | .int n => some (.int n)
  | .float x => some (.float x)
  | _ => none

/-- Two keys are the same: numbers by their value, moments wherever they were taken. -/
def sameKey : Datum → Datum → Bool
  | .float .nan, .float .nan => true
  | .time a, .time b => a.same b
  | a, b =>
    match a.number?, b.number? with
    | some x, some y => x.same y
    | _, _ => a == b

/-! ### Reading scalars -/

def splitSign : List Char → Bool × List Char
  | '-' :: cs => (true, cs)
  | '+' :: cs => (false, cs)
  | cs => (false, cs)

def truthWords : List (String × Bool) := [
  ("yes", true), ("no", false), ("true", true), ("false", false), ("on", true), ("off", false)]

def readBool (s : String) : Except Fault Datum :=
  let word := Text.lower s
  match truthWords.lookup word with
  | some b => .ok (.bool b)
  | none => .error (.noTruth word)

/-- The integers between colons. -/
def sexagesimalParts (cs : List Char) : Except Fault (List Int) :=
  (Text.splitAt ':' cs).mapM fun part =>
    (Numeral.readInteger (String.ofList part)).mapError .numeral

/-- An unsigned integer; how it starts tells its base. -/
def readUnsigned (cs : List Char) : Except Fault Int :=
  let readTo (base : Nat) (ds : List Char) : Except Fault Int :=
    (Numeral.readIntegerTo base (String.ofList ds)).mapError .numeral
  match cs with
  | [] => .error .noDigits
  | ['0'] => .ok 0
  | '0' :: 'b' :: ds => readTo 2 ds
  | '0' :: 'x' :: ds => readTo 16 ds
  | '0' :: _ => readTo 8 cs
  | _ =>
    if cs.contains ':' then do
      return (← sexagesimalParts cs).foldl (fun n part => n * 60 + part) 0
    else (Numeral.readInteger (String.ofList cs)).mapError .numeral

def withoutGaps (s : String) : List Char := s.toList.filter (· != '_')

def readInt (s : String) : Except Fault Datum :=
  let (negative, cs) := splitSign (withoutGaps s)
  (readUnsigned cs).map fun n => .int (if negative then -n else n)

/-- The sum of numbers to the base sixty, last one first. -/
def sexagesimalSum : Int → Binary64 → List Binary64 → Except Fault Binary64
  | _, total, [] => .ok total
  | weight, total, d :: ds =>
    match Number.toFloat (.int weight) with
    | .ok w => sexagesimalSum (weight * 60) (total.add (d.mul w)) ds
    | .error e => .error (.number e)

def readFloat (s : String) : Except Fault Datum := do
  let all := (Text.lower (String.ofList (withoutGaps s))).toList
  if all.isEmpty then throw .noDigits
  let (negative, cs) := splitSign all
  let word := String.ofList cs
  let read (ds : List Char) : Except Fault Binary64 :=
    (Numeral.readFloat (String.ofList ds)).mapError .numeral
  let x ←
    if word == ".inf" then pure (.infinite false)
    else if word == ".nan" then pure .nan
    else if cs.contains ':' then do
      let parts ← (Text.splitAt ':' cs).mapM read
      sexagesimalSum 1 (Binary64.zero false) parts.reverse
    else read cs
  return .float (if negative then x.neg else x)

def readBytes (s : String) : Except Fault Datum :=
  if s.toList.all (·.toNat < 0x80) then
    match Text.Base64.decode? s with
    | some bs => .ok (.bytes bs)
    | none => .error .malformed
  else .error .malformed

def readTimestamp (s : String) : Except Fault Datum :=
  match Timestamp.written? s with
  | none => .error .noDate
  | some w =>
    match w.time with
    | none => ((Date.make w.year w.month w.day).mapError .calendar).map .date
    | some t =>
      let micros := Timestamp.microsOf t.fraction
      ((Timestamp.make w.year w.month w.day t.hour t.minute t.second micros t.offset).mapError
        .calendar).map .time

/-! ### Display -/

/-- One byte as it stands between two marks. -/
def shownByte (mark : Char) (b : UInt8) : List Char :=
  let c := Char.ofNat b.toNat
  if c.toNat < 0x7F then Text.quotedChar mark c else ['\\', 'x'] ++ Text.hex 2 b.toNat

/-- Bytes between quotes. -/
def shownBytes (bs : List UInt8) : String :=
  let has (c : Char) : Bool := bs.any (·.toNat == c.toNat)
  let mark := if has '\'' && !has '"' then '"' else '\''
  String.ofList ('b' :: mark :: bs.flatMap (shownByte mark) ++ [mark])

end Datum

end UiScript.Yaml
