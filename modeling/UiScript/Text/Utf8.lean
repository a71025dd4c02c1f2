import UiScript.Text.Quoted

/-!
# UTF-8

Bytes are read one at a time. The state between bytes holds what is still owed of a character, so a
faulty sequence ends right before the first byte that does not fit.
-/

namespace UiScript.Text.Utf8

inductive Reason where
  | start
  | continuation
  | truncated
  deriving DecidableEq, Inhabited

def Reason.message : Reason → String
  | .start => "invalid start byte"
  | .continuation => "invalid continuation byte"
  | .truncated => "unexpected end of data"

structure Fault where
  /-- Where the sequence starts. -/
  offset : Nat
  /-- How many bytes it has. -/
  length : Nat
  /-- Its first byte. -/
  byte : UInt8
  reason : Reason
  deriving DecidableEq, Inhabited

/-- Two lower case hexadecimal digits. -/
def hexByte (b : UInt8) : String := String.ofList (hex 2 b.toNat)

def Fault.message (f : Fault) : String :=
  let what :=
    if f.length == 1 then s!"byte 0x{hexByte f.byte} in position {f.offset}"
    else s!"bytes in position {f.offset}-{f.offset + f.length - 1}"
  s!"'utf-8' codec can't decode {what}: {f.reason.message}"

/-- A character of which some bytes have been read. -/
structure Pending where
  offset : Nat
  first : UInt8
  /-- The bytes read so far. -/
  count : Nat
  /-- The bytes still owed. -/
  owed : Nat
  /-- The least and the greatest next byte. -/
  low : Nat
  high : Nat
  /-- The bits read so far. -/
  bits : Nat
  deriving Inhabited

/-- What the first byte of a character tells. -/
inductive Start where
  | whole (c : Char)
  | more (p : Pending)
  | bad
  deriving Inhabited

/-- Reads the first byte of a character. -/
def start (offset : Nat) (b : UInt8) : Start :=
  let n := b.toNat
  let more (owed low high bits : Nat) : Start :=
    .more { offset, first := b, count := 1, owed, low, high, bits }
  if n < 0x80 then .whole (Char.ofNat n)
  else if n < 0xC2 then .bad
  else if n < 0xE0 then more 1 0x80 0xBF (n - 0xC0)
  else if n == 0xE0 then more 2 0xA0 0xBF 0
  else if n == 0xED then more 2 0x80 0x9F 0xD
  else if n < 0xF0 then more 2 0x80 0xBF (n - 0xE0)
  else if n == 0xF0 then more 3 0x90 0xBF 0
  else if n < 0xF4 then more 3 0x80 0xBF (n - 0xF0)
  else if n == 0xF4 then more 3 0x80 0x8F 4
  else .bad

def Pending.fault (p : Pending) (reason : Reason) : Fault :=
  { offset := p.offset, length := p.count, byte := p.first, reason }

/-- The characters and faulty sequences of some bytes, in order, from an offset on. -/
def unitsFrom : Nat → Option Pending → List UInt8 → List (Except Fault Char)
  | _, none, [] => []
  | _, some p, [] => [.error (p.fault .truncated)]
  | offset, pending, b :: bs =>
    let fresh : List (Except Fault Char) :=
      match start offset b with
      | .whole c => .ok c :: unitsFrom (offset + 1) none bs
      | .more p => unitsFrom (offset + 1) (some p) bs
      | .bad => .error { offset, length := 1, byte := b, reason := .start } ::
          unitsFrom (offset + 1) none bs
    match pending with
    | none => fresh
    | some p =>
      if p.low ≤ b.toNat && b.toNat ≤ p.high then
        let bits := p.bits * 64 + (b.toNat - 0x80)
        if p.owed == 1 then .ok (Char.ofNat bits) :: unitsFrom (offset + 1) none bs
        else
          unitsFrom (offset + 1)
            (some { p with
              count := p.count + 1, owed := p.owed - 1, low := 0x80, high := 0xBF, bits })
            bs
      else .error (p.fault .continuation) :: fresh

def units (bytes : List UInt8) : List (Except Fault Char) := unitsFrom 0 none bytes

def collect : List (Except Fault Char) → Except Fault (List Char)
  | [] => .ok []
  | .error f :: _ => .error f
  | .ok c :: us => (c :: ·) <$> collect us

def decode (bytes : List UInt8) : Except Fault String := String.ofList <$> collect (units bytes)

/-- The text of some bytes with a replacement character for each faulty sequence. -/
def decodeLossy (bytes : List UInt8) : String :=
  String.ofList ((units bytes).map fun
    | .ok c => c
    | .error _ => '�')

def encode (s : String) : List UInt8 := s.toUTF8.toList

end UiScript.Text.Utf8
