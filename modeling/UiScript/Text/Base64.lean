/-!
# Bytes as text

Every four letters of the alphabet stand for three bytes, and equals signs fill up the last four.
Characters outside of the alphabet are passed over.
-/

namespace UiScript.Text.Base64

def alphabet : List Char :=
  "ABCDEFGHIJKLMNOPQRSTUVWXYZabcdefghijklmnopqrstuvwxyz0123456789+/".toList

/-- The six bits that a letter stands for. -/
def sextet? (c : Char) : Option Nat := alphabet.findIdx? (· == c)

/-- Reads letters behind some that do not yet fill a byte: how many they are, the bits that they
leave and the equals signs since. What follows a complete filling is not read; without one the
letters must come in fours. -/
def decodeFrom (count bits fillers : Nat) : List Char → Option (List UInt8)
  | [] => if count == 0 then some [] else none
  | '=' :: cs =>
    if 2 ≤ count then
      if 4 ≤ count + fillers + 1 then some [] else decodeFrom count bits (fillers + 1) cs
    else decodeFrom count bits fillers cs
  | c :: cs =>
    match sextet? c with
    | none => decodeFrom count bits fillers cs
    | some n =>
      match count with
      | 0 => decodeFrom 1 n 0 cs
      | 1 => (decodeFrom 2 (n % 16) 0 cs).map (UInt8.ofNat (bits * 4 + n / 16) :: ·)
      | 2 => (decodeFrom 3 (n % 4) 0 cs).map (UInt8.ofNat (bits * 16 + n / 4) :: ·)
      | _ => (decodeFrom 0 0 0 cs).map (UInt8.ofNat (bits * 64 + n) :: ·)

/-- The bytes of a text; none if its last letters do not fill up. -/
def decode? (s : String) : Option (List UInt8) := decodeFrom 0 0 0 s.toList

end UiScript.Text.Base64
