/-!
# Binary floating point of 64 bits

A number is not-a-number, an infinity, or a signed `mantissa * 2 ^ exponent`. Every operation
computes its exact result as a ratio of natural numbers and rounds it once, to the nearest number,
a tie going to the even mantissa.
-/

namespace UiScript

/-- A binary floating point number. The finite ones that the operations below build have a mantissa
below `2 ^ 53` and an exponent of at least `-1074`, and the mantissa is at least `2 ^ 52` unless the
exponent is `-1074`. -/
inductive Binary64 where
  | nan
  | infinite (negative : Bool)
  | finite (negative : Bool) (mantissa : Nat) (exponent : Int)
  deriving DecidableEq, Inhabited

namespace Binary64

/-- The least exponent of a finite number. -/
def minExponent : Int := -1074

/-- The greatest exponent of a finite number. -/
def maxExponent : Int := 971

/-- Zero of either sign. -/
def zero (negative : Bool) : Binary64 := .finite negative 0 minExponent

/-! ### Rounding -/

def twoTo (n : Nat) : Nat := Nat.pow 2 n

def tenTo (n : Nat) : Nat := Nat.pow 10 n

def scale (num den : Nat) (e : Int) : Nat × Nat :=
  if 0 ≤ e then (num * twoTo e.toNat, den) else (num, den * twoTo (-e).toNat)

/-- `num / den` to the nearest natural number, a tie going to the even one. -/
def roundQuotient (num den : Nat) : Nat :=
  let q := num / den
  let r := num % den
  if den < 2 * r || (den == 2 * r && q % 2 == 1) then q + 1 else q

/-- The greatest `e` with `2 ^ e ≤ num / den`, for a positive ratio. -/
def floorLog2 (num den : Nat) : Int :=
  let guess : Int := (num.log2 : Int) - den.log2
  let (n, d) := scale num den (-guess)
  if n < d then guess - 1 else guess

/-- The number with a rounded mantissa, which may have reached the next power of two. -/
def pack (negative : Bool) (mantissa : Nat) (exponent : Int) : Binary64 :=
  let (m, e) := if mantissa == twoTo 53 then (twoTo 52, exponent + 1) else (mantissa, exponent)
  if maxExponent < e then .infinite negative else .finite negative m e

/-- The number nearest to `num / den` with the given sign. -/
def ofRatio (negative : Bool) (num den : Nat) : Binary64 :=
  if num == 0 then zero negative else
    let e := max (floorLog2 num den - 52) minExponent
    let (n, d) := scale num den (-e)
    pack negative (roundQuotient n d) e

/-- The number nearest to `num / den * 2 ^ e` with the given sign. -/
def ofScaled (negative : Bool) (num den : Nat) (e : Int) : Binary64 :=
  let (n, d) := scale num den e
  ofRatio negative n d

/-- The number nearest to an integer, or `none` if it is beyond the finite numbers. -/
def ofInt? (n : Int) : Option Binary64 :=
  match ofRatio (n < 0) n.natAbs 1 with
  | .infinite _ => none
  | x => some x

/-- The number nearest to the decimal `digits * 10 ^ exponent`. Far beyond the range of the finite
numbers the power of ten is not computed. -/
def ofDecimal (negative : Bool) (digits : Nat) (exponent : Int) : Binary64 :=
  let size : Int := (Nat.toDigits 10 digits).length
  if digits == 0 || size + exponent < -400 then zero negative
  else if 400 < size + exponent then .infinite negative
  else if 0 ≤ exponent then ofRatio negative (digits * tenTo exponent.toNat) 1
  else ofRatio negative digits (tenTo (-exponent).toNat)

/-! ### Views -/

def signed (negative : Bool) (n : Nat) : Int := if negative then -(n : Int) else n

/-- The sign bit; not-a-number counts as positive. -/
def isNegative : Binary64 → Bool
  | .nan => false
  | .infinite s => s
  | .finite s _ _ => s

def isNan : Binary64 → Bool
  | .nan => true
  | _ => false

/-- Either of the two zeros. -/
def isZero : Binary64 → Bool
  | .finite _ 0 _ => true
  | _ => false

/-- The largest integer that is not above the number; only a finite one has it. -/
def floor? : Binary64 → Option Int
  | .finite s m e =>
    if 0 ≤ e then some (signed s (m * twoTo e.toNat))
    else some ((signed s m).fdiv (twoTo (-e).toNat))
  | _ => none

def toInt? : Binary64 → Option Int
  | .finite s m e =>
    if 0 ≤ e then some (signed s (m * twoTo e.toNat))
    else
      let d := twoTo (-e).toNat
      if m % d == 0 then some (signed s (m / d)) else none
  | _ => none

/-! ### Arithmetic -/

protected def neg : Binary64 → Binary64
  | .nan => .nan
  | .infinite s => .infinite !s
  | .finite s m e => .finite (!s) m e

/-- A sum that is exactly zero is negative only if both terms are. -/
protected def add : Binary64 → Binary64 → Binary64
  | .nan, _ => .nan
  | _, .nan => .nan
  | .infinite s, .infinite t => if s == t then .infinite s else .nan
  | .infinite s, _ => .infinite s
  | _, .infinite t => .infinite t
  | .finite s m e, .finite t n f =>
    let base := min e f
    let total :=
      signed s (m * twoTo (e - base).toNat) + signed t (n * twoTo (f - base).toNat)
    if total == 0 then zero (s && t) else ofScaled (total < 0) total.natAbs 1 base

protected def sub (x y : Binary64) : Binary64 := x.add y.neg

protected def mul : Binary64 → Binary64 → Binary64
  | .nan, _ => .nan
  | _, .nan => .nan
  | .infinite s, y => if y.isZero then .nan else .infinite (s != y.isNegative)
  | x, .infinite t => if x.isZero then .nan else .infinite (x.isNegative != t)
  | .finite s m e, .finite t n f => ofScaled (s != t) (m * n) 1 (e + f)

/-- A zero divisor gives an infinity, and not-a-number for a zero dividend. -/
protected def div : Binary64 → Binary64 → Binary64
  | .nan, _ => .nan
  | _, .nan => .nan
  | .infinite _, .infinite _ => .nan
  | .infinite s, .finite t _ _ => .infinite (s != t)
  | .finite s _ _, .infinite t => zero (s != t)
  | .finite s m e, .finite t n f =>
    if n == 0 then (if m == 0 then .nan else .infinite (s != t))
    else ofScaled (s != t) m n (e - f)

/-- The remainder of the quotient rounded toward zero, with the sign of the dividend. It does not
exist for an infinite dividend or a zero divisor. -/
def rem? : Binary64 → Binary64 → Option Binary64
  | .nan, _ => some .nan
  | _, .nan => some .nan
  | .infinite _, _ => none
  | x, .infinite _ => some x
  | .finite s m e, .finite _ n f =>
    if n == 0 then none else
      let base := min e f
      let rest := m * twoTo (e - base).toNat % (n * twoTo (f - base).toNat)
      some (ofScaled s rest 1 base)

/-! ### Order -/

/-- The order of two numbers by value; not-a-number has no order. -/
def compare? : Binary64 → Binary64 → Option Ordering
  | .nan, _ => none
  | _, .nan => none
  | .infinite s, .infinite t => some (compare (signed s 1) (signed t 1))
  | .infinite s, .finite _ _ _ => some (if s then .lt else .gt)
  | .finite _ _ _, .infinite t => some (if t then .gt else .lt)
  | .finite s m e, .finite t n f =>
    let base := min e f
    some (compare (signed s (m * twoTo (e - base).toNat))
      (signed t (n * twoTo (f - base).toNat)))

/-- The order of an integer and a number by exact value. -/
def compareInt? (n : Int) : Binary64 → Option Ordering
  | .nan => none
  | .infinite s => some (if s then .gt else .lt)
  | .finite s m e =>
    if 0 ≤ e then some (compare n (signed s (m * twoTo e.toNat)))
    else some (compare (n * twoTo (-e).toNat) (signed s m))

end Binary64

end UiScript
