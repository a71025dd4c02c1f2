import UiScript.Number.Binary64

/-!
# The shortest decimal of a binary number

The decimal of a number is the one with the fewest digits that rounds back to it; among those the
one nearest to it, and of two equally near ones the even one.
-/

namespace UiScript.Binary64

/-- The reals that round to `mantissa * 2 ^ exponent`, in quarters of the last place: the lower end,
the number, the upper end. The gap below a power of two is half as wide. -/
def quarters (mantissa : Nat) (exponent : Int) : Nat × Nat × Nat :=
  let low := if mantissa == twoTo 52 && minExponent < exponent then 4 * mantissa - 1
    else 4 * mantissa - 2
  (low, 4 * mantissa, 4 * mantissa + 2)

/-- The greatest `p` with `10 ^ p ≤ num / den`, for a positive ratio. -/
def floorLog10 (num den : Nat) : Int :=
  let atLeast (p : Int) : Bool :=
    if 0 ≤ p then den * tenTo p.toNat ≤ num else den ≤ num * tenTo (-p).toNat
  let guess := (floorLog2 num den * 30103).fdiv 100000
  if atLeast (guess + 1) then guess + 1 else if atLeast guess then guess else guess - 1

/-- The multiple of `10 ^ unit` that stands for the number among decimals of that grid, if one of
the two neighbours rounds back to it. The three values are numerators over `den`. -/
def onGrid? (closed : Bool) (low value high den : Nat) (unit : Int) : Option Nat :=
  -- all is measured in units of the grid: `x` stands for `x / step`
  let (factor, step) :=
    if 0 ≤ unit then (1, den * tenTo unit.toNat) else (tenTo (-unit).toNat, den)
  let below := value * factor / step
  let inside (d : Nat) : Bool :=
    if closed then low * factor ≤ d * step && d * step ≤ high * factor
    else low * factor < d * step && d * step < high * factor
  let gapBelow := value * factor - below * step
  let gapAbove := (below + 1) * step - value * factor
  match inside below, inside (below + 1) with
  | true, true =>
    if gapBelow < gapAbove || (gapBelow == gapAbove && below % 2 == 0) then some below
    else some (below + 1)
  | true, false => some below
  | false, true => some (below + 1)
  | false, false => none

/-- The first grid, from coarse to fine, that holds a decimal which rounds back. -/
def searchGrid (closed : Bool) (low value high den : Nat) : Nat → Int → Nat × Int
  | 0, unit => (value / den, unit)
  | left + 1, unit =>
    match onGrid? closed low value high den unit with
    | some d => (d, unit)
    | none => searchGrid closed low value high den left (unit - 1)

/-- The shortest decimal `digits * 10 ^ unit` of a positive finite number. -/
def shortest (mantissa : Nat) (exponent : Int) : Nat × Int :=
  let (low, value, high) := quarters mantissa exponent
  let power := twoTo (exponent - 2).natAbs
  let (factor, den) := if 2 ≤ exponent then (power, 1) else (1, power)
  searchGrid (mantissa % 2 == 0) (low * factor) (value * factor) (high * factor) den 20
    (floorLog10 (value * factor) den)

/-- A decimal exponent, signed and of at least two digits. -/
def exponentText (e : Int) : String :=
  let digits := toString e.natAbs
  (if e < 0 then "-" else "+") ++ (if digits.length < 2 then "0" ++ digits else digits)

/-- The text of `0.digits * 10 ^ point`: positional from `1e-4` up to below `1e16`, otherwise with
an exponent. A positional text always shows a point. -/
def decimalText (digits : List Char) (point : Int) : String :=
  let text := String.ofList
  if -4 < point && point ≤ 16 then
    if point ≤ 0 then "0." ++ text (List.replicate (-point).toNat '0' ++ digits)
    else
      let whole := point.toNat
      if digits.length ≤ whole then
        text (digits ++ List.replicate (whole - digits.length) '0') ++ ".0"
      else text (digits.take whole) ++ "." ++ text (digits.drop whole)
  else
    match digits with
    | [] => "0.0"
    | [d] => text [d] ++ "e" ++ exponentText (point - 1)
    | d :: rest => text [d] ++ "." ++ text rest ++ "e" ++ exponentText (point - 1)

def toText : Binary64 → String
  | .nan => "nan"
  | .infinite s => if s then "-inf" else "inf"
  | .finite s m e =>
    let magnitude :=
      if m == 0 then "0.0" else
        let (d, unit) := shortest m e
        let digits := Nat.toDigits 10 d
        let kept := (digits.reverse.dropWhile (· == '0')).reverse
        decimalText kept (digits.length + unit)
    if s then "-" ++ magnitude else magnitude

end UiScript.Binary64
