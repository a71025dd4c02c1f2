import UiScript.Number.Shortest

/-!
# Numbers

A number is an integer of any size or a binary floating point number. Operations on two integers
stay exact, apart from division; an integer that meets a floating point number is rounded to one.
-/

namespace UiScript

/-- Why an operation on numbers has no result. -/
inductive NumberError where
  /-- The quotient of two integers is beyond the floating point numbers. -/
  | quotientTooLarge
  /-- An integer is beyond the floating point numbers. -/
  | integerTooLarge
  /-- The remainder of an infinite dividend. -/
  | noRemainder
  | tooManyDigits
  deriving DecidableEq, Inhabited

/-- The most digits of an integer that is read or written. -/
def maxIntegerDigits : Nat := 4300

/-- The hint that ends a message about too many digits. -/
def digitLimitHint : String := "use sys.set_int_max_str_digits() to increase the limit"

def NumberError.message : NumberError → String
  | .quotientTooLarge => "integer division result too large for a float"
  | .integerTooLarge => "int too large to convert to float"
  | .noRemainder => "math domain error"
  | .tooManyDigits =>
    s!"Exceeds the limit ({maxIntegerDigits} digits) for integer string conversion; " ++
      digitLimitHint

inductive Number where
  | int (n : Int)
  | float (x : Binary64)
  deriving DecidableEq, Inhabited

namespace Number

/-- The text of an integer that does not have too many digits. -/
def intText (n : Int) : Except NumberError String :=
  let text := toString n
  if maxIntegerDigits < (toString n.natAbs).length then .error .tooManyDigits else .ok text

def toFloat : Number → Except NumberError Binary64
  | .float x => .ok x
  | .int n =>
    match Binary64.ofInt? n with
    | some x => .ok x
    | none => .error .integerTooLarge

/-- Applies an operation to two numbers as floating point numbers. -/
def onFloats (op : Binary64 → Binary64 → Binary64) (a b : Number) : Except NumberError Number := do
  let x ← a.toFloat
  let y ← b.toFloat
  return .float (op x y)

def add : Number → Number → Except NumberError Number
  | .int m, .int n => .ok (.int (m + n))
  | a, b => onFloats Binary64.add a b

def sub : Number → Number → Except NumberError Number
  | .int m, .int n => .ok (.int (m - n))
  | a, b => onFloats Binary64.sub a b

def mul : Number → Number → Except NumberError Number
  | .int m, .int n => .ok (.int (m * n))
  | a, b => onFloats Binary64.mul a b

def neg : Number → Number
  | .int n => .int (-n)
  | .float x => .float x.neg

def isZero : Number → Bool
  | .int n => n == 0
  | .float x => x.isZero

/-- The quotient by a number that is not zero. That of two integers is their exact ratio, rounded
once. -/
def quotient : Number → Number → Except NumberError Number
  | .int m, .int n =>
    match Binary64.ofRatio (decide (m < 0) != decide (n < 0)) m.natAbs n.natAbs with
    | .infinite _ => .error .quotientTooLarge
    | x => .ok (.float x)
  | a, b => onFloats Binary64.div a b

/-- The quotient. A divisor of zero gives an infinity with the sign of the dividend, and
not-a-number if the dividend is zero or not-a-number. -/
def div (a b : Number) : Except NumberError Number :=
  if b.isZero then
    if a.isZero then .ok (.float .nan) else do
      let x ← a.toFloat
      return .float (if x.isNan then .nan else .infinite x.isNegative)
  else quotient a b

/-- The remainder, with the sign of the dividend; not-a-number for a divisor of zero. -/
def rem (a b : Number) : Except NumberError Number :=
  if b.isZero then .ok (.float .nan) else do
    let x ← a.toFloat
    let y ← b.toFloat
    match Binary64.rem? x y with
    | some r => return .float r
    | none => throw .noRemainder

/-- The order by exact value; not-a-number has no order. -/
def compare? : Number → Number → Option Ordering
  | .int m, .int n => some (compare m n)
  | .int m, .float y => Binary64.compareInt? m y
  | .float x, .int n => (Binary64.compareInt? n x).map Ordering.swap
  | .float x, .float y => Binary64.compare? x y

/-- Equal by exact value. -/
def same (a b : Number) : Bool := a.compare? b == some .eq

end Number

end UiScript
