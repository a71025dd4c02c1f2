import UiScript.Number.Numeral
import UiScript.Script.Text

/-!
# Coercions

How a value acts where a text, a truth value or a number is wanted.
-/

namespace UiScript.Value

def floatPageText (x : Binary64) : String :=
  match x with
  | .nan => "NaN"
  | .infinite negative => if negative then "-Infinity" else "Infinity"
  | x => Script.floatText x

mutual

/-- A value as text. The items of a list are joined by commas. -/
def asText : Value → Except NumberError String
  | .null => .ok "null"
  | .bool b => .ok (if b then "true" else "false")
  | .int n => Number.intText n
  | .float x => .ok (floatPageText x)
  | .nan _ => .ok (floatPageText .nan)
  | .str s => .ok s
  | .list items => do return String.intercalate "," (← itemTexts items)
  | .dict _ => .ok "[object Object]"

def itemTexts : List Value → Except NumberError (List String)
  | [] => .ok []
  | .null :: vs => do return "" :: (← itemTexts vs)
  | v :: vs => do
    let text ← asText v
    return text :: (← itemTexts vs)

end

def isTruthy : Value → Bool
  | .null => false
  | .bool b => b
  | .int n => n != 0
  | .float x => !(x.isNan || x.isZero)
  | .nan _ => false
  | .str s => !s.isEmpty
  | .list _ | .dict _ => true

/-- A value as a number. A blank text is zero, and a text that is no numeral is not a number. -/
def asNumber : Value → Number
  | .null => .int 0
  | .bool b => .int (if b then 1 else 0)
  | .int n => .int n
  | .float x => .float x
  | .nan _ => .float .nan
  | .str s =>
    if s.toList.all Text.isBlank then .int 0
    else
      match Numeral.readFloat s with
      | .ok x => .float x
      | .error _ => .float .nan
  | .list _ | .dict _ => .float .nan

end UiScript.Value
