import UiScript.Eval.Coerce

/-!
# Operators
-/

namespace UiScript.Value

/-- The sum: of texts if one operand is a text, otherwise of numbers. -/
def plus (origin : Origin) (left right : Value) : Except NumberError Value :=
  let joined : Except NumberError Value := do
    let l ← left.asText
    let r ← right.asText
    return .str (l ++ r)
  match left, right with
  | .str _, _ => joined
  | _, .str _ => joined
  | _, _ => ofNumber origin <$> left.asNumber.add right.asNumber

/-- The order of two texts by their characters, otherwise of two numbers. -/
def compare? : Value → Value → Option Ordering
  | .str a, .str b => some (if a < b then .lt else if a == b then .eq else .gt)
  | a, b => a.asNumber.compare? b.asNumber

/-- Applies an operator that evaluates both operands. An unknown one gives null. The origin is that
of a result that is not a number, unless it comes from a division by zero. -/
def binary (origin : Origin) (op : String) (left right : Value) : Except NumberError Value :=
  let arithmetic (f : Number → Number → Except NumberError Number) : Except NumberError Value :=
    ofNumber origin <$> f left.asNumber right.asNumber
  let division (f : Number → Number → Except NumberError Number) : Except NumberError Value :=
    let origin := if right.asNumber.isZero then .shared else origin
    ofNumber origin <$> f left.asNumber right.asNumber
  let ordered (holds : Ordering → Bool) : Except NumberError Value :=
    .ok (.bool ((compare? left right).any holds))
  match op with
  | "+" => plus origin left right
  | "-" => arithmetic Number.sub
  | "*" => arithmetic Number.mul
  | "/" => division Number.div
  | "%" => division Number.rem
  | "==" => .ok (.bool (left.same right))
  | "!=" => .ok (.bool !(left.same right))
  | "<" => ordered (· == .lt)
  | ">" => ordered (· == .gt)
  | "<=" => ordered (· != .gt)
  | ">=" => ordered (· != .lt)
  | _ => .ok .null

/-- The item at an index that a number gives; null if it gives none. -/
def itemAt (items : List Value) (index : Number) : Except NumberError Value := do
  let x ← index.toFloat
  match x.toInt?, index with
  | none, _ => return .null
  | some _, .int n | some n, .float _ =>
    if n < 0 then return .null else return (items[n.toNat]?).getD .null

def sequenceMember (items : List Value) : Value → Except NumberError Value
  | .str key => .ok (if key == "length" then .int items.length else .null)
  | .int n => itemAt items (.int n)
  | .float x => itemAt items (.float x)
  | _ => .ok .null

def member : Value → Value → Except NumberError Value
  | .dict entries, .str key => .ok ((Dict.get? entries key).getD .null)
  | .dict entries, key => do return (Dict.get? entries (← key.asText)).getD .null
  | .list items, key => sequenceMember items key
  | .str s, key => sequenceMember (s.toList.map fun c => .str c.toString) key
  | _, _ => .ok .null

end UiScript.Value
