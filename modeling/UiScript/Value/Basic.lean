import UiScript.Number.Basic
import UiScript.Place
import UiScript.Text.Quoted
import UiScript.Value.Dict

/-!
# Values

Dynamic data: what a settings file holds, what a component is given and what an expression
evaluates to. Integers and floating point numbers are kept apart.
-/

namespace UiScript

/-- Where a result that is not a number comes from. Two of them are the same if they come from the
same place. -/
inductive Origin where
  /-- Something is no number, or is divided by zero. -/
  | shared
  | given (label : List Nat)
  /-- Calculated at a place of the source. -/
  | calculated (place : Option Place)
  deriving DecidableEq, Inhabited

/-- The same origin; of a place that is not known nothing can be said. -/
def Origin.same : Origin → Origin → Bool
  | .calculated none, _ => false
  | a, b => a == b

inductive Value where
  | null
  | bool (b : Bool)
  | int (n : Int)
  | float (x : Binary64)
  /-- A floating point result that is not a number. -/
  | nan (origin : Origin)
  | str (s : String)
  | list (items : List Value)
  | dict (entries : List (String × Value))
  deriving Inhabited

namespace Value

/-- A floating point number as a value; the origin is for one that is not a number. -/
def ofFloat (origin : Origin) : Binary64 → Value
  | .nan => .nan origin
  | x => .float x

def ofNumber (origin : Origin) : Number → Value
  | .int n => .int n
  | .float x => ofFloat origin x

/-- The number that a value counts as in a comparison: a truth value is zero or one. -/
def number? : Value → Option Number
  | .bool b => some (.int (if b then 1 else 0))
  | .int n => some (.int n)
  | .float x => some (.float x)
  | .nan _ => some (.float .nan)
  | _ => none

/-! ### Equality -/

mutual

/-- Equality inside a list or dictionary. There what is not a number equals itself. -/
def sameItem : Value → Value → Bool
  | .nan a, .nan b => a.same b
  | .null, .null => true
  | .str s, .str t => s == t
  | .list xs, .list ys => sameItems xs ys
  | .dict d, .dict e => d.length == e.length && sameEntries d e
  | a, b =>
    match a.number?, b.number? with
    | some x, some y => x.same y
    | _, _ => false

/-- Equality of two lists, item by item. -/
def sameItems : List Value → List Value → Bool
  | [], [] => true
  | x :: xs, y :: ys => sameItem x y && sameItems xs ys
  | _, _ => false

/-- Every entry of the first dictionary has an equal one in the second. -/
def sameEntries : List (String × Value) → Dict Value → Bool
  | [], _ => true
  | (k, v) :: rest, e =>
    (match e.get? k with
      | some w => sameItem v w
      | none => false) && sameEntries rest e

end

/-- Equality of two values: numbers by exact value, truth values as zero and one, lists item by
item, dictionaries whatever their order. -/
def same : Value → Value → Bool
  | .nan _, _ => false
  | a, b => sameItem a b

/-! ### Display -/

mutual

/-- How a value is shown inside another one. -/
def shown : Value → Except NumberError String
  | .null => .ok "None"
  | .bool b => .ok (if b then "True" else "False")
  | .int n => Number.intText n
  | .float x => .ok x.toText
  | .nan _ => .ok Binary64.nan.toText
  | .str s => .ok (Text.quoted s)
  | .list items => do return "[" ++ String.intercalate ", " (← shownItems items) ++ "]"
  | .dict entries => do
    return "\x7b" ++ String.intercalate ", " (← shownEntries entries) ++ "\x7d"

def shownItems : List Value → Except NumberError (List String)
  | [] => .ok []
  | v :: vs => do
    let text ← shown v
    return text :: (← shownItems vs)

def shownEntries : List (String × Value) → Except NumberError (List String)
  | [] => .ok []
  | (k, v) :: rest => do
    let text ← shown v
    return (Text.quoted k ++ ": " ++ text) :: (← shownEntries rest)

end

/-- A value as plain text: a string as it is, all else as it is shown. -/
def display : Value → Except NumberError String
  | .str s => .ok s
  | v => shown v

end Value

end UiScript
