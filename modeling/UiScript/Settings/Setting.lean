import UiScript.Value.Basic
import UiScript.Number.Numeral
import UiScript.Yaml.Document

/-!
# Single settings

What a value of a settings file is worth as a switch, as a text, as a list of patterns and as a
number of seconds, whatever the file is written in.
-/

namespace UiScript.Settings

/-- Why a value does not fit its key. -/
inductive ValueError where
  | numeral (error : NumeralError)
  | number (error : NumberError)
  | noNumeral (shown : String)
  /-- A value of a kind that is no number. -/
  | noNumber (kind : String)
  deriving DecidableEq, Inhabited

def ValueError.message : ValueError → String
  | .numeral e => e.message
  | .number e => e.message
  | .noNumeral shown => "could not convert string to float: " ++ shown
  | .noNumber kind => s!"float() argument must be a string or a real number, not '{kind}'"

structure Setting where
  /-- As a switch: all but zero, nothing and the empty is on. -/
  isOn : Bool
  text : Except ValueError String
  items : Option (List (Except ValueError String))
  seconds : Except ValueError Binary64

namespace Setting

def secondsOfInt (n : Int) : Except ValueError Binary64 :=
  (Number.toFloat (.int n)).mapError .number

def secondsOfBool (b : Bool) : Except ValueError Binary64 := secondsOfInt (if b then 1 else 0)

def secondsOfText (s : String) : Except ValueError Binary64 :=
  (Numeral.readFloat s).mapError .numeral

/-! ### Values -/

def isOnValue : Value → Bool
  | .null => false
  | .bool b => b
  | .int n => n != 0
  | .float x => !x.isZero
  | .nan _ => true
  | .str s => !s.isEmpty
  | .list items => !items.isEmpty
  | .dict entries => !entries.isEmpty

def secondsOfValue : Value → Except ValueError Binary64
  | .null => .error (.noNumber "NoneType")
  | .bool b => secondsOfBool b
  | .int n => secondsOfInt n
  | .float x => .ok x
  | .nan _ => .ok .nan
  | .str s => secondsOfText s
  | .list _ => .error (.noNumber "list")
  | .dict _ => .error (.noNumber "dict")

def ofValue (v : Value) : Setting where
  isOn := isOnValue v
  text := v.display.mapError .number
  items := match v with
    | .list items => some (items.map fun item => item.display.mapError .number)
    | _ => none
  seconds := secondsOfValue v

/-! ### Data of documents -/

open Yaml (Datum)

def isOnDatum : Datum → Bool
  | .null => false
  | .bool b => b
  | .int n => n != 0
  | .float x => !x.isZero
  | .text s => !s.isEmpty
  | .bytes bs => !bs.isEmpty
  | .date _ | .time _ => true
  | .list items => !items.isEmpty
  | .set keys => !keys.isEmpty
  | .pairs entries | .dict entries => !entries.isEmpty

/-- Bytes write a number as the text of their characters does. -/
def secondsOfBytes (bs : List UInt8) : Except ValueError Binary64 :=
  let error : Except ValueError Binary64 := .error (.noNumeral (Datum.shownBytes bs))
  if bs.all (·.toNat < 0x80) then
    match Numeral.readFloat (String.ofList (bs.map fun b => Char.ofNat b.toNat)) with
    | .ok x => .ok x
    | .error _ => error
  else error

def secondsOfDatum : Datum → Except ValueError Binary64
  | .null => .error (.noNumber "NoneType")
  | .bool b => secondsOfBool b
  | .int n => secondsOfInt n
  | .float x => .ok x
  | .text s => secondsOfText s
  | .bytes bs => secondsOfBytes bs
  | .date _ => .error (.noNumber "datetime.date")
  | .time _ => .error (.noNumber "datetime.datetime")
  | .list _ | .pairs _ => .error (.noNumber "list")
  | .set _ => .error (.noNumber "set")
  | .dict _ => .error (.noNumber "dict")

def ofNode (doc : Yaml.Document) (id : Nat) : Setting where
  isOn := isOnDatum (doc.datum id)
  text := (doc.display id).mapError .number
  items := (doc.itemTexts? id).map fun texts => texts.map fun text => text.mapError .number
  seconds := secondsOfDatum (doc.datum id)

end Setting

end UiScript.Settings
