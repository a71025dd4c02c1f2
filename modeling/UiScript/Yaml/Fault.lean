import UiScript.Number.Numeral
import UiScript.Yaml.Timestamp

/-!
# What can be wrong with a document

Most faults are faults of the document's form. Some scalars have the form of a value and no value
all the same.
-/

namespace UiScript.Yaml

inductive Fault where
  /-- The text has not the form of a document, or a tag does not fit. -/
  | malformed
  /-- An escape names a number that no character has. -/
  | noCharacter (code : Nat)
  | numeral (error : NumeralError)
  | number (error : NumberError)
  | noDigits
  /-- A truth value is wanted. -/
  | noTruth (text : String)
  | noDate
  /-- A date is wanted and a mapping stands there. -/
  | dateOfMapping
  | calendar (error : CalendarError)
  deriving DecidableEq, Inhabited

/-- The largest code that is looked up among the characters. -/
def maxLookedUp : Nat := 0x7FFFFFFF

def Fault.message : Fault → String
  | .malformed => "<yaml>"
  | .noCharacter code =>
    if code ≤ maxLookedUp then "chr() arg not in range(0x110000)"
    else "Python int too large to convert to C int"
  | .numeral e => e.message
  | .number e => e.message
  | .noDigits => "string index out of range"
  | .noTruth text => Text.quoted text
  | .noDate => "'NoneType' object has no attribute 'groupdict'"
  | .dateOfMapping => "expected string or bytes-like object, got 'list'"
  | .calendar e => e.message

end UiScript.Yaml
