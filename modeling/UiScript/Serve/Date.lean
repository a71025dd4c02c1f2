import UiScript.Text.Digit

/-!
# Dates of responses

A moment is given in seconds since the start of 1970 and written as in
`Sun, 09 Sep 2001 01:46:40 GMT`.
-/

namespace UiScript.Serve.Date

open Text (padded)

def weekdays : List String := ["Mon", "Tue", "Wed", "Thu", "Fri", "Sat", "Sun"]

def months : List String :=
  ["Jan", "Feb", "Mar", "Apr", "May", "Jun", "Jul", "Aug", "Sep", "Oct", "Nov", "Dec"]

/-- The year, the month and the day of a day since the start of 1970. Years are counted from March
and grouped by four hundred, since then the leap day is the last one. -/
def civil (day : Int) : Int × Nat × Nat :=
  let shifted := day + 719468
  let era := shifted.fdiv 146097
  let dayOfEra := (shifted - era * 146097).toNat
  let yearOfEra :=
    (dayOfEra - dayOfEra / 1460 + dayOfEra / 36524 - dayOfEra / 146096) / 365
  let dayOfYear := dayOfEra - (365 * yearOfEra + yearOfEra / 4 - yearOfEra / 100)
  let fromMarch := (5 * dayOfYear + 2) / 153
  let month := if fromMarch < 10 then fromMarch + 3 else fromMarch - 9
  let year := yearOfEra + era * 400 + (if month ≤ 2 then 1 else 0)
  (year, month, dayOfYear - (153 * fromMarch + 2) / 5 + 1)

def text (seconds : Int) : String :=
  let day := seconds.fdiv 86400
  let second := (seconds - day * 86400).toNat
  let (year, month, dayOfMonth) := civil day
  let weekday := weekdays.getD (day + 3 - (day + 3).fdiv 7 * 7).toNat ""
  let monthName := months.getD (month - 1) ""
  let clock := String.intercalate ":" <|
    [second / 3600, second / 60 % 60, second % 60].map (padded 2)
  String.intercalate " "
    [weekday ++ ",", padded 2 dayOfMonth, monthName, padded 4 year.toNat, clock, "GMT"]

end UiScript.Serve.Date
