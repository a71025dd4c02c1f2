import UiScript.Text.Digit

/-!
# Dates and times

A date is written as `2001-12-14`. A time may follow it, and behind the time the distance from
Greenwich. A date that no calendar has is refused.
-/

namespace UiScript.Yaml

open Text (isAsciiDigit padded)

/-! ### Days -/

/-- A day of the calendar. -/
structure Date where
  year : Nat
  month : Nat
  day : Nat
  deriving DecidableEq, Inhabited

structure Timestamp where
  date : Date
  hour : Nat
  minute : Nat
  second : Nat
  micros : Nat
  /-- The distance from Greenwich in minutes, positive to the east. -/
  offset : Option Int
  deriving DecidableEq, Inhabited

/-- Why a date or time does not exist. -/
inductive CalendarError where
  | year (n : Nat)
  | month
  | day
  | hour
  | minute
  | second
  | offset (minutes : Int)
  deriving DecidableEq, Inhabited

namespace Timestamp

def daysAndSeconds (minutes : Int) : Int × Int :=
  let days := minutes.fdiv 1440
  (days, (minutes - days * 1440) * 60)

/-- A distance in time as it is shown; parts that are zero are left out. -/
def shownDistance (minutes : Int) : String :=
  let (days, seconds) := daysAndSeconds minutes
  let parts := (if days == 0 then [] else [s!"days={days}"]) ++
    (if seconds == 0 then [] else [s!"seconds={seconds}"])
  "datetime.timedelta(" ++ (if parts.isEmpty then "0" else String.intercalate ", " parts) ++ ")"

end Timestamp

def CalendarError.message : CalendarError → String
  | .year n => s!"year {n} is out of range"
  | .month => "month must be in 1..12"
  | .day => "day is out of range for month"
  | .hour => "hour must be in 0..23"
  | .minute => "minute must be in 0..59"
  | .second => "second must be in 0..59"
  | .offset minutes =>
    "offset must be a timedelta strictly between -timedelta(hours=24) and timedelta(hours=24), " ++
      s!"not {Timestamp.shownDistance minutes}."

namespace Date

def isLeapYear (year : Nat) : Bool := year % 4 == 0 && (year % 100 != 0 || year % 400 == 0)

def daysIn (year month : Nat) : Nat :=
  if month == 2 then if isLeapYear year then 29 else 28
  else if [4, 6, 9, 11].contains month then 30
  else 31

def make (year month day : Nat) : Except CalendarError Date :=
  if year == 0 || 9999 < year then .error (.year year)
  else if month == 0 || 12 < month then .error .month
  else if day == 0 || daysIn year month < day then .error .day
  else .ok { year, month, day }

def text (d : Date) : String :=
  String.intercalate "-" [padded 4 d.year, padded 2 d.month, padded 2 d.day]

/-- How a day is shown inside another value. -/
def shown (d : Date) : String := s!"datetime.date({d.year}, {d.month}, {d.day})"

/-- The days since the start of the calendar. -/
def ordinal (d : Date) : Nat :=
  let before := d.year - 1
  let months := ((List.range (d.month - 1)).map fun m => daysIn d.year (m + 1)).foldl (· + ·) 0
  before * 365 + before / 4 - before / 100 + before / 400 + months + d.day

end Date

namespace Timestamp

def make (year month day hour minute second micros : Nat) (offset : Option Int) :
    Except CalendarError Timestamp := do
  match offset with
  | some minutes => if 1440 ≤ minutes.natAbs then throw (.offset minutes)
  | none => pure ()
  let date ← Date.make year month day
  if 23 < hour then throw .hour
  if 59 < minute then throw .minute
  if 59 < second then throw .second
  return { date, hour, minute, second, micros, offset }

/-- The distance from Greenwich as it follows a time. -/
def offsetText (minutes : Int) : String :=
  let n := minutes.natAbs
  (if minutes < 0 then "-" else "+") ++ padded 2 (n / 60) ++ ":" ++ padded 2 (n % 60)

def text (t : Timestamp) : String :=
  let clock := String.intercalate ":" [padded 2 t.hour, padded 2 t.minute, padded 2 t.second]
  let fraction := if t.micros == 0 then "" else "." ++ padded 6 t.micros
  t.date.text ++ " " ++ clock ++ fraction ++ (t.offset.map offsetText).getD ""

/-- How a time is shown inside another value: without seconds that are zero. -/
def shown (t : Timestamp) : String :=
  let seconds :=
    if t.micros != 0 then [t.second, t.micros] else if t.second != 0 then [t.second] else []
  let numbers := [t.date.year, t.date.month, t.date.day, t.hour, t.minute] ++ seconds
  let zone := match t.offset with
    | none => []
    | some 0 => ["tzinfo=datetime.timezone.utc"]
    | some minutes => [s!"tzinfo=datetime.timezone({shownDistance minutes})"]
  "datetime.datetime(" ++ String.intercalate ", " (numbers.map toString ++ zone) ++ ")"

/-- The seconds since the start of the calendar in Greenwich, or at the place itself if its
distance is not known. -/
def seconds (t : Timestamp) : Int :=
  (t.date.ordinal : Int) * 86400 + (t.hour * 3600 + t.minute * 60 + t.second : Nat) -
    t.offset.getD 0 * 60

/-- The same moment. One whose distance from Greenwich is not known equals no other kind. -/
def same (a b : Timestamp) : Bool :=
  a.offset.isSome == b.offset.isSome && a.seconds == b.seconds && a.micros == b.micros

/-! ### As it is written -/

/-- What follows a date. -/
structure WrittenTime where
  hour : Nat
  minute : Nat
  second : Nat
  fraction : List Char
  offset : Option Int

structure Written where
  year : Nat
  month : Nat
  day : Nat
  /-- The month and the day have two digits each. -/
  isFull : Bool
  time : Option WrittenTime

/-- As many digits as there are, within bounds, their number and what follows them. -/
def digits? (least most : Nat) (cs : List Char) : Option (Nat × Nat × List Char) :=
  let ds := (cs.take most).takeWhile isAsciiDigit
  if ds.length < least then none
  else some (ds.foldl (fun n d => 10 * n + (d.toNat - '0'.toNat)) 0, ds.length, cs.drop ds.length)

def behind? (c : Char) : List Char → Option (List Char)
  | d :: cs => if c == d then some cs else none
  | [] => none

/-- The end of a text, before which one line feed may stand. -/
def isEnd (cs : List Char) : Bool := cs == [] || cs == ['\n']

def isBlankOrTab (c : Char) : Bool := c == ' ' || c == '\t'

/-- The distance from Greenwich that fills the rest of a text. -/
def zone? (cs : List Char) : Option Int :=
  match cs with
  | 'Z' :: rest => if isEnd rest then some 0 else none
  | sign :: rest => do
    if sign != '-' && sign != '+' then none
    let (hours, _, rest) ← digits? 1 2 rest
    let (minutes, rest) ←
      match rest with
      | ':' :: more => do
        let (minutes, _, more) ← digits? 2 2 more
        some (minutes, more)
      | _ => some (0, rest)
    let distance : Int := hours * 60 + minutes
    if isEnd rest then some (if sign == '-' then -distance else distance) else none
  | [] => none

/-- The time that fills the rest of a text. -/
def time? (cs : List Char) : Option WrittenTime := do
  let (hour, _, cs) ← digits? 1 2 cs
  let (minute, _, cs) ← digits? 2 2 (← behind? ':' cs)
  let (second, _, cs) ← digits? 2 2 (← behind? ':' cs)
  let (fraction, cs) :=
    match cs with
    | '.' :: rest => (rest.takeWhile isAsciiDigit, rest.dropWhile isAsciiDigit)
    | _ => ([], cs)
  if isEnd cs then some { hour, minute, second, fraction, offset := none }
  else
    let offset ← zone? (cs.dropWhile isBlankOrTab)
    some { hour, minute, second, fraction, offset := some offset }

/-- Where the time behind a date starts. -/
def clock? : List Char → Option (List Char)
  | [] => none
  | c :: cs =>
    if c == 'T' || c == 't' then some cs
    else if isBlankOrTab c then some (cs.dropWhile isBlankOrTab)
    else none

/-- Reads a date with or without a time. -/
def written? (s : String) : Option Written := do
  let (year, _, cs) ← digits? 4 4 s.toList
  let (month, m, cs) ← digits? 1 2 (← behind? '-' cs)
  let (day, d, cs) ← digits? 1 2 (← behind? '-' cs)
  let isFull := m == 2 && d == 2
  if isEnd cs then some { year, month, day, isFull, time := none }
  else
    let time ← time? (← clock? cs)
    some { year, month, day, isFull, time := some time }

/-- A text that stands for a date or time by itself. A date alone must be written in full. -/
def isWritten (s : String) : Bool := (written? s).any fun w => w.isFull || w.time.isSome

/-- The first six digits of a fraction of a second. -/
def microsOf (fraction : List Char) : Nat :=
  let ds := fraction.take 6
  ((ds ++ List.replicate (6 - ds.length) '0').foldl (fun n d => 10 * n + (d.toNat - '0'.toNat)) 0)

end Timestamp

end UiScript.Yaml
