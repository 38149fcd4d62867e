/-! Timestamps. Days of the Gregorian calendar, with or without a time of day and its distance from
universal time. A reader may write any digits; `check` refuses those that are no day or time. -/

namespace FunctionStudy

/-- A time of day; the offset is in seconds east of universal time. -/
structure ClockTime where
  hour : Nat
  minute : Nat
  second : Nat
  microsecond : Nat
  offset : Option Int
deriving DecidableEq

structure Timestamp where
  year : Nat
  month : Nat
  day : Nat
  time : Option ClockTime
deriving DecidableEq

/-- What a timestamp can lack. -/
inductive CalendarError where
  | year (n : Nat)
  | month
  | day
  | hour
  | minute
  | second
  | offset (seconds : Int)
deriving DecidableEq

/-- A length of time as days and seconds of a day, without the parts that are 0. -/
def durationText (seconds : Int) : String :=
  let days := seconds / 86400
  let rest := seconds % 86400
  let parts := (if days = 0 then [] else [s!"days={days}"]) ++
    (if rest = 0 then [] else [s!"seconds={rest}"])
  "datetime.timedelta(" ++ (if parts.isEmpty then "0" else ", ".intercalate parts) ++ ")"

def CalendarError.message : CalendarError → String
  | .year n => s!"year {n} is out of range"
  | .month => "month must be in 1..12"
  | .day => "day is out of range for month"
  | .hour => "hour must be in 0..23"
  | .minute => "minute must be in 0..59"
  | .second => "second must be in 0..59"
  | .offset seconds =>
    "offset must be a timedelta strictly between -timedelta(hours=24) and timedelta(hours=24), not "
      ++ durationText seconds ++ "."

def isLeapYear (year : Nat) : Bool := year % 4 = 0 ∧ (year % 100 ≠ 0 ∨ year % 400 = 0)

def daysInMonth (year month : Nat) : Nat :=
  if month = 2 then (if isLeapYear year then 29 else 28)
  else if month = 4 ∨ month = 6 ∨ month = 9 ∨ month = 11 then 30
  else 31

def padNumber (width n : Nat) : String :=
  let digits := Nat.toDigits 10 n
  String.ofList (List.replicate (width - digits.length) '0' ++ digits)

namespace ClockTime

def text (t : ClockTime) : String :=
  padNumber 2 t.hour ++ ":" ++ padNumber 2 t.minute ++ ":" ++ padNumber 2 t.second ++
    (if t.microsecond = 0 then "" else "." ++ padNumber 6 t.microsecond) ++
    match t.offset with
    | none => ""
    | some offset =>
      let minutes := offset.natAbs / 60
      (if offset < 0 then "-" else "+") ++ padNumber 2 (minutes / 60) ++ ":" ++
        padNumber 2 (minutes % 60)

/-- The numbers of a time of day; zeros at the end are left out after the minute. -/
def fields (t : ClockTime) : List Nat :=
  if t.microsecond ≠ 0 then [t.hour, t.minute, t.second, t.microsecond]
  else if t.second ≠ 0 then [t.hour, t.minute, t.second]
  else [t.hour, t.minute]

def innerOffset (t : ClockTime) : String :=
  match t.offset with
  | none => ""
  | some 0 => ", tzinfo=datetime.timezone.utc"
  | some offset => ", tzinfo=datetime.timezone(" ++ durationText offset ++ ")"

def check (t : ClockTime) : Except CalendarError Unit := do
  if 24 ≤ t.hour then throw .hour
  if 60 ≤ t.minute then throw .minute
  if 60 ≤ t.second then throw .second

end ClockTime

namespace Timestamp

def text (t : Timestamp) : String :=
  padNumber 4 t.year ++ "-" ++ padNumber 2 t.month ++ "-" ++ padNumber 2 t.day ++
    match t.time with
    | none => ""
    | some time => " " ++ time.text

/-- How a timestamp appears inside another value. -/
def inner (t : Timestamp) : String :=
  let day := [t.year, t.month, t.day]
  let shown (numbers : List Nat) : String := ", ".intercalate (numbers.map toString)
  match t.time with
  | none => "datetime.date(" ++ shown day ++ ")"
  | some time => "datetime.datetime(" ++ shown (day ++ time.fields) ++ time.innerOffset ++ ")"

def kindName (t : Timestamp) : String :=
  if t.time.isNone then "datetime.date" else "datetime.datetime"

/-- Accepts days and times that exist, with an offset of less than a day. -/
def check (t : Timestamp) : Except CalendarError Timestamp := do
  match t.time.bind (·.offset) with
  | some offset => if 86400 ≤ offset.natAbs then throw (.offset offset)
  | none => pure ()
  if t.year = 0 ∨ 9999 < t.year then throw (.year t.year)
  if t.month = 0 ∨ 12 < t.month then throw .month
  if t.day = 0 ∨ daysInMonth t.year t.month < t.day then throw .day
  match t.time with
  | some time => time.check
  | none => pure ()
  return t

end Timestamp
end FunctionStudy
