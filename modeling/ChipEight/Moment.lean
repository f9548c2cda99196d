/-
Dates and times of the proleptic Gregorian calendar, with the years `1` to `9999`. A date and time may carry an
offset from universal time.
-/
namespace ChipEight

structure Date where
  year : Nat
  month : Nat
  day : Nat
  deriving DecidableEq, Repr

structure Time where
  hour : Nat
  minute : Nat
  second : Nat
  micro : Nat
  deriving DecidableEq, Repr

namespace Date

def isLeap (year : Nat) : Bool := year % 4 == 0 && (year % 100 != 0 || year % 400 == 0)

def monthLength (year month : Nat) : Nat :=
  if month = 2 then (if isLeap year then 29 else 28)
  else if month = 4 ∨ month = 6 ∨ month = 9 ∨ month = 11 then 30 else 31

/-- is there such a day -/
def exists? (d : Date) : Bool :=
  1 ≤ d.year && d.year ≤ 9999 && 1 ≤ d.month && d.month ≤ 12 && 1 ≤ d.day
    && d.day ≤ monthLength d.year d.month

end Date

/-- a day, a time of day, or both with an optional offset in minutes -/
inductive Moment where
  | date (d : Date)
  | time (t : Time)
  | dateTime (d : Date) (t : Time) (offset : Option Int)
  deriving DecidableEq, Repr

namespace Moment

/-- hour and minute, and the second and its fraction as far as they are not zero -/
def timeParts (t : Time) : List Nat :=
  [t.hour, t.minute] ++ (if t.second = 0 ∧ t.micro = 0 then [] else [t.second])
    ++ (if t.micro = 0 then [] else [t.micro])

def dateParts (d : Date) : List Nat := [d.year, d.month, d.day]

def commas (parts : List String) : String := ", ".intercalate parts

/-- an offset as a length of days and seconds, the seconds never negative -/
def offsetText (minutes : Int) : String :=
  if minutes = 0 then "datetime.timezone.utc"
  else if minutes < 0 then
    "datetime.timezone(datetime.timedelta(days=-1, seconds=" ++ toString (86400 + minutes * 60) ++ "))"
  else "datetime.timezone(datetime.timedelta(seconds=" ++ toString (minutes * 60) ++ "))"

def text : Moment → String
  | date d => "datetime.date(" ++ commas ((dateParts d).map toString) ++ ")"
  | time t => "datetime.time(" ++ commas ((timeParts t).map toString) ++ ")"
  | dateTime d t offset =>
    let zone := offset.toList.map fun o => "tzinfo=" ++ offsetText o
    "datetime.datetime(" ++ commas ((dateParts d ++ timeParts t).map toString ++ zone) ++ ")"

end Moment

end ChipEight
