/-
Dates and times of a TOML document: a day, a time of day, or both with an optional offset. A fraction of a second
may have any number of digits, of which six count. A day that the calendar does not have is refused.
-/
import ChipEight.Toml.Number

namespace ChipEight.Toml

/-- the value of a decimal digit -/
def digit? (c : Char) : Option Nat := if isDecimal c then some (c.toNat - 48) else none

/-- two digits that make at most `most` -/
def twoDigits (most : Nat) : Reader Nat
  | a :: b :: r => do
    let x ← digit? a
    let y ← digit? b
    if x * 10 + y ≤ most then some (x * 10 + y, r) else none
  | _ => none

/-- the given character -/
def expect (c : Char) : List Char → Option (List Char)
  | d :: r => if d = c then some r else none
  | [] => none

/-- millionths of a second, from the digits behind the point -/
def microOf (ds : List Char) : Nat := inBase 10 ((ds ++ List.replicate 6 '0').take 6)

/-- a time of day -/
def time : Reader Time := fun cs => do
  let (hour, r) ← twoDigits 23 cs
  let (minute, r) ← twoDigits 59 (← expect ':' r)
  let (second, r) ← twoDigits 59 (← expect ':' r)
  match r with
  | '.' :: r' =>
    let ds := r'.takeWhile isDecimal
    if ds.isEmpty then some (⟨hour, minute, second, 0⟩, r)
    else some (⟨hour, minute, second, microOf ds⟩, r'.dropWhile isDecimal)
  | _ => some (⟨hour, minute, second, 0⟩, r)

/-- a day of the calendar -/
def date : Reader Date := fun cs => do
  let (century, r) ← twoDigits 99 cs
  let (year, r) ← twoDigits 99 r
  let (month, r) ← twoDigits 12 (← expect '-' r)
  let (day, r) ← twoDigits 31 (← expect '-' r)
  let d : Date := ⟨century * 100 + year, month, day⟩
  if d.exists? then some (d, r) else none

/-- an offset in minutes, if it is there -/
def offset : List Char → Option Int × List Char
  | 'Z' :: r => (some 0, r)
  | 'z' :: r => (some 0, r)
  | c :: r =>
    let found := do
      let (hour, r) ← twoDigits 23 r
      let (minute, r) ← twoDigits 59 (← expect ':' r)
      some (((hour * 60 + minute : Nat) : Int), r)
    match found with
    | some (m, rest) => if c = '+' then (some m, rest) else if c = '-' then (some (-m), rest) else (none, c :: r)
    | none => (none, c :: r)
  | [] => (none, [])

/-- a time of day behind a date, with its offset -/
def timeOfDate : Reader (Time × Option Int)
  | c :: r =>
    if c = 'T' ∨ c = 't' ∨ c = ' ' then
      (time r).map fun (t, rest) => let (o, rest) := offset rest; ((t, o), rest)
    else none
  | [] => none

/-- a day, a time of day, or both -/
def moment : Reader Moment := fun cs =>
  match date cs with
  | some (d, r) =>
    match timeOfDate r with
    | some ((t, o), rest) => some (.dateTime d t o, rest)
    | none => some (.date d, r)
  | none => (time cs).map fun (t, rest) => (.time t, rest)

end ChipEight.Toml
