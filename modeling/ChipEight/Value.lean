/-
Values of settings, and how they are written in reports. A table is a list of entries in the order in which they
came; a key occurs at most once. `put` keeps the place of a key that is there and adds a new one at the end.

Two limits of the host are part of this. A whole number of more than 4300 digits is not written into a report, nor read
from decimal digits in a document or on the command line (`Text.digitBound`); other numbers and texts have no such
limit. Values that lie more than 990 deep in each other are not written into a report, and a document is read down to
that depth, where an array counts twice and a table on one line three times (`depthBound`). This is what is left to a
host whose calls may lie 1000 deep; it is the same number wherever a report or a document is asked for. Nothing else has
a limit of depth: tables are laid over each other, tested and copied however deep they are.
-/
import ChipEight.Binary64.Text
import ChipEight.Moment
import ChipEight.Text.Numeral
import ChipEight.Text.Quoted

namespace ChipEight

inductive Value where
  /-- no value was given -/
  | absent
  | bool (b : Bool)
  | int (i : Int)
  | float (x : Binary64)
  | text (s : String)
  | moment (t : Moment)
  | list (items : List Value)
  | tuple (items : List Value)
  | table (entries : List (String × Value))
  deriving Repr, Inhabited

/-- entries with their keys, in order -/
abbrev Table := List (String × Value)

namespace Table

/-- the value of a key -/
def get? : Table → String → Option Value
  | [], _ => none
  | (k, v) :: rest, key => if k = key then some v else get? rest key

/-- write the value of a key, in its place if it has one -/
def put : Table → String → Value → Table
  | [], key, value => [(key, value)]
  | (k, v) :: rest, key, value => if k = key then (k, value) :: rest else (k, v) :: put rest key value

def keys (t : Table) : List String := t.map Prod.fst

end Table

namespace Value

mutual

/-- a value as a report shows it -/
def shown : Value → String
  | absent => "None"
  | bool b => if b then "True" else "False"
  | int i => toString i
  | float x => x.text
  | text s => Text.quoted s
  | moment t => t.text
  | list items => "[" ++ ", ".intercalate (shownItems items) ++ "]"
  | tuple [item] => "(" ++ shown item ++ ",)"
  | tuple items => "(" ++ ", ".intercalate (shownItems items) ++ ")"
  | table entries => "\x7b" ++ ", ".intercalate (shownEntries entries) ++ "\x7d"

def shownItems : List Value → List String
  | [] => []
  | v :: rest => shown v :: shownItems rest

def shownEntries : List (String × Value) → List String
  | [] => []
  | (k, v) :: rest => (Text.quoted k ++ ": " ++ shown v) :: shownEntries rest

end

end Value

/-- what there can be too much of in a value -/
inductive Excess where
  /-- a number has more digits than are read or written -/
  | digits
  /-- values lie deeper in each other than is read or written -/
  | depth
  deriving DecidableEq, Repr

/-- how deep values may lie in each other -/
def depthBound : Nat := 990

/-- has a number more digits than are written -/
def isLongNumber (i : Int) : Bool := Nat.pow 10 Text.digitBound ≤ i.natAbs

namespace Value

mutual

/-- what there is too much of to write a value, where `room` is left for values in each other -/
def excessIn? (room : Nat) : Value → Option Excess
  | int i => if room = 0 then some .depth else if isLongNumber i then some .digits else none
  | list items => if room = 0 then some .depth else excessOfItems? (room - 1) items
  | tuple items => if room = 0 then some .depth else excessOfItems? (room - 1) items
  | table entries => if room = 0 then some .depth else excessOfEntries? (room - 1) entries
  | _ => if room = 0 then some .depth else none

def excessOfItems? (room : Nat) : List Value → Option Excess
  | [] => none
  | v :: rest => (excessIn? room v).or (excessOfItems? room rest)

def excessOfEntries? (room : Nat) : List (String × Value) → Option Excess
  | [] => none
  | (_, v) :: rest => (excessIn? room v).or (excessOfEntries? room rest)

end

/-- what there is too much of to write a value -/
def excess? (v : Value) : Option Excess := excessIn? depthBound v

end Value

end ChipEight
