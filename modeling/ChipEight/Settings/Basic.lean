/-
Settings as a table: what they are when nothing is given, how a table of changes is laid over them, and which values
can be used. Changes may only name settings that are there; a table may only be changed by a table, entry by entry,
and any other value is replaced as a whole. The first change that breaks this, depth first in the order of the
changes, is refused. Tables may be as deep as they like; only the report of a refused value has limits (`ofRefusal`).
-/
import ChipEight.Files
import ChipEight.Value

namespace ChipEight

/-- a setting that is unknown or has a value it cannot have -/
structure Refusal where
  key : String
  value : Value

/-- how the value of a setting is refused -/
def Refusal.message (r : Refusal) : String :=
  "Invalid configuration value for '" ++ r.key ++ "': " ++ r.value.shown

/-- why there are no settings -/
inductive ConfigError where
  | refused (r : Refusal)
  /-- the file is no TOML document -/
  | malformed (file : String)
  /-- the file is not UTF-8 text -/
  | notText
  | unopened (e : OpenError)
  /-- a setting is not there at all -/
  | missing (key : String)
  /-- a setting that has settings of its own is no table -/
  | notTable
  /-- a value to read or to report has too much of something -/
  | excess (e : Excess)
  /-- the name of the file is blank -/
  | blankName

/-- the error that a refusal makes; what cannot be written in full is not refused in words -/
def ConfigError.ofRefusal (r : Refusal) : ConfigError :=
  match r.value.excess? with
  | some e => excess e
  | none => refused r

namespace Settings

/-- the settings when nothing is given -/
def default : Table :=
  [("rom", .absent), ("cycles_per_frame", .int 10), ("scale", .int 10),
    ("color", .table [("back", .list [.int 0, .int 0, .int 0]), ("front", .list [.int 255, .int 255, .int 255])])]

mutual

/-- lay the change of one setting over its old value -/
def mergeValue (key : String) (old : Value) : Value → Except Refusal Value
  | .table changes =>
    match old with
    | .table base => (mergeEntries base changes base).map .table
    | _ => .ok (.table changes)
  | change =>
    match old with
    | .table _ => .error ⟨key, change⟩
    | _ => .ok change

/-- lay changes over a table, one after the other; `done` is the table with those before -/
def mergeEntries (base : Table) : List (String × Value) → Table → Except Refusal Table
  | [], done => .ok done
  | (key, change) :: rest, done =>
    match base.get? key with
    | none => .error ⟨key, change⟩
    | some old =>
      match mergeValue key old change with
      | .error r => .error r
      | .ok merged => mergeEntries base rest (done.put key merged)

end

/-- lay a table of changes over a table -/
def merge (base changes : Table) : Except Refusal Table := mergeEntries base changes base

/-- a whole number above zero -/
def isPositive : Value → Bool
  | .int i => 0 < i
  | _ => false

/-- a number that fits a byte -/
def isComponent : Value → Bool
  | .int i => 0 ≤ i && i ≤ 255
  | _ => false

/-- three numbers that fit a byte -/
def isColor : Value → Bool
  | .list items => items.length == 3 && items.all isComponent
  | .tuple items => items.length == 3 && items.all isComponent
  | _ => false

/-- a name, or nothing -/
def isRom : Value → Bool
  | .absent => true
  | .text _ => true
  | _ => false

/-- refuse a value that fails a test -/
def check (ok : Value → Bool) (key : String) (value : Value) : Except Refusal Unit :=
  if ok value then .ok () else .error ⟨key, value⟩

def checkPositive (key : String) (value : Value) : Except Refusal Unit := check isPositive key value

def checkColor (key : String) (value : Value) : Except Refusal Unit := check isColor key value

/-- a refusal among the errors of settings -/
def refusing {α : Type} : Except Refusal α → Except ConfigError α
  | .ok a => .ok a
  | .error r => .error (.ofRefusal r)

/-- the value of a setting, which must be there -/
def need (t : Table) (key : String) : Except ConfigError Value :=
  match t.get? key with
  | some v => .ok v
  | none => .error (.missing key)

/-- the value of a setting inside another, which must be a table -/
def needIn (v : Value) (key : String) : Except ConfigError Value :=
  match v with
  | .table entries => need entries key
  | _ => .error .notTable

/-- are all settings there and usable; they are looked at in a fixed order -/
def validate (t : Table) : Except ConfigError Unit := do
  refusing (checkPositive "cycles_per_frame" (← need t "cycles_per_frame"))
  refusing (checkPositive "scale" (← need t "scale"))
  refusing (checkColor "color.back" (← needIn (← need t "color") "back"))
  refusing (checkColor "color.front" (← needIn (← need t "color") "front"))
  refusing (check isRom "rom" (← need t "rom"))

end Settings

end ChipEight
