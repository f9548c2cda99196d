/-
Settings from a file and the command line. The file named with `-c` is read, else `config.toml` if there is such a
file, else none. Its settings must be usable by themselves; the command line then goes over them, and the result must
be usable too.
-/
import ChipEight.CommandLine.Options
import ChipEight.Notice
import ChipEight.Settings.Basic
import ChipEight.Toml.Document
import ChipEight.Window

namespace ChipEight

namespace ConfigError

/-- how a failure to get settings is told, where it is -/
def message : ConfigError → String
  | refused r => r.message
  | malformed file => Refusal.message ⟨file, .text "not a TOML document"⟩
  | unopened e => e.message
  | missing key => Text.quoted key
  | notText => "not UTF-8 text"
  | notTable => "not a table"
  | excess .digits => "a number of too many digits"
  | excess .depth => "values too deep in each other"
  | blankName => "no name for the file of settings"

/-- is this an error of the settings or of the host's, which ends a run in good order -/
def isReported : ConfigError → Bool
  | refused _ => true
  | malformed _ => true
  | unopened e => e.isOfHost
  | _ => false

end ConfigError

namespace Settings

open CommandLine (Given Options)

/-- what loading leaves: notices come before an error, too -/
structure Loaded where
  notices : Array Notice := #[]
  result : Except ConfigError Table

/-- the table in a file -/
def readFile (files : Files) (name : String) : Except ConfigError Table :=
  match files.read name with
  | .error e => .error (.unopened e)
  | .ok bytes =>
    match String.fromUTF8? ⟨bytes⟩ with
    | none => .error .notText
    | some text =>
      match Toml.read text with
      | .error .malformed => .error (.malformed name)
      | .error (.excess e) => .error (.excess e)
      | .ok t => .ok t

/-- lay a table over the defaults and see whether the result can be used -/
def ofTable (t : Table) : Except ConfigError Table := do
  let merged ← refusing (merge default t)
  validate merged
  .ok merged

/-- the settings in a file, or the defaults -/
def load (files : Files) : Option String → Loaded
  | none => { result := .ok default }
  | some name =>
    match readFile files name with
    | .error e => { result := .error e }
    | .ok t => { notices := #[.settingsRead name], result := ofTable t }

/-- the file that is read when none is named -/
def defaultFile : String := "config.toml"

/-- the settings that the command line changes: those of the file it names, which is `config.toml` if it names none -/
def loadFor (files : Files) (o : Options) : Loaded :=
  match o.config with
  | some (.value name) => load files (some name)
  | some .blank => { result := .error .blankName }
  | none => load files (if files.isFile defaultFile then some defaultFile else none)

/-- a number that was given, as a value; a blank counts as an empty list, which no number setting takes -/
def givenNumber : Given Int → Value
  | .value n => .int n
  | .blank => .list []

/-- put what the command line gives over the settings -/
def override (o : Options) (t : Table) : Table :=
  let t := match o.rom with | some name => t.put "rom" (.text name) | none => t
  let t := match o.scale with | some n => t.put "scale" (givenNumber n) | none => t
  match o.cycles with | some n => t.put "cycles_per_frame" (givenNumber n) | none => t

/-- the settings of a run -/
def build (files : Files) (o : Options) : Loaded :=
  let l := loadFor files o
  match l.result with
  | .error _ => l
  | .ok t =>
    let t := override o t
    { l with result := (validate t).map fun _ => t }

end Settings

/-- settings that can be used -/
structure Settings where
  rom : Option String
  cycles : Int
  scale : Nat
  back : Color
  front : Color

namespace Settings

/-- the number of a value -/
def intOf? : Value → Option Int
  | .int i => some i
  | _ => none

/-- the colour of a value -/
def colorOf? : Value → Option Color
  | .list items => (items.mapM intOf?).bind Color.ofInts?
  | .tuple items => (items.mapM intOf?).bind Color.ofInts?
  | _ => none

/-- the name of a value, if it has one -/
def romOf : Value → Option String
  | .text s => some s
  | _ => none

/-- a table of settings taken apart; every table that `validate` accepts can be -/
def ofTable? (t : Table) : Option Settings := do
  let cycles ← (← t.get? "cycles_per_frame") |> intOf?
  let scale ← (← t.get? "scale") |> intOf?
  match ← t.get? "color" with
  | .table c =>
    let back ← (← Table.get? c "back") |> colorOf?
    let front ← (← Table.get? c "front") |> colorOf?
    some ⟨(t.get? "rom").bind romOf, cycles, scale.toNat, back, front⟩
  | _ => none

end Settings

end ChipEight
