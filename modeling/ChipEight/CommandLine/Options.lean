/-
What can be given on the command line, and the ways in which a command line fails. That a value may be blank is a rule
of the version that `CommandLine.Parse` names.
-/
import ChipEight.Text.Quoted

namespace ChipEight.CommandLine

/-- what an option was given: a value, or nothing, where the separator `--` was attached to it and taken away -/
inductive Given (α : Type) where
  | value (a : α)
  | blank
  deriving DecidableEq, Repr

structure Options where
  rom : Option String := none
  config : Option (Given String) := none
  scale : Option (Given Int) := none
  cycles : Option (Given Int) := none
  seed : Option (Given Int) := none
  verbose : Bool := false
  deriving DecidableEq, Repr

/-- the options by what they are for -/
inductive Switch where
  | help
  | config
  | scale
  | cycles
  | seed
  | verbose
  deriving DecidableEq, Repr

namespace Switch

/-- does a value follow -/
def takesValue : Switch → Bool
  | help | verbose => false
  | config | scale | cycles | seed => true

/-- the spellings of all options, short before long -/
def spellings : List (String × Switch) :=
  [("-h", help), ("--help", help), ("-c", config), ("--config", config), ("-s", scale), ("-n", cycles),
    ("--seed", seed), ("-v", verbose)]

/-- the option spelled with a dash and this letter -/
def ofLetter? (c : Char) : Option Switch := (spellings.find? fun e => e.1.toList == ['-', c]).map Prod.snd

/-- an option as errors name it, with all its spellings -/
def title (s : Switch) : String := "/".intercalate ((spellings.filter fun e => e.2 == s).map Prod.fst)

end Switch

/-- what is wrong with a command line -/
inductive UsageError where
  | expectedValue (s : Switch)
  | notAnInteger (s : Switch) (text : String)
  /-- a value attached to an option that takes none -/
  | unwantedValue (s : Switch) (text : String)
  /-- the start of several long options -/
  | ambiguous (text : String) (candidates : List String)
  | unrecognized (texts : List String)
  deriving DecidableEq, Repr

def UsageError.text : UsageError → String
  | expectedValue s => "argument " ++ s.title ++ ": expected one argument"
  | notAnInteger s text => "argument " ++ s.title ++ ": invalid int value: " ++ Text.quoted text
  | unwantedValue s text => "argument " ++ s.title ++ ": ignored explicit argument " ++ Text.quoted text
  | ambiguous text candidates => "ambiguous option: " ++ text ++ " could match " ++ ", ".intercalate candidates
  | unrecognized texts => "unrecognized arguments: " ++ " ".intercalate texts

/-- why reading a command line ended without options -/
inductive Stop where
  /-- help was asked for -/
  | help
  | usage (e : UsageError)
  deriving DecidableEq, Repr

/-- the name of the program -/
def programName : String := "chip8"

/-- the status that the program ends with -/
def Stop.code : Stop → Nat
  | help => 0
  | usage _ => 2

/-- the line that reports the error -/
def Stop.message : Stop → String
  | help => ""
  | usage e => programName ++ ": error: " ++ e.text

/-- lines as text -/
def lines (texts : List String) : String := String.join (texts.map fun t => t ++ "\n")

def usageText : String := lines [
  "usage: chip8 [-h] [-c CONFIG] [-s SCALE] [-n CYCLES_PER_FRAME] [--seed SEED]",
  "             [-v]",
  "             [rom]"]

def helpText : String := usageText ++ lines [
  "",
  "Starts a simple Chip 8 emulator",
  "",
  "positional arguments:",
  "  rom                   the ROM file to load on startup (default is the rom",
  "                        named in the config file)",
  "",
  "options:",
  "  -h, --help            show this help message and exit",
  "  -c CONFIG, --config CONFIG",
  "                        the TOML configuration file to read (default is",
  "                        config.toml, when it exists)",
  "  -s SCALE              the scale factor to apply to the display",
  "  -n CYCLES_PER_FRAME   the number of instructions to execute per frame",
  "  --seed SEED           seed for the random number generator",
  "  -v                    log debugging output"]

/-- what is printed before the program ends -/
def Stop.output : Stop → String
  | help => helpText
  | usage _ => ""

end ChipEight.CommandLine
