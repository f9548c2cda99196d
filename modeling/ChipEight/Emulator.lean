/-
A whole run: the command line, the settings, the program file, the play, and the window of a host that it is shown in.
A run ends with status 1 and one error line when the settings or the program cannot be had, or when a fault ends the
play; else with status 0. Each completed frame shows one image.
-/
import ChipEight.CommandLine.Parse
import ChipEight.Frame
import ChipEight.Machine.Dump
import ChipEight.Random.Twister
import ChipEight.Settings.Load

namespace ChipEight

namespace Machine

/-- why there is no machine for a program file -/
inductive LoadError where
  | unopened (e : OpenError)
  | tooLarge (e : RomTooLarge)

/-- what loading a program file leaves: the notice of reading it comes before a refusal of its size -/
structure LoadedFile (σ : Type) where
  notices : Array Notice := #[]
  result : Except LoadError (Machine σ)

/-- a machine for the program in a file -/
def loadFile {σ : Type} (files : Files) (name : String) (random : σ) : LoadedFile σ :=
  match files.read name with
  | .error e => { result := .error (.unopened e) }
  | .ok bytes =>
    { notices := #[.romRead bytes.size name]
      result := match load bytes random with
        | .ok m => .ok m
        | .error e => .error (.tooLarge e) }

end Machine

/-- a line of the log -/
inductive Line where
  | debug (n : Notice)
  | error (text : String)

/-- a line as it is printed -/
def Line.text : Line → String
  | debug n => "[DEBUG]:  " ++ n.text ++ "\n"
  | error t => "[ERROR]:  " ++ t ++ "\n"

/-- is the line printed -/
def Line.isShown (verbose : Bool) : Line → Bool
  | debug _ => verbose
  | error _ => true

/-- an error that no report covers -/
inductive Crash where
  | settings (e : ConfigError)
  | program (e : OpenError)
  /-- the seed of the random numbers is blank -/
  | blankSeed
  | window (e : NoWindow)
  | machine (b : Breakdown)

def Crash.message : Crash → String
  | settings e => e.message
  | program e => e.message
  | blankSeed => "no seed for the random numbers"
  | window e => e.reason
  | machine b => b.message

/-- how a run ends -/
inductive Ending where
  | exited (code : Nat)
  | stopped (s : CommandLine.Stop)
  | crashed (c : Crash)

/-- what a run leaves; its images are surfaces of the host -/
structure Ran (S : Type) where
  ending : Ending
  verbose : Bool := false
  log : Array Line := #[]
  images : List S := []

namespace Ran

variable {S : Type}

/-- all that a run prints -/
def output (r : Ran S) : String :=
  let stop := match r.ending with | .stopped s => s.output | _ => ""
  stop ++ String.join ((r.log.toList.filter (Line.isShown r.verbose)).map Line.text)

/-- what is told apart from the output: the reason why a run did not even begin, or broke off -/
def complaint (r : Ran S) : String :=
  match r.ending with
  | .exited _ | .stopped .help => ""
  | .stopped (.usage e) => CommandLine.usageText ++ (CommandLine.Stop.usage e).message ++ "\n"
  | .crashed c => c.message ++ "\n"

/-- the status of a run -/
def status (r : Ran S) : Nat :=
  match r.ending with
  | .exited code => code
  | .stopped s => s.code
  | .crashed _ => 1

end Ran

namespace Emulator

open CommandLine (Options)

variable {S : Type}

def noRom : String := "No ROM given on the command line or in the config file"

/-- the random source of a run; without a seed on the command line the host's own is used, and a blank one is none -/
def sourceFor (o : Options) (hostSeed : Int) : Except Crash Twister :=
  match o.seed with
  | none => .ok (Twister.seeded hostSeed)
  | some (.value n) => .ok (Twister.seeded n)
  | some .blank => .error .blankSeed

/-- a report of the fault that ended a play -/
def faultReport {σ : Type} (f : Fault) (m : Machine σ) : String := f.message ++ "\n" ++ m.dump

/-- the window that shows the machine's screen -/
def windowFor (s : Settings) : Window := ⟨64, 32, s.scale, s.back, s.front⟩

/-- end a run with an error line -/
def fail (r : Ran S) (text : String) : Ran S := { r with ending := .exited 1, log := r.log.push (.error text) }

/-- end a run with an error that no report covers -/
def crash (r : Ran S) (c : Crash) : Ran S := { r with ending := .crashed c }

/-- play a machine in a window -/
def playIn (host : Host S) (s : Settings) (m : Machine Twister) (batches : List (List Event)) (r : Ran S) : Ran S :=
  match (windowFor s).openOn host with
  | .error e => crash r (.window e)
  | .ok surface =>
    let p := m.play s.cycles batches
    let images := (windowFor s).drawAllOn host.toCanvas surface p.pictures.toList
    let r := { r with log := r.log ++ p.notices.map Line.debug, images }
    match p.fault with
    | some (.breakdown b) => crash r (.machine b)
    | some f => { r with ending := .exited 1, log := r.log.push (.error (faultReport f p.machine)) }
    | none => { r with ending := .exited 0 }

/-- play the program of a file -/
def playFile (host : Host S) (files : Files) (name : String) (source : Twister) (s : Settings)
    (batches : List (List Event)) (r : Ran S) : Ran S :=
  let l := Machine.loadFile files name source
  let r := { r with log := r.log ++ l.notices.map Line.debug }
  match l.result with
  | .error (.unopened e) => if e.isOfHost then fail r e.message else crash r (.program e)
  | .error (.tooLarge e) => fail r e.message
  | .ok m => playIn host s m batches r

/-- a run with its settings at hand -/
def start (host : Host S) (files : Files) (hostSeed : Int) (o : Options) (s : Settings) (batches : List (List Event))
    (r : Ran S) : Ran S :=
  match s.rom with
  | none => fail r noRom
  | some name =>
    match sourceFor o hostSeed with
    | .error c => crash r c
    | .ok source => playFile host files name source s batches r

/-- the file of settings that a command line names -/
def namedFile? (args : List String) : Option String :=
  match (CommandLine.parse args).toOption.bind Options.config with
  | some (.value name) => some name
  | _ => none

/-- the program file that a run asks for, which the settings may name -/
def programFile? (files : Files) (args : List String) : Option String := do
  let o ← (CommandLine.parse args).toOption
  let t ← (Settings.build files o).result.toOption
  (← Settings.ofTable? t).rom

/-- a run on a host, with these arguments, files and events -/
def run (host : Host S) (files : Files) (hostSeed : Int) (args : List String) (batches : List (List Event)) : Ran S :=
  match CommandLine.parse args with
  | .error s => { ending := .stopped s }
  | .ok o =>
    let l := Settings.build files o
    let r : Ran S := { ending := .exited 1, verbose := o.verbose, log := l.notices.map Line.debug }
    match l.result with
    | .error e => if e.isReported then fail r e.message else crash r (.settings e)
    | .ok t =>
      match Settings.ofTable? t with
      | none => r
      | some s => start host files hostSeed o s batches r

end Emulator

end ChipEight
