/-
The program: it opens the files that a run asks for, takes the batches of events from the lines of its input, and
prints the log and then every image.
-/
import ChipEight.Emulator
import ChipEight.Event.Script
import ChipEight.Window.Opening
import ChipEight.Window.Pixmap

namespace ChipEight

/-- the number and the words of an error -/
def numberAndWords : IO.Error → Nat × String
  | .alreadyExists _ n words | .otherError n words | .resourceBusy n words | .resourceVanished n words
  | .unsupportedOperation n words | .hardwareFault n words | .unsatisfiedConstraints n words
  | .illegalOperation n words | .protocolError n words | .timeExpired n words | .interrupted _ n words
  | .noFileOrDirectory _ n words | .invalidArgument _ n words | .permissionDenied _ n words
  | .resourceExhausted _ n words | .inappropriateType _ n words | .noSuchThing _ n words => (n.toNat, words)
  | .unexpectedEof => (0, "")
  | .userError words => (0, words)

/-- what opening and reading a file yields; a directory is refused, though it only cannot be read -/
def lookAt (name : String) : IO (Except HostProblem (Array UInt8)) := do
  match ← (IO.FS.Handle.mk name .read).toBaseIO with
  | .error e =>
    let (number, words) := numberAndWords e
    return .error (.refused number words)
  | .ok handle =>
    match ← handle.readBinToEnd.toBaseIO with
    | .ok bytes => return .ok bytes.data
    | .error e =>
      let (number, words) := numberAndWords e
      return .error (if number = 21 then .refused number words else .brokenOff number words)

/-- has a regular file this name -/
def isRegular (name : String) : IO Bool := do
  try return (← (← IO.FS.realPath name).metadata).type == .file catch _ => return false

/-- look at files one after the other -/
def filesOf (names : List String) : IO Files := do
  let found ← names.mapM fun name => do return (name, ← lookAt name, ← isRegular name)
  return {
    look name := ((found.lookup name).map Prod.fst).getD (.error .notFound)
    isFile name := ((found.lookup name).map Prod.snd).getD false }

/-- the batches in the lines of the input -/
partial def readBatches (input : IO.FS.Stream) : IO (List (List Event)) := do
  let line ← input.getLine
  if line.isEmpty then return [] else return Event.batchOfLine line :: (← readBatches input)

/-- the file of settings to look at: the one that is named, or the usual one if it is a regular file -/
def settingsFiles (args : List String) : IO (List String) := do
  match Emulator.namedFile? args with
  | some name => return [name]
  | none => return if ← isRegular Settings.defaultFile then [Settings.defaultFile] else []

/-- run with these arguments -/
def runHost (args : List String) : IO UInt32 := do
  let names ← settingsFiles args
  let config ← filesOf names
  let files ← filesOf (names ++ (Emulator.programFile? config args).toList)
  let batches ← if (CommandLine.parse args).isOk then readBatches (← IO.getStdin) else pure []
  let r := Emulator.run Surface.host files (← IO.rand 0 0xFFFFFFFF) args batches
  IO.print r.output
  r.images.forM fun s => IO.print s.pixmap
  IO.eprint r.complaint
  return UInt32.ofNat r.status

end ChipEight

def main (args : List String) : IO UInt32 := ChipEight.runHost args
