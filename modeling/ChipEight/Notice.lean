/-
What an emulator tells about its work, short of errors. Each notice is one line of the debugging log.
-/
import ChipEight.Text.Hex
import ChipEight.Keypad

namespace ChipEight

inductive Notice where
  /-- a word that is no instruction was passed over -/
  | unknownOpcode (w : Nat)
  /-- a key ended the wait at an address -/
  | keyTaken (key : Key) (address : Nat)
  | soundStarted
  | soundStopped
  | romRead (size : Nat) (name : String)
  | settingsRead (name : String)
  deriving DecidableEq, Repr

def Notice.text : Notice → String
  | .unknownOpcode w => "Ignoring unknown op-code: " ++ Text.Hex.word w
  | .keyTaken key address =>
    "Key " ++ String.ofList (Text.Hex.digits key) ++ " pressed, wait at " ++ Text.Hex.word address ++ " done"
  | .soundStarted => "Sound started"
  | .soundStopped => "Sound stopped"
  | .romRead size name => "Loaded " ++ toString size ++ " bytes from " ++ name
  | .settingsRead name => "Loaded configuration from " ++ name

/-- does the machine itself tell it, and not the host around it -/
def Notice.isOwn : Notice → Bool
  | unknownOpcode _ | keyTaken .. | romRead .. => true
  | soundStarted | soundStopped | settingsRead _ => false

end ChipEight
