/-
Events written down, for a host without a keyboard. A line is the batch of one frame, its words the events: `quit`
closes the window, `+q` presses the key `q` and `-q` lets it go, `+esc` presses the escape key.
-/
import ChipEight.Event

namespace ChipEight.Event

/-- the code of a key by its name -/
def codeOfName? (name : List Char) : Option Int :=
  match name with
  | [c] => some c.toNat
  | ['e', 's', 'c'] => some escape
  | _ => none

/-- the event that a word stands for -/
def ofWord (word : List Char) : Event :=
  match word with
  | ['q', 'u', 'i', 't'] => quit
  | '+' :: name => ((codeOfName? name).map keyDown).getD other
  | '-' :: name => ((codeOfName? name).map keyUp).getD other
  | _ => other

/-- the words of a line -/
def wordsOf (line : List Char) : List (List Char) := (line.splitBy fun a b => a.isWhitespace == b.isWhitespace).filter
  fun w => !w.all Char.isWhitespace

/-- the batch that a line stands for -/
def batchOfLine (line : String) : List Event := (wordsOf line.toList).map ofWord

end ChipEight.Event
