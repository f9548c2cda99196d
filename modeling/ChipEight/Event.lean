/-
Host events and what they do to the keypad. Sixteen keys on the left of a keyboard stand for the keypad. A window
that is closed and the escape key pressed both ask to quit; the events after such a request still count.
-/
import ChipEight.Machine

namespace ChipEight

/-- what a host window reports; key codes are the host's -/
inductive Event where
  | quit
  | keyDown (code : Int)
  | keyUp (code : Int)
  | other
  deriving DecidableEq, Repr

namespace Event

/-- the keyboard keys of the keypad's `0` to `F` -/
def layout : List Char := ['x', '1', '2', '3', 'q', 'w', 'e', 'a', 's', 'd', 'z', 'c', '4', 'r', 'f', 'v']

/-- the key that a code stands for, if any -/
def keyOf? (code : Int) : Option Key :=
  (List.finRange 16).find? fun k => (layout[k]?.map fun c => (c.toNat : Int)) == some code

/-- the code of the escape key -/
def escape : Int := 27

/-- does this event ask to quit -/
def quits : Event → Bool
  | quit => true
  | keyDown code => code == escape
  | _ => false

/-- the key this event writes, and its new state -/
def writes? : Event → Option (Key × Bool)
  | keyDown code => (keyOf? code).map fun k => (k, true)
  | keyUp code => (keyOf? code).map fun k => (k, false)
  | _ => none

end Event

/-- does any event of a batch ask to quit -/
def asksToQuit (batch : List Event) : Bool := batch.any Event.quits

namespace Machine

variable {σ : Type}

/-- take in one event -/
def applyEvent (m : Machine σ) (e : Event) : Machine σ :=
  match e.writes? with
  | some (k, down) => { m with keypad := m.keypad.put k down }
  | none => m

/-- take in a batch of events, in order -/
def applyEvents (m : Machine σ) (batch : List Event) : Machine σ := batch.foldl applyEvent m

/-- one event on: the key that it is about is written by its number, and whether to go on is remembered -/
def heed (s : Machine σ × Bool) (e : Event) : Except NoSuchKey (Machine σ × Bool) :=
  match e.writes? with
  | some (k, down) => (s.1.setKey (k : Nat) down).map fun m => (m, s.2 && !e.quits)
  | none => .ok (s.1, s.2 && !e.quits)

/-- take in a batch as a host does: the machine behind it, and whether to go on; it fails where no key has a number -/
def handle (m : Machine σ) (batch : List Event) : Except NoSuchKey (Machine σ × Bool) := batch.foldlM heed (m, true)

end Machine

end ChipEight
