/-
The state of the machine, and the state a program starts from. Addresses (`pc`, `index`, the stack) are plain
numbers; the instructions keep them below `65536`. The stack holds return addresses, newest first; the stack pointer
`sp` counts them apart from the stack, and the instructions go by the count. `reset` goes back to the start and keeps
only the program and the random source.

A call with a full stack and a return with an empty one are faults that a program can cause. A breakdown is a look-up
without a result; the look-ups are written so that they can fail, and no program makes one fail.
-/
import ChipEight.Instruction
import ChipEight.Keypad
import ChipEight.Notice
import ChipEight.Random.Source
import ChipEight.Rom
import ChipEight.Screen

namespace ChipEight

/-- the columns and rows of the machine's screen -/
abbrev Display := Screen 32 64

structure Machine (σ : Type) where
  /-- the program, kept for a reset -/
  rom : Rom
  memory : Memory
  /-- the sixteen registers; the last one is the flag -/
  v : Vector UInt8 16
  index : Nat
  pc : Nat
  stack : List Nat
  /-- how many return addresses there are -/
  sp : Nat
  delay : UInt8
  sound : UInt8
  /-- the last opcode executed -/
  opcode : Nat
  screen : Display
  keypad : Keypad
  random : σ

/-- a look-up without a result -/
inductive Breakdown where
  | family (e : NoSuchFamily)
  | key (e : NoSuchKey)
  /-- there is no address on the stack, though `sp` counts one -/
  | bareStack
  /-- there is no room for a sprite on the screen -/
  | noRoom
  deriving DecidableEq, Repr

def Breakdown.message : Breakdown → String
  | family e => "no instructions of family " ++ toString e.family
  | key e => e.message
  | bareStack => "return from an address that is not on the stack"
  | noRoom => "no room for a sprite on the screen"

/-- why an instruction ended early: a call with a full stack or a return with an empty one, with the address of that
instruction, or a breakdown -/
inductive Fault where
  | overflow (address : Nat)
  | underflow (address : Nat)
  | breakdown (b : Breakdown)
  deriving DecidableEq, Repr

namespace Fault

def overflowText (address : Int) : String := "Stack overflow on call at " ++ Text.Hex.signedWord address

def underflowText (address : Int) : String := "Stack underflow on return at " ++ Text.Hex.signedWord address

def message : Fault → String
  | overflow a => overflowText a
  | underflow a => underflowText a
  | breakdown b => b.message

end Fault

/-- what some work on a machine leaves: the machine, what was told, and the fault that ended it early -/
structure Outcome (σ : Type) where
  machine : Machine σ
  notices : Array Notice := #[]
  fault : Option Fault := none

/-- the most return addresses the stack can hold -/
def stackRoom : Nat := 16

namespace Machine

variable {σ : Type}

/-- a machine about to start its program -/
def boot (rom : Rom) (random : σ) : Machine σ where
  rom
  memory := rom.image
  v := Vector.replicate 16 0
  index := 0
  pc := programStart
  stack := []
  sp := 0
  delay := 0
  sound := 0
  opcode := 0
  screen := .blank
  keypad := .released
  random

/-- a machine for a program, which must fit -/
def load (bytes : Array UInt8) (random : σ) : Except RomTooLarge (Machine σ) :=
  (Rom.ofBytes bytes).map fun rom => boot rom random

/-- start over; only the random source goes on from where it is -/
def reset (m : Machine σ) : Machine σ := boot m.rom m.random

/-- the value of a register -/
def reg (m : Machine σ) (x : Reg) : UInt8 := m.v[x]

/-- write one register -/
def setReg (m : Machine σ) (x : Reg) (b : UInt8) : Machine σ := { m with v := m.v.set x b }

section Fields

variable (m : Machine σ) (x : Reg) (b : UInt8)

@[simp] theorem setReg_rom : (m.setReg x b).rom = m.rom := rfl

@[simp] theorem setReg_memory : (m.setReg x b).memory = m.memory := rfl

@[simp] theorem setReg_index : (m.setReg x b).index = m.index := rfl

@[simp] theorem setReg_pc : (m.setReg x b).pc = m.pc := rfl

@[simp] theorem setReg_stack : (m.setReg x b).stack = m.stack := rfl

@[simp] theorem setReg_sp : (m.setReg x b).sp = m.sp := rfl

@[simp] theorem setReg_delay : (m.setReg x b).delay = m.delay := rfl

@[simp] theorem setReg_sound : (m.setReg x b).sound = m.sound := rfl

@[simp] theorem setReg_opcode : (m.setReg x b).opcode = m.opcode := rfl

@[simp] theorem setReg_screen : (m.setReg x b).screen = m.screen := rfl

@[simp] theorem setReg_keypad : (m.setReg x b).keypad = m.keypad := rfl

@[simp] theorem setReg_random : (m.setReg x b).random = m.random := rfl

end Fields

/-- one tick of both timers; neither goes below zero -/
def tick (m : Machine σ) : Machine σ :=
  { m with
    delay := if m.delay = 0 then 0 else m.delay - 1
    sound := if m.sound = 0 then 0 else m.sound - 1 }

/-- does the sound timer run -/
def sounding (m : Machine σ) : Bool := m.sound != 0

/-- press or let go of the key with this number -/
def setKey (m : Machine σ) (index : Int) (down : Bool) : Except NoSuchKey (Machine σ) :=
  (m.keypad.set index down).map fun p => { m with keypad := p }

/-- turn the pixel at this position on or off -/
def setPixel (m : Machine σ) (x y : Int) (lit : Bool) : Except OffScreen (Machine σ) :=
  (m.screen.set x y lit).map fun s => { m with screen := s }

/-- the rows of the screen -/
def picture (m : Machine σ) : List (List Bool) := m.screen.rows

end Machine

end ChipEight
