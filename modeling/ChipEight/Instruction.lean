/-
The instruction set. An opcode is a 16-bit word `w`; its four hexadecimal digits are a family, two register numbers
`x` and `y`, and `n`; `kk` is its low byte and `nnn` its low twelve bits. `decode` reads it, and finds nothing in a
word that is no instruction. There are sixteen families; a look-up of any other number fails.
-/
import ChipEight.Nibble

namespace ChipEight

/-- one of the sixteen registers -/
abbrev Reg := Nibble

/-- an address that an opcode can hold -/
abbrev Target := Fin 4096

/-- operations on a target and a source register -/
inductive Alu where
  | copy | or | and | xor
  /-- sum, with the carry as flag -/
  | add
  /-- target less source, with "no borrow" as flag -/
  | sub
  /-- source shifted right, with the bit shifted out as flag -/
  | shr
  /-- source less target, with "no borrow" as flag -/
  | subFrom
  /-- source shifted left, with the bit shifted out as flag -/
  | shl
  deriving DecidableEq, Repr

/-- when to skip the next instruction -/
inductive Test where
  | byteIs (x : Reg) (kk : UInt8)
  | byteIsNot (x : Reg) (kk : UInt8)
  | same (x y : Reg)
  | differ (x y : Reg)
  | keyDown (x : Reg)
  | keyUp (x : Reg)
  deriving DecidableEq, Repr

inductive Instruction where
  /-- turn all pixels off -/
  | clear
  /-- back to the newest address on the stack -/
  | ret
  | jump (nnn : Target)
  /-- jump, with the address of the next instruction put on the stack -/
  | call (nnn : Target)
  | skip (t : Test)
  | load (x : Reg) (kk : UInt8)
  /-- add a constant; no flag -/
  | addByte (x : Reg) (kk : UInt8)
  | alu (op : Alu) (x y : Reg)
  | setIndex (nnn : Target)
  /-- jump to `nnn` plus the first register -/
  | jumpOffset (nnn : Target)
  /-- a random byte masked with a constant -/
  | random (x : Reg) (kk : UInt8)
  /-- draw `n` rows from the index on -/
  | draw (x y : Reg) (n : Nat)
  | readDelay (x : Reg)
  /-- wait until a key is down -/
  | waitKey (x : Reg)
  | setDelay (x : Reg)
  | setSound (x : Reg)
  | addIndex (x : Reg)
  /-- point the index at the font digit -/
  | digit (x : Reg)
  /-- store the three decimal digits -/
  | decimal (x : Reg)
  /-- store the registers up to `x` -/
  | save (x : Reg)
  /-- read the registers up to `x` -/
  | restore (x : Reg)
  deriving DecidableEq, Repr

namespace Opcode

def family (w : Nat) : Nat := w / 4096 % 16

def x (w : Nat) : Reg := Nibble.low (w / 256)

def y (w : Nat) : Reg := Nibble.low (w / 16)

def n (w : Nat) : Nat := w % 16

def kk (w : Nat) : UInt8 := UInt8.ofNat w

def nnn (w : Nat) : Target := Fin.ofNat 4096 w

end Opcode

open Opcode

/-- a number that no family of opcodes has -/
structure NoSuchFamily where
  family : Nat
  deriving DecidableEq, Repr

/-- the operation that the last digit of an `8xy_` word selects -/
def Alu.ofDigit? : Nat → Option Alu
  | 0 => some .copy
  | 1 => some .or
  | 2 => some .and
  | 3 => some .xor
  | 4 => some .add
  | 5 => some .sub
  | 6 => some .shr
  | 7 => some .subFrom
  | 0xE => some .shl
  | _ => none

namespace Instruction

/-- the instruction that the low byte of an `Fx__` word selects -/
def ofLowByte? (x : Reg) : Nat → Option Instruction
  | 0x07 => some (readDelay x)
  | 0x0A => some (waitKey x)
  | 0x15 => some (setDelay x)
  | 0x18 => some (setSound x)
  | 0x1E => some (addIndex x)
  | 0x29 => some (digit x)
  | 0x33 => some (decimal x)
  | 0x55 => some (save x)
  | 0x65 => some (restore x)
  | _ => none

/-- the instruction that a word stands for, if it stands for one -/
def decode (w : Nat) : Except NoSuchFamily (Option Instruction) :=
  match family w with
  | 0 => .ok (if w = 0x00E0 then some clear else if w = 0x00EE then some ret else none)
  | 1 => .ok (some (jump (nnn w)))
  | 2 => .ok (some (call (nnn w)))
  | 3 => .ok (some (skip (.byteIs (x w) (kk w))))
  | 4 => .ok (some (skip (.byteIsNot (x w) (kk w))))
  | 5 => .ok (if n w = 0 then some (skip (.same (x w) (y w))) else none)
  | 6 => .ok (some (load (x w) (kk w)))
  | 7 => .ok (some (addByte (x w) (kk w)))
  | 8 => .ok ((Alu.ofDigit? (n w)).map fun op => alu op (x w) (y w))
  | 9 => .ok (if n w = 0 then some (skip (.differ (x w) (y w))) else none)
  | 0xA => .ok (some (setIndex (nnn w)))
  | 0xB => .ok (some (jumpOffset (nnn w)))
  | 0xC => .ok (some (random (x w) (kk w)))
  | 0xD => .ok (some (draw (x w) (y w) (n w)))
  | 0xE => .ok (if w % 256 = 0x9E then some (skip (.keyDown (x w)))
    else if w % 256 = 0xA1 then some (skip (.keyUp (x w))) else none)
  | 0xF => .ok (ofLowByte? (x w) (w % 256))
  | f => .error ⟨f⟩

end Instruction

end ChipEight
