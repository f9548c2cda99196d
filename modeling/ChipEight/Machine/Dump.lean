/-
The registers as text, for the report of a fault: space-padded upper-case hexadecimal, one group a line, the stack
from its oldest entry on.
-/
import ChipEight.Machine

namespace ChipEight.Machine

open Text.Hex

variable {σ : Type}

/-- a register line -/
def registerLine (m : Machine σ) (k : Reg) : List Char :=
  'V' :: digits k ++ [':', ' '] ++ padded ' ' 2 (m.reg k).toNat ++ ['\n']

/-- stack entries, oldest first -/
def stackText (m : Machine σ) : List Char :=
  List.intercalate [' '] (m.stack.reverse.map (padded ' ' 4))

def dumpChars (m : Machine σ) : List Char :=
  "PC: ".toList ++ padded ' ' 4 m.pc ++ "  OP: ".toList ++ padded ' ' 4 m.opcode ++ ['\n']
    ++ (List.finRange 16).flatMap m.registerLine
    ++ "I: ".toList ++ padded ' ' 4 m.index ++ ['\n']
    ++ "SP: ".toList ++ digits m.sp ++ "  STACK: ".toList ++ m.stackText ++ ['\n']
    ++ "DT: ".toList ++ padded ' ' 2 m.delay.toNat ++ "  ST: ".toList ++ padded ' ' 2 m.sound.toNat ++ ['\n']

/-- the registers as text -/
def dump (m : Machine σ) : String := String.ofList m.dumpChars

end ChipEight.Machine
