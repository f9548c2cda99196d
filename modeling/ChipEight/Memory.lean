/-
The main memory: 4096 bytes, addressed around the end, so that every address is valid. Blocks of bytes are read
and written one address after the other.
-/
namespace ChipEight

/-- all 4096 bytes -/
abbrev Memory := Vector UInt8 4096

namespace Memory

/-- the byte at an address, counted around the end -/
def read (m : Memory) (a : Nat) : UInt8 := m[a % 4096]

/-- write one byte -/
def write (m : Memory) (a : Nat) (b : UInt8) : Memory := m.set (a % 4096) b

/-- read `n` bytes from an address on -/
def block (m : Memory) (a n : Nat) : List UInt8 := (List.range n).map fun k => m.read (a + k)

/-- write bytes from an address on -/
def store (m : Memory) (a : Nat) : List UInt8 → Memory
  | [] => m
  | b :: bs => store (m.write a b) (a + 1) bs

end Memory

end ChipEight
