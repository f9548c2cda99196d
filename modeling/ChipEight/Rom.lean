/-
What is in memory when a program starts: the font of the sixteen hexadecimal digits at the bottom, the program from
`0x200` on, and zeros elsewhere. A program longer than the room above `0x200` is refused.
-/
import ChipEight.Memory

namespace ChipEight

/-- the sixteen digits, five bytes each, eight pixels wide -/
def font : Array UInt8 := #[
  0xF0, 0x90, 0x90, 0x90, 0xF0,
  0x20, 0x60, 0x20, 0x20, 0x70,
  0xF0, 0x10, 0xF0, 0x80, 0xF0,
  0xF0, 0x10, 0xF0, 0x10, 0xF0,
  0x90, 0x90, 0xF0, 0x10, 0x10,
  0xF0, 0x80, 0xF0, 0x10, 0xF0,
  0xF0, 0x80, 0xF0, 0x90, 0xF0,
  0xF0, 0x10, 0x20, 0x40, 0x40,
  0xF0, 0x90, 0xF0, 0x90, 0xF0,
  0xF0, 0x90, 0xF0, 0x10, 0xF0,
  0xF0, 0x90, 0xF0, 0x90, 0x90,
  0xE0, 0x90, 0xE0, 0x90, 0xE0,
  0xF0, 0x80, 0x80, 0x80, 0xF0,
  0xE0, 0x90, 0x90, 0x90, 0xE0,
  0xF0, 0x80, 0xF0, 0x80, 0xF0,
  0xF0, 0x80, 0xF0, 0x80, 0x80]

/-- the address of the program's first byte -/
def programStart : Nat := 0x200

/-- the bytes that fit above `programStart` -/
def programRoom : Nat := 3584

/-- a program that fits -/
structure Rom where
  bytes : Array UInt8
  fits : bytes.size ≤ programRoom

/-- a program that does not fit -/
structure RomTooLarge where
  size : Nat
  deriving DecidableEq, Repr

/-- how a program of `size` bytes is refused where `room` bytes fit, both as they are written -/
def RomTooLarge.wording (size room : String) : String :=
  "ROM is " ++ size ++ " bytes, only " ++ room ++ " bytes fit in memory"

def RomTooLarge.message (e : RomTooLarge) : String := wording (toString e.size) (toString programRoom)

namespace Rom

def ofBytes (bytes : Array UInt8) : Except RomTooLarge Rom :=
  if h : bytes.size ≤ programRoom then .ok ⟨bytes, h⟩ else .error ⟨bytes.size⟩

/-- the byte of the start image at an address -/
def byteAt (rom : Rom) (a : Nat) : UInt8 :=
  if a < programStart then font.getD a 0 else rom.bytes.getD (a - programStart) 0

/-- memory as a program starts -/
def image (rom : Rom) : Memory := Vector.ofFn fun a => rom.byteAt a

@[simp] theorem read_image (rom : Rom) (a : Nat) : rom.image.read a = rom.byteAt (a % 4096) := by
  simp only [Memory.read, image, Vector.getElem_ofFn]

end Rom

end ChipEight
