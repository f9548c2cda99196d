/-
A host to run on, one of many: nothing else depends on its numbers. It counts lengths in numbers of 64 bits and keeps
the low 32 of them, with a sign: this goes for the sides of a surface and for the place and the size of every rectangle.
No side is longer than 16384, and a surface without any side gets the size of the desktop. While the sides asked for
are from one to 16384, all this makes no difference.
-/
import ChipEight.Window.Surface

namespace ChipEight

namespace NoWindow

/-- a side is longer than surfaces can be -/
def tooLarge : NoWindow := ⟨"the window is too large"⟩

/-- a side is below zero -/
def negative : NoWindow := ⟨"the window has a side below zero"⟩

/-- a length is more than the host can count -/
def uncounted : NoWindow := ⟨"the window is larger than can be counted"⟩

end NoWindow

namespace Window

/-- can the host count this length -/
def isCounted (n : Int) : Bool := -(Grid.countBound : Int) - 1 ≤ n && n ≤ Grid.countBound

/-- a length as the host keeps it: its low 32 bits, the highest of them for the sign -/
def kept (n : Int) : Int := n.bmod 0x100000000

theorem kept_of_lt {n : Int} (h : 0 ≤ n) (h' : n < 0x80000000) : kept n = n := by
  unfold kept
  exact Int.bmod_eq_of_le (by omega) (by omega)

/-- the longest side that a surface can have -/
def sideBound : Int := 16384

/-- the width and the height of the desktop -/
def desktop : Nat × Nat := (1024, 768)

/-- the sides of a surface for sides that the host has kept: no side is zero -/
def sidesOf (width height : Int) : Except NoWindow (Nat × Nat) :=
  if width < 0 || height < 0 then .error .negative
  else if width = 0 && height = 0 then .ok desktop
  else if sideBound < width || sideBound < height then .error .tooLarge
  else .ok (max width.toNat 1, max height.toNat 1)

end Window

open Window

/-- the host to run on; what it opens is black -/
def Surface.host : Host Surface where
  toCanvas := canvas kept
  openSurface width height :=
    if isCounted width && isCounted height then
      (sidesOf (kept width) (kept height)).map fun (w, h) => plain w h ⟨0, 0, 0⟩
    else .error .uncounted

end ChipEight
