/-
Surfaces that a program keeps for itself: all their pixels in rows. What lies outside such a surface is cut off.
-/
import ChipEight.Grid
import ChipEight.Window

namespace ChipEight

/-- what a window shows, row after row -/
structure Surface where
  width : Nat
  height : Nat
  pixels : Vector Color (height * width)

namespace Surface

/-- a surface of one colour -/
def plain (width height : Nat) (c : Color) : Surface := ⟨width, height, Vector.replicate _ c⟩

/-- the colour of a pixel of the surface -/
def get? (s : Surface) (x y : Nat) : Option Color :=
  if h : x < s.width ∧ y < s.height then some s.pixels[Grid.cell ⟨x, h.1⟩ ⟨y, h.2⟩] else none

/-- paint one pixel, if it lies on the surface -/
def paint (s : Surface) (c : Color) (x y : Nat) : Surface :=
  if h : x < s.width ∧ y < s.height then
    { s with pixels := s.pixels.set (Grid.cell ⟨x, h.1⟩ ⟨y, h.2⟩) c }
  else s

/-- paint every pixel -/
def fill (s : Surface) (c : Color) : Surface := { s with pixels := s.pixels.map fun _ => c }

/-- the numbers below `most` among the `n` from `a` on -/
def span (a n : Int) (most : Nat) : List Nat := List.range' a.toNat (min (a + n).toNat most - a.toNat)

/-- paint the part of a rectangle that lies on the surface -/
def fillRect (s : Surface) (c : Color) (x y w h : Int) : Surface :=
  (span y h s.height).foldl (fun s b => (span x w s.width).foldl (fun s a => s.paint c a b) s) s

/-- the rows from top to bottom -/
def rows (s : Surface) : List (List Color) := Grid.rows s.pixels

/-- a host with these surfaces that takes every length as `measure` gives it -/
def canvas (measure : Int → Int) : Canvas Surface where
  fill := fill
  fillRect s c x y w h := s.fillRect c (measure x) (measure y) (measure w) (measure h)

end Surface

end ChipEight
