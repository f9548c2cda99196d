/-
A monochrome screen of `h` rows and `w` columns, and sprites drawn on it by exclusive or. A sprite is a list of
bytes, one byte a row, bit 7 leftmost. A lit sprite pixel flips the screen pixel under it, wrapping around both
edges; a draw collides when it turns some pixel off. Single pixels are read and written without wrapping.

`draw` is a fold of `flip` over the cells a sprite covers, so what a draw does to a pixel depends only on how
often the sprite covers it.
-/
import ChipEight.Grid

namespace ChipEight

open Grid (cell)

/-- a coordinate outside the screen; the column is looked at first -/
inductive OffScreen where
  | column (x : Int)
  | row (y : Int)
  deriving DecidableEq, Repr

def OffScreen.message : OffScreen → String
  | .column x => "x position out of range: " ++ toString x
  | .row y => "y position out of range: " ++ toString y

/-- pixels row after row -/
structure Screen (h w : Nat) where
  pixels : Vector Bool (h * w)
  deriving DecidableEq

namespace Screen

variable {h w : Nat}

/-- the cell at a position, which must be on the screen -/
def cellAt (x y : Int) : Except OffScreen (Fin (h * w)) :=
  if hx : 0 ≤ x ∧ x < w then
    if hy : 0 ≤ y ∧ y < h then .ok (cell ⟨x.toNat, by omega⟩ ⟨y.toNat, by omega⟩)
    else .error (.row y)
  else .error (.column x)

/-- every pixel off -/
def blank : Screen h w := ⟨Vector.replicate (h * w) false⟩

/-- is the pixel at this position on -/
def get (s : Screen h w) (x y : Int) : Except OffScreen Bool :=
  (cellAt x y).map fun p : Fin (h * w) => s.pixels[p]

/-- turn the pixel at this position on or off -/
def set (s : Screen h w) (x y : Int) (lit : Bool) : Except OffScreen (Screen h w) :=
  (cellAt x y).map fun p : Fin (h * w) => ⟨s.pixels.set p lit⟩

/-- the rows from top to bottom, each from left to right -/
def rows (s : Screen h w) : List (List Bool) := Grid.rows s.pixels

/-- every screen has the rows and columns of its size -/
theorem rows_size (s : Screen h w) : s.rows.length = h ∧ ∀ row ∈ s.rows, row.length = w := by
  unfold rows Grid.rows
  constructor
  · rw [List.length_map, List.length_finRange]
  · intro row hrow
    obtain ⟨b, -, rfl⟩ := List.mem_map.1 hrow
    rw [List.length_map, List.length_finRange]

/-- a position taken around the edges, with a remainder that is never negative -/
def wrap {n : Nat} (hn : 0 < n) (i : Int) : Fin n :=
  ⟨(i % n).toNat, by
    have h1 := Int.emod_nonneg i (b := n) (by omega)
    have h2 := Int.emod_lt_of_pos i (b := n) (by omega)
    omega⟩

/-- is bit `7 - c` of a sprite row set -/
def lit (row : UInt8) (c : Nat) : Bool := row.toNat.testBit (7 - c)

/-- row and column of every lit pixel of a sprite, top row first -/
def spots (sprite : List UInt8) : List (Nat × Nat) :=
  sprite.zipIdx.flatMap fun (row, r) => ((List.range 8).filter (lit row)).map fun c => (r, c)

/-- the cells a sprite covers when drawn at a position -/
def covered (hh : 0 < h) (hw : 0 < w) (x y : Int) (sprite : List UInt8) : List (Fin (h * w)) :=
  (spots sprite).map fun (r, c) => cell (wrap hw (x + c)) (wrap hh (y + r))

/-- flip one pixel, and remember whether any flip so far turned one off -/
def flip (s : Screen h w × Bool) (p : Fin (h * w)) : Screen h w × Bool :=
  (⟨s.1.pixels.set p (!s.1.pixels[p])⟩, s.2 || s.1.pixels[p])

/-- draw a sprite: the screen after it, and whether it turned a pixel off. A screen without pixels stays so. -/
def draw (s : Screen h w) (x y : Int) (sprite : List UInt8) : Screen h w × Bool :=
  if hp : 0 < h ∧ 0 < w then (covered hp.1 hp.2 x y sprite).foldl flip (s, false) else (s, false)

/-- a sprite row cannot be placed on a screen without rows, nor a lit pixel on one without columns -/
def takes (h w : Nat) (sprite : List UInt8) : Bool :=
  (h != 0 || sprite.isEmpty) && (w != 0 || sprite.all (· == 0))

end Screen

/-- a screen with no room for what is drawn on it -/
structure NoRoom where
  deriving DecidableEq, Repr

/-- draw where the screen has room for the sprite -/
def Screen.draw? {h w : Nat} (s : Screen h w) (x y : Int) (sprite : List UInt8) :
    Except NoRoom (Screen h w × Bool) :=
  if Screen.takes h w sprite then .ok (s.draw x y sprite) else .error ⟨⟩

end ChipEight
