/-
Screens of any height and width, given as two integers. A screen of two lengths that are not below zero is a `Screen`,
and does what that does (`get_ofScreen` and so on). Two lengths below zero make as many pixels as their amounts do, and
these are drawn on around the edges like any others; but no position lies between zero and such a length, so none of
them is ever read, written or shown.
-/
import ChipEight.Screen

namespace ChipEight

/-- why there is no screen of some height and width -/
inductive NoSuchSize where
  /-- they make a negative number of pixels -/
  | negative
  /-- they make more pixels than a host can hold -/
  | tooLarge
  /-- they make more pixels than a host can count -/
  | uncounted
  deriving DecidableEq, Repr

/-- the most pixels that a host can hold -/
def pixelBound : Nat := 100000000000

/-- a screen of this height and width -/
structure SizedScreen (height width : Int) where
  inner : Screen height.natAbs width.natAbs
  deriving DecidableEq

namespace SizedScreen

variable {height width : Int}

/-- every pixel off -/
def blank : SizedScreen height width := ⟨.blank⟩

/-- a screen of this height and width with every pixel off, if there can be one -/
def ofSize (height width : Int) : Except NoSuchSize (SizedScreen height width) :=
  if height * width < 0 then .error .negative
  else if Grid.countBound < height * width then .error .uncounted
  else if pixelBound < height * width then .error .tooLarge
  else .ok .blank

/-- the cell at a position, which must be on the screen; a screen of a width below zero has none -/
def cellAt (height width x y : Int) : Except OffScreen (Fin (height.natAbs * width.natAbs)) :=
  if width < 0 then .error (.column x) else Screen.cellAt x y

/-- is the pixel at this position on -/
def get (s : SizedScreen height width) (x y : Int) : Except OffScreen Bool :=
  (cellAt height width x y).map fun p : Fin (height.natAbs * width.natAbs) => s.inner.pixels[p]

/-- turn the pixel at this position on or off -/
def set (s : SizedScreen height width) (x y : Int) (lit : Bool) : Except OffScreen (SizedScreen height width) :=
  (cellAt height width x y).map fun p : Fin (height.natAbs * width.natAbs) => ⟨⟨s.inner.pixels.set p lit⟩⟩

/-- draw where the screen has room for the sprite -/
def draw? (s : SizedScreen height width) (x y : Int) (sprite : List UInt8) :
    Except NoRoom (SizedScreen height width × Bool) :=
  (s.inner.draw? x y sprite).map fun (inner, hit) => (⟨inner⟩, hit)

/-- the rows from top to bottom -/
def rows (s : SizedScreen height width) : List (List Bool) := if height < 0 then [] else s.inner.rows

/-! ## Screens of natural size -/

variable {h w : Nat}

/-- a screen of natural size among those of any size -/
def ofScreen (s : Screen h w) : SizedScreen h w := ⟨s⟩

theorem cellAt_of_nat (x y : Int) : cellAt h w x y = Screen.cellAt x y := if_neg (by omega)

@[simp] theorem get_ofScreen (s : Screen h w) (x y : Int) : (ofScreen s).get x y = s.get x y :=
  congrArg (Except.map fun p : Fin (h * w) => s.pixels[p]) (cellAt_of_nat x y)

@[simp] theorem set_ofScreen (s : Screen h w) (x y : Int) (lit : Bool) :
    (ofScreen s).set x y lit = (s.set x y lit).map ofScreen := by
  rw [set, Screen.set, cellAt_of_nat]
  cases (Screen.cellAt x y : Except OffScreen (Fin (h * w))) <;> rfl

@[simp] theorem draw?_ofScreen (s : Screen h w) (x y : Int) (sprite : List UInt8) :
    (ofScreen s).draw? x y sprite = (s.draw? x y sprite).map fun (after, hit) => (ofScreen after, hit) := rfl

@[simp] theorem rows_ofScreen (s : Screen h w) : (ofScreen s).rows = s.rows := if_neg (by omega)

end SizedScreen

end ChipEight
