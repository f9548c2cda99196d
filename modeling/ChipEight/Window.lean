/-
Drawing a picture on a surface. Every lit pixel is painted as a square of `scale` by `scale` pixels of the surface in
the front colour over the back colour. Surfaces are the host's, which opens and paints them.
-/
namespace ChipEight

/-- rows of pixels, as a screen shows them -/
abbrev Picture := List (List Bool)

/-- the column and row of every lit pixel -/
def Picture.lit (p : Picture) : List (Nat × Nat) :=
  p.zipIdx.flatMap fun (row, y) => (row.zipIdx.filter Prod.fst).map fun (_, x) => (x, y)

structure Color where
  red : UInt8
  green : UInt8
  blue : UInt8
  deriving DecidableEq, Repr

/-- the colour of three parts, if each is a byte -/
def Color.ofInts? : List Int → Option Color
  | [r, g, b] =>
    if [r, g, b].all fun c => 0 ≤ c && c ≤ 255 then
      some ⟨UInt8.ofInt r, UInt8.ofInt g, UInt8.ofInt b⟩
    else none
  | _ => none

/-- what a host does with its surfaces: paint every pixel, and paint a rectangle, given by its left upper corner, its
width and its height -/
structure Canvas (S : Type) where
  fill : S → Color → S
  fillRect : S → Color → Int → Int → Int → Int → S

/-- why a host opens no window, in its own words -/
structure NoWindow where
  reason : String
  deriving DecidableEq, Repr

/-- what a host does for a window: it opens a surface, asked for by its width and its height, and paints on it -/
structure Host (S : Type) extends Canvas S where
  openSurface : Int → Int → Except NoWindow S

/-- the size of the pictures, how large their pixels are shown, and the two colours -/
structure Window where
  width : Int
  height : Int
  scale : Int
  back : Color
  front : Color

namespace Window

variable {S : Type}

/-- the text in the window's title -/
def caption : String := "CHIP8 Emulator"

/-- open a window on a host: its surface, painted all over in the back colour -/
def openOn (host : Host S) (w : Window) : Except NoWindow S :=
  (host.openSurface (w.width * w.scale) (w.height * w.scale)).map fun s => host.fill s w.back

/-- show a picture on a surface of a host -/
def drawOn (host : Canvas S) (w : Window) (s : S) (p : Picture) : S :=
  p.lit.foldl (fun s (x, y) => host.fillRect s w.front (x * w.scale) (y * w.scale) w.scale w.scale)
    (host.fill s w.back)

/-- show pictures one after the other: the surface after each -/
def drawAllOn (host : Canvas S) (w : Window) : S → List Picture → List S
  | _, [] => []
  | s, p :: rest => let s := w.drawOn host s p; s :: drawAllOn host w s rest

end Window

end ChipEight
