/-
A surface as a portable pixmap in plain text: the size, the greatest component, and the components of every pixel, one
row a line.
-/
import ChipEight.Window.Surface

namespace ChipEight

/-- the components of a colour -/
def Color.components (c : Color) : List Nat := [c.red.toNat, c.green.toNat, c.blue.toNat]

namespace Surface

/-- one row of pixels as a line -/
def pixmapLine (row : List Color) : String := " ".intercalate ((row.flatMap Color.components).map toString)

/-- the text of a surface -/
def pixmap (s : Surface) : String :=
  let head := ["P3", toString s.width ++ " " ++ toString s.height, "255"]
  String.join ((head ++ s.rows.map pixmapLine).map fun line => line ++ "\n")

end Surface

end ChipEight
