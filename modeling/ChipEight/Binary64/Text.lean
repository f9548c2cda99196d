/-
Floating-point numbers as text. The digits are the shortest that read back; where the leading digit stands between
`10 ^ -4` and `10 ^ 15` they are written in place, with at least one on each side of the point, else with an
exponent of at least two digits.
-/
import ChipEight.Binary64.Shortest

namespace ChipEight.Binary64

/-- digits without the zeros at their end; the exponent goes up for each -/
def Decimal.strip (d : Decimal) : Decimal :=
  if d.digits ≠ 0 ∧ d.digits % 10 = 0 then Decimal.strip ⟨d.digits / 10, d.exponent + 1⟩ else d
termination_by d.digits
decreasing_by omega

/-- write digits in place -/
def positional (ds : List Char) (exponent : Int) : List Char :=
  let point := (ds.length : Int) + exponent
  if 0 ≤ exponent then ds ++ List.replicate exponent.toNat '0' ++ ['.', '0']
  else if 0 < point then ds.take point.toNat ++ '.' :: ds.drop point.toNat
  else '0' :: '.' :: List.replicate (-point).toNat '0' ++ ds

/-- write digits with the exponent of the leading one -/
def scientific (ds : List Char) (leading : Int) : List Char :=
  let tail := ds.drop 1
  let size := toString leading.natAbs
  ds.take 1 ++ (if tail.isEmpty then [] else '.' :: tail)
    ++ ['e', if leading < 0 then '-' else '+'] ++ (if size.length < 2 then '0' :: size.toList else size.toList)

/-- write a decimal -/
def Decimal.text (d : Decimal) : List Char :=
  let d := d.strip
  let ds := (toString d.digits).toList
  let leading := (ds.length : Int) + d.exponent - 1
  if -4 ≤ leading ∧ leading < 16 then positional ds d.exponent else scientific ds leading

/-- the text of a number -/
def text : Binary64 → String
  | nan => "nan"
  | infinite negative => if negative then "-inf" else "inf"
  | finite negative m q =>
    (if negative then "-" else "") ++ (if m = 0 then "0.0" else String.ofList (shortest m q).text)

/-- the value of plain digits -/
def digitsValue (cs : List Char) : Nat := cs.foldl (fun n c => n * 10 + (c.toNat - 48)) 0

/-- the number written as plain digits, with an optional fraction and exponent -/
def ofDigits (negative : Bool) (whole fraction : List Char) (exponent : Int) : Binary64 :=
  ofDecimal negative (digitsValue (whole ++ fraction)) (exponent - fraction.length)

end ChipEight.Binary64
