/-
Upper-case hexadecimal text. `digits` writes a number with no leading zero (and `0` for zero); `padded` fills it
up on the left to a width with a chosen character, and never cuts it.
-/
namespace ChipEight.Text.Hex

/-- one hexadecimal digit -/
def digit (d : Nat) : Char :=
  if d < 10 then Char.ofNat (48 + d) else Char.ofNat (55 + d)

/-- the digits of a number, most significant first -/
def digits (n : Nat) : List Char :=
  if n < 16 then [digit n] else digits (n / 16) ++ [digit (n % 16)]
termination_by n
decreasing_by omega

theorem digits_of_lt {n : Nat} (h : n < 16) : digits n = [digit n] := by
  rw [digits, if_pos h]

theorem digits_of_ge {n : Nat} (h : 16 ≤ n) : digits n = digits (n / 16) ++ [digit (n % 16)] := by
  rw [digits, if_neg (by omega)]

/-- the digits, filled up on the left to at least `width` characters -/
def padded (fill : Char) (width n : Nat) : List Char :=
  let ds := digits n
  List.replicate (width - ds.length) fill ++ ds

/-- at least four digits, with leading zeros -/
def word (n : Nat) : String :=
  String.ofList (padded '0' 4 n)

/-- as `word`, for a number of either sign: the sign counts as one of the four characters -/
def signedWord (n : Int) : String :=
  if n < 0 then String.ofList ('-' :: padded '0' 3 n.natAbs) else word n.natAbs

end ChipEight.Text.Hex
