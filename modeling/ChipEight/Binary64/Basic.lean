/-
Numbers of the 64-bit binary floating-point format, as what they are worth: a finite one is `m * 2 ^ q` with a sign.
`m` has 53 bits, or fewer with the least `q`, so each number is written in one way. `nearest` rounds a quotient to
the nearest number, ties to an even `m`; what is too large becomes infinite.
-/
namespace ChipEight

inductive Binary64 where
  | nan
  | infinite (negative : Bool)
  | finite (negative : Bool) (m : Nat) (q : Int)
  deriving DecidableEq, Repr

namespace Binary64

/-- the least exponent -/
def minExponent : Int := -1074

/-- the greatest exponent -/
def maxExponent : Int := 971

/-- the bits of a full `m` -/
def precision : Nat := 53

/-- a quotient rounded to the nearest number, ties to even -/
def roundEven (num den : Nat) : Nat :=
  let k := num / den
  let twice := 2 * (num % den)
  if twice < den then k else if den < twice then k + 1 else k + k % 2

/-- the quotient `num / den` divided by `2 ^ q`, as a quotient again -/
def scaled (num den : Nat) (q : Int) : Nat × Nat :=
  if 0 ≤ q then (num, den * Nat.pow 2 q.toNat) else (num * Nat.pow 2 (-q).toNat, den)

/-- the exponent that gives `num / den` an `m` of at most 53 bits before rounding, and no fewer if it can -/
def exponentFor (num den : Nat) : Int :=
  let low := max minExponent ((Nat.log2 num : Int) - Nat.log2 den - precision)
  let (a, b) := scaled num den low
  if a / b < Nat.pow 2 precision then low else low + 1

/-- the number nearest to `num / den` -/
def nearest (negative : Bool) (num den : Nat) : Binary64 :=
  if num = 0 then finite negative 0 minExponent
  else
    let q := exponentFor num den
    let (a, b) := scaled num den q
    let m := roundEven a b
    let (m, q) := if m = Nat.pow 2 precision then (Nat.pow 2 (precision - 1), q + 1) else (m, q)
    if maxExponent < q then infinite negative else finite negative m q

/-- how many decimal digits a number has, give or take one -/
def decimalLength (n : Nat) : Nat := Nat.log2 n * 30103 / 100000 + 1

/-- the number nearest to `m * 10 ^ e`. Far outside the range of the format no power of ten is worked out. -/
def ofDecimal (negative : Bool) (m : Nat) (e : Int) : Binary64 :=
  let reach := e + decimalLength m
  if m = 0 ∨ reach < -400 then finite negative 0 minExponent
  else if 400 < reach then infinite negative
  else if 0 ≤ e then nearest negative (m * Nat.pow 10 e.toNat) 1
  else nearest negative m (Nat.pow 10 (-e).toNat)

end Binary64

end ChipEight
