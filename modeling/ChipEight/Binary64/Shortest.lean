/-
The shortest decimal that reads back. The reals that round to a number form an interval; of all decimals in it those
with the fewest digits count, and of those the nearest to the number. For each count of digits only the two
neighbours of the number on that decimal grid can be in the interval, and both are tested in exact arithmetic.
-/
import ChipEight.Binary64.Basic

namespace ChipEight.Binary64

/-- a decimal `digits * 10 ^ exponent` -/
structure Decimal where
  digits : Nat
  exponent : Int
  deriving DecidableEq, Repr

/-- compare `a * 10 ^ k` with `b * 2 ^ q` -/
def compareScaled (a : Nat) (k : Int) (b : Nat) (q : Int) : Ordering :=
  compare (a * Nat.pow 10 k.toNat * Nat.pow 2 (-q).toNat) (b * Nat.pow 2 q.toNat * Nat.pow 10 (-k).toNat)

/-- the exponent of the leading decimal digit of `m * 2 ^ q`, which is not zero -/
def leadingExponent (m : Nat) (q : Int) : Int :=
  let guess := ((Nat.log2 m : Int) + q) * 30103 / 100000
  ([guess + 1, guess].find? fun e => compareScaled 1 e m q != .gt).getD (guess - 1)

/-- the number `m * 2 ^ q` counted in units of `10 ^ k`, rounded down -/
def unitsBelow (m : Nat) (q k : Int) : Nat :=
  (m * Nat.pow 2 q.toNat * Nat.pow 10 (-k).toNat) / (Nat.pow 10 k.toNat * Nat.pow 2 (-q).toNat)

/-- four times the ends of the interval and the number itself, over `2 ^ (q - 2)`. Below a power of two the gap is
half as wide. -/
def interval (m : Nat) (q : Int) : Nat × Nat × Nat :=
  let narrow := m = Nat.pow 2 (precision - 1) ∧ minExponent < q
  (if narrow then 4 * m - 1 else 4 * m - 2, 4 * m, 4 * m + 2)

/-- does `c * 10 ^ k` round to `m * 2 ^ q`; the ends do when `m` is even -/
def readsBack (m : Nat) (q : Int) (c : Nat) (k : Int) : Bool :=
  let (lo, _, hi) := interval m q
  let low := compareScaled c k lo (q - 2)
  let high := compareScaled c k hi (q - 2)
  if m % 2 = 0 then low != .lt && high != .gt else low == .gt && high == .lt

/-- is `c` at least as near as `c + 1` in units of `10 ^ k`; a tie goes to the even one -/
def belowIsNearer (m : Nat) (q : Int) (c : Nat) (k : Int) : Bool :=
  match compareScaled (2 * c + 1) k (2 * m) q with
  | .gt => true
  | .lt => false
  | .eq => c % 2 == 0

/-- the decimal with `n` digits that reads back, the nearer one of two -/
def withDigits? (m : Nat) (q e : Int) (n : Nat) : Option Decimal :=
  let k := e - n + 1
  let c := unitsBelow m q k
  match readsBack m q c k, readsBack m q (c + 1) k with
  | true, true => some ⟨if belowIsNearer m q c k then c else c + 1, k⟩
  | true, false => some ⟨c, k⟩
  | false, true => some ⟨c + 1, k⟩
  | false, false => none

/-- the shortest decimal that reads back as `m * 2 ^ q`, which is not zero; seventeen digits always do -/
def shortest (m : Nat) (q : Int) : Decimal :=
  let e := leadingExponent m q
  ((List.range 17).findSome? fun n => withDigits? m q e (n + 1)).getD ⟨unitsBelow m q (e - 16), e - 16⟩

end ChipEight.Binary64
