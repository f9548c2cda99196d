/-
Where random numbers come from: a state that hands out a number and the state after it. A machine carries such a
state and draws from it one number at a time, so a run is a function of its start.
-/
namespace ChipEight

/-- a state from which random numbers are drawn -/
class RandomSource (σ : Type) where
  draw : σ → Int × σ

namespace RandomSource

variable {σ : Type} [RandomSource σ]

/-- the state after `n` draws -/
def after (s : σ) : Nat → σ
  | 0 => s
  | n + 1 => after (draw s).2 n

/-- the number that draw `n` hands out, counted from zero -/
def output (s : σ) (n : Nat) : Int := (draw (after s n)).1

end RandomSource

/-- numbers handed out in turn, from the first again after the last -/
structure Cycle where
  numbers : Array Int
  next : Nat := 0
  deriving DecidableEq

instance : RandomSource Cycle where
  draw c := (c.numbers.getD (c.next % c.numbers.size) 0, { c with next := c.next + 1 })

end ChipEight
