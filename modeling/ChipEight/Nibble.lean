/-
Numbers below sixteen, which one hexadecimal digit writes. Registers and keys are such numbers.
-/
namespace ChipEight

abbrev Nibble := Fin 16

/-- the last hexadecimal digit of a number -/
def Nibble.low (n : Nat) : Nibble := Fin.ofNat 16 n

end ChipEight
