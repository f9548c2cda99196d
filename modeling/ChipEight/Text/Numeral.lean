/-
Integers as people type them: blanks around, a sign, and decimal digits of any script with single underscores
between them. Anything else is no integer, and neither are digits beyond a bound, which keeps numerals quick to read
and to write.
-/
import ChipEight.Text.Digit

namespace ChipEight.Text

/-- the most decimal digits that a number is read or written with -/
def digitBound : Nat := 4300

/-- the blanks that may stand around a numeral -/
def isBlank (c : Char) : Bool :=
  let n := c.toNat
  (9 ≤ n && n ≤ 13) || n == 0x20 || n == 0x85 || n == 0xA0 || n == 0x1680 || (0x2000 ≤ n && n ≤ 0x200A)
    || n == 0x2028 || n == 0x2029 || n == 0x202F || n == 0x205F || n == 0x3000

/-- read on after some digits, whose value is `acc` -/
def readMoreDigits (acc : Nat) : List Char → Option Nat
  | [] => some acc
  | '_' :: c :: r => (digitValue? c).bind fun d => readMoreDigits (acc * 10 + d) r
  | c :: r => (digitValue? c).bind fun d => readMoreDigits (acc * 10 + d) r

/-- digits with single underscores between them -/
def readDigits : List Char → Option Nat
  | [] => none
  | c :: r => (digitValue? c).bind fun d => readMoreDigits d r

/-- digits after an optional sign -/
def readSigned : List Char → Option Int
  | '-' :: r => (readDigits r).map fun n => -(n : Int)
  | '+' :: r => (readDigits r).map fun n => (n : Int)
  | r => (readDigits r).map fun n => (n : Int)

/-- a text without the blanks at both ends -/
def trim (cs : List Char) : List Char :=
  ((cs.dropWhile isBlank).reverse.dropWhile isBlank).reverse

/-- the integer that a text stands for -/
def readInt (s : String) : Option Int :=
  if (s.toList.filter isDigit).length ≤ digitBound then readSigned (trim s.toList) else none

end ChipEight.Text
