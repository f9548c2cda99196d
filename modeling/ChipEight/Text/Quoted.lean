/-
Text in quotes. Single quotes stand around, unless the text holds one and no double quote. The quote that stands
around, and the backslash, get a backslash; line feed, carriage return and tab are written as letters; any other
character that is not shown as it is, by its number in two, four or eight hexadecimal digits.
-/
import ChipEight.Text.Hex
import ChipEight.Text.Printable

namespace ChipEight.Text

/-- a number in at least `width` lower-case hexadecimal digits -/
def lowerHex (width n : Nat) : List Char := (Hex.padded '0' width n).map Char.toLower

/-- the form of a character inside the quotes `q` -/
def escape (q c : Char) : List Char :=
  if c = q ∨ c = '\\' then ['\\', c]
  else if c = '\n' then ['\\', 'n']
  else if c = '\r' then ['\\', 'r']
  else if c = '\t' then ['\\', 't']
  else if isPrintable c then [c]
  else if c.toNat < 0x100 then '\\' :: 'x' :: lowerHex 2 c.toNat
  else if c.toNat < 0x10000 then '\\' :: 'u' :: lowerHex 4 c.toNat
  else '\\' :: 'U' :: lowerHex 8 c.toNat

/-- the quotes to stand around a text -/
def quoteFor (cs : List Char) : Char := if '\'' ∈ cs ∧ '"' ∉ cs then '"' else '\''

/-- a text in quotes -/
def quoted (s : String) : String :=
  let cs := s.toList
  let q := quoteFor cs
  String.ofList (q :: cs.flatMap (escape q) ++ [q])

end ChipEight.Text
