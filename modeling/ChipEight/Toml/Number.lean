/-
Numbers of a TOML document. Single underscores may stand between digits. Integers are decimal with an optional sign
and no leading zero, or start with `0x`, `0o` or `0b`; a decimal with a fraction or an exponent is a float. A reader
takes as much as is a number and leaves the rest.
-/
import ChipEight.Toml.Text
import ChipEight.Value

namespace ChipEight.Toml

/-- further digits, with single underscores between them -/
def moreDigits (ok : Char → Bool) : List Char → List Char × List Char
  | [] => ([], [])
  | '_' :: c :: r =>
    if ok c then let (ds, rest) := moreDigits ok r; (c :: ds, rest) else ([], '_' :: c :: r)
  | c :: r => if ok c then let (ds, rest) := moreDigits ok r; (c :: ds, rest) else ([], c :: r)

/-- at least one digit -/
def digits (ok : Char → Bool) : Reader (List Char)
  | [] => none
  | c :: r => if ok c then let (ds, rest) := moreDigits ok r; some (c :: ds, rest) else none

def isDecimal (c : Char) : Bool := '0' ≤ c && c ≤ '9'

def isHex (c : Char) : Bool := (hexValue? c).isSome

def isOctal (c : Char) : Bool := '0' ≤ c && c ≤ '7'

def isBinary (c : Char) : Bool := c == '0' || c == '1'

/-- the number that digits write in a base -/
def inBase (base : Nat) (ds : List Char) : Nat :=
  ds.foldl (fun n c => n * base + (hexValue? c).getD 0) 0

/-- an integer in base sixteen, eight or two -/
def radix : Reader Value
  | '0' :: 'x' :: r => (digits isHex r).map fun (ds, rest) => (.int (inBase 16 ds), rest)
  | '0' :: 'o' :: r => (digits isOctal r).map fun (ds, rest) => (.int (inBase 8 ds), rest)
  | '0' :: 'b' :: r => (digits isBinary r).map fun (ds, rest) => (.int (inBase 2 ds), rest)
  | _ => none

/-- an optional sign; true for a minus -/
def sign : List Char → Bool × List Char
  | '-' :: r => (true, r)
  | '+' :: r => (false, r)
  | r => (false, r)

/-- digits before the point: a single zero, or digits that start with none -/
def wholePart : Reader (List Char)
  | '0' :: r => some (['0'], r)
  | r => digits isDecimal r

/-- a point and digits, if they are there -/
def fractionPart : List Char → Option (List Char) × List Char
  | '.' :: r =>
    match digits isDecimal r with
    | some (ds, rest) => (some ds, rest)
    | none => (none, '.' :: r)
  | r => (none, r)

/-- an exponent, if it is there -/
def exponentPart : List Char → Option Int × List Char
  | [] => (none, [])
  | c :: r =>
    if c = 'e' ∨ c = 'E' then
      let (negative, r') := sign r
      match digits isDecimal r' with
      | some (ds, rest) => (some (if negative then -(inBase 10 ds : Int) else inBase 10 ds), rest)
      | none => (none, c :: r)
    else (none, c :: r)

/-- a decimal integer or float -/
def decimal : Reader Value := fun cs =>
  let (negative, r) := sign cs
  (wholePart r).map fun (whole, r) =>
    let (fraction, r) := fractionPart r
    let (exponent, r) := exponentPart r
    if fraction.isNone ∧ exponent.isNone then
      (.int (if negative then -(inBase 10 whole : Int) else inBase 10 whole), r)
    else (.float (Binary64.ofDigits negative whole (fraction.getD []) (exponent.getD 0)), r)

/-- infinity or not-a-number, with an optional sign -/
def special : Reader Value := fun cs =>
  let (negative, r) := sign cs
  match r with
  | 'i' :: 'n' :: 'f' :: rest => some (.float (.infinite negative), rest)
  | 'n' :: 'a' :: 'n' :: rest => some (.float .nan, rest)
  | _ => none

/-- a number of any kind -/
def number : Reader Value := fun cs => radix cs <|> decimal cs <|> special cs

/-- do these characters start with a decimal integer of more digits than are read -/
def startsTooLong (cs : List Char) : Bool :=
  match wholePart (sign cs).2 with
  | some (whole, r) =>
    Text.digitBound < whole.length && (fractionPart r).1.isNone && (exponentPart (fractionPart r).2).1.isNone
  | none => false

end ChipEight.Toml
