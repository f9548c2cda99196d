/-
Strings of a TOML document. Each reader starts behind the opening quotes, and gives the characters of the string and
what remains behind the closing quotes. Control characters other than the tab are refused; a string over several
lines may also hold line feeds, and one or two quotes may stand right before its closing quotes.
-/
namespace ChipEight.Toml

/-- a reader takes characters from the front and gives the rest, or refuses the document -/
abbrev Reader (α : Type) := List Char → Option (α × List Char)

/-- control characters that may stand in no string and no comment -/
def isControl (c : Char) : Bool := (c.toNat < 32 && c != '\t') || c.toNat == 127

def isSpace (c : Char) : Bool := c == ' ' || c == '\t'

def isSpaceOrNewline (c : Char) : Bool := isSpace c || c == '\n'

/-- skip blanks within a line -/
def skipSpace (cs : List Char) : List Char := cs.dropWhile isSpace

/-- a letter after a backslash that stands for one character -/
def namedEscape? : Char → Option Char
  | 'b' => some '\x08'
  | 't' => some '\t'
  | 'n' => some '\n'
  | 'f' => some '\x0c'
  | 'r' => some '\r'
  | '"' => some '"'
  | '\\' => some '\\'
  | _ => none

/-- the value of a hexadecimal digit -/
def hexValue? (c : Char) : Option Nat :=
  if '0' ≤ c ∧ c ≤ '9' then some (c.toNat - 48)
  else if 'a' ≤ c ∧ c ≤ 'f' then some (c.toNat - 87)
  else if 'A' ≤ c ∧ c ≤ 'F' then some (c.toNat - 55)
  else none

/-- the number that hexadecimal digits write -/
def hexNumber? (cs : List Char) : Option Nat :=
  cs.foldlM (fun n c => (hexValue? c).map fun d => n * 16 + d) 0

/-- the character with the number that hexadecimal digits write, if it is one -/
def scalar? (digits : List Char) : Option Char :=
  (hexNumber? digits).bind fun n => if n.isValidChar then some (Char.ofNat n) else none

/-- put a character in front of what a reader found -/
def consFound (c : Char) : Option (List Char × List Char) → Option (List Char × List Char)
  | some (cs, rest) => some (c :: cs, rest)
  | none => none

/-- a string in double quotes -/
def basic : Reader (List Char)
  | [] => none
  | '"' :: r => some ([], r)
  | '\\' :: 'u' :: a :: b :: c :: d :: r => (scalar? [a, b, c, d]).bind fun x => consFound x (basic r)
  | '\\' :: 'U' :: a :: b :: c :: d :: e :: f :: g :: h :: r =>
    (scalar? [a, b, c, d, e, f, g, h]).bind fun x => consFound x (basic r)
  | '\\' :: e :: r => (namedEscape? e).bind fun x => consFound x (basic r)
  | c :: r => if isControl c then none else consFound c (basic r)

/-- a string in single quotes -/
def literal : Reader (List Char)
  | [] => none
  | '\'' :: r => some ([], r)
  | c :: r => if isControl c then none else consFound c (literal r)

/-- what a string over several lines is skipping after a backslash -/
inductive Skip where
  /-- nothing -/
  | no
  /-- the blanks up to the end of the line -/
  | line
  /-- all blanks and line ends -/
  | blank
  deriving DecidableEq

/-- a string in three double quotes; a backslash at the end of a line skips up to the next visible character -/
def multiBasic : Skip → Reader (List Char)
  | _, [] => none
  | .line, c :: r =>
    if isSpace c then multiBasic .line r else if c = '\n' then multiBasic .blank r else none
  | _, '"' :: '"' :: '"' :: '"' :: '"' :: r => some (['"', '"'], r)
  | _, '"' :: '"' :: '"' :: '"' :: r => some (['"'], r)
  | _, '"' :: '"' :: '"' :: r => some ([], r)
  | _, '\\' :: 'u' :: a :: b :: c :: d :: r =>
    (scalar? [a, b, c, d]).bind fun x => consFound x (multiBasic .no r)
  | _, '\\' :: 'U' :: a :: b :: c :: d :: e :: f :: g :: h :: r =>
    (scalar? [a, b, c, d, e, f, g, h]).bind fun x => consFound x (multiBasic .no r)
  | _, '\\' :: e :: r =>
    if e = '\n' then multiBasic .blank r
    else if isSpace e then multiBasic .line r
    else (namedEscape? e).bind fun x => consFound x (multiBasic .no r)
  | skip, c :: r =>
    if skip = .blank ∧ isSpaceOrNewline c then multiBasic .blank r
    else if isControl c ∧ c ≠ '\n' then none
    else consFound c (multiBasic .no r)

/-- a string in three single quotes -/
def multiLiteral : Reader (List Char)
  | [] => none
  | '\'' :: '\'' :: '\'' :: '\'' :: '\'' :: r => some (['\'', '\''], r)
  | '\'' :: '\'' :: '\'' :: '\'' :: r => some (['\''], r)
  | '\'' :: '\'' :: '\'' :: r => some ([], r)
  | c :: r => if isControl c ∧ c ≠ '\n' then none else consFound c (multiLiteral r)

/-- a line end right behind the opening quotes does not count -/
def dropNewline : List Char → List Char
  | '\n' :: r => r
  | r => r

/-- a string of any kind, with its opening quotes -/
def string : Reader String := fun cs =>
  let found := match cs with
    | '"' :: '"' :: '"' :: r => multiBasic .no (dropNewline r)
    | '"' :: r => basic r
    | '\'' :: '\'' :: '\'' :: r => multiLiteral (dropNewline r)
    | '\'' :: r => literal r
    | _ => none
  found.map fun (s, rest) => (String.ofList s, rest)

end ChipEight.Toml
