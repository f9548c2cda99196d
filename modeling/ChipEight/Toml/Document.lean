/-
Reading a TOML 1.0 document as a table. A document is a list of lines: blank ones, comments, `key = value`, a table
header `[name]` and an array header `[[name]]`. Values nest and keys have any number of parts, so their readers carry
a bound on the steps; two for each character are always enough. Reading stops at the first trouble: the document is
malformed there, or has too many digits in a decimal integer, or values too deep in each other.
-/
import ChipEight.Toml.Moment
import ChipEight.Toml.Node

namespace ChipEight.Toml

/-- characters of a key without quotes -/
def isBareKey (c : Char) : Bool :=
  ('a' ≤ c && c ≤ 'z') || ('A' ≤ c && c ≤ 'Z') || isDecimal c || c == '-' || c == '_'

/-- one part of a key -/
def keyPart : Reader String
  | '"' :: r => (basic r).map fun (s, rest) => (String.ofList s, rest)
  | '\'' :: r => (literal r).map fun (s, rest) => (String.ofList s, rest)
  | cs =>
    let name := cs.takeWhile isBareKey
    if name.isEmpty then none else some (String.ofList name, cs.dropWhile isBareKey)

/-- a key of at least one part, with dots between the parts -/
def key : Nat → Reader (List String)
  | 0, _ => none
  | fuel + 1, cs => do
    let (part, r) ← keyPart cs
    match skipSpace r with
    | '.' :: r =>
      let (parts, rest) ← key fuel (skipSpace r)
      some (part :: parts, rest)
    | r => some ([part], r)

/-- a comment, up to the end of its line -/
def skipComment : List Char → Option (List Char)
  | '#' :: r =>
    let body := r.takeWhile (· != '\n')
    if body.any isControl then none else some (r.dropWhile (· != '\n'))
  | r => some r

/-- blanks, line ends and comments between the items of an array, starting inside a comment or outside -/
def skipFiller : Bool → List Char → Option (List Char)
  | _, [] => some []
  | true, c :: r =>
    if c = '\n' then skipFiller false r else if isControl c then none else skipFiller true r
  | false, c :: r =>
    if isSpaceOrNewline c then skipFiller false r else if c = '#' then skipFiller true r else some (c :: r)

def filler : List Char → Option (List Char) := skipFiller false

/-- true or false -/
def bool : Reader Value
  | 't' :: 'r' :: 'u' :: 'e' :: r => some (.bool true, r)
  | 'f' :: 'a' :: 'l' :: 's' :: 'e' :: r => some (.bool false, r)
  | _ => none

/-- why reading stopped -/
inductive Trouble where
  | malformed
  | excess (e : Excess)
  deriving DecidableEq, Repr

/-- what must be there in a document that is well formed -/
def must {α : Type} : Option α → Except Trouble α
  | some a => .ok a
  | none => .error .malformed

/-- a value that is no array, no table and no number -/
def word : Reader Value := fun cs =>
  (string cs).map (fun (s, rest) => (.text s, rest)) <|> bool cs
    <|> (moment cs).map fun (t, rest) => (.moment t, rest)

/-- a value that is no array and no table -/
def scalar (cs : List Char) : Except Trouble (Value × List Char) :=
  match word cs with
  | some found => .ok found
  | none => if startsTooLong cs then .error (.excess .digits) else must (number cs)

mutual

/-- a value. The bound goes down by one a step; `room` is what is left for values in each other, of which an array
takes two and an inline table three. -/
def value : Nat → Nat → List Char → Except Trouble (Value × List Char)
  | 0, _, _ => .error .malformed
  | fuel + 1, room, cs =>
    if room < 3 then .error (.excess .depth)
    else match cs with
      | '[' :: r => do
        let (items, rest) ← items fuel (room - 2) (← must (filler r))
        .ok (.list items, rest)
      | '\x7b' :: r =>
        match skipSpace r with
        | '\x7d' :: rest => .ok (.table [], rest)
        | r => do
          let (entries, rest) ← pairs fuel (room - 3) [] r
          .ok (.table (entriesValue entries), rest)
      | cs => scalar cs

/-- the items of an array up to its bracket; a comma may stand behind the last -/
def items : Nat → Nat → List Char → Except Trouble (List Value × List Char)
  | 0, _, _ => .error .malformed
  | _ + 1, _, ']' :: rest => .ok ([], rest)
  | fuel + 1, room, cs => do
    let (v, r) ← value fuel room cs
    match ← must (filler r) with
    | ']' :: rest => .ok ([v], rest)
    | ',' :: r => do
      let (vs, rest) ← items fuel room (← must (filler r))
      .ok (v :: vs, rest)
    | _ => .error .malformed

/-- the entries of an inline table up to its brace; no comma may stand behind the last -/
def pairs : Nat → Nat → Entries → List Char → Except Trouble (Entries × List Char)
  | 0, _, _, _ => .error .malformed
  | fuel + 1, room, es, cs => do
    let (k, r) ← must (key fuel cs)
    let r ← must (expect '=' r)
    let (v, r) ← value fuel room (skipSpace r)
    let es ← must (es.assign 0 v k)
    match skipSpace r with
    | '\x7d' :: rest => .ok (es, rest)
    | ',' :: r => pairs fuel room es (skipSpace r)
    | _ => .error .malformed

end

/-- what has been read of a document: its tables, the name of the current header, and the number of headers -/
structure State where
  entries : Entries := []
  header : List String := []
  headers : Nat := 0

/-- take the last part off a name -/
def splitLast (names : List String) : Option (List String × String) :=
  names.getLast?.map fun last => (names.dropLast, last)

/-- a header, by the way it opens its table and its closing brackets -/
def header (fuel : Nat) (opens : String → Entries → Option Entries) (closing : List Char) (s : State)
    (cs : List Char) : Option (State × List Char) := do
  let (name, r) ← key fuel (skipSpace cs)
  let (path, last) ← splitLast name
  let entries ← s.entries.within (opens last) path
  let rest ← closing.foldlM (fun r c => expect c r) r
  some ({ entries, header := name, headers := s.headers + 1 }, rest)

/-- a key and its value -/
def pair (fuel : Nat) (s : State) (cs : List Char) : Except Trouble (State × List Char) := do
  let (k, r) ← must (key fuel cs)
  let r ← must (expect '=' r)
  let (v, rest) ← value fuel depthBound (skipSpace r)
  let entries ← must (s.entries.within (Entries.assign s.headers v k) s.header)
  .ok ({ s with entries }, rest)

/-- what stands at the start of a line -/
def statement (fuel : Nat) (s : State) : List Char → Except Trouble (State × List Char)
  | [] => .ok (s, [])
  | '\n' :: r => .ok (s, '\n' :: r)
  | '#' :: r => .ok (s, '#' :: r)
  | '[' :: '[' :: r => must (header fuel Entries.openNext [']', ']'] s r)
  | '[' :: r => must (header fuel Entries.openTable [']'] s r)
  | cs => pair fuel s cs

/-- the lines of a document -/
def lines : Nat → State → List Char → Except Trouble State
  | 0, _, _ => .error .malformed
  | fuel + 1, s, cs => do
    let (s, r) ← statement (fuel + 1) s (skipSpace cs)
    match ← must (skipComment (skipSpace r)) with
    | [] => .ok s
    | '\n' :: r => lines fuel s r
    | _ => .error .malformed

/-- carriage returns before line feeds do not count -/
def joinLines : List Char → List Char
  | '\r' :: '\n' :: r => '\n' :: joinLines r
  | c :: r => c :: joinLines r
  | [] => []

/-- the table that a document describes -/
def read (text : String) : Except Trouble Table :=
  let cs := joinLines text.toList
  (lines (2 * cs.length + 2) {} cs).map fun s => entriesValue s.entries

end ChipEight.Toml
