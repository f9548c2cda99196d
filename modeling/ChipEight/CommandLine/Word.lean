/-
The words of a command line, told apart before any is used. A word that starts with a dash is an option, unless it is
a lone dash, looks like a negative number, or holds a space and begins no option. Long options may be cut short as
long as one is meant. What stands behind an option in its word is attached to it; one equals sign in between does not
count. Everything behind the separator `--` is plain. The version of these rules is that of `CommandLine.Parse`.
-/
import ChipEight.CommandLine.Options
import ChipEight.Text.Digit

namespace ChipEight.CommandLine

inductive Word where
  | plain (text : String)
  | separator
  /-- an option, by its letter or its long name, and the characters attached to it, if any -/
  | switch (s : Switch) (long : Bool) (attached : Option (List Char))
  /-- a word that looks like an option and is none -/
  | unknown (text : String)
  deriving DecidableEq, Repr

/-- digits only, and at least one -/
def isDigits (cs : List Char) : Bool := !cs.isEmpty && cs.all Text.isDigit

/-- a text without the line end it may have -/
def dropLineEnd (cs : List Char) : List Char := if cs.getLast? = some '\n' then cs.dropLast else cs

/-- a dash and a number, perhaps with a point before its last digits -/
def looksNegative (cs : List Char) : Bool :=
  match dropLineEnd cs with
  | '-' :: r =>
    isDigits r || match r.dropWhile Text.isDigit with
      | '.' :: fraction => isDigits fraction
      | _ => false
  | _ => false

/-- a word with a dash that begins no option -/
def classifyRest (text : String) : Word :=
  if looksNegative text.toList || text.toList.contains ' ' then .plain text else .unknown text

/-- what is attached to an option that these characters follow -/
def attachment : List Char → Option (List Char)
  | [] => none
  | '=' :: r => some r
  | r => some r

/-- the options whose spelling starts like this -/
def candidates (start : List Char) : List (String × Switch) :=
  Switch.spellings.filter fun e => start.isPrefixOf e.1.toList

/-- a word with two dashes: the start of a long option, perhaps with an equals sign and a value -/
def classifyLong (text : String) : Except UsageError Word :=
  match candidates (text.toList.takeWhile (· != '=')) with
  | [] => .ok (classifyRest text)
  | [(_, s)] => .ok (.switch s true (attachment (text.toList.dropWhile (· != '='))))
  | several => .error (.ambiguous text (several.map Prod.fst))

/-- what kind of word this is -/
def classify (text : String) : Except UsageError Word :=
  match text.toList with
  | '-' :: '-' :: _ => classifyLong text
  | '-' :: c :: r =>
    match Switch.ofLetter? c with
    | some s => .ok (.switch s false (attachment r))
    | none => .ok (classifyRest text)
  | _ => .ok (.plain text)

/-- the words of a command line -/
def words : List String → Except UsageError (List Word)
  | [] => .ok []
  | text :: rest =>
    if text = "--" then .ok (.separator :: rest.map .plain)
    else do
      let w ← classify text
      let ws ← words rest
      .ok (w :: ws)

end ChipEight.CommandLine
