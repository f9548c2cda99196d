/-
The files that a run can see. A host tells of every name whether a regular file has it, and gives the bytes that
opening and reading it yields, or the reason why it does not. The two answers are independent: a regular file may be one
that must not be read, and what is no regular file may still have bytes.
-/
import ChipEight.Text.Quoted

namespace ChipEight

/-- why a host does not give the bytes of a file; it has a number and words for each reason -/
inductive HostProblem where
  /-- the file cannot be opened: there is none, it is a directory, it must not be read, and so on -/
  | refused (number : Nat) (words : String)
  /-- the file is open, but reading it breaks off -/
  | brokenOff (number : Nat) (words : String)
  deriving DecidableEq, Repr

def HostProblem.notFound : HostProblem := .refused 2 "No such file or directory"

/-- why there are no bytes of a file -/
inductive OpenError where
  | host (p : HostProblem) (name : String)
  /-- the name holds a NUL, which no name can; the host is not even asked -/
  | nulInName
  deriving DecidableEq, Repr

namespace OpenError

def message : OpenError → String
  | host (.refused number words) name =>
    "[Errno " ++ toString number ++ "] " ++ words ++ ": " ++ Text.quoted name
  | host (.brokenOff number words) _ => "[Errno " ++ toString number ++ "] " ++ words
  | nulInName => "embedded null byte"

/-- is it the host that gives no bytes -/
def isOfHost : OpenError → Bool
  | host _ _ => true
  | nulInName => false

end OpenError

/-- what a host tells of each name -/
structure Files where
  /-- the bytes that opening and reading yields; it is not asked for a name that holds a NUL -/
  look : String → Except HostProblem (Array UInt8)
  /-- has a regular file this name -/
  isFile : String → Bool

namespace Files

/-- regular files with these names and bytes, and nothing else -/
def ofList (entries : List (String × Array UInt8)) : Files where
  look name := (entries.lookup name).elim (.error .notFound) .ok
  isFile name := (entries.lookup name).isSome

/-- no files at all -/
def none : Files := .ofList []

/-- the bytes of the file with this name -/
def read (files : Files) (name : String) : Except OpenError (Array UInt8) :=
  if '\x00' ∈ name.toList then .error .nulInName else (files.look name).mapError (.host · name)

section Reading

variable {files : Files} {name : String}

theorem read_of_nul (h : '\x00' ∈ name.toList) : files.read name = .error .nulInName := if_pos h

theorem read_of_look (h : '\x00' ∉ name.toList) : files.read name = (files.look name).mapError (.host · name) :=
  if_neg h

theorem read_of_ok (h : '\x00' ∉ name.toList) {bytes : Array UInt8} (hlook : files.look name = .ok bytes) :
    files.read name = .ok bytes := by
  rw [read_of_look h, hlook]
  rfl

end Reading

end Files

end ChipEight
