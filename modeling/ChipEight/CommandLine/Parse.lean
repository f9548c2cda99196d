/-
Reading a command line from left to right. One plain word is the program to run; an option that takes a value takes
what is attached, or the plain word behind it; an attached separator is taken away, which leaves the value blank. Short
options without values may share a dash. The first error or call for help ends the reading; words that were not used
are reported at the end, all together.

These are the rules of version 3.11.7 of the reader of options and of those before it. By version 3.11.10 two of them
are others: an attached separator is the value, so that `--config=--` names a file and `--seed=--` is no number, and one
equals sign does not count behind letters that share a dash either, so that `-vs=3` gives 3.
-/
import ChipEight.CommandLine.Word
import ChipEight.Text.Numeral

namespace ChipEight.CommandLine

/-- the number that the value of an option stands for -/
def readNumber (s : Switch) (text : String) : Except Stop Int :=
  match Text.readInt text with
  | some i => .ok i
  | none => .error (.usage (.notAnInteger s text))

/-- use an option that takes no value -/
def Options.raise (o : Options) : Switch → Except Stop Options
  | .help => .error .help
  | .verbose => .ok { o with verbose := true }
  | _ => .ok o

/-- the number that was given to an option, which may be blank -/
def readGiven (s : Switch) : Given String → Except Stop (Given Int)
  | .blank => .ok .blank
  | .value text => (readNumber s text).map .value

/-- use an option with its value; the last one given counts -/
def Options.use (o : Options) (s : Switch) (given : Given String) : Except Stop Options :=
  match s with
  | .config => .ok { o with config := some given }
  | .scale => (readGiven s given).map fun n => { o with scale := some n }
  | .cycles => (readGiven s given).map fun n => { o with cycles := some n }
  | .seed => (readGiven s given).map fun n => { o with seed := some n }
  | _ => .ok o

/-- what ends the options that share a dash -/
inductive Tail where
  | done
  /-- an option with its value -/
  | value (s : Switch) (given : Given String)
  /-- an option whose value is the next word -/
  | wants (s : Switch)
  deriving DecidableEq, Repr

/-- options that share a dash: some without values, and an end -/
structure Bundle where
  flags : List Switch := []
  tail : Tail := .done
  deriving DecidableEq, Repr

/-- what attached characters give to an option that takes a value -/
def attachedValue (cs : List Char) : Given String := if cs = ['-', '-'] then .blank else .value (String.ofList cs)

/-- take apart an option and the letters behind it: the rest is its value if it takes one, else the next letter must
be an option, too -/
def unbundle (s : Switch) : List Char → Except UsageError Bundle
  | [] => .ok (if s.takesValue then { tail := .wants s } else { flags := [s] })
  | c :: r =>
    if s.takesValue then .ok { tail := .value s (attachedValue (c :: r)) }
    else match Switch.ofLetter? c with
      | none => .error (.unwantedValue s (String.ofList (c :: r)))
      | some next => (unbundle next r).map fun b => { b with flags := s :: b.flags }

/-- the options in one word. Only behind a letter may the attached characters be further options. -/
def bundleOf (s : Switch) (long : Bool) : Option (List Char) → Except UsageError Bundle
  | none => unbundle s []
  | some cs =>
    if s.takesValue then .ok { tail := .value s (attachedValue cs) }
    else if long ∨ cs = [] then .error (.unwantedValue s (String.ofList cs))
    else unbundle s cs

/-- how far the reading has come -/
structure Progress where
  options : Options := {}
  /-- has the program been named -/
  placed : Bool := false
  /-- words that were not used, newest first -/
  unused : List String := []

namespace Progress

/-- leave a word unused -/
def pass (p : Progress) (text : String) : Progress := { p with unused := text :: p.unused }

/-- name the program, if that has not been done -/
def place (p : Progress) (text : String) : Progress :=
  if p.placed then p.pass text else { p with options := { p.options with rom := some text }, placed := true }

/-- use options without values -/
def raise (p : Progress) (flags : List Switch) : Except Stop Progress :=
  (flags.foldlM Options.raise p.options).map fun o => { p with options := o }

/-- use an option with its value -/
def use (p : Progress) (s : Switch) (given : Given String) : Except Stop Progress :=
  (p.options.use s given).map fun o => { p with options := o }

end Progress

/-- read words from left to right -/
def consume : List Word → Progress → Except Stop Progress
  | [], p => .ok p
  | .plain t :: .separator :: rest, p => consume rest (if p.placed then (p.pass t).pass "--" else p.place t)
  | .plain t :: rest, p => consume rest (p.place t)
  | .separator :: rest, p => consume rest (if p.placed then p.pass "--" else p)
  | .unknown t :: rest, p => consume rest (p.pass t)
  | .switch s long attached :: rest, p =>
    match bundleOf s long attached with
    | .error e => .error (.usage e)
    | .ok ⟨flags, .done⟩ => (p.raise flags).bind (consume rest)
    | .ok ⟨flags, .value s given⟩ => ((p.raise flags).bind fun p => p.use s given).bind (consume rest)
    | .ok ⟨flags, .wants s⟩ =>
      match rest with
      | .plain t :: rest => ((p.raise flags).bind fun p => p.use s (.value t)).bind (consume rest)
      | _ => .error (.usage (.expectedValue s))

/-- the options that a command line gives -/
def parse (args : List String) : Except Stop Options :=
  match words args with
  | .error e => .error (.usage e)
  | .ok ws =>
    match consume ws {} with
    | .error s => .error s
    | .ok p => if p.unused.isEmpty then .ok p.options else .error (.usage (.unrecognized p.unused.reverse))

end ChipEight.CommandLine
