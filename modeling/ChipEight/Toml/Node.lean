/-
The tables of a TOML document while it is read. A table remembers how it came to be: implied by a longer name, opened
by a header of its own, or named by a dotted key in some section. A header may open an implied table once; a dotted
key may enter an implied table, or one that dotted keys of the same section made. A written value is never changed.
-/
import ChipEight.Value

namespace ChipEight.Toml

/-- how a table came to be -/
inductive Origin where
  | implied
  | opened
  | dotted (inSection : Nat)
  deriving DecidableEq, Repr

/-- may dotted keys of this section not enter -/
def Origin.isClosed (o : Origin) (current : Nat) : Bool :=
  match o with
  | implied => false
  | opened => true
  | dotted s => s != current

inductive Node where
  /-- a written value -/
  | leaf (v : Value)
  | table (origin : Origin) (entries : List (String × Node))
  /-- an array of tables: the finished ones, newest first, and the one that headers reach -/
  | tables (finished : List (List (String × Node))) (last : List (String × Node))

/-- the entries of a table under construction -/
abbrev Entries := List (String × Node)

namespace Entries

def get? : Entries → String → Option Node
  | [], _ => none
  | (k, v) :: rest, key => if k = key then some v else get? rest key

def put : Entries → String → Node → Entries
  | [], key, node => [(key, node)]
  | (k, v) :: rest, key, node => if k = key then (k, node) :: rest else (k, v) :: put rest key node

/-- change the table that a header's name leads to; missing tables on the way are implied -/
def within (f : Entries → Option Entries) : List String → Entries → Option Entries
  | [], es => f es
  | k :: path, es =>
    match es.get? k with
    | none => (within f path []).map fun sub => es.put k (.table .implied sub)
    | some (.table o sub) => (within f path sub).map fun sub => es.put k (.table o sub)
    | some (.tables finished last) => (within f path last).map fun last => es.put k (.tables finished last)
    | some (.leaf _) => none

/-- open a table by its header -/
def openTable (k : String) (es : Entries) : Option Entries :=
  match es.get? k with
  | none => some (es.put k (.table .opened []))
  | some (.table .implied sub) => some (es.put k (.table .opened sub))
  | some _ => none

/-- begin the next table of an array -/
def openNext (k : String) (es : Entries) : Option Entries :=
  match es.get? k with
  | none => some (es.put k (.tables [] []))
  | some (.tables finished last) => some (es.put k (.tables (last :: finished) []))
  | some _ => none

/-- write a value under a dotted key -/
def assign (current : Nat) (v : Value) : List String → Entries → Option Entries
  | [], _ => none
  | [k], es => if (es.get? k).isNone then some (es.put k (.leaf v)) else none
  | k :: path, es =>
    match es.get? k with
    | none => (assign current v path []).map fun sub => es.put k (.table (.dotted current) sub)
    | some (.table o sub) =>
      if o.isClosed current then none
      else (assign current v path sub).map fun sub => es.put k (.table (.dotted current) sub)
    | some _ => none

end Entries

mutual

/-- the value that a node stands for -/
def Node.value : Node → Value
  | .leaf v => v
  | .table _ entries => .table (entriesValue entries)
  | .tables finished last => .list ((tablesValue finished).reverse ++ [.table (entriesValue last)])

def entriesValue : List (String × Node) → List (String × Value)
  | [] => []
  | (k, n) :: rest => (k, n.value) :: entriesValue rest

def tablesValue : List (List (String × Node)) → List Value
  | [] => []
  | es :: rest => .table (entriesValue es) :: tablesValue rest

end

end ChipEight.Toml
