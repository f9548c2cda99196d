/-
What a host can do to a machine, one operation after the other: execute the next instruction or an opcode of its own,
tick the timers, write a key or a pixel, hand over a batch of events, run a frame, start over. An operation may fail;
what it did to the machine until then stays, and the host may go on. What operations tell of the machine makes its log.
A machine is reachable if operations lead to it from the start of a program.
-/
import ChipEight.Frame

namespace ChipEight

inductive Operation where
  | step
  /-- execute an opcode without fetching it -/
  | execute (w : UInt16)
  | tick
  | setKey (index : Int) (down : Bool)
  | setPixel (x y : Int) (lit : Bool)
  | events (batch : List Event)
  | frame (cycles : Int) (playing : Bool)
  | reset
  deriving DecidableEq, Repr

/-- why an operation failed -/
inductive Failure where
  | fault (f : Fault)
  | noKey (e : NoSuchKey)
  | offScreen (e : OffScreen)
  deriving DecidableEq, Repr

/-- what an operation leaves: the machine, and why it failed if it did -/
structure Operated (σ : Type) where
  machine : Machine σ
  failure : Option Failure := none

namespace Operated

variable {σ : Type}

/-- what the execution of opcodes leaves -/
def ofOutcome (o : Outcome σ) : Operated σ := ⟨o.machine, o.fault.map .fault⟩

/-- what a write leaves that may be refused; a refused one leaves the machine as it was -/
def ofWrite {ε : Type} (m : Machine σ) (why : ε → Failure) : Except ε (Machine σ) → Operated σ
  | .ok after => { machine := after }
  | .error e => { machine := m, failure := some (why e) }

end Operated

namespace Machine

variable {σ : Type} [RandomSource σ]

/-- carry out one operation -/
def operate (m : Machine σ) : Operation → Operated σ
  | .step => .ofOutcome m.step
  | .execute w => .ofOutcome (m.execute w.toNat)
  | .tick => { machine := m.tick }
  | .setKey index down => .ofWrite m .noKey (m.setKey index down)
  | .setPixel x y lit => .ofWrite m .offScreen (m.setPixel x y lit)
  | .events batch => { machine := m.applyEvents batch }
  | .frame cycles playing =>
    let f := m.frame cycles playing
    ⟨f.machine, f.fault.map .fault⟩
  | .reset => { machine := m.reset }

@[simp] theorem operate_step (m : Machine σ) : (m.operate .step).machine = m.step.machine := rfl

@[simp] theorem operate_execute (m : Machine σ) (w : UInt16) :
    (m.operate (.execute w)).machine = (m.execute w.toNat).machine := rfl

@[simp] theorem operate_tick (m : Machine σ) : (m.operate .tick).machine = m.tick := rfl

/-- the machine after a sequence of operations, none of which ends the sequence by failing -/
def after (m : Machine σ) (ops : List Operation) : Machine σ := ops.foldl (fun m o => (m.operate o).machine) m

/-- what an operation tells, oldest first; those that execute no opcode have nothing to tell with -/
def told (m : Machine σ) : Operation → List Notice
  | .step => m.step.notices.toList
  | .execute w => (m.execute w.toNat).notices.toList
  | .frame cycles playing => (m.frame cycles playing).notices.toList
  | _ => []

/-- what an operation adds to the machine's log -/
def logged (m : Machine σ) (o : Operation) : List String := ((m.told o).filter Notice.isOwn).map Notice.text

/-- the machine's log of operations, oldest line first -/
def log : Machine σ → List Operation → List String
  | _, [] => []
  | m, o :: ops => m.logged o ++ (m.operate o).machine.log ops

/-- is there a program, a random source and a sequence of operations that leads from their start to this machine -/
def Reachable (m : Machine σ) : Prop :=
  ∃ (rom : Rom) (random : σ) (ops : List Operation), m = (boot rom random).after ops

end Machine

end ChipEight
