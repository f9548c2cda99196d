/-
Executing instructions. `step` fetches the word at `pc`, moves `pc` on by two and executes the word; `execute` does
only the last. A word that is no instruction is noted and passed over. A call with a full stack and a return with an
empty one are faults; they leave the machine as it was, apart from `pc` and the last opcode.
-/
import ChipEight.Machine

namespace ChipEight

/-- result and flag of an operation on a target `a` and a source `b`; no flag where the operation sets none -/
def Alu.apply (a b : UInt8) : Alu → UInt8 × Option UInt8
  | .copy => (b, none)
  | .or => (a ||| b, none)
  | .and => (a &&& b, none)
  | .xor => (a ^^^ b, none)
  | .add => (a + b, some (if a.toNat + b.toNat > 255 then 1 else 0))
  | .sub => (a - b, some (if b ≤ a then 1 else 0))
  | .shr => (b >>> 1, some (b &&& 1))
  | .subFrom => (b - a, some (if a ≤ b then 1 else 0))
  | .shl => (b <<< 1, some (b >>> 7))

namespace Machine

variable {σ : Type}

/-- the address of the next instruction -/
def next (pc : Nat) : Nat := (pc + 2) % 0x10000

/-- the address of the instruction before -/
def back (pc : Nat) : Nat := ((pc - 2 : Int) % 0x10000).toNat

/-- the register that instructions write their flag to -/
def flagReg : Reg := Nibble.low 15

/-- write the flag register -/
def setFlag (m : Machine σ) (b : UInt8) : Machine σ := m.setReg flagReg b

@[simp] theorem setFlag_eq (m : Machine σ) (b : UInt8) : m.setFlag b = m.setReg flagReg b := rfl

/-- the number of the key that a register names: its last digit -/
def keyNumber (m : Machine σ) (x : Reg) : Int := (m.reg x).toNat % 16

/-- does the test hold; a key is looked up by its number -/
def holds (m : Machine σ) : Test → Except NoSuchKey Bool
  | .byteIs x kk => .ok (m.reg x == kk)
  | .byteIsNot x kk => .ok (m.reg x != kk)
  | .same x y => .ok (m.reg x == m.reg y)
  | .differ x y => .ok (m.reg x != m.reg y)
  | .keyDown x => m.keypad.isDown (m.keyNumber x)
  | .keyUp x => (m.keypad.isDown (m.keyNumber x)).map not

/-- hundreds, tens and ones of a byte -/
def decimalDigits (b : UInt8) : List UInt8 := [b / 100, b / 10 % 10, b % 10]

/-- target first, then the flag, so that the flag wins where both are one register -/
def calculate (m : Machine σ) (op : Alu) (x y : Reg) : Machine σ :=
  match op.apply (m.reg x) (m.reg y) with
  | (r, none) => m.setReg x r
  | (r, some f) => (m.setReg x r).setFlag f

/-- draw from memory at the index; the flag tells of a collision -/
def drawSprite (m : Machine σ) (x y : Reg) (n : Nat) : Except NoRoom (Machine σ) :=
  (m.screen.draw? (m.reg x).toNat (m.reg y).toNat (m.memory.block m.index n)).map fun (screen, hit) =>
    { m with screen }.setFlag (if hit then 1 else 0)

/-- what is left of a machine that some work may change, or fail to -/
def attempt {ε : Type} (m : Machine σ) (why : ε → Breakdown) : Except ε (Machine σ) → Outcome σ
  | .ok after => { machine := after }
  | .error e => { machine := m, fault := some (.breakdown (why e)) }

/-- the index moved past the registers up to `x` -/
def pastRegs (m : Machine σ) (x : Reg) : Nat := (m.index + x + 1) % 0x10000

/-- carry out one instruction; `pc` already points behind it -/
def perform [RandomSource σ] (m : Machine σ) : Instruction → Outcome σ
  | .clear => { machine := { m with screen := .blank } }
  | .ret =>
    if m.sp = 0 then { machine := m, fault := some (.underflow (back m.pc)) }
    else match m.stack with
      | [] => { machine := m, fault := some (.breakdown .bareStack) }
      | a :: rest => { machine := { m with pc := a, stack := rest, sp := m.sp - 1 } }
  | .jump nnn => { machine := { m with pc := nnn } }
  | .call nnn =>
    if m.sp = stackRoom then { machine := m, fault := some (.overflow (back m.pc)) }
    else { machine := { m with pc := nnn, stack := m.pc :: m.stack, sp := m.sp + 1 } }
  | .skip t => m.attempt .key ((m.holds t).map fun skips => if skips then { m with pc := next m.pc } else m)
  | .load x kk => { machine := m.setReg x kk }
  | .addByte x kk => { machine := m.setReg x (m.reg x + kk) }
  | .alu op x y => { machine := m.calculate op x y }
  | .setIndex nnn => { machine := { m with index := nnn } }
  | .jumpOffset nnn => { machine := { m with pc := (m.reg (Nibble.low 0)).toNat + nnn } }
  | .random x kk =>
    let (r, random) := RandomSource.draw m.random
    { machine := { m with random }.setReg x (kk &&& UInt8.ofInt r) }
  | .draw x y n => m.attempt (fun _ => .noRoom) (m.drawSprite x y n)
  | .readDelay x => { machine := m.setReg x m.delay }
  | .waitKey x =>
    match m.keypad.lowest? with
    | none => { machine := { m with pc := back m.pc } }
    | some k =>
      { machine := m.setReg x (UInt8.ofNat k), notices := #[.keyTaken k (back m.pc)] }
  | .setDelay x => { machine := { m with delay := m.reg x } }
  | .setSound x => { machine := { m with sound := m.reg x } }
  | .addIndex x => { machine := { m with index := (m.index + (m.reg x).toNat) % 0x10000 } }
  | .digit x => { machine := { m with index := (m.reg x).toNat * 5 } }
  | .decimal x => { machine := { m with memory := m.memory.store m.index (decimalDigits (m.reg x)) } }
  | .save x =>
    { machine := { m with
        memory := m.memory.store m.index (m.v.toList.take (x + 1))
        index := m.pastRegs x } }
  | .restore x =>
    { machine := { m with
        v := Vector.ofFn fun k : Reg => if k ≤ x then m.memory.read (m.index + k) else m.reg k
        index := m.pastRegs x } }

/-- execute a word without fetching it -/
def execute [RandomSource σ] (m : Machine σ) (w : Nat) : Outcome σ :=
  match Instruction.decode w with
  | .error e => { machine := { m with opcode := w }, fault := some (.breakdown (.family e)) }
  | .ok none => { machine := { m with opcode := w }, notices := #[.unknownOpcode w] }
  | .ok (some i) => { m with opcode := w }.perform i

/-- the word at `pc`, high byte first -/
def fetch (m : Machine σ) : Nat := (m.memory.read m.pc).toNat * 256 + (m.memory.read (m.pc + 1)).toNat

/-- execute the next instruction -/
def step [RandomSource σ] (m : Machine σ) : Outcome σ :=
  { m with pc := next m.pc }.execute m.fetch

end Machine

namespace Outcome

variable {σ : Type}

/-- go on with more work, unless a fault has ended it -/
def andThen (o : Outcome σ) (f : Machine σ → Outcome σ) : Outcome σ :=
  match o.fault with
  | some _ => o
  | none =>
    let r := f o.machine
    { r with notices := o.notices ++ r.notices }

/-- run `n` more instructions, up to the first fault -/
def steps [RandomSource σ] : Nat → Outcome σ → Outcome σ
  | 0, o => o
  | n + 1, o => if o.fault.isSome then o else steps n (o.andThen Machine.step)

end Outcome

/-- run `n` instructions, up to the first fault -/
def Machine.run {σ : Type} [RandomSource σ] (n : Nat) (m : Machine σ) : Outcome σ :=
  Outcome.steps n { machine := m }

end ChipEight
