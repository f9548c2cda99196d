/-
Only the lowest twelve bits of an address matter. Memory is addressed modulo 4096, `pc` and `index` count modulo 65536,
and a jump by an offset does not wrap at all; the three agree, since 4096 divides 65536. Two machines that differ only
in higher bits of their addresses (`Congruent`) do the same: `perform_alike` says so of one instruction, `step_alike` of
one step, and `related_runs` of runs of any length.
-/
import ChipEight.Proofs.Bounds

namespace ChipEight

/-! ## Addresses modulo 4096 -/

namespace Memory

theorem read_congr (mem : Memory) {a b : ℕ} (h : a ≡ b [MOD 4096]) : mem.read a = mem.read b := by
  simp only [read, show a % 4096 = b % 4096 from h]

theorem write_congr (mem : Memory) {a b : ℕ} (h : a ≡ b [MOD 4096]) (x : UInt8) : mem.write a x = mem.write b x := by
  simp only [write, show a % 4096 = b % 4096 from h]

theorem block_congr (mem : Memory) {a b : ℕ} (h : a ≡ b [MOD 4096]) (n : ℕ) : mem.block a n = mem.block b n := by
  apply List.map_congr_left
  intro k _
  exact mem.read_congr (h.add_right k)

theorem store_congr (mem : Memory) {a b : ℕ} (h : a ≡ b [MOD 4096]) (bs : List UInt8) :
    mem.store a bs = mem.store b bs := by
  induction bs generalizing mem a b with
  | nil => rfl
  | cons x bs ih =>
    simp only [store]
    rw [mem.write_congr h]
    exact ih _ (h.add_right 1)

end Memory

/-- faults of one kind at addresses that are congruent -/
inductive Fault.Alike : Fault → Fault → Prop where
  | overflow {a b : ℕ} (h : a ≡ b [MOD 4096]) : Alike (.overflow a) (.overflow b)
  | underflow {a b : ℕ} (h : a ≡ b [MOD 4096]) : Alike (.underflow a) (.underflow b)
  | breakdown (b : Breakdown) : Alike (.breakdown b) (.breakdown b)

namespace Machine

variable {σ : Type}

theorem next_congr {a b : ℕ} (h : a ≡ b [MOD 4096]) : next a ≡ next b [MOD 4096] := by
  simp only [next, Nat.ModEq] at *
  omega

theorem back_congr {a b : ℕ} (h : a ≡ b [MOD 4096]) : back a ≡ back b [MOD 4096] := by
  simp only [back, Nat.ModEq] at *
  omega

/-- two machines that differ at most in their programs and in the higher bits of their addresses -/
structure Congruent (m n : Machine σ) : Prop where
  pc : m.pc ≡ n.pc [MOD 4096]
  index : m.index ≡ n.index [MOD 4096]
  stack : List.Forall₂ (· ≡ · [MOD 4096]) m.stack n.stack
  v : m.v = n.v
  sp : m.sp = n.sp
  memory : m.memory = n.memory
  delay : m.delay = n.delay
  sound : m.sound = n.sound
  screen : m.screen = n.screen
  keypad : m.keypad = n.keypad
  random : m.random = n.random
  opcode : m.opcode = n.opcode

/-- what is left is congruent, and so are the faults -/
structure Alike (o p : Outcome σ) : Prop where
  machine : Congruent o.machine p.machine
  fault : Option.Rel Fault.Alike o.fault p.fault

/-- machines whose addresses are 16-bit numbers and congruent modulo 4096, and that agree on all else but the program -/
structure Related (m n : Machine σ) : Prop extends Congruent m n where
  left : m.Addressed
  right : n.Addressed

/-- the same opcode, the same picture, faults of one kind at congruent addresses, and machines that are related again -/
structure Matches (o p : Outcome σ) : Prop where
  opcode : o.machine.opcode = p.machine.opcode
  picture : o.machine.picture = p.machine.picture
  fault : Option.Rel Fault.Alike o.fault p.fault
  related : Related o.machine p.machine

theorem Alike.matches {o p : Outcome σ} (h : Alike o p) (ho : o.machine.Addressed) (hp : p.machine.Addressed) :
    Matches o p where
  opcode := h.machine.opcode
  picture := by simp only [picture, h.machine.screen]
  fault := h.fault
  related := { h.machine with left := ho, right := hp }

namespace Congruent

variable {m n : Machine σ}

theorem alike (h : Congruent m n) {ns ns' : Array Notice} : Alike ⟨m, ns, none⟩ ⟨n, ns', none⟩ := ⟨h, .none⟩

theorem reg (h : Congruent m n) (x : Reg) : m.reg x = n.reg x := by
  simp only [Machine.reg, h.v]

theorem passes (h : Congruent m n) (t : Test) : m.passes t = n.passes t := by
  cases t <;> simp only [Machine.passes, h.reg, h.keypad]

theorem drawing (h : Congruent m n) (x y : Reg) (k : ℕ) : m.drawing x y k = n.drawing x y k := by
  simp only [Machine.drawing, h.screen, h.reg, h.memory, n.memory.block_congr h.index]

theorem fetch (h : Congruent m n) : m.fetch = n.fetch := by
  simp only [Machine.fetch, h.memory]
  rw [n.memory.read_congr h.pc, n.memory.read_congr (h.pc.add_right 1)]

theorem pastRegs (h : Congruent m n) (x : Reg) : m.pastRegs x ≡ n.pastRegs x [MOD 4096] := by
  have hi := h.index
  simp only [Machine.pastRegs, Nat.ModEq] at *
  omega

theorem setReg (h : Congruent m n) (x : Reg) (b : UInt8) : Congruent (m.setReg x b) (n.setReg x b) :=
  { h with v := by rw [Machine.setReg, Machine.setReg, h.v] }

theorem calculate (h : Congruent m n) (op : Alu) (x y : Reg) :
    Congruent (m.calculate op x y) (n.calculate op x y) := by
  simp only [Machine.calculate, h.reg]
  split
  · exact h.setReg _ _
  · exact (h.setReg _ _).setReg _ _

end Congruent

variable [RandomSource σ] {m n : Machine σ}

/-! ## One instruction -/

theorem ret_alike (h : Congruent m n) : Alike (m.perform .ret) (n.perform .ret) := by
  simp only [perform, h.sp]
  split_ifs with hsp
  · exact ⟨h, .some (.underflow (back_congr h.pc))⟩
  · have hs := h.stack
    generalize m.stack = s at hs
    generalize n.stack = t at hs
    cases hs with
    | nil => exact ⟨h, .some (.breakdown _)⟩
    | cons hab hrest => exact ⟨{ h with pc := hab, stack := hrest, sp := rfl }, .none⟩

theorem call_alike (h : Congruent m n) (nnn : Target) : Alike (m.perform (.call nnn)) (n.perform (.call nnn)) := by
  simp only [perform, h.sp]
  split_ifs with hsp
  · exact ⟨h, .some (.overflow (back_congr h.pc))⟩
  · exact ⟨{ h with pc := rfl, stack := .cons h.pc h.stack, sp := rfl }, .none⟩

theorem waitKey_alike (h : Congruent m n) (x : Reg) : Alike (m.perform (.waitKey x)) (n.perform (.waitKey x)) := by
  cases hk : n.keypad.lowest? with
  | none =>
    rw [perform_waitKey_none hk, perform_waitKey_none (h.keypad ▸ hk)]
    exact ⟨{ h with pc := back_congr h.pc }, .none⟩
  | some k =>
    rw [perform_waitKey_some hk, perform_waitKey_some (h.keypad ▸ hk)]
    exact (h.setReg _ _).alike

theorem random_alike (h : Congruent m n) (x : Reg) (kk : UInt8) :
    Alike (m.perform (.random x kk)) (n.perform (.random x kk)) := by
  have hr (r : σ) : Congruent { m with random := r } { n with random := r } := { h with random := rfl }
  simp only [perform, h.random]
  exact ((hr _).setReg _ _).alike

theorem perform_alike (h : Congruent m n) (i : Instruction) : Alike (m.perform i) (n.perform i) := by
  have hi := h.index
  cases i with
  | clear => exact ⟨{ h with screen := rfl }, .none⟩
  | ret => exact ret_alike h
  | jump nnn => exact ⟨{ h with pc := rfl }, .none⟩
  | call nnn => exact call_alike h nnn
  | skip t =>
    rw [perform_skip, perform_skip, h.passes]
    split_ifs
    · exact ⟨{ h with pc := next_congr h.pc }, .none⟩
    · exact h.alike
  | load x kk => exact (h.setReg x kk).alike
  | addByte x kk => simp only [perform, h.reg]; exact (h.setReg _ _).alike
  | alu op x y => exact (h.calculate op x y).alike
  | setIndex nnn => exact ⟨{ h with index := rfl }, .none⟩
  | jumpOffset nnn => simp only [perform, h.reg]; exact ⟨{ h with pc := rfl }, .none⟩
  | random x kk => exact random_alike h x kk
  | draw x y k =>
    have hs (s : Display) : Congruent { m with screen := s } { n with screen := s } := { h with screen := rfl }
    rw [perform_draw, perform_draw, h.drawing]
    exact ((hs _).setReg _ _).alike
  | readDelay x => simp only [perform, h.delay]; exact (h.setReg _ _).alike
  | waitKey x => exact waitKey_alike h x
  | setDelay x => exact ⟨{ h with delay := h.reg x }, .none⟩
  | setSound x => exact ⟨{ h with sound := h.reg x }, .none⟩
  | addIndex x =>
    simp only [perform, h.reg]
    refine ⟨{ h with index := ?_ }, .none⟩
    simp only [Nat.ModEq] at *
    omega
  | digit x => simp only [perform, h.reg]; exact ⟨{ h with index := rfl }, .none⟩
  | decimal x =>
    simp only [perform, h.reg, h.memory]
    exact ⟨{ h with memory := n.memory.store_congr hi _ }, .none⟩
  | save x =>
    simp only [perform, h.v, h.memory]
    exact ⟨{ h with memory := n.memory.store_congr hi _, index := h.pastRegs x, v := rfl }, .none⟩
  | restore x =>
    simp only [perform, h.reg, h.memory]
    have hv (k : Reg) : n.memory.read (m.index + k) = n.memory.read (n.index + k) :=
      n.memory.read_congr (hi.add_right (k : ℕ))
    simp only [hv]
    exact ⟨{ h with v := rfl, index := h.pastRegs x, memory := rfl }, .none⟩

/-! ## Steps and runs -/

theorem execute_alike (h : Congruent m n) (w : ℕ) : Alike (m.execute w) (n.execute w) := by
  have hw : Congruent { m with opcode := w } { n with opcode := w } := { h with opcode := rfl }
  obtain ⟨i, hd⟩ := Instruction.decode_isOk w
  cases i with
  | none =>
    rw [execute_of_unknown m hd, execute_of_unknown n hd]
    exact hw.alike
  | some i =>
    rw [execute_of_decode m hd, execute_of_decode n hd]
    exact perform_alike hw i

theorem step_alike (h : Congruent m n) : Alike m.step n.step := by
  have hn : Congruent { m with pc := next m.pc } { n with pc := next n.pc } := { h with pc := next_congr h.pc }
  simp only [step, h.fetch]
  exact execute_alike hn _

theorem andThen_step_alike {o p : Outcome σ} (h : Alike o p) : Alike (o.andThen step) (p.andThen step) := by
  obtain ⟨om, ons, of⟩ := o
  obtain ⟨pm, pns, pf⟩ := p
  obtain ⟨hm, hf⟩ := h
  cases hf with
  | none => exact ⟨(step_alike hm).machine, (step_alike hm).fault⟩
  | some hf => exact ⟨hm, .some hf⟩

theorem steps_alike {o p : Outcome σ} (h : Alike o p) (k : ℕ) : Alike (o.steps k) (p.steps k) := by
  induction k generalizing o p with
  | zero => exact h
  | succ k ih =>
    have hs : o.fault.isSome = p.fault.isSome := by
      have hf := h.fault
      generalize o.fault = a at hf
      generalize p.fault = b at hf
      cases hf <;> rfl
    simp only [Outcome.steps, hs]
    split_ifs
    · exact h
    · exact ih (andThen_step_alike h)

/-- the next `k` steps, each from where the one before left the machine, a fault or not: the word that each fetches and
what it leaves -/
def trace : ℕ → Machine σ → List (ℕ × Outcome σ)
  | 0, _ => []
  | k + 1, m => (m.fetch, m.step) :: trace k m.step.machine

theorem Related.step (h : Related m n) : Matches m.step n.step :=
  (step_alike h.toCongruent).matches (kept_addressed.step m h.left) (kept_addressed.step n h.right)

theorem Related.trace (h : Related m n) (k : ℕ) :
    List.Forall₂ (fun a b => a.1 = b.1 ∧ Matches a.2 b.2) (trace k m) (trace k n) := by
  induction k generalizing m n with
  | zero => exact .nil
  | succ k ih => exact .cons ⟨h.fetch, h.step⟩ (ih h.step.related)

/-- **Only twelve bits of an address matter.** Related machines execute the same opcodes, draw the same pictures, fault
in the same way at the same steps, at congruent addresses, and stay related, step for step and however many there are;
and so do runs that end with the first fault. -/
theorem related_runs (h : Related m n) (k : ℕ) :
    List.Forall₂ (fun a b => a.1 = b.1 ∧ Matches a.2 b.2) (trace k m) (trace k n) ∧ Matches (m.run k) (n.run k) :=
  ⟨h.trace k, (steps_alike h.toCongruent.alike k).matches (kept_addressed.run k h.left) (kept_addressed.run k h.right)⟩

/-- a program that jumps to its start, run from there and from a start with other high bits -/
theorem related_runs_of_high_bits :
    let m := boot ⟨#[0x12, 0x00], by decide⟩ (Cycle.mk #[] 0)
    let n := { m with pc := 0xF200, index := 0x3000 }
    Related m n ∧
      List.Forall₂ (fun a b => a.1 = b.1 ∧ Matches a.2 b.2) (trace 100 m) (trace 100 n) ∧
      Matches (m.run 100) (n.run 100) :=
  have ha := boot_addressed ⟨#[0x12, 0x00], by decide⟩ (Cycle.mk #[] 0)
  have h : Related (boot ⟨#[0x12, 0x00], by decide⟩ (Cycle.mk #[] 0))
      { boot ⟨#[0x12, 0x00], by decide⟩ (Cycle.mk #[] 0) with pc := 0xF200, index := 0x3000 } :=
    ⟨⟨by decide, by decide, .nil, rfl, rfl, rfl, rfl, rfl, rfl, rfl, rfl, rfl⟩, ha, ⟨by decide, by decide, ha.stack⟩⟩
  ⟨h, related_runs h 100⟩

end Machine

end ChipEight
