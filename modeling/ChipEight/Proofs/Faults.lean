/-
The faults of executing an opcode. In a machine whose stack pointer counts its stack, a call faults with a full stack
and a return with an empty one, and nothing else can go wrong (`execute_fault_iff`): the look-ups of a family of
instructions, of a key, of the newest address and of room on the screen all find something. The address that a fault
reports is that of the instruction, and what it leaves differs from the machine before in `pc` and the last opcode only
(`reachable_faults`).
-/
import ChipEight.Proofs.Bounds

namespace ChipEight.Machine

variable {σ : Type} {m : Machine σ} [RandomSource σ]

/-- stepping on and back is no step, around the end of the addresses too -/
theorem back_next {pc : ℕ} (h : pc < 0x10000) : back (next pc) = pc := by
  simp only [back, next]
  omega

theorem execute_fault_iff (hm : m.sp = m.stack.length) (w : ℕ) (f : Fault) :
    (m.execute w).fault = some f ↔
      (w = 0x00EE ∧ m.stack = [] ∧ f = .underflow (back m.pc)) ∨
      (Opcode.family w = 2 ∧ m.stack.length = stackRoom ∧ f = .overflow (back m.pc)) := by
  have hret := Instruction.decode_eq_ret_iff w
  have hcall := Instruction.decode_eq_call_iff w (Opcode.nnn w)
  rcases execute_cases m w with ⟨hd, he⟩ | ⟨i, hd, he⟩
  · rw [hd] at hret hcall
    have hw : w ≠ 0x00EE := fun h => by simp [h] at hret
    have hf : Opcode.family w ≠ 2 := fun h => by simp [h] at hcall
    simp [he, hw, hf]
  · have hi : i = .ret ↔ w = 0x00EE := by rw [← hret, hd]; simp
    have hj : (∃ nnn, i = .call nnn) ↔ Opcode.family w = 2 := by
      constructor
      · rintro ⟨a, rfl⟩
        exact ((Instruction.decode_eq_call_iff w a).1 hd).1
      · intro hf
        have hc := hcall.2 ⟨hf, rfl⟩
        rw [hd] at hc
        exact ⟨_, by simpa using hc⟩
    have hp := perform_fault_iff (m := { m with opcode := w }) hm i f
    rw [he, hp, hi, hj]

theorem execute_machine_of_fault {w : ℕ} {f : Fault} (h : (m.execute w).fault = some f) :
    (m.execute w).machine = { m with opcode := w } := by
  rcases execute_cases m w with ⟨-, he⟩ | ⟨i, -, he⟩ <;> rw [he] at h ⊢
  exact perform_machine_of_fault h

/-- what an opcode `w` may leave where the stack is `stack`: a full stack and `2nnn` make an overflow, an empty stack
and `00EE` an underflow, nothing makes another fault, and a fault reports `address` and leaves `left` -/
structure FaultLaw (stack : List ℕ) (w : ℕ) (o : Outcome σ) (address : ℕ) (left : Machine σ) : Prop where
  overflow : (∃ a, o.fault = some (.overflow a)) ↔ (0x2000 ≤ w ∧ w ≤ 0x2FFF) ∧ stack.length = 16
  underflow : (∃ a, o.fault = some (.underflow a)) ↔ w = 0x00EE ∧ stack = []
  only : ∀ f, o.fault = some f → f = .overflow address ∨ f = .underflow address
  left : o.fault ≠ none → o.machine = left

theorem execute_faultLaw (hm : m.Counted) {w : ℕ} (hw : w < 0x10000) :
    FaultLaw m.stack w (m.execute w) (back m.pc) { m with opcode := w } := by
  have hf := execute_fault_iff hm.depth w
  have h2 : Opcode.family w = 2 ↔ 0x2000 ≤ w ∧ w ≤ 0x2FFF := by
    simp only [Opcode.family]
    omega
  constructor
  · simp [hf, h2, stackRoom]
  · simp [hf]
  · intro f h
    rcases (hf f).1 h with ⟨-, -, rfl⟩ | ⟨-, -, rfl⟩
    · exact Or.inr rfl
    · exact Or.inl rfl
  · intro h
    obtain ⟨f, h⟩ := Option.ne_none_iff_exists'.1 h
    exact execute_machine_of_fault h

/-- **The only faults are those of the stack.** In every reachable machine they arise exactly from `2nnn` with sixteen
addresses on the stack and from `00EE` with none. A step reports the address it fetched from and leaves `pc` behind it;
an opcode that is not fetched leaves `pc` alone and reports two before it. -/
theorem reachable_faults (h : m.Reachable) :
    FaultLaw m.stack m.fetch m.step m.pc { m with pc := (m.pc + 2) % 0x10000, opcode := m.fetch } ∧
      ∀ w : UInt16, FaultLaw m.stack w.toNat (m.execute w.toNat) ((m.pc - 2 : ℤ) % 0x10000).toNat
        { m with opcode := w.toNat } := by
  have hc := h.counted
  constructor
  · have hn : ({ m with pc := next m.pc } : Machine σ).Counted := ⟨hc.depth, hc.room⟩
    have hs := execute_faultLaw hn m.fetch_lt
    rwa [show back (next m.pc) = m.pc from back_next h.addressed.pc] at hs
  · intro w
    exact execute_faultLaw hc w.toNat_lt

/-- a program that calls itself, after the sixteen calls that the stack has room for -/
theorem reachable_faults_of_full_stack :
    let m := (boot ⟨#[0x22, 0x00], by decide⟩ (Cycle.mk #[] 0)).after (List.replicate 16 .step)
    m.Reachable ∧
      FaultLaw m.stack m.fetch m.step m.pc { m with pc := (m.pc + 2) % 0x10000, opcode := m.fetch } ∧
      ∀ w : UInt16, FaultLaw m.stack w.toNat (m.execute w.toNat) ((m.pc - 2 : ℤ) % 0x10000).toNat
        { m with opcode := w.toNat } :=
  have h : ((boot ⟨#[0x22, 0x00], by decide⟩ (Cycle.mk #[] 0)).after (List.replicate 16 .step)).Reachable :=
    ⟨_, _, _, rfl⟩
  ⟨h, reachable_faults h⟩

end ChipEight.Machine
