/-
What one instruction does. The look-ups of a key and of room on the screen never fail, so a skip and a draw have
readings without failures (`perform_skip`, `perform_draw`). Only a call and a return touch the stack and its pointer
(`perform_stack`), and only they can end in a fault; one that does leaves the machine as it was
(`perform_machine_of_fault`).
-/
import ChipEight.Machine.Step
import ChipEight.Proofs.Decode

namespace ChipEight

/-! ## Look-ups -/

theorem Keypad.isDown_mod (p : Keypad) (n : ℕ) : p.isDown ((n : ℤ) % 16) = .ok (p.holds (Nibble.low n)) := by
  have h : 0 ≤ (n : ℤ) % 16 ∧ (n : ℤ) % 16 < 16 := by omega
  have hk : (⟨((n : ℤ) % 16).toNat, by omega⟩ : Key) = Nibble.low n := by
    apply Fin.ext
    simp only [Nibble.low, Fin.ofNat]
    omega
  simp only [Keypad.isDown, Key.ofInt, dif_pos h, hk, Except.map]

theorem Screen.draw?_eq {h w : ℕ} (hh : 0 < h) (hw : 0 < w) (s : Screen h w) (x y : ℤ) (sprite : List UInt8) :
    s.draw? x y sprite = .ok (s.draw x y sprite) := by
  have ht : Screen.takes h w sprite = true := by
    simp [Screen.takes, Nat.pos_iff_ne_zero.1 hh, Nat.pos_iff_ne_zero.1 hw]
  simp [Screen.draw?, ht]

namespace Machine

variable {σ : Type} (m : Machine σ)

/-- does the test hold, a register naming a key by its last digit -/
def passes : Test → Bool
  | .byteIs x kk => m.reg x == kk
  | .byteIsNot x kk => m.reg x != kk
  | .same x y => m.reg x == m.reg y
  | .differ x y => m.reg x != m.reg y
  | .keyDown x => m.keypad.holds (Nibble.low (m.reg x).toNat)
  | .keyUp x => !m.keypad.holds (Nibble.low (m.reg x).toNat)

theorem holds_eq (t : Test) : m.holds t = .ok (m.passes t) := by
  cases t with
  | keyDown x => exact m.keypad.isDown_mod _
  | keyUp x => simp only [holds, keyNumber, m.keypad.isDown_mod]; rfl
  | _ => rfl

/-- the screen after a draw, and whether a pixel was turned off -/
def drawing (x y : Reg) (n : ℕ) : Display × Bool :=
  m.screen.draw (m.reg x).toNat (m.reg y).toNat (m.memory.block m.index n)

theorem drawSprite_eq (x y : Reg) (n : ℕ) :
    m.drawSprite x y n =
      .ok ({ m with screen := (m.drawing x y n).1 }.setFlag (if (m.drawing x y n).2 then 1 else 0)) := by
  rw [drawSprite, Screen.draw?_eq (by decide) (by decide)]
  rfl

theorem reg_setReg_self (x : Reg) (b : UInt8) : (m.setReg x b).reg x = b := by
  simp [reg, setReg]

theorem reg_setReg_of_ne {k x : Reg} (hk : k ≠ x) (b : UInt8) : (m.setReg x b).reg k = m.reg k :=
  Vector.getElem_set_ne x.isLt k.isLt fun he => hk (Fin.ext he.symm)

/-- an operation on registers changes nothing else -/
theorem calculate_eq (op : Alu) (x y : Reg) : m.calculate op x y = { m with v := (m.calculate op x y).v } := by
  unfold calculate
  split <;> rfl

theorem fetch_lt : m.fetch < 0x10000 := by
  have h1 := (m.memory.read m.pc).toNat_lt
  have h2 := (m.memory.read (m.pc + 1)).toNat_lt
  simp only [fetch]
  omega

theorem fetch_of_image {m : Machine σ} (rom : Rom) (h : m.memory = rom.image) :
    m.fetch = (rom.byteAt (m.pc % 4096)).toNat * 256 + (rom.byteAt ((m.pc + 1) % 4096)).toNat := by
  simp only [fetch, h, Rom.read_image]

/-! ## Single instructions -/

variable [RandomSource σ]

theorem perform_skip (t : Test) :
    m.perform (.skip t) = { machine := if m.passes t then { m with pc := next m.pc } else m } := by
  simp only [perform, holds_eq, Except.map, attempt]

theorem perform_draw (x y : Reg) (n : ℕ) :
    m.perform (.draw x y n) =
      { machine := { m with screen := (m.drawing x y n).1 }.setFlag (if (m.drawing x y n).2 then 1 else 0) } := by
  simp only [perform, drawSprite_eq, attempt]

variable {m}

theorem perform_ret {a : ℕ} {rest : List ℕ} (hsp : m.sp ≠ 0) (hs : m.stack = a :: rest) :
    m.perform .ret = { machine := { m with pc := a, stack := rest, sp := m.sp - 1 } } := by
  simp only [perform, if_neg hsp, hs]

theorem perform_ret_of_empty (hsp : m.sp = 0) :
    m.perform .ret = { machine := m, fault := some (.underflow (back m.pc)) } := by
  simp only [perform, if_pos hsp]

theorem perform_ret_of_bare (hsp : m.sp ≠ 0) (hs : m.stack = []) :
    m.perform .ret = { machine := m, fault := some (.breakdown .bareStack) } := by
  simp only [perform, if_neg hsp, hs]

theorem perform_call (hsp : m.sp ≠ stackRoom) (nnn : Target) :
    m.perform (.call nnn) = { machine := { m with pc := nnn, stack := m.pc :: m.stack, sp := m.sp + 1 } } := by
  simp only [perform, if_neg hsp]

theorem perform_call_of_full (hsp : m.sp = stackRoom) (nnn : Target) :
    m.perform (.call nnn) = { machine := m, fault := some (.overflow (back m.pc)) } := by
  simp only [perform, if_pos hsp]

theorem perform_waitKey_none (h : m.keypad.lowest? = none) (x : Reg) :
    m.perform (.waitKey x) = { machine := { m with pc := back m.pc } } := by
  simp only [perform, h]

theorem perform_waitKey_some {k : Key} (h : m.keypad.lowest? = some k) (x : Reg) :
    m.perform (.waitKey x) =
      { machine := m.setReg x (UInt8.ofNat k), notices := #[.keyTaken k (back m.pc)] } := by
  simp only [perform, h]

/-! ## All instructions -/

variable (m)

/-- **What becomes of the stack.** A call pushes the address behind it, a return takes the newest address off, and
nothing else touches the stack or its pointer. -/
theorem perform_stack (i : Instruction) :
    (∃ nnn : Target, i = .call nnn ∧ m.sp ≠ stackRoom ∧
      (m.perform i).machine = { m with pc := nnn, stack := m.pc :: m.stack, sp := m.sp + 1 }) ∨
    (∃ a rest, i = .ret ∧ m.sp ≠ 0 ∧ m.stack = a :: rest ∧
      (m.perform i).machine = { m with pc := a, stack := rest, sp := m.sp - 1 }) ∨
    ((m.perform i).machine.stack = m.stack ∧ (m.perform i).machine.sp = m.sp) := by
  cases i with
  | call nnn =>
    by_cases hsp : m.sp = stackRoom
    · exact Or.inr (Or.inr (by simp [perform, hsp]))
    · exact Or.inl ⟨nnn, rfl, hsp, by rw [perform_call hsp]⟩
  | ret =>
    by_cases hsp : m.sp = 0
    · exact Or.inr (Or.inr (by simp [perform, hsp]))
    · cases hs : m.stack with
      | nil => exact Or.inr (Or.inr (by simp [perform, hsp, hs]))
      | cons a rest => exact Or.inr (Or.inl ⟨a, rest, rfl, hsp, rfl, by rw [perform_ret hsp hs]⟩)
  | skip t => rw [perform_skip]; right; right; split_ifs <;> exact ⟨rfl, rfl⟩
  | draw x y n => rw [perform_draw]; simp
  | alu op x y => right; right; simp only [perform]; rw [calculate_eq]; exact ⟨rfl, rfl⟩
  | waitKey x =>
    right; right
    cases h : m.keypad.lowest? with
    | none => simp [perform_waitKey_none h]
    | some k => simp [perform_waitKey_some h]
  | _ => simp [perform]

/-- what no instruction writes: the program, the record of the last opcode, and the keys -/
theorem perform_frame (i : Instruction) :
    (m.perform i).machine.rom = m.rom ∧ (m.perform i).machine.opcode = m.opcode ∧
      (m.perform i).machine.keypad = m.keypad := by
  cases i with
  | call nnn => simp only [perform]; split_ifs <;> exact ⟨rfl, rfl, rfl⟩
  | ret => simp only [perform]; split_ifs <;> [exact ⟨rfl, rfl, rfl⟩; (split <;> exact ⟨rfl, rfl, rfl⟩)]
  | skip t => rw [perform_skip]; split_ifs <;> exact ⟨rfl, rfl, rfl⟩
  | draw x y n => rw [perform_draw]; simp
  | alu op x y => simp only [perform]; rw [calculate_eq]; exact ⟨rfl, rfl, rfl⟩
  | waitKey x =>
    cases h : m.keypad.lowest? with
    | none => simp [perform_waitKey_none h]
    | some k => simp [perform_waitKey_some h]
  | _ => simp [perform]

/-- an instruction leaves the record of the last opcode alone -/
theorem perform_opcode (i : Instruction) : (m.perform i).machine.opcode = m.opcode := (perform_frame m i).2.1

variable {m}

/-- an instruction that faults changes nothing -/
theorem perform_machine_of_fault {i : Instruction} {f : Fault} (h : (m.perform i).fault = some f) :
    (m.perform i).machine = m := by
  cases i with
  | call nnn => simp only [perform] at h ⊢; split_ifs at h ⊢; rfl
  | ret =>
    simp only [perform] at h ⊢
    split_ifs at h ⊢
    · rfl
    · split at h
      · rfl
      · simp at h
  | skip t => rw [perform_skip] at h; simp at h
  | draw x y n => rw [perform_draw] at h; simp at h
  | waitKey x => simp only [perform] at h; split at h <;> simp at h
  | _ => simp [perform] at h

/-- **The faults of an instruction.** Where the stack pointer counts what is on the stack, a return faults on an empty
stack, a call on a full one, and nothing else faults. -/
theorem perform_fault_iff (hm : m.sp = m.stack.length) (i : Instruction) (f : Fault) :
    (m.perform i).fault = some f ↔
      (i = .ret ∧ m.stack = [] ∧ f = .underflow (back m.pc)) ∨
      ((∃ nnn, i = .call nnn) ∧ m.stack.length = stackRoom ∧ f = .overflow (back m.pc)) := by
  cases i with
  | call nnn =>
    by_cases hsp : m.sp = stackRoom
    · simp [perform, hsp, ← hm, eq_comm]
    · simp [perform_call hsp, ← hm, hsp]
  | ret =>
    cases hs : m.stack with
    | nil => simp [perform, hm, hs, eq_comm]
    | cons a rest => simp [perform_ret (by simp [hm, hs]) hs]
  | skip t => simp [perform_skip]
  | draw x y n => simp [perform_draw]
  | waitKey x => simp only [perform]; split <;> simp
  | _ => simp [perform]

/-! ## Opcodes -/

variable (m)

theorem execute_of_decode {w : ℕ} {i : Instruction} (h : Instruction.decode w = .ok (some i)) :
    m.execute w = { m with opcode := w }.perform i := by
  simp only [execute, h]

theorem execute_of_encodes {w : ℕ} {i : Instruction} (h : i.Encodes w) :
    m.execute w = { m with opcode := w }.perform i :=
  execute_of_decode m (Instruction.decode_of_encodes h)

theorem execute_of_unknown {w : ℕ} (h : Instruction.decode w = .ok none) :
    m.execute w = { machine := { m with opcode := w }, notices := #[.unknownOpcode w] } := by
  simp only [execute, h]

/-- an opcode that is executed is passed over, or it is an instruction and carried out -/
theorem execute_cases (w : ℕ) :
    (Instruction.decode w = .ok none ∧
      m.execute w = { machine := { m with opcode := w }, notices := #[.unknownOpcode w] }) ∨
    ∃ i, Instruction.decode w = .ok (some i) ∧ m.execute w = { m with opcode := w }.perform i := by
  obtain ⟨i, hd⟩ := Instruction.decode_isOk w
  cases i with
  | none => exact Or.inl ⟨hd, execute_of_unknown m hd⟩
  | some i => exact Or.inr ⟨i, hd, execute_of_decode m hd⟩

/-- an opcode that is executed becomes the last one -/
theorem execute_opcode (w : ℕ) : (m.execute w).machine.opcode = w := by
  rcases execute_cases m w with ⟨-, he⟩ | ⟨i, -, he⟩ <;> rw [he]
  rw [perform_opcode]

theorem step_opcode (m : Machine σ) : m.step.machine.opcode = m.fetch := execute_opcode _ _

end Machine

end ChipEight
