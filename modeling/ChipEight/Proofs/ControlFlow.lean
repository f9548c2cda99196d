/-
Where control goes. A step executes the word that two bytes of memory at `pc` make, the first of them the high one, and
goes on behind it, unless the word turns elsewhere (`Turns`): to an address of its own, to the newest one on the stack,
to the same word again while it waits for a key, or past the next word (`Skips`). Each word that skips has an opposite
one (`Opposed`), and in every machine exactly one of the two skips (`control_flow`).
-/
import ChipEight.Proofs.KeyWaits
import ChipEight.Proofs.Restart

namespace ChipEight

/-! ## Tests -/

/-- the test that holds where this one does not -/
def Test.opposite : Test → Test
  | byteIs x kk => byteIsNot x kk
  | byteIsNot x kk => byteIs x kk
  | same x y => differ x y
  | differ x y => same x y
  | keyDown x => keyUp x
  | keyUp x => keyDown x

namespace Opcode

/-- two words that skip by opposite tests of the same operands -/
inductive Opposed : ℕ → ℕ → Prop
  | byte (x : Reg) {b : ℕ} (hb : b < 256) : Opposed (0x3000 + 0x100 * (x : ℕ) + b) (0x4000 + 0x100 * (x : ℕ) + b)
  | regs (x y : Reg) :
    Opposed (0x5000 + 0x100 * (x : ℕ) + 0x10 * (y : ℕ)) (0x9000 + 0x100 * (x : ℕ) + 0x10 * (y : ℕ))
  | key (x : Reg) : Opposed (0xE000 + 0x100 * (x : ℕ) + 0x9E) (0xE000 + 0x100 * (x : ℕ) + 0xA1)

theorem kk_of_mod {w b : ℕ} (hw : w % 256 = b) : kk w = UInt8.ofNat b := by
  apply UInt8.toNat_inj.1
  rw [toNat_kk, ← hw, UInt8.toNat_ofNat']
  omega

theorem Opposed.tests {w w' : ℕ} (h : Opposed w w') :
    ∃ t, (Instruction.skip t).Encodes w ∧ (Instruction.skip t.opposite).Encodes w' := by
  cases h with
  | byte x hb =>
    obtain ⟨hf, hx, hb'⟩ := of_byte (f := 3) (r := x) (by decide) hb rfl
    obtain ⟨gf, gx, gb'⟩ := of_byte (f := 4) (r := x) (by decide) hb rfl
    exact ⟨.byteIs x (UInt8.ofNat _), ⟨hf, hx.symm, (kk_of_mod hb').symm⟩, ⟨gf, gx.symm, (kk_of_mod gb').symm⟩⟩
  | regs x y =>
    obtain ⟨hf, hx, hy, hn⟩ := of_digits (f := 5) (k := 0) (r := x) (s := y) (by decide) (by decide) rfl
    obtain ⟨gf, gx, gy, gn⟩ := of_digits (f := 9) (k := 0) (r := x) (s := y) (by decide) (by decide) rfl
    exact ⟨.same x y, ⟨hf, hn, hx.symm, hy.symm⟩, ⟨gf, gn, gx.symm, gy.symm⟩⟩
  | key x =>
    obtain ⟨hf, hx, hb⟩ := of_byte (f := 0xE) (b := 0x9E) (r := x) (by decide) (by decide) rfl
    obtain ⟨gf, gx, gb⟩ := of_byte (f := 0xE) (b := 0xA1) (r := x) (by decide) (by decide) rfl
    exact ⟨.keyDown x, ⟨hf, hb, hx.symm⟩, ⟨gf, gb, gx.symm⟩⟩

end Opcode

namespace Machine

open Opcode

variable {σ : Type} {m : Machine σ} {w : ℕ}

theorem passes_opposite (m : Machine σ) (t : Test) : m.passes t.opposite = !m.passes t := by
  cases t <;> simp [Test.opposite, passes, bne]

/-- does the word skip the next one -/
def Skips (m : Machine σ) (w : ℕ) : Prop :=
  family w = 3 ∧ (m.reg (x w)).toNat = w % 256 ∨
  family w = 4 ∧ (m.reg (x w)).toNat ≠ w % 256 ∨
  family w = 5 ∧ n w = 0 ∧ m.reg (x w) = m.reg (y w) ∨
  family w = 9 ∧ n w = 0 ∧ m.reg (x w) ≠ m.reg (y w) ∨
  family w = 0xE ∧ w % 256 = 0x9E ∧ m.keypad.down[(m.reg (x w)).toNat % 16] = true ∨
  family w = 0xE ∧ w % 256 = 0xA1 ∧ m.keypad.down[(m.reg (x w)).toNat % 16] = false

/-- does the word wait for a key in vain -/
def Awaits (m : Machine σ) (w : ℕ) : Prop := family w = 0xF ∧ w % 256 = 0x0A ∧ ∀ k, m.keypad.holds k = false

/-- does the word go on anywhere else than behind itself -/
def Turns (m : Machine σ) (w : ℕ) : Prop :=
  family w = 1 ∨ family w = 2 ∨ family w = 0xB ∨ w = 0x00EE ∨ m.Awaits w ∨ m.Skips w

/-- a word skips exactly if it encodes a skip whose test holds -/
theorem skips_iff : m.Skips w ↔ ∃ t, (Instruction.skip t).Encodes w ∧ m.passes t = true := by
  have hbyte (b : UInt8) : b.toNat = w % 256 ↔ b = kk w := by
    rw [← UInt8.toNat_inj, toNat_kk]
  constructor
  · rintro (⟨hf, h⟩ | ⟨hf, h⟩ | ⟨hf, hn, h⟩ | ⟨hf, hn, h⟩ | ⟨hf, hb, h⟩ | ⟨hf, hb, h⟩)
    · exact ⟨.byteIs _ _, ⟨hf, rfl, rfl⟩, beq_iff_eq.2 ((hbyte _).1 h)⟩
    · exact ⟨.byteIsNot _ _, ⟨hf, rfl, rfl⟩, bne_iff_ne.2 fun he => h ((hbyte _).2 he)⟩
    · exact ⟨.same _ _, ⟨hf, hn, rfl, rfl⟩, beq_iff_eq.2 h⟩
    · exact ⟨.differ _ _, ⟨hf, hn, rfl, rfl⟩, bne_iff_ne.2 h⟩
    · exact ⟨.keyDown _, ⟨hf, hb, rfl⟩, h⟩
    · exact ⟨.keyUp _, ⟨hf, hb, rfl⟩, congrArg not h⟩
  · rintro ⟨t, hw, ht⟩
    unfold Skips
    cases t with
    | byteIs r b =>
      obtain ⟨hf, rfl, rfl⟩ := hw
      simp [hf, (hbyte _).2 (beq_iff_eq.1 ht)]
    | byteIsNot r b =>
      obtain ⟨hf, rfl, rfl⟩ := hw
      have hne : (m.reg (x w)).toNat ≠ w % 256 := fun he => bne_iff_ne.1 ht ((hbyte _).1 he)
      simp [hf, hne]
    | same r s =>
      obtain ⟨hf, hn, rfl, rfl⟩ := hw
      simp [hf, hn, beq_iff_eq.1 ht]
    | differ r s =>
      obtain ⟨hf, hn, rfl, rfl⟩ := hw
      simp [hf, hn, bne_iff_ne.1 ht]
    | keyDown r =>
      obtain ⟨hf, hb, rfl⟩ := hw
      have hk : m.keypad.down[(m.reg (x w)).toNat % 16] = true := ht
      simp [hf, hb, hk]
    | keyUp r =>
      obtain ⟨hf, hb, rfl⟩ := hw
      have hk : m.keypad.down[(m.reg (x w)).toNat % 16] = false := (Bool.not_eq_true' _).mp ht
      simp [hf, hb, hk]

/-- a comparison of two registers with another last digit than zero is no instruction, let alone a skip -/
theorem not_turns_of_miss (m : Machine σ) {w : ℕ} (hf : family w = 5 ∨ family w = 9) (hn : n w ≠ 0) : ¬m.Turns w := by
  have hw : w ≠ 0x00EE := by
    rintro rfl
    revert hf
    decide
  rcases hf with hf | hf <;> simp [Turns, Awaits, Skips, hf, hn, hw]

variable [RandomSource σ]

/-! ## Words that go on behind themselves -/

theorem perform_pc_of_not_turns {i : Instruction} (hw : i.Encodes w) (h : ¬m.Turns w) :
    (m.perform i).machine.pc = m.pc := by
  unfold Turns at h
  cases i with
  | jump nnn => exact absurd (Or.inl hw.1) h
  | call nnn => exact absurd (Or.inr (Or.inl hw.1)) h
  | jumpOffset nnn => exact absurd (Or.inr (Or.inr (Or.inl hw.1))) h
  | ret => exact absurd (Or.inr (Or.inr (Or.inr (Or.inl hw)))) h
  | skip t =>
    have ht : ¬m.passes t = true := fun ht => h (by simp [skips_iff.2 ⟨t, hw, ht⟩])
    rw [perform_skip, if_neg ht]
  | waitKey r =>
    cases hk : m.keypad.lowest? with
    | none => exact absurd (by simp [Awaits, hw.1, hw.2.1, Keypad.lowest?_eq_none_iff.1 hk]) h
    | some k => rw [perform_waitKey_some hk]; rfl
  | draw r s n => rw [perform_draw]; rfl
  | alu op r s => simp only [perform]; rw [calculate_eq]
  | _ => rfl

theorem execute_pc_of_not_turns (h : ¬m.Turns w) : (m.execute w).machine.pc = m.pc := by
  rcases execute_cases m w with ⟨-, he⟩ | ⟨i, hd, he⟩ <;> rw [he]
  exact perform_pc_of_not_turns (m := { m with opcode := w }) ((Instruction.decode_eq_some_iff w i).1 hd) h

/-! ## Words that turn -/

theorem execute_pc_of_target (hok : (m.execute w).fault = none) (hf : family w = 1 ∨ family w = 2) :
    (m.execute w).machine.pc = w % 4096 := by
  rcases hf with hf | hf
  · rw [execute_of_encodes m (i := .jump (nnn w)) ⟨hf, rfl⟩]
    rfl
  · rw [execute_of_encodes m (i := .call (nnn w)) ⟨hf, rfl⟩] at hok ⊢
    by_cases hsp : m.sp = stackRoom
    · rw [perform_call_of_full (m := { m with opcode := w }) hsp] at hok
      cases hok
    · rw [perform_call (m := { m with opcode := w }) hsp]
      rfl

theorem execute_pc_of_offset (hf : family w = 0xB) : (m.execute w).machine.pc = w % 4096 + (m.reg 0).toNat := by
  rw [execute_of_encodes m (i := .jumpOffset (nnn w)) ⟨hf, rfl⟩]
  exact Nat.add_comm _ _

theorem head?_stack_of_ret (hok : (m.execute w).fault = none) (hw : w = 0x00EE) :
    m.stack.head? = some (m.execute w).machine.pc := by
  subst hw
  by_cases hsp : m.sp = 0
  · rw [execute_of_encodes m (i := .ret) rfl, perform_ret_of_empty (m := { m with opcode := 0x00EE }) hsp] at hok
    cases hok
  · by_cases hs : m.stack = []
    · rw [execute_of_encodes m (i := .ret) rfl, perform_ret_of_bare (m := { m with opcode := 0x00EE }) hsp hs] at hok
      cases hok
    · obtain ⟨a, rest, hs⟩ := List.exists_cons_of_ne_nil hs
      rw [execute_of_ret hsp hs, hs]
      rfl

theorem execute_pc_of_awaits (h : m.Awaits w) : (m.execute w).machine.pc = back m.pc := by
  obtain ⟨hf, hb, hk⟩ := h
  rw [execute_of_encodes m (i := .waitKey (x w)) ⟨hf, hb, rfl⟩,
    perform_waitKey_none (m := { m with opcode := w }) (Keypad.lowest?_eq_none_iff.2 hk)]

theorem execute_pc_of_test {t : Test} (hw : (Instruction.skip t).Encodes w) :
    (m.execute w).machine.pc = if m.passes t then next m.pc else m.pc := by
  have ht : ({ m with opcode := w } : Machine σ).passes t = m.passes t := by cases t <;> rfl
  rw [execute_of_encodes m hw, perform_skip, ht]
  split <;> rfl

/-- in any machine one of two opposite words skips, and the other one goes on behind itself -/
theorem execute_pc_of_opposed (m : Machine σ) {w w' : ℕ} (h : Opposed w w') :
    (m.execute w).machine.pc = next m.pc ∧ (m.execute w').machine.pc = m.pc ∨
      (m.execute w).machine.pc = m.pc ∧ (m.execute w').machine.pc = next m.pc := by
  obtain ⟨t, hw, hw'⟩ := h.tests
  rw [execute_pc_of_test hw, execute_pc_of_test hw', passes_opposite]
  cases m.passes t <;> simp

theorem execute_fault_eq_none_iff (hm : m.sp = m.stack.length) (w : ℕ) :
    (m.execute w).fault = none ↔ ¬(w = 0x00EE ∧ m.stack = [] ∨ family w = 2 ∧ m.stack.length = stackRoom) := by
  rw [Option.eq_none_iff_forall_ne_some]
  simp only [Ne, execute_fault_iff hm]
  constructor
  · rintro hnone (⟨hw, hs⟩ | ⟨hf, hs⟩)
    · exact hnone _ (.inl ⟨hw, hs, rfl⟩)
    · exact hnone _ (.inr ⟨hf, hs, rfl⟩)
  · rintro hneither f (⟨hw, hs, -⟩ | ⟨hf, hs, -⟩)
    · exact hneither (.inl ⟨hw, hs⟩)
    · exact hneither (.inr ⟨hf, hs⟩)

/-! ## Main result -/

/-- the address `pc` at which a machine goes on behind a word -/
structure Flow (m : Machine σ) (w pc : ℕ) : Prop where
  target : family w = 1 ∨ family w = 2 → pc = w % 4096
  offset : family w = 0xB → pc = w % 4096 + (m.reg 0).toNat
  back : w = 0x00EE → m.stack.head? = some pc
  waits : m.Awaits w → pc = m.pc
  skips : m.Skips w → pc = (m.pc + 4) % 0x10000
  next : ¬m.Turns w → pc = (m.pc + 2) % 0x10000

theorem step_flow (hpc : m.pc < 0x10000) (hok : m.step.fault = none) : m.Flow m.fetch m.step.machine.pc where
  target := execute_pc_of_target hok
  offset := execute_pc_of_offset
  back := head?_stack_of_ret hok
  waits h := (execute_pc_of_awaits (m := { m with pc := Machine.next m.pc }) h).trans (back_next hpc)
  skips h := by
    obtain ⟨t, hw, ht⟩ := skips_iff.1 h
    have hs := execute_pc_of_test (m := { m with pc := Machine.next m.pc }) hw
    rw [if_pos (by rw [← ht]; cases t <;> rfl)] at hs
    rw [show m.step.machine.pc = _ from hs]
    simp only [Machine.next]
    omega
  next h := execute_pc_of_not_turns (m := { m with pc := Machine.next m.pc }) h

/-- **Control goes where the word says.** In every reachable machine a step executes the word that the bytes of memory
at `pc` and behind it make, both addressed around the end, and unless a call finds the stack full or a return finds it
empty, it hands that word back and goes on as `Flow` has it. Of two opposite words exactly one skips, in any machine,
and no word `5xyn` or `9xyn` with another last digit than zero does. -/
theorem control_flow (h : m.Reachable) :
    let w := m.memory[m.pc % 4096].toNat * 256 + m.memory[(m.pc + 1) % 4096].toNat
    m.step = ({ m with pc := (m.pc + 2) % 0x10000 } : Machine σ).execute w ∧ m.step.machine.opcode = w ∧
      (m.step.fault = none ↔ ¬(w = 0x00EE ∧ m.stack = [] ∨ family w = 2 ∧ m.stack.length = 16)) ∧
      (m.step.fault = none → (m.shows .step).opcode? = some w ∧ m.Flow w m.step.machine.pc) ∧
      (∀ (k : Machine σ) (w w' : ℕ), Opposed w w' →
        (k.execute w).machine.pc = (k.pc + 2) % 0x10000 ∧ (k.execute w').machine.pc = k.pc ∨
          (k.execute w).machine.pc = k.pc ∧ (k.execute w').machine.pc = (k.pc + 2) % 0x10000) ∧
      ∀ (k : Machine σ) (w : ℕ), family w = 5 ∨ family w = 9 → n w ≠ 0 → (k.execute w).machine.pc = k.pc := by
  intro w
  refine ⟨rfl, m.step_opcode, ?_, ?_, execute_pc_of_opposed, ?_⟩
  · exact execute_fault_eq_none_iff (m := { m with pc := next m.pc }) h.counted.depth w
  · intro hok
    have hshown : (m.operate .step).failure = none := congrArg (Option.map Failure.fault) hok
    refine ⟨?_, step_flow h.addressed.pc hok⟩
    simp only [shows, hshown]
    rfl
  · exact fun k w hf hn => execute_pc_of_not_turns (k.not_turns_of_miss hf hn)

/-- the program with a skip across the end of memory: its high byte is the last one, its low one the font's first -/
def seam : Rom := ⟨Array.replicate 3583 0 ++ #[0x40], by simp [programRoom]⟩

/-- the skip in execution -/
def seamAt : Machine Cycle := { boot seam (Cycle.mk #[] 0) with pc := 0xFFF, opcode := 0x1FFF }

/-- a jump to the last byte of memory leads there, the skip finds the font's first byte behind it, and being taken it
goes on four addresses further, not back at the bottom of memory -/
theorem control_flow_of_seam :
    seamAt.Reachable ∧ seamAt.step.machine.opcode = 0x40F0 ∧ seamAt.step.fault = none ∧
      (seamAt.shows .step).opcode? = some 0x40F0 ∧ seamAt.step.machine.pc = 0x1003 := by
  have hreach : seamAt.Reachable := ⟨seam, Cycle.mk #[] 0, [.execute 0x1FFF], rfl⟩
  have hhigh : seamAt.memory[seamAt.pc % 4096] = 0x40 := by
    simp [seamAt, boot, Rom.image, Rom.byteAt, seam, programStart, Array.getElem_push]
  have hlow : seamAt.memory[(seamAt.pc + 1) % 4096] = 0xF0 := by
    simp [seamAt, boot, Rom.image, Rom.byteAt, programStart, font]
  have hflows := control_flow hreach
  simp only [hhigh, hlow] at hflows
  obtain ⟨-, hopcode, hfault, hflow, -, -⟩ := hflows
  have hok : seamAt.step.fault = none := hfault.2 (by decide)
  obtain ⟨hshown, hpc⟩ := hflow hok
  exact ⟨hreach, hopcode, hok, hshown, hpc.skips (.inr (.inl ⟨rfl, by decide⟩))⟩

end Machine

end ChipEight
