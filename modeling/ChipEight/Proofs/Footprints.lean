/-
What opcodes write. A machine has parts (`Part`), and two machines may agree on one of them (`Part.Same`). An
instruction leaves every part alone that it does not write (`perform_same`), so an opcode leaves every part alone that
is not in its row of the table `Opcode.MayWrite`, however it is executed and whether it faults or not
(`write_footprint`). The program and the keys are in no row, and a word that is no instruction has none.
-/
import ChipEight.Proofs.Perform

namespace ChipEight

/-! ## Parts -/

/-- the parts of a machine that an opcode could write, besides `pc` and the record of the last opcode -/
inductive Part where
  | rom
  | keypad
  | random
  | screen
  | memory
  | stack
  | sp
  | delay
  | sound
  | index
  | reg (k : Reg)
  deriving DecidableEq, Repr

namespace Part

variable {σ : Type} {p : Part} {m n o : Machine σ}

/-- do two machines agree on the part -/
def Same (m n : Machine σ) : Part → Prop
  | rom => m.rom = n.rom
  | keypad => m.keypad = n.keypad
  | random => m.random = n.random
  | screen => m.screen = n.screen
  | memory => m.memory = n.memory
  | stack => m.stack = n.stack
  | sp => m.sp = n.sp
  | delay => m.delay = n.delay
  | sound => m.sound = n.sound
  | index => m.index = n.index
  | reg k => m.reg k = n.reg k

theorem Same.refl (m : Machine σ) : p.Same m m := by
  cases p <;> rfl

theorem Same.trans (h : p.Same m n) (h' : p.Same n o) : p.Same m o := by
  cases p <;> exact Eq.trans h h'

theorem same_setReg (m : Machine σ) {x : Reg} (b : UInt8) (h : p ≠ reg x) : p.Same (m.setReg x b) m := by
  cases p with
  | reg k => exact m.reg_setReg_of_ne (fun hk => h (congrArg reg hk)) b
  | _ => rfl

end Part

/-! ## Single instructions -/

namespace Alu

/-- does the operation set the flag -/
def setsFlag : Alu → Bool
  | copy | or | and | xor => false
  | add | sub | shr | subFrom | shl => true

theorem isSome_apply (op : Alu) (a b : UInt8) : (op.apply a b).2.isSome = op.setsFlag := by
  cases op <;> rfl

end Alu

/-- what an instruction writes; a wait for a key writes nothing while no key is down -/
def Instruction.Writes (keys : Keypad) : Instruction → Part → Prop
  | clear, p => p = .screen
  | ret, p => p = .stack ∨ p = .sp
  | jump _, _ => False
  | call _, p => p = .stack ∨ p = .sp
  | skip _, _ => False
  | load x _, p => p = .reg x
  | addByte x _, p => p = .reg x
  | alu op x _, p => p = .reg x ∨ op.setsFlag ∧ p = .reg Machine.flagReg
  | setIndex _, p => p = .index
  | jumpOffset _, _ => False
  | random x _, p => p = .random ∨ p = .reg x
  | draw _ _ _, p => p = .screen ∨ p = .reg Machine.flagReg
  | readDelay x, p => p = .reg x
  | waitKey x, p => (∃ k, keys.holds k = true) ∧ p = .reg x
  | setDelay _, p => p = .delay
  | setSound _, p => p = .sound
  | addIndex _, p => p = .index
  | digit _, p => p = .index
  | decimal _, p => p = .memory
  | save _, p => p = .memory ∨ p = .index
  | restore x, p => (∃ k ≤ x, p = .reg k) ∨ p = .index

namespace Machine

variable {σ : Type} (m : Machine σ) {p : Part}

theorem same_calculate {op : Alu} {x : Reg} (y : Reg) (h : ¬(Instruction.alu op x y).Writes m.keypad p) :
    p.Same (m.calculate op x y) m := by
  obtain ⟨hx, hflag⟩ := not_or.1 h
  have hsets := op.isSome_apply (m.reg x) (m.reg y)
  unfold calculate
  split
  case h_1 r heq => exact Part.same_setReg m r hx
  case h_2 r f heq =>
    rw [heq] at hsets
    have hf : p ≠ .reg flagReg := fun he => hflag ⟨hsets.symm, he⟩
    exact (Part.same_setReg _ f hf).trans (Part.same_setReg m r hx)

variable [RandomSource σ]

/-- **What an instruction does not write, it leaves alone.** -/
theorem perform_same (i : Instruction) (h : ¬i.Writes m.keypad p) : p.Same (m.perform i).machine m := by
  cases i with
  | ret =>
    obtain ⟨hstack, hpointer⟩ := not_or.1 h
    by_cases hsp : m.sp = 0
    · rw [perform_ret_of_empty hsp]
      exact .refl m
    · cases hs : m.stack with
      | nil =>
        rw [perform_ret_of_bare hsp hs]
        exact .refl m
      | cons a rest =>
        rw [perform_ret hsp hs]
        cases p <;> first | rfl | contradiction
  | call nnn =>
    obtain ⟨hstack, hpointer⟩ := not_or.1 h
    by_cases hsp : m.sp = stackRoom
    · rw [perform_call_of_full hsp]
      exact .refl m
    · rw [perform_call hsp]
      cases p <;> first | rfl | contradiction
  | skip t => rw [perform_skip]; split_ifs <;> cases p <;> rfl
  | load x kk | addByte x kk | readDelay x => exact Part.same_setReg m _ h
  | alu op x y => exact same_calculate m y h
  | random x kk =>
    obtain ⟨hrandom, hx⟩ := not_or.1 h
    refine (Part.same_setReg _ _ hx).trans ?_
    cases p <;> first | rfl | contradiction
  | draw x y n =>
    obtain ⟨hscreen, hflag⟩ := not_or.1 h
    rw [perform_draw]
    refine (Part.same_setReg _ _ hflag).trans ?_
    cases p <;> first | rfl | contradiction
  | waitKey x =>
    cases hk : m.keypad.lowest? with
    | none => rw [perform_waitKey_none hk]; cases p <;> rfl
    | some k =>
      rw [perform_waitKey_some hk]
      exact Part.same_setReg m _ fun hx => h ⟨⟨k, List.find?_some hk⟩, hx⟩
  | save x =>
    obtain ⟨hmemory, hindex⟩ := not_or.1 h
    cases p <;> first | rfl | contradiction
  | restore x =>
    obtain ⟨hregs, hindex⟩ := not_or.1 h
    cases p with
    | reg k =>
      have hk : ¬k ≤ x := fun hk => hregs ⟨k, hk, rfl⟩
      simp [Part.Same, perform, reg, hk]
    | index => contradiction
    | _ => simp only [Part.Same, perform]
  | _ => cases p <;> first | rfl | contradiction

end Machine

/-! ## Opcodes -/

namespace Opcode

/-- the registers that an opcode may write: the one in its second digit, the flag, or those up to the one in its second
digit -/
inductive MayWriteReg (keys : Keypad) (w : ℕ) : Reg → Prop
  | constant (hw : family w = 6) : MayWriteReg keys w (x w)
  | sum (hw : family w = 7) : MayWriteReg keys w (x w)
  | result (hw : family w = 8) (hn : n w ≤ 7 ∨ n w = 0xE) : MayWriteReg keys w (x w)
  | flag (hw : family w = 8) (hn : 4 ≤ n w ∧ n w ≤ 7 ∨ n w = 0xE) : MayWriteReg keys w 15
  | random (hw : family w = 0xC) : MayWriteReg keys w (x w)
  | collision (hw : family w = 0xD) : MayWriteReg keys w 15
  | delay (hw : family w = 0xF) (hb : w % 256 = 0x07) : MayWriteReg keys w (x w)
  /-- a wait for a key that is over, since a key is down -/
  | key (hw : family w = 0xF) (hb : w % 256 = 0x0A) (hdown : ∃ k, keys.holds k = true) : MayWriteReg keys w (x w)
  | block (hw : family w = 0xF) (hb : w % 256 = 0x65) {k : Reg} (hk : k ≤ x w) : MayWriteReg keys w k

/-- the parts that an opcode may write -/
def MayWrite (keys : Keypad) (w : ℕ) : Part → Prop
  | .rom | .keypad => False
  | .random => family w = 0xC
  | .screen => w = 0x00E0 ∨ family w = 0xD
  | .memory => family w = 0xF ∧ (w % 256 = 0x33 ∨ w % 256 = 0x55)
  | .stack | .sp => family w = 2 ∨ w = 0x00EE
  | .delay => family w = 0xF ∧ w % 256 = 0x15
  | .sound => family w = 0xF ∧ w % 256 = 0x18
  | .index =>
    family w = 0xA ∨ family w = 0xF ∧ (w % 256 = 0x1E ∨ w % 256 = 0x29 ∨ w % 256 = 0x55 ∨ w % 256 = 0x65)
  | .reg k => MayWriteReg keys w k

/-- the words for an operation end in a digit up to seven or in `E`, those for one that sets the flag in no less than
four -/
theorem alu_digit (op : Alu) : (op.digit ≤ 7 ∨ op.digit = 0xE) ∧
    (op.setsFlag → 4 ≤ op.digit ∧ op.digit ≤ 7 ∨ op.digit = 0xE) := by
  cases op <;> decide

/-- what an instruction writes stands in the row of every word that encodes it -/
theorem mayWrite_of_writes {keys : Keypad} {w : ℕ} {i : Instruction} {p : Part} (hw : i.Encodes w)
    (h : i.Writes keys p) : MayWrite keys w p := by
  cases i with
  | clear => obtain rfl := h; exact Or.inl hw
  | ret => obtain rfl | rfl := h <;> exact Or.inr hw
  | call nnn => obtain rfl | rfl := h <;> exact Or.inl hw.1
  | load x kk => obtain ⟨hf, rfl, -⟩ := hw; obtain rfl := h; exact .constant hf
  | addByte x kk => obtain ⟨hf, rfl, -⟩ := hw; obtain rfl := h; exact .sum hf
  | alu op x y =>
    obtain ⟨hf, hn, rfl, -⟩ := hw
    obtain ⟨hdigit, hflag⟩ := alu_digit op
    rw [← hn] at hdigit hflag
    obtain rfl | ⟨hsets, rfl⟩ := h
    · exact .result hf hdigit
    · exact .flag hf (hflag hsets)
  | setIndex nnn => obtain rfl := h; exact Or.inl hw.1
  | random x kk =>
    obtain ⟨hf, rfl, -⟩ := hw
    obtain rfl | rfl := h
    · exact hf
    · exact .random hf
  | draw x y n =>
    obtain rfl | rfl := h
    · exact Or.inr hw.1
    · exact .collision hw.1
  | readDelay x => obtain ⟨hf, hb, rfl⟩ := hw; obtain rfl := h; exact .delay hf hb
  | waitKey x =>
    obtain ⟨hf, hb, rfl⟩ := hw
    obtain ⟨hdown, rfl⟩ := h
    exact .key hf hb hdown
  | setDelay x | setSound x => obtain rfl := h; exact ⟨hw.1, hw.2.1⟩
  | addIndex x | digit x => obtain rfl := h; exact Or.inr ⟨hw.1, by simp [hw.2.1]⟩
  | decimal x => obtain rfl := h; exact ⟨hw.1, Or.inl hw.2.1⟩
  | save x =>
    obtain rfl | rfl := h
    · exact ⟨hw.1, Or.inr hw.2.1⟩
    · exact Or.inr ⟨hw.1, by simp [hw.2.1]⟩
  | restore x =>
    obtain ⟨hf, hb, rfl⟩ := hw
    obtain ⟨k, hk, rfl⟩ | rfl := h
    · exact .block hf hb hk
    · exact Or.inr ⟨hf, by simp [hb]⟩
  | jump nnn | skip t | jumpOffset nnn => exact h.elim

/-- an opcode that adds a constant or combines two registers bit by bit writes the flag only where it is the target,
and one that moves the index does not write it -/
theorem not_mayWrite_flag {keys : Keypad} {w : ℕ}
    (hw : family w = 7 ∨ family w = 8 ∧ 1 ≤ n w ∧ n w ≤ 3 ∨ family w = 0xF ∧ w % 256 = 0x1E) (hx : x w ≠ 15) :
    ¬MayWrite keys w (.reg 15) := by
  intro h
  generalize hk : (15 : Reg) = k at h
  cases h with
  | constant | sum | result | random | delay | key => exact hx hk.symm
  | flag | collision | block => omega

end Opcode

namespace Machine

variable {σ : Type} {m : Machine σ} {p : Part} {w : ℕ}

/-- a machine and what an opcode makes of it agree on all parts that are not in the row of the opcode; so the flag
outlives sums with a constant or with the index and the operations without a flag, unless it is their target -/
structure Confined (w : ℕ) (m after : Machine σ) : Prop where
  parts : ∀ p, ¬Opcode.MayWrite m.keypad w p → p.Same after m
  flag : (Opcode.family w = 7 ∨ Opcode.family w = 8 ∧ 1 ≤ Opcode.n w ∧ Opcode.n w ≤ 3 ∨
    Opcode.family w = 0xF ∧ w % 256 = 0x1E) → Opcode.x w ≠ 15 → after.reg 15 = m.reg 15

theorem confined_of_same {after : Machine σ} (h : ∀ p, ¬Opcode.MayWrite m.keypad w p → p.Same after m) :
    Confined w m after :=
  ⟨h, fun hw hx => h (.reg 15) (Opcode.not_mayWrite_flag hw hx)⟩

variable [RandomSource σ]

theorem execute_same (h : ¬Opcode.MayWrite m.keypad w p) : p.Same (m.execute w).machine m := by
  have hopcode : p.Same { m with opcode := w } m := by
    cases p <;> rfl
  rcases execute_cases m w with ⟨-, he⟩ | ⟨i, hd, he⟩ <;> rw [he]
  · exact hopcode
  · have hw : i.Encodes w := (Instruction.decode_eq_some_iff w i).1 hd
    exact (perform_same { m with opcode := w } i fun hi => h (Opcode.mayWrite_of_writes hw hi)).trans hopcode

/-- **What opcodes write.** Whatever opcode is executed, fetched or not, all parts of the machine that are not in its
row are as before, whether it faults or not. -/
theorem write_footprint (m : Machine σ) :
    (∀ w : UInt16, Confined w.toNat m (m.execute w.toNat).machine) ∧ Confined m.fetch m m.step.machine := by
  constructor
  · exact fun w => confined_of_same fun p h => execute_same h
  · refine confined_of_same fun p h => ?_
    have hnext : p.Same { m with pc := next m.pc } m := by
      cases p <;> rfl
    exact (execute_same (m := { m with pc := next m.pc }) h).trans hnext

end Machine

end ChipEight
