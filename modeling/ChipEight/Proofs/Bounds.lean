/-
The bounds of the machine's state. Three properties are kept by every operation: all addresses are 16-bit numbers
(`Addressed`), though two instructions write an address without masking it; the stack pointer counts what is on the
stack and is at most sixteen (`Counted`); the last opcode is a 16-bit number. With the sizes that the types of the other
parts carry they make a machine well formed (`WellFormed`), and every machine that a program is loaded into stays so
(`wellFormed_after_load`).
-/
import ChipEight.Proofs.Operations

namespace ChipEight.Machine

variable {σ : Type} {m : Machine σ}

theorem next_lt (pc : ℕ) : next pc < 0x10000 := Nat.mod_lt _ (by decide)

theorem back_lt (pc : ℕ) : back pc < 0x10000 := by
  simp only [back]
  omega

theorem pastRegs_lt (m : Machine σ) (x : Reg) : m.pastRegs x < 0x10000 := Nat.mod_lt _ (by decide)

/-- every address is a 16-bit number -/
structure Addressed (m : Machine σ) : Prop where
  pc : m.pc < 0x10000
  index : m.index < 0x10000
  stack : ∀ a ∈ m.stack, a < 0x10000

/-- the stack pointer counts the addresses on the stack, and the stack does not outgrow its room -/
structure Counted (m : Machine σ) : Prop where
  depth : m.sp = m.stack.length
  room : m.sp ≤ stackRoom

/-- the bounds of every part of a machine, as numbers -/
structure WellFormed (m : Machine σ) : Prop where
  registers : m.v.toList.length = 16 ∧ ∀ b ∈ m.v.toList, b.toNat ≤ 0xFF
  memory : m.memory.toList.length = 4096 ∧ ∀ b ∈ m.memory.toList, b.toNat ≤ 0xFF
  counted : m.Counted
  addressed : m.Addressed
  timers : m.delay.toNat ≤ 0xFF ∧ m.sound.toNat ≤ 0xFF
  pixels : m.screen.pixels.toList.length = 2048 ∧ ∀ p ∈ m.screen.pixels.toList, p.toNat ≤ 1
  picture : m.picture.length = 32 ∧ ∀ row ∈ m.picture, row.length = 64
  keys : m.keypad.down.toList.length = 16
  opcode : m.opcode < 0x10000

theorem boot_addressed (rom : Rom) (random : σ) : (boot rom random).Addressed :=
  ⟨show programStart < 0x10000 by decide, show 0 < 0x10000 by decide, fun _ h => nomatch h⟩

theorem boot_counted (rom : Rom) (random : σ) : (boot rom random).Counted := ⟨rfl, Nat.zero_le _⟩

/-- a picture has the rows and columns of the screen -/
theorem picture_size (m : Machine σ) : m.picture.length = 32 ∧ ∀ row ∈ m.picture, row.length = 64 :=
  m.screen.rows_size

/-- what the types of the parts do not say of a well-formed machine -/
theorem wellFormed_of (hc : m.Counted) (ha : m.Addressed) (ho : m.opcode < 0x10000) : m.WellFormed where
  registers := ⟨by simp, fun b _ => Nat.le_of_lt_succ b.toNat_lt⟩
  memory := ⟨by simp, fun b _ => Nat.le_of_lt_succ b.toNat_lt⟩
  counted := hc
  addressed := ha
  timers := ⟨Nat.le_of_lt_succ m.delay.toNat_lt, Nat.le_of_lt_succ m.sound.toNat_lt⟩
  pixels := ⟨by simp, fun p _ => p.toNat_le⟩
  picture := m.picture_size
  keys := by simp
  opcode := ho

variable [RandomSource σ]

/-! ## Addresses -/

theorem perform_pc_lt (h : m.Addressed) (i : Instruction) : (m.perform i).machine.pc < 0x10000 := by
  have hpc := h.pc
  cases i with
  | call nnn =>
    by_cases hsp : m.sp = stackRoom
    · simpa [perform, hsp] using hpc
    · rw [perform_call hsp]; simp only; omega
  | ret =>
    by_cases hsp : m.sp = 0
    · simpa [perform, hsp] using hpc
    · cases hs : m.stack with
      | nil => simpa [perform, hsp, hs] using hpc
      | cons a rest => rw [perform_ret hsp hs]; exact h.stack a (by simp [hs])
  | jump nnn => simp only [perform]; omega
  | jumpOffset nnn =>
    -- a byte and a twelve-bit number: the sum needs no mask
    have hv := (m.reg (Nibble.low 0)).toNat_lt
    simp only [perform]
    omega
  | skip t =>
    rw [perform_skip]
    split_ifs
    · exact next_lt _
    · exact hpc
  | draw x y n => rw [perform_draw]; simpa using hpc
  | alu op x y => simp only [perform]; rw [calculate_eq]; exact hpc
  | waitKey x =>
    cases hk : m.keypad.lowest? with
    | none => rw [perform_waitKey_none hk]; exact back_lt _
    | some k => rw [perform_waitKey_some hk]; simpa using hpc
  | _ => simpa [perform] using hpc

theorem perform_index_lt (h : m.Addressed) (i : Instruction) : (m.perform i).machine.index < 0x10000 := by
  have hindex := h.index
  cases i with
  | call nnn => simp only [perform]; split_ifs <;> exact hindex
  | ret => simp only [perform]; split_ifs <;> [exact hindex; (split <;> exact hindex)]
  | setIndex nnn => simp only [perform]; omega
  | addIndex x => exact Nat.mod_lt _ (by decide)
  | digit x =>
    -- five times a byte
    have hv := (m.reg x).toNat_lt
    simp only [perform]
    omega
  | save x => exact pastRegs_lt m x
  | restore x => exact pastRegs_lt m x
  | skip t => rw [perform_skip]; split_ifs <;> exact hindex
  | draw x y n => rw [perform_draw]; simpa using hindex
  | alu op x y => simp only [perform]; rw [calculate_eq]; exact hindex
  | waitKey x =>
    cases hk : m.keypad.lowest? with
    | none => rw [perform_waitKey_none hk]; simpa using hindex
    | some k => rw [perform_waitKey_some hk]; simpa using hindex
  | _ => simpa [perform] using hindex

theorem perform_addressed (h : m.Addressed) (i : Instruction) : (m.perform i).machine.Addressed := by
  refine ⟨perform_pc_lt h i, perform_index_lt h i, ?_⟩
  rcases perform_stack m i with ⟨nnn, -, -, he⟩ | ⟨a, rest, -, -, hs, he⟩ | ⟨hs, -⟩
  · rw [he]
    intro b hb
    rcases List.mem_cons.1 hb with rfl | hb
    · exact h.pc
    · exact h.stack b hb
  · rw [he]
    exact fun b hb => h.stack b (hs ▸ List.mem_cons_of_mem a hb)
  · rw [hs]
    exact h.stack

theorem kept_addressed : Kept (Addressed (σ := σ)) := by
  apply Kept.of_perform fun m i h => perform_addressed h i
  · exact fun m h => ⟨next_lt _, h.index, h.stack⟩
  · exact fun m w h => ⟨h.pc, h.index, h.stack⟩
  · exact fun m h => ⟨h.pc, h.index, h.stack⟩
  · exact fun m p h => ⟨h.pc, h.index, h.stack⟩
  · exact fun m s h => ⟨h.pc, h.index, h.stack⟩
  · exact fun m _ => boot_addressed m.rom m.random

/-! ## The stack pointer and the last opcode -/

theorem perform_counted (h : m.Counted) (i : Instruction) : (m.perform i).machine.Counted := by
  have hdepth := h.depth
  have hroom := h.room
  rcases perform_stack m i with ⟨nnn, -, hsp, he⟩ | ⟨a, rest, -, -, hs, he⟩ | ⟨hs, hsp⟩
  · rw [he]
    exact ⟨by simpa using hdepth, Nat.lt_of_le_of_ne hroom hsp⟩
  · rw [he]
    rw [hs] at hdepth
    exact ⟨by simp [hdepth], Nat.le_trans (Nat.sub_le _ _) hroom⟩
  · exact ⟨by rw [hs, hsp, hdepth], by rwa [hsp]⟩

theorem kept_counted : Kept (Counted (σ := σ)) := by
  apply Kept.of_perform fun m i h => perform_counted h i
  · exact fun m h => ⟨h.depth, h.room⟩
  · exact fun m w h => ⟨h.depth, h.room⟩
  · exact fun m h => ⟨h.depth, h.room⟩
  · exact fun m p h => ⟨h.depth, h.room⟩
  · exact fun m s h => ⟨h.depth, h.room⟩
  · exact fun m _ => boot_counted m.rom m.random

theorem kept_opcode_lt : Kept fun m : Machine σ => m.opcode < 0x10000 where
  step m _ := by rw [step, execute_opcode]; exact m.fetch_lt
  execute m w _ := by rw [execute_opcode]; exact w.toNat_lt
  tick _ h := h
  keys _ _ h := h
  pixels _ _ h := h
  reset _ _ := show 0 < 0x10000 by decide

/-! ## Main results -/

theorem Reachable.addressed (h : m.Reachable) : m.Addressed := kept_addressed.reachable boot_addressed h

theorem Reachable.counted (h : m.Reachable) : m.Counted := kept_counted.reachable boot_counted h

/-- **Every machine stays well formed.** A program that fits is loaded, whatever random source it is given, and after
any sequence of operations, those that fail included, the machine is within all its bounds. -/
theorem wellFormed_after_load (bytes : Array UInt8) (random : σ) (ops : List Operation)
    (hfits : bytes.size ≤ 3584) : ∃ m, load bytes random = .ok m ∧ (m.after ops).WellFormed := by
  refine ⟨boot ⟨bytes, hfits⟩ random, ?_, ?_⟩
  · simp only [load, Rom.ofBytes, dif_pos (show bytes.size ≤ programRoom from hfits), Except.map]
  · exact wellFormed_of (kept_counted.after ops (boot_counted _ random))
      (kept_addressed.after ops (boot_addressed _ random))
      (kept_opcode_lt.after ops (show 0 < 0x10000 by decide))

/-- a program that calls itself until the stack is full, with random numbers that are no bytes, and operations that fail
on the way -/
theorem wellFormed_after_overflow :
    #[0x22, 0x00].size ≤ 3584 ∧
      ∃ m, load #[0x22, 0x00] (Cycle.mk #[-1, 300] 0) = .ok m ∧
        (m.after (List.replicate 17 .step ++ [.setKey (-1) true, .execute 0xC0FF, .setPixel 64 0 true,
          .frame 3 false])).WellFormed :=
  ⟨by decide, wellFormed_after_load _ _ _ (by decide)⟩

end ChipEight.Machine
