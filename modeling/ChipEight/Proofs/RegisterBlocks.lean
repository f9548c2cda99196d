/-
Registers kept in memory. An opcode `Fx55` stores the registers up to `x` from the index on (`Saved`), and an opcode
`Fx65` reads them back (`Restored`); both move the index past them. Cells count around the end of memory, and a block
that is no longer than memory has each of its bytes in a cell of its own (`Memory.store_inside`,
`Memory.store_outside`). So what is stored is read back, what is read back stores nothing new, and a block that is
stored behind another one leaves it alone, wherever the index stands (`registers_round_trip`).
-/
import ChipEight.Proofs.Deeds

namespace ChipEight

/-! ## Blocks of memory -/

namespace Memory

/-- a cell that no byte of a block falls into is left alone -/
theorem store_outside (m : Memory) {i : ℕ} {bs : List UInt8} {a : ℕ} (ha : a < 4096)
    (h : ∀ k < bs.length, a ≠ (i + k) % 4096) : (m.store i bs)[a] = m[a] := by
  induction bs generalizing m i with
  | nil => rfl
  | cons b bs ih =>
    have hrest : ∀ k < bs.length, a ≠ (i + 1 + k) % 4096 := by
      intro k hk
      rw [Nat.add_assoc, Nat.add_comm 1 k]
      exact h (k + 1) (Nat.succ_lt_succ hk)
    have hfirst : i % 4096 ≠ a := (h 0 (Nat.succ_pos _)).symm
    rw [store, ih _ hrest, write, Vector.getElem_set_ne _ _ hfirst]

/-- the bytes of a block no longer than memory do not fall on each other -/
theorem store_inside (m : Memory) {i : ℕ} {bs : List UInt8} (hsize : bs.length ≤ 4096) {k : ℕ} (hk : k < bs.length) :
    (m.store i bs)[(i + k) % 4096] = bs[k] := by
  induction bs generalizing m i k with
  | nil => exact absurd hk (Nat.not_lt_zero k)
  | cons b bs ih =>
    rw [List.length_cons] at hsize hk
    cases k with
    | zero =>
      have hbehind : ∀ j < bs.length, (i + 0) % 4096 ≠ (i + 1 + j) % 4096 := by omega
      rw [store, store_outside _ _ hbehind]
      exact Vector.getElem_set_self _
    | succ k =>
      have hplace : (i + (k + 1)) % 4096 = (i + 1 + k) % 4096 := by omega
      rw [getElem_congr_idx hplace, store, ih _ (Nat.le_of_succ_le hsize) (Nat.lt_of_succ_lt_succ hk)]
      rfl

end Memory

namespace Machine

variable {σ : Type} {m n after last : Machine σ} {x y : Reg}

/-! ## One block -/

/-- the registers of `m` up to `x` are in memory from the index on, the index is past them, and nothing else of memory
or of the registers has changed -/
structure Saved (m after : Machine σ) (x : Reg) : Prop where
  cells : ∀ k ≤ x, after.memory[(m.index + k) % 4096] = m.reg k
  others : ∀ a (ha : a < 4096), (∀ k ≤ x, a ≠ (m.index + k) % 4096) → after.memory[a] = m.memory[a]
  regs : ∀ k, after.reg k = m.reg k
  index : after.index = (m.index + x + 1) % 0x10000

/-- the registers up to `x` are those that `m` has in memory from the index on, the index is past them, and nothing
else of memory or of the registers has changed -/
structure Restored (m after : Machine σ) (x : Reg) : Prop where
  regs : ∀ k ≤ x, after.reg k = m.memory[(m.index + k) % 4096]
  others : ∀ k, x < k → after.reg k = m.reg k
  memory : after.memory = m.memory
  index : after.index = (m.index + x + 1) % 0x10000

/-- the registers of `m` up to `x` and those of `n` up to `y` are in memory behind each other from the index of `m` on,
each in a cell of its own, the index is past all of them, and nothing else of memory has changed -/
structure Stacked (m n after : Machine σ) (x y : Reg) : Prop where
  first : ∀ k ≤ x, after.memory[(m.index + k) % 4096] = m.reg k
  second : ∀ k ≤ y, after.memory[(m.index + x + 1 + k) % 4096] = n.reg k
  distinct : ∀ i < (x + y + 2 : ℕ), ∀ j < (x + y + 2 : ℕ), (m.index + i) % 4096 = (m.index + j) % 4096 → i = j
  others : ∀ a (ha : a < 4096), (∀ j < (x + y + 2 : ℕ), a ≠ (m.index + j) % 4096) → after.memory[a] = m.memory[a]
  index : after.index = (m.index + x + y + 2) % 0x10000

theorem length_regs (m : Machine σ) (x : Reg) : (m.v.toList.take (x + 1)).length = x + 1 := by
  rw [List.length_take, Vector.length_toList]
  omega

/-! ## Blocks behind each other -/

/-- what is stored is read back by any machine with the same bytes in these cells -/
theorem Saved.restored (hsaved : m.Saved after x) (hrestored : n.Restored last x) (hindex : n.index = m.index)
    (hcells : ∀ k ≤ x, n.memory[(m.index + k) % 4096] = after.memory[(m.index + k) % 4096]) :
    (∀ k ≤ x, last.reg k = m.reg k) ∧ last.index = after.index := by
  constructor
  · intro k hk
    have hplace : (n.index + k) % 4096 = (m.index + k) % 4096 := by rw [hindex]
    calc last.reg k = n.memory[(n.index + k) % 4096] := hrestored.regs k hk
      _ = n.memory[(m.index + k) % 4096] := getElem_congr_idx hplace
      _ = after.memory[(m.index + k) % 4096] := hcells k hk
      _ = m.reg k := hsaved.cells k hk
  · rw [hrestored.index, hsaved.index, hindex]

/-- registers that were read from memory are stored there without a change -/
theorem Restored.saved (hrestored : m.Restored after x) (hsaved : n.Saved last x) (hindex : n.index = m.index)
    (hregs : ∀ k ≤ x, n.reg k = after.reg k) (hmemory : n.memory = after.memory) : last.memory = m.memory := by
  have hkept : n.memory = m.memory := hmemory.trans hrestored.memory
  apply Vector.ext
  intro a ha
  by_cases hcell : ∃ k ≤ x, a = (m.index + k) % 4096
  · obtain ⟨k, hk, rfl⟩ := hcell
    have hplace : (m.index + k) % 4096 = (n.index + k) % 4096 := by rw [hindex]
    calc last.memory[(m.index + k) % 4096] = last.memory[(n.index + k) % 4096] := getElem_congr_idx hplace
      _ = n.reg k := hsaved.cells k hk
      _ = after.reg k := hregs k hk
      _ = m.memory[(m.index + k) % 4096] := hrestored.regs k hk
  · have hfree : ∀ k ≤ x, a ≠ (n.index + k) % 4096 := by
      intro k hk h
      exact hcell ⟨k, hk, hindex ▸ h⟩
    rw [hsaved.others a ha hfree, hkept]

/-- a second block stands behind the first one, also where the index has gone around: memory divides the addresses -/
theorem Saved.stacked (hfirst : m.Saved after x) (hsecond : n.Saved last y) (hindex : n.index = after.index)
    (hmemory : n.memory = after.memory) : Stacked m n last x y := by
  have hplace (k : ℕ) : (n.index + k) % 4096 = (m.index + x + 1 + k) % 4096 := by
    rw [hindex, hfirst.index]
    omega
  exact
    { first := by
        intro k hk
        have hk' : (k : ℕ) ≤ x := hk
        have hfree : ∀ j ≤ y, (m.index + k) % 4096 ≠ (n.index + j) % 4096 := by
          intro j _
          rw [hplace]
          omega
        rw [hsecond.others _ _ hfree, hmemory, hfirst.cells k hk]
      second := by
        intro k hk
        rw [← hsecond.cells k hk]
        exact getElem_congr_idx (hplace k).symm
      distinct := by omega
      others := by
        intro a ha hfree
        have hfree' : ∀ j ≤ y, a ≠ (n.index + j) % 4096 := by
          intro j hj
          have hj' : (j : ℕ) ≤ y := hj
          have h := hfree (x + 1 + j) (by omega)
          rw [hplace]
          omega
        have hfree'' : ∀ k ≤ x, a ≠ (m.index + k) % 4096 := by
          intro k hk
          have hk' : (k : ℕ) ≤ x := hk
          exact hfree k (by omega)
        rw [hsecond.others a ha hfree', hmemory, hfirst.others a ha hfree'']
      index := by
        rw [hsecond.index, hindex, hfirst.index]
        omega }

/-! ## The opcodes -/

variable [RandomSource σ]

theorem saved_perform (m : Machine σ) (pc opcode : ℕ) (x : Reg) :
    m.Saved ({ m with pc, opcode }.perform (.save x)).machine x where
  cells k hk := by
    have hlength := m.length_regs x
    have hk' : (k : ℕ) < (m.v.toList.take (x + 1)).length := by
      rw [hlength]
      exact Nat.lt_succ_of_le hk
    refine (m.memory.store_inside (i := m.index) (by omega) hk').trans ?_
    rw [List.getElem_take]
    exact Vector.getElem_toList _
  others a ha hfree := by
    refine m.memory.store_outside ha fun k hk => ?_
    have hk' : k < x + 1 := (m.length_regs x).symm ▸ hk
    exact hfree ⟨k, by omega⟩ (Nat.le_of_lt_succ hk')
  regs _ := rfl
  index := rfl

theorem restored_perform (m : Machine σ) (pc opcode : ℕ) (x : Reg) :
    m.Restored ({ m with pc, opcode }.perform (.restore x)).machine x where
  regs k hk := by
    simp only [reg, perform, Fin.getElem_fin, Vector.getElem_ofFn, Fin.eta, if_pos hk]
    rfl
  others k hk := by
    simp only [reg, perform, Fin.getElem_fin, Vector.getElem_ofFn, Fin.eta, if_neg (not_le.2 hk)]
  memory := by simp only [perform]
  index := by simp only [perform, pastRegs]

theorem operate_save {o : Operation} {w : ℕ} (ho : o.opcode? m = some w) (hw : (Instruction.save x).Encodes w) :
    (m.operate o).failure = none ∧ m.Saved (m.operate o).machine x := by
  obtain ⟨pc, he⟩ := operate_of_encodes ho hw
  rw [he]
  exact ⟨rfl, saved_perform m pc w x⟩

theorem operate_restore {o : Operation} {w : ℕ} (ho : o.opcode? m = some w)
    (hw : (Instruction.restore x).Encodes w) : (m.operate o).failure = none ∧ m.Restored (m.operate o).machine x := by
  obtain ⟨pc, he⟩ := operate_of_encodes ho hw
  rw [he]
  exact ⟨rfl, restored_perform m pc w x⟩

/-! ## Main result -/

/-- **Registers are kept in memory.** An opcode `Fx55`, fetched or not, never fails and stores the registers up to `x`.
From any machine with the same index and the same bytes there, an opcode `Fx65` reads them back and moves the index the
same way; and an opcode `Fy55` that finds the index where the first has left it makes one block of both, and destroys
nothing of the first. An opcode `Fx65` with an opcode `Fx55` behind it, from the same index, leaves memory as it was.
All this holds wherever the index stands, at the end of memory and of the addresses too. -/
theorem registers_round_trip (m : Machine σ) (x : Reg) :
    (∀ o : Operation, o.opcode? m = some (0xF000 + 0x100 * (x : ℕ) + 0x55) →
      (m.operate o).failure = none ∧ m.Saved (m.operate o).machine x ∧
      (∀ (n : Machine σ) (o' : Operation), n.index = m.index →
        (∀ k ≤ x, n.memory[(m.index + k) % 4096] = (m.operate o).machine.memory[(m.index + k) % 4096]) →
        o'.opcode? n = some (0xF000 + 0x100 * (x : ℕ) + 0x65) →
          (n.operate o').failure = none ∧ n.Restored (n.operate o').machine x ∧
          (∀ k ≤ x, (n.operate o').machine.reg k = m.reg k) ∧
          (n.operate o').machine.index = (m.operate o).machine.index) ∧
      ∀ (n : Machine σ) (o' : Operation) (y : Reg), n.index = (m.operate o).machine.index →
        n.memory = (m.operate o).machine.memory → o'.opcode? n = some (0xF000 + 0x100 * (y : ℕ) + 0x55) →
          (n.operate o').failure = none ∧ n.Saved (n.operate o').machine y ∧ Stacked m n (n.operate o').machine x y) ∧
    ∀ o : Operation, o.opcode? m = some (0xF000 + 0x100 * (x : ℕ) + 0x65) →
      (m.operate o).failure = none ∧ m.Restored (m.operate o).machine x ∧
      ∀ (n : Machine σ) (o' : Operation), n.index = m.index → (∀ k ≤ x, n.reg k = (m.operate o).machine.reg k) →
        n.memory = (m.operate o).machine.memory → o'.opcode? n = some (0xF000 + 0x100 * (x : ℕ) + 0x55) →
          (n.operate o').failure = none ∧ (n.operate o').machine.memory = m.memory := by
  constructor
  · intro o ho
    obtain ⟨hfailure, hsaved⟩ := operate_save ho (Instruction.encodes_save x)
    refine ⟨hfailure, hsaved, ?_, ?_⟩
    · intro n o' hindex hcells ho'
      obtain ⟨hfailure', hrestored⟩ := operate_restore ho' (Instruction.encodes_restore x)
      obtain ⟨hregs, hindex'⟩ := hsaved.restored hrestored hindex hcells
      exact ⟨hfailure', hrestored, hregs, hindex'⟩
    · intro n o' y hindex hmemory ho'
      obtain ⟨hfailure', hsaved'⟩ := operate_save ho' (Instruction.encodes_save _)
      exact ⟨hfailure', hsaved', hsaved.stacked hsaved' hindex hmemory⟩
  · intro o ho
    obtain ⟨hfailure, hrestored⟩ := operate_restore ho (Instruction.encodes_restore x)
    refine ⟨hfailure, hrestored, ?_⟩
    intro n o' hindex hregs hmemory ho'
    obtain ⟨hfailure', hsaved⟩ := operate_save ho' (Instruction.encodes_save _)
    exact ⟨hfailure', hrestored.saved hsaved hindex hregs hmemory⟩

/-- a machine with three registers set and the index two below the end of the addresses -/
def around : Machine Cycle :=
  { (boot ⟨#[], Nat.zero_le _⟩ (Cycle.mk #[] 0)).after [.execute 0x6011, .execute 0x6122, .execute 0x6233] with
    index := 0xFFFE }

/-- three registers are stored around both ends and two more behind them; they are read back by a machine that has lost
them, and what is read where there was nothing is stored again -/
theorem registers_round_trip_of_around :
    let stored := (around.operate (.execute 0xF255)).machine
    let lost : Machine Cycle := { stored with index := 0xFFFE, v := Vector.replicate 16 0 }
    let twice := (stored.operate (.execute 0xF155)).machine
    let taken := (around.operate (.execute 0xF265)).machine
    (Operation.execute 0xF255).opcode? around = some 0xF255 ∧ around.Saved stored 2 ∧ stored.index = 1 ∧
      lost.index = around.index ∧ (lost.operate (.execute 0xF265)).machine.reg 2 = 0x33 ∧
      Stacked around stored twice 2 1 ∧ twice.memory[0] = 0x33 ∧ twice.index = 3 ∧ taken.reg 0 = 0 ∧
      (({ taken with index := 0xFFFE } : Machine Cycle).operate (.execute 0xF255)).machine.memory = around.memory := by
  intro stored lost twice taken
  obtain ⟨hstore, htake⟩ := registers_round_trip around 2
  obtain ⟨-, hsaved, hback, hbehind⟩ := hstore (.execute 0xF255) rfl
  obtain ⟨-, -, hread, -⟩ := hback lost (.execute 0xF265) rfl (fun _ _ => rfl) rfl
  obtain ⟨-, -, hstacked⟩ := hbehind stored (.execute 0xF155) 1 rfl rfl rfl
  obtain ⟨-, htaken, hagain⟩ := htake (.execute 0xF265) rfl
  obtain ⟨-, hmemory⟩ := hagain { taken with index := 0xFFFE } (.execute 0xF255) rfl (fun _ _ => rfl) rfl rfl
  have hthird : around.reg 2 = 0x33 := rfl
  have hempty : around.memory[0xFFE] = 0 := (Rom.read_image _ 0xFFE).trans (by decide)
  exact ⟨rfl, hsaved, hsaved.index, rfl, (hread 2 (le_refl 2)).trans hthird, hstacked,
    (hstacked.first 2 (le_refl 2)).trans hthird, hstacked.index, (htaken.regs 0 (by decide)).trans hempty, hmemory⟩

end Machine

end ChipEight
