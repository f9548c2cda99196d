/-
The operations that set the flag. Result and flag together say all of a sum, a difference or a shift: they are tied to
the target and the source by one equation between numbers (`Alu.Balances`, `Alu.apply_balances`). Both registers are
read before the result is written, and the flag is written last, so the equation holds whichever of the registers are
the same one; only where the target is the flag itself is the result lost (`flag_arithmetic`). That a difference takes a
sum back follows from the two equations alone (`Settled.sub_of_add`).
-/
import ChipEight.Proofs.Deeds
import ChipEight.Proofs.Footprints

namespace ChipEight

/-! ## Bytes -/

namespace Alu

/-- what ties the result `r` and the flag `f` of an operation to the target `a` and the source `b`; nothing does where
the operation sets no flag -/
def Balances (a b r f : ℤ) : Alu → Prop
  | copy | or | and | xor => False
  | add => r + 256 * f = a + b
  | sub => r = a - b + 256 * (1 - f)
  | shr => 2 * r + f = b
  | subFrom => r = b - a + 256 * (1 - f)
  | shl => r + 256 * f = 2 * b

theorem toNat_flag (p : Prop) [Decidable p] : (if p then 1 else 0 : UInt8).toNat = if p then 1 else 0 := by
  split_ifs <;> rfl

theorem toNat_flag_le (p : Prop) [Decidable p] : (if p then 1 else 0 : UInt8).toNat ≤ 1 := by
  rw [toNat_flag]
  split_ifs <;> decide

/-- a sum is taken modulo 256, and the flag tells whether it went around -/
theorem add_balances (a b : UInt8) :
    ((a + b).toNat : ℤ) + 256 * (if a.toNat + b.toNat > 255 then 1 else 0 : UInt8).toNat = a.toNat + b.toNat := by
  have ha := a.toNat_lt
  have hb := b.toNat_lt
  rw [toNat_flag, UInt8.toNat_add]
  split_ifs <;> omega

/-- a difference is taken modulo 256, and the flag tells whether it did not go around -/
theorem sub_balances (a b : UInt8) :
    ((a - b).toNat : ℤ) = a.toNat - b.toNat + 256 * (1 - (if b ≤ a then 1 else 0 : UInt8).toNat) := by
  have ha := a.toNat_lt
  have hb := b.toNat_lt
  rw [toNat_flag, UInt8.toNat_sub]
  split_ifs with hle
  · rw [UInt8.le_iff_toNat_le] at hle
    omega
  · rw [UInt8.le_iff_toNat_le] at hle
    omega

theorem toNat_low (b : UInt8) : (b &&& 1).toNat = b.toNat % 2 := (UInt8.toNat_and b 1).trans (Nat.and_one_is_mod _)

theorem toNat_top (b : UInt8) : (b >>> 7).toNat = b.toNat / 128 :=
  (UInt8.toNat_shiftRight b 7).trans (Nat.shiftRight_eq_div_pow _ 7)

/-- a shift to the right halves, and the flag is what is left over -/
theorem shr_balances (b : UInt8) : (2 * (b >>> 1).toNat + (b &&& 1).toNat : ℤ) = b.toNat := by
  have hhalf : (b >>> 1).toNat = b.toNat / 2 := (UInt8.toNat_shiftRight b 1).trans (Nat.shiftRight_eq_div_pow _ 1)
  rw [hhalf, toNat_low]
  omega

/-- a shift to the left doubles modulo 256, and the flag tells whether that went around -/
theorem shl_balances (b : UInt8) : ((b <<< 1).toNat + 256 * (b >>> 7).toNat : ℤ) = 2 * b.toNat := by
  have hb := b.toNat_lt
  have hdouble : (b <<< 1).toNat = b.toNat * 2 % 256 :=
    (UInt8.toNat_shiftLeft b 1).trans (congrArg (· % 256) (Nat.shiftLeft_eq _ 1))
  rw [hdouble, toNat_top]
  omega

/-- every operation that sets the flag balances, and its flag is a bit -/
theorem apply_balances {op : Alu} (hop : op.setsFlag = true) (a b : UInt8) :
    ∃ r f, op.apply a b = (r, some f) ∧ f.toNat ≤ 1 ∧ op.Balances a.toNat b.toNat r.toNat f.toNat := by
  cases op with
  | copy | or | and | xor => cases hop
  | add => exact ⟨_, _, rfl, toNat_flag_le _, add_balances a b⟩
  | sub => exact ⟨_, _, rfl, toNat_flag_le _, sub_balances a b⟩
  | subFrom => exact ⟨_, _, rfl, toNat_flag_le _, sub_balances b a⟩
  | shr =>
    refine ⟨_, _, rfl, ?_, shr_balances b⟩
    rw [toNat_low]
    omega
  | shl =>
    have hb := b.toNat_lt
    refine ⟨_, _, rfl, ?_, shl_balances b⟩
    rw [toNat_top]
    omega

end Alu

namespace Machine

variable {σ : Type} {m after last : Machine σ} {x y : Reg} {op : Alu}

/-! ## Registers -/

/-- an operation on the registers `x` and `y` has left the result `r` and the flag `f`, and no other register changed -/
structure Settled (op : Alu) (m after : Machine σ) (x y : Reg) (r f : ℕ) : Prop where
  byte : r ≤ 255
  bit : f ≤ 1
  balance : op.Balances (m.reg x).toNat (m.reg y).toNat r f
  flag : (after.reg 15).toNat = f
  target : x ≠ 15 → (after.reg x).toNat = r
  regs : ∀ k, k ≠ x → k ≠ 15 → after.reg k = m.reg k

/-- the result is written first and the flag behind it, both from what the registers held before -/
theorem settled_calculate (m : Machine σ) (pc opcode : ℕ) (x y : Reg) (hop : op.setsFlag = true) :
    ∃ r f, Settled op m ({ m with pc, opcode }.calculate op x y) x y r f := by
  obtain ⟨r, f, happly, hbit, hbalance⟩ := Alu.apply_balances hop (m.reg x) (m.reg y)
  have hleft : { m with pc, opcode }.calculate op x y = ({ m with pc, opcode }.setReg x r).setReg 15 f := by
    have happly' : op.apply ({ m with pc, opcode }.reg x) ({ m with pc, opcode }.reg y) = (r, some f) := happly
    unfold calculate
    rw [happly']
    rfl
  rw [hleft]
  refine ⟨r.toNat, f.toNat, ?_⟩
  exact
    { byte := Nat.le_of_lt_succ r.toNat_lt
      bit := hbit
      balance := hbalance
      flag := by rw [reg_setReg_self]
      target := by
        intro hx
        rw [reg_setReg_of_ne _ hx, reg_setReg_self]
      regs := by
        intro k hk hflag
        rw [reg_setReg_of_ne _ hflag, reg_setReg_of_ne _ hk]
        rfl }

/-- with three different registers, a difference takes the sum before it back, and its flag is the other one -/
theorem Settled.sub_of_add {r f r' f' : ℕ} (hadd : Settled .add m after x y r f)
    (hsub : Settled .sub after last x y r' f') (hxy : x ≠ y) (hx : x ≠ 15) (hy : y ≠ 15) :
    (∀ k ≠ 15, last.reg k = m.reg k) ∧ ((last.reg 15).toNat : ℤ) = 1 - (after.reg 15).toNat := by
  have hsum : (r : ℤ) + 256 * f = (m.reg x).toNat + (m.reg y).toNat := hadd.balance
  have hdifference : (r' : ℤ) = (after.reg x).toNat - (after.reg y).toNat + 256 * (1 - f') := hsub.balance
  rw [hadd.target hx, hadd.regs y hxy.symm hy] at hdifference
  have hback : (r' : ℤ) = (m.reg x).toNat + 256 * (1 - f - f') := by
    calc (r' : ℤ) = r - (m.reg y).toNat + 256 * (1 - f') := hdifference
      _ = (m.reg x).toNat + (m.reg y).toNat - 256 * f - (m.reg y).toNat + 256 * (1 - f') := by rw [← hsum]; ring
      _ = (m.reg x).toNat + 256 * (1 - f - f') := by ring
  -- both are bytes, so that nothing is left of the multiples of 256
  have hbyte := hsub.byte
  have hold := (m.reg x).toNat_lt
  constructor
  · intro k hk
    by_cases hkx : k = x
    · rw [hkx]
      apply UInt8.toNat_inj.1
      rw [hsub.target hx]
      omega
    · rw [hsub.regs k hkx hk, hadd.regs k hkx hk]
  · rw [hsub.flag, hadd.flag]
    omega

/-! ## Main result -/

variable [RandomSource σ]

theorem operate_alu {o : Operation} (ho : o.opcode? m = some (op.word x y)) (hop : op.setsFlag = true) :
    (m.operate o).failure = none ∧ ∃ r f, Settled op m (m.operate o).machine x y r f := by
  obtain ⟨pc, he⟩ := operate_of_encodes ho (Instruction.encodes_alu op x y)
  rw [he]
  exact ⟨rfl, settled_calculate m pc _ x y hop⟩

/-- **Results and flags.** An opcode for an operation that sets the flag, fetched or not, never fails. Whichever of its
registers are the same, it leaves a bit in the flag and, unless the flag is the target, a byte in the target, that are
tied to what both registers held before by the equation of the operation; all other registers are as before. So if
target, source and flag are three, a difference behind a sum restores the target, and its flag is one less the carry. -/
theorem flag_arithmetic (m : Machine σ) (x y : Reg) :
    (∀ (op : Alu) (o : Operation), op.setsFlag = true → o.opcode? m = some (op.word x y) →
      (m.operate o).failure = none ∧ ∃ r f, Settled op m (m.operate o).machine x y r f) ∧
    ∀ o o' : Operation, x ≠ y → x ≠ 15 → y ≠ 15 → o.opcode? m = some (Alu.add.word x y) →
      o'.opcode? (m.operate o).machine = some (Alu.sub.word x y) →
        (∀ k ≠ 15, ((m.operate o).machine.operate o').machine.reg k = m.reg k) ∧
        ((((m.operate o).machine.operate o').machine.reg 15).toNat : ℤ) = 1 - ((m.operate o).machine.reg 15).toNat := by
  constructor
  · intro op o hop ho
    exact operate_alu ho hop
  · intro o o' hxy hx hy ho ho'
    obtain ⟨-, r, f, hadd⟩ := operate_alu ho rfl
    obtain ⟨-, r', f', hsub⟩ := operate_alu ho' rfl
    exact hadd.sub_of_add hsub hxy hx hy

/-- a machine with 200 in a register and in the flag, and 100 in another register -/
def loaded : Machine Cycle :=
  (boot ⟨#[], Nat.zero_le _⟩ (Cycle.mk #[] 0)).after [.execute 0x61C8, .execute 0x6264, .execute 0x6FC8]

/-- a sum that goes around, with the flag for its target; and one that a difference takes back, with its carry -/
theorem flag_arithmetic_of_loaded :
    loaded.Reachable ∧ Alu.add.setsFlag = true ∧
      (Operation.execute 0x8F24).opcode? loaded = some (Alu.add.word 15 2) ∧
      ((loaded.operate (.execute 0x8F24)).machine.reg 15).toNat = 1 ∧
      (1 : Reg) ≠ 2 ∧ (1 : Reg) ≠ 15 ∧ (2 : Reg) ≠ 15 ∧
      (Operation.execute 0x8124).opcode? loaded = some (Alu.add.word 1 2) ∧
      (Operation.execute 0x8125).opcode? (loaded.operate (.execute 0x8124)).machine = some (Alu.sub.word 1 2) ∧
      ((loaded.operate (.execute 0x8124)).machine.operate (.execute 0x8125)).machine.reg 1 = 200 := by
  obtain ⟨-, r, f, hsettled⟩ := (flag_arithmetic loaded 15 2).1 .add (.execute 0x8F24) rfl rfl
  have hcarry : f = 1 := by
    have hsum : (r : ℤ) + 256 * f = 200 + 100 := hsettled.balance
    have hbyte := hsettled.byte
    omega
  obtain ⟨hback, -⟩ := (flag_arithmetic loaded 1 2).2 (.execute 0x8124) (.execute 0x8125) (by decide) (by decide)
    (by decide) rfl rfl
  exact ⟨⟨_, _, _, rfl⟩, rfl, rfl, hcarry ▸ hsettled.flag, by decide, by decide, by decide, rfl, rfl,
    (hback 1 (by decide)).trans rfl⟩

end Machine

end ChipEight
