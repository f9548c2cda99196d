/-
Where random numbers go. A deed draws from the random source exactly if it executes an opcode that asks for a random
number, and it draws once (`Deed.random_left`). So the source stands where as many draws have left it as there were such
opcodes (`Leads.random`), in frames and across new starts, and the number that an opcode stores is the one whose turn it
is (`no_number_lost`). A source that counts its draws counts the opcodes that ask for one.
-/
import ChipEight.Proofs.Deeds
import ChipEight.Proofs.Footprints
import ChipEight.Proofs.Restart

namespace ChipEight

variable {σ : Type}

/-- does the deed execute an opcode that asks for a random number -/
def Deed.asksRandom (d : Deed σ) : Bool := d.opcode?.any fun w => Opcode.family w = 0xC

namespace RandomSource

variable [RandomSource σ]

theorem after_succ (s : σ) (k : ℕ) : after s (k + 1) = (draw (after s k)).2 := by
  induction k generalizing s with
  | zero => rfl
  | succ k ih => exact ih (draw s).2

end RandomSource

/-- a source that counts how often it is drawn from -/
structure Tallied (σ : Type) where
  source : σ
  draws : ℕ := 0

instance [RandomSource σ] : RandomSource (Tallied σ) where
  draw t :=
    let (r, source) := RandomSource.draw t.source
    (r, ⟨source, t.draws + 1⟩)

theorem Tallied.after_draws [RandomSource σ] (t : Tallied σ) (k : ℕ) :
    RandomSource.after t k = ⟨RandomSource.after t.source k, t.draws + k⟩ := by
  induction k with
  | zero => rfl
  | succ k ih =>
    rw [RandomSource.after_succ, RandomSource.after_succ, ih]
    rfl

/-- the bits that a byte shares with a number -/
theorem toNat_masked (w : ℕ) (r : ℤ) : (Opcode.kk w &&& UInt8.ofInt r).toNat = w % 256 &&& (r % 256).toNat := by
  have hnumber : (UInt8.ofInt r).toNat = (r % 256).toNat := by
    simp [UInt8.ofInt]
    omega
  rw [UInt8.toNat_and, Opcode.toNat_kk, hnumber]

/-! ## One deed -/

/-- a new start draws nothing -/
theorem Machine.reset_random (m : Machine σ) : m.reset.random = m.random :=
  have hboot (rom : Rom) (random : σ) : (boot rom random).random = random := rfl
  hboot m.rom m.random

variable [RandomSource σ]

namespace Machine

/-- an opcode that asks for a random number draws it, and keeps the bits of it that its low byte has -/
theorem execute_random {w : ℕ} (hw : Opcode.family w = 0xC) (m : Machine σ) :
    (m.execute w).machine.random = (RandomSource.draw m.random).2 ∧
      ((m.execute w).machine.reg (Opcode.x w)).toNat = w % 256 &&& ((RandomSource.draw m.random).1 % 256).toNat := by
  rw [m.execute_of_encodes (i := .random (Opcode.x w) (Opcode.kk w)) ⟨hw, rfl, rfl⟩, ← toNat_masked]
  constructor
  · rfl
  · exact congrArg UInt8.toNat (reg_setReg_self _ _ _)

theorem random_execute (m : Machine σ) (w : ℕ) :
    (m.execute w).machine.random =
      if Opcode.family w = 0xC then (RandomSource.draw m.random).2 else m.random := by
  split_ifs with hw
  · exact (execute_random hw m).1
  · exact execute_same (p := .random) hw

end Machine

namespace Deed

variable {d : Deed σ}

/-- a deed draws one random number if it asks for one, and none if not -/
theorem random_left (hd : d.work.isFrame = false) :
    d.left.random = if d.asksRandom then (RandomSource.draw d.machine.random).2 else d.machine.random := by
  obtain ⟨m, o⟩ := d
  have heffect := m.effect hd
  unfold left asksRandom opcode?
  generalize (m.operate o).machine = n at heffect
  cases heffect with
  | executes w pc hw => simp only [Machine.random_execute, hw, Option.any_some, decide_eq_true_iff]
  | ticks => exact (if_neg Bool.false_ne_true).symm
  | restarts => exact (Machine.reset_random m).trans (if_neg Bool.false_ne_true).symm
  | writes p s ho => cases o <;> first | exact (if_neg Bool.false_ne_true).symm | cases ho

/-- what an opcode stores that asks for a random number -/
theorem reg_left {w : ℕ} (hw : d.opcode? = some w) (hask : Opcode.family w = 0xC) :
    (d.left.reg (Opcode.x w)).toNat = w % 256 &&& ((RandomSource.draw d.machine.random).1 % 256).toNat := by
  obtain ⟨pc, he⟩ := Machine.operate_of_opcode? hw
  unfold left
  rw [he]
  exact (Machine.execute_random hask { d.machine with pc }).2

end Deed

/-! ## Many deeds -/

namespace Machine

variable {m n : Machine σ} {ds : List (Deed σ)}

/-- the source stands behind one draw for each deed that asks for a random number -/
theorem Leads.random (h : Leads m ds n) : n.random = RandomSource.after m.random (ds.countP Deed.asksRandom) := by
  induction h with
  | start => rfl
  | @next ds n h o ho ih =>
    have hleft := Deed.random_left (d := ⟨n, o⟩) ho
    unfold Deed.left at hleft
    rw [hleft, ih, List.countP_append, List.countP_singleton]
    split_ifs
    · rw [RandomSource.after_succ]
    · rw [Nat.add_zero]

/-! ## Main result -/

/-- the deeds draw from a source, which first stands at `random`, one number for each opcode that asks for one, and no
other; and every such opcode stores the bits of the number whose turn it is -/
structure Drawn (random : σ) (ds : List (Deed σ)) : Prop where
  stores : ∀ before d behind w, ds = before ++ d :: behind → d.opcode? = some w → Opcode.family w = 0xC →
    (d.left.reg (Opcode.x w)).toNat =
      w % 256 &&& (RandomSource.output random (before.countP Deed.asksRandom) % 256).toNat
  draws : ∀ d ∈ ds, d.left.random =
    if d.asksRandom then (RandomSource.draw d.machine.random).2 else d.machine.random

theorem Leads.drawn (h : Leads m ds n) : Drawn m.random ds where
  stores before d behind w hds hw hask := by
    obtain ⟨hbefore, -⟩ := h.split hds
    rw [Deed.reg_left hw hask, hbefore.random]
    rfl
  draws d hd := by
    obtain ⟨before, behind, hds⟩ := List.append_of_mem hd
    exact Deed.random_left (h.split hds).2

/-- **No random number is lost.** A program that fits is loaded, and any operations follow. Counted from there, across
new starts and within frames, the opcodes that ask for a random number get the numbers of the source in order, one each,
whatever their low byte and their register, and nothing else draws from the source. So a source that counts its draws
counts these opcodes. -/
theorem no_number_lost (bytes : Array UInt8) (random : σ) (ops : List Operation) (hfits : bytes.size ≤ 3584) :
    (∃ m, load bytes random = .ok m ∧ Leads m (m.deeds ops) (m.after ops) ∧ Drawn random (m.deeds ops) ∧
      (m.after ops).random = RandomSource.after random ((m.deeds ops).countP Deed.asksRandom)) ∧
    ∃ m, load bytes (Tallied.mk random 0) = .ok m ∧
      (m.after ops).random.draws = (m.deeds ops).countP Deed.asksRandom := by
  constructor
  · have hleads := leads_deeds (boot ⟨bytes, hfits⟩ random) ops
    exact ⟨_, load_of_fits hfits random, hleads, hleads.drawn, hleads.random⟩
  · have hleads := leads_deeds (boot ⟨bytes, hfits⟩ (Tallied.mk random 0)) ops
    refine ⟨_, load_of_fits hfits _, ?_⟩
    rw [hleads.random, Tallied.after_draws]
    exact Nat.zero_add _

/-- numbers that are no bytes are asked for, once with an empty mask, before and after a new start and a return that
fails -/
theorem no_number_lost_of_reset :
    let source := Cycle.mk #[-1, 300, 0x5A] 0
    let ops : List Operation := [.execute 0xC3FF, .execute 0xC000, .reset, .execute 0x00EE, .execute 0xCFF0, .tick]
    (#[] : Array UInt8).size ≤ 3584 ∧ ∃ m, load #[] source = .ok m ∧ Drawn source (m.deeds ops) ∧
      (m.deeds ops).countP Deed.asksRandom = 3 ∧ (m.after ops).random = Cycle.mk #[-1, 300, 0x5A] 3 ∧
      ((m.after ops).reg 15).toNat = 0x50 := by
  intro source ops
  obtain ⟨⟨m, hm, -, hdrawn, hrandom⟩, -⟩ := no_number_lost #[] source ops (by decide)
  refine ⟨by decide, m, hm, hdrawn, ?_⟩
  obtain rfl := Except.ok.inj ((load_of_fits (by decide) source).symm.trans hm)
  exact ⟨rfl, hrandom, by decide⟩

end Machine

end ChipEight
