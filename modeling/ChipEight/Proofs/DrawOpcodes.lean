/-
What an opcode that draws does to the picture. Its sprite has at most fifteen rows, and the screen is wider and higher
than that, so that each pixel is covered once or not at all: those that are covered are toggled, and to collide is the
same as to turn a pixel off (`drawing_hit_iff`). The registers that place the sprite are read before the flag is
written, so that either of them may be the flag (`draw_opcode_toggles`).
-/
import ChipEight.Proofs.Deeds
import ChipEight.Proofs.Overdrawing

namespace ChipEight

open Grid (cell)

/-! ## Sprites in memory -/

namespace Memory

theorem length_block (m : Memory) (i n : ℕ) : (m.block i n).length = n := by
  unfold Memory.block
  rw [List.length_map, List.length_range]

theorem getD_block (m : Memory) (i : ℕ) {n r : ℕ} (hr : r < n) : (m.block i n).getD r 0 = m[(i + r) % 4096] := by
  have hr' : r < (m.block i n).length := (m.length_block i n).symm ▸ hr
  rw [List.getD_eq_getElem _ _ hr']
  simp only [Memory.block, List.getElem_map, List.getElem_range]
  rfl

end Memory

/-! ## Pixels of the picture -/

/-- a pixel is found in its column of its row -/
theorem Screen.getElem?_rows {h w : ℕ} (s : Screen h w) (a : Fin w) (b : Fin h) :
    s.rows[(b : ℕ)]?.bind (·[(a : ℕ)]?) = some (s.pixels.get (cell a b)) := by
  unfold rows Grid.rows
  simp only [Fin.getElem_fin, List.length_map, List.length_finRange, Fin.is_lt, getElem?_pos, List.getElem_map,
    List.getElem_finRange, Fin.cast_mk, Fin.eta, Option.bind_some]
  rfl

namespace Machine

variable {σ : Type}

/-- the pixel in column `a` of row `b` of the picture, if there is one -/
def pixel? (m : Machine σ) (a b : ℕ) : Option Bool := m.picture[b]?.bind (·[a]?)

theorem pixel?_eq (m : Machine σ) (a : Fin 64) (b : Fin 32) : m.pixel? a b = some (m.screen.pixels.get (cell a b)) :=
  m.screen.getElem?_rows a b

/-! ## Pixels under a sprite -/

/-- does a set bit of the `n` bytes in memory from the index on land in column `a` of row `b`, if they are drawn where
the registers `x` and `y` say -/
def Stamps (m : Machine σ) (x y : Reg) (n a b : ℕ) : Prop :=
  ∃ r < n, ∃ c < 8, a = ((m.reg x).toNat + c) % 64 ∧ b = ((m.reg y).toNat + r) % 32 ∧
    m.memory[(m.index + r) % 4096].toNat.testBit (7 - c) = true

theorem covers_block_iff (m : Machine σ) (x y : Reg) (n a b : ℕ) :
    Screen.Covers 32 64 (m.reg x).toNat (m.reg y).toNat (m.memory.block m.index n) a b ↔ m.Stamps x y n a b := by
  unfold Screen.Covers Stamps
  rw [Memory.length_block]
  refine exists_congr fun r => and_congr_right fun hr => exists_congr fun c => and_congr_right fun _ => ?_
  rw [Memory.getD_block _ _ hr]
  constructor
  · rintro ⟨hlit, hx, hy⟩
    exact ⟨by omega, by omega, hlit⟩
  · rintro ⟨hx, hy, hlit⟩
    exact ⟨hlit, by omega, by omega⟩

/-- a sprite of less than sixteen rows hits no pixel twice -/
theorem hits_block_le_one (m : Machine σ) (x y : Reg) {n : ℕ} (hn : n < 16) (a b : ℕ) :
    Screen.hits 32 64 (m.reg x).toNat (m.reg y).toNat (m.memory.block m.index n) a b ≤ 1 := by
  apply Screen.hits_le_one
  · rw [Memory.length_block]
    omega
  · decide

/-! ## Drawing them -/

/-- an opcode that draws toggles the pixels that its sprite in memory is over -/
theorem drawing_pixel_ne_iff (m : Machine σ) (x y : Reg) {n : ℕ} (hn : n < 16) (a : Fin 64) (b : Fin 32) :
    (m.drawing x y n).1.pixels.get (cell a b) ≠ m.screen.pixels.get (cell a b) ↔ m.Stamps x y n a b := by
  have honce := m.hits_block_le_one x y hn
  exact (Screen.draw_pixel_ne_iff (by decide) (by decide) m.screen honce a b).trans (m.covers_block_iff x y n a b)

/-- since no pixel is hit twice, to collide is to turn a pixel off -/
theorem drawing_hit_iff (m : Machine σ) (x y : Reg) {n : ℕ} (hn : n < 16) :
    (m.drawing x y n).2 = true ↔ ∃ (a : Fin 64) (b : Fin 32), m.screen.pixels.get (cell a b) = true ∧
      (m.drawing x y n).1.pixels.get (cell a b) = false := by
  have honce := m.hits_block_le_one x y hn
  refine (Screen.draw_hit_iff (by decide) (by decide) m.screen honce).trans ?_
  refine exists_congr fun a => exists_congr fun b => ?_
  rw [and_comm]
  refine and_congr_right fun hon => ?_
  rw [covers_block_iff, ← m.drawing_pixel_ne_iff x y hn, hon, ne_eq, Bool.not_eq_true]

/-- what a draw of `n` rows at the registers `x` and `y` leaves of a machine -/
structure Drew (m after : Machine σ) (x y : Reg) (n : ℕ) : Prop where
  /-- the pixels under a set bit are toggled, and no others -/
  pixel : ∀ a < 64, ∀ b < 32, ∃ old new, m.pixel? a b = some old ∧ after.pixel? a b = some new ∧
    (new ≠ old ↔ m.Stamps x y n a b)
  /-- no two bits of the sprite are over one pixel -/
  once : ∀ r < n, ∀ r' < n, ∀ c < 8, ∀ c' < 8, ((m.reg x).toNat + c) % 64 = ((m.reg x).toNat + c') % 64 →
    ((m.reg y).toNat + r) % 32 = ((m.reg y).toNat + r') % 32 → r = r' ∧ c = c'
  flag : after.reg 15 = 0 ∨ after.reg 15 = 1
  /-- the flag tells whether a pixel went off -/
  collision : after.reg 15 = 1 ↔ ∃ a < 64, ∃ b < 32, m.pixel? a b = some true ∧
    after.pixel? a b = some false
  regs : ∀ k ≠ 15, after.reg k = m.reg k
  index : after.index = m.index
  memory : after.memory = m.memory

variable {m after : Machine σ} {x y : Reg} {n : ℕ}

theorem drew_of_drawing (hn : n < 16) (hscreen : after.screen = (m.drawing x y n).1)
    (hflag : after.reg 15 = if (m.drawing x y n).2 then 1 else 0) (hregs : ∀ k ≠ 15, after.reg k = m.reg k)
    (hindex : after.index = m.index) (hmemory : after.memory = m.memory) : m.Drew after x y n where
  pixel a ha b hb := by
    refine ⟨_, _, m.pixel?_eq ⟨a, ha⟩ ⟨b, hb⟩, after.pixel?_eq ⟨a, ha⟩ ⟨b, hb⟩, ?_⟩
    rw [hscreen]
    exact m.drawing_pixel_ne_iff x y hn ⟨a, ha⟩ ⟨b, hb⟩
  once r hr r' hr' c hc c' hc' hx hy := by omega
  flag := by
    rw [hflag]
    split_ifs
    · exact Or.inr rfl
    · exact Or.inl rfl
  collision := by
    have hone : after.reg 15 = 1 ↔ (m.drawing x y n).2 = true := by
      rw [hflag]
      cases (m.drawing x y n).2 <;> decide
    rw [hone, m.drawing_hit_iff x y hn, ← hscreen]
    constructor
    · rintro ⟨a, b, hon, hoff⟩
      refine ⟨a, a.isLt, b, b.isLt, ?_, ?_⟩
      · rw [pixel?_eq, hon]
      · rw [pixel?_eq, hoff]
    · rintro ⟨a, ha, b, hb, hon, hoff⟩
      exact ⟨⟨a, ha⟩, ⟨b, hb⟩, Option.some.inj ((m.pixel?_eq ⟨a, ha⟩ ⟨b, hb⟩).symm.trans hon),
        Option.some.inj ((after.pixel?_eq ⟨a, ha⟩ ⟨b, hb⟩).symm.trans hoff)⟩
  regs := hregs
  index := hindex
  memory := hmemory

/-! ## Main result -/

variable [RandomSource σ]

/-- **What an opcode that draws does.** An opcode `Dxyn`, fetched or not, never fails. It toggles the pixels that are
under a set bit of the sprite in memory, each once and around both edges, and no others; it sets the flag to one if a
pixel went from on to off and to zero if none did; and it leaves the index, the memory and all other registers alone.
The registers that place the sprite are read first, also where one of them is the flag. -/
theorem draw_opcode_toggles (m : Machine σ) {o : Operation} (x y : Reg) {n : ℕ} (hn : n < 16)
    (ho : o.opcode? m = some (0xD000 + 0x100 * x + 0x10 * y + n)) :
    (m.operate o).failure = none ∧ m.Drew (m.operate o).machine x y n := by
  obtain ⟨pc, he⟩ := operate_of_encodes ho (Instruction.encodes_draw x y hn)
  rw [he, perform_draw]
  refine ⟨rfl, drew_of_drawing hn rfl (reg_setReg_self _ _ _) (fun k hk => ?_) rfl rfl⟩
  exact reg_setReg_of_ne _ hk _

/-- a machine with one pixel on, and the column and row of that pixel, around the lower edge, in the flag -/
def marked : Machine Cycle :=
  (boot ⟨#[], Nat.zero_le _⟩ (Cycle.mk #[] 0)).after [.setPixel 62 30 true, .execute 0x6F3E]

/-- the font's zero drawn over that pixel, with the flag for both its places: the collision overwrites them -/
theorem draw_opcode_toggles_of_marked :
    marked.Reachable ∧ 5 < 16 ∧ (Operation.execute 0xDFF5).opcode? marked = some 0xDFF5 ∧
      marked.Drew (marked.operate (.execute 0xDFF5)).machine 15 15 5 ∧ marked.reg 15 = 62 ∧
      (marked.operate (.execute 0xDFF5)).machine.reg 15 = 1 := by
  have hword : (Operation.execute 0xDFF5).opcode? marked = some 0xDFF5 := rfl
  have hplace : marked.reg 15 = 62 := rfl
  have hbyte : marked.memory[0] = 0xF0 := (Rom.read_image _ 0).trans rfl
  have hstamps : marked.Stamps 15 15 5 62 30 := by
    refine ⟨0, by decide, 0, by decide, ?_, ?_, ?_⟩
    · rw [hplace]
      rfl
    · rw [hplace]
      rfl
    · exact (congrArg (fun b : UInt8 => b.toNat.testBit 7) hbyte).trans rfl
  have hon : marked.pixel? 62 30 = some true :=
    (marked.pixel?_eq 62 30).trans (congrArg some (Vector.getElem_set_self _))
  obtain ⟨-, hdrew⟩ := draw_opcode_toggles marked 15 15 (by decide : 5 < 16) hword
  obtain ⟨old, new, hold, hnew, htoggled⟩ := hdrew.pixel 62 (by decide) 30 (by decide)
  obtain rfl := Option.some.inj (hold.symm.trans hon)
  have hoff : new = false := Bool.eq_false_iff.2 (htoggled.2 hstamps)
  exact ⟨⟨_, _, _, rfl⟩, by decide, hword, hdrew, hplace,
    hdrew.collision.2 ⟨62, by decide, 30, by decide, hon, hoff ▸ hnew⟩⟩

end Machine

end ChipEight
