/-
Cells of a grid of `h` rows and `w` columns, numbered row after row.
-/
namespace ChipEight.Grid

/-- the greatest number that a host counts with -/
def countBound : Nat := 0x7FFFFFFFFFFFFFFF

variable {h w : Nat}

theorem cell_lt {a b : Nat} (ha : a < w) (hb : b < h) : b * w + a < h * w :=
  calc b * w + a < b * w + w := Nat.add_lt_add_left ha _
    _ = (b + 1) * w := by rw [Nat.add_mul, Nat.one_mul]
    _ ≤ h * w := Nat.mul_le_mul_right w hb

/-- the cell in column `a` of row `b` -/
def cell (a : Fin w) (b : Fin h) : Fin (h * w) := ⟨b * w + a, cell_lt a.2 b.2⟩

/-- cells of different rows or columns are different -/
theorem cell_inj {a a' : Fin w} {b b' : Fin h} : cell a b = cell a' b' ↔ a = a' ∧ b = b' := by
  refine ⟨fun heq => ?_, fun ⟨ha, hb⟩ => by rw [ha, hb]⟩
  have hval : (b : Nat) * w + a = b' * w + a' := congrArg Fin.val heq
  have hw : 0 < w := a.pos
  have hb : (b : Nat) = b' := by
    have := congrArg (· / w) hval
    simpa [Nat.mul_add_div, Nat.mul_comm _ w, hw, Nat.div_eq_of_lt a.isLt, Nat.div_eq_of_lt a'.isLt] using this
  rw [hb] at hval
  exact ⟨Fin.ext (Nat.add_left_cancel hval), Fin.ext hb⟩

/-- every cell stands in some column of some row -/
theorem exists_cell (p : Fin (h * w)) : ∃ a b, cell a b = p := by
  have hw : 0 < w := Nat.pos_of_ne_zero fun h0 => absurd p.pos (by simp [h0])
  have hb : p / w < h := (Nat.div_lt_iff_lt_mul hw).2 p.isLt
  exact ⟨⟨p % w, Nat.mod_lt _ hw⟩, ⟨p / w, hb⟩, Fin.ext (Nat.div_add_mod' _ _)⟩

/-- what the cells hold, row by row from the top, each row from the left -/
def rows {α : Type} (cells : Vector α (h * w)) : List (List α) :=
  (List.finRange h).map fun b => (List.finRange w).map fun a => cells[cell a b]

end ChipEight.Grid
