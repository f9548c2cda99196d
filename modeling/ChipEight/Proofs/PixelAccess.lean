/-
The ways to a pixel of a screen: the rows that are shown, the pixel at a position, and the cells that are drawn on. The
rows are slices of the pixels, which have every column of every row in a place of its own, so that a position on the
screen means one pixel for all of them, and a position that is not on it means none (`Agrees`). A call does to each
pixel what it says for its column and row, whatever the others are (`call_get`); so after any calls a pixel is as the
calls leave it one after the other (`pixels_agree`).
-/
import ChipEight.Proofs.DrawOpcodes

namespace ChipEight.Screen

open Grid (cell)

variable {h w : ℕ} {x y : ℤ} {e : OffScreen}

/-! ## Positions -/

/-- what is wrong with a position that is not on the screen: its column, or its row if the column is on it -/
inductive Off (h w : ℕ) (x y : ℤ) : OffScreen → Prop
  | column (hx : ¬(0 ≤ x ∧ x < w)) : Off h w x y (.column x)
  | row (hx : 0 ≤ x ∧ x < w) (hy : ¬(0 ≤ y ∧ y < h)) : Off h w x y (.row y)

theorem exists_off_iff : (∃ e, Off h w x y e) ↔ ¬((0 ≤ x ∧ x < w) ∧ 0 ≤ y ∧ y < h) := by
  constructor
  · rintro ⟨e, hx | ⟨hx, hy⟩⟩ ⟨hx', hy'⟩
    · exact hx hx'
    · exact hy hy'
  · intro hoff
    by_cases hx : 0 ≤ x ∧ x < w
    · exact ⟨_, .row hx fun hy => hoff ⟨hx, hy⟩⟩
    · exact ⟨_, .column hx⟩

theorem cellAt_eq_error_iff : (cellAt x y : Except OffScreen (Fin (h * w))) = .error e ↔ Off h w x y e := by
  unfold cellAt
  split_ifs with hx hy
  · have hon : ¬∃ e, Off h w x y e := fun hoff => exists_off_iff.1 hoff ⟨hx, hy⟩
    exact iff_of_false nofun fun hoff => hon ⟨e, hoff⟩
  · constructor
    · rintro ⟨⟩
      exact .row hx hy
    · rintro (hx' | -)
      · exact absurd hx hx'
      · rfl
  · constructor
    · rintro ⟨⟩
      exact .column hx
    · rintro (- | ⟨hx', -⟩)
      · rfl
      · exact absurd hx' hx

theorem get_eq_error_iff (s : Screen h w) : s.get x y = .error e ↔ Off h w x y e := by
  rw [← cellAt_eq_error_iff, get]
  cases (cellAt x y : Except OffScreen (Fin (h * w))) <;> simp [Except.map]

theorem set_eq_error_iff (s : Screen h w) (lit : Bool) : s.set x y lit = .error e ↔ Off h w x y e := by
  rw [← cellAt_eq_error_iff, set]
  cases (cellAt x y : Except OffScreen (Fin (h * w))) <;> simp [Except.map]

theorem set_of_lt (s : Screen h w) {a b : ℕ} (ha : a < w) (hb : b < h) (lit : Bool) :
    s.set a b lit = .ok ⟨s.pixels.set (cell ⟨a, ha⟩ ⟨b, hb⟩) lit⟩ := by
  have hx : 0 ≤ (a : ℤ) ∧ (a : ℤ) < w := by omega
  have hy : 0 ≤ (b : ℤ) ∧ (b : ℤ) < h := by omega
  unfold set cellAt
  rw [dif_pos hx, dif_pos hy]
  rfl

/-! ## Rows -/

/-- the entry in column `a` of row `b` of what is shown, if there is one -/
def pixel? (s : Screen h w) (a b : ℕ) : Option Bool := s.rows[b]?.bind (·[a]?)

theorem pixel?_of_lt (s : Screen h w) {a b : ℕ} (ha : a < w) (hb : b < h) :
    s.pixel? a b = some (s.pixels.get (cell ⟨a, ha⟩ ⟨b, hb⟩)) :=
  s.getElem?_rows ⟨a, ha⟩ ⟨b, hb⟩

theorem pixel?_eq_none (s : Screen h w) {a b : ℕ} (hoff : ¬(a < w ∧ b < h)) : s.pixel? a b = none := by
  obtain ⟨hrows, hrow⟩ := s.rows_size
  by_cases hb : b < h
  · have hb' : b < s.rows.length := hrows.symm ▸ hb
    have ha : w ≤ a := not_lt.1 fun ha => hoff ⟨ha, hb⟩
    rw [pixel?, List.getElem?_eq_getElem hb', Option.bind_some, List.getElem?_eq_none]
    rw [hrow _ (List.getElem_mem hb')]
    exact ha
  · rw [pixel?, List.getElem?_eq_none (by omega), Option.bind_none]

/-- a row is the slice of the pixels from its number times the width on -/
theorem getElem?_rows_slice (s : Screen h w) {b : ℕ} (hb : b < h) :
    s.rows[b]? = some ((s.pixels.toList.drop (b * w)).take w) := by
  have hfits : (b + 1) * w ≤ h * w := Nat.mul_le_mul_right w hb
  have hrow : s.rows[b]? = some ((List.finRange w).map fun a => s.pixels[cell a ⟨b, hb⟩]) := by
    simp [rows, Grid.rows, hb]
  rw [hrow, Option.some_inj]
  apply List.ext_getElem
  · simp only [List.length_map, List.length_finRange, List.length_take, List.length_drop, Vector.length_toList]
    rw [Nat.add_mul] at hfits
    omega
  · intro a ha ha'
    simp only [List.getElem_map, List.getElem_finRange, List.getElem_take, List.getElem_drop, Vector.getElem_toList]
    rfl

/-! ## Calls -/

/-- a call that may change the screen -/
inductive Call where
  | set (x y : ℤ) (lit : Bool)
  | draw (x y : ℤ) (sprite : List UInt8)
  | clear

/-- the screen after a call; one that fails leaves it as it is -/
def call (s : Screen h w) : Call → Screen h w
  | .set x y lit => (s.set x y lit).toOption.getD s
  | .draw x y sprite => ((s.draw? x y sprite).map Prod.fst).toOption.getD s
  | .clear => blank

/-- the screen after calls -/
def calls (s : Screen h w) (cs : List Call) : Screen h w := cs.foldl call s

/-- what a call makes of the light in column `a` of row `b` -/
def Call.light (h w a b : ℕ) (on : Bool) : Call → Bool
  | .set x y lit => if x = a ∧ y = b then lit else on
  | .draw x y sprite => on ^^ hits h w x y sprite a b % 2 == 1
  | .clear => false

theorem call_set_of_off (s : Screen h w) (hoff : Off h w x y e) (lit : Bool) : s.call (.set x y lit) = s := by
  rw [call, (s.set_eq_error_iff lit).2 hoff]
  rfl

/-- a call does to each pixel what it says for its column and row -/
theorem call_get (s : Screen h w) (c : Call) (a : Fin w) (b : Fin h) :
    (s.call c).pixels.get (cell a b) = c.light h w a b (s.pixels.get (cell a b)) := by
  cases c with
  | clear => exact Vector.getElem_replicate _
  | draw x y sprite =>
    have hbool (new old : Bool) (k : ℕ) (hk : new.toNat = (old.toNat + k) % 2) : new = (old ^^ k % 2 == 1) := by
      cases new <;> cases old <;> simp at hk ⊢ <;> omega
    rw [call, draw?_eq b.pos a.pos]
    exact hbool _ _ _ (draw_pixel b.pos a.pos s x y sprite a b)
  | set x y lit =>
    by_cases hon : (0 ≤ x ∧ x < w) ∧ 0 ≤ y ∧ y < h
    · lift x to ℕ using hon.1.1
      lift y to ℕ using hon.2.1
      have hx : x < w := by omega
      have hy : y < h := by omega
      have hsame : cell a b = cell ⟨x, hx⟩ ⟨y, hy⟩ ↔ (x : ℤ) = (a : ℕ) ∧ (y : ℤ) = (b : ℕ) := by
        rw [Grid.cell_inj]
        simp only [Fin.ext_iff]
        omega
      rw [call, set_of_lt s hx hy]
      refine (get_set_pixels s _ _ lit).trans ?_
      simp only [hsame, Call.light]
    · obtain ⟨e, hoff⟩ := exists_off_iff.2 hon
      rw [call_set_of_off s hoff, Call.light, if_neg]
      rintro ⟨rfl, rfl⟩
      exact hon (by omega)

/-- by induction on the calls -/
theorem calls_get (s : Screen h w) (cs : List Call) (a : Fin w) (b : Fin h) :
    (s.calls cs).pixels.get (cell a b) = cs.foldl (Call.light h w a b) (s.pixels.get (cell a b)) := by
  induction cs generalizing s with
  | nil => rfl
  | cons c cs ih => exact (ih (s.call c)).trans (by rw [call_get, List.foldl_cons])

/-! ## Main result -/

/-- the ways to a pixel of the screen agree -/
structure Agrees (s : Screen h w) : Prop where
  /-- what is shown has a row for each of the screen's, with an entry for each column -/
  size : s.rows.length = h ∧ ∀ row ∈ s.rows, row.length = w
  /-- every entry is a zero or a one -/
  digit : ∀ row ∈ s.rows, ∀ on ∈ row, on.toNat = 0 ∨ on.toNat = 1
  /-- the rows are the pixels, one after the other -/
  slice : ∀ b < h, s.rows[b]? = some ((s.pixels.toList.drop (b * w)).take w)
  /-- the pixel at a position on the screen is the entry in its column and row -/
  get : ∀ a < w, ∀ b < h, ∃ on, s.pixel? a b = some on ∧ s.get a b = .ok on
  /-- to set it is to change that entry and no other -/
  set : ∀ a < w, ∀ b < h, ∀ lit, ∃ t, s.set a b lit = .ok t ∧
    ∀ a' b', t.pixel? a' b' = if a' = a ∧ b' = b then some lit else s.pixel? a' b'
  /-- no other position has a pixel -/
  off : ∀ x y e, (s.get x y = .error e ↔ Off h w x y e) ∧ ∀ lit, s.set x y lit = .error e ↔ Off h w x y e
  /-- to set one there changes nothing -/
  kept : ∀ x y e lit, Off h w x y e → s.call (.set x y lit) = s

theorem agrees (s : Screen h w) : s.Agrees where
  size := s.rows_size
  digit _ _ on _ := by cases on <;> simp
  slice b hb := s.getElem?_rows_slice hb
  get a ha b hb := ⟨_, s.pixel?_of_lt ha hb, s.get_of_lt ha hb⟩
  set a ha b hb lit := by
    refine ⟨_, s.set_of_lt ha hb lit, fun a' b' => ?_⟩
    by_cases hon : a' < w ∧ b' < h
    · have hsame : cell ⟨a', hon.1⟩ ⟨b', hon.2⟩ = cell ⟨a, ha⟩ ⟨b, hb⟩ ↔ a' = a ∧ b' = b := by
        rw [Grid.cell_inj, Fin.mk.injEq, Fin.mk.injEq]
      rw [pixel?_of_lt _ hon.1 hon.2, pixel?_of_lt s hon.1 hon.2, get_set_pixels]
      simp only [hsame, apply_ite some]
    · have hne : ¬(a' = a ∧ b' = b) := fun ⟨ha', hb'⟩ => hon ⟨ha' ▸ ha, hb' ▸ hb⟩
      rw [pixel?_eq_none _ hon, pixel?_eq_none _ hon, if_neg hne]
  off _ _ _ := ⟨s.get_eq_error_iff, fun lit => s.set_eq_error_iff lit⟩
  kept _ _ _ lit hoff := s.call_set_of_off hoff lit

/-- **The ways to a pixel agree.** After any calls on a screen of any size, its rows are as many and as long as the
screen is high and wide, an entry of theirs is the pixel at its position, to set that one changes this entry alone, and
a position that is not on the screen is refused, for its column first, and stands for no pixel. Each entry is what the
calls made of it one after the other. -/
theorem pixels_agree (s : Screen h w) (cs : List Call) :
    (s.calls cs).Agrees ∧
      ∀ a b, (s.calls cs).pixel? a b = (s.pixel? a b).map fun on => cs.foldl (Call.light h w a b) on := by
  refine ⟨agrees _, fun a b => ?_⟩
  by_cases hon : a < w ∧ b < h
  · rw [pixel?_of_lt _ hon.1 hon.2, pixel?_of_lt s hon.1 hon.2, calls_get, Option.map_some]
  · rw [pixel?_eq_none _ hon, pixel?_eq_none _ hon, Option.map_none]

end ChipEight.Screen
