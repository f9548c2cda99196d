/-
What drawing a sprite does to each pixel. A draw flips one pixel after the other, each as often as the sprite covers it;
so a pixel is left as the number of its flips makes it (`foldl_flip_get`), and some pixel is turned off on the way
exactly if being lit before and being flipped come to two for it (`foldl_flip_hit`), in whatever order the flips come.
How often a sprite covers a pixel is how many of its lit spots land there (`count_covered`), which is more than once
only where the screen is narrower or lower than the sprite (`hits_le_one`, `draw_counts`).
-/
import Mathlib.Tactic
import Mathlib.Data.Finset.Prod
import Mathlib.Data.List.GetD
import ChipEight.Proofs.Perform

namespace ChipEight.Screen

open Grid (cell)

variable {h w : ℕ}

/-! ## Flips -/

theorem get_set_pixels (s : Screen h w) (q p : Fin (h * w)) (lit : Bool) :
    (s.pixels.set q lit q.isLt).get p = if p = q then lit else s.pixels.get p := by
  split_ifs with hpq
  · rw [hpq]
    exact Vector.getElem_set_self _
  · exact Vector.getElem_set_ne q.isLt p.isLt fun he => hpq (Fin.ext he.symm)

theorem flip_get (s : Screen h w × Bool) (q p : Fin (h * w)) :
    (flip s q).1.pixels.get p = if p = q then !s.1.pixels.get p else s.1.pixels.get p := by
  refine (get_set_pixels s.1 q p _).trans ?_
  split_ifs with hpq
  · rw [hpq]
    rfl
  · rfl

theorem flip_get_toNat (s : Screen h w × Bool) (q p : Fin (h * w)) :
    ((flip s q).1.pixels.get p).toNat = ((s.1.pixels.get p).toNat + [q].count p) % 2 := by
  rw [flip_get]
  split_ifs with hpq
  · rw [hpq, List.count_singleton_self]
    cases s.1.pixels.get q <;> rfl
  · have hnot : [q].count p = 0 := List.count_eq_zero.2 fun hp => hpq (List.mem_singleton.1 hp)
    rw [hnot, Nat.add_zero, Nat.mod_eq_of_lt (Bool.toNat_lt _)]

/-- a pixel is left as the number of its flips makes it -/
theorem foldl_flip_get (l : List (Fin (h * w))) (s : Screen h w × Bool) (p : Fin (h * w)) :
    ((l.foldl flip s).1.pixels.get p).toNat = ((s.1.pixels.get p).toNat + l.count p) % 2 := by
  induction l generalizing s with
  | nil => rw [List.foldl_nil, List.count_nil, Nat.add_zero, Nat.mod_eq_of_lt (Bool.toNat_lt _)]
  | cons q l ih =>
    calc ((l.foldl flip (flip s q)).1.pixels.get p).toNat
        = (((s.1.pixels.get p).toNat + [q].count p) % 2 + l.count p) % 2 := by rw [ih, flip_get_toNat]
      _ = ((s.1.pixels.get p).toNat + ([q].count p + l.count p)) % 2 := by rw [Nat.mod_add_mod, Nat.add_assoc]
      _ = ((s.1.pixels.get p).toNat + (q :: l).count p) % 2 := by rw [← List.count_append, List.singleton_append]

/-- a flip that turns no pixel off lights the one it comes to -/
theorem flip_get_add_count {s : Screen h w × Bool} {q : Fin (h * w)} (hq : s.1.pixels.get q = false)
    (l : List (Fin (h * w))) (p : Fin (h * w)) :
    ((flip s q).1.pixels.get p).toNat + l.count p = (s.1.pixels.get p).toNat + (q :: l).count p := by
  have hlit : ((flip s q).1.pixels.get p).toNat = (s.1.pixels.get p).toNat + [q].count p := by
    rw [flip_get_toNat]
    apply Nat.mod_eq_of_lt
    by_cases hpq : p = q
    · rw [hpq, hq, List.count_singleton_self]
      decide
    · have hnot : [q].count p = 0 := List.count_eq_zero.2 fun hp => hpq (List.mem_singleton.1 hp)
      rw [hnot]
      exact Bool.toNat_lt _
  rw [hlit, Nat.add_assoc, ← List.count_append, List.singleton_append]

/-- flips turn a pixel off exactly if one was lit and is flipped, or is flipped twice -/
theorem foldl_flip_hit (l : List (Fin (h * w))) (s : Screen h w × Bool) :
    (l.foldl flip s).2 = true ↔ s.2 = true ∨ ∃ p, 2 ≤ (s.1.pixels.get p).toNat + l.count p := by
  induction l generalizing s with
  | nil =>
    have hone (p : Fin (h * w)) : ¬2 ≤ (s.1.pixels.get p).toNat + ([] : List (Fin (h * w))).count p := by
      have := Bool.toNat_lt (s.1.pixels.get p)
      rw [List.count_nil]
      omega
    simp only [List.foldl_nil, hone, exists_false, or_false]
  | cons q l ih =>
    have hhit : (flip s q).2 = (s.2 || s.1.pixels.get q) := rfl
    rw [List.foldl_cons, ih, hhit]
    cases hq : s.1.pixels.get q with
    | true =>
      -- this flip turns its pixel off
      have htwo : 2 ≤ (s.1.pixels.get q).toNat + (q :: l).count q := by
        rw [hq, List.count_cons_self]
        simp
        omega
      exact iff_of_true (Or.inl (Bool.or_true _)) (Or.inr ⟨q, htwo⟩)
    | false => simp only [Bool.or_false, flip_get_add_count hq]

/-! ## Spots -/

/-- how many pairs of a row `p.1` and a column `p.2` of a sprite hold a lit spot that lands in column `a` of row `b` -/
def hits (h w : ℕ) (x y : ℤ) (sprite : List UInt8) (a b : ℕ) : ℕ :=
  ((Finset.range sprite.length ×ˢ Finset.range 8).filter fun p =>
    (sprite.getD p.1 0).toNat.testBit (7 - p.2) = true ∧ (x + p.2) % w = a ∧ (y + p.1) % h = b).card

/-- the lit spots are those of all pairs of a row and a column that are lit -/
theorem spots_eq_filter (sprite : List UInt8) :
    spots sprite =
      ((List.range sprite.length).product (List.range 8)).filter fun p => lit (sprite.getD p.1 0) p.2 := by
  have hrows : sprite.zipIdx = (List.range sprite.length).map fun r => (sprite.getD r 0, r) := by
    apply List.ext_getElem
    · simp
    · intro r hr hr'
      simp at hr
      simp [hr]
  have hpairs : (List.range sprite.length).product (List.range 8) =
      (List.range sprite.length).flatMap fun r => (List.range 8).map (Prod.mk r) := rfl
  unfold spots
  rw [hrows, hpairs, List.flatMap_map, List.filter_flatMap]
  simp only [List.filter_map]
  rfl

theorem countP_spots (x y : ℤ) (sprite : List UInt8) (a b : ℕ) :
    ((spots sprite).countP fun p => (x + p.2) % w = a ∧ (y + p.1) % h = b) = hits h w x y sprite a b := by
  have hnodup : ((List.range sprite.length).product (List.range 8)).Nodup :=
    List.nodup_range.product List.nodup_range
  rw [List.countP_eq_length_filter, spots_eq_filter, List.filter_filter,
    ← List.toFinset_card_of_nodup (hnodup.filter _)]
  unfold hits
  congr 1
  ext ⟨r, c⟩
  simp only [List.mem_toFinset, List.mem_filter, List.pair_mem_product, List.mem_range, Finset.mem_filter,
    Finset.mem_product, Finset.mem_range, Bool.and_eq_true, decide_eq_true_eq, lit]
  tauto

/-- a position taken around the edges lands on the pixel that its remainder names -/
theorem wrap_eq_iff {n : ℕ} (hn : 0 < n) (i : ℤ) (a : Fin n) : wrap hn i = a ↔ i % n = (a : ℕ) := by
  have hnonneg := Int.emod_nonneg i (b := n) (by omega)
  rw [Fin.ext_iff]
  unfold wrap
  simp only
  omega

/-- a sprite covers a pixel as often as it has lit spots that land there -/
theorem count_covered (hh : 0 < h) (hw : 0 < w) (x y : ℤ) (sprite : List UInt8) (a : Fin w) (b : Fin h) :
    (covered hh hw x y sprite).count (cell a b) = hits h w x y sprite a b := by
  rw [← countP_spots]
  unfold covered
  rw [List.count_eq_countP, List.countP_map]
  congr 1
  funext p
  rw [Function.comp_apply, Bool.eq_iff_iff, beq_iff_eq, decide_eq_true_iff, Grid.cell_inj, wrap_eq_iff, wrap_eq_iff]

/-! ## Covered pixels -/

/-- does a lit spot of the sprite land in column `a` of row `b` -/
def Covers (h w : ℕ) (x y : ℤ) (sprite : List UInt8) (a b : ℕ) : Prop :=
  ∃ r < sprite.length, ∃ c < 8, (sprite.getD r 0).toNat.testBit (7 - c) = true ∧ (x + c) % w = a ∧ (y + r) % h = b

theorem hits_pos_iff {x y : ℤ} {sprite : List UInt8} {a b : ℕ} :
    0 < hits h w x y sprite a b ↔ Covers h w x y sprite a b := by
  unfold hits Covers
  rw [Finset.card_pos]
  constructor
  · rintro ⟨p, hp⟩
    simp only [Finset.mem_filter, Finset.mem_product, Finset.mem_range] at hp
    exact ⟨p.1, hp.1.1, p.2, hp.1.2, hp.2⟩
  · rintro ⟨r, hr, c, hc, hlands⟩
    refine ⟨(r, c), ?_⟩
    simp only [Finset.mem_filter, Finset.mem_product, Finset.mem_range]
    exact ⟨⟨hr, hc⟩, hlands⟩

/-- two steps of less than the way around that end at one place are the same -/
theorem eq_of_add_emod_eq {n j k : ℕ} {i : ℤ} (hj : j < n) (hk : k < n) (hjk : (i + j) % n = (i + k) % n) : j = k := by
  have hmod : (j : ℤ) ≡ k [ZMOD n] := Int.ModEq.add_left_cancel' i hjk
  exact (Int.natCast_modEq_iff.1 hmod).eq_of_lt_of_lt hj hk

/-- a sprite that is no larger than the screen hits no pixel twice -/
theorem hits_le_one {sprite : List UInt8} (hlength : sprite.length ≤ h) (hw : 8 ≤ w) (x y : ℤ) (a b : ℕ) :
    hits h w x y sprite a b ≤ 1 := by
  unfold hits
  rw [Finset.card_le_one]
  rintro ⟨r, c⟩ hp ⟨r', c'⟩ hp'
  simp only [Finset.mem_filter, Finset.mem_product, Finset.mem_range] at hp hp'
  obtain ⟨⟨hr, hc⟩, -, hx, hy⟩ := hp
  obtain ⟨⟨hr', hc'⟩, -, hx', hy'⟩ := hp'
  have hrow : r = r' := eq_of_add_emod_eq (i := y) (by omega) (by omega) (hy.trans hy'.symm)
  have hcolumn : c = c' := eq_of_add_emod_eq (i := x) (by omega) (by omega) (hx.trans hx'.symm)
  rw [hrow, hcolumn]

/-- every lit spot lands on some pixel, so a sprite covers one exactly if it has a set bit -/
theorem exists_covers_iff (hh : 0 < h) (hw : 0 < w) (x y : ℤ) (sprite : List UInt8) :
    (∃ (a : Fin w) (b : Fin h), Covers h w x y sprite a b) ↔
      ∃ row ∈ sprite, ∃ k < 8, row.toNat.testBit k = true := by
  constructor
  · rintro ⟨a, b, r, hr, c, hc, hlit, -⟩
    rw [List.getD_eq_getElem _ _ hr] at hlit
    exact ⟨_, List.getElem_mem hr, 7 - c, by omega, hlit⟩
  · rintro ⟨row, hrow, k, hk, hlit⟩
    obtain ⟨r, hr, rfl⟩ := List.getElem_of_mem hrow
    refine ⟨wrap hw (x + (7 - k : ℕ)), wrap hh (y + r), r, hr, 7 - k, by omega, ?_,
      (wrap_eq_iff hw _ _).1 rfl, (wrap_eq_iff hh _ _).1 rfl⟩
    rw [List.getD_eq_getElem _ _ hr, show 7 - (7 - k) = k by omega]
    exact hlit

/-! ## Draws -/

/-- a draw is the flips of the cells that its sprite covers -/
theorem draw_eq_foldl (hh : 0 < h) (hw : 0 < w) (s : Screen h w) (x y : ℤ) (sprite : List UInt8) :
    s.draw x y sprite = (covered hh hw x y sprite).foldl flip (s, false) := by
  unfold draw
  rw [dif_pos ⟨hh, hw⟩]

theorem get_of_lt (s : Screen h w) {a b : ℕ} (ha : a < w) (hb : b < h) :
    s.get a b = .ok (s.pixels.get (cell ⟨a, ha⟩ ⟨b, hb⟩)) := by
  have hx : 0 ≤ (a : ℤ) ∧ (a : ℤ) < w := by omega
  have hy : 0 ≤ (b : ℤ) ∧ (b : ℤ) < h := by omega
  unfold get cellAt
  rw [dif_pos hx, dif_pos hy]
  rfl

/-- a draw leaves a pixel as its light before and the hits on it make it -/
theorem draw_pixel (hh : 0 < h) (hw : 0 < w) (s : Screen h w) (x y : ℤ) (sprite : List UInt8) (a : Fin w) (b : Fin h) :
    ((s.draw x y sprite).1.pixels.get (cell a b)).toNat =
      ((s.pixels.get (cell a b)).toNat + hits h w x y sprite a b) % 2 := by
  rw [draw_eq_foldl hh hw, foldl_flip_get, count_covered]

/-- a draw collides if some pixel is lit and hit, or hit twice -/
theorem draw_hit (hh : 0 < h) (hw : 0 < w) (s : Screen h w) (x y : ℤ) (sprite : List UInt8) :
    (s.draw x y sprite).2 = true ↔
      ∃ (a : Fin w) (b : Fin h), 2 ≤ (s.pixels.get (cell a b)).toNat + hits h w x y sprite a b := by
  rw [draw_eq_foldl hh hw, foldl_flip_hit]
  constructor
  · rintro (hno | ⟨p, hp⟩)
    · cases hno
    · obtain ⟨a, b, rfl⟩ := Grid.exists_cell p
      rw [count_covered] at hp
      exact ⟨a, b, hp⟩
  · rintro ⟨a, b, htwo⟩
    rw [← count_covered hh hw] at htwo
    exact Or.inr ⟨cell a b, htwo⟩

/-- the screen `t` is what a draw on `s` leaves, and `hit` what it reports -/
structure Draws (s : Screen h w) (x y : ℤ) (sprite : List UInt8) (t : Screen h w) (hit : Bool) : Prop where
  /-- a pixel is flipped as often as it is hit -/
  pixel : ∀ a < w, ∀ b < h, ∃ old new, s.get a b = .ok old ∧ t.get a b = .ok new ∧
    new.toNat = (old.toNat + hits h w x y sprite a b) % 2
  /-- a collision is a pixel lit and hit, or hit twice -/
  collision : hit = true ↔ ∃ a < w, ∃ b < h, ∃ old, s.get a b = .ok old ∧ 2 ≤ old.toNat + hits h w x y sprite a b
  /-- the screen keeps its size -/
  size : t.rows.length = h ∧ ∀ row ∈ t.rows, row.length = w
  length : t.pixels.toList.length = s.pixels.toList.length

/-- **Drawing counts.** On a screen with a row and a column, a sprite of any length can be drawn at any position;
each pixel is left as its light before and the hits on it make it, modulo two, and there is a collision exactly if
for some pixel these come to two. -/
theorem draw_counts (hh : 0 < h) (hw : 0 < w) (s : Screen h w) (x y : ℤ) (sprite : List UInt8) :
    ∃ t hit, s.draw? x y sprite = .ok (t, hit) ∧ s.Draws x y sprite t hit := by
  refine ⟨_, _, draw?_eq hh hw s x y sprite, ?_⟩
  exact
    { pixel := by
        intro a ha b hb
        exact ⟨_, _, get_of_lt s ha hb, get_of_lt _ ha hb, draw_pixel hh hw s x y sprite ⟨a, ha⟩ ⟨b, hb⟩⟩
      collision := by
        refine (draw_hit hh hw s x y sprite).trans ⟨?_, ?_⟩
        · rintro ⟨a, b, htwo⟩
          exact ⟨a, a.isLt, b, b.isLt, _, get_of_lt s a.isLt b.isLt, htwo⟩
        · rintro ⟨a, ha, b, hb, old, hold, htwo⟩
          rw [get_of_lt s ha hb] at hold
          cases hold
          exact ⟨⟨a, ha⟩, ⟨b, hb⟩, htwo⟩
      size := rows_size _
      length := by rw [Vector.length_toList, Vector.length_toList] }

/-- a sprite wider and taller than its screen, put far beyond the edges: one pixel is hit six times -/
theorem draw_counts_of_narrow :
    0 < 2 ∧ 0 < 3 ∧ hits 2 3 (-5) 100000000000000000001 [0xFF, 0x81, 0xFF] 1 1 = 6 ∧
      ∃ t, (blank : Screen 2 3).draw? (-5) 100000000000000000001 [0xFF, 0x81, 0xFF] = .ok (t, true) ∧
        t.get 1 1 = .ok false := by
  have hhits : hits 2 3 (-5) 100000000000000000001 [0xFF, 0x81, 0xFF] 1 1 = 6 := by decide
  have hold : (blank : Screen 2 3).get 1 1 = .ok false := by decide
  obtain ⟨t, hit, hdraw, hcount⟩ := draw_counts (by decide : 0 < 2) (by decide : 0 < 3) blank (-5)
    100000000000000000001 [0xFF, 0x81, 0xFF]
  have hhit : hit = true := hcount.collision.2 ⟨1, by decide, 1, by decide, false, hold, by rw [hhits]; decide⟩
  obtain ⟨old, new, hget, hnew, hcounted⟩ := hcount.pixel 1 (by decide) 1 (by decide)
  rw [hhit] at hdraw
  refine ⟨by decide, by decide, hhits, t, hdraw, ?_⟩
  cases hget.symm.trans hold
  rw [hhits] at hcounted
  cases new with
  | false => exact hnew
  | true => cases hcounted

end ChipEight.Screen
