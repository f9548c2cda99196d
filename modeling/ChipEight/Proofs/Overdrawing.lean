/-
Draws over one another. A draw is so many flips, and flips leave the same pixels and turn one off or none in whatever
order they are made (`foldl_flip_perm`). So draws can be made in any order, and a sprite can be cut between two rows and
its parts be drawn one after the other (`draws_reorder`); the order decides only which of the draws reports a collision.
A sprite that is drawn twice flips each pixel an even number of times, so that the second draw takes the first one back
(`draw_twice`). Where the screen is no smaller than the sprite, each covered pixel is hit just once: the first draw
collides on those that were on, the second on those that were off.
-/
import ChipEight.Proofs.Sprites

namespace ChipEight.Screen

open Grid (cell)

variable {h w : ℕ}

/-! ## Flips in any order -/

theorem ext_get {s t : Screen h w} (hst : ∀ p, (s.pixels.get p).toNat = (t.pixels.get p).toNat) : s = t := by
  have hbool : ∀ b b' : Bool, b.toNat = b'.toNat → b = b' := by decide
  obtain ⟨pixels⟩ := s
  obtain ⟨pixels'⟩ := t
  congr
  apply Vector.ext
  intro i hi
  exact hbool _ _ (hst ⟨i, hi⟩)

theorem ext_cell {s t : Screen h w}
    (hst : ∀ a b, (s.pixels.get (cell a b)).toNat = (t.pixels.get (cell a b)).toNat) : s = t := by
  apply ext_get
  intro p
  obtain ⟨a, b, rfl⟩ := Grid.exists_cell p
  exact hst a b

/-- the pixels and the collision hang on how often each pixel is flipped, and on nothing else -/
theorem foldl_flip_perm {l l' : List (Fin (h * w))} (hp : l.Perm l') (s : Screen h w × Bool) :
    l.foldl flip s = l'.foldl flip s := by
  have hpixels : (l.foldl flip s).1 = (l'.foldl flip s).1 := by
    apply ext_get
    intro p
    rw [foldl_flip_get, foldl_flip_get, hp.count_eq]
  have hhit : (l.foldl flip s).2 = (l'.foldl flip s).2 := by
    rw [Bool.eq_iff_iff, foldl_flip_hit, foldl_flip_hit]
    simp only [hp.count_eq]
  exact Prod.ext hpixels hhit

/-- what was reported before is still reported, and has no part in what the flips do -/
theorem foldl_flip_mk (l : List (Fin (h * w))) (s : Screen h w) (hit : Bool) :
    l.foldl flip (s, hit) = ((l.foldl flip (s, false)).1, hit || (l.foldl flip (s, false)).2) := by
  induction l generalizing s hit with
  | nil => rw [List.foldl_nil, List.foldl_nil, Bool.or_false]
  | cons q l ih =>
    have hflip (b : Bool) : flip (s, b) q = ((flip (s, false) q).1, b || (flip (s, false) q).2) := by
      simp only [flip, Bool.false_or]
    rw [List.foldl_cons, List.foldl_cons, hflip hit, ih, ih _ (flip (s, false) q).2, Bool.or_assoc]

/-! ## Draws in any order -/

/-- a sprite and the place where it is drawn -/
structure Placed where
  x : ℤ
  y : ℤ
  sprite : List UInt8
  deriving DecidableEq, Repr

/-- the cells that a sprite covers in its place -/
def Placed.cells (hh : 0 < h) (hw : 0 < w) (d : Placed) : List (Fin (h * w)) := covered hh hw d.x d.y d.sprite

/-- draw one sprite after the other: the screen after all of them, and what each draw has reported -/
def drawEach? (s : Screen h w) : List Placed → Except NoRoom (Screen h w × List Bool)
  | [] => .ok (s, [])
  | d :: ds => do
    let (t, hit) ← s.draw? d.x d.y d.sprite
    let (u, hits) ← t.drawEach? ds
    return (u, hit :: hits)

/-- draws one after the other are the flips of all of them, and some draw reports what the flips together report -/
theorem drawEach?_eq (hh : 0 < h) (hw : 0 < w) (s : Screen h w) (ds : List Placed) :
    ∃ hits, s.drawEach? ds = .ok (((ds.flatMap (Placed.cells hh hw)).foldl flip (s, false)).1, hits) ∧
      hits.length = ds.length ∧ hits.or = ((ds.flatMap (Placed.cells hh hw)).foldl flip (s, false)).2 := by
  induction ds generalizing s with
  | nil => exact ⟨[], rfl, rfl, rfl⟩
  | cons d ds ih =>
    obtain ⟨hits, hrest, hlength, hor⟩ := ih (s.draw d.x d.y d.sprite).1
    have hfirst : (d.cells hh hw).foldl flip (s, false) = s.draw d.x d.y d.sprite :=
      (draw_eq_foldl hh hw s d.x d.y d.sprite).symm
    refine ⟨(s.draw d.x d.y d.sprite).2 :: hits, ?_, ?_, ?_⟩
    · rw [List.flatMap_cons, List.foldl_append, hfirst, foldl_flip_mk]
      simp only [drawEach?, draw?_eq hh hw, hrest, bind, Except.bind, pure, Except.pure]
    · rw [List.length_cons, List.length_cons, hlength]
    · rw [List.flatMap_cons, List.foldl_append, hfirst, foldl_flip_mk, List.or_cons, hor]

/-- the rows of a sprite put under another one are that many rows lower -/
theorem spots_append (A B : List UInt8) :
    spots (A ++ B) = spots A ++ (spots B).map fun (r, c) => (A.length + r, c) := by
  unfold spots
  rw [List.zipIdx_append, List.flatMap_append, Nat.zero_add, List.zipIdx_eq_map_add (l := B), List.flatMap_map,
    List.map_flatMap]
  simp only [List.map_map, Function.comp_def]

theorem covered_append (hh : 0 < h) (hw : 0 < w) (x y : ℤ) (A B : List UInt8) :
    covered hh hw x y (A ++ B) = covered hh hw x y A ++ covered hh hw x (y + A.length) B := by
  unfold covered
  rw [spots_append, List.map_append, List.map_map]
  simp only [Function.comp_def, Nat.cast_add, Int.add_assoc]

/-- a draw of a sprite in two parts, the lower one put under the upper one -/
theorem draw_append (hh : 0 < h) (hw : 0 < w) (s : Screen h w) (x y : ℤ) (A B : List UInt8) :
    s.draw x y (A ++ B) =
      (((s.draw x y A).1.draw x (y + A.length) B).1,
        (s.draw x y A).2 || ((s.draw x y A).1.draw x (y + A.length) B).2) := by
  rw [draw_eq_foldl hh hw, covered_append, List.foldl_append, ← draw_eq_foldl hh hw s x y A, foldl_flip_mk,
    ← draw_eq_foldl hh hw]

/-- on every screen there are two draws of one pixel, each of which reports something else when it comes second -/
theorem exists_draws_reports (hh : 0 < h) (hw : 0 < w) (s : Screen h w) :
    ∃ d d' t hit, d ≠ d' ∧ s.drawEach? [d, d'] = .ok (t, [hit, !hit]) ∧ s.drawEach? [d', d] = .ok (t, [hit, !hit]) := by
  let corner : Fin (h * w) := cell (wrap hw 0) (wrap hh 0)
  have hfirst (t : Screen h w) : t.draw 0 0 [0x80] = flip (t, false) corner := draw_eq_foldl hh hw t 0 0 [0x80]
  have hsecond (t : Screen h w) : t.draw 0 0 [0x80, 0] = flip (t, false) corner := draw_eq_foldl hh hw t 0 0 [0x80, 0]
  have hreport (t : Screen h w) : (flip (t, false) corner).2 = t.pixels.get corner := Bool.false_or _
  have hagain : (flip ((flip (s, false) corner).1, false) corner).2 = !s.pixels.get corner := by
    rw [hreport, flip_get, if_pos rfl]
  refine ⟨⟨0, 0, [0x80]⟩, ⟨0, 0, [0x80, 0]⟩, (flip ((flip (s, false) corner).1, false) corner).1,
    s.pixels.get corner, by decide, ?_, ?_⟩
  all_goals simp only [drawEach?, draw?_eq hh hw, hfirst, hsecond, hagain, hreport s, bind, Except.bind, pure,
    Except.pure]

/-- **Draws in any order, and in parts.** On a screen with a row and a column, draws leave the same pixels in whatever
order they are made, and some draw collides in one order exactly if some does in any other, though not always the same.
A sprite made of the rows of two sprites can be drawn as the first of them and the second put under it, and collides
exactly if one of the two does. -/
theorem draws_reorder (hh : 0 < h) (hw : 0 < w) (s : Screen h w) :
    (∀ ds ds' : List Placed, ds.Perm ds' →
      ∃ t hits hits', s.drawEach? ds = .ok (t, hits) ∧ s.drawEach? ds' = .ok (t, hits') ∧
        hits.length = ds.length ∧ hits'.length = ds'.length ∧ hits.or = hits'.or) ∧
    (∃ d d' t hit, d ≠ d' ∧ s.drawEach? [d, d'] = .ok (t, [hit, !hit]) ∧
      s.drawEach? [d', d] = .ok (t, [hit, !hit])) ∧
    ∀ (x y : ℤ) (A B : List UInt8), ∃ t hit u hit', s.draw? x y A = .ok (t, hit) ∧
      t.draw? x (y + A.length) B = .ok (u, hit') ∧ s.draw? x y (A ++ B) = .ok (u, hit || hit') := by
  refine ⟨?_, exists_draws_reports hh hw s, ?_⟩
  · intro ds ds' hp
    obtain ⟨hits, hdraws, hlength, hor⟩ := drawEach?_eq hh hw s ds
    obtain ⟨hits', hdraws', hlength', hor'⟩ := drawEach?_eq hh hw s ds'
    have hflips := foldl_flip_perm (hp.flatMap_right (Placed.cells hh hw)) (s, false)
    rw [hflips] at hdraws hor
    exact ⟨_, hits, hits', hdraws, hdraws', hlength, hlength', hor.trans hor'.symm⟩
  · intro x y A B
    have hwhole := draw?_eq hh hw s x y (A ++ B)
    rw [draw_append hh hw] at hwhole
    exact ⟨_, _, _, _, draw?_eq hh hw s x y A, draw?_eq hh hw _ x _ B, hwhole⟩

/-- two draws on a small screen, one of which runs over itself: the other one collides only when it comes second -/
theorem draws_reorder_of_overlapping :
    let d : Placed := ⟨-1, 0, [0xC0]⟩
    let d' : Placed := ⟨2, 2, [0xE0, 0x80, 0x01]⟩
    0 < 2 ∧ 0 < 3 ∧ [d, d'].Perm [d', d] ∧
      ∃ t, (blank : Screen 2 3).drawEach? [d, d'] = .ok (t, [false, true]) ∧
        (blank : Screen 2 3).drawEach? [d', d] = .ok (t, [true, true]) := by
  intro d d'
  have hp : [d, d'].Perm [d', d] := .swap d' d []
  obtain ⟨t, hits, hits', hdraws, hdraws', -⟩ := (draws_reorder (by decide : 0 < 2) (by decide : 0 < 3) blank).1 _ _ hp
  have hfirst : ((blank : Screen 2 3).drawEach? [d, d']).map Prod.snd = .ok [false, true] := by decide
  have hsecond : ((blank : Screen 2 3).drawEach? [d', d]).map Prod.snd = .ok [true, true] := by decide
  rw [hdraws] at hfirst
  rw [hdraws'] at hsecond
  cases hfirst
  cases hsecond
  exact ⟨by decide, by decide, hp, t, hdraws, hdraws'⟩

/-! ## The same draw twice -/

/-- drawn twice, a sprite hits every pixel an even number of times -/
theorem draw_draw (hh : 0 < h) (hw : 0 < w) (s : Screen h w) (x y : ℤ) (sprite : List UInt8) :
    ((s.draw x y sprite).1.draw x y sprite).1 = s := by
  apply ext_cell
  intro a b
  have hold := Bool.toNat_lt (s.pixels.get (cell a b))
  rw [draw_pixel hh hw, draw_pixel hh hw]
  omega

/-- one of two draws of a sprite collides exactly if the sprite covers some pixel -/
theorem draw_hit_or_draw_hit (hh : 0 < h) (hw : 0 < w) (s : Screen h w) (x y : ℤ) (sprite : List UInt8) :
    ((s.draw x y sprite).2 = true ∨ ((s.draw x y sprite).1.draw x y sprite).2 = true) ↔
      ∃ (a : Fin w) (b : Fin h), Covers h w x y sprite a b := by
  rw [draw_hit hh hw, draw_hit hh hw]
  simp only [draw_pixel hh hw, ← hits_pos_iff, ← exists_or]
  refine exists_congr fun a => exists_congr fun b => ?_
  have hold := Bool.toNat_lt (s.pixels.get (cell a b))
  omega

section Once

variable (hh : 0 < h) (hw : 0 < w) (s : Screen h w) {x y : ℤ} {sprite : List UInt8}
  (honce : ∀ a b, hits h w x y sprite a b ≤ 1)

include hh hw honce

/-- a sprite that hits no pixel twice toggles those that it covers -/
theorem draw_pixel_ne_iff (a : Fin w) (b : Fin h) :
    (s.draw x y sprite).1.pixels.get (cell a b) ≠ s.pixels.get (cell a b) ↔ Covers h w x y sprite a b := by
  have hbool : ∀ new old : Bool, ∀ k ≤ 1, new.toNat = (old.toNat + k) % 2 → (new ≠ old ↔ 0 < k) := by decide
  rw [← hits_pos_iff]
  exact hbool _ _ _ (honce a b) (draw_pixel hh hw s x y sprite a b)

/-- it collides exactly if it covers a pixel that is on -/
theorem draw_hit_iff :
    (s.draw x y sprite).2 = true ↔
      ∃ (a : Fin w) (b : Fin h), Covers h w x y sprite a b ∧ s.pixels.get (cell a b) = true := by
  have hbool : ∀ old : Bool, ∀ k ≤ 1, (2 ≤ old.toNat + k ↔ 0 < k ∧ old = true) := by decide
  simp only [draw_hit hh hw, ← hits_pos_iff]
  exact exists_congr fun a => exists_congr fun b => hbool _ _ (honce a b)

/-- drawn once more, it collides exactly if it covers a pixel that was off -/
theorem draw_draw_hit_iff :
    ((s.draw x y sprite).1.draw x y sprite).2 = true ↔
      ∃ (a : Fin w) (b : Fin h), Covers h w x y sprite a b ∧ s.pixels.get (cell a b) = false := by
  rw [draw_hit_iff hh hw _ honce]
  refine exists_congr fun a => exists_congr fun b => and_congr_right fun hcovers => ?_
  have htoggled := (draw_pixel_ne_iff hh hw s honce a b).2 hcovers
  rw [Bool.eq_not.2 htoggled, Bool.not_eq_true']

end Once

/-- some pixel of a screen is so lit, read by its cell or by its column and row -/
theorem exists_get_iff (s : Screen h w) {P : ℕ → ℕ → Prop} {on : Bool} :
    (∃ (a : Fin w) (b : Fin h), P a b ∧ s.pixels.get (cell a b) = on) ↔
      ∃ a < w, ∃ b < h, P a b ∧ s.get a b = .ok on := by
  constructor
  · rintro ⟨a, b, hP, hon⟩
    exact ⟨a, a.isLt, b, b.isLt, hP, hon ▸ get_of_lt s a.isLt b.isLt⟩
  · rintro ⟨a, ha, b, hb, hP, hget⟩
    exact ⟨⟨a, ha⟩, ⟨b, hb⟩, hP, Except.ok.inj ((get_of_lt s ha hb).symm.trans hget)⟩

/-- **The same draw twice.** On a screen with a row and a column, a second draw of a sprite in its place leaves the
screen of before the first, and one of the two collides exactly if the sprite has a set bit. If the sprite is no larger
than the screen, the first draw collides exactly if it covers a pixel that was on, the second if one that was off. -/
theorem draw_twice (hh : 0 < h) (hw : 0 < w) (s : Screen h w) (x y : ℤ) (sprite : List UInt8) :
    ∃ t hit hit', s.draw? x y sprite = .ok (t, hit) ∧ t.draw? x y sprite = .ok (s, hit') ∧
      (hit = true ∨ hit' = true ↔ ∃ row ∈ sprite, ∃ k < 8, row.toNat.testBit k = true) ∧
      (sprite.length ≤ h → 8 ≤ w →
        (hit = true ↔ ∃ a < w, ∃ b < h, Covers h w x y sprite a b ∧ s.get a b = .ok true) ∧
        (hit' = true ↔ ∃ a < w, ∃ b < h, Covers h w x y sprite a b ∧ s.get a b = .ok false)) := by
  have hsecond := draw?_eq hh hw (s.draw x y sprite).1 x y sprite
  have hback : ((s.draw x y sprite).1.draw x y sprite) = (s, ((s.draw x y sprite).1.draw x y sprite).2) :=
    Prod.ext (draw_draw hh hw s x y sprite) rfl
  rw [hback] at hsecond
  refine ⟨_, _, _, draw?_eq hh hw s x y sprite, hsecond, ?_, fun hlength hwidth => ⟨?_, ?_⟩⟩
  · exact (draw_hit_or_draw_hit hh hw s x y sprite).trans (exists_covers_iff hh hw x y sprite)
  · exact (draw_hit_iff hh hw s (hits_le_one hlength hwidth x y)).trans s.exists_get_iff
  · exact (draw_draw_hit_iff hh hw s (hits_le_one hlength hwidth x y)).trans s.exists_get_iff

/-- a screen with its first pixel on, and a sprite over that pixel and the next one: both draws collide -/
theorem draw_twice_of_half :
    let s : Screen 1 8 := ⟨Vector.ofFn (· = 0)⟩
    0 < 1 ∧ 0 < 8 ∧ [(0xC0 : UInt8)].length ≤ 1 ∧ 8 ≤ 8 ∧
      ∃ t, s.draw? 8 (-1) [0xC0] = .ok (t, true) ∧ t.draw? 8 (-1) [0xC0] = .ok (s, true) := by
  intro s
  obtain ⟨t, hit, hit', hfirst, hsecond, -, hfits⟩ := draw_twice (by decide : 0 < 1) (by decide : 0 < 8) s 8 (-1) [0xC0]
  obtain ⟨hon, hoff⟩ := hfits (by decide) (by decide)
  rw [hon.2 ⟨0, by decide, 0, by decide, ⟨0, by decide, 0, by decide, by decide⟩, by decide⟩] at hfirst
  rw [hoff.2 ⟨1, by decide, 0, by decide, ⟨0, by decide, 1, by decide, by decide⟩, by decide⟩] at hsecond
  exact ⟨by decide, by decide, by decide, by decide, t, hfirst, hsecond⟩

end ChipEight.Screen
