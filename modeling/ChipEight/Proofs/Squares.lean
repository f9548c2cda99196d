/-
Pictures on any host. A host is only asked to paint whole surfaces and rectangles, and of what it makes of that no more
is taken for granted than that it does so on surfaces of the window's size (`Canvas.Exact`). A pixel of a picture is
then a square of the surface. The squares of all the pixels cut the surface up without gaps and without overlap
(`square_iff`), and painting one of them changes the pixels of the surface that it holds and no others
(`look_square`). So each pixel of the surface shows in the end whether the pixel of the picture is lit in whose square
it lies, no matter what has been on the surface before, and the picture can be read off again (`rendering_exact`).
-/
import ChipEight.Proofs.Rendering
import ChipEight.Window.Opening

namespace ChipEight

variable {S : Type}

/-! ## Hosts -/

/-- a host paints what it is asked to on surfaces of this size, where `look` gives the colours of the pixels that a
surface has: to fill a surface changes all of its pixels, and to paint a rectangle that lies on it changes the pixels of
the rectangle and no others -/
structure Canvas.Exact (host : Canvas S) (look : S → ℕ → ℕ → Option Color) (width height : ℕ) : Prop where
  fill : ∀ s c a b, look (host.fill s c) a b = (look s a b).map fun _ => c
  fillRect : ∀ s c, ∀ x y w h : ℕ, x + w ≤ width → y + h ≤ height → ∀ a b,
    look (host.fillRect s c x y w h) a b =
      if (x ≤ a ∧ a < x + w) ∧ y ≤ b ∧ b < y + h then (look s a b).map fun _ => c else look s a b

namespace Surface

theorem Painted.get? {c : Color} {P : ℕ → ℕ → Prop} {s s' : Surface} (h : Painted c P s s') (a b : ℕ)
    [Decidable (P a b)] : s'.get? a b = if P a b then (s.get? a b).map fun _ => c else s.get? a b := by
  by_cases hon : a < s.width ∧ b < s.height
  · have hsome : s.get? a b = some _ := dif_pos hon
    split_ifs with hP
    · rw [h.inside a b hon.1 hon.2 hP, hsome]
      rfl
    · exact h.outside a b hon.1 hon.2 hP
  · have hnone : s.get? a b = none := dif_neg hon
    have hnone' : s'.get? a b = none := dif_neg (by rwa [h.width, h.height])
    rw [hnone, hnone', Option.map_none, ite_self]

theorem isSome_get? {s : Surface} {a b : ℕ} : (s.get? a b).isSome = true ↔ a < s.width ∧ b < s.height := by
  unfold get?
  split_ifs with h <;> simp [h]

/-- a host that keeps the low 32 bits of every length is exact on surfaces that are not too long for that -/
theorem canvas_exact {width height : ℕ} (hwidth : width < 0x80000000) (hheight : height < 0x80000000) :
    (canvas Window.kept).Exact get? width height where
  fill s c a b := by
    by_cases hon : a < s.width ∧ b < s.height
    · obtain ⟨d, hd⟩ := Option.isSome_iff_exists.1 (isSome_get?.2 hon)
      rw [hd]
      exact get?_fill hon.1 hon.2
    · have hnone : s.get? a b = none := dif_neg hon
      rw [hnone]
      exact dif_neg hon
  fillRect s c x y w h hx hy a b := by
    have hkept : ∀ n : ℕ, n < 0x80000000 → Window.kept n = n := by
      intro n hn
      exact Window.kept_of_lt (Int.natCast_nonneg n) (by omega)
    have hpainted : Painted c (fun a b => (x ≤ a ∧ a < x + w) ∧ y ≤ b ∧ b < y + h) s (s.fillRect c x y w h) :=
      (painted_fillRect s c x y w h).congr fun a b _ _ => by omega
    dsimp only [canvas]
    rw [hkept x (by omega), hkept y (by omega), hkept w (by omega), hkept h (by omega)]
    exact hpainted.get? a b

end Surface

/-! ## Squares -/

/-- the square of the surface that shows a pixel of a picture -/
def Square (scale : ℕ) (pixel : ℕ × ℕ) (a b : ℕ) : Prop :=
  (pixel.1 * scale ≤ a ∧ a < pixel.1 * scale + scale) ∧ pixel.2 * scale ≤ b ∧ b < pixel.2 * scale + scale

instance (scale : ℕ) (pixel : ℕ × ℕ) (a b : ℕ) : Decidable (Square scale pixel a b) :=
  inferInstanceAs (Decidable ((_ ∧ _) ∧ _ ∧ _))

/-- a pixel of the surface lies in one square and in no other -/
theorem square_iff {scale : ℕ} (hscale : 0 < scale) {pixel : ℕ × ℕ} {a b : ℕ} :
    Square scale pixel a b ↔ pixel = (a / scale, b / scale) := by
  rw [Square, Window.mem_side hscale, Window.mem_side hscale, Prod.ext_iff, eq_comm, eq_comm (a := b / scale)]

namespace Picture

/-- the picture has this many columns and rows -/
structure Sized (p : Picture) (width height : ℕ) : Prop where
  rows : p.length = height
  columns : ∀ row ∈ p, row.length = width

/-- no pixel is lit twice -/
theorem lit_nodup (p : Picture) : p.lit.Nodup := by
  have hplaces : ∀ {α : Type} (l : List α), l.zipIdx.Pairwise fun e e' => e.2 ≠ e'.2 := by
    intro α l
    apply List.pairwise_map.1
    change (l.zipIdx.map Prod.snd).Nodup
    rw [List.zipIdx_map_snd]
    exact List.nodup_range'
  refine List.pairwise_flatMap.2 ⟨fun e _ => ?_, (hplaces p).imp fun hrows => ?_⟩
  · refine List.pairwise_map.2 (((hplaces e.1).filter _).imp fun hcolumns => ?_)
    exact fun h => hcolumns (Prod.mk.inj h).1
  · intro pixel hpixel pixel' hpixel' h
    obtain ⟨_, _, rfl⟩ := List.mem_map.1 hpixel
    obtain ⟨_, _, rfl⟩ := List.mem_map.1 hpixel'
    exact hrows (Prod.mk.inj h).2

theorem Sized.of_isLit {p : Picture} {width height x y : ℕ} (hp : p.Sized width height) (h : p.isLit x y = true) :
    x < width ∧ y < height := by
  obtain ⟨hy, row, hrow, hx⟩ := lt_of_isLit h
  exact ⟨hp.columns row hrow ▸ hx, hp.rows ▸ hy⟩

/-- a picture is the rows of what is lit in it -/
theorem Sized.eq_rows {p : Picture} {width height : ℕ} (hp : p.Sized width height) :
    ((List.range height).map fun y => (List.range width).map fun x => p.isLit x y) = p := by
  refine List.ext_getElem ?_ fun y hy hy' => ?_
  · rw [List.length_map, List.length_range, hp.rows]
  refine List.ext_getElem ?_ fun x hx hx' => ?_
  · rw [List.getElem_map, List.length_map, List.length_range, hp.columns _ (List.getElem_mem hy')]
  simp only [List.getElem_map, List.getElem_range, isLit, List.getD_eq_getElem?_getD, List.getElem?_eq_getElem hy',
    Option.getD_some, List.getElem?_eq_getElem hx']

end Picture

/-! ## Drawing -/

/-- a surface has the pixels of this size -/
def Covers (look : S → ℕ → ℕ → Option Color) (width height : ℕ) (s : S) : Prop :=
  ∀ a < width, ∀ b < height, (look s a b).isSome = true

namespace Canvas

variable {host : Canvas S} {look : S → ℕ → ℕ → Option Color} {width height scale : ℕ}

/-- to paint the square of one pixel changes the pixels of the surface in it -/
theorem Exact.look_square (hhost : host.Exact look (width * scale) (height * scale)) {x y : ℕ} (hx : x < width)
    (hy : y < height) (s : S) (c : Color) (a b : ℕ) :
    look (host.fillRect s c (x * (scale : ℤ)) (y * (scale : ℤ)) scale scale) a b =
      if Square scale (x, y) a b then (look s a b).map fun _ => c else look s a b := by
  have hright : x * scale + scale ≤ width * scale := by
    rw [← Nat.succ_mul]
    exact Nat.mul_le_mul_right scale hx
  have hbottom : y * scale + scale ≤ height * scale := by
    rw [← Nat.succ_mul]
    exact Nat.mul_le_mul_right scale hy
  exact_mod_cast hhost.fillRect s c (x * scale) (y * scale) scale scale hright hbottom a b

/-- to paint the squares of some pixels changes the pixels of the surface in them -/
theorem Exact.look_squares (hhost : host.Exact look (width * scale) (height * scale)) (hscale : 0 < scale)
    {pixels : List (ℕ × ℕ)} (hpixels : ∀ pixel ∈ pixels, pixel.1 < width ∧ pixel.2 < height) (s : S) (c : Color)
    (a b : ℕ) :
    look (pixels.foldl
        (fun s (x, y) => host.fillRect s c (x * (scale : ℤ)) (y * (scale : ℤ)) scale scale) s) a b =
      if (a / scale, b / scale) ∈ pixels then (look s a b).map fun _ => c else look s a b := by
  induction pixels generalizing s with
  | nil => rfl
  | cons pixel pixels ih =>
    obtain ⟨hx, hy⟩ := hpixels pixel List.mem_cons_self
    rw [List.foldl_cons, ih fun e he => hpixels e (List.mem_cons_of_mem pixel he), hhost.look_square hx hy]
    simp only [List.mem_cons, square_iff hscale, eq_comm (a := pixel)]
    by_cases hhead : (a / scale, b / scale) = pixel
    · -- a pixel painted twice looks as if it had been painted once
      simp [hhead, Option.map_map, Function.comp_def]
    · simp [hhead]

end Canvas

namespace Window

open Surface (canvas plain get? canvas_exact isSome_get?)

/-- read a picture off a surface: a pixel is lit if the corner of its square has the front colour -/
def readOff (look : S → ℕ → ℕ → Option Color) (front : Color) (width height scale : ℕ) (s : S) : Picture :=
  (List.range height).map fun y => (List.range width).map fun x => look s (x * scale) (y * scale) == some front

/-- a picture as it is drawn, pixel by pixel: only which pixels the surface has is left of what it was before -/
theorem look_drawOn {host : Canvas S} {look : S → ℕ → ℕ → Option Color} {width height scale : ℕ}
    (hhost : host.Exact look (width * scale) (height * scale)) (hscale : 0 < scale) (back front : Color) {p : Picture}
    (hp : p.Sized width height) (s : S) (a b : ℕ) :
    look ((Window.mk width height scale back front).drawOn host s p) a b =
      (look s a b).map fun _ => if p.isLit (a / scale) (b / scale) then front else back := by
  have hlit : ∀ pixel ∈ p.lit, pixel.1 < width ∧ pixel.2 < height := fun _ h => hp.of_isLit (Picture.mem_lit.1 h)
  rw [drawOn]
  refine (hhost.look_squares hscale hlit (host.fill s back) front a b).trans ?_
  simp only [hhost.fill, Option.map_map, Picture.mem_lit]
  split_ifs <;> rfl

/-- **Rendering.** On every host that paints what it is asked to, a pixel of the surface has the front colour if the
pixel of the picture is lit in whose square it lies, and the back colour otherwise, at every scale; no other surface of
that size would look different. It is painted as part of one square then, and otherwise of none. Unless the two colours
are the same, what is shown is the picture again when it is read off. -/
theorem rendering_exact (host : Canvas S) (look : S → ℕ → ℕ → Option Color) (width height scale : ℕ)
    (back front : Color) (hhost : host.Exact look (width * scale) (height * scale)) (hscale : 0 < scale) (p : Picture)
    (hp : p.Sized width height) (s : S) (hs : Covers look (width * scale) (height * scale) s) :
    let w : Window := ⟨width, height, scale, back, front⟩
    (∀ a < width * scale, ∀ b < height * scale,
      look (w.drawOn host s p) a b = some (if p.isLit (a / scale) (b / scale) then front else back)) ∧
    (∀ s', Covers look (width * scale) (height * scale) s' → ∀ a < width * scale, ∀ b < height * scale,
      look (w.drawOn host s' p) a b = look (w.drawOn host s p) a b) ∧
    (∀ a < width * scale, ∀ b < height * scale,
      p.lit.countP (fun pixel => Square scale pixel a b) = if p.isLit (a / scale) (b / scale) then 1 else 0) ∧
    (back ≠ front → readOff look front width height scale (w.drawOn host s p) = p) := by
  intro w
  have hlook (s : S) (hs : Covers look (width * scale) (height * scale) s) (a : ℕ) (b : ℕ)
      (ha : a < width * scale) (hb : b < height * scale) :
      look (w.drawOn host s p) a b = some (if p.isLit (a / scale) (b / scale) then front else back) := by
    obtain ⟨c, hc⟩ := Option.isSome_iff_exists.1 (hs a ha b hb)
    rw [look_drawOn hhost hscale back front hp, hc, Option.map_some]
  refine ⟨fun a ha b hb => hlook s hs a b ha hb, ?_, ?_, ?_⟩
  · intro s' hs' a ha b hb
    exact (hlook s' hs' a b ha hb).trans (hlook s hs a b ha hb).symm
  · intro a _ b _
    have hcount : p.lit.countP (fun pixel => Square scale pixel a b) = p.lit.count (a / scale, b / scale) := by
      refine List.countP_congr fun pixel _ => ?_
      rw [decide_eq_true_iff, square_iff hscale, beq_iff_eq]
    rw [hcount, p.lit_nodup.count]
    simp only [Picture.mem_lit]
  · intro hcolors
    refine Eq.trans ?_ hp.eq_rows
    refine List.map_congr_left fun y hy => List.map_congr_left fun x hx => ?_
    have hleft := Nat.mul_lt_mul_of_pos_right (List.mem_range.1 hx) hscale
    have htop := Nat.mul_lt_mul_of_pos_right (List.mem_range.1 hy) hscale
    rw [hlook s hs _ _ hleft htop, Nat.mul_div_cancel x hscale, Nat.mul_div_cancel y hscale]
    cases p.isLit x y <;> simp [hcolors]

/-- two pixels, the left one lit, in squares of two by two over a surface that was grey -/
theorem rendering_exact_of_two_pixels :
    let s := (Window.mk 2 1 2 ⟨0, 0, 0⟩ ⟨255, 255, 255⟩).drawOn (canvas kept) (plain 4 2 ⟨9, 9, 9⟩) [[true, false]]
    (∀ a < 4, ∀ b < 2, s.get? a b = some (if a / 2 = 0 then ⟨255, 255, 255⟩ else ⟨0, 0, 0⟩)) ∧
      readOff get? ⟨255, 255, 255⟩ 2 1 2 s = [[true, false]] := by
  obtain ⟨hpixels, -, -, hread⟩ := rendering_exact (canvas kept) get? 2 1 2 ⟨0, 0, 0⟩ ⟨255, 255, 255⟩
    (canvas_exact (by decide) (by decide)) (by decide) [[true, false]] ⟨rfl, by decide⟩ (plain 4 2 ⟨9, 9, 9⟩)
    fun a ha b hb => isSome_get?.2 ⟨ha, hb⟩
  refine ⟨fun a ha b hb => (hpixels a ha b hb).trans ?_, hread (by decide)⟩
  interval_cases a <;> interval_cases b <;> rfl

end Window

end ChipEight
