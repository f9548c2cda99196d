/-
Surfaces and pictures, pixel by pixel. Painting is looked at through the part of the surface that it paints: a pixel, a
row, a rectangle each paint their part in one colour and leave the rest alone (`Painted`), whatever order they are
painted in (`painted_foldl`). A picture is looked at through its lit pixels (`Picture.mem_lit`).
-/
import Mathlib.Tactic
import ChipEight.Window.Surface

namespace ChipEight

namespace Surface

variable {c : Color} {P Q : ℕ → ℕ → Prop} {s s' s'' : Surface}

/-! ## Painting -/

/-- the part `P` of a surface has been painted in one colour, and nothing else has changed -/
structure Painted (c : Color) (P : ℕ → ℕ → Prop) (s s' : Surface) : Prop where
  width : s'.width = s.width
  height : s'.height = s.height
  inside : ∀ x y, x < s.width → y < s.height → P x y → s'.get? x y = some c
  outside : ∀ x y, x < s.width → y < s.height → ¬P x y → s'.get? x y = s.get? x y

theorem Painted.congr (h : Painted c P s s') (hPQ : ∀ x y, x < s.width → y < s.height → (P x y ↔ Q x y)) :
    Painted c Q s s' where
  width := h.width
  height := h.height
  inside x y hx hy hQ := h.inside x y hx hy ((hPQ x y hx hy).2 hQ)
  outside x y hx hy hQ := h.outside x y hx hy fun hP => hQ ((hPQ x y hx hy).1 hP)

theorem Painted.nothing (s : Surface) : Painted c (fun _ _ => False) s s :=
  ⟨rfl, rfl, fun _ _ _ _ h => h.elim, fun _ _ _ _ _ => rfl⟩

theorem Painted.trans (h : Painted c P s s') (h' : Painted c Q s' s'') :
    Painted c (fun x y => P x y ∨ Q x y) s s'' where
  width := h'.width.trans h.width
  height := h'.height.trans h.height
  inside x y hx hy hPQ := by
    have hx' : x < s'.width := h.width ▸ hx
    have hy' : y < s'.height := h.height ▸ hy
    by_cases hQ : Q x y
    · exact h'.inside x y hx' hy' hQ
    · rw [h'.outside x y hx' hy' hQ]
      exact h.inside x y hx hy (hPQ.resolve_right hQ)
  outside x y hx hy hPQ := by
    have hx' : x < s'.width := h.width ▸ hx
    have hy' : y < s'.height := h.height ▸ hy
    rw [h'.outside x y hx' hy' fun hQ => hPQ (Or.inr hQ)]
    exact h.outside x y hx hy fun hP => hPQ (Or.inl hP)

/-- one piece of work for each item paints all their parts together -/
theorem painted_foldl {α : Type} {f : Surface → α → Surface} {P : α → ℕ → ℕ → Prop} {items : List α}
    (h : ∀ s, ∀ a ∈ items, Painted c (P a) s (f s a)) (s : Surface) :
    Painted c (fun x y => ∃ a ∈ items, P a x y) s (items.foldl f s) := by
  induction items generalizing s with
  | nil => exact (Painted.nothing s).congr (by simp)
  | cons a items ih =>
    have hhead := h s a List.mem_cons_self
    have htail := ih (fun s b hb => h s b (List.mem_cons_of_mem a hb)) (f s a)
    exact (hhead.trans htail).congr (by simp)

theorem painted_paint (s : Surface) (c : Color) (a b : ℕ) :
    Painted c (fun x y => x = a ∧ y = b) s (s.paint c a b) := by
  by_cases hab : a < s.width ∧ b < s.height
  · have hpaint : s.paint c a b = _ := dif_pos hab
    rw [hpaint]
    refine ⟨rfl, rfl, fun x y hx hy h => ?_, fun x y hx hy h => ?_⟩
    · obtain ⟨rfl, rfl⟩ := h
      exact (dif_pos ⟨hx, hy⟩).trans (congrArg some (Vector.getElem_set_self _))
    · have hne : (Grid.cell ⟨a, hab.1⟩ ⟨b, hab.2⟩ : ℕ) ≠ Grid.cell ⟨x, hx⟩ ⟨y, hy⟩ := by
        intro he
        obtain ⟨hxa, hyb⟩ := Grid.cell_inj.1 (Fin.ext he)
        exact h ⟨(Fin.mk.inj hxa).symm, (Fin.mk.inj hyb).symm⟩
      have hget : s.get? x y = _ := dif_pos ⟨hx, hy⟩
      rw [hget]
      exact (dif_pos ⟨hx, hy⟩).trans (congrArg some (Vector.getElem_set_ne (Fin.isLt _) (Fin.isLt _) hne))
  · rw [paint, dif_neg hab]
    refine (Painted.nothing s).congr fun x y hx hy => ?_
    constructor
    · exact False.elim
    · rintro ⟨rfl, rfl⟩
      exact hab ⟨hx, hy⟩

theorem mem_span {a n : ℤ} {most i : ℕ} : i ∈ span a n most ↔ a.toNat ≤ i ∧ i < (a + n).toNat ∧ i < most := by
  simp only [span, List.mem_range'_1]
  omega

/-- a rectangle is painted as far as it lies on the surface -/
theorem painted_fillRect (s : Surface) (c : Color) (x y w h : ℤ) :
    Painted c (fun a b => (x.toNat ≤ a ∧ a < (x + w).toNat) ∧ y.toNat ≤ b ∧ b < (y + h).toNat) s
      (s.fillRect c x y w h) := by
  have hrow : ∀ (s : Surface) (b : ℕ), Painted c (fun a b' => (x.toNat ≤ a ∧ a < (x + w).toNat) ∧ b' = b) s
      ((span x w s.width).foldl (fun s a => s.paint c a b) s) := by
    intro s b
    refine (painted_foldl (fun s a _ => painted_paint s c a b) s).congr fun a' b' ha' _ => ?_
    constructor
    · rintro ⟨a, ha, rfl, rfl⟩
      obtain ⟨hfrom, hto, -⟩ := mem_span.1 ha
      exact ⟨⟨hfrom, hto⟩, rfl⟩
    · rintro ⟨⟨hfrom, hto⟩, rfl⟩
      exact ⟨a', mem_span.2 ⟨hfrom, hto, ha'⟩, rfl, rfl⟩
  refine (painted_foldl (fun s b _ => hrow s b) s).congr fun a' b' _ hb' => ?_
  constructor
  · rintro ⟨b, hb, ha, rfl⟩
    obtain ⟨hfrom, hto, -⟩ := mem_span.1 hb
    exact ⟨ha, hfrom, hto⟩
  · rintro ⟨ha, hfrom, hto⟩
    exact ⟨b', mem_span.2 ⟨hfrom, hto, hb'⟩, ha, rfl⟩

theorem get?_fill {x y : ℕ} (hx : x < s.width) (hy : y < s.height) : (s.fill c).get? x y = some c := by
  exact (dif_pos ⟨hx, hy⟩).trans (congrArg some (Vector.getElem_map _ _))

end Surface

/-! ## Pictures -/

/-- is the pixel in this column and row of a picture lit -/
def Picture.isLit (p : Picture) (x y : ℕ) : Bool := (p.getD y []).getD x false

theorem Picture.mem_lit {p : Picture} {x y : ℕ} : (x, y) ∈ p.lit ↔ p.isLit x y = true := by
  simp only [lit, isLit, List.mem_flatMap, List.mem_map, List.mem_filter, Prod.exists, Prod.mk.injEq,
    List.mem_zipIdx_iff_getElem?]
  constructor
  · rintro ⟨row, y', hrow, on, x', ⟨hx, hon⟩, rfl, rfl⟩
    simp [List.getD_eq_getElem?_getD, hrow, hx, hon]
  · intro h
    cases hrow : p[y]? with
    | none => simp [List.getD_eq_getElem?_getD, hrow] at h
    | some row =>
      simp only [List.getD_eq_getElem?_getD, hrow, Option.getD_some] at h
      cases hx : row[x]? with
      | none => simp [hx] at h
      | some on =>
        simp only [hx, Option.getD_some] at h
        exact ⟨row, y, hrow, on, x, ⟨hx, h⟩, rfl, rfl⟩

/-- lit pixels lie within the rows of a picture -/
theorem Picture.lt_of_isLit {p : Picture} {x y : ℕ} (h : p.isLit x y = true) :
    y < p.length ∧ ∃ row ∈ p, x < row.length := by
  simp only [isLit, List.getD_eq_getElem?_getD] at h
  cases hrow : p[y]? with
  | none => simp [hrow] at h
  | some row =>
    obtain ⟨hy, rfl⟩ := List.getElem?_eq_some_iff.1 hrow
    refine ⟨hy, p[y], List.getElem_mem hy, ?_⟩
    by_contra hx
    simp [hrow, List.getElem?_eq_none (Nat.not_lt.1 hx)] at h

/-- the numbers on one side of a square are those with the same quotient -/
theorem Window.mem_side {scale : ℕ} (hscale : 0 < scale) {i a : ℕ} :
    (i * scale ≤ a ∧ a < i * scale + scale) ↔ a / scale = i := by
  rw [Nat.div_eq_iff hscale]
  omega

end ChipEight
