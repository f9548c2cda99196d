/-
Windows on any host. A host is taken to open a surface of the size that it is asked for, with those pixels and no
others, and to paint exactly what it is asked to (`Host.Serves`). An opened window then shows every picture for itself,
whatever it has shown before (`shows_drawAllOn`). The host to run on is such a one while no side is longer than 16384
(`Surface.host_serves`); nothing else is said of larger windows, which another host may well open.
-/
import ChipEight.Proofs.Squares

namespace ChipEight

variable {S : Type} {look : S → ℕ → ℕ → Option Color} {width height scale : ℕ}

/-- the surface has the pixels of this size, and no others -/
def HasSize (look : S → ℕ → ℕ → Option Color) (width height : ℕ) (s : S) : Prop :=
  ∀ a b, (look s a b).isSome = true ↔ a < width ∧ b < height

/-- a host does what a window of this size asks of it; `look` gives the colours of the pixels that a surface has -/
structure Host.Serves (host : Host S) (look : S → ℕ → ℕ → Option Color) (width height : ℕ) : Prop where
  opens : ∃ s, host.openSurface width height = .ok s ∧ HasSize look width height s
  paints : host.toCanvas.Exact look width height

namespace Window

/-- the surface has exactly the pixels of the window, each in the colour that the picture has there -/
def Shows (look : S → ℕ → ℕ → Option Color) (w : Window) (p : Picture) (s : S) : Prop :=
  ∀ a b : ℕ, look s a b =
    if (a : ℤ) < w.width * w.scale ∧ (b : ℤ) < w.height * w.scale then
      some (if p.isLit (a / w.scale.toNat) (b / w.scale.toNat) then w.front else w.back)
    else none

section Drawing

variable {host : Canvas S} {back front : Color} {p : Picture} {s : S}

theorem hasSize_drawOn (hhost : host.Exact look (width * scale) (height * scale)) (hscale : 0 < scale)
    (hp : p.Sized width height) (hs : HasSize look (width * scale) (height * scale) s) :
    HasSize look (width * scale) (height * scale) ((Window.mk width height scale back front).drawOn host s p) := by
  intro a b
  rw [look_drawOn hhost hscale back front hp, Option.isSome_map, hs]

theorem shows_drawOn (hhost : host.Exact look (width * scale) (height * scale)) (hscale : 0 < scale)
    (hp : p.Sized width height) (hs : HasSize look (width * scale) (height * scale) s) :
    (Window.mk width height scale back front).Shows look p
      ((Window.mk width height scale back front).drawOn host s p) := by
  intro a b
  have hon : (a : ℤ) < width * scale ∧ (b : ℤ) < height * scale ↔ a < width * scale ∧ b < height * scale := by
    norm_cast
  rw [look_drawOn hhost hscale back front hp]
  simp only [hon, ← hs a b, Int.toNat_natCast]
  cases look s a b <;> rfl

/-- **Showing pictures.** Every picture is shown for itself, whatever was shown before: only the size of the surface
matters, and drawing keeps it. -/
theorem shows_drawAllOn (hhost : host.Exact look (width * scale) (height * scale)) (hscale : 0 < scale)
    (back front : Color) {pictures : List Picture} (hpictures : ∀ p ∈ pictures, p.Sized width height)
    (hs : HasSize look (width * scale) (height * scale) s) :
    List.Forall₂ ((Window.mk width height scale back front).Shows look) pictures
      ((Window.mk width height scale back front).drawAllOn host s pictures) := by
  induction pictures generalizing s with
  | nil => exact .nil
  | cons p pictures ih =>
    have hp := hpictures p List.mem_cons_self
    exact .cons (shows_drawOn hhost hscale hp hs)
      (ih (fun q hq => hpictures q (List.mem_cons_of_mem p hq)) (hasSize_drawOn hhost hscale hp hs))

end Drawing

theorem openOn_of_serves {host : Host S} (hhost : host.Serves look (width * scale) (height * scale))
    (back front : Color) :
    ∃ s, (Window.mk width height scale back front).openOn host = .ok s ∧
      HasSize look (width * scale) (height * scale) s := by
  obtain ⟨s, hopen, hs⟩ := hhost.opens
  push_cast at hopen
  refine ⟨host.fill s back, by simp only [openOn, hopen, Except.map], fun a b => ?_⟩
  rw [hhost.paints.fill, Option.isSome_map, hs]

end Window

namespace Surface

open Window

theorem hasSize_plain (width height : ℕ) (c : Color) : HasSize get? width height (plain width height c) :=
  fun _ _ => isSome_get?

/-- the host to run on serves every window of some size that is not too large for it -/
theorem host_serves (hwidth : 0 < width ∧ width ≤ 16384) (hheight : 0 < height ∧ height ≤ 16384) :
    host.Serves get? width height where
  opens := by
    have hcounted : ∀ n : ℕ, n ≤ 16384 → isCounted n = true := by
      intro n hn
      have hbound : (Grid.countBound : ℤ) = 0x7FFFFFFFFFFFFFFF := rfl
      rw [isCounted, Bool.and_eq_true]
      exact ⟨decide_eq_true (by omega), decide_eq_true (by omega)⟩
    have hkept : ∀ n : ℕ, n ≤ 16384 → kept n = n := fun n hn => kept_of_lt (Int.natCast_nonneg n) (by omega)
    have hbound : sideBound = 16384 := rfl
    have hsides : sidesOf (width : ℤ) (height : ℤ) = .ok (width, height) := by
      rw [sidesOf, if_neg, if_neg, if_neg]
      · simp only [Int.toNat_natCast, Nat.max_eq_left hwidth.1, Nat.max_eq_left hheight.1]
      · simp only [Bool.or_eq_true, decide_eq_true_eq]
        omega
      · simp only [Bool.and_eq_true, decide_eq_true_eq]
        omega
      · simp only [Bool.or_eq_true, decide_eq_true_eq]
        omega
    refine ⟨_, (if_pos ?_).trans ?_, hasSize_plain width height ⟨0, 0, 0⟩⟩
    · rw [hcounted width hwidth.2, hcounted height hheight.2, Bool.and_self]
    · rw [hkept width hwidth.2, hkept height hheight.2, hsides]
      rfl
  paints := canvas_exact (Nat.lt_of_le_of_lt hwidth.2 (by decide)) (Nat.lt_of_le_of_lt hheight.2 (by decide))

end Surface

end ChipEight
