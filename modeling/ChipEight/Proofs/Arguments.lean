/-
Options that come from a command line. Reading one only ever names a program, uses options without values or uses an
option with its value, so that what these keep holds of the options in the end (`parse_keeps`). A numeral of so many
digits stands for a number of no more digits; so no number on a command line is too long to be written (`parse_short`).
-/
import ChipEight.CommandLine.Parse
import ChipEight.Proofs.Tables

namespace ChipEight

/-! ## Numerals -/

namespace Text

variable {cs : List Char} {n : ℕ}

theorem digitValue?_lt {c : Char} {d : ℕ} (h : digitValue? c = some d) : d < 10 := by
  obtain ⟨z, hz, rfl⟩ := Option.map_eq_some_iff.1 h
  have hrun := Array.find?_some hz
  simp only [Bool.and_eq_true, decide_eq_true_eq] at hrun
  omega

/-- how many characters are digits -/
def digitCount (cs : List Char) : ℕ := (cs.filter isDigit).length

theorem digitCount_le_of_sublist {ds : List Char} (h : cs.Sublist ds) : digitCount cs ≤ digitCount ds :=
  (h.filter isDigit).length_le

theorem digitCount_cons {c : Char} {d : ℕ} (h : digitValue? c = some d) (cs : List Char) :
    digitCount (c :: cs) = digitCount cs + 1 := by
  have hc : isDigit c = true := by simp [isDigit, h]
  rw [digitCount, List.filter_cons_of_pos hc, List.length_cons]
  rfl

theorem readMoreDigits_lt {acc : ℕ} (h : readMoreDigits acc cs = some n) : n < (acc + 1) * 10 ^ digitCount cs := by
  -- a digit makes the number at most ten times as large, with nine on top
  have hdigit {acc n d : ℕ} {c : Char} {r : List Char} (hd : digitValue? c = some d)
      (hn : n < (acc * 10 + d + 1) * 10 ^ digitCount r) : n < (acc + 1) * 10 ^ digitCount (c :: r) := by
    have hd10 := digitValue?_lt hd
    calc n < (acc * 10 + d + 1) * 10 ^ digitCount r := hn
      _ ≤ (acc + 1) * 10 * 10 ^ digitCount r := Nat.mul_le_mul_right _ (by omega)
      _ = (acc + 1) * 10 ^ digitCount (c :: r) := by rw [digitCount_cons hd]; ring
  induction acc, cs using readMoreDigits.induct generalizing n with
  | case1 acc =>
    obtain rfl := Option.some.inj h
    simp [digitCount]
  | case2 acc c r ih =>
    simp only [readMoreDigits] at h
    obtain ⟨d, hd, h⟩ := Option.bind_eq_some_iff.1 h
    have hcount := digitCount_le_of_sublist (List.sublist_cons_self '_' (c :: r))
    exact Nat.lt_of_lt_of_le (hdigit hd (ih d h)) (Nat.mul_le_mul_left _ (Nat.pow_le_pow_right (by decide) hcount))
  | case3 acc c r hne ih =>
    rw [readMoreDigits] at h
    case x_1 => exact hne
    obtain ⟨d, hd, h⟩ := Option.bind_eq_some_iff.1 h
    exact hdigit hd (ih d h)

theorem readDigits_lt (h : readDigits cs = some n) : n < 10 ^ digitCount cs := by
  cases cs with
  | nil => nomatch h
  | cons c r =>
    obtain ⟨d, hd, h⟩ := Option.bind_eq_some_iff.1 h
    have hd10 := digitValue?_lt hd
    calc n < (d + 1) * 10 ^ digitCount r := readMoreDigits_lt h
      _ ≤ 10 * 10 ^ digitCount r := Nat.mul_le_mul_right _ hd10
      _ = 10 ^ digitCount (c :: r) := by rw [digitCount_cons hd]; ring

/-- a sign makes no difference to the size of a number -/
theorem readSigned_eq_some {i : ℤ} (h : readSigned cs = some i) :
    ∃ r, r.Sublist cs ∧ readDigits r = some i.natAbs := by
  have hnumber {r : List Char} {j : ℤ} (h : ((readDigits r).bind fun n => some (n : ℤ)) = some j) :
      readDigits r = some j.natAbs := by
    obtain ⟨n, hn, hj⟩ := Option.bind_eq_some_iff.1 h
    obtain rfl := Option.some.inj hj
    rw [hn, Int.natAbs_natCast]
  unfold readSigned at h
  split at h
  all_goals obtain ⟨j, hj, rfl⟩ := Option.map_eq_some_iff.1 h
  case h_1 r => exact ⟨r, List.sublist_cons_self _ r, by rw [Int.natAbs_neg, hnumber hj]⟩
  case h_2 r => exact ⟨r, List.sublist_cons_self _ r, hnumber hj⟩
  case h_3 => exact ⟨cs, List.Sublist.refl cs, hnumber hj⟩

theorem trim_sublist (cs : List Char) : (trim cs).Sublist cs := by
  have hrest := ((cs.dropWhile isBlank).reverse.dropWhile_sublist isBlank).reverse
  rw [List.reverse_reverse] at hrest
  exact hrest.trans (cs.dropWhile_sublist isBlank)

/-- **Numerals are short.** A number that a text stands for can be written. -/
theorem readInt_short {s : String} {i : ℤ} (h : readInt s = some i) : isLongNumber i = false := by
  unfold readInt at h
  split_ifs at h with hcount
  obtain ⟨r, hr, hdigits⟩ := readSigned_eq_some h
  have hle := (digitCount_le_of_sublist (hr.trans (trim_sublist s.toList))).trans hcount
  simp only [isLongNumber, decide_eq_false_iff_not, not_le]
  generalize digitBound = bound at hle ⊢
  exact Nat.lt_of_lt_of_le (readDigits_lt hdigits) (Nat.pow_le_pow_right (by decide) hle)

end Text

/-! ## Options -/

namespace CommandLine

/-- what the reading of a command line keeps, if all that it does to options keeps it -/
structure Keeps (P : Options → Prop) : Prop where
  start : P {}
  place : ∀ o text, P o → P { o with rom := some text }
  raise : ∀ o s o', P o → Options.raise o s = .ok o' → P o'
  use : ∀ o s given o', P o → Options.use o s given = .ok o' → P o'

namespace Keeps

variable {P : Options → Prop} {p q : Progress}

theorem foldlM_raise (h : Keeps P) {flags : List Switch} {o o' : Options} (ho : P o)
    (ho' : flags.foldlM Options.raise o = .ok o') : P o' := by
  induction flags generalizing o with
  | nil =>
    obtain rfl := Except.ok.inj ho'
    exact ho
  | cons s flags ih =>
    obtain ⟨o₁, hs, hrest⟩ := bind_ok ho'
    exact ih (h.raise o s o₁ ho hs) hrest

theorem raiseAll (h : Keeps P) {flags : List Switch} (hp : P p.options) (hq : p.raise flags = .ok q) :
    P q.options := by
  obtain ⟨o, ho, rfl⟩ := map_ok hq
  exact h.foldlM_raise hp ho

theorem useOne (h : Keeps P) {s : Switch} {given : Given String} (hp : P p.options) (hq : p.use s given = .ok q) :
    P q.options := by
  obtain ⟨o, ho, rfl⟩ := map_ok hq
  exact h.use _ s given o hp ho

theorem placeOne (h : Keeps P) (text : String) (hp : P p.options) : P (p.place text).options := by
  unfold Progress.place
  split_ifs
  · exact hp
  · exact h.place _ _ hp

/-- words are used one or two at a time, so the induction is on how many there are -/
theorem consume (h : Keeps P) {ws : List Word} (hp : P p.options) (hq : consume ws p = .ok q) : P q.options := by
  induction hk : ws.length using Nat.strong_induction_on generalizing ws p with
  | _ k ih =>
  subst hk
  unfold CommandLine.consume at hq
  split at hq
  case h_1 =>
    obtain rfl := Except.ok.inj hq
    exact hp
  case h_2 t rest =>
    refine ih _ (by simp) ?_ hq rfl
    split_ifs
    · exact hp
    · exact h.placeOne t hp
  case h_3 t rest _ => exact ih _ (by simp) (h.placeOne t hp) hq rfl
  case h_4 rest =>
    refine ih _ (by simp) ?_ hq rfl
    split_ifs <;> exact hp
  case h_5 t rest => exact ih rest.length (by simp) (p := p.pass t) hp hq rfl
  case h_6 s long attached rest =>
    split at hq
    case h_1 => nomatch hq
    case h_2 flags _ =>
      obtain ⟨p₁, hflags, hrest⟩ := bind_ok hq
      exact ih _ (by simp) (h.raiseAll hp hflags) hrest rfl
    case h_3 flags s given _ =>
      obtain ⟨p₂, hused, hrest⟩ := bind_ok hq
      obtain ⟨p₁, hflags, huse⟩ := bind_ok hused
      exact ih _ (by simp) (h.useOne (h.raiseAll hp hflags) huse) hrest rfl
    case h_4 flags s _ =>
      split at hq
      case h_1 t rest =>
        obtain ⟨p₂, hused, hrest⟩ := bind_ok hq
        obtain ⟨p₁, hflags, huse⟩ := bind_ok hused
        exact ih _ (by simp) (h.useOne (h.raiseAll hp hflags) huse) hrest rfl
      case h_2 => nomatch hq

end Keeps

/-- **What reading keeps.** What all that reading does to options keeps holds of the options in the end. -/
theorem parse_keeps {P : Options → Prop} (h : Keeps P) {args : List String} {o : Options} (ho : parse args = .ok o) :
    P o := by
  unfold parse at ho
  split at ho
  · nomatch ho
  split at ho
  · nomatch ho
  split_ifs at ho
  obtain rfl := Except.ok.inj ho
  exact h.consume h.start ‹_›

/-- a number that was given can be written -/
def Given.Short : Given ℤ → Prop
  | .value i => isLongNumber i = false
  | .blank => True

/-- the numbers for settings can be written -/
structure Options.Short (o : Options) : Prop where
  scale : ∀ n, o.scale = some n → n.Short
  cycles : ∀ n, o.cycles = some n → n.Short

theorem readGiven_short {s : Switch} {given : Given String} {n : Given ℤ} (h : readGiven s given = .ok n) :
    n.Short := by
  cases given with
  | blank =>
    obtain rfl := Except.ok.inj h
    trivial
  | value text =>
    obtain ⟨i, hi, rfl⟩ := map_ok h
    unfold readNumber at hi
    split at hi
    · obtain rfl := Except.ok.inj hi
      exact Text.readInt_short ‹_›
    · nomatch hi

theorem keeps_short : Keeps Options.Short where
  start := ⟨fun _ h => (nomatch h), fun _ h => (nomatch h)⟩
  place _ _ h := ⟨h.scale, h.cycles⟩
  raise o s o' h hs := by
    cases s with
    | help => nomatch hs
    | _ => obtain rfl := Except.ok.inj hs; exact ⟨h.scale, h.cycles⟩
  use o s given o' h hs := by
    cases s with
    | scale =>
      obtain ⟨n, hn, rfl⟩ := map_ok hs
      exact ⟨fun m hm => Option.some.inj hm ▸ readGiven_short hn, h.cycles⟩
    | cycles =>
      obtain ⟨n, hn, rfl⟩ := map_ok hs
      exact ⟨h.scale, fun m hm => Option.some.inj hm ▸ readGiven_short hn⟩
    | seed =>
      obtain ⟨n, -, rfl⟩ := map_ok hs
      exact ⟨h.scale, h.cycles⟩
    | _ => obtain rfl := Except.ok.inj hs; exact ⟨h.scale, h.cycles⟩

/-- **Numbers of a command line.** A number that a command line gives a setting can be written. -/
theorem parse_short {args : List String} {o : Options} (h : parse args = .ok o) : o.Short :=
  parse_keeps keeps_short h

end CommandLine

end ChipEight
