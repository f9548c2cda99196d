/-
Integers written in decimal. Their digits are read one by one, with nothing among them that is left out
(`readMoreDigits_of_isDigit`), and nothing around them is a blank; so a number that is not too long to be written is
read back from its numeral (`readInt_toString`).
-/
import ChipEight.Proofs.Arguments

namespace ChipEight.Text

variable {c : Char} {cs : List Char} {i : ℤ}

/-! ## Digits -/

/-- the digits of plain text are the first run of the table -/
theorem digitValue?_of_isDigit (h : c.isDigit = true) : digitValue? c = some (c.toNat - '0'.toNat) := by
  have hc := Char.isDigit_iff_toNat.1 h
  have hrun : (zeros.find? fun z => z ≤ c.toNat && c.toNat < z + 10) = some '0'.toNat := by
    unfold zeros
    rw [List.find?_toArray]
    refine List.find?_cons_of_pos ?_
    simp only [Bool.and_eq_true, decide_eq_true_eq]
    exact ⟨hc.1, Nat.lt_succ_of_le hc.2⟩
  rw [digitValue?, hrun]
  rfl

theorem readMoreDigits_of_isDigit (h : ∀ c ∈ cs, c.isDigit = true) (acc : ℕ) :
    readMoreDigits acc cs = some (Nat.ofDigitChars 10 cs acc) := by
  induction cs generalizing acc with
  | nil => rfl
  | cons c r ih =>
    obtain ⟨hc, hr⟩ := List.forall_mem_cons.1 h
    rw [readMoreDigits]
    case x_1 =>
      rintro _ _ rfl
      exact absurd hc (by decide)
    rw [digitValue?_of_isDigit hc, Option.bind_some, ih hr, Nat.ofDigitChars_cons, Nat.mul_comm]

theorem isDigit_toDigits (n : ℕ) : ∀ c ∈ Nat.toDigits 10 n, c.isDigit = true := fun _ hc =>
  Nat.isDigit_of_mem_toDigits (by decide) (by decide) hc

theorem readDigits_toDigits (n : ℕ) : readDigits (Nat.toDigits 10 n) = some n := by
  have hdigits := isDigit_toDigits n
  have hvalue : Nat.ofDigitChars 10 (Nat.toDigits 10 n) 0 = n := Nat.ofDigitChars_ten_toDigits
  cases hn : Nat.toDigits 10 n with
  | nil => exact absurd hn Nat.toDigits_ne_nil
  | cons c r =>
    rw [hn] at hdigits hvalue
    obtain ⟨hc, hr⟩ := List.forall_mem_cons.1 hdigits
    rw [readDigits, digitValue?_of_isDigit hc, Option.bind_some, readMoreDigits_of_isDigit hr]
    rw [Nat.ofDigitChars_cons, Nat.mul_zero, Nat.zero_add] at hvalue
    rw [hvalue]

/-! ## Numerals -/

/-- a numeral is the digits of a number, behind a dash if it is negative -/
theorem toList_toString (i : ℤ) :
    (toString i).toList = if 0 ≤ i then Nat.toDigits 10 i.natAbs else '-' :: Nat.toDigits 10 i.natAbs := by
  rw [Int.toString_eq_repr, Int.repr_eq_if]
  split_ifs with h
  · have hn : i.toNat = i.natAbs := by omega
    rw [Nat.toList_repr, hn]
  · have hn : (-i).toNat = i.natAbs := by omega
    rw [String.toList_append, Nat.toList_repr, hn]
    rfl

theorem mem_toString (hc : c ∈ (toString i).toList) : c = '-' ∨ c.isDigit = true := by
  rw [toList_toString] at hc
  split_ifs at hc
  · exact Or.inr (isDigit_toDigits _ c hc)
  · rcases List.mem_cons.1 hc with rfl | hc
    · exact Or.inl rfl
    · exact Or.inr (isDigit_toDigits _ c hc)

theorem isBlank_of_isDigit (h : c.isDigit = true) : isBlank c = false := by
  have hc := Char.isDigit_iff_toNat.1 h
  have h0 : '0'.toNat = 48 := rfl
  have h9 : '9'.toNat = 57 := rfl
  simp only [isBlank, Bool.or_eq_false_iff, Bool.and_eq_false_iff, decide_eq_false_iff_not, beq_eq_false_iff_ne]
  omega

theorem dropWhile_isBlank (h : ∀ c ∈ cs, isBlank c = false) : cs.dropWhile isBlank = cs := by
  cases cs with
  | nil => rfl
  | cons c r => exact List.dropWhile_cons_of_neg (by simp [h c List.mem_cons_self])

theorem trim_of_not_isBlank (h : ∀ c ∈ cs, isBlank c = false) : trim cs = cs := by
  rw [trim, dropWhile_isBlank h, dropWhile_isBlank fun c hc => h c (List.mem_reverse.1 hc), List.reverse_reverse]

theorem readSigned_toString (i : ℤ) : readSigned (toString i).toList = some i := by
  have hdigits := readDigits_toDigits i.natAbs
  rw [toList_toString]
  split_ifs with h
  · have hi : (i.natAbs : ℤ) = i := Int.natAbs_of_nonneg h
    have hfirst : ∀ c r, Nat.toDigits 10 i.natAbs = c :: r → c.isDigit = true := fun c _ hr =>
      isDigit_toDigits _ c (hr ▸ List.mem_cons_self)
    rw [readSigned, hdigits]
    · exact congrArg some hi
    -- a digit is no sign
    · exact fun r hr => absurd (hfirst _ r hr) (by decide)
    · exact fun r hr => absurd (hfirst _ r hr) (by decide)
  · have hi : -(i.natAbs : ℤ) = i := by omega
    rw [readSigned, hdigits]
    exact congrArg some hi

/-- the sign does not count, and a number below a power of ten has no more digits than its exponent says -/
theorem digitCount_toString (h : isLongNumber i = false) : digitCount (toString i).toList ≤ digitBound := by
  have hcount : digitCount (toString i).toList = digitCount (Nat.toDigits 10 i.natAbs) := by
    rw [toList_toString]
    split_ifs <;> rfl
  have hpos : 0 < digitBound := by decide
  simp only [isLongNumber, decide_eq_false_iff_not, not_le] at h
  generalize digitBound = bound at h hpos ⊢
  calc digitCount (toString i).toList = digitCount (Nat.toDigits 10 i.natAbs) := hcount
    _ ≤ (Nat.toDigits 10 i.natAbs).length := List.length_filter_le _ _
    _ ≤ bound := (Nat.length_toDigits_le_iff (by decide) hpos).2 h

/-- **Numerals are read back.** A number that is not too long to be written is read from what is written for it. -/
theorem readInt_toString (h : isLongNumber i = false) : readInt (toString i) = some i := by
  have hblank : ∀ c ∈ (toString i).toList, isBlank c = false := by
    intro c hc
    rcases mem_toString hc with rfl | hc
    · rfl
    · exact isBlank_of_isDigit hc
  have hcount : ((toString i).toList.filter isDigit).length ≤ digitBound := digitCount_toString h
  rw [readInt, if_pos hcount, trim_of_not_isBlank hblank, readSigned_toString]

end ChipEight.Text
