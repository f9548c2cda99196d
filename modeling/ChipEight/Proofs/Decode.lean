/-
What words are read as. Every word has one of the sixteen families, so that the look-up of a family never fails; and a
word is read as an instruction exactly if it is one of the words that encode it (`decode_eq_some_iff`). So the only word
read as a return is `00EE`, and the words read as calls are those of family two.
-/
import Mathlib.Tactic
import ChipEight.Instruction

namespace ChipEight

open Opcode

theorem Opcode.family_lt (w : ℕ) : family w < 16 := Nat.mod_lt _ (by decide)

/-- a word is read digit by digit -/
theorem Opcode.of_digits {w f k : ℕ} {r s : Reg} (hf : f < 16) (hk : k < 16)
    (hw : w = 0x1000 * f + 0x100 * r + 0x10 * s + k) : family w = f ∧ x w = r ∧ y w = s ∧ n w = k := by
  unfold family x y n Nibble.low
  refine ⟨by omega, Fin.ext ?_, Fin.ext ?_, by omega⟩
  · simp only [Fin.ofNat]
    omega
  · simp only [Fin.ofNat]
    omega

/-- a word is read by its family, its register and its low byte -/
theorem Opcode.of_byte {w f b : ℕ} {r : Reg} (hf : f < 16) (hb : b < 256) (hw : w = 0x1000 * f + 0x100 * r + b) :
    family w = f ∧ x w = r ∧ w % 256 = b := by
  unfold family x Nibble.low
  refine ⟨by omega, Fin.ext ?_, by omega⟩
  simp only [Fin.ofNat]
  omega

theorem Opcode.toNat_kk (w : ℕ) : (kk w).toNat = w % 256 := by
  simp [kk]

/-- the last digit of the words for an operation on two registers -/
def Alu.digit : Alu → ℕ
  | copy => 0
  | or => 1
  | and => 2
  | xor => 3
  | add => 4
  | sub => 5
  | shr => 6
  | subFrom => 7
  | shl => 0xE

/-- the word for an operation on two registers -/
def Alu.word (op : Alu) (r s : Reg) : ℕ := 0x8000 + 0x100 * r + 0x10 * s + op.digit

theorem Alu.ofDigit?_eq_some_iff {k : ℕ} {op : Alu} : Alu.ofDigit? k = some op ↔ k = op.digit := by
  constructor
  · intro h
    unfold Alu.ofDigit? at h
    split at h
    case h_10 => nomatch h
    all_goals rw [← Option.some.inj h]; rfl
  · rintro rfl
    cases op <;> rfl

namespace Instruction

/-- does the word encode the instruction -/
def Encodes (w : ℕ) : Instruction → Prop
  | clear => w = 0x00E0
  | ret => w = 0x00EE
  | jump a => family w = 1 ∧ a = nnn w
  | call a => family w = 2 ∧ a = nnn w
  | skip (.byteIs r b) => family w = 3 ∧ r = x w ∧ b = kk w
  | skip (.byteIsNot r b) => family w = 4 ∧ r = x w ∧ b = kk w
  | skip (.same r s) => family w = 5 ∧ n w = 0 ∧ r = x w ∧ s = y w
  | load r b => family w = 6 ∧ r = x w ∧ b = kk w
  | addByte r b => family w = 7 ∧ r = x w ∧ b = kk w
  | alu op r s => family w = 8 ∧ n w = op.digit ∧ r = x w ∧ s = y w
  | skip (.differ r s) => family w = 9 ∧ n w = 0 ∧ r = x w ∧ s = y w
  | setIndex a => family w = 0xA ∧ a = nnn w
  | jumpOffset a => family w = 0xB ∧ a = nnn w
  | random r b => family w = 0xC ∧ r = x w ∧ b = kk w
  | draw r s k => family w = 0xD ∧ r = x w ∧ s = y w ∧ k = n w
  | skip (.keyDown r) => family w = 0xE ∧ w % 256 = 0x9E ∧ r = x w
  | skip (.keyUp r) => family w = 0xE ∧ w % 256 = 0xA1 ∧ r = x w
  | readDelay r => family w = 0xF ∧ w % 256 = 0x07 ∧ r = x w
  | waitKey r => family w = 0xF ∧ w % 256 = 0x0A ∧ r = x w
  | setDelay r => family w = 0xF ∧ w % 256 = 0x15 ∧ r = x w
  | setSound r => family w = 0xF ∧ w % 256 = 0x18 ∧ r = x w
  | addIndex r => family w = 0xF ∧ w % 256 = 0x1E ∧ r = x w
  | digit r => family w = 0xF ∧ w % 256 = 0x29 ∧ r = x w
  | decimal r => family w = 0xF ∧ w % 256 = 0x33 ∧ r = x w
  | save r => family w = 0xF ∧ w % 256 = 0x55 ∧ r = x w
  | restore r => family w = 0xF ∧ w % 256 = 0x65 ∧ r = x w

/-- the look-up of a family never fails -/
theorem decode_isOk (w : ℕ) : ∃ i, decode w = .ok i := by
  have h := family_lt w
  unfold decode
  split
  case h_17 =>
    -- the families of the cases before are all that there are
    interval_cases family w <;> contradiction
  all_goals exact ⟨_, rfl⟩

theorem encodes_of_ofLowByte? {w : ℕ} {i : Instruction} (hw : family w = 0xF)
    (h : ofLowByte? (x w) (w % 256) = some i) : Encodes w i := by
  unfold ofLowByte? at h
  split at h
  case h_10 => nomatch h
  all_goals
    rename_i hk
    rw [← Option.some.inj h]
    exact ⟨hw, hk, rfl⟩

theorem encodes_of_decode {w : ℕ} {i : Instruction} (h : decode w = .ok (some i)) : Encodes w i := by
  unfold decode at h
  split at h
  case h_1 =>
    split_ifs at h with h0 h1
    · rw [← Option.some.inj (Except.ok.inj h)]
      exact h0
    · rw [← Option.some.inj (Except.ok.inj h)]
      exact h1
    · simp at h
  case h_6 hf =>
    split_ifs at h with h0
    · rw [← Option.some.inj (Except.ok.inj h)]
      exact ⟨hf, h0, rfl, rfl⟩
    · simp at h
  case h_9 hf =>
    obtain ⟨op, hop, rfl⟩ := Option.map_eq_some_iff.1 (Except.ok.inj h)
    exact ⟨hf, Alu.ofDigit?_eq_some_iff.1 hop, rfl, rfl⟩
  case h_10 hf =>
    split_ifs at h with h0
    · rw [← Option.some.inj (Except.ok.inj h)]
      exact ⟨hf, h0, rfl, rfl⟩
    · simp at h
  case h_14 hf =>
    rw [← Option.some.inj (Except.ok.inj h)]
    exact ⟨hf, rfl, rfl, rfl⟩
  case h_15 hf =>
    split_ifs at h with h0 h1
    · rw [← Option.some.inj (Except.ok.inj h)]
      exact ⟨hf, h0, rfl⟩
    · rw [← Option.some.inj (Except.ok.inj h)]
      exact ⟨hf, h1, rfl⟩
    · simp at h
  case h_16 hf => exact encodes_of_ofLowByte? hf (Except.ok.inj h)
  case h_17 => nomatch h
  -- the families with one instruction each, by an address or by a register and a byte
  case h_2 hf | h_3 hf | h_11 hf | h_12 hf =>
    rw [← Option.some.inj (Except.ok.inj h)]
    exact ⟨hf, rfl⟩
  case h_4 hf | h_5 hf | h_7 hf | h_8 hf | h_13 hf =>
    rw [← Option.some.inj (Except.ok.inj h)]
    exact ⟨hf, rfl, rfl⟩

theorem decode_of_encodes {w : ℕ} {i : Instruction} (h : Encodes w i) : decode w = .ok (some i) := by
  cases i with
  | clear => rw [show w = 0x00E0 from h]; rfl
  | ret => rw [show w = 0x00EE from h]; rfl
  | skip t =>
    cases t with
    | byteIs r b | byteIsNot r b => obtain ⟨hf, rfl, rfl⟩ := h; simp only [decode, hf]
    | same r s | differ r s => obtain ⟨hf, hn, rfl, rfl⟩ := h; simp only [decode, hf, hn, if_true]
    | keyDown r | keyUp r => obtain ⟨hf, hk, rfl⟩ := h; simp [decode, hf, hk]
  | alu op r s =>
    obtain ⟨hf, hn, rfl, rfl⟩ := h
    simp only [decode, hf, Alu.ofDigit?_eq_some_iff.2 hn, Option.map_some]
  | draw r s k => obtain ⟨hf, rfl, rfl, rfl⟩ := h; simp only [decode, hf]
  | jump a | call a | setIndex a | jumpOffset a => obtain ⟨hf, rfl⟩ := h; simp only [decode, hf]
  | load r b | addByte r b | random r b => obtain ⟨hf, rfl, rfl⟩ := h; simp only [decode, hf]
  | _ => obtain ⟨hf, hk, rfl⟩ := h; simp only [decode, hf, hk, ofLowByte?]

/-- **What words are read as.** A word is read as an instruction exactly if it encodes it. -/
theorem decode_eq_some_iff (w : ℕ) (i : Instruction) : decode w = .ok (some i) ↔ Encodes w i :=
  ⟨encodes_of_decode, decode_of_encodes⟩

theorem encodes_draw (r s : Reg) {k : ℕ} (hk : k < 16) : Encodes (0xD000 + 0x100 * r + 0x10 * s + k) (draw r s k) := by
  obtain ⟨hf, hx, hy, hn⟩ := Opcode.of_digits (r := r) (s := s) (f := 0xD) (by decide) hk rfl
  exact ⟨hf, hx.symm, hy.symm, hn.symm⟩

theorem encodes_alu (op : Alu) (r s : Reg) : Encodes (op.word r s) (alu op r s) := by
  have hdigit : op.digit < 16 := by cases op <;> decide
  obtain ⟨hf, hx, hy, hn⟩ := Opcode.of_digits (r := r) (s := s) (f := 0x8) (by decide) hdigit rfl
  exact ⟨hf, hn, hx.symm, hy.symm⟩

theorem encodes_save (r : Reg) : Encodes (0xF000 + 0x100 * r + 0x55) (save r) := by
  obtain ⟨hf, hx, hb⟩ := Opcode.of_byte (r := r) (f := 0xF) (b := 0x55) (by decide) (by decide) rfl
  exact ⟨hf, hb, hx.symm⟩

theorem encodes_restore (r : Reg) : Encodes (0xF000 + 0x100 * r + 0x65) (restore r) := by
  obtain ⟨hf, hx, hb⟩ := Opcode.of_byte (r := r) (f := 0xF) (b := 0x65) (by decide) (by decide) rfl
  exact ⟨hf, hb, hx.symm⟩

theorem decode_eq_ret_iff (w : ℕ) : decode w = .ok (some ret) ↔ w = 0x00EE := decode_eq_some_iff w ret

theorem decode_eq_call_iff (w : ℕ) (a : Target) : decode w = .ok (some (call a)) ↔ family w = 2 ∧ a = nnn w :=
  decode_eq_some_iff w (call a)

end Instruction

end ChipEight
