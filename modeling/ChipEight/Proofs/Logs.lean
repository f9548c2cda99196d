/-
The machine's log. The words that are instructions are those of a short list (`Known`). Any other one is passed over,
and passing over it is noted with its four digits and changes nothing but the last opcode (`execute_ignored_iff`). An
instruction is noted only when it ends a wait for a key. So a deed logs at most one line (`Deed.line?`), and the log of
any operations is, in order, the lines of their deeds, the steps within frames included (`log_eq_lines`).
-/
import ChipEight.Proofs.Deeds
import ChipEight.Proofs.KeyWaits

namespace ChipEight

/-! ## Words that are instructions -/

namespace Opcode

/-- the words that are instructions -/
def Known (w : ℕ) : Prop :=
  w = 0x00E0 ∨ w = 0x00EE ∨
  family w ∈ [0x1, 0x2, 0x3, 0x4, 0x6, 0x7, 0xA, 0xB, 0xC, 0xD] ∨
  (family w = 0x5 ∨ family w = 0x9) ∧ n w = 0 ∨
  family w = 0x8 ∧ (n w ≤ 7 ∨ n w = 0xE) ∨
  family w = 0xE ∧ (w % 256 = 0x9E ∨ w % 256 = 0xA1) ∨
  family w = 0xF ∧ w % 256 ∈ [0x07, 0x0A, 0x15, 0x18, 0x1E, 0x29, 0x33, 0x55, 0x65]

instance (w : ℕ) : Decidable (Known w) :=
  inferInstanceAs (Decidable (_ ∨ _))

end Opcode

open Opcode

namespace Alu

theorem exists_digit_iff {k : ℕ} : (∃ op : Alu, k = op.digit) ↔ k ≤ 7 ∨ k = 0xE := by
  constructor
  · rintro ⟨op, rfl⟩
    cases op <;> decide
  · rintro (hk | rfl)
    · interval_cases k <;> exact ⟨_, ofDigit?_eq_some_iff.1 rfl⟩
    · exact ⟨.shl, rfl⟩

end Alu

namespace Instruction

theorem known_of_encodes {w : ℕ} {i : Instruction} (h : i.Encodes w) : Known w := by
  unfold Known
  cases i with
  | clear => exact .inl h
  | ret => exact .inr (.inl h)
  | alu op r s =>
    obtain ⟨hf, hn, -, -⟩ := h
    simp [hf, Alu.exists_digit_iff.1 ⟨op, hn⟩]
  | skip t => cases t <;> simp [h.1, h.2.1]
  | readDelay | waitKey | setDelay | setSound | addIndex | digit | decimal | save | restore => simp [h.1, h.2.1]
  | _ => simp [h.1]

theorem exists_encodes_of_known {w : ℕ} (h : Known w) : ∃ i : Instruction, i.Encodes w := by
  simp only [Known, List.mem_cons, List.not_mem_nil, or_false] at h
  rcases h with h | h | h | ⟨h | h, hn⟩ | ⟨h, hn⟩ | ⟨h, hb | hb⟩ | ⟨h, hb⟩
  · exact ⟨.clear, h⟩
  · exact ⟨.ret, h⟩
  · rcases h with h | h | h | h | h | h | h | h | h | h
    · exact ⟨.jump _, h, rfl⟩
    · exact ⟨.call _, h, rfl⟩
    · exact ⟨.skip (.byteIs _ _), h, rfl, rfl⟩
    · exact ⟨.skip (.byteIsNot _ _), h, rfl, rfl⟩
    · exact ⟨.load _ _, h, rfl, rfl⟩
    · exact ⟨.addByte _ _, h, rfl, rfl⟩
    · exact ⟨.setIndex _, h, rfl⟩
    · exact ⟨.jumpOffset _, h, rfl⟩
    · exact ⟨.random _ _, h, rfl, rfl⟩
    · exact ⟨.draw _ _ _, h, rfl, rfl, rfl⟩
  · exact ⟨.skip (.same _ _), h, hn, rfl, rfl⟩
  · exact ⟨.skip (.differ _ _), h, hn, rfl, rfl⟩
  · obtain ⟨op, hop⟩ := Alu.exists_digit_iff.2 hn
    exact ⟨.alu op _ _, h, hop, rfl, rfl⟩
  · exact ⟨.skip (.keyDown _), h, hb, rfl⟩
  · exact ⟨.skip (.keyUp _), h, hb, rfl⟩
  · rcases hb with hb | hb | hb | hb | hb | hb | hb | hb | hb
    · exact ⟨.readDelay _, h, hb, rfl⟩
    · exact ⟨.waitKey _, h, hb, rfl⟩
    · exact ⟨.setDelay _, h, hb, rfl⟩
    · exact ⟨.setSound _, h, hb, rfl⟩
    · exact ⟨.addIndex _, h, hb, rfl⟩
    · exact ⟨.digit _, h, hb, rfl⟩
    · exact ⟨.decimal _, h, hb, rfl⟩
    · exact ⟨.save _, h, hb, rfl⟩
    · exact ⟨.restore _, h, hb, rfl⟩

/-- the list of words is what decoding recognises, and the rest is what it finds nothing in -/
theorem decode_eq_none_iff (w : ℕ) : decode w = .ok none ↔ ¬Known w := by
  constructor
  · intro hd hknown
    obtain ⟨i, hi⟩ := exists_encodes_of_known hknown
    rw [decode_of_encodes hi] at hd
    nomatch hd
  · intro hunknown
    obtain ⟨i, hd⟩ := decode_isOk w
    cases i with
    | none => exact hd
    | some i => exact absurd (known_of_encodes (encodes_of_decode hd)) hunknown

end Instruction

/-! ## Four digits -/

/-- how a digit is written -/
def Nibble.char (k : Nibble) : Char :=
  #v['0', '1', '2', '3', '4', '5', '6', '7', '8', '9', 'A', 'B', 'C', 'D', 'E', 'F'][k]

/-- the four hexadecimal digits of a word -/
def Opcode.fourDigits (w : ℕ) : String :=
  String.ofList ([w / 4096, w / 256, w / 16, w].map fun k => (Nibble.low k).char)

namespace Text.Hex

theorem digit_eq (k : Nibble) : digit k = k.char := by
  revert k
  decide

/-- the last digit of a number filled up with zeros, and the number before it -/
theorem padded_succ (width k : ℕ) :
    padded '0' (width + 2) k = padded '0' (width + 1) (k / 16) ++ [digit (k % 16)] := by
  rcases Nat.lt_or_ge k 16 with hk | hk
  · have hzero : digits (k / 16) = ['0'] := by
      rw [Nat.div_eq_of_lt hk]
      exact digits_of_lt (by decide)
    simp [padded, digits_of_lt hk, hzero, Nat.mod_eq_of_lt hk, List.replicate_succ']
  · simp [padded, digits_of_ge hk]

theorem word_eq {w : ℕ} (h : w < 0x10000) : word w = fourDigits w := by
  have hfirst : padded '0' 1 (w / 16 / 16 / 16) = [digit (w / 16 / 16 / 16)] := by
    simp [padded, digits_of_lt (show w / 16 / 16 / 16 < 16 by omega)]
  have hdigit (k : ℕ) : digit (k % 16) = (Nibble.low k).char := digit_eq (Nibble.low k)
  have hhigh : digit (w / 16 / 16 / 16) = (Nibble.low (w / 4096)).char := by
    rw [← hdigit, Nat.div_div_eq_div_mul, Nat.div_div_eq_div_mul, Nat.mod_eq_of_lt (by omega)]
  rw [word, padded_succ, padded_succ, padded_succ, hfirst, hdigit, hdigit, hdigit, hhigh]
  simp [fourDigits, Nat.div_div_eq_div_mul]

end Text.Hex

/-! ## One word -/

namespace Notice

theorem text_unknownOpcode {w : ℕ} (hw : w < 0x10000) :
    (unknownOpcode w).text = "Ignoring unknown op-code: " ++ fourDigits w := by
  rw [← Text.Hex.word_eq hw]
  rfl

theorem text_keyTaken (k : Key) {a : ℕ} (ha : a < 0x10000) :
    (keyTaken k a).text =
      "Key " ++ String.ofList [k.char] ++ " pressed, wait at " ++ fourDigits a ++ " done" := by
  rw [← Text.Hex.word_eq ha, ← Text.Hex.digit_eq, ← Text.Hex.digits_of_lt k.isLt]
  rfl

theorem text_keyTaken_ne_text_unknownOpcode (k : Key) (a w : ℕ) : (keyTaken k a).text ≠ (unknownOpcode w).text := by
  intro h
  change "Key " ++ _ ++ _ ++ _ ++ _ = "Ignoring unknown op-code: " ++ _ at h
  -- the one begins with a K and the other with an I
  have hhead := congrArg (fun s => s.toList.head?) h
  simp at hhead

end Notice

variable {σ : Type} [RandomSource σ] {m : Machine σ} {w : ℕ}

namespace Machine

theorem perform_notices {i : Instruction} (hi : ∀ x, i ≠ .waitKey x) : (m.perform i).notices = #[] := by
  cases i with
  | waitKey x => exact absurd rfl (hi x)
  | ret => simp only [perform]; split <;> [rfl; (split <;> rfl)]
  | call nnn => simp only [perform]; split <;> rfl
  | skip t => rw [perform_skip]
  | draw x y n => rw [perform_draw]
  | _ => simp only [perform]

theorem execute_notices_of_unknown (h : ¬Known w) : (m.execute w).notices = #[.unknownOpcode w] := by
  rw [execute_of_unknown m ((Instruction.decode_eq_none_iff w).2 h)]

theorem execute_notices_of_wait (hf : family w = 0xF) (hb : w % 256 = 0x0A) :
    (m.execute w).notices = (m.keypad.lowest?.map fun k => Notice.keyTaken k (back m.pc)).toArray := by
  rw [execute_of_encodes m (i := .waitKey (x w)) ⟨hf, hb, rfl⟩]
  cases hk : m.keypad.lowest? with
  | none => rw [perform_waitKey_none (m := { m with opcode := w }) hk]; rfl
  | some k => rw [perform_waitKey_some (m := { m with opcode := w }) hk]; rfl

theorem execute_notices_of_other (h : Known w) (hwait : ¬(family w = 0xF ∧ w % 256 = 0x0A)) :
    (m.execute w).notices = #[] := by
  obtain ⟨i, hi⟩ := Instruction.exists_encodes_of_known h
  rw [execute_of_encodes m hi]
  refine perform_notices fun x hx => hwait ?_
  subst hx
  exact ⟨hi.1, hi.2.1⟩

/-- a word is noted as unknown, and changes nothing but the last opcode, exactly if it is not on the list -/
theorem execute_ignored_iff (m : Machine σ) (hw : w < 0x10000) :
    ((m.execute w).notices.toList.map Notice.text = ["Ignoring unknown op-code: " ++ fourDigits w] ∧
      (m.execute w).machine = { m with opcode := w } ∧ (m.execute w).fault = none) ↔ ¬Known w := by
  rw [← Notice.text_unknownOpcode hw]
  constructor
  · rintro ⟨hnotices, -, -⟩ hknown
    by_cases hwait : family w = 0xF ∧ w % 256 = 0x0A
    · rw [execute_notices_of_wait hwait.1 hwait.2] at hnotices
      cases hk : m.keypad.lowest? with
      | none => simp [hk] at hnotices
      | some k =>
        simp only [hk, Option.map_some, Option.toArray_some, List.map_cons, List.map_nil, List.cons.injEq,
          and_true] at hnotices
        exact Notice.text_keyTaken_ne_text_unknownOpcode k _ w hnotices
    · simp [execute_notices_of_other hknown hwait] at hnotices
  · intro hunknown
    rw [execute_of_unknown m ((Instruction.decode_eq_none_iff w).2 hunknown)]
    exact ⟨rfl, rfl, rfl⟩

end Machine

/-! ## Lines -/

/-- the line that is due for executing a word, if one is: the keys as they are then, the word at the address -/
def Keypad.line? (p : Keypad) (address w : ℕ) : Option String :=
  if ¬Known w then some ("Ignoring unknown op-code: " ++ fourDigits w)
  else if family w = 0xF ∧ w % 256 = 0x0A then
    p.lowest?.map fun k => "Key " ++ String.ofList [k.char] ++ " pressed, wait at " ++ fourDigits address ++ " done"
  else none

namespace Deed

/-- the address of the opcode that the deed executes: where a step fetches it, two before `pc` if it is not fetched -/
def address (d : Deed σ) : ℕ :=
  match d.work with
  | .step => d.machine.pc
  | _ => ((d.machine.pc - 2 : ℤ) % 0x10000).toNat

/-- the line that is due for the deed, if one is -/
def line? (d : Deed σ) : Option String := d.opcode?.bind (d.machine.keypad.line? d.address)

end Deed

namespace Machine

theorem execute_logs (m : Machine σ) (hw : w < 0x10000) :
    ((m.execute w).notices.toList.filter Notice.isOwn).map Notice.text = (m.keypad.line? (back m.pc) w).toList := by
  unfold Keypad.line?
  by_cases hknown : Known w
  · by_cases hwait : family w = 0xF ∧ w % 256 = 0x0A
    · rw [if_neg (not_not.2 hknown), if_pos hwait, execute_notices_of_wait hwait.1 hwait.2]
      cases m.keypad.lowest? with
      | none => rfl
      | some k => exact congrArg (fun s => [s]) (Notice.text_keyTaken k (back_lt m.pc))
    · rw [if_neg (not_not.2 hknown), if_neg hwait, execute_notices_of_other hknown hwait]
      rfl
  · rw [if_pos hknown, execute_notices_of_unknown hknown, ← Notice.text_unknownOpcode hw]
    rfl

theorem logged_eq_line? {d : Deed σ} (ho : d.work.isFrame = false) (hpc : d.machine.pc < 0x10000) :
    d.machine.logged d.work = d.line?.toList := by
  obtain ⟨m, o⟩ := d
  cases o with
  | step =>
    have hlogs := execute_logs { m with pc := next m.pc } m.fetch_lt
    rwa [show back (next m.pc) = m.pc from back_next hpc] at hlogs
  | execute w => exact execute_logs m w.toNat_lt
  | frame cycles playing => nomatch ho
  | _ => rfl

/-! ## Runs -/

/-- by induction on the instructions: those of a frame tell what its deeds do, the one that faults included -/
theorem steps_notices {o : Outcome σ} (ho : o.fault = none) (n : ℕ) :
    (o.steps n).notices.toList =
      o.notices.toList ++ (frameDeeds n o.machine).flatMap fun d => d.machine.told d.work := by
  induction n generalizing o with
  | zero => simp [Outcome.steps, frameDeeds, told]
  | succ n ih =>
    have hthen := Outcome.andThen_of_none ho step
    have hnotices : (o.andThen step).notices.toList = o.notices.toList ++ o.machine.told .step := by
      rw [hthen]
      exact Array.toList_append
    obtain ⟨hmachine, hfault⟩ := Outcome.andThen_step ho
    rw [Outcome.steps_succ ho]
    cases hf : o.machine.step.fault with
    | none =>
      rw [ih (hfault.trans hf), hnotices, hmachine, frameDeeds_succ hf, List.flatMap_cons, List.append_assoc]
    | some f =>
      rw [Outcome.steps_of_fault (hfault.trans hf), hnotices]
      simp [frameDeeds, hf]

theorem logged_frame (m : Machine σ) (cycles : ℤ) (playing : Bool) :
    m.logged (.frame cycles playing) =
      (m.deedsOf (.frame cycles playing)).flatMap fun d => d.machine.logged d.work := by
  have hsound (was is : Bool) : (soundNotices was is).toList.filter Notice.isOwn = [] := by
    cases was <;> cases is <;> rfl
  have hrun : (m.run cycles.toNat).notices.toList = _ := steps_notices (o := { machine := m }) rfl cycles.toNat
  have hframe : (m.told (.frame cycles playing)).filter Notice.isOwn =
      (m.run cycles.toNat).notices.toList.filter Notice.isOwn := by
    cases hf : (m.run cycles.toNat).fault with
    | none => simp [told, frame, hf, hsound]
    | some f => simp [told, frame, hf]
  simp only [logged, hframe, hrun, deedsOf]
  simp [List.filter_flatMap, List.map_flatMap]

/-- what operations log is what their deeds log -/
theorem log_eq_flatMap (m : Machine σ) (ops : List Operation) :
    m.log ops = (m.deeds ops).flatMap fun d => d.machine.logged d.work := by
  induction ops generalizing m with
  | nil => rfl
  | cons o ops ih =>
    have ho : m.logged o = (m.deedsOf o).flatMap fun d => d.machine.logged d.work := by
      cases o with
      | frame cycles playing => exact logged_frame m cycles playing
      | _ => exact (List.append_nil _).symm
    rw [log, deeds, List.flatMap_append, ho, ih]

/-- **The log tells of unknown words and of waits that end, and of nothing else.** In every reachable machine a word is
passed over, with a line of its four digits and no other change than the last opcode, exactly if it is not on the list
of instructions. So the log of any operations is, in order, the lines due for their deeds: one for each unknown word
that is executed, and one for each wait that ends, with the key and with the address that the wait was fetched from. -/
theorem log_eq_lines (h : m.Reachable) :
    (∀ w : UInt16, ((m.execute w.toNat).notices.toList.map Notice.text =
          ["Ignoring unknown op-code: " ++ fourDigits w.toNat] ∧
        (m.execute w.toNat).machine = { m with opcode := w.toNat } ∧ (m.execute w.toNat).fault = none) ↔
      ¬Known w.toNat) ∧
    ∀ ops, m.log ops = (m.deeds ops).filterMap Deed.line? := by
  refine ⟨fun w => execute_ignored_iff m w.toNat_lt, fun ops => ?_⟩
  rw [log_eq_flatMap, List.filterMap_eq_flatMap_toList]
  refine List.flatMap_congr fun d hd => ?_
  obtain ⟨hreach, hframe⟩ := (leads_deeds m ops).reachable h hd
  exact logged_eq_line? hframe hreach.addressed.pc

/-- a comparison with a last digit that it must not have, a key pressed, and a frame of the wait in the last bytes -/
theorem log_eq_lines_of_lastWait :
    let ops : List Operation := [.execute 0x5001, .setKey 7 true, .frame 1 false]
    lastWaitAt.Reachable ∧ ¬Known 0x5001 ∧
      lastWaitAt.log ops = ["Ignoring unknown op-code: 5001", "Key 7 pressed, wait at FFFE done"] := by
  intro ops
  obtain ⟨-, hlog⟩ := log_eq_lines lastWaitAt_reachable
  let pressed : Machine Cycle := { lastWaitAt with opcode := 0x5001, keypad := Keypad.released.put 7 true }
  have hfetch : pressed.fetch = 0xF30A := fetch_lastWaitAt
  have hkey : pressed.keypad.lowest? = some 7 := by decide
  have hstep : pressed.step.fault = none := by
    rw [step_of_pressed (x := 3) (by decide) hfetch hkey]
  have hdeeds : lastWaitAt.deeds ops = [⟨lastWaitAt, .execute 0x5001⟩, ⟨{ lastWaitAt with opcode := 0x5001 },
      .setKey 7 true⟩, ⟨pressed, .step⟩, ⟨pressed.step.machine, .tick⟩] :=
    congrArg (fun ds => _ :: _ :: (ds ++ [])) (frameDeeds_succ hstep 0)
  have hunknown : Deed.line? ⟨lastWaitAt, .execute 0x5001⟩ = some "Ignoring unknown op-code: 5001" := by
    rw [Deed.line?, show Deed.opcode? ⟨lastWaitAt, .execute 0x5001⟩ = some 0x5001 from rfl, Option.bind_some,
      Keypad.line?, if_pos (by decide)]
    rfl
  have hwait : Deed.line? ⟨pressed, .step⟩ = some "Key 7 pressed, wait at FFFE done" := by
    rw [Deed.line?, show Deed.opcode? ⟨pressed, .step⟩ = some 0xF30A from congrArg some hfetch, Option.bind_some,
      Keypad.line?, if_neg (by decide), if_pos (by decide), hkey, show Deed.address ⟨pressed, .step⟩ = 0xFFFE from rfl]
    rfl
  refine ⟨lastWaitAt_reachable, by decide, ?_⟩
  rw [hlog ops, hdeeds, List.filterMap_cons_some hunknown, List.filterMap_cons_none rfl,
    List.filterMap_cons_some hwait, List.filterMap_cons_none rfl, List.filterMap_nil]

end Machine

end ChipEight
