/-
Waiting for a key. A machine that finds an opcode `Fx0A` at `pc` while no key is down (`Waiting`) steps back onto that
opcode and changes nothing but the record of the last opcode (`step_of_waiting`), wherever `pc` stands, so that it waits
on through any number of steps, of ticks and of keys let go (`Waiting.after`). Once a key is down the step ends the wait
with the lowest one (`key_wait_blocks`).
-/
import ChipEight.Proofs.Faults
import ChipEight.Proofs.Deeds

namespace ChipEight

/-! ## Keys -/

namespace Keypad

variable {p : Keypad} {k : Key}

theorem lowest?_eq_none_iff : p.lowest? = none ↔ ∀ k, p.holds k = false := by
  unfold lowest?
  simp

/-- the key that is found is down, and none below it is -/
theorem lowest?_eq_some_iff : p.lowest? = some k ↔ p.holds k = true ∧ ∀ j < k, p.holds j = false := by
  unfold lowest?
  rw [← Fin.find?_eq_find?_finRange, Fin.find?_eq_some_iff]

/-- some key is the lowest of those that are down -/
theorem exists_lowest (h : ∃ k, p.holds k = true) : ∃ k, p.lowest? = some k := by
  obtain ⟨k, hk⟩ := h
  cases hp : p.lowest? with
  | none =>
    rw [lowest?_eq_none_iff.1 hp k] at hk
    cases hk
  | some k => exact ⟨k, rfl⟩

/-- a key that is let go was up before or is up now -/
theorem put_false (h : ∀ k, p.holds k = false) (k : Key) : p.put k false = p := by
  have hk : p.down[k] = false := h k
  unfold put
  congr
  rw [← hk]
  exact Vector.set_getElem_self k.isLt

end Keypad

namespace Machine

variable {σ : Type} {m n : Machine σ} {x : Reg}

/-! ## Machines that wait -/

/-- at `pc` stands an opcode that waits for a key, and no key is down -/
structure Waiting (m : Machine σ) (x : Reg) : Prop where
  pc : m.pc < 0x10000
  word : m.fetch = 0xF00A + 0x100 * x
  keys : ∀ k, m.keypad.holds k = false

/-- two machines that differ at most in their timers and in the record of the last opcode -/
def Still (m n : Machine σ) : Prop := ∃ delay sound opcode, n = { m with delay, sound, opcode }

theorem Still.refl (m : Machine σ) : Still m m := ⟨m.delay, m.sound, m.opcode, rfl⟩

theorem Still.trans {l : Machine σ} (h : Still m n) (h' : Still n l) : Still m l := by
  obtain ⟨delay, sound, opcode, rfl⟩ := h
  obtain ⟨delay', sound', opcode', rfl⟩ := h'
  exact ⟨delay', sound', opcode', rfl⟩

/-- the timers and the last opcode have no part in a wait -/
theorem Waiting.of_still (h : m.Waiting x) (hn : Still m n) : n.Waiting x := by
  obtain ⟨delay, sound, opcode, rfl⟩ := hn
  exact ⟨h.pc, h.word, h.keys⟩

variable [RandomSource σ]

/-! ## One step -/

theorem encodes_waitKey (x : Reg) : Instruction.Encodes (0xF00A + 0x100 * x) (.waitKey x) := by
  have hword : 0xF00A + 0x100 * (x : ℕ) = 0x1000 * 0xF + 0x100 * x + 0x0A := by omega
  obtain ⟨hf, hx, hb⟩ := Opcode.of_byte (by decide) (by decide) hword
  exact ⟨hf, hb, hx.symm⟩

theorem step_of_waitKey (hw : m.fetch = 0xF00A + 0x100 * x) :
    m.step = { m with pc := next m.pc, opcode := m.fetch }.perform (.waitKey x) := by
  unfold step
  rw [execute_of_encodes _ (hw ▸ encodes_waitKey x)]

/-- a machine that waits steps back onto the opcode -/
theorem Waiting.step (h : m.Waiting x) : m.step = { machine := { m with opcode := m.fetch } } := by
  have hnone : m.keypad.lowest? = none := Keypad.lowest?_eq_none_iff.2 h.keys
  rw [step_of_waitKey h.word, perform_waitKey_none (m := { m with pc := next m.pc, opcode := m.fetch }) hnone]
  simp only [back_next h.pc]

/-- with a key down, the step goes on behind the opcode -/
theorem step_of_pressed {k : Key} (hpc : m.pc < 0x10000) (hw : m.fetch = 0xF00A + 0x100 * x)
    (hk : m.keypad.lowest? = some k) :
    m.step =
      { machine := { m with pc := next m.pc, opcode := m.fetch }.setReg x (UInt8.ofNat k)
        notices := #[.keyTaken k m.pc] } := by
  rw [step_of_waitKey hw, perform_waitKey_some (m := { m with pc := next m.pc, opcode := m.fetch }) hk]
  simp only [back_next hpc]

/-! ## Work that does not end the wait -/

theorem operate_setKey (m : Machine σ) (index : ℤ) (down : Bool) :
    (m.operate (.setKey index down)).machine = m ∨
      ∃ k, (m.operate (.setKey index down)).machine = { m with keypad := m.keypad.put k down } := by
  simp only [operate, setKey, Keypad.set]
  cases Key.ofInt index with
  | ok k => exact Or.inr ⟨k, rfl⟩
  | error e => exact Or.inl rfl

theorem Waiting.operate (h : m.Waiting x) {o : Operation}
    (ho : o = .step ∨ o = .tick ∨ ∃ index, o = .setKey index false) : Still m (m.operate o).machine := by
  rcases ho with rfl | rfl | ⟨index, rfl⟩
  · rw [operate_step, h.step]
    exact ⟨m.delay, m.sound, m.fetch, rfl⟩
  · exact ⟨m.tick.delay, m.tick.sound, m.opcode, rfl⟩
  · rcases operate_setKey m index false with he | ⟨k, he⟩
    · rw [he]
      exact .refl m
    · rw [he, Keypad.put_false h.keys]
      exact .refl m

/-- **A wait lasts.** Steps, ticks and keys let go leave a machine that waits as it is, however many they are. -/
theorem Waiting.after (h : m.Waiting x) {ops : List Operation}
    (hops : ∀ o ∈ ops, o = .step ∨ o = .tick ∨ ∃ index, o = .setKey index false) : Still m (m.after ops) := by
  induction ops generalizing m with
  | nil => exact .refl m
  | cons o ops ih =>
    have hstill := h.operate (hops o List.mem_cons_self)
    rw [after_cons]
    exact hstill.trans (ih (h.of_still hstill) fun o' ho' => hops o' (List.mem_cons_of_mem o ho'))

/-- ticks and writes of keys change the timers and the keypad only -/
theorem after_keys (m : Machine σ) {ops : List Operation}
    (hops : ∀ o ∈ ops, o = .tick ∨ ∃ index down, o = .setKey index down) :
    ∃ delay sound keypad, m.after ops = { m with delay, sound, keypad } := by
  induction ops generalizing m with
  | nil => exact ⟨m.delay, m.sound, m.keypad, rfl⟩
  | cons o ops ih =>
    obtain ⟨delay, sound, keypad, hrest⟩ :=
      ih (m.operate o).machine fun o' ho' => hops o' (List.mem_cons_of_mem o ho')
    rw [after_cons, hrest]
    rcases hops o List.mem_cons_self with rfl | ⟨index, down, rfl⟩
    · exact ⟨delay, sound, keypad, rfl⟩
    · rcases operate_setKey m index down with he | ⟨k, he⟩ <;> rw [he] <;> exact ⟨delay, sound, keypad, rfl⟩

/-! ## Main result -/

/-- the next step of a machine ends its wait at `pc` for a key with the key `k`, the lowest one that is down -/
structure Wakes (m : Machine σ) (pc : ℕ) (x : Reg) (k : Key) : Prop where
  down : m.keypad.holds k = true
  lowest : ∀ j < k, m.keypad.holds j = false
  machine : m.step.machine = { m with pc := (pc + 2) % 0x10000, opcode := m.fetch }.setReg x (UInt8.ofNat k)
  stored : (m.step.machine.reg x).toNat = k
  line : m.step.notices.toList.map Notice.text =
    ["Key " ++ String.ofList (Text.Hex.digits k) ++ " pressed, wait at " ++ Text.Hex.word pc ++ " done"]
  fault : m.step.fault = none

theorem wakes_of_pressed {k : Key} (hpc : m.pc < 0x10000) (hw : m.fetch = 0xF00A + 0x100 * x)
    (hk : m.keypad.lowest? = some k) : m.Wakes m.pc x k := by
  obtain ⟨hdown, hlowest⟩ := Keypad.lowest?_eq_some_iff.1 hk
  have hstep := step_of_pressed hpc hw hk
  constructor
  · exact hdown
  · exact hlowest
  · rw [hstep]
    rfl
  · rw [hstep]
    simp only [reg_setReg_self]
    exact UInt8.toNat_ofNat_of_lt (Nat.lt_trans k.isLt (by decide))
  · rw [hstep]
    rfl
  · rw [hstep]

/-- **A wait for a key blocks without side effects and wakes with the lowest key.** A reachable machine with no key down
is at an opcode `Fx0A`. Whatever steps, ticks and keys let go follow, the machine stays at this opcode, wherever it
stands, and each step executes it again, tells nothing and changes nothing but the record of the last opcode. If keys
are pressed then, the next step stores the lowest that is down, goes on behind the opcode and tells of the key and of
the place. -/
theorem key_wait_blocks (h : m.Reachable) (hw : m.fetch = 0xF00A + 0x100 * x)
    (hkeys : ∀ k, m.keypad.holds k = false) (ops : List Operation)
    (hops : ∀ o ∈ ops, o = .step ∨ o = .tick ∨ ∃ index, o = .setKey index false) :
    (∀ pre, pre <+: ops → Still m (m.after pre) ∧ (m.after pre).fetch = m.fetch ∧
      (m.after pre).step = { machine := { m.after pre with opcode := m.fetch } }) ∧
    ∀ presses : List Operation, (∀ o ∈ presses, o = .tick ∨ ∃ index down, o = .setKey index down) →
      (∃ k, ((m.after ops).after presses).keypad.holds k = true) →
        ∃ k, ((m.after ops).after presses).Wakes m.pc x k := by
  have hwait : m.Waiting x := ⟨h.addressed.pc, hw, hkeys⟩
  constructor
  · intro pre hpre
    have hstill := hwait.after fun o ho => hops o (hpre.subset ho)
    have hpre := hwait.of_still hstill
    have hfetch : (m.after pre).fetch = m.fetch := hpre.word.trans hw.symm
    refine ⟨hstill, hfetch, ?_⟩
    rw [← hfetch]
    exact hpre.step
  · intro presses hpresses hdown
    obtain ⟨delay, sound, opcode, hstill⟩ := hwait.after hops
    obtain ⟨delay', sound', keypad, hafter⟩ := after_keys (m.after ops) hpresses
    rw [hstill] at hafter
    rw [hstill, hafter] at hdown ⊢
    obtain ⟨k, hk⟩ := Keypad.exists_lowest hdown
    exact ⟨k, wakes_of_pressed (m := { m with delay := delay', sound := sound', opcode, keypad }) hwait.pc hw hk⟩

/-- a program with a wait for a key in the last bytes of memory -/
def lastWait : Rom := ⟨Array.replicate 3582 0 ++ #[0xF3, 0x0A], by simp [programRoom]⟩

/-- the program in execution there, at the last even address -/
def lastWaitAt : Machine Cycle := { boot lastWait (Cycle.mk #[] 0) with pc := 0xFFFE, opcode := 0xF00A }

theorem fetch_lastWaitAt : lastWaitAt.fetch = 0xF30A := by
  have hhigh : lastWait.byteAt 0xFFE = 0xF3 := by
    simp [Rom.byteAt, lastWait, programStart, Array.getD_eq_getD_getElem?]
  have hlow : lastWait.byteAt 0xFFF = 0x0A := by
    simp [Rom.byteAt, lastWait, programStart, Array.getD_eq_getD_getElem?]
  have hpc : lastWaitAt.pc = 0xFFFE := rfl
  rw [fetch_of_image (m := lastWaitAt) lastWait rfl, hpc]
  simp only [Nat.reduceAdd, Nat.reduceMod, hhigh, hlow]
  rfl

/-- a jump to the bottom of memory and a wait there lead to the top of the addresses -/
theorem lastWaitAt_reachable : lastWaitAt.Reachable := by
  let start := boot lastWait (Cycle.mk #[] 0)
  have hjump : (start.execute 0x1000).machine = { start with pc := 0, opcode := 0x1000 } := rfl
  have hwait : ({ start with pc := 0, opcode := 0x1000 }.execute 0xF00A).machine = lastWaitAt := by
    rw [execute_of_encodes (w := 0xF00A) _ (encodes_waitKey 0), perform_waitKey_none (by decide)]
    rfl
  refine ⟨lastWait, Cycle.mk #[] 0, [.execute 0x1000, .execute 0xF00A], ?_⟩
  rw [← hwait, ← hjump]
  rfl

/-- the wait lasts among ticks and keys let go, one of which there is not, and ends with the lower of two keys -/
theorem key_wait_blocks_of_lastWait :
    let ops : List Operation := [.step, .tick, .setKey 99 false, .setKey 5 false, .step]
    let presses : List Operation := [.setKey 12 true, .setKey 7 true, .setKey (-1) true]
    lastWaitAt.Reachable ∧ lastWaitAt.fetch = 0xF30A ∧ Still lastWaitAt (lastWaitAt.after ops) ∧
      ((lastWaitAt.after ops).after presses).Wakes 0xFFFE 3 7 := by
  intro ops presses
  obtain ⟨hblocks, hwakes⟩ := key_wait_blocks (x := 3) lastWaitAt_reachable fetch_lastWaitAt (by decide) ops (by
    simp [ops])
  have hstill := (hblocks ops (List.prefix_refl ops)).1
  have hkeypad : ((lastWaitAt.after ops).after presses).keypad = (Keypad.released.put 12 true).put 7 true := by
    obtain ⟨delay, sound, opcode, he⟩ := hstill
    rw [he]
    rfl
  obtain ⟨k, hk⟩ := hwakes presses (by simp [presses]) ⟨7, by rw [hkeypad]; decide⟩
  have hseven : ∀ k : Key, ((Keypad.released.put 12 true).put 7 true).holds k = true →
      (∀ j < k, ((Keypad.released.put 12 true).put 7 true).holds j = false) → k = 7 := by
    decide
  obtain rfl := hseven k (hkeypad ▸ hk.down) (hkeypad ▸ hk.lowest)
  exact ⟨lastWaitAt_reachable, fetch_lastWaitAt, hstill, hk⟩

end Machine

end ChipEight
