/-
Starting over. Whatever happens to a machine, it keeps the program it was loaded with (`kept_rom`), so that a reset
finds that program again and puts every part of the machine where it is at the start of it (`boot_fresh`). Only the
random source is where the operations before have left it. From there on the machine does, reports and shows the same
as one that the program has just been loaded into (`reset_forgets`).
-/
import ChipEight.Proofs.Calls

namespace ChipEight.Machine

variable {σ : Type}

/-! ## The start of a program -/

/-- every part of a machine as it is at the start of a program -/
structure Fresh (bytes : Array UInt8) (random : σ) (m : Machine σ) : Prop where
  font : ∀ a < 80, m.memory.read a = ChipEight.font.getD a 0
  gap : ∀ a, 80 ≤ a → a < 0x200 → m.memory.read a = 0
  program : ∀ a, 0x200 ≤ a → a < 4096 → m.memory.read a = bytes.getD (a - 0x200) 0
  registers : ∀ x, m.reg x = 0
  index : m.index = 0
  pc : m.pc = 0x200
  stack : m.stack = [] ∧ m.sp = 0
  timers : m.delay = 0 ∧ m.sound = 0
  opcode : m.opcode = 0
  pixels : ∀ row ∈ m.picture, ∀ lit ∈ row, lit = false
  keys : ∀ k, m.keypad.holds k = false
  random : m.random = random

theorem boot_fresh (rom : Rom) (random : σ) : (boot rom random).Fresh rom.bytes random where
  font a ha := by
    simp only [boot, Rom.read_image, Nat.mod_eq_of_lt (show a < 4096 by omega), Rom.byteAt,
      if_pos (show a < programStart from Nat.lt_trans ha (by decide))]
  gap a ha ha' := by
    have hsize : ChipEight.font.size = 80 := rfl
    simp only [boot, Rom.read_image, Nat.mod_eq_of_lt (show a < 4096 by omega), Rom.byteAt,
      if_pos (show a < programStart from ha'), Array.getD_eq_getD_getElem?]
    rw [Array.getElem?_eq_none (by omega)]
    rfl
  program a ha ha' := by
    simp only [boot, Rom.read_image, Nat.mod_eq_of_lt ha', Rom.byteAt,
      if_neg (show ¬a < programStart from Nat.not_lt.2 ha)]
    rfl
  registers x := by simp [reg, boot]
  index := rfl
  pc := rfl
  stack := ⟨rfl, rfl⟩
  timers := ⟨rfl, rfl⟩
  opcode := rfl
  pixels row hrow lit hlit := by
    simp only [picture, boot, Screen.rows, Grid.rows, List.mem_map] at hrow
    obtain ⟨y, -, rfl⟩ := hrow
    obtain ⟨x, -, rfl⟩ := List.mem_map.1 hlit
    simp [Screen.blank]
  keys k := by simp [Keypad.holds, boot, Keypad.released]
  random := rfl

/-- a program that fits is loaded as at its start -/
theorem load_of_fits {bytes : Array UInt8} (h : bytes.size ≤ programRoom) (random : σ) :
    load bytes random = .ok (boot ⟨bytes, h⟩ random) := by
  simp only [load, Rom.ofBytes, dif_pos h, Except.map]

/-- a program that does not fit is refused, with its length -/
theorem load_eq_error_iff {bytes : Array UInt8} {random : σ} {e : RomTooLarge} :
    load bytes random = .error e ↔ 3584 < bytes.size ∧ e.size = bytes.size := by
  by_cases hfits : bytes.size ≤ programRoom
  · rw [load_of_fits hfits]
    exact ⟨nofun, fun h => absurd h.1 (Nat.not_lt.2 hfits)⟩
  · simp only [load, Rom.ofBytes, dif_neg hfits, Except.map, Except.error.injEq]
    constructor
    · rintro rfl
      exact ⟨Nat.not_le.1 hfits, rfl⟩
    · rintro ⟨-, he⟩
      exact congrArg RomTooLarge.mk he.symm

/-! ## Histories -/

/-- what an operation shows: the opcode that an execution hands back, unless it fails, why it failed, the picture behind
it, and the machine that it leaves -/
structure Shown (σ : Type) where
  opcode? : Option ℕ
  failure : Option Failure
  picture : Picture
  machine : Machine σ

variable [RandomSource σ]

def shows (m : Machine σ) (o : Operation) : Shown σ where
  opcode? := if (m.operate o).failure.isSome then none else o.opcode? m
  failure := (m.operate o).failure
  picture := (m.operate o).machine.picture
  machine := (m.operate o).machine

/-- what operations show one after the other -/
def history : Machine σ → List Operation → List (Shown σ)
  | _, [] => []
  | m, o :: ops => m.shows o :: history (m.operate o).machine ops

theorem history_append (m : Machine σ) (ops ops' : List Operation) :
    m.history (ops ++ ops') = m.history ops ++ (m.after ops).history ops' := by
  induction ops generalizing m with
  | nil => rfl
  | cons o ops ih => simp only [List.cons_append, history, ih, after_cons]

/-! ## Main result -/

/-- the program is kept, memory written over or not -/
theorem kept_rom (rom : Rom) : Kept fun m : Machine σ => m.rom = rom := by
  apply Kept.of_perform fun m i h => (perform_frame m i).1.trans h
  all_goals exact fun _ => by simp_all [tick, reset, boot]

/-- **A reset forgets all but the random source.** A program that fits is loaded and any operations follow, those that
fail and those that write over the program included. A reset then leaves the machine that loading the same program
with the random source of that moment gives, which is at its start in every part; and all further operations show the
same on both. -/
theorem reset_forgets (bytes : Array UInt8) (random : σ) (before behind : List Operation) (hfits : bytes.size ≤ 3584) :
    ∃ m fresh, load bytes random = .ok m ∧ load bytes (m.after before).random = .ok fresh ∧
      ((m.after before).operate .reset).failure = none ∧ (m.after before).reset = fresh ∧
      fresh.Fresh bytes (m.after before).random ∧ m.after (before ++ .reset :: behind) = fresh.after behind ∧
      m.history (before ++ .reset :: behind) =
        m.history before ++ (m.after before).shows .reset :: fresh.history behind := by
  let m := boot ⟨bytes, hfits⟩ random
  have hrom : (m.after before).rom = ⟨bytes, hfits⟩ := (kept_rom ⟨bytes, hfits⟩).after before rfl
  have hreset : (m.after before).reset = boot ⟨bytes, hfits⟩ (m.after before).random := by rw [reset, hrom]
  refine ⟨m, _, load_of_fits hfits random, load_of_fits hfits _, rfl, hreset,
    boot_fresh ⟨bytes, hfits⟩ _, ?_, ?_⟩
  · rw [after_append, after_cons, ← hreset]
    rfl
  · rw [history_append, ← hreset]
    rfl

/-- a program that stores registers over itself, and is reset after a random number and a failed return -/
theorem reset_forgets_of_overwriting :
    let bytes : Array UInt8 := #[0xA2, 0x00, 0xFF, 0x55]
    let before : List Operation := [.step, .step, .execute 0xC0FF, .execute 0x00EE, .setKey 16 true]
    bytes.size ≤ 3584 ∧ ∃ m fresh : Machine Cycle, load bytes (Cycle.mk #[7] 0) = .ok m ∧
      load bytes (m.after before).random = .ok fresh ∧ (m.after before).reset = fresh ∧
      fresh.Fresh bytes (m.after before).random ∧
      m.after (before ++ [.reset, .frame 2 false]) = fresh.after [.frame 2 false] := by
  intro bytes before
  refine ⟨by decide, ?_⟩
  obtain ⟨m, fresh, hm, hload, -, hreset, hfresh, hafter, -⟩ :=
    reset_forgets bytes (Cycle.mk #[7] 0) before [.frame 2 false] (by decide)
  exact ⟨m, fresh, hm, hload, hreset, hfresh, hafter⟩

end ChipEight.Machine
