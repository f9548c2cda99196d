/-
What the timers remember. A timer shows what was last stored into it, less one for each tick since then and never below
zero (`Timer.due`). One deed stores into a timer, ticks or leaves it alone (`Timer.read_left`), so by induction on the
deeds that lead to a machine its timers show what is due (`Leads.read`): after any operations, after failures, and at
every point of a frame (`timers_show_due`).
-/
import ChipEight.Proofs.Deeds
import ChipEight.Proofs.Footprints
import ChipEight.Proofs.Restart

namespace ChipEight

variable {σ : Type}

inductive Timer where
  | delay
  | sound
  deriving DecidableEq, Repr

namespace Timer

/-- what the timer shows -/
def read (m : Machine σ) : Timer → UInt8
  | delay => m.delay
  | sound => m.sound

def part : Timer → Part
  | delay => .delay
  | sound => .sound

/-- the low byte of the words that store a register into the timer -/
def code : Timer → ℕ
  | delay => 0x15
  | sound => 0x18

/-- does the word store a register into the timer -/
def StoredBy (t : Timer) (w : ℕ) : Prop := Opcode.family w = 0xF ∧ w % 256 = t.code

instance (t : Timer) (w : ℕ) : Decidable (t.StoredBy w) := by
  unfold StoredBy
  infer_instance

/-- what a deed stores into the timer: a new start zero, and an opcode that stores a register the value of that
register -/
def stored? (t : Timer) (d : Deed σ) : Option ℕ :=
  if d.work = .reset then some 0
  else match d.opcode? with
    | some w => if t.StoredBy w then some (d.machine.reg (Opcode.x w)).toNat else none
    | none => none

/-- what the deeds have last stored into the timer; zero if they have not -/
def lastStored (t : Timer) (ds : List (Deed σ)) : ℕ := (ds.reverse.findSome? t.stored?).getD 0

/-- how many of the deeds are ticks, of those behind the last that stores into the timer -/
def ticksSince (t : Timer) (ds : List (Deed σ)) : ℕ :=
  (ds.reverse.takeWhile fun d => (t.stored? d).isNone).countP fun d => d.work = .tick

/-- what the timer has to show after the deeds -/
def due (t : Timer) (ds : List (Deed σ)) : ℤ := max 0 (t.lastStored ds - t.ticksSince ds)

theorem lastStored_concat (t : Timer) (ds : List (Deed σ)) (d : Deed σ) :
    t.lastStored (ds ++ [d]) = (t.stored? d).getD (t.lastStored ds) := by
  unfold lastStored
  rw [List.reverse_concat, List.findSome?_cons]
  cases t.stored? d <;> rfl

theorem ticksSince_concat (t : Timer) (ds : List (Deed σ)) (d : Deed σ) :
    t.ticksSince (ds ++ [d]) =
      if (t.stored? d).isSome then 0 else t.ticksSince ds + if d.work = .tick then 1 else 0 := by
  unfold ticksSince
  rw [List.reverse_concat]
  cases h : t.stored? d with
  | some v => simp [h]
  | none => simp [h, List.countP_cons]

/-! ## One deed -/

theorem read_of_same {t : Timer} {m n : Machine σ} (h : t.part.Same m n) : t.read m = t.read n := by
  cases t <;> exact h

theorem read_tick (t : Timer) (m : Machine σ) : (t.read m.tick).toNat = (t.read m).toNat - 1 := by
  have hless (b : UInt8) : (if b = 0 then 0 else b - 1).toNat = b.toNat - 1 := by
    split_ifs with hb
    · rw [hb]
      rfl
    · have hpos : 1 ≤ b := by
        rw [UInt8.le_iff_toNat_le]
        exact Nat.pos_of_ne_zero fun h => hb (UInt8.toNat_inj.1 h)
      rw [UInt8.toNat_sub_of_le b 1 hpos]
      rfl
  cases t
  · exact hless m.delay
  · exact hless m.sound

variable [RandomSource σ]

theorem execute_storing {t : Timer} {w : ℕ} (hw : t.StoredBy w) (m : Machine σ) :
    t.read (m.execute w).machine = m.reg (Opcode.x w) := by
  cases t with
  | delay =>
    rw [m.execute_of_encodes (i := .setDelay (Opcode.x w)) ⟨hw.1, hw.2, rfl⟩]
    rfl
  | sound =>
    rw [m.execute_of_encodes (i := .setSound (Opcode.x w)) ⟨hw.1, hw.2, rfl⟩]
    rfl

theorem read_execute (t : Timer) (m : Machine σ) (w : ℕ) :
    t.read (m.execute w).machine = if t.StoredBy w then m.reg (Opcode.x w) else t.read m := by
  split_ifs with hw
  · exact execute_storing hw m
  · apply read_of_same
    apply Machine.execute_same
    cases t <;> exact hw

/-- a deed stores into a timer, ticks or leaves it alone -/
theorem read_left (t : Timer) {d : Deed σ} (hd : d.work.isFrame = false) :
    (t.read d.left).toNat =
      (t.stored? d).getD ((t.read d.machine).toNat - if d.work = .tick then 1 else 0) := by
  obtain ⟨m, o⟩ := d
  have heffect := m.effect hd
  unfold Deed.left stored? Deed.opcode?
  generalize (m.operate o).machine = n at heffect
  cases heffect with
  | executes w pc hw =>
    have hreset : o ≠ .reset := fun h => by simp [h, Operation.opcode?] at hw
    have htick : o ≠ .tick := fun h => by simp [h, Operation.opcode?] at hw
    have hexecute : t.read ({ m with pc }.execute w).machine = if t.StoredBy w then m.reg (Opcode.x w) else t.read m :=
      read_execute t { m with pc } w
    rw [hexecute]
    simp only [hreset, htick, hw, if_false]
    split_ifs <;> rfl
  | ticks => exact read_tick t m
  | restarts => cases t <;> rfl
  | writes p s ho => cases o <;> cases t <;> first | rfl | cases ho

end Timer

namespace Machine

open Timer

/-! ## Many deeds -/

theorem sounding_iff (m : Machine σ) : m.sounding = true ↔ 0 < m.sound.toNat := by
  unfold sounding
  rw [bne_iff_ne, Nat.pos_iff_ne_zero]
  exact not_congr UInt8.toNat_inj.symm

variable [RandomSource σ] {rom : Rom} {random : σ} {ds : List (Deed σ)} {n : Machine σ}

/-- by induction on the deeds: the last of them stores, ticks or leaves the timer alone -/
theorem Leads.read (h : Leads (boot rom random) ds n) (t : Timer) :
    (t.read n).toNat = t.lastStored ds - t.ticksSince ds := by
  induction h with
  | start => cases t <;> rfl
  | @next ds n h o ho ih =>
    have hleft := t.read_left (d := ⟨n, o⟩) ho
    rw [Deed.left] at hleft
    rw [hleft, ih, lastStored_concat, ticksSince_concat]
    cases t.stored? ⟨n, o⟩ with
    | some v => rfl
    | none => exact Nat.sub_sub _ _ _

theorem Leads.read_due (h : Leads (boot rom random) ds n) (t : Timer) : ((t.read n).toNat : ℤ) = t.due ds := by
  have hread := h.read t
  unfold due
  omega

theorem reg_of_readDelay {m : Machine σ} {o : Operation} {w : ℕ} (ho : o.opcode? m = some w)
    (hw : Opcode.family w = 0xF ∧ w % 256 = 0x07) : (m.operate o).machine.reg (Opcode.x w) = m.delay := by
  obtain ⟨pc, he⟩ := operate_of_encodes ho (i := .readDelay (Opcode.x w)) ⟨hw.1, hw.2, rfl⟩
  rw [he]
  exact reg_setReg_self _ _ _

/-! ## Main result -/

/-- what the timers of a machine show that deeds have led to, what an opcode that reads the delay reads, and when there
is a sound -/
structure Timed (ds : List (Deed σ)) (m : Machine σ) : Prop where
  due : ∀ t : Timer, ((t.read m).toNat : ℤ) = t.due ds
  reads : ∀ (o : Operation) (w : ℕ), o.opcode? m = some w → Opcode.family w = 0xF ∧ w % 256 = 0x07 →
    (((m.operate o).machine.reg (Opcode.x w)).toNat : ℤ) = Timer.delay.due ds
  sounding : m.sounding = true ↔ 0 < Timer.sound.due ds

theorem Leads.timed (h : Leads (boot rom random) ds n) : Timed ds n where
  due t := h.read_due t
  reads o w ho hw := by
    rw [reg_of_readDelay ho hw]
    exact h.read_due .delay
  sounding := by
    rw [sounding_iff, ← h.read_due .sound, Int.natCast_pos]
    rfl

/-- **What the timers show.** A program that fits is loaded, and any operations follow. At every point, in frames too,
each timer shows what was last stored into it since the last new start, less one for each tick since then and never
below zero; that is what a read of the delay gives, and there is a sound as long as it is positive for the sound timer.
A frame that does not fault ticks once, behind all its instructions, and one that faults does not tick. -/
theorem timers_show_due (bytes : Array UInt8) (random : σ) (hfits : bytes.size ≤ 3584) :
    ∃ m, load bytes random = .ok m ∧ ∀ ops : List Operation,
      Leads m (m.deeds ops) (m.after ops) ∧ Timed (m.deeds ops) (m.after ops) ∧
      (∀ ds, ds <+: m.deeds ops → ∃ n, Leads m ds n ∧ Timed ds n) ∧
      ∀ (cycles : ℤ) (playing : Bool),
        (((m.after ops).frame cycles playing).fault = none →
          ((m.after ops).deedsOf (.frame cycles playing)).map Deed.work =
            List.replicate cycles.toNat .step ++ [.tick]) ∧
        (((m.after ops).frame cycles playing).fault ≠ none →
          .tick ∉ ((m.after ops).deedsOf (.frame cycles playing)).map Deed.work) := by
  refine ⟨boot ⟨bytes, hfits⟩ random, load_of_fits hfits random, fun ops => ?_⟩
  have hleads := leads_deeds (boot ⟨bytes, hfits⟩ random) ops
  refine ⟨hleads, hleads.timed, ?_, ?_⟩
  · intro ds hds
    obtain ⟨n, hn⟩ := hleads.of_prefix hds
    exact ⟨n, hn, hn.timed⟩
  · intro cycles playing
    obtain ⟨hfree, hfault⟩ := frame_works ((boot ⟨bytes, hfits⟩ random).after ops) cycles playing
    refine ⟨hfree, fun h => ?_⟩
    obtain ⟨k, -, hworks⟩ := hfault h
    rw [hworks]
    intro htick
    cases List.eq_of_mem_replicate htick

/-- both timers are set, one of them twice, among ticks, a return that fails and a frame without instructions -/
theorem timers_show_due_of_two_stores :
    let ops : List Operation := [.execute 0x6005, .execute 0xF015, .execute 0xF018, .tick, .execute 0x6009,
      .execute 0xF018, .execute 0x00EE, .frame 0 false]
    (#[] : Array UInt8).size ≤ 3584 ∧ ∃ m, load #[] (Cycle.mk #[] 0) = .ok m ∧ Timed (m.deeds ops) (m.after ops) ∧
      Timer.delay.due (m.deeds ops) = 3 ∧ Timer.sound.due (m.deeds ops) = 8 := by
  intro ops
  obtain ⟨m, hm, h⟩ := timers_show_due #[] (Cycle.mk #[] 0) (by decide)
  refine ⟨by decide, m, hm, (h ops).2.1, ?_⟩
  obtain rfl := Except.ok.inj ((load_of_fits (by decide) (Cycle.mk #[] 0)).symm.trans hm)
  constructor <;> rfl

end Machine

end ChipEight
