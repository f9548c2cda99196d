/-
Properties that operations keep. Runs, frames and batches of events are made of few parts, so that a property which
those parts keep (`Kept`) holds on after any sequence of operations (`Kept.after`), and of every reachable machine if it
holds at every start (`Kept.reachable`). Mostly the part to look at is the single instruction (`Kept.of_perform`).
Failures need no case of their own: what an operation did before it failed is made of the same parts.
-/
import ChipEight.Operation
import ChipEight.Proofs.Perform

namespace ChipEight

variable {σ : Type}

/-! ## Going on -/

theorem Outcome.andThen_of_none {o : Outcome σ} (h : o.fault = none) (g : Machine σ → Outcome σ) :
    o.andThen g = { g o.machine with notices := o.notices ++ (g o.machine).notices } := by
  simp only [Outcome.andThen, h]

/-- events change nothing but the keypad -/
theorem Machine.applyEvents_eq (m : Machine σ) (batch : List Event) :
    ∃ p, m.applyEvents batch = { m with keypad := p } := by
  unfold Machine.applyEvents
  induction batch generalizing m with
  | nil => exact ⟨m.keypad, rfl⟩
  | cons e batch ih =>
    obtain ⟨p, hp⟩ := ih (m.applyEvent e)
    refine ⟨p, hp.trans ?_⟩
    unfold Machine.applyEvent
    split <;> rfl

variable [RandomSource σ]

theorem Outcome.steps_of_fault {o : Outcome σ} {f : Fault} (h : o.fault = some f) (n : ℕ) : o.steps n = o := by
  cases n with
  | zero => rfl
  | succ n => simp [Outcome.steps, h]

theorem Outcome.steps_succ {o : Outcome σ} (h : o.fault = none) (n : ℕ) :
    o.steps (n + 1) = (o.andThen Machine.step).steps n := by
  simp [Outcome.steps, h]

theorem Outcome.steps_add (o : Outcome σ) (i j : ℕ) : (o.steps i).steps j = o.steps (i + j) := by
  induction i generalizing o with
  | zero => rw [Nat.zero_add]; rfl
  | succ i ih =>
    cases hf : o.fault with
    | some f => rw [steps_of_fault hf, steps_of_fault hf, steps_of_fault hf]
    | none => rw [Nat.succ_add, steps_succ hf, steps_succ hf, ih]

namespace Machine

theorem after_cons (m : Machine σ) (o : Operation) (ops : List Operation) :
    m.after (o :: ops) = (m.operate o).machine.after ops := rfl

theorem after_append (m : Machine σ) (ops ops' : List Operation) : m.after (ops ++ ops') = (m.after ops).after ops' :=
  List.foldl_append

theorem frame_of_fault {m : Machine σ} {cycles : ℤ} {f : Fault} (h : (m.run cycles.toNat).fault = some f)
    (playing : Bool) :
    m.frame cycles playing =
      ⟨(m.run cycles.toNat).machine, (m.run cycles.toNat).notices, playing, none, some f⟩ := by
  simp only [frame, h]

theorem frame_machine_of_none {m : Machine σ} {cycles : ℤ} (h : (m.run cycles.toNat).fault = none) (playing : Bool) :
    (m.frame cycles playing).machine = (m.run cycles.toNat).machine.tick := by
  simp only [frame, h]

/-- a property of machines that is kept by all that operations are made of -/
structure Kept (P : Machine σ → Prop) : Prop where
  step : ∀ m, P m → P m.step.machine
  execute : ∀ m (w : UInt16), P m → P (m.execute w.toNat).machine
  tick : ∀ m, P m → P m.tick
  keys : ∀ m (p : Keypad), P m → P { m with keypad := p }
  pixels : ∀ m (s : Display), P m → P { m with screen := s }
  reset : ∀ m, P m → P m.reset

namespace Kept

variable {P : Machine σ → Prop} {m : Machine σ}

/-- what single instructions keep, whatever opcode they are and wherever `pc` stands, the execution of opcodes keeps -/
theorem of_perform (hperform : ∀ m i, P m → P (m.perform i).machine)
    (hnext : ∀ m, P m → P { m with pc := next m.pc }) (hopcode : ∀ m (w : ℕ), P m → P { m with opcode := w })
    (tick : ∀ m, P m → P m.tick) (keys : ∀ m (p : Keypad), P m → P { m with keypad := p })
    (pixels : ∀ m (s : Display), P m → P { m with screen := s }) (reset : ∀ m, P m → P m.reset) : Kept P := by
  have hexecute (m : Machine σ) (w : ℕ) (hm : P m) : P (m.execute w).machine := by
    rcases execute_cases m w with ⟨-, he⟩ | ⟨i, -, he⟩ <;> rw [he]
    · exact hopcode m w hm
    · exact hperform _ i (hopcode m w hm)
  exact ⟨fun m hm => hexecute _ _ (hnext m hm), fun m w hm => hexecute m _ hm, tick, keys, pixels, reset⟩

theorem steps (h : Kept P) (n : ℕ) (o : Outcome σ) (ho : P o.machine) : P (o.steps n).machine := by
  induction n generalizing o with
  | zero => exact ho
  | succ n ih =>
    cases hf : o.fault with
    | some f => rwa [Outcome.steps_of_fault hf]
    | none =>
      rw [Outcome.steps_succ hf]
      apply ih
      rw [Outcome.andThen_of_none hf]
      exact h.step _ ho

theorem run (h : Kept P) (n : ℕ) (hm : P m) : P (m.run n).machine := h.steps n _ hm

theorem applyEvents (h : Kept P) (batch : List Event) (hm : P m) : P (m.applyEvents batch) := by
  obtain ⟨p, hp⟩ := applyEvents_eq m batch
  rw [hp]
  exact h.keys m p hm

theorem frame (h : Kept P) (cycles : ℤ) (playing : Bool) (hm : P m) : P (m.frame cycles playing).machine := by
  have hr := h.run cycles.toNat hm
  cases hf : (m.run cycles.toNat).fault with
  | some f => rwa [frame_of_fault hf]
  | none => rw [frame_machine_of_none hf]; exact h.tick _ hr

theorem setKey (h : Kept P) (index : ℤ) (down : Bool) (hm : P m) : P (m.operate (.setKey index down)).machine := by
  simp only [operate, Machine.setKey]
  cases m.keypad.set index down with
  | ok p => exact h.keys m p hm
  | error e => exact hm

theorem setPixel (h : Kept P) (x y : ℤ) (lit : Bool) (hm : P m) : P (m.operate (.setPixel x y lit)).machine := by
  simp only [operate, Machine.setPixel]
  cases m.screen.set x y lit with
  | ok s => exact h.pixels m s hm
  | error e => exact hm

theorem operate (h : Kept P) (o : Operation) (hm : P m) : P (m.operate o).machine := by
  cases o with
  | step => exact h.step m hm
  | execute w => exact h.execute m w hm
  | tick => exact h.tick m hm
  | setKey index down => exact h.setKey index down hm
  | setPixel x y lit => exact h.setPixel x y lit hm
  | events batch => exact h.applyEvents batch hm
  | frame cycles playing => exact h.frame cycles playing hm
  | reset => exact h.reset m hm

/-- **What operations keep.** A property that all parts of operations keep outlives any sequence of operations, whether
they fail or not. -/
theorem after (h : Kept P) (ops : List Operation) (hm : P m) : P (m.after ops) := by
  induction ops generalizing m with
  | nil => exact hm
  | cons o ops ih => exact ih (h.operate o hm)

/-- a kept property that holds at every start holds of every reachable machine -/
theorem reachable (h : Kept P) (hboot : ∀ rom random, P (boot rom random)) (hm : m.Reachable) : P m := by
  obtain ⟨rom, random, ops, rfl⟩ := hm
  exact h.after ops (hboot rom random)

end Kept

end Machine

end ChipEight
