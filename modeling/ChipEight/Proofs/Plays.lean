/-
Plays as folds over batches of events. A frame takes in the key events of its batch, executes so many instructions and
ticks once (`afterFrame`); frames follow each other by a fold (`afterFrames`). As long as no step faults, a play has
polled one batch, drawn one picture and told the clock once for each frame (`through_of_free`). It ends with a batch
that asks to quit, of which only the events count, or with the first step that faults, in whose frame nothing is
ticked or drawn (`play_eq_fold`).
-/
import Mathlib.Data.List.TakeWhile
import ChipEight.Proofs.Operations

namespace ChipEight

variable {σ : Type}

theorem asksToQuit_iff {batch : List Event} :
    asksToQuit batch = true ↔ .quit ∈ batch ∨ .keyDown Event.escape ∈ batch := by
  unfold asksToQuit
  rw [List.any_eq_true]
  constructor
  · rintro ⟨e, he, hq⟩
    cases e with
    | quit => exact Or.inl he
    | keyDown code =>
      obtain rfl : code = Event.escape := by simpa [Event.quits] using hq
      exact Or.inr he
    | keyUp code => simp [Event.quits] at hq
    | other => simp [Event.quits] at hq
  · rintro (h | h)
    · exact ⟨_, h, rfl⟩
    · exact ⟨_, h, rfl⟩

theorem asksToQuit_eq_false_iff {batch : List Event} :
    asksToQuit batch = false ↔ .quit ∉ batch ∧ .keyDown Event.escape ∉ batch := by
  rw [Bool.eq_false_iff, Ne, asksToQuit_iff, not_or]

namespace Machine

variable [RandomSource σ]

/-! ## Steps -/

/-- the machine `k` steps on -/
def afterSteps (m : Machine σ) (k : ℕ) : Machine σ := (fun m => m.step.machine)^[k] m

/-- none of the next `k` steps faults -/
def StepsFree (m : Machine σ) (k : ℕ) : Prop := ∀ j < k, (m.afterSteps j).step.fault = none

theorem afterSteps_succ (m : Machine σ) (k : ℕ) : m.afterSteps (k + 1) = m.step.machine.afterSteps k :=
  Function.iterate_succ_apply _ k m

theorem afterSteps_add (m : Machine σ) (i j : ℕ) : m.afterSteps (i + j) = (m.afterSteps i).afterSteps j := by
  rw [afterSteps, Nat.add_comm, Function.iterate_add_apply]
  rfl

theorem stepsFree_succ {m : Machine σ} {k : ℕ} :
    m.StepsFree (k + 1) ↔ m.step.fault = none ∧ m.step.machine.StepsFree k := by
  constructor
  · intro h
    refine ⟨h 0 (Nat.succ_pos k), fun j hj => ?_⟩
    rw [← afterSteps_succ]
    exact h (j + 1) (Nat.succ_lt_succ hj)
  · rintro ⟨h0, h⟩ j hj
    cases j with
    | zero => exact h0
    | succ j => rw [afterSteps_succ]; exact h j (Nat.lt_of_succ_lt_succ hj)

theorem stepsFree_add {m : Machine σ} {i j : ℕ} (hi : m.StepsFree i) (hj : (m.afterSteps i).StepsFree j) :
    m.StepsFree (i + j) := by
  intro k hk
  rcases Nat.lt_or_ge k i with hki | hik
  · exact hi k hki
  · have h := hj (k - i) (by omega)
    rwa [← afterSteps_add, Nat.add_sub_cancel' hik] at h

theorem stepsFree_or_fault (m : Machine σ) (n : ℕ) :
    m.StepsFree n ∨ ∃ k < n, m.StepsFree k ∧ ∃ f, (m.afterSteps k).step.fault = some f := by
  induction n with
  | zero => exact Or.inl fun j hj => absurd hj (Nat.not_lt_zero j)
  | succ n ih =>
    rcases ih with h | ⟨k, hk, hfree, hf⟩
    · cases hf : (m.afterSteps n).step.fault with
      | none =>
        left
        intro j hj
        rcases Nat.lt_succ_iff_lt_or_eq.1 hj with hj | rfl
        · exact h j hj
        · exact hf
      | some f => exact Or.inr ⟨n, Nat.lt_succ_self n, h, f, hf⟩
    · exact Or.inr ⟨k, Nat.lt_succ_of_lt hk, hfree, hf⟩

end Machine

namespace Outcome

open Machine

variable [RandomSource σ] {o : Outcome σ}

theorem andThen_step (ho : o.fault = none) :
    (o.andThen step).machine = o.machine.step.machine ∧ (o.andThen step).fault = o.machine.step.fault := by
  rw [andThen_of_none ho]
  exact ⟨rfl, rfl⟩

theorem steps_of_free (ho : o.fault = none) {k : ℕ} (h : o.machine.StepsFree k) :
    (o.steps k).machine = o.machine.afterSteps k ∧ (o.steps k).fault = none := by
  induction k generalizing o with
  | zero => exact ⟨rfl, ho⟩
  | succ k ih =>
    obtain ⟨hm, hf⟩ := andThen_step ho
    obtain ⟨h0, h⟩ := stepsFree_succ.1 h
    rw [steps_succ ho, afterSteps_succ, ← hm]
    exact ih (hf.trans h0) (by rwa [hm])

/-- the steps behind the first one that faults change nothing any more -/
theorem steps_of_free_of_fault (ho : o.fault = none) {k n : ℕ} (hk : k < n) (h : o.machine.StepsFree k) {f : Fault}
    (hfault : (o.machine.afterSteps k).step.fault = some f) :
    (o.steps n).machine = (o.machine.afterSteps k).step.machine ∧ (o.steps n).fault = some f := by
  induction k generalizing o n with
  | zero =>
    obtain ⟨n, rfl⟩ := Nat.exists_eq_succ_of_ne_zero (Nat.ne_of_gt hk)
    obtain ⟨hm, hf⟩ := andThen_step ho
    rw [steps_succ ho, steps_of_fault (hf.trans hfault)]
    exact ⟨hm, hf.trans hfault⟩
  | succ k ih =>
    obtain ⟨n, rfl⟩ := Nat.exists_eq_succ_of_ne_zero (Nat.ne_of_gt (Nat.zero_lt_of_lt hk))
    obtain ⟨hm, hf⟩ := andThen_step ho
    obtain ⟨h0, h⟩ := stepsFree_succ.1 h
    rw [afterSteps_succ, ← hm] at hfault
    rw [steps_succ ho, afterSteps_succ, ← hm]
    exact ih (hf.trans h0) (Nat.lt_of_succ_lt_succ hk) (by rwa [hm]) hfault

end Outcome

namespace Machine

variable [RandomSource σ] {m : Machine σ} {cycles : ℤ}

theorem run_of_fault_none {i : ℕ} (h : (m.run i).fault = none) :
    m.StepsFree i ∧ (m.run i).machine = m.afterSteps i := by
  rcases m.stepsFree_or_fault i with hfree | ⟨k, hk, hfree, f, hf⟩
  · exact ⟨hfree, (Outcome.steps_of_free (o := { machine := m }) rfl hfree).1⟩
  · have hfault := (Outcome.steps_of_free_of_fault (o := { machine := m }) rfl hk hfree hf).2
    rw [run, hfault] at h
    nomatch h

/-! ## Frames -/

/-- the machine one frame on: the key events of a batch, so many steps (none if negative), and a tick -/
def afterFrame (cycles : ℤ) (m : Machine σ) (batch : List Event) : Machine σ :=
  ((m.applyEvents batch).afterSteps cycles.toNat).tick

/-- the machine after one frame for each batch -/
def afterFrames (cycles : ℤ) (m : Machine σ) (batches : List (List Event)) : Machine σ :=
  batches.foldl (afterFrame cycles) m

/-- no step of these frames faults -/
def FramesFree (cycles : ℤ) (m : Machine σ) (batches : List (List Event)) : Prop :=
  ∀ done batch, done ++ [batch] <+: batches →
    ((m.afterFrames cycles done).applyEvents batch).StepsFree cycles.toNat

/-- the pictures at the end of each of these frames -/
def framePictures (cycles : ℤ) (m : Machine σ) (batches : List (List Event)) : List Picture :=
  (List.range batches.length).map fun f => (m.afterFrames cycles (batches.take (f + 1))).picture

/-- the frames of all these batches go well, and step `k` of the frame behind them faults, the first to do so, in the
machine `before` -/
structure FaultsBehind (cycles : ℤ) (m : Machine σ) (done : List (List Event)) (batch : List Event) (before : Machine σ)
    (f : Fault) : Prop where
  frames : m.FramesFree cycles done
  steps : ∃ k < cycles.toNat, ((m.afterFrames cycles done).applyEvents batch).StepsFree k ∧
    before = ((m.afterFrames cycles done).applyEvents batch).afterSteps k
  fault : before.step.fault = some f

theorem Kept.afterSteps {P : Machine σ → Prop} (h : Kept P) (hm : P m) (k : ℕ) : P (m.afterSteps k) := by
  induction k generalizing m with
  | zero => exact hm
  | succ k ih =>
    rw [afterSteps_succ]
    exact ih (h.step m hm)

theorem Kept.afterFrames {P : Machine σ → Prop} (h : Kept P) (hm : P m) (batches : List (List Event)) :
    P (m.afterFrames cycles batches) := by
  induction batches generalizing m with
  | nil => exact hm
  | cons batch batches ih => exact ih (h.tick _ (h.afterSteps (h.applyEvents batch hm) cycles.toNat))

theorem framesFree_nil : FramesFree cycles m [] := fun _ _ h => absurd h (by simp)

theorem framesFree_cons {batch : List Event} {batches : List (List Event)} :
    FramesFree cycles m (batch :: batches) ↔
      (m.applyEvents batch).StepsFree cycles.toNat ∧ FramesFree cycles (m.afterFrame cycles batch) batches := by
  constructor
  · intro h
    exact ⟨h [] batch (by simp), fun done b hb => h (batch :: done) b (List.cons_prefix_cons.2 ⟨rfl, hb⟩)⟩
  · rintro ⟨hbatch, hrest⟩ done b hb
    cases done with
    | nil =>
      obtain ⟨rfl, -⟩ := List.cons_prefix_cons.1 hb
      exact hbatch
    | cons d done =>
      obtain ⟨rfl, hrestb⟩ := List.cons_prefix_cons.1 hb
      exact hrest done b hrestb

theorem FaultsBehind.cons {batch last : List Event} {done : List (List Event)} {before : Machine σ} {f : Fault}
    (hbatch : (m.applyEvents batch).StepsFree cycles.toNat)
    (h : FaultsBehind cycles (m.afterFrame cycles batch) done last before f) :
    FaultsBehind cycles m (batch :: done) last before f :=
  ⟨framesFree_cons.2 ⟨hbatch, h.frames⟩, h.steps, h.fault⟩

/-- either no step of these frames faults, or one is the first that does -/
theorem framesFree_or_fault (m : Machine σ) (cycles : ℤ) (batches : List (List Event)) :
    m.FramesFree cycles batches ∨
      ∃ done batch before f, done ++ [batch] <+: batches ∧ FaultsBehind cycles m done batch before f := by
  induction batches generalizing m with
  | nil => exact Or.inl framesFree_nil
  | cons batch batches ih =>
    rcases (m.applyEvents batch).stepsFree_or_fault cycles.toNat with h | ⟨k, hk, hfree, f, hf⟩
    · rcases ih (m.afterFrame cycles batch) with hrest | ⟨done, last, before, f, hpre, hf⟩
      · exact Or.inl (framesFree_cons.2 ⟨h, hrest⟩)
      · exact Or.inr ⟨batch :: done, last, before, f, List.cons_prefix_cons.2 ⟨rfl, hpre⟩, hf.cons h⟩
    · exact Or.inr ⟨[], batch, _, f, by simp, framesFree_nil, ⟨k, hk, hfree, rfl⟩, hf⟩

theorem framePictures_cons (batch : List Event) (batches : List (List Event)) :
    m.framePictures cycles (batch :: batches) =
      (m.afterFrame cycles batch).picture :: (m.afterFrame cycles batch).framePictures cycles batches := by
  simp only [framePictures, List.length_cons, List.range_succ_eq_map, List.map_cons, List.map_map]
  rfl

theorem frame_of_free (h : m.StepsFree cycles.toNat) (playing : Bool) :
    (m.frame cycles playing).machine = (m.afterSteps cycles.toNat).tick ∧
      (m.frame cycles playing).picture? = some (m.afterSteps cycles.toNat).tick.picture ∧
      (m.frame cycles playing).fault = none := by
  obtain ⟨hm, hf⟩ := Outcome.steps_of_free (o := { machine := m }) rfl h
  have hrun : m.run cycles.toNat = Outcome.steps cycles.toNat { machine := m } := rfl
  simp only [frame, hrun, hf, hm, and_self]

theorem frame_of_free_of_fault {k : ℕ} (hk : k < cycles.toNat) (h : m.StepsFree k) {f : Fault}
    (hfault : (m.afterSteps k).step.fault = some f) (playing : Bool) :
    (m.frame cycles playing).machine = (m.afterSteps k).step.machine ∧
      (m.frame cycles playing).picture? = none ∧ (m.frame cycles playing).fault = some f := by
  obtain ⟨hm, hf⟩ := Outcome.steps_of_free_of_fault (o := { machine := m }) rfl hk h hfault
  have hrun : m.run cycles.toNat = Outcome.steps cycles.toNat { machine := m } := rfl
  rw [frame_of_fault (hrun ▸ hf)]
  exact ⟨hm, rfl, rfl⟩

end Machine

/-! ## Plays -/

namespace Played

open Machine

variable [RandomSource σ] {p q r : Played σ} {cycles : ℤ}

/-- `q` is `p` gone on by one frame for each batch -/
structure Follows (cycles : ℤ) (batches : List (List Event)) (p q : Played σ) : Prop where
  machine : q.machine = p.machine.afterFrames cycles batches
  polled : q.polled = p.polled + batches.length
  pictures : q.pictures.toList = p.pictures.toList ++ p.machine.framePictures cycles batches
  ticks : q.ticks.toList = p.ticks.toList ++ List.replicate batches.length framesPerSecond
  fault : q.fault = none

/-- one frame on -/
def next (cycles : ℤ) (p : Played σ) (batch : List Event) : Played σ :=
  (p.poll batch).add ((p.poll batch).machine.frame cycles p.playing)

theorem through_cons (cycles : ℤ) {batch : List Event} (hq : asksToQuit batch = false) (rest : List (List Event))
    (p : Played σ) :
    through cycles (batch :: rest) p =
      if (p.next cycles batch).fault.isSome then p.next cycles batch
      else through cycles rest (p.next cycles batch) := by
  simp only [through, hq]
  rfl

/-- a batch that asks to quit ends a play -/
theorem through_of_quit (cycles : ℤ) {last : List Event} (hlast : asksToQuit last = true) (rest : List (List Event))
    (p : Played σ) : through cycles (last :: rest) p = p.poll last := by
  simp only [through, hlast, if_true]

/-- a frame that faults ends a play -/
theorem through_of_fault {batch : List Event} (hq : asksToQuit batch = false) {f : Fault}
    (hf : (p.next cycles batch).fault = some f) (rest : List (List Event)) :
    through cycles (batch :: rest) p = p.next cycles batch := by
  rw [through_cons cycles hq, if_pos]
  exact Option.isSome_of_mem hf

theorem follows_next {batch : List Event} (h : (p.machine.applyEvents batch).StepsFree cycles.toNat) :
    Follows cycles [batch] p (p.next cycles batch) := by
  obtain ⟨hm, hp, hf⟩ := frame_of_free (m := p.machine.applyEvents batch) h p.playing
  constructor
  · exact hm
  · rfl
  · simp only [next, add, poll, hp]
    simp [framePictures, afterFrames, afterFrame]
  · simp only [next, add, poll, hf]
    simp
  · exact hf

theorem Follows.cons {batch : List Event} {batches : List (List Event)} (h : Follows cycles [batch] p q)
    (hrest : Follows cycles batches q r) : Follows cycles (batch :: batches) p r := by
  have hm : q.machine = p.machine.afterFrame cycles batch := h.machine
  constructor
  · rw [hrest.machine, hm]
    rfl
  · rw [hrest.polled, h.polled, List.length_singleton, List.length_cons]
    omega
  · rw [hrest.pictures, h.pictures, framePictures_cons, framePictures_cons, hm, List.append_assoc]
    rfl
  · rw [hrest.ticks, h.ticks, List.append_assoc]
    rfl
  · exact hrest.fault

/-- as long as no batch asks to quit and no step faults, a play goes on -/
theorem through_of_free {batches : List (List Event)} (hquit : ∀ b ∈ batches, asksToQuit b = false)
    (hfault : p.fault = none) (hfree : p.machine.FramesFree cycles batches) (rest : List (List Event)) :
    through cycles (batches ++ rest) p = through cycles rest (batches.foldl (next cycles) p) ∧
      Follows cycles batches p (batches.foldl (next cycles) p) := by
  induction batches generalizing p with
  | nil => exact ⟨rfl, rfl, rfl, by simp [framePictures], by simp, hfault⟩
  | cons batch batches ih =>
    obtain ⟨hbatch, hfree⟩ := framesFree_cons.1 hfree
    have hn := follows_next hbatch
    obtain ⟨hq, hfollows⟩ := ih (fun b hb => hquit b (List.mem_cons_of_mem batch hb)) hn.fault (by
      rw [hn.machine]
      exact hfree)
    refine ⟨?_, hn.cons hfollows⟩
    rw [List.cons_append, through_cons cycles (hquit batch List.mem_cons_self), hn.fault]
    exact hq

/-- what a play shows that ended in the machine `last`, while it was at the batch behind those of the frames `done` -/
structure Ended (cycles : ℤ) (m : Machine σ) (done : List (List Event)) (last : Machine σ) (fault : Option Fault)
    (p : Played σ) : Prop where
  polled : p.polled = done.length + 1
  pictures : p.pictures.toList = m.framePictures cycles done
  ticks : p.ticks.toList = List.replicate done.length 60
  machine : p.machine = last
  fault : p.fault = fault

/-- a play that has gone on to a batch that asks to quit ends with the events of that batch -/
theorem Follows.ended_of_quit {m : Machine σ} {done : List (List Event)} (h : Follows cycles done { machine := m } q)
    {last : List Event} (hlast : asksToQuit last = true) (rest : List (List Event)) :
    Ended cycles m done ((m.afterFrames cycles done).applyEvents last) none (through cycles (last :: rest) q) := by
  rw [through_of_quit cycles hlast rest q]
  constructor
  · simp only [poll, h.polled, Nat.zero_add]
  · exact h.pictures.trans (List.nil_append _)
  · exact h.ticks.trans (List.nil_append _)
  · simp only [poll, h.machine]
  · exact h.fault

/-- a play that has gone on to a frame that faults ends in that frame, which adds nothing else -/
theorem Follows.ended_of_fault {m before : Machine σ} {done : List (List Event)} {f : Fault}
    (h : Follows cycles done { machine := m } q) {batch : List Event} (hbatch : asksToQuit batch = false)
    (hf : FaultsBehind cycles m done batch before f) (rest : List (List Event)) :
    Ended cycles m done before.step.machine (some f) (through cycles (batch :: rest) q) := by
  obtain ⟨k, hk, hfree, rfl⟩ := hf.steps
  rw [← h.machine] at hfree hf ⊢
  obtain ⟨hm, hp, hfault⟩ := frame_of_free_of_fault hk hfree hf.fault q.playing
  rw [through_of_fault hbatch hfault rest]
  constructor
  · simp only [next, add, poll, h.polled, Nat.zero_add]
  · simp only [next, add, poll, hp]
    simpa using h.pictures
  · simp only [next, add, poll, hfault]
    exact h.ticks.trans (List.nil_append _)
  · exact hm
  · exact hfault

end Played

namespace Machine

open Played (Ended)

variable [RandomSource σ]

/-- when the batches are used up, the host quits -/
theorem through_append_quit (cycles : ℤ) (batches : List (List Event)) (p : Played σ) :
    Played.through cycles (batches ++ [[.quit]]) p = Played.through cycles batches p := by
  induction batches generalizing p with
  | nil => rfl
  | cons batch batches ih => simp only [List.cons_append, Played.through, ih]

/-- a play whose frames all go well ends with the events of the batch that asks to quit -/
theorem play_of_free {m : Machine σ} {cycles : ℤ} {batches : List (List Event)} {last : List Event}
    (hgo : ∀ b ∈ batches, asksToQuit b = false) (hlast : asksToQuit last = true) (rest : List (List Event))
    (hfree : m.FramesFree cycles batches) :
    Ended cycles m batches ((m.afterFrames cycles batches).applyEvents last) none
      (m.play cycles (batches ++ last :: rest)) := by
  obtain ⟨hq, hfollows⟩ := Played.through_of_free (p := { machine := m }) hgo rfl hfree (last :: rest)
  rw [play, hq]
  exact hfollows.ended_of_quit hlast rest

/-- a play with a frame that faults ends in that frame -/
theorem play_of_fault {m before : Machine σ} {cycles : ℤ} {batches done : List (List Event)} {batch : List Event}
    {f : Fault} (hgo : ∀ b ∈ batches, asksToQuit b = false) (hpre : done ++ [batch] <+: batches)
    (hf : FaultsBehind cycles m done batch before f) (rest : List (List Event)) :
    Ended cycles m done before.step.machine (some f) (m.play cycles (batches ++ rest)) := by
  obtain ⟨more, rfl⟩ := hpre
  obtain ⟨hq, hfollows⟩ := Played.through_of_free (p := { machine := m }) (fun b hb => hgo b (by simp [hb])) rfl
    hf.frames (batch :: (more ++ rest))
  have hbs : done ++ [batch] ++ more ++ rest = done ++ batch :: (more ++ rest) := by simp
  rw [play, hbs, hq]
  exact hfollows.ended_of_fault (hgo batch (by simp)) hf _

/-- the batches before the first that asks to quit -/
def beforeQuit (batches : List (List Event)) : List (List Event) :=
  batches.takeWhile fun b => .quit ∉ b ∧ .keyDown 27 ∉ b

theorem not_asksToQuit_of_mem_beforeQuit {batches : List (List Event)} :
    ∀ b ∈ beforeQuit batches, asksToQuit b = false := by
  intro b hb
  rw [beforeQuit] at hb
  have hgo := List.mem_takeWhile_imp hb
  exact asksToQuit_eq_false_iff.2 (of_decide_eq_true hgo)

/-- behind them comes one that asks to quit, if only that of the host when the batches are used up -/
theorem exists_quit_behind (batches : List (List Event)) :
    ∃ last rest, asksToQuit last = true ∧ batches ++ [[.quit]] = beforeQuit batches ++ last :: rest := by
  induction batches with
  | nil => exact ⟨[.quit], [], rfl, rfl⟩
  | cons b batches ih =>
    obtain ⟨last, rest, hlast, heq⟩ := ih
    by_cases hb : asksToQuit b = true
    · have hnot : ¬(.quit ∉ b ∧ .keyDown 27 ∉ b) := fun h => by
        simp [asksToQuit_eq_false_iff.2 h] at hb
      exact ⟨b, batches ++ [[.quit]], hb, by simp [beforeQuit, hnot]⟩
    · have hgo : .quit ∉ b ∧ .keyDown 27 ∉ b := asksToQuit_eq_false_iff.1 (Bool.eq_false_iff.2 hb)
      exact ⟨last, rest, hlast, by simp [beforeQuit, hgo, heq]⟩

/-- a play through any batches ends behind those before the first that asks to quit, or in a frame that faults -/
theorem play_ended (m : Machine σ) (cycles : ℤ) (batches : List (List Event)) :
    (m.FramesFree cycles (beforeQuit batches) →
      ∃ last, Ended cycles m (beforeQuit batches) last none (m.play cycles batches)) ∧
    ∀ done batch before f, done ++ [batch] <+: beforeQuit batches → FaultsBehind cycles m done batch before f →
      Ended cycles m done before.step.machine (some f) (m.play cycles batches) := by
  obtain ⟨last, rest, hlast, heq⟩ := exists_quit_behind batches
  have hplay : m.play cycles batches = m.play cycles (beforeQuit batches ++ last :: rest) := by
    rw [← heq]
    exact (through_append_quit cycles batches _).symm
  rw [hplay]
  constructor
  · exact fun hfree => ⟨_, play_of_free not_asksToQuit_of_mem_beforeQuit hlast rest hfree⟩
  · exact fun done batch before f hpre hf => play_of_fault not_asksToQuit_of_mem_beforeQuit hpre hf (last :: rest)

/-- **A play is a fold over batches of events.** Of batches that do not ask to quit and one that does, and whatever
comes behind: if no step of their frames faults, the play polls all of these batches and no more, shows the picture
and tells the clock of every frame, and leaves the machine of the last frame with the events of the batch that quits.
Otherwise a step of some frame is the first to fault, and the play ends in the machine that this step leaves; of that
frame only the batch was polled. -/
theorem play_eq_fold (m : Machine σ) (cycles : ℤ) (batches : List (List Event)) (last : List Event)
    (rest : List (List Event)) (hbatches : ∀ b ∈ batches, .quit ∉ b ∧ .keyDown 27 ∉ b)
    (hlast : .quit ∈ last ∨ .keyDown 27 ∈ last) :
    (m.FramesFree cycles batches →
      Ended cycles m batches ((m.afterFrames cycles batches).applyEvents last) none
        (m.play cycles (batches ++ last :: rest))) ∧
    (∀ done batch before f, done ++ [batch] <+: batches → FaultsBehind cycles m done batch before f →
      Ended cycles m done before.step.machine (some f) (m.play cycles (batches ++ last :: rest))) ∧
    (m.FramesFree cycles batches ∨
      ∃ done batch before f, done ++ [batch] <+: batches ∧ FaultsBehind cycles m done batch before f) := by
  have hgo (b) (hb : b ∈ batches) : asksToQuit b = false := asksToQuit_eq_false_iff.2 (hbatches b hb)
  refine ⟨play_of_free hgo (asksToQuit_iff.2 hlast) rest, ?_, framesFree_or_fault m cycles batches⟩
  exact fun done batch before f hpre hf => play_of_fault hgo hpre hf (last :: rest)

/-! ## A play that faults in its second frame -/

/-- a program that jumps to a return, which faults -/
def bareReturn : Rom := ⟨#[0x12, 0x02, 0x00, 0xEE], by decide⟩

/-- the program in execution -/
def bareReturnAt (random : σ) (pc opcode : ℕ) (keypad : Keypad) : Machine σ :=
  { boot bareReturn random with pc, opcode, keypad }

theorem fetch_bareReturnAt {τ : Type} (random : τ) (pc opcode : ℕ) (p : Keypad) :
    (bareReturnAt random pc opcode p).fetch =
      (bareReturn.byteAt (pc % 4096)).toNat * 256 + (bareReturn.byteAt ((pc + 1) % 4096)).toNat :=
  fetch_of_image bareReturn rfl

theorem step_bareReturnAt_jump (random : σ) (opcode : ℕ) (p : Keypad) :
    (bareReturnAt random 0x200 opcode p).step = { machine := bareReturnAt random 0x202 0x1202 p } := by
  have hw : (bareReturnAt random 0x200 opcode p).fetch = 0x1202 := (fetch_bareReturnAt ..).trans (by decide)
  rw [step, hw]
  rfl

theorem step_bareReturnAt_ret (random : σ) (opcode : ℕ) (p : Keypad) :
    (bareReturnAt random 0x202 opcode p).step.fault = some (.underflow 0x202) := by
  have hw : (bareReturnAt random 0x202 opcode p).fetch = 0x00EE := (fetch_bareReturnAt ..).trans (by decide)
  rw [step, hw]
  rfl

theorem faultsBehind_bareReturn (random : σ) (b c : List Event) :
    FaultsBehind 1 (boot bareReturn random) [b] c (((boot bareReturn random).afterFrames 1 [b]).applyEvents c)
      (.underflow 0x202) := by
  obtain ⟨p, hp⟩ := applyEvents_eq (boot bareReturn random) b
  have hstep : ((boot bareReturn random).applyEvents b).step = { machine := bareReturnAt random 0x202 0x1202 p } := by
    rw [hp]
    exact step_bareReturnAt_jump random 0 p
  have hframe : (boot bareReturn random).afterFrames 1 [b] = bareReturnAt random 0x202 0x1202 p := by
    simp only [afterFrames, List.foldl_cons, List.foldl_nil, afterFrame]
    rw [show (1 : ℤ).toNat = 0 + 1 from rfl, afterSteps_succ, hstep]
    rfl
  refine ⟨?_, ⟨0, by decide, fun j hj => absurd hj (Nat.not_lt_zero j), rfl⟩, ?_⟩
  · refine framesFree_cons.2 ⟨stepsFree_succ.2 ⟨?_, fun j hj => absurd hj (Nat.not_lt_zero j)⟩, framesFree_nil⟩
    rw [hstep]
  · obtain ⟨q, hq⟩ := applyEvents_eq (bareReturnAt random 0x202 0x1202 p) c
    rw [hframe, hq]
    exact step_bareReturnAt_ret random 0x1202 q

/-- the program played with one instruction a frame: for one frame up to a batch that asks to quit, and up to its fault
in the second frame -/
theorem play_eq_fold_of_bareReturn :
    let m := boot bareReturn (Cycle.mk #[] 0)
    let b : List Event := [.keyDown 120, .other]
    let c : List Event := [.keyUp 120]
    let last : List Event := [.quit, .keyDown 120]
    Ended 1 m [b] ((m.afterFrames 1 [b]).applyEvents last) none (m.play 1 ([b] ++ last :: [c])) ∧
      Ended 1 m [b] ((m.afterFrames 1 [b]).applyEvents c).step.machine (some (.underflow 0x202))
        (m.play 1 ([b, c] ++ last :: [])) := by
  intro m b c last
  have hfault := faultsBehind_bareReturn (Cycle.mk #[] 0) b c
  exact ⟨(play_eq_fold m 1 [b] last [c] (by decide) (by decide)).1 hfault.frames,
    (play_eq_fold m 1 [b, c] last [] (by decide) (by decide)).2.1 [b] c _ _ (List.prefix_refl _) hfault⟩

end Machine

end ChipEight
