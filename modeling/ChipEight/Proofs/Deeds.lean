/-
What operations are made of. A deed is one operation, together with the machine that it finds. A frame is no deed but a
number of them: its steps, up to the first that faults, and behind them a tick if none does. Deeds lead from one machine
to another (`Leads`), each from where the one before has left off, and the deeds of any operations lead where the
operations do (`leads_deeds`). So what is shown deed by deed holds after any operations, and in the middle of their
frames as well.
-/
import ChipEight.Proofs.Calls
import ChipEight.Proofs.Plays

namespace ChipEight

variable {σ : Type}

namespace Operation

def isFrame : Operation → Bool
  | .frame .. => true
  | _ => false

/-- does the operation write keys or pixels, and nothing else -/
def isWrite : Operation → Bool
  | .setKey .. | .setPixel .. | .events _ => true
  | _ => false

end Operation

/-- one operation other than a frame, and the machine that it finds -/
structure Deed (σ : Type) where
  machine : Machine σ
  work : Operation

variable [RandomSource σ]

namespace Deed

/-- the machine that the deed leaves -/
def left (d : Deed σ) : Machine σ := (d.machine.operate d.work).machine

/-- the opcode that the deed executes, if it executes one -/
def opcode? (d : Deed σ) : Option ℕ := d.work.opcode? d.machine

end Deed

namespace Machine

/-! ## One deed -/

/-- what an operation other than a frame can make of a machine -/
inductive Effect (m : Machine σ) : Operation → Machine σ → Prop
  /-- an opcode, fetched or not -/
  | executes {o : Operation} (w pc : ℕ) (hw : o.opcode? m = some w) : Effect m o ({ m with pc }.execute w).machine
  | ticks : Effect m .tick m.tick
  | restarts : Effect m .reset m.reset
  | writes {o : Operation} (p : Keypad) (s : Display) (ho : o.isWrite) : Effect m o { m with keypad := p, screen := s }

theorem effect (m : Machine σ) {o : Operation} (ho : o.isFrame = false) : Effect m o (m.operate o).machine := by
  cases o with
  | step => exact .executes m.fetch (next m.pc) rfl
  | execute w => exact .executes w.toNat m.pc rfl
  | tick => exact .ticks
  | setKey index down =>
    simp only [operate, setKey]
    cases m.keypad.set index down with
    | ok p => exact .writes (o := .setKey index down) p m.screen rfl
    | error e => exact .writes (o := .setKey index down) m.keypad m.screen rfl
  | setPixel x y lit =>
    simp only [operate, setPixel]
    cases m.screen.set x y lit with
    | ok s => exact .writes (o := .setPixel x y lit) m.keypad s rfl
    | error e => exact .writes (o := .setPixel x y lit) m.keypad m.screen rfl
  | events batch =>
    obtain ⟨p, hp⟩ := applyEvents_eq m batch
    simp only [operate, hp]
    exact .writes (o := .events batch) p m.screen rfl
  | frame cycles playing => cases ho
  | reset => exact .restarts

/-- an operation that executes an opcode does so wherever `pc` stands -/
theorem operate_eq_of_opcode? {m : Machine σ} {o : Operation} {w : ℕ} (hw : o.opcode? m = some w) :
    ∃ pc, m.operate o = .ofOutcome ({ m with pc }.execute w) := by
  cases o with
  | step =>
    obtain rfl := Option.some.inj hw
    exact ⟨next m.pc, rfl⟩
  | execute w' =>
    obtain rfl := Option.some.inj hw
    exact ⟨m.pc, rfl⟩
  | _ => cases hw

theorem operate_of_opcode? {m : Machine σ} {o : Operation} {w : ℕ} (hw : o.opcode? m = some w) :
    ∃ pc, (m.operate o).machine = ({ m with pc }.execute w).machine := by
  obtain ⟨pc, he⟩ := operate_eq_of_opcode? hw
  exact ⟨pc, congrArg Operated.machine he⟩

/-- an operation that executes a word carries out the instruction that the word encodes -/
theorem operate_of_encodes {m : Machine σ} {o : Operation} {w : ℕ} {i : Instruction} (hw : o.opcode? m = some w)
    (hi : i.Encodes w) : ∃ pc, m.operate o = .ofOutcome ({ m with pc, opcode := w }.perform i) := by
  obtain ⟨pc, he⟩ := operate_eq_of_opcode? hw
  exact ⟨pc, he.trans (congrArg Operated.ofOutcome (execute_of_encodes _ hi))⟩

/-! ## The deeds of operations -/

/-- the deeds of a frame of `k` instructions: steps up to the first that faults, and a tick if none does -/
def frameDeeds : ℕ → Machine σ → List (Deed σ)
  | 0, m => [⟨m, .tick⟩]
  | k + 1, m => ⟨m, .step⟩ :: if m.step.fault.isSome then [] else frameDeeds k m.step.machine

def deedsOf (m : Machine σ) : Operation → List (Deed σ)
  | .frame cycles _ => frameDeeds cycles.toNat m
  | o => [⟨m, o⟩]

/-- the deeds of operations, oldest first -/
def deeds : Machine σ → List Operation → List (Deed σ)
  | _, [] => []
  | m, o :: ops => m.deedsOf o ++ (m.operate o).machine.deeds ops

/-! ## From machine to machine -/

/-- the deeds, oldest first, lead from one machine to another: each finds what the one before has left -/
inductive Leads (m : Machine σ) : List (Deed σ) → Machine σ → Prop
  | start : Leads m [] m
  | next {ds : List (Deed σ)} {n : Machine σ} (h : Leads m ds n) (o : Operation) (ho : o.isFrame = false) :
    Leads m (ds ++ [⟨n, o⟩]) (n.operate o).machine

namespace Leads

variable {m n l : Machine σ} {ds ds' : List (Deed σ)}

theorem single (m : Machine σ) {o : Operation} (ho : o.isFrame = false) :
    Leads m [⟨m, o⟩] (m.operate o).machine :=
  .next .start o ho

theorem trans (h : Leads m ds n) (h' : Leads n ds' l) : Leads m (ds ++ ds') l := by
  induction h' with
  | start => rwa [List.append_nil]
  | next _ o ho ih =>
    rw [← List.append_assoc]
    exact ih.next o ho

/-- deeds lead where the operations do that they are -/
theorem eq_after (h : Leads m ds n) : n = m.after (ds.map Deed.work) := by
  induction h with
  | start => rfl
  | next h o ho ih =>
    rw [List.map_append, after_append, ← ih]
    rfl

/-- every deed finds the machine that those before it lead to -/
theorem split (h : Leads m ds n) {before behind : List (Deed σ)} {d : Deed σ} (hds : ds = before ++ d :: behind) :
    Leads m before d.machine ∧ d.work.isFrame = false := by
  induction h generalizing behind with
  | start => simp at hds
  | next h o ho ih =>
    rcases List.eq_nil_or_concat behind with rfl | ⟨behind, e, rfl⟩
    · obtain ⟨rfl, hd⟩ := List.append_inj' hds rfl
      obtain rfl := (List.cons.inj hd).1
      exact ⟨h, ho⟩
    · rw [List.concat_eq_append, ← List.cons_append, ← List.append_assoc] at hds
      exact ih (List.append_inj' hds rfl).1

/-- the first deeds of any that lead somewhere lead somewhere -/
theorem of_prefix (h : Leads m ds n) {pre : List (Deed σ)} (hpre : pre <+: ds) : ∃ k, Leads m pre k := by
  obtain ⟨behind, rfl⟩ := hpre
  cases behind with
  | nil => exact ⟨n, by rwa [List.append_nil] at h⟩
  | cons d behind => exact ⟨d.machine, (h.split rfl).1⟩

end Leads

/-! ## Frames -/

theorem after_replicate_step (m : Machine σ) (k : ℕ) : m.after (List.replicate k .step) = m.afterSteps k := by
  induction k generalizing m with
  | zero => rfl
  | succ k ih => rw [List.replicate_succ, after_cons, operate_step, ih, afterSteps_succ]

variable {m : Machine σ} {k n : ℕ}

theorem frameDeeds_succ (h : m.step.fault = none) (n : ℕ) :
    frameDeeds (n + 1) m = ⟨m, .step⟩ :: frameDeeds n m.step.machine := by
  simp [frameDeeds, h]

/-- where no step faults, the deeds of a frame are all its steps and a tick behind them -/
theorem frameDeeds_of_free (h : m.StepsFree n) :
    (frameDeeds n m).map Deed.work = List.replicate n .step ++ [.tick] := by
  induction n generalizing m with
  | zero => rfl
  | succ n ih =>
    obtain ⟨hstep, hfree⟩ := stepsFree_succ.1 h
    rw [frameDeeds_succ hstep, List.map_cons, ih hfree]
    rfl

/-- where a step faults, it is the last deed of the frame -/
theorem frameDeeds_of_fault (hk : k < n) (h : m.StepsFree k) (hf : (m.afterSteps k).step.fault ≠ none) :
    (frameDeeds n m).map Deed.work = List.replicate (k + 1) .step := by
  induction n generalizing m k with
  | zero => exact absurd hk (Nat.not_lt_zero k)
  | succ n ih =>
    cases k with
    | zero =>
      have hstep : m.step.fault.isSome := Option.isSome_iff_ne_none.2 hf
      simp [frameDeeds, hstep]
    | succ k =>
      obtain ⟨hstep, hfree⟩ := stepsFree_succ.1 h
      rw [afterSteps_succ] at hf
      rw [frameDeeds_succ hstep, List.map_cons, ih (Nat.lt_of_succ_lt_succ hk) hfree hf]
      rfl

theorem leads_frameDeeds (n : ℕ) (m : Machine σ) : ∃ l, Leads m (frameDeeds n m) l := by
  induction n generalizing m with
  | zero => exact ⟨_, .single m rfl⟩
  | succ n ih =>
    have hstep : Leads m [⟨m, .step⟩] m.step.machine := .single m rfl
    cases hf : m.step.fault with
    | none =>
      obtain ⟨l, hl⟩ := ih m.step.machine
      rw [frameDeeds_succ hf]
      exact ⟨l, hstep.trans hl⟩
    | some f => exact ⟨_, by simpa [frameDeeds, hf] using hstep⟩

theorem work_of_mem_frameDeeds {d : Deed σ} (hd : d ∈ frameDeeds k m) : d.work = .step ∨ d.work = .tick := by
  induction k generalizing m with
  | zero =>
    obtain rfl := List.mem_singleton.1 hd
    exact Or.inr rfl
  | succ k ih =>
    rcases List.mem_cons.1 hd with rfl | hd
    · exact Or.inl rfl
    · split_ifs at hd
      · nomatch hd
      · exact ih hd

/-- **The deeds of a frame.** A frame without a fault is so many steps and one tick behind them, and a frame that faults
is the steps up to the one that does. -/
theorem frame_works (m : Machine σ) (cycles : ℤ) (playing : Bool) :
    ((m.frame cycles playing).fault = none →
      (m.deedsOf (.frame cycles playing)).map Deed.work = List.replicate cycles.toNat .step ++ [.tick]) ∧
    ((m.frame cycles playing).fault ≠ none → ∃ k < cycles.toNat,
      (m.deedsOf (.frame cycles playing)).map Deed.work = List.replicate (k + 1) .step) := by
  rcases m.stepsFree_or_fault cycles.toNat with hfree | ⟨k, hk, hfree, f, hf⟩
  · obtain ⟨-, -, hnone⟩ := frame_of_free hfree playing
    exact ⟨fun _ => frameDeeds_of_free hfree, fun h => absurd hnone h⟩
  · obtain ⟨-, -, hsome⟩ := frame_of_free_of_fault hk hfree hf playing
    refine ⟨fun h => ?_, fun _ => ⟨k, hk, frameDeeds_of_fault hk hfree (by simp [hf])⟩⟩
    rw [hsome] at h
    cases h

/-- the steps of a frame before the first that faults, and that one, are deeds of the frame -/
theorem mem_frameDeeds (hk : k < n) (h : m.StepsFree k) : ⟨m.afterSteps k, .step⟩ ∈ frameDeeds n m := by
  induction n generalizing m k with
  | zero => exact absurd hk (Nat.not_lt_zero k)
  | succ n ih =>
    cases k with
    | zero => exact List.mem_cons_self
    | succ k =>
      obtain ⟨hstep, hfree⟩ := stepsFree_succ.1 h
      rw [frameDeeds_succ hstep, afterSteps_succ]
      exact List.mem_cons_of_mem _ (ih (Nat.lt_of_succ_lt_succ hk) hfree)

theorem leads_frame (m : Machine σ) (cycles : ℤ) (playing : Bool) :
    Leads m (m.deedsOf (.frame cycles playing)) (m.frame cycles playing).machine := by
  obtain ⟨l, hl⟩ := leads_frameDeeds cycles.toNat m
  suffices hend : (m.frame cycles playing).machine = l by
    rw [hend]
    exact hl
  rw [hl.eq_after]
  rcases m.stepsFree_or_fault cycles.toNat with hfree | ⟨k, hk, hfree, f, hf⟩
  · rw [frameDeeds_of_free hfree, after_append, after_replicate_step, (frame_of_free hfree playing).1]
    rfl
  · rw [frameDeeds_of_fault hk hfree (by simp [hf]), after_replicate_step, afterSteps_add,
      (frame_of_free_of_fault hk hfree hf playing).1]
    rfl

/-! ## All operations -/

/-- the fault that an operation reports is that of one of its deeds -/
theorem exists_deed_of_fault {o : Operation} {f : Fault} (h : (m.operate o).failure = some (.fault f)) :
    ∃ d ∈ m.deedsOf o, (d.machine.operate d.work).failure = some (.fault f) := by
  cases o with
  | frame cycles playing =>
    rcases m.stepsFree_or_fault cycles.toNat with hfree | ⟨k, hk, hfree, f', hf'⟩
    · obtain ⟨-, -, hnone⟩ := frame_of_free hfree playing
      simp [operate, hnone] at h
    · obtain ⟨-, -, hsome⟩ := frame_of_free_of_fault hk hfree hf' playing
      refine ⟨_, mem_frameDeeds hk hfree, ?_⟩
      rw [← h]
      simp [operate, Operated.ofOutcome, hf', hsome]
  | _ => exact ⟨_, List.mem_singleton_self _, h⟩

theorem deeds_append (m : Machine σ) (ops ops' : List Operation) :
    m.deeds (ops ++ ops') = m.deeds ops ++ (m.after ops).deeds ops' := by
  induction ops generalizing m with
  | nil => rfl
  | cons o ops ih => simp only [List.cons_append, deeds, ih, after_cons, List.append_assoc]

/-- where no operation starts over, no deed does -/
theorem work_ne_reset {ops : List Operation} (hops : .reset ∉ ops) : ∀ d ∈ m.deeds ops, d.work ≠ .reset := by
  induction ops generalizing m with
  | nil => exact fun d hd => nomatch hd
  | cons o ops ih =>
    obtain ⟨ho, hops⟩ := not_or.1 (List.mem_cons.not.1 hops)
    intro d hd
    rcases List.mem_append.1 hd with hd | hd
    · cases o with
      | frame cycles playing => rcases work_of_mem_frameDeeds hd with h | h <;> simp [h]
      | _ =>
        obtain rfl := List.mem_singleton.1 hd
        exact Ne.symm ho
    · exact ih hops d hd

theorem leads_deedsOf (m : Machine σ) (o : Operation) : Leads m (m.deedsOf o) (m.operate o).machine := by
  cases o with
  | frame cycles playing => exact leads_frame m cycles playing
  | _ => exact .single m rfl

/-- **The deeds of operations lead where the operations do.** -/
theorem leads_deeds (m : Machine σ) (ops : List Operation) : Leads m (m.deeds ops) (m.after ops) := by
  induction ops generalizing m with
  | nil => exact .start
  | cons o ops ih =>
    rw [after_cons]
    exact (leads_deedsOf m o).trans (ih _)

/-- the machines that deeds find are reachable where the first one is -/
theorem Leads.reachable {l : Machine σ} {ds : List (Deed σ)} (h : Leads m ds l) (hm : m.Reachable) {d : Deed σ}
    (hd : d ∈ ds) : d.machine.Reachable ∧ d.work.isFrame = false := by
  obtain ⟨before, behind, hds⟩ := List.append_of_mem hd
  obtain ⟨hbefore, hframe⟩ := h.split hds
  obtain ⟨rom, random, ops, rfl⟩ := hm
  refine ⟨⟨rom, random, ops ++ before.map Deed.work, ?_⟩, hframe⟩
  rw [after_append]
  exact hbefore.eq_after

end Machine

end ChipEight
