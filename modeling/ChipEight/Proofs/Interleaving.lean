/-
Work of the host between instructions. A tick writes the timers and a key change the keypad, and an opcode that does not
look at what is written does the same before and after (`Unnoticed`): it fetches the same word, has the same outcome,
and leaves the machine that the work makes of the one it would have left. What no step notices no run notices either, so
that it does not matter where among such opcodes a host ticks or writes keys (`host_work_anywhere`).
-/
import ChipEight.Proofs.Plays
import ChipEight.Proofs.Restart

namespace ChipEight

/-! ## Opcodes that look at what the host writes -/

namespace Opcode

/-- does the opcode read or write a timer -/
def LooksAtTimers (w : ℕ) : Prop := family w = 0xF ∧ (w % 256 = 0x07 ∨ w % 256 = 0x15 ∨ w % 256 = 0x18)

/-- does the opcode ask for keys -/
def LooksAtKeys (w : ℕ) : Prop :=
  family w = 0xE ∧ (w % 256 = 0x9E ∨ w % 256 = 0xA1) ∨ family w = 0xF ∧ w % 256 = 0x0A

end Opcode

variable {σ : Type}

/-- an outcome with more work done on the machine that it leaves -/
def Outcome.map (g : Machine σ → Machine σ) (o : Outcome σ) : Outcome σ := { o with machine := g o.machine }

namespace Machine

/-- work on the program that is kept for a reset, the timers and the keys -/
def touch (rom : Rom → Rom) (delay sound : UInt8 → UInt8) (keys : Keypad → Keypad) (m : Machine σ) : Machine σ :=
  { m with rom := rom m.rom, delay := delay m.delay, sound := sound m.sound, keypad := keys m.keypad }

variable [RandomSource σ] {m : Machine σ} {w : ℕ} {i : Instruction}

section Touch

variable {rom : Rom → Rom} {delay sound : UInt8 → UInt8} {keys : Keypad → Keypad}

/-- work on the timers and the keys changes nothing for an instruction that does not look at what is changed, nor does
work on the kept program, which no instruction looks at -/
theorem perform_touch (hw : i.Encodes w) (htimers : Opcode.LooksAtTimers w → delay = id ∧ sound = id)
    (hkeys : Opcode.LooksAtKeys w → keys = id) :
    (m.touch rom delay sound keys).perform i = (m.perform i).map (touch rom delay sound keys) := by
  cases i with
  | readDelay x | setDelay x | setSound x =>
    obtain ⟨rfl, rfl⟩ := htimers ⟨hw.1, by simp [hw.2.1]⟩
    rfl
  | ret =>
    by_cases hsp : m.sp = 0
    · rw [perform_ret_of_empty hsp, perform_ret_of_empty (m := m.touch _ _ _ _) hsp]
      rfl
    · cases hs : m.stack with
      | nil => rw [perform_ret_of_bare hsp hs, perform_ret_of_bare (m := m.touch _ _ _ _) hsp hs]; rfl
      | cons a rest => rw [perform_ret hsp hs, perform_ret (m := m.touch _ _ _ _) hsp hs]; rfl
  | call nnn =>
    by_cases hsp : m.sp = stackRoom
    · rw [perform_call_of_full hsp, perform_call_of_full (m := m.touch _ _ _ _) hsp]
      rfl
    · rw [perform_call hsp, perform_call (m := m.touch _ _ _ _) hsp]
      rfl
  | skip t =>
    have ht : (m.touch rom delay sound keys).passes t = m.passes t := by
      cases t with
      | keyDown x | keyUp x =>
        obtain rfl := hkeys (Or.inl ⟨hw.1, by simp [hw.2.1]⟩)
        rfl
      | _ => rfl
    rw [perform_skip, perform_skip, ht]
    split_ifs <;> rfl
  | alu op x y => cases op <;> rfl
  | draw x y n => rw [perform_draw, perform_draw]; rfl
  | waitKey x =>
    obtain rfl := hkeys (Or.inr ⟨hw.1, hw.2.1⟩)
    cases hk : m.keypad.lowest? with
    | none => rw [perform_waitKey_none hk, perform_waitKey_none (m := m.touch rom delay sound id) hk]; rfl
    | some k => rw [perform_waitKey_some hk, perform_waitKey_some (m := m.touch rom delay sound id) hk]; rfl
  | _ => rfl

theorem execute_touch (htimers : Opcode.LooksAtTimers w → delay = id ∧ sound = id)
    (hkeys : Opcode.LooksAtKeys w → keys = id) :
    (m.touch rom delay sound keys).execute w = (m.execute w).map (touch rom delay sound keys) := by
  rcases execute_cases m w with ⟨hd, he⟩ | ⟨i, hd, he⟩ <;> rw [he]
  · rw [execute_of_unknown _ hd]
    rfl
  · rw [execute_of_decode _ hd]
    exact perform_touch (m := { m with opcode := w }) ((Instruction.decode_eq_some_iff w i).1 hd) htimers hkeys

end Touch

/-! ## Work that goes unnoticed -/

/-- opcodes that do not look do the same before and after the work -/
structure Unnoticed (looks : ℕ → Prop) (g : Machine σ → Machine σ) : Prop where
  execute : ∀ m w, ¬looks w → (g m).execute w = (m.execute w).map g
  step : ∀ m, ¬looks m.fetch → (g m).step = m.step.map g
  fetch : ∀ m, (g m).fetch = m.fetch
  opcode : ∀ m, (g m).opcode = m.opcode
  picture : ∀ m, (g m).picture = m.picture

namespace Unnoticed

variable {looks : ℕ → Prop} {g g' : Machine σ → Machine σ}

theorem touch (rom : Rom → Rom) (delay sound : UInt8 → UInt8) (keys : Keypad → Keypad)
    (htimers : ∀ w, ¬looks w → Opcode.LooksAtTimers w → delay = id ∧ sound = id)
    (hkeys : ∀ w, ¬looks w → Opcode.LooksAtKeys w → keys = id) :
    Unnoticed looks fun m : Machine σ => m.touch rom delay sound keys where
  execute _ w hw := execute_touch (htimers w hw) (hkeys w hw)
  step m hw := execute_touch (m := { m with pc := next m.pc }) (htimers _ hw) (hkeys _ hw)
  fetch _ := rfl
  opcode _ := rfl
  picture _ := rfl

theorem tick : Unnoticed Opcode.LooksAtTimers (Machine.tick (σ := σ)) :=
  .touch id (fun b => if b = 0 then 0 else b - 1) (fun b => if b = 0 then 0 else b - 1) id (fun _ hw h => absurd h hw)
    fun _ _ _ => rfl

theorem putKey (k : Key) (down : Bool) :
    Unnoticed Opcode.LooksAtKeys fun m : Machine σ => { m with keypad := m.keypad.put k down } :=
  .touch id id id (fun p => p.put k down) (fun _ _ _ => ⟨rfl, rfl⟩) fun _ hw h => absurd h hw

protected theorem id : Unnoticed looks (id : Machine σ → Machine σ) :=
  ⟨fun _ _ _ => rfl, fun _ _ => rfl, fun _ => rfl, fun _ => rfl, fun _ => rfl⟩

theorem comp (h' : Unnoticed looks g') (h : Unnoticed looks g) : Unnoticed looks (g' ∘ g) where
  execute m w hw := (h'.execute (g m) w hw).trans (congrArg (Outcome.map g') (h.execute m w hw))
  step m hw := (h'.step (g m) ((h.fetch m).symm ▸ hw)).trans (congrArg (Outcome.map g') (h.step m hw))
  fetch m := (h'.fetch (g m)).trans (h.fetch m)
  opcode m := (h'.opcode (g m)).trans (h.opcode m)
  picture m := (h'.picture (g m)).trans (h.picture m)

theorem after {host : List Operation}
    (h : ∀ o ∈ host, Unnoticed looks fun m : Machine σ => (m.operate o).machine) :
    Unnoticed looks fun m : Machine σ => m.after host := by
  induction host with
  | nil => exact .id
  | cons o host ih =>
    exact (ih fun o' ho' => h o' (List.mem_cons_of_mem o ho')).comp (h o List.mem_cons_self)

end Unnoticed

end Machine

/-! ## Sequences of executions -/

/-- what a host does between instructions, and the opcodes that look at it: so many ticks, or writes of keys that there
are -/
inductive HostWork : (ℕ → Prop) → List Operation → Prop
  | ticks (k : ℕ) : HostWork Opcode.LooksAtTimers (List.replicate k .tick)
  | keys {host : List Operation} (h : ∀ o ∈ host, ∃ index down, 0 ≤ index ∧ index < 16 ∧ o = .setKey index down) :
    HostWork Opcode.LooksAtKeys host

/-- does the operation execute one opcode -/
def Operation.isExecution : Operation → Bool
  | .step | .execute _ => true
  | _ => false

variable [RandomSource σ] {m : Machine σ} {looks : ℕ → Prop} {g : Machine σ → Machine σ}

open Machine

theorem HostWork.unnoticed {host : List Operation} (h : HostWork looks host) :
    Unnoticed looks fun m : Machine σ => m.after host := by
  cases h with
  | ticks k =>
    refine .after fun o ho => ?_
    rw [List.eq_of_mem_replicate ho]
    exact .tick
  | keys h =>
    refine .after fun o ho => ?_
    obtain ⟨index, down, hlow, hhigh, rfl⟩ := h o ho
    simp only [operate, setKey, Keypad.set, Key.ofInt, dif_pos (And.intro hlow hhigh)]
    exact .putKey _ down

/-- the same shown with more work done on the machine that is left -/
def Machine.Shown.map (g : Machine σ → Machine σ) (s : Shown σ) : Shown σ := { s with machine := g s.machine }

namespace Machine

theorem shows_opcode {o : Operation} {w : ℕ} (h : o.opcode? m = some w) : (m.shows o).machine.opcode = w := by
  cases o with
  | step => exact (step_opcode m).trans (Option.some.inj h)
  | execute w => exact (execute_opcode m w.toNat).trans (Option.some.inj h)
  | _ => simp [Operation.opcode?] at h

theorem Unnoticed.shows (h : Unnoticed looks g) {o : Operation} (ho : o.isExecution)
    (hlooks : ¬looks (m.operate o).machine.opcode) :
    (g m).shows o = (m.shows o).map g := by
  cases o with
  | step =>
    rw [operate_step, step_opcode] at hlooks
    have hs : (g m).operate .step = ⟨g m.step.machine, m.step.fault.map .fault⟩ := by
      rw [operate, h.step m hlooks]
      rfl
    simp only [Machine.shows, Operation.opcode?, hs, h.fetch, h.picture]
    rfl
  | execute w =>
    rw [operate_execute, execute_opcode] at hlooks
    have hs : (g m).operate (.execute w) = ⟨g (m.execute w.toNat).machine, (m.execute w.toNat).fault.map .fault⟩ := by
      rw [operate, h.execute m w.toNat hlooks]
      rfl
    simp only [Machine.shows, Operation.opcode?, hs, h.picture]
    rfl
  | _ => simp [Operation.isExecution] at ho

theorem Unnoticed.operate (h : Unnoticed looks g) {o : Operation} (ho : o.isExecution)
    (hlooks : ¬looks (m.operate o).machine.opcode) :
    ((g m).operate o).machine = g (m.operate o).machine :=
  congrArg Shown.machine (h.shows ho hlooks)

/-- **What no execution notices, a run does not notice.** -/
theorem Unnoticed.history (h : Unnoticed looks g) {ops : List Operation} (hops : ∀ o ∈ ops, o.isExecution)
    (hlooks : ∀ s ∈ m.history ops, ¬looks s.machine.opcode) :
    (g m).after ops = g (m.after ops) ∧ (g m).history ops = (m.history ops).map (Shown.map g) := by
  induction ops generalizing m with
  | nil => exact ⟨rfl, rfl⟩
  | cons o ops ih =>
    have ho := hops o List.mem_cons_self
    have hlook : ¬looks (m.operate o).machine.opcode := hlooks _ List.mem_cons_self
    obtain ⟨hafter, hhistory⟩ := ih (fun o' ho' => hops o' (List.mem_cons_of_mem o ho'))
      fun s hs => hlooks s (List.mem_cons_of_mem _ hs)
    rw [after_cons, after_cons, Machine.history, Machine.history, h.operate ho hlook, h.shows ho hlook, List.map_cons]
    exact ⟨hafter, congrArg _ hhistory⟩

end Machine

/-! ## Runs up to the first fault -/

namespace Outcome

variable {o : Outcome σ}

theorem map_andThen_step (h : Unnoticed looks g) (ho : o.fault = none) (hlook : ¬looks o.machine.fetch) :
    (o.map g).andThen step = (o.andThen step).map g := by
  rw [andThen_of_none ho, andThen_of_none (o := o.map g) ho]
  simp only [Outcome.map, h.step o.machine hlook]

/-- steps that do not look go on after the work as they do without it -/
theorem steps_map (h : Unnoticed looks g) (j : ℕ)
    (hlooks : o.fault = none → ∀ k < j, o.machine.StepsFree k → ¬looks (o.machine.afterSteps k).fetch) :
    (o.map g).steps j = (o.steps j).map g := by
  induction j generalizing o with
  | zero => rfl
  | succ j ih =>
    cases hf : o.fault with
    | some f => rw [steps_of_fault hf, steps_of_fault (o := o.map g) hf]
    | none =>
      have hlook := hlooks hf 0 (Nat.succ_pos j) fun _ hk => absurd hk (Nat.not_lt_zero _)
      obtain ⟨hm, hfault⟩ := andThen_step hf
      rw [steps_succ hf, steps_succ (o := o.map g) hf, map_andThen_step h hf hlook]
      refine ih fun hnone k hk hfree => ?_
      rw [hm] at hfree ⊢
      rw [← afterSteps_succ]
      exact hlooks hf (k + 1) (Nat.succ_lt_succ hk) (stepsFree_succ.2 ⟨hfault ▸ hnone, hfree⟩)

end Outcome

namespace Machine

theorem run_map_steps (h : Unnoticed looks g) (i j : ℕ)
    (hlooks : ∀ k, i ≤ k → k < i + j → m.StepsFree k → ¬looks (m.afterSteps k).fetch) :
    ((m.run i).map g).steps j = (m.run (i + j)).map g := by
  have hadd : (m.run i).steps j = m.run (i + j) := Outcome.steps_add _ i j
  rw [← hadd]
  refine Outcome.steps_map h j fun hnone k hk hfree => ?_
  obtain ⟨hi, hm⟩ := run_of_fault_none hnone
  rw [hm] at hfree ⊢
  rw [← afterSteps_add]
  exact hlooks (i + k) (Nat.le_add_right i k) (Nat.add_lt_add_left hk i) (stepsFree_add hi hfree)

/-! ## Main result -/

/-- what a host sees of an execution: the opcode, whether it is handed back, why it failed if it did, and the picture -/
def Shown.seen (s : Shown σ) : ℕ × Option ℕ × Option Failure × Picture :=
  (s.machine.opcode, s.opcode?, s.failure, s.picture)

/-- it does not show whether the host works before or after the executions `behind` -/
structure Placed (m : Machine σ) (before behind host : List Operation) : Prop where
  machine : m.after (before ++ host ++ behind) = m.after (before ++ behind ++ host)
  seen : ((m.after (before ++ host)).history behind).map Shown.seen =
    ((m.after before).history behind).map Shown.seen

/-- **The work of a host has no place among opcodes that do not look at it.** Any number of ticks may come before or
after executions of opcodes other than `Fx07`, `Fx15` and `Fx18`, and writes of keys before or after opcodes other than
`Ex9E`, `ExA1` and `Fx0A`: the machine in the end is the same, and all executions show the same, their failures
included. The same goes for runs that end at the first fault, wherever the work interrupts them. -/
theorem host_work_anywhere {host : List Operation} (h : HostWork looks host) (m : Machine σ) :
    (∀ before behind : List Operation, (∀ o ∈ behind, o.isExecution) →
      (∀ s ∈ (m.after before).history behind, ¬looks s.machine.opcode) → m.Placed before behind host) ∧
    ∀ i j : ℕ, (∀ k, i ≤ k → k < i + j → m.StepsFree k → ¬looks (m.afterSteps k).fetch) →
      ((m.run i).map fun n => n.after host).steps j = (m.run (i + j)).map fun n => n.after host := by
  have hg : Unnoticed (σ := σ) looks fun n => n.after host := h.unnoticed
  constructor
  · intro before behind hops hlooks
    obtain ⟨hafter, hhistory⟩ := hg.history hops hlooks
    constructor
    · simp only [after_append]
      exact hafter
    · rw [after_append, hhistory, List.map_map]
      refine List.map_congr_left fun s _ => ?_
      simp only [Function.comp_apply, Shown.seen, Shown.map, hg.opcode]
  · exact fun i j hlooks => run_map_steps hg i j hlooks

/-- keys are pressed and released among a call and returns, the last of which fails, and in the middle of a run -/
theorem host_work_anywhere_of_nested :
    let m := boot nested (Cycle.mk #[] 0)
    let host : List Operation := [.setKey 3 true, .setKey 15 false]
    let behind : List Operation := [.step, .execute 0x00EE, .execute 0x00EE]
    HostWork Opcode.LooksAtKeys host ∧ m.Placed [] behind host ∧
      ((m.run 1).map fun n => n.after host).steps 1 = (m.run 2).map fun n => n.after host := by
  intro m host behind
  have hhost : HostWork Opcode.LooksAtKeys host := .keys (by simp [host])
  have hcall : ¬Opcode.LooksAtKeys 0x2206 := by simp [Opcode.LooksAtKeys, Opcode.family]
  have hnext : ¬Opcode.LooksAtKeys 0x2204 := by simp [Opcode.LooksAtKeys, Opcode.family]
  have hret : ¬Opcode.LooksAtKeys 0x00EE := by simp [Opcode.LooksAtKeys, Opcode.family]
  have f1 : m.fetch = 0x2206 := (fetch_nestedAt 0x200 [] 0).trans (by decide)
  have f2 : (nestedAt 0x206 [0x202] 0x2206).fetch = 0x2204 := (fetch_nestedAt ..).trans (by decide)
  have s1 : m.step.machine = nestedAt 0x206 [0x202] 0x2206 :=
    step_nestedAt_call 0x200 [] 0 f1 (by decide) (by decide)
  obtain ⟨hplaced, hrun⟩ := host_work_anywhere hhost m
  refine ⟨hhost, hplaced [] behind (by decide) fun s hs => ?_, hrun 1 1 fun k hk hk' _ => ?_⟩
  · have hnil : m.after [] = m := rfl
    simp only [behind, hnil, history, List.mem_cons, List.not_mem_nil, or_false] at hs
    rcases hs with rfl | rfl | rfl
    · rw [shows_opcode (o := .step) (congrArg some f1)]
      exact hcall
    · rw [shows_opcode (o := .execute 0x00EE) rfl]
      exact hret
    · rw [shows_opcode (o := .execute 0x00EE) rfl]
      exact hret
  · obtain rfl : k = 1 := by omega
    rw [afterSteps_succ, s1]
    exact f2 ▸ hnext

end Machine

end ChipEight
