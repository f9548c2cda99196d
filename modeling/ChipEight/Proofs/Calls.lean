/-
Calls and returns. One operation pushes an address, takes one off or leaves the stack alone (`operate_shift`), so the
addresses that a run never goes below stay at the bottom of the stack, whatever else it does there (`suffix_after`).
With the stack pointer counting the stack, the return that brings the pointer back to where it was before a call finds
the address behind that call, and under it the stack of before (`call_returns`).
-/
import ChipEight.Proofs.Bounds

namespace ChipEight

variable {σ : Type}

/-! ## Single operations -/

namespace Operation

/-- is the operation one opcode or one write, and neither a frame of many opcodes nor a new start -/
def isSingle : Operation → Bool
  | .frame .. | .reset => false
  | _ => true

/-- the opcode that a single operation executes, if it executes one -/
def opcode? (m : Machine σ) : Operation → Option ℕ
  | .step => some m.fetch
  | .execute w => some w.toNat
  | _ => none

end Operation

/-- from one stack to the next: an address more, an address less, or neither -/
inductive Shift : List ℕ → List ℕ → Prop
  | push (a : ℕ) (s : List ℕ) : Shift s (a :: s)
  | pop (a : ℕ) (s : List ℕ) : Shift (a :: s) s
  | stay (s : List ℕ) : Shift s s

/-- what the stack does not get shorter than stays at its bottom -/
theorem Shift.suffix {base s t : List ℕ} (h : Shift s t) (hs : base <:+ s) (hlen : base.length ≤ t.length) :
    base <:+ t := by
  cases h with
  | push a => exact hs.trans (List.suffix_cons a s)
  | pop a =>
    rcases List.suffix_cons_iff.1 hs with rfl | hs
    · simp at hlen
    · exact hs
  | stay => exact hs

namespace Machine

/-- the `k` oldest addresses on the stack, the oldest first -/
def oldest (m : Machine σ) (k : ℕ) : List ℕ := m.stack.reverse.take k

theorem oldest_of_suffix {m : Machine σ} {base : List ℕ} (h : base <:+ m.stack) :
    m.oldest base.length = base.reverse := by
  have hp := List.prefix_iff_eq_take.1 (List.reverse_prefix.2 h)
  rw [List.length_reverse] at hp
  exact hp.symm

variable [RandomSource σ] {m : Machine σ}

theorem execute_shift (m : Machine σ) (w : ℕ) : Shift m.stack (m.execute w).machine.stack := by
  rcases execute_cases m w with ⟨-, he⟩ | ⟨i, -, he⟩ <;> rw [he]
  · exact .stay _
  · rcases perform_stack { m with opcode := w } i with ⟨nnn, -, -, hp⟩ | ⟨a, rest, -, -, hs, hp⟩ | ⟨hs, -⟩
    · rw [hp]
      exact .push _ _
    · rw [hp, show m.stack = a :: rest from hs]
      exact .pop _ _
    · rw [hs]
      exact .stay _

theorem operate_shift (m : Machine σ) {o : Operation} (ho : o.isSingle) :
    Shift m.stack (m.operate o).machine.stack := by
  cases o with
  | step => exact execute_shift { m with pc := next m.pc } m.fetch
  | execute w => exact execute_shift m w.toNat
  | tick => exact .stay _
  | setKey index down =>
    simp only [operate, setKey]
    cases m.keypad.set index down <;> exact .stay _
  | setPixel x y lit =>
    simp only [operate, setPixel]
    cases m.screen.set x y lit <;> exact .stay _
  | events batch =>
    obtain ⟨p, hp⟩ := applyEvents_eq m batch
    simp only [operate, hp]
    exact .stay _
  | frame cycles playing => simp [Operation.isSingle] at ho
  | reset => simp [Operation.isSingle] at ho

/-! ## Runs -/

/-- does the stack pointer stay above `k` from here on through all of the operations -/
def StaysAbove (m : Machine σ) (k : ℕ) (ops : List Operation) : Prop := ∀ pre, pre <+: ops → k < (m.after pre).sp

theorem StaysAbove.here {k : ℕ} {ops : List Operation} (h : m.StaysAbove k ops) : k < m.sp := h [] List.nil_prefix

theorem StaysAbove.of_prefix {k : ℕ} {pre ops : List Operation} (h : m.StaysAbove k ops) (hpre : pre <+: ops) :
    m.StaysAbove k pre :=
  fun p hp => h p (hp.trans hpre)

theorem staysAbove_nil {k : ℕ} : m.StaysAbove k [] ↔ k < m.sp := by
  simp [StaysAbove, after]

theorem staysAbove_cons {k : ℕ} {o : Operation} {ops : List Operation} :
    m.StaysAbove k (o :: ops) ↔ k < m.sp ∧ (m.operate o).machine.StaysAbove k ops := by
  constructor
  · exact fun h => ⟨h.here, fun pre hpre => h (o :: pre) (List.cons_prefix_cons.2 ⟨rfl, hpre⟩)⟩
  · rintro ⟨hm, h⟩ pre hpre
    rcases List.prefix_cons_iff.1 hpre with rfl | ⟨rest, rfl, hrest⟩
    · exact hm
    · exact h rest hrest

/-- what a run stays above stays at the bottom of the stack -/
theorem suffix_after {base : List ℕ} {k : ℕ} (hk : base.length = k + 1) (hc : m.Counted) (hm : base <:+ m.stack)
    (ops : List Operation) (hsingle : ∀ o ∈ ops, o.isSingle) (hdeep : m.StaysAbove k ops) :
    base <:+ (m.after ops).stack := by
  induction ops generalizing m with
  | nil => exact hm
  | cons o ops ih =>
    have ho := operate_shift m (hsingle o List.mem_cons_self)
    have hc' := kept_counted.operate o hc
    have hdeep' := (staysAbove_cons.1 hdeep).2
    refine ih hc' (ho.suffix hm ?_) (fun o' ho' => hsingle o' (List.mem_cons_of_mem o ho')) hdeep'
    rw [hk, ← hc'.depth]
    exact hdeep'.here

/-! ## Both ends -/

theorem step_of_call {w : ℕ} (hw : m.fetch = w) (hcall : Opcode.family w = 2) (hroom : m.sp ≠ stackRoom) :
    m.step.machine =
      { m with pc := Opcode.nnn w, stack := next m.pc :: m.stack, sp := m.sp + 1, opcode := w } := by
  rw [step, hw, execute_of_decode _ ((Instruction.decode_eq_call_iff w (Opcode.nnn w)).2 ⟨hcall, rfl⟩),
    perform_call (m := { m with pc := next m.pc, opcode := w }) hroom]

theorem execute_of_ret {a : ℕ} {rest : List ℕ} (hsp : m.sp ≠ 0) (hs : m.stack = a :: rest) :
    (m.execute 0x00EE).machine = { m with pc := a, stack := rest, sp := m.sp - 1, opcode := 0x00EE } := by
  rw [execute_of_decode m ((Instruction.decode_eq_ret_iff _).2 rfl),
    perform_ret (m := { m with opcode := 0x00EE }) hsp hs]

theorem step_of_ret {a : ℕ} {rest : List ℕ} (hw : m.fetch = 0x00EE) (hsp : m.sp ≠ 0) (hs : m.stack = a :: rest) :
    m.step.machine = { m with pc := a, stack := rest, sp := m.sp - 1, opcode := 0x00EE } := by
  rw [step, hw]
  exact execute_of_ret (m := { m with pc := next m.pc }) hsp hs

theorem operate_of_ret {o : Operation} {a : ℕ} {rest : List ℕ} (ho : o.opcode? m = some 0x00EE) (hsp : m.sp ≠ 0)
    (hs : m.stack = a :: rest) :
    (m.operate o).machine = { m with pc := a, stack := rest, sp := m.sp - 1, opcode := 0x00EE } := by
  cases o with
  | step => exact step_of_ret (Option.some.inj ho) hsp hs
  | execute w =>
    have hw : w.toNat = 0x00EE := Option.some.inj ho
    rw [operate_execute, hw]
    exact execute_of_ret hsp hs
  | _ => simp [Operation.opcode?] at ho

/-- **A return finds its call.** A reachable machine calls a subroutine, and any operations follow, none of which
brings the stack pointer back to where it was. Then the oldest addresses on the stack are those of before the call
and the one behind the call; and a return that does bring the stack pointer back goes on behind the call with the stack
of before it. -/
theorem call_returns (h : m.Reachable) (hcall : 0x2000 ≤ m.fetch ∧ m.fetch ≤ 0x2FFF) (hroom : m.sp < 16)
    (ops : List Operation) (hsingle : ∀ o ∈ ops, o.isSingle)
    (hdeep : m.step.machine.StaysAbove m.sp ops) :
    (∀ pre, pre <+: ops →
      (m.step.machine.after pre).oldest (m.sp + 1) = m.stack.reverse ++ [(m.pc + 2) % 0x10000]) ∧
    ∀ o, o.opcode? (m.step.machine.after ops) = some 0x00EE →
      ((m.step.machine.after ops).operate o).machine.sp = m.sp →
      ((m.step.machine.after ops).operate o).machine.pc = (m.pc + 2) % 0x10000 ∧
        ((m.step.machine.after ops).operate o).machine.stack = m.stack := by
  have hc := h.counted
  have hc' := kept_counted.step m hc
  have hfamily : Opcode.family m.fetch = 2 := by simp only [Opcode.family]; omega
  have hlength : (next m.pc :: m.stack).length = m.sp + 1 := by rw [List.length_cons, hc.depth]
  have hcalled : m.step.machine.stack = next m.pc :: m.stack := by
    rw [step_of_call rfl hfamily (Nat.ne_of_lt hroom)]
  -- the call puts these addresses on the stack, and the stack pointer stays above all but one of them
  have hbase (pre) (hpre : pre <+: ops) : next m.pc :: m.stack <:+ (m.step.machine.after pre).stack :=
    suffix_after hlength hc' (hcalled ▸ List.suffix_refl _) pre (fun o ho => hsingle o (hpre.subset ho))
      (hdeep.of_prefix hpre)
  constructor
  · intro pre hpre
    rw [← hlength, oldest_of_suffix (hbase pre hpre), List.reverse_cons]
    rfl
  · intro o ho hback
    have hsuffix := hbase ops (List.prefix_refl ops)
    have hdepth := (kept_counted.after ops hc').depth
    have hsp := hdeep ops (List.prefix_refl ops)
    generalize m.step.machine.after ops = c at *
    cases hs : c.stack with
    | nil => simp [hs] at hdepth; omega
    | cons a rest =>
      rw [operate_of_ret ho (Nat.ne_of_gt (Nat.zero_lt_of_lt hsp)) hs] at hback ⊢
      simp only at hback ⊢
      have heq : next m.pc :: m.stack = c.stack := hsuffix.eq_of_length (by omega)
      rw [hs] at heq
      obtain ⟨rfl, rfl⟩ := List.cons.inj heq
      exact ⟨rfl, rfl⟩

/-- a program that calls a subroutine, which calls another one on its way -/
def nested : Rom := ⟨#[0x22, 0x06, 0x12, 0x02, 0x00, 0xEE, 0x22, 0x04, 0x00, 0xEE], by decide⟩

/-- the program in execution -/
def nestedAt (pc : ℕ) (stack : List ℕ) (opcode : ℕ) : Machine Cycle :=
  { boot nested (Cycle.mk #[] 0) with pc, stack, sp := stack.length, opcode }

theorem fetch_nestedAt (pc : ℕ) (stack : List ℕ) (opcode : ℕ) :
    (nestedAt pc stack opcode).fetch =
      (nested.byteAt (pc % 4096)).toNat * 256 + (nested.byteAt ((pc + 1) % 4096)).toNat := by
  simp only [fetch, nestedAt, boot, Rom.read_image]

theorem step_nestedAt_call (pc : ℕ) (stack : List ℕ) (opcode : ℕ) {w : ℕ}
    (hw : (nestedAt pc stack opcode).fetch = w) (hcall : Opcode.family w = 2) (hroom : stack.length ≠ stackRoom) :
    (nestedAt pc stack opcode).step.machine = nestedAt (Opcode.nnn w) (next pc :: stack) w := by
  rw [step_of_call hw hcall hroom]
  simp only [nestedAt, List.length_cons]

theorem step_nestedAt_ret {pc a : ℕ} {rest : List ℕ} {opcode : ℕ}
    (hw : (nestedAt pc (a :: rest) opcode).fetch = 0x00EE) :
    (nestedAt pc (a :: rest) opcode).step.machine = nestedAt a rest 0x00EE := by
  rw [step_of_ret hw (Nat.succ_ne_zero _) rfl]
  simp only [nestedAt, List.length_cons, Nat.add_sub_cancel]

/-- the program calls, its subroutine calls and is returned to, with a tick in between and a key that there is not -/
theorem call_returns_of_nested :
    let m := boot nested (Cycle.mk #[] 0)
    let ops : List Operation := [.step, .tick, .step, .setKey (-1) true]
    m.step.machine.StaysAbove 0 ops ∧
      (m.step.machine.after ops).oldest 1 = [0x202] ∧
      ((m.step.machine.after ops).operate .step).machine.pc = 0x202 ∧
      ((m.step.machine.after ops).operate .step).machine.stack = [] := by
  intro m ops
  have f1 : m.fetch = 0x2206 := (fetch_nestedAt 0x200 [] 0).trans (by decide)
  have f2 : (nestedAt 0x206 [0x202] 0x2206).fetch = 0x2204 := (fetch_nestedAt ..).trans (by decide)
  have f3 : (nestedAt 0x204 [0x208, 0x202] 0x2204).fetch = 0x00EE := (fetch_nestedAt ..).trans (by decide)
  have f4 : (nestedAt 0x208 [0x202] 0x00EE).fetch = 0x00EE := (fetch_nestedAt ..).trans (by decide)
  have s1 : m.step.machine = nestedAt 0x206 [0x202] 0x2206 :=
    step_nestedAt_call 0x200 [] 0 f1 (by decide) (by decide)
  have s2 : (nestedAt 0x206 [0x202] 0x2206).step.machine = nestedAt 0x204 [0x208, 0x202] 0x2204 :=
    step_nestedAt_call _ _ _ f2 (by decide) (by decide)
  have s3 : (nestedAt 0x204 [0x208, 0x202] 0x2204).step.machine = nestedAt 0x208 [0x202] 0x00EE :=
    step_nestedAt_ret f3
  have s4 : (nestedAt 0x208 [0x202] 0x00EE).step.machine = nestedAt 0x202 [] 0x00EE := step_nestedAt_ret f4
  have htick : (nestedAt 0x204 [0x208, 0x202] 0x2204).tick = nestedAt 0x204 [0x208, 0x202] 0x2204 := rfl
  have hkey :
      ((nestedAt 0x208 [0x202] 0x00EE).operate (.setKey (-1) true)).machine = nestedAt 0x208 [0x202] 0x00EE := rfl
  have hrun : m.step.machine.after ops = nestedAt 0x208 [0x202] 0x00EE := by
    rw [s1, after_cons, operate_step, s2, after_cons, operate_tick, htick, after_cons, operate_step, s3, after_cons,
      hkey]
    rfl
  have hdeep : m.step.machine.StaysAbove 0 ops := by
    rw [s1, staysAbove_cons, operate_step, s2, staysAbove_cons, operate_tick, htick, staysAbove_cons, operate_step, s3,
      staysAbove_cons, hkey, staysAbove_nil]
    decide
  have hm : m.Reachable := ⟨nested, Cycle.mk #[] 0, [], rfl⟩
  have h := call_returns hm (by rw [f1]; decide) (by decide) ops (by decide) hdeep
  refine ⟨hdeep, h.1 ops (List.prefix_refl ops), h.2 .step ?_ ?_⟩
  · rw [hrun]
    exact congrArg some f4
  · rw [hrun, operate_step, s4]
    rfl

end Machine

end ChipEight
