/-
Even addresses. A step goes on by two addresses, a skip by two more, and a wait for a key two back, all around the end
of the addresses, which is even; so `pc` and what calls leave of it on the stack stay even as long as no opcode aims at
an odd address (`Deed.aligned_left` for one deed, `Leads.aligned` for many). An even `pc` never stands on the last byte
of memory, so both bytes of an opcode stand next to each other; and the address that a fault reports is two before an
even one (`addresses_even`).
-/
import ChipEight.Proofs.ControlFlow

namespace ChipEight

variable {σ : Type}

namespace Machine

variable {m : Machine σ} {w : ℕ}

/-- `pc` and every address on the stack are even -/
structure Aligned (m : Machine σ) : Prop where
  pc : 2 ∣ m.pc
  stack : ∀ a ∈ m.stack, 2 ∣ a

/-- if the opcode is a jump or a call, it aims at an even address -/
structure AimsEven (m : Machine σ) (w : ℕ) : Prop where
  target : Opcode.family w = 1 ∨ Opcode.family w = 2 → 2 ∣ w % 4096
  offset : Opcode.family w = 0xB → 2 ∣ w % 4096 + (m.reg 0).toNat

theorem boot_aligned (rom : Rom) (random : σ) : (boot rom random).Aligned :=
  ⟨show 2 ∣ programStart by decide, fun _ h => nomatch h⟩

theorem next_even {pc : ℕ} (h : 2 ∣ pc) : 2 ∣ next pc := by
  simp only [next]
  omega

theorem back_even {pc : ℕ} (h : 2 ∣ pc) : 2 ∣ back pc := by
  simp only [back]
  omega

/-- a step moves `pc` behind its opcode before it executes it -/
theorem Aligned.next (h : m.Aligned) : ({ m with pc := Machine.next m.pc } : Machine σ).Aligned :=
  ⟨next_even h.pc, h.stack⟩

/-- all addresses are even, and the next opcode stands in two bytes of memory that follow each other -/
structure FetchesEven (m : Machine σ) : Prop where
  aligned : m.Aligned
  bytes : ∃ high low : UInt8, m.memory[m.pc % 4096]? = some high ∧ m.memory[m.pc % 4096 + 1]? = some low ∧
    m.fetch = high.toNat * 256 + low.toNat

/-- an opcode at an even address does not run around the end of memory -/
theorem Aligned.fetchesEven (h : m.Aligned) : m.FetchesEven := by
  have hpc := h.pc
  have hhigh : m.pc % 4096 < 4096 := by omega
  have hlow : m.pc % 4096 + 1 < 4096 := by omega
  have hnext : m.memory.read (m.pc + 1) = m.memory[m.pc % 4096 + 1] := by
    have haddress : (m.pc + 1) % 4096 = m.pc % 4096 + 1 := by omega
    simp only [Memory.read, haddress]
  refine ⟨h, m.memory[m.pc % 4096], m.memory[m.pc % 4096 + 1], Vector.getElem?_eq_getElem hhigh,
    Vector.getElem?_eq_getElem hlow, ?_⟩
  rw [fetch, hnext]
  rfl

variable [RandomSource σ]

/-! ## One opcode -/

theorem execute_pc_even (h : m.Aligned) (haims : m.AimsEven w) : 2 ∣ (m.execute w).machine.pc := by
  cases hf : (m.execute w).fault with
  | some f =>
    rw [execute_machine_of_fault hf]
    exact h.pc
  | none =>
    by_cases hturns : m.Turns w
    · rcases hturns with hjump | hcall | hoffset | hret | hawaits | hskips
      · rw [execute_pc_of_target hf (Or.inl hjump)]
        exact haims.target (Or.inl hjump)
      · rw [execute_pc_of_target hf (Or.inr hcall)]
        exact haims.target (Or.inr hcall)
      · rw [execute_pc_of_offset hoffset]
        exact haims.offset hoffset
      · exact h.stack _ (List.mem_of_head? (head?_stack_of_ret hf hret))
      · rw [execute_pc_of_awaits hawaits]
        exact back_even h.pc
      · obtain ⟨t, hw, ht⟩ := skips_iff.1 hskips
        rw [execute_pc_of_test hw, if_pos ht]
        exact next_even h.pc
    · rw [execute_pc_of_not_turns hturns]
      exact h.pc

/-- what stands on the stack after an opcode stood there before, or is the address behind a call -/
theorem mem_stack_execute {a : ℕ} (ha : a ∈ (m.execute w).machine.stack) : a = m.pc ∨ a ∈ m.stack := by
  rcases execute_cases m w with ⟨-, he⟩ | ⟨i, -, he⟩ <;> rw [he] at ha
  · exact Or.inr ha
  · rcases perform_stack { m with opcode := w } i with ⟨nnn, -, -, hp⟩ | ⟨b, rest, -, -, hs, hp⟩ | ⟨hs, -⟩
    · rw [hp] at ha
      exact List.mem_cons.1 ha
    · rw [hp] at ha
      exact Or.inr (hs ▸ List.mem_cons_of_mem b ha)
    · rw [hs] at ha
      exact Or.inr ha

theorem execute_aligned (h : m.Aligned) (haims : m.AimsEven w) : (m.execute w).machine.Aligned := by
  refine ⟨execute_pc_even h haims, fun a ha => ?_⟩
  rcases mem_stack_execute ha with rfl | ha
  · exact h.pc
  · exact h.stack a ha

/-- the faults of an opcode report the address two before `pc` -/
theorem execute_fault_even (h : m.Aligned) (hcounted : m.Counted) {f : Fault} (hf : (m.execute w).fault = some f) :
    ∃ a, 2 ∣ a ∧ (f = .overflow a ∨ f = .underflow a) := by
  refine ⟨back m.pc, back_even h.pc, ?_⟩
  rcases (execute_fault_iff hcounted.depth w f).1 hf with ⟨-, -, rfl⟩ | ⟨-, -, rfl⟩
  · exact Or.inr rfl
  · exact Or.inl rfl

end Machine

/-! ## One deed -/

theorem Operated.fault_of_ofOutcome {o : Outcome σ} {f : Fault} (h : (ofOutcome o).failure = some (.fault f)) :
    o.fault = some f := by
  simpa [ofOutcome] using h

namespace Deed

open Machine

variable [RandomSource σ] {m : Machine σ} {d : Deed σ}

/-- without an opcode, no address changes unless all do -/
theorem aligned_of_effect {o : Operation} {n : Machine σ} (h : m.Aligned) (hnone : o.opcode? m = none)
    (heffect : m.Effect o n) : n.Aligned := by
  cases heffect with
  | executes w pc hw => cases hnone.symm.trans hw
  | ticks => exact ⟨h.pc, h.stack⟩
  | restarts => exact boot_aligned m.rom m.random
  | writes p s ho => exact ⟨h.pc, h.stack⟩

/-- a deed leaves even addresses even, unless its opcode aims at an odd one -/
theorem aligned_left (hframe : d.work.isFrame = false) (h : d.machine.Aligned)
    (haims : ∀ w, d.opcode? = some w → d.machine.AimsEven w) : d.left.Aligned := by
  obtain ⟨m, o⟩ := d
  cases o with
  | step =>
    obtain ⟨htarget, hoffset⟩ := haims m.fetch rfl
    exact execute_aligned (h.next) ⟨htarget, hoffset⟩
  | execute w => exact execute_aligned h (haims w.toNat rfl)
  | _ => exact aligned_of_effect h rfl (m.effect hframe)

theorem fault_even (hframe : d.work.isFrame = false) (h : d.machine.Aligned) (hcounted : d.machine.Counted) {f : Fault}
    (hf : (d.machine.operate d.work).failure = some (.fault f)) :
    ∃ a, 2 ∣ a ∧ (f = .overflow a ∨ f = .underflow a) := by
  obtain ⟨m, o⟩ := d
  cases o with
  | step =>
    have hmoved : ({ m with pc := next m.pc } : Machine σ).Counted := ⟨hcounted.depth, hcounted.room⟩
    exact execute_fault_even (h.next) hmoved (Operated.fault_of_ofOutcome hf)
  | execute w => exact execute_fault_even h hcounted (Operated.fault_of_ofOutcome hf)
  | setKey index down =>
    simp only [operate] at hf
    cases hk : m.setKey index down <;> simp [hk, Operated.ofWrite] at hf
  | setPixel x y lit =>
    simp only [operate] at hf
    cases hp : m.setPixel x y lit <;> simp [hp, Operated.ofWrite] at hf
  | frame cycles playing => cases hframe
  | _ => cases hf

end Deed

/-! ## Many deeds -/

namespace Machine

variable [RandomSource σ] {m n : Machine σ} {ds : List (Deed σ)}

/-- by induction on the deeds: if no opcode aims at an odd address, the addresses stay even -/
theorem Leads.aligned (h : Leads m ds n) (hm : m.Aligned)
    (haims : ∀ d ∈ ds, ∀ w, d.opcode? = some w → d.machine.AimsEven w) : n.Aligned := by
  induction h with
  | start => exact hm
  | @next ds n h o ho ih =>
    have hbefore : n.Aligned := ih fun d hd => haims d (List.mem_append_left _ hd)
    have hlast := haims ⟨n, o⟩ (List.mem_append_right ds (List.mem_singleton_self _))
    exact Deed.aligned_left (d := ⟨n, o⟩) ho hbefore hlast

/-! ## Main result -/

/-- **Addresses stay even.** A program that fits is loaded, and any operations follow, none of which executes a jump or
a call to an odd address. At every point, in frames too, `pc` and all addresses on the stack are even, so that every
opcode is fetched from an even address and never around the end of memory; and an operation that faults reports an even
address. -/
theorem addresses_even (bytes : Array UInt8) (random : σ) (hfits : bytes.size ≤ 3584) :
    ∃ m, load bytes random = .ok m ∧ ∀ ops : List Operation,
      (∀ d ∈ m.deeds ops, ∀ w, d.opcode? = some w → d.machine.AimsEven w) →
        Leads m (m.deeds ops) (m.after ops) ∧ (m.after ops).FetchesEven ∧
        (∀ ds, ds <+: m.deeds ops → ∃ n, Leads m ds n ∧ n.FetchesEven) ∧
        ∀ done o rest f, ops = done ++ o :: rest → ((m.after done).operate o).failure = some (.fault f) →
          ∃ a, 2 ∣ a ∧ (f = .overflow a ∨ f = .underflow a) := by
  have hboot := boot_aligned ⟨bytes, hfits⟩ random
  refine ⟨boot ⟨bytes, hfits⟩ random, load_of_fits hfits random, fun ops haims => ?_⟩
  have hleads := leads_deeds (boot ⟨bytes, hfits⟩ random) ops
  refine ⟨hleads, (hleads.aligned hboot haims).fetchesEven, ?_, ?_⟩
  · intro ds hds
    obtain ⟨n, hn⟩ := hleads.of_prefix hds
    exact ⟨n, hn, (hn.aligned hboot fun d hd => haims d (hds.subset hd)).fetchesEven⟩
  · intro done o rest f hops hf
    obtain ⟨d, hd, hfault⟩ := exists_deed_of_fault hf
    -- the deed that faults is one of all of them
    have hmem : d ∈ (boot ⟨bytes, hfits⟩ random).deeds ops := by
      rw [hops, deeds_append]
      exact List.mem_append_right _ (List.mem_append_left _ hd)
    obtain ⟨before, behind, hds⟩ := List.append_of_mem hmem
    obtain ⟨hbefore, hframe⟩ := hleads.split hds
    have heven : d.machine.Aligned := hbefore.aligned hboot fun d' hd' =>
      haims d' (hds ▸ List.mem_append_left _ hd')
    obtain ⟨hreachable, -⟩ := hleads.reachable ⟨_, random, [], rfl⟩ hmem
    exact Deed.fault_even hframe heven hreachable.counted hfault

/-- the program that calls the return behind the next instruction -/
def detour : Rom := ⟨#[0x22, 0x04, 0x00, 0xEE, 0x00, 0xEE], by decide⟩

/-- the start of the program, and the machine after the call -/
def detourAt : Machine Cycle := boot detour (Cycle.mk #[] 0)

def detourIn : Machine Cycle := { detourAt with pc := 0x204, stack := [0x202], sp := 1, opcode := 0x2204 }

theorem fetch_detourAt : detourAt.fetch = 0x2204 := fetch_of_image detour rfl

theorem step_detourAt : (detourAt.operate .step).machine = detourIn := by
  rw [operate_step, step_of_call fetch_detourAt rfl (by decide)]
  rfl

/-- a call, a wait in vain, a jump by a register, the return, one that finds the stack empty, a frame and a new start -/
theorem addresses_even_of_detour :
    let ops : List Operation := [.step, .execute 0xF00A, .execute 0xB204, .execute 0x00EE, .execute 0x00EE,
      .frame 0 false, .reset]
    detour.bytes.size ≤ 3584 ∧ ∃ m, load detour.bytes (Cycle.mk #[] 0) = .ok m ∧
      (∀ d ∈ m.deeds ops, ∀ w, d.opcode? = some w → d.machine.AimsEven w) ∧ (m.after ops).FetchesEven ∧
      ((m.after (ops.take 4)).operate (.execute 0x00EE)).failure = some (.fault (.underflow 0x200)) := by
  intro ops
  obtain ⟨m, hm, h⟩ := addresses_even detour.bytes (Cycle.mk #[] 0) detour.fits
  obtain rfl : detourAt = m := Except.ok.inj ((load_of_fits detour.fits (Cycle.mk #[] 0)).symm.trans hm)
  have haims : ∀ d ∈ detourAt.deeds ops, ∀ w, d.opcode? = some w → d.machine.AimsEven w := by
    have hdeeds : detourAt.deeds ops = ⟨detourAt, .step⟩ :: detourIn.deeds ops.tail := by
      rw [← step_detourAt]
      rfl
    rw [hdeeds]
    intro d hd w hw
    rcases List.mem_cons.1 hd with rfl | hd
    · obtain rfl : detourAt.fetch = w := Option.some.inj hw
      rw [fetch_detourAt]
      exact ⟨by decide, by decide⟩
    · -- of the words behind the call only the jump by a register aims anywhere, and that register is zero
      simp only [ops, List.tail_cons, deeds, deedsOf, List.cons_append, List.nil_append, List.mem_cons,
        List.not_mem_nil, or_false, frameDeeds, Int.toNat_zero] at hd
      rcases hd with rfl | rfl | rfl | rfl | rfl | rfl
      all_goals cases hw
      all_goals exact ⟨by decide, by decide⟩
  obtain ⟨-, hlast, -, -⟩ := h ops haims
  refine ⟨detour.fits, detourAt, hm, haims, hlast, ?_⟩
  have htaken : detourAt.after (ops.take 4) = detourIn.after (ops.tail.take 3) := by
    rw [← step_detourAt, ← after_cons]
    rfl
  rw [htaken]
  rfl

end Machine

end ChipEight
