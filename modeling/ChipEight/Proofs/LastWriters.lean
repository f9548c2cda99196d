/-
What memory remembers. Two opcodes store into memory: `Fx33` the decimal digits of a register (`Spelled`), and `Fx55`
the registers up to its own (`Saved`), both from the index on and around the end (`Deed.Stores`). One deed other than a
new start leaves every other cell alone (`Deed.memory_left`), so by induction on the deeds that lead to a machine each
of its cells holds what the last deed that stores into it has stored there, or what it held at the start
(`memory_last_stored`). A region that no deed stores into is as it was, whatever else happens.
-/
import ChipEight.Proofs.Footprints
import ChipEight.Proofs.RegisterBlocks
import ChipEight.Proofs.Restart

namespace ChipEight

variable {σ : Type}

namespace Machine

variable {m after : Machine σ} {x : Reg}

/-! ## Decimal digits -/

/-- three digits with the value of a byte are the ones that are stored for it -/
theorem decimalDigits_eq {v : UInt8} {h t o : ℕ} (hdigits : h ≤ 9 ∧ t ≤ 9 ∧ o ≤ 9)
    (hvalue : 100 * h + 10 * t + o = v.toNat) : (decimalDigits v).map UInt8.toNat = [h, t, o] := by
  have hhundreds : (v / 100).toNat = h := by
    rw [UInt8.toNat_div]
    show v.toNat / 100 = h
    omega
  have htens : (v / 10 % 10).toNat = t := by
    rw [UInt8.toNat_mod, UInt8.toNat_div]
    show v.toNat / 10 % 10 = t
    omega
  have hones : (v % 10).toNat = o := by
    rw [UInt8.toNat_mod]
    show v.toNat % 10 = o
    omega
  simp only [decimalDigits, List.map_cons, List.map_nil, hhundreds, htens, hones]

theorem exists_digits (v : UInt8) :
    ∃ h t o : ℕ, (h ≤ 9 ∧ t ≤ 9 ∧ o ≤ 9) ∧ 100 * h + 10 * t + o = v.toNat := by
  have hv := v.toNat_lt
  refine ⟨v.toNat / 100, v.toNat / 10 % 10, v.toNat % 10, ?_, ?_⟩ <;> omega

/-- the decimal digits of the register `x` are in memory from the index on, the index is where it was, and nothing else
of memory has changed -/
structure Spelled (m after : Machine σ) (x : Reg) : Prop where
  cells : ∀ h t o : ℕ, h ≤ 9 ∧ t ≤ 9 ∧ o ≤ 9 → 100 * h + 10 * t + o = (m.reg x).toNat →
    ∀ k b : ℕ, [h, t, o][k]? = some b → (after.memory.read (m.index + k)).toNat = b
  others : ∀ a (ha : a < 4096), (∀ k < 3, a ≠ (m.index + k) % 4096) → after.memory[a] = m.memory[a]
  index : after.index = m.index

variable [RandomSource σ]

theorem spelled_perform (m : Machine σ) (pc opcode : ℕ) (x : Reg) :
    m.Spelled ({ m with pc, opcode }.perform (.decimal x)).machine x where
  cells h t o hdigits hvalue k b hb := by
    have hspelled := decimalDigits_eq hdigits hvalue
    rw [← hspelled, List.getElem?_map, Option.map_eq_some_iff] at hb
    obtain ⟨c, hc, rfl⟩ := hb
    obtain ⟨hk, rfl⟩ := List.getElem?_eq_some_iff.1 hc
    have hsize : (decimalDigits (m.reg x)).length ≤ 4096 := show 3 ≤ 4096 by decide
    exact congrArg UInt8.toNat (m.memory.store_inside hsize hk)
  others a ha hfree := m.memory.store_outside ha hfree
  index := rfl

theorem operate_decimal {o : Operation} {w : ℕ} (ho : o.opcode? m = some w)
    (hw : (Instruction.decimal x).Encodes w) : m.Spelled (m.operate o).machine x := by
  obtain ⟨pc, he⟩ := operate_of_encodes ho hw
  rw [he]
  exact spelled_perform m pc w x

end Machine

/-! ## One deed -/

namespace Deed

/-- the deed stores a byte of value `b` into the cell `a` -/
inductive Stores (d : Deed σ) : ℕ → ℕ → Prop
  /-- `Fx33` stores the hundreds, the tens and the ones of its register -/
  | digit {w h t o k b : ℕ} (hw : d.opcode? = some w) (hcode : Opcode.family w = 0xF ∧ w % 256 = 0x33)
    (hdigits : h ≤ 9 ∧ t ≤ 9 ∧ o ≤ 9) (hvalue : 100 * h + 10 * t + o = (d.machine.reg (Opcode.x w)).toNat)
    (hb : [h, t, o][k]? = some b) : Stores d ((d.machine.index + k) % 4096) b
  /-- `Fx55` stores the registers up to its own -/
  | register {w : ℕ} {k : Reg} (hw : d.opcode? = some w) (hcode : Opcode.family w = 0xF ∧ w % 256 = 0x55)
    (hk : k ≤ Opcode.x w) : Stores d ((d.machine.index + k) % 4096) (d.machine.reg k).toNat

variable [RandomSource σ] {d : Deed σ} {a b : ℕ}

/-- what is stored is there then -/
theorem memory_left_of_stores (h : d.Stores a b) (ha : a < 4096) : d.left.memory[a].toNat = b := by
  cases h with
  | digit hw hcode hdigits hvalue hb =>
    have hspelled := Machine.operate_decimal hw ⟨hcode.1, hcode.2, rfl⟩
    exact hspelled.cells _ _ _ hdigits hvalue _ _ hb
  | register hw hcode hk =>
    obtain ⟨-, hsaved⟩ := Machine.operate_save hw ⟨hcode.1, hcode.2, rfl⟩
    exact congrArg UInt8.toNat (hsaved.cells _ hk)

/-- an opcode leaves a cell alone that it does not store into -/
theorem memory_left_of_opcode {w : ℕ} (hw : d.opcode? = some w) (ha : a < 4096) (h : ∀ b, ¬d.Stores a b) :
    d.left.memory[a] = d.machine.memory[a] := by
  by_cases hdecimal : Opcode.family w = 0xF ∧ w % 256 = 0x33
  · have hspelled := Machine.operate_decimal hw ⟨hdecimal.1, hdecimal.2, rfl⟩
    refine hspelled.others a ha ?_
    rintro k hk rfl
    obtain ⟨hundreds, tens, ones, hdigits, hvalue⟩ := Machine.exists_digits (d.machine.reg (Opcode.x w))
    exact h _ (.digit hw hdecimal hdigits hvalue (List.getElem?_eq_getElem hk))
  · by_cases hsave : Opcode.family w = 0xF ∧ w % 256 = 0x55
    · obtain ⟨-, hsaved⟩ := Machine.operate_save hw ⟨hsave.1, hsave.2, rfl⟩
      refine hsaved.others a ha ?_
      rintro k hk rfl
      exact h _ (.register hw hsave hk)
    · have hnone : ¬Opcode.MayWrite d.machine.keypad w .memory := by
        rintro ⟨hf, hb | hb⟩
        · exact hdecimal ⟨hf, hb⟩
        · exact hsave ⟨hf, hb⟩
      obtain ⟨pc, he⟩ := Machine.operate_of_opcode? hw
      have hsame : ({ d.machine with pc }.execute w).machine.memory = d.machine.memory :=
        Machine.execute_same (m := { d.machine with pc }) (p := .memory) hnone
      rw [left, he, hsame]

/-- **What one deed leaves of memory.** All cells are as before that it does not store into, unless it starts over. -/
theorem memory_left (hframe : d.work.isFrame = false) (hreset : d.work ≠ .reset) (ha : a < 4096)
    (h : ∀ b, ¬d.Stores a b) : d.left.memory[a] = d.machine.memory[a] := by
  cases hw : d.opcode? with
  | some w => exact memory_left_of_opcode hw ha h
  | none =>
    obtain ⟨m, o⟩ := d
    have heffect := m.effect hframe
    unfold left
    generalize (m.operate o).machine = n at heffect
    cases heffect with
    | executes w pc hw' => cases hw.symm.trans hw'
    | ticks => rfl
    | restarts => exact absurd rfl hreset
    | writes p s ho => rfl

end Deed

/-! ## Many deeds -/

namespace Machine

variable [RandomSource σ] {m n : Machine σ} {ds : List (Deed σ)}

/-- by induction on the deeds: a cell that none of them stores into is left alone by the last one -/
theorem Leads.memory_kept (h : Leads m ds n) (hreset : ∀ d ∈ ds, d.work ≠ .reset) {a : ℕ} (ha : a < 4096)
    (hnone : ∀ d ∈ ds, ∀ b, ¬d.Stores a b) : n.memory[a] = m.memory[a] := by
  induction h with
  | start => rfl
  | @next ds n h o ho ih =>
    have hlast := List.mem_append_right ds (List.mem_singleton_self (Deed.mk n o))
    have hleft := Deed.memory_left (d := ⟨n, o⟩) ho (hreset _ hlast) ha (hnone _ hlast)
    refine hleft.trans (ih (fun d hd => ?_) fun d hd => ?_)
    · exact hreset d (List.mem_append_left _ hd)
    · exact hnone d (List.mem_append_left _ hd)

/-- what a deed stores into a cell stays there as long as no later one stores into it -/
theorem Leads.memory_stored (h : Leads m ds n) (hreset : ∀ d ∈ ds, d.work ≠ .reset) {a b : ℕ} (ha : a < 4096)
    {before behind : List (Deed σ)} {d : Deed σ} (hds : ds = before ++ d :: behind) (hd : d.Stores a b)
    (hnone : ∀ d' ∈ behind, ∀ b', ¬d'.Stores a b') : n.memory[a].toNat = b := by
  induction h generalizing behind with
  | start => simp at hds
  | @next ds n h o ho ih =>
    rcases List.eq_nil_or_concat behind with rfl | ⟨behind, e, rfl⟩
    · obtain ⟨rfl, hd'⟩ := List.append_inj' hds rfl
      obtain rfl := (List.cons.inj hd').1
      exact Deed.memory_left_of_stores hd ha
    · rw [List.concat_eq_append, ← List.cons_append, ← List.append_assoc] at hds
      obtain ⟨hbefore, he⟩ := List.append_inj' hds rfl
      obtain rfl := (List.cons.inj he).1
      have hlast := List.mem_append_right ds (List.mem_singleton_self (Deed.mk n o))
      have hspared : ∀ b', ¬(Deed.mk n o).Stores a b' := hnone _ (by simp)
      have hleft := Deed.memory_left (d := ⟨n, o⟩) ho (hreset _ hlast) ha hspared
      rw [show (n.operate o).machine.memory[a] = n.memory[a] from hleft]
      refine ih (fun d' hd' => hreset d' (List.mem_append_left _ hd')) hbefore fun d' hd' => ?_
      exact hnone d' (by simp [hd'])

/-! ## Main result -/

/-- what the deeds that lead from `m` to `n` have made of memory -/
structure Remembers (m : Machine σ) (ds : List (Deed σ)) (n : Machine σ) : Prop where
  /-- a cell differs only if some deed has stored into it -/
  stored : ∀ a (ha : a < 4096), n.memory[a] ≠ m.memory[a] → ∃ d ∈ ds, ∃ b, d.Stores a b
  /-- and then it holds what the last such deed has stored -/
  last : ∀ before d behind a b (ha : a < 4096), ds = before ++ d :: behind → d.Stores a b →
    (∀ d' ∈ behind, ∀ b', ¬d'.Stores a b') → n.memory[a].toNat = b
  /-- a deed that stores digits stores all three of its register, and leaves the index where it is -/
  digits : ∀ d ∈ ds, ∀ w, d.opcode? = some w → Opcode.family w = 0xF ∧ w % 256 = 0x33 →
    d.left.index = d.machine.index ∧ ∃ h t o : ℕ, (h ≤ 9 ∧ t ≤ 9 ∧ o ≤ 9) ∧
      100 * h + 10 * t + o = (d.machine.reg (Opcode.x w)).toNat ∧ d.Stores (d.machine.index % 4096) h ∧
      d.Stores ((d.machine.index + 1) % 4096) t ∧ d.Stores ((d.machine.index + 2) % 4096) o
  /-- a region that no deed stores into is intact -/
  region : ∀ region : ℕ → Prop, (∀ d ∈ ds, ∀ a b, d.Stores a b → ¬region a) →
    ∀ a (ha : a < 4096), region a → n.memory[a] = m.memory[a]

theorem Leads.remembers (h : Leads m ds n) (hreset : ∀ d ∈ ds, d.work ≠ .reset) : Remembers m ds n where
  stored a ha hne := by
    by_contra hnone
    push Not at hnone
    exact hne (h.memory_kept hreset ha hnone)
  last before d behind a b ha hds hd hnone := h.memory_stored hreset ha hds hd hnone
  digits d _ w hw hcode := by
    have hspelled := operate_decimal hw ⟨hcode.1, hcode.2, rfl⟩
    obtain ⟨h, t, o, hdigits, hvalue⟩ := exists_digits (d.machine.reg (Opcode.x w))
    exact ⟨hspelled.index, h, t, o, hdigits, hvalue, .digit (k := 0) hw hcode hdigits hvalue rfl,
      .digit (k := 1) hw hcode hdigits hvalue rfl, .digit (k := 2) hw hcode hdigits hvalue rfl⟩
  region region hspared a ha hregion :=
    h.memory_kept hreset ha fun d hd b hstores => hspared d hd a b hstores hregion

/-- **Memory remembers the last store into each cell.** A program that fits is loaded, and any operations follow that do
not start over. At every point, in frames too, a cell differs from what the font, the program or the rest of memory held
there only if an opcode `Fx33` or `Fx55` has stored into it, and then it holds what the last of these has stored: a
digit or a register. So a region that no such opcode reaches is intact, whatever faults, draws, waits or is passed
over. -/
theorem memory_last_stored (bytes : Array UInt8) (random : σ) (hfits : bytes.size ≤ 3584) :
    ∃ m, load bytes random = .ok m ∧ m.Fresh bytes random ∧ ∀ ops : List Operation, .reset ∉ ops →
      Leads m (m.deeds ops) (m.after ops) ∧ Remembers m (m.deeds ops) (m.after ops) ∧
      ∀ ds, ds <+: m.deeds ops → ∃ n, Leads m ds n ∧ Remembers m ds n := by
  refine ⟨boot ⟨bytes, hfits⟩ random, load_of_fits hfits random, boot_fresh ⟨bytes, hfits⟩ random, ?_⟩
  intro ops hops
  have hleads := leads_deeds (boot ⟨bytes, hfits⟩ random) ops
  have hreset := work_ne_reset (m := boot ⟨bytes, hfits⟩ random) hops
  refine ⟨hleads, hleads.remembers hreset, ?_⟩
  intro ds hds
  obtain ⟨n, hn⟩ := hleads.of_prefix hds
  exact ⟨n, hn, hn.remembers fun d hd => hreset d (hds.subset hd)⟩

/-- the start of an empty program -/
def empty : Machine Cycle := boot ⟨#[], Nat.zero_le _⟩ (Cycle.mk #[] 0)

/-- the digits of 254 are stored, and then a register over the first of them, with a return that fails behind it -/
theorem memory_last_stored_of_overlap :
    let ops : List Operation := [.execute 0x60FE, .execute 0xA051, .execute 0xF033, .execute 0xF055, .execute 0x00EE]
    (#[] : Array UInt8).size ≤ 3584 ∧ .reset ∉ ops ∧ ∃ m, load #[] (Cycle.mk #[] 0) = .ok m ∧
      Remembers m (m.deeds ops) (m.after ops) ∧ (m.after ops).memory[0x51].toNat = 254 := by
  intro ops
  obtain ⟨m, hm, -, h⟩ := memory_last_stored #[] (Cycle.mk #[] 0) (by decide)
  obtain ⟨-, hremembers, -⟩ := h ops (by decide)
  refine ⟨by decide, by decide, m, hm, hremembers, ?_⟩
  obtain rfl : empty = m := Except.ok.inj ((load_of_fits (by decide) (Cycle.mk #[] 0)).symm.trans hm)
  let saves : Deed Cycle := ⟨empty.after (ops.take 3), .execute 0xF055⟩
  let fails : Deed Cycle := ⟨saves.left, .execute 0x00EE⟩
  have hsaves : saves.Stores 0x51 254 := .register (w := 0xF055) (k := 0) rfl ⟨rfl, rfl⟩ (by decide)
  have hfails (a b : ℕ) : ¬fails.Stores a b := by
    intro hstores
    cases hstores with
    | digit hw hcode | register hw hcode =>
      obtain rfl := Option.some.inj hw
      exact absurd hcode.2 (by decide)
  have hdeeds : empty.deeds ops = empty.deeds (ops.take 3) ++ saves :: [fails] :=
    empty.deeds_append (ops.take 3) (ops.drop 3)
  refine hremembers.last _ saves [fails] 0x51 254 (by decide) hdeeds hsaves ?_
  intro d hd b
  obtain rfl := List.mem_singleton.1 hd
  exact hfails 0x51 b

end Machine

end ChipEight
