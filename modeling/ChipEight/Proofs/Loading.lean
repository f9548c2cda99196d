/-
Loading a program. Memory at a start is what two block writes into 4096 zeros leave: the digits at the bottom, then the
program from `0x200` on (`image_splices`). A block write keeps the length of memory only if the block ends in it, which
is what the refusal of programs that are too long is for; so memory can be written out address by address
(`image_layout`). No instruction looks at the program that is kept for a reset, only a reset does, and it looks at
nothing but the memory that the program makes. Two programs that make the same memory can therefore not be told apart by
any operations (`Twins`), and zeros at the end of a program make no difference to its memory (`load_layout`).
-/
import ChipEight.Proofs.Interleaving
import ChipEight.Proofs.Logs

namespace ChipEight

/-! ## Block writes -/

/-- a block written over as many cells from `start` on; cells are added where it goes past the end -/
def splice {α : Type} (cells : List α) (start : ℕ) (block : List α) : List α :=
  cells.take start ++ block ++ cells.drop (start + block.length)

/-- a block write keeps the length if the block ends in the cells -/
theorem length_splice {α : Type} {cells block : List α} {start : ℕ} (h : start + block.length ≤ cells.length) :
    (splice cells start block).length = cells.length := by
  simp only [splice, List.length_append, List.length_take, List.length_drop]
  omega

/-- a block write changes the cells that it is written over -/
theorem getElem?_splice {α : Type} {cells : List α} {start : ℕ} (h : start ≤ cells.length) (block : List α) (a : ℕ) :
    (splice cells start block)[a]? =
      if start ≤ a ∧ a < start + block.length then block[a - start]? else cells[a]? := by
  have hlength : (cells.take start).length = start := List.length_take_of_le h
  rw [splice, List.append_assoc, List.getElem?_append, hlength]
  by_cases hbelow : a < start
  · rw [if_pos hbelow, if_neg (by omega), List.getElem?_take_of_lt hbelow]
  rw [if_neg hbelow, List.getElem?_append]
  by_cases hin : a < start + block.length
  · rw [if_pos (by omega), if_pos ⟨Nat.not_lt.1 hbelow, hin⟩]
  · rw [if_neg (by omega), if_neg (by omega), List.getElem?_drop]
    congr 1
    omega

namespace Rom

theorem length_font : font.toList.length = 80 := rfl

theorem getElem?_image (rom : Rom) (a : ℕ) :
    rom.image.toList[a]? = if a < 4096 then some (rom.byteAt a) else none := by
  rw [Vector.getElem?_toList]
  split_ifs with h
  · rw [Vector.getElem?_eq_getElem h, image, Vector.getElem_ofFn]
  · exact Vector.getElem?_eq_none (Nat.not_lt.1 h)

theorem some_getD (block : Array UInt8) (k : ℕ) :
    some (block.getD k 0) = if k < block.toList.length then block.toList[k]? else some 0 := by
  rw [Array.getD_eq_getD_getElem?, Array.getElem?_toList]
  split_ifs with h
  · rw [Array.getElem?_eq_getElem h]
    rfl
  · rw [Array.getElem?_eq_none (Nat.not_lt.1 h)]
    rfl

/-- memory at a start as it is written -/
theorem image_splices (rom : Rom) :
    rom.image.toList =
      splice (splice (List.replicate 4096 0) 0 font.toList) programStart rom.bytes.toList := by
  have hfits : rom.bytes.toList.length ≤ 3584 := rom.fits
  have hfont := length_font
  have hstart : programStart = 0x200 := rfl
  have hlength : (splice (List.replicate 4096 (0 : UInt8)) 0 font.toList).length = 4096 := by
    rw [length_splice, List.length_replicate]
    rw [List.length_replicate, hfont]
    decide
  refine List.ext_getElem? fun a => ?_
  rw [getElem?_image, getElem?_splice (by omega), getElem?_splice (Nat.zero_le _), byteAt]
  by_cases hend : a < 4096
  · rw [if_pos hend, List.getElem?_replicate_of_lt hend, apply_ite some, some_getD, some_getD, Nat.sub_zero]
    split_ifs <;> first | rfl | omega
  · rw [if_neg hend, if_neg (by omega), if_neg (by omega), List.getElem?_eq_none]
    rw [List.length_replicate]
    omega

/-- memory at a start as it stands, part by part -/
theorem image_layout (rom : Rom) :
    rom.image.toList =
      font.toList ++ List.replicate (0x200 - 80) 0 ++ rom.bytes.toList ++
        List.replicate (4096 - (0x200 + rom.bytes.size)) 0 := by
  have hstart : programStart = 0x200 := rfl
  have hbottom : splice (List.replicate 4096 (0 : UInt8)) 0 font.toList =
      font.toList ++ List.replicate (0x200 - 80) 0 ++ List.replicate (4096 - 0x200) 0 := by
    rw [splice, List.take_zero, List.nil_append, List.drop_replicate, List.append_assoc, ← List.replicate_add,
      length_font]
  have hlength : (font.toList ++ List.replicate (0x200 - 80) (0 : UInt8)).length = 0x200 := by
    rw [List.length_append, List.length_replicate, length_font]
  rw [image_splices, hbottom, splice, hstart, List.take_left' hlength, ← List.drop_drop, List.drop_left' hlength,
    List.drop_replicate, Array.length_toList, Nat.sub_sub]

theorem getD_zeros (common : Array UInt8) (i k : ℕ) :
    (common ++ Array.replicate i 0).getD k 0 = common.getD k 0 := by
  rw [Array.getD_eq_getD_getElem?, Array.getD_eq_getD_getElem?, Array.getElem?_append]
  split_ifs with h
  · rfl
  · rw [Array.getElem?_eq_none (Nat.not_lt.1 h), Array.getElem?_replicate]
    split_ifs <;> rfl

/-- programs make the same memory if they differ in zeros at their ends -/
theorem image_of_zeros {rom rom' : Rom} {common : Array UInt8} {i j : ℕ}
    (h : rom.bytes = common ++ Array.replicate i 0) (h' : rom'.bytes = common ++ Array.replicate j 0) :
    rom.image = rom'.image := by
  simp only [image, byteAt, h, h', getD_zeros]

end Rom

/-! ## Machines with another program for a reset -/

namespace Machine

variable {σ : Type}

/-- the machine with another program kept for a reset -/
def rebase (rom : Rom) (m : Machine σ) : Machine σ := { m with rom }

variable {rom : Rom}

theorem applyEvents_rebase (m : Machine σ) (batch : List Event) :
    (m.rebase rom).applyEvents batch = (m.applyEvents batch).rebase rom := by
  refine List.foldl_hom (rebase rom) fun m e => ?_
  unfold applyEvent
  split <;> rfl

variable [RandomSource σ]

/-- no execution looks at the kept program -/
theorem unnoticed_rebase (rom : Rom) : Unnoticed (fun _ => False) (rebase (σ := σ) rom) :=
  .touch (fun _ => rom) id id id (fun _ _ _ => ⟨rfl, rfl⟩) fun _ _ _ => rfl

theorem step_rebase (m : Machine σ) : (m.rebase rom).step = m.step.map (rebase rom) :=
  (unnoticed_rebase rom).step m not_false

theorem execute_rebase (m : Machine σ) (w : ℕ) : (m.rebase rom).execute w = (m.execute w).map (rebase rom) :=
  (unnoticed_rebase rom).execute m w not_false

theorem frame_rebase (m : Machine σ) (cycles : ℤ) (playing : Bool) :
    (m.rebase rom).frame cycles playing =
      { m.frame cycles playing with machine := (m.frame cycles playing).machine.rebase rom } := by
  have hrun : (m.rebase rom).run cycles.toNat = (m.run cycles.toNat).map (rebase rom) :=
    Outcome.steps_map (o := { machine := m }) (unnoticed_rebase rom) cycles.toNat fun _ _ _ _ => not_false
  cases hf : (m.run cycles.toNat).fault with
  | some f =>
    have hf' : ((m.rebase rom).run cycles.toNat).fault = some f := by rw [hrun]; exact hf
    rw [frame_of_fault hf, frame_of_fault hf', hrun]
    rfl
  | none =>
    simp only [frame, hrun, Outcome.map, hf]
    rfl

/-- an operation leaves the same but for the kept program, a reset only if both programs make the same memory -/
theorem operate_rebase {m : Machine σ} (h : m.rom.image = rom.image) (o : Operation) :
    (m.rebase rom).operate o = { m.operate o with machine := (m.operate o).machine.rebase rom } := by
  cases o with
  | step => rw [operate, step_rebase]; rfl
  | execute w => rw [operate, execute_rebase]; rfl
  | tick => rfl
  | setKey index down =>
    simp only [operate, setKey, rebase]
    cases m.keypad.set index down <;> rfl
  | setPixel x y lit =>
    simp only [operate, setPixel, rebase]
    cases m.screen.set x y lit <;> rfl
  | events batch => rw [operate, applyEvents_rebase]; rfl
  | frame cycles playing => rw [operate, frame_rebase]; rfl
  | reset =>
    simp only [operate, reset, rebase, boot, h]

/-! ## Machines that cannot be told apart -/

/-- what comes back from an operation beside what it shows: what it tells, and the sound state of a frame -/
def reply (m : Machine σ) (o : Operation) : List Notice × Option Bool :=
  (m.told o, match o with
    | .frame cycles playing => some (m.frame cycles playing).playing
    | _ => none)

/-- what comes back from operations one after the other -/
def replies : Machine σ → List Operation → List (List Notice × Option Bool)
  | _, [] => []
  | m, o :: ops => m.reply o :: (m.operate o).machine.replies ops

/-- whatever operations follow, they show the same on both machines, the same comes back from them, and they leave the
same but for the program that is kept for a reset -/
structure Twins (m m' : Machine σ) : Prop where
  left : ∀ ops, m'.after ops = (m.after ops).rebase m'.rom
  shown : ∀ ops, m'.history ops = (m.history ops).map (Shown.map (rebase m'.rom))
  replied : ∀ ops, m'.replies ops = m.replies ops

theorem shows_rebase {m : Machine σ} (h : m.rom.image = rom.image) (o : Operation) :
    (m.rebase rom).shows o = (m.shows o).map (rebase rom) := by
  simp only [shows, operate_rebase h]
  cases o <;> rfl

theorem reply_rebase (m : Machine σ) (o : Operation) : (m.rebase rom).reply o = m.reply o := by
  cases o with
  | step => simp only [reply, told, step_rebase, Outcome.map]
  | execute w => simp only [reply, told, execute_rebase, Outcome.map]
  | frame cycles playing => simp only [reply, told, frame_rebase]
  | _ => rfl

/-- a machine with another kept program is a twin if both programs make the same memory -/
theorem twins_rebase {m : Machine σ} (h : m.rom.image = rom.image) : Twins m (m.rebase rom) := by
  have hall : ∀ ops, (m.rebase rom).after ops = (m.after ops).rebase rom ∧
      (m.rebase rom).history ops = (m.history ops).map (Shown.map (rebase rom)) ∧
      (m.rebase rom).replies ops = m.replies ops := by
    intro ops
    induction ops generalizing m with
    | nil => exact ⟨rfl, rfl, rfl⟩
    | cons o ops ih =>
      -- the program stays the one it was, so that a later reset still finds the same memory
      have hnext : (m.operate o).machine.rom.image = rom.image := by
        rw [(kept_rom m.rom).operate o rfl, h]
      obtain ⟨hleft, hshown, hreplied⟩ := ih hnext
      simp only [after_cons, history, replies, List.map_cons, operate_rebase h, shows_rebase h, reply_rebase]
      exact ⟨hleft, congrArg _ hshown, congrArg _ hreplied⟩
  exact ⟨fun ops => (hall ops).1, fun ops => (hall ops).2.1, fun ops => (hall ops).2.2⟩

/-! ## Main result -/

/-- two programs that differ in nothing but zeros at their ends -/
def SameToZeros (bytes bytes' : Array UInt8) : Prop :=
  ∃ common i j, bytes = common ++ Array.replicate i 0 ∧ bytes' = common ++ Array.replicate j 0

/-- **Loading.** A program is refused, with its length, exactly if it is longer than 3584 bytes. Otherwise the memory of
the machine holds the 80 bytes of the digits, zeros up to `0x200`, the bytes of the program, and zeros up to the end.
Programs that differ in nothing but zeros at their ends make machines that no operations tell apart. -/
theorem load_layout (bytes : Array UInt8) (random : σ) :
    (∀ e, load bytes random = .error e ↔ 3584 < bytes.size ∧ e.size = bytes.size) ∧
    (bytes.size ≤ 3584 → ∃ m, load bytes random = .ok m ∧
      m.memory.toList.length = 4096 ∧ font.size = 80 ∧
      m.memory.toList =
        font.toList ++ List.replicate (0x200 - 80) 0 ++ bytes.toList ++
          List.replicate (4096 - (0x200 + bytes.size)) 0 ∧
      ∀ bytes', bytes'.size ≤ 3584 → SameToZeros bytes bytes' →
        ∃ m', load bytes' random = .ok m' ∧ Twins m m') := by
  refine ⟨fun e => load_eq_error_iff, fun hfits => ?_⟩
  refine ⟨boot ⟨bytes, hfits⟩ random, load_of_fits hfits random, Vector.length_toList, rfl,
    Rom.image_layout ⟨bytes, hfits⟩, ?_⟩
  rintro bytes' hfits' ⟨common, i, j, hbytes, hbytes'⟩
  have himage : (⟨bytes, hfits⟩ : Rom).image = (⟨bytes', hfits'⟩ : Rom).image := Rom.image_of_zeros hbytes hbytes'
  have hboot : boot ⟨bytes', hfits'⟩ random = (boot ⟨bytes, hfits⟩ random).rebase ⟨bytes', hfits'⟩ := by
    simp only [boot, rebase, himage]
  refine ⟨boot ⟨bytes', hfits'⟩ random, load_of_fits hfits' random, ?_⟩
  rw [hboot]
  exact twins_rebase himage

/-- a jump to itself with and without two zeros behind it, reset in the middle of its run, and a program of one byte too
many -/
theorem load_layout_of_padded :
    let bytes : Array UInt8 := #[0x12, 0x00]
    let random := Cycle.mk #[7] 0
    let ops : List Operation := [.frame 3 false, .execute 0x00EE, .reset, .step]
    (3584 < (Array.replicate 3585 (0 : UInt8)).size ∧ load (Array.replicate 3585 0) random = .error ⟨3585⟩) ∧
      (bytes.size ≤ 3584 ∧ (bytes ++ #[0, 0]).size ≤ 3584 ∧ SameToZeros bytes (bytes ++ #[0, 0])) ∧
      ∃ m m', load bytes random = .ok m ∧ load (bytes ++ #[0, 0]) random = .ok m' ∧
        m.memory.toList = font.toList ++ List.replicate 432 0 ++ [0x12, 0x00] ++ List.replicate 3582 0 ∧
        m'.after ops = (m.after ops).rebase m'.rom ∧ m'.replies ops = m.replies ops := by
  intro bytes random ops
  have hsame : SameToZeros bytes (bytes ++ #[0, 0]) := ⟨bytes, 0, 2, rfl, rfl⟩
  have hlong : 3584 < (Array.replicate 3585 (0 : UInt8)).size := by
    rw [Array.size_replicate]
    decide
  obtain ⟨m, hm, -, -, hlayout, htwins⟩ := (load_layout bytes random).2 (by decide)
  obtain ⟨m', hm', htwin⟩ := htwins (bytes ++ #[0, 0]) (by decide) hsame
  refine ⟨⟨hlong, ?_⟩, ⟨by decide, by decide, hsame⟩, m, m', hm, hm', hlayout, htwin.left ops, htwin.replied ops⟩
  exact ((load_layout (Array.replicate 3585 0) random).1 ⟨3585⟩).2 ⟨hlong, Array.size_replicate.symm⟩

end Machine

end ChipEight
