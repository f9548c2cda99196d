/-
Reading a dump back. The words of a text are what stands between its gaps, however long these are; so the padding of a
dump drops out, and what is left are labels and the numbers behind them (`Dump.read`). A label ends in a colon, which
is no digit, and a number ends where the next gap begins; so the words say which number is whose, however large the
numbers are and however many stand behind a label (`entriesOf_flatMap`). What is read from the dump of a machine are
its registers (`read_dump`), and two machines with the same dump agree in all of them (`dump_read_back`). No bound on
the numbers is needed, so this holds of every machine, reachable or not.
-/
import ChipEight.Machine.Dump
import Mathlib.Tactic.IntervalCases

namespace ChipEight

/-! ## Digits -/

namespace Text.Hex

/-- the value of an upper-case digit -/
def digitValue (c : Char) : ℕ := if c.toNat < 58 then c.toNat - 48 else c.toNat - 55

/-- the number that digits write -/
def value (ds : List Char) : ℕ := ds.foldl (fun n c => 16 * n + digitValue c) 0

theorem digitValue_digit {d : ℕ} (h : d < 16) : digitValue (digit d) = d := by
  interval_cases d <;> rfl

theorem value_concat (ds : List Char) (c : Char) : value (ds ++ [c]) = 16 * value ds + digitValue c := by
  simp [value]

theorem value_digits (n : ℕ) : value (digits n) = n := by
  induction n using digits.induct with
  | case1 n h => rw [digits_of_lt h]; exact (Nat.zero_add _).trans (digitValue_digit h)
  | case2 n h ih =>
    rw [digits_of_ge (not_lt.1 h), value_concat, ih, digitValue_digit (Nat.mod_lt n (by decide))]
    exact Nat.div_add_mod n 16

theorem digits_ne_nil (n : ℕ) : digits n ≠ [] := by
  induction n using digits.induct with
  | case1 n h => simp [digits_of_lt h]
  | case2 n h ih => simp [digits_of_ge (not_lt.1 h)]

/-- what holds of the sixteen digits holds of all that a number is written with -/
theorem forall_mem_digits {P : Char → Prop} (hP : ∀ d < 16, P (digit d)) (n : ℕ) : ∀ c ∈ digits n, P c := by
  induction n using digits.induct with
  | case1 n h => simpa [digits_of_lt h] using hP n h
  | case2 n h ih =>
    intro c hc
    rw [digits_of_ge (not_lt.1 h), List.mem_append, List.mem_singleton] at hc
    rcases hc with hc | rfl
    · exact ih c hc
    · exact hP _ (Nat.mod_lt n (by decide))

end Text.Hex

namespace Dump

open Text.Hex

/-! ## Words -/

def isGap (c : Char) : Bool := c == ' ' || c == '\n'

/-- the words of a text, without the gaps around them -/
def words (cs : List Char) : List (List Char) := (cs.splitOnP isGap).filter fun w => !w.isEmpty

variable {g : Char} {w : List Char}

/-- a text can be cut at any gap -/
theorem words_append_cons (hg : isGap g = true) (cs rest : List Char) :
    words (cs ++ g :: rest) = words cs ++ words rest := by
  unfold words
  rw [List.splitOnP_append_cons cs rest hg, List.filter_append]

theorem words_cons (hg : isGap g = true) (rest : List Char) : words (g :: rest) = words rest :=
  words_append_cons hg [] rest

theorem words_of_word (hne : w ≠ []) (hw : ∀ c ∈ w, isGap c = false) : words w = [w] := by
  have hsplit : w.splitOnP isGap = [w] := List.splitOnP_eq_singleton hw
  simp [words, hsplit, hne]

theorem words_digits (n : ℕ) : words (digits n) = [digits n] :=
  words_of_word (digits_ne_nil n) (forall_mem_digits (by decide) n)

/-- the blanks in front of a number drop out -/
theorem words_padded (width n : ℕ) : words (padded ' ' width n) = [digits n] := by
  simp only [padded]
  induction width - (digits n).length with
  | zero => exact words_digits n
  | succ k ih => rw [List.replicate_succ, List.cons_append, words_cons rfl, ih]

/-- numbers with one blank between them -/
theorem words_intercalate (ns : List ℕ) :
    words (List.intercalate [' '] (ns.map (padded ' ' 4))) = ns.map digits := by
  induction ns with
  | nil => rfl
  | cons n ns ih =>
    cases ns with
    | nil => simpa using words_padded 4 n
    | cons n' ns =>
      rw [List.map_cons, List.map_cons, List.intercalate_cons_cons, List.append_assoc, List.singleton_append,
        words_append_cons rfl, words_padded, ← List.map_cons, ih]
      rfl

/-! ## Entries -/

/-- a label and the numbers behind it -/
abbrev Entry := String × List ℕ

def Entry.words (e : Entry) : List (List Char) := (e.1.toList ++ [':']) :: e.2.map digits

/-- take in a word, in front of the numbers and the entries that come behind it -/
def attach (w : List Char) : List ℕ × List Entry → List ℕ × List Entry
  | (numbers, entries) =>
    if w.getLast? = some ':' then ([], (String.ofList w.dropLast, numbers) :: entries)
    else (value w :: numbers, entries)

/-- a label, a colon, a blank, some text and a gap -/
def field (label : String) (cs : List Char) (g : Char) : List Char := label.toList ++ ':' :: ' ' :: (cs ++ [g])

/-- a field says its label and the numbers in its text -/
theorem words_field {label : String} (hlabel : label.toList.any isGap = false) {cs : List Char} (ns : List ℕ)
    (hcs : words cs = ns.map digits) (hg : isGap g = true) (rest : List Char) :
    words (field label cs g ++ rest) = Entry.words (label, ns) ++ words rest := by
  have hword : words (label.toList ++ [':']) = [label.toList ++ [':']] := by
    refine words_of_word (by simp) fun c hc => ?_
    rcases List.mem_append.1 hc with hc | hc
    · exact Bool.eq_false_of_not_eq_true (List.any_eq_false.1 hlabel c hc)
    · exact List.mem_singleton.1 hc ▸ rfl
  have hcut : field label cs g ++ rest = (label.toList ++ [':']) ++ ' ' :: (cs ++ g :: rest) := by simp [field]
  rw [hcut, words_append_cons rfl, hword, words_append_cons hg, hcs]
  rfl

/-- what words say: each label with the numbers behind it -/
def entriesOf (ws : List (List Char)) : List Entry := (ws.foldr attach ([], [])).2

/-- what a dump says -/
def read (s : String) : List Entry := entriesOf (words s.toList)

theorem attach_digits (n : ℕ) (s : List ℕ × List Entry) : attach (digits n) s = (n :: s.1, s.2) := by
  have hlast : (digits n).getLast? ≠ some ':' := fun h =>
    forall_mem_digits (P := (· ≠ ':')) (by decide) n _ (List.mem_of_getLast? h) rfl
  simp [attach, hlast, value_digits]

theorem foldr_attach_digits (ns : List ℕ) (s : List ℕ × List Entry) :
    (ns.map digits).foldr attach s = (ns ++ s.1, s.2) := by
  induction ns with
  | nil => rfl
  | cons n ns ih => rw [List.map_cons, List.foldr_cons, ih, attach_digits]; rfl

/-- an entry takes the numbers up to the next label -/
theorem foldr_attach_entry (e : Entry) (es : List Entry) : e.words.foldr attach ([], es) = ([], e :: es) := by
  rw [Entry.words, List.foldr_cons, foldr_attach_digits]
  simp [attach]

/-- by induction on the entries, the last one first -/
theorem entriesOf_flatMap (es : List Entry) : entriesOf (es.flatMap Entry.words) = es := by
  have hall : (es.flatMap Entry.words).foldr attach ([], []) = ([], es) := by
    induction es with
    | nil => rfl
    | cons e es ih => rw [List.flatMap_cons, List.foldr_append, ih, foldr_attach_entry]
  rw [entriesOf, hall]

end Dump

namespace Machine

open Dump Text.Hex

variable {σ τ : Type} {m : Machine σ} {n : Machine τ}

/-! ## Dumps -/

def registerEntry (m : Machine σ) (k : Reg) : Entry := (String.ofList ('V' :: digits k), [(m.reg k).toNat])

/-- what the dump of a machine says; the stack is shown from its oldest address on -/
def entries (m : Machine σ) : List Entry :=
  [("PC", [m.pc]), ("OP", [m.opcode])] ++ (List.finRange 16).map m.registerEntry ++
    [("I", [m.index]), ("SP", [m.sp]), ("STACK", m.stack.reverse), ("DT", [m.delay.toNat]), ("ST", [m.sound.toNat])]

theorem words_registerLine (m : Machine σ) (k : Reg) (rest : List Char) :
    words (m.registerLine k ++ rest) = (m.registerEntry k).words ++ words rest := by
  have hlabel : (String.ofList ('V' :: digits k)).toList.any isGap = false := by
    rw [String.toList_ofList, List.any_eq_false, List.forall_mem_cons]
    exact ⟨by decide, forall_mem_digits (by decide) k⟩
  have hline : m.registerLine k =
      field (String.ofList ('V' :: digits k)) (padded ' ' 2 (m.reg k).toNat) '\n' := by
    simp [registerLine, field]
  rw [hline]
  exact words_field hlabel [(m.reg k).toNat] (words_padded 2 _) rfl rest

theorem words_registerLines (m : Machine σ) (ks : List Reg) (rest : List Char) :
    words (ks.flatMap m.registerLine ++ rest) = (ks.map m.registerEntry).flatMap Entry.words ++ words rest := by
  induction ks with
  | nil => rfl
  | cons k ks ih =>
    rw [List.flatMap_cons, List.append_assoc, words_registerLine, ih, List.map_cons, List.flatMap_cons,
      List.append_assoc]

/-- a dump is made of fields, each of which says one entry -/
theorem words_dumpChars (m : Machine σ) : words m.dumpChars = m.entries.flatMap Entry.words := by
  have hfields : m.dumpChars =
      field "PC" (padded ' ' 4 m.pc) ' ' ++ ' ' :: field "OP" (padded ' ' 4 m.opcode) '\n'
        ++ (List.finRange 16).flatMap m.registerLine
        ++ field "I" (padded ' ' 4 m.index) '\n'
        ++ field "SP" (digits m.sp) ' ' ++ ' ' :: field "STACK" m.stackText '\n'
        ++ field "DT" (padded ' ' 2 m.delay.toNat) ' ' ++ ' ' :: field "ST" (padded ' ' 2 m.sound.toNat) '\n'
        ++ [] := by
    unfold dumpChars
    generalize (List.finRange 16).flatMap m.registerLine = lines
    simp [field]
  have hstack : words m.stackText = m.stack.reverse.map digits := words_intercalate m.stack.reverse
  rw [hfields]
  simp only [List.append_assoc, List.cons_append]
  rw [words_field rfl [m.pc] (words_padded 4 _) rfl, words_cons rfl,
    words_field rfl [m.opcode] (words_padded 4 _) rfl, words_registerLines,
    words_field rfl [m.index] (words_padded 4 _) rfl,
    words_field rfl [m.sp] (words_digits _) rfl, words_cons rfl,
    words_field rfl _ hstack rfl,
    words_field rfl [m.delay.toNat] (words_padded 2 _) rfl, words_cons rfl,
    words_field rfl [m.sound.toNat] (words_padded 2 _) rfl]
  simp only [entries, List.flatMap_append, List.flatMap_cons, List.flatMap_nil, List.append_assoc, List.append_nil]
  rfl

theorem read_dump (m : Machine σ) : Dump.read m.dump = m.entries := by
  rw [Dump.read, dump, String.toList_ofList, words_dumpChars, entriesOf_flatMap]

/-! ## Main result -/

/-- two machines have the same registers, stack and timers, and have executed the same opcode last -/
structure SameRegisters (m : Machine σ) (n : Machine τ) : Prop where
  pc : m.pc = n.pc
  opcode : m.opcode = n.opcode
  v : ∀ k, m.reg k = n.reg k
  index : m.index = n.index
  sp : m.sp = n.sp
  stack : m.stack = n.stack
  delay : m.delay = n.delay
  sound : m.sound = n.sound

theorem sameRegisters_of_entries (h : m.entries = n.entries) : SameRegisters m n := by
  unfold entries at h
  obtain ⟨hfront, hback⟩ := List.append_inj' h rfl
  obtain ⟨htop, hv⟩ := List.append_inj hfront rfl
  simp only [List.cons.injEq, Prod.mk.injEq, and_true, true_and] at htop hback
  obtain ⟨hpc, hopcode⟩ := htop
  obtain ⟨hindex, hsp, hstack, hdelay, hsound⟩ := hback
  refine ⟨hpc, hopcode, fun k => ?_, hindex, hsp, List.reverse_inj.1 hstack, UInt8.toNat_inj.1 hdelay,
    UInt8.toNat_inj.1 hsound⟩
  have hk := List.map_inj_left.1 hv k (List.mem_finRange k)
  simp only [registerEntry, Prod.mk.injEq, List.cons.injEq, and_true, true_and] at hk
  exact UInt8.toNat_inj.1 hk

theorem SameRegisters.dump_eq (h : SameRegisters m n) : m.dump = n.dump := by
  have hlines : m.registerLine = n.registerLine := by
    funext k
    simp only [registerLine, h.v]
  have hstack : m.stackText = n.stackText := by simp only [stackText, h.stack]
  unfold dump dumpChars
  rw [hlines, hstack, h.pc, h.opcode, h.index, h.sp, h.delay, h.sound]

/-- **A dump loses nothing.** The dump of any machine reads back as its registers, each under its label, with the
address of the next instruction, the last opcode, the index, the stack pointer, the whole stack in its order, and both
timers. So two machines, reachable or not and with any random sources, have the same dump exactly if they agree in all
of these. -/
theorem dump_read_back (m : Machine σ) :
    Dump.read m.dump = m.entries ∧ ∀ {τ : Type} (n : Machine τ), m.dump = n.dump ↔ SameRegisters m n := by
  refine ⟨read_dump m, fun n => ⟨fun h => ?_, fun h => h.dump_eq⟩⟩
  have hentries : m.entries = n.entries := by rw [← read_dump m, h, read_dump n]
  exact sameRegisters_of_entries hentries

end Machine

end ChipEight
