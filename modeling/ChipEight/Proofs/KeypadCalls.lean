/-
A keypad under calls. What is written for a key may be a value of any kind, of which all that counts is whether it
counts as true; so all results hold for every way of telling (`truth`). A call gives a key the state that it says
whatever the others are (`call_holds`); so by induction on the calls a key is down exactly if the value last written for
it, since all keys were let go, counts as true (`holds_calls_iff`). A call with a number that names no key is refused
and changes nothing, and the lowest key that is asked for is the lowest of those that are down (`recalls_last_written`).
-/
import ChipEight.Proofs.KeyWaits

namespace ChipEight.Keypad

variable {α : Type} {truth : α → Bool} {p : Keypad} {k : Key} {index : ℤ}

/-! ## Calls -/

/-- what is asked of a keypad, where numbers stand for keys -/
inductive Call (α : Type) where
  | set (index : ℤ) (value : α)
  | isDown (index : ℤ)
  | lowest
  | release

inductive Answer where
  | done
  | state (down : Bool)
  | lowest (k : Option Key)
  | refused (e : NoSuchKey)
  deriving DecidableEq

/-- one call: the keypad behind it, and its answer -/
def call (truth : α → Bool) (p : Keypad) : Call α → Keypad × Answer
  | .set index value =>
    match p.set index (truth value) with
    | .ok q => (q, .done)
    | .error e => (p, .refused e)
  | .isDown index =>
    match p.isDown index with
    | .ok down => (p, .state down)
    | .error e => (p, .refused e)
  | .lowest => (p, .lowest p.lowest?)
  | .release => (released, .done)

/-- the keypad behind calls, of which those that are refused do not end them -/
def calls (truth : α → Bool) (p : Keypad) (cs : List (Call α)) : Keypad :=
  cs.foldl (fun p c => (p.call truth c).1) p

theorem calls_concat (cs : List (Call α)) (c : Call α) :
    p.calls truth (cs ++ [c]) = ((p.calls truth cs).call truth c).1 := by
  simp [calls]

/-! ## Numbers of keys -/

/-- a number names a key, or none -/
theorem key_or_none (index : ℤ) : (∃ k : Key, index = (k : ℕ)) ∨ ¬(0 ≤ index ∧ index < 16) := by
  by_cases h : 0 ≤ index ∧ index < 16
  · exact Or.inl ⟨⟨index.toNat, by omega⟩, (Int.toNat_of_nonneg h.1).symm⟩
  · exact Or.inr h

/-- keys with the same number are the same -/
theorem key_inj {j : Key} : ((j : ℕ) : ℤ) = (k : ℕ) ↔ k = j := by
  rw [Fin.ext_iff]
  omega

theorem call_set_of_key (p : Keypad) (k : Key) (value : α) :
    p.call truth (.set (k : ℕ) value) = (p.put k (truth value), .done) := by
  simp only [call, set, Key.ofInt_of_key]
  rfl

theorem call_isDown_of_key (p : Keypad) (k : Key) :
    p.call truth (.isDown (k : ℕ)) = (p, .state (p.holds k)) := by
  simp only [call, isDown, Key.ofInt_of_key]
  rfl

theorem call_set_of_not (h : ¬(0 ≤ index ∧ index < 16)) (p : Keypad) (value : α) :
    p.call truth (.set index value) = (p, .refused ⟨index⟩) := by
  simp only [call, set, Key.ofInt_of_not h]
  rfl

theorem call_isDown_of_not (h : ¬(0 ≤ index ∧ index < 16)) (p : Keypad) :
    p.call truth (.isDown index) = (p, .refused ⟨index⟩) := by
  simp only [call, isDown, Key.ofInt_of_not h]
  rfl

/-! ## One call -/

/-- the state that a call gives a key; none if it does not write it -/
def Call.state? (truth : α → Bool) (k : Key) : Call α → Option Bool
  | .set index value => if index = (k : ℕ) then some (truth value) else none
  | .release => some false
  | _ => none

theorem call_isDown_fst (p : Keypad) (index : ℤ) : (p.call truth (.isDown index)).1 = p := by
  rcases key_or_none index with ⟨j, rfl⟩ | hnone
  · rw [call_isDown_of_key]
  · rw [call_isDown_of_not hnone]

theorem call_holds (p : Keypad) (c : Call α) (k : Key) :
    (p.call truth c).1.holds k = (c.state? truth k).getD (p.holds k) := by
  cases c with
  | lowest => rfl
  | release => simp [call, Call.state?, released, holds]
  | isDown index => rw [call_isDown_fst]; rfl
  | set index value =>
    rcases key_or_none index with ⟨j, rfl⟩ | hnone
    · rw [call_set_of_key, holds_put]
      simp only [Call.state?, key_inj]
      split_ifs <;> rfl
    · -- the number of a key is never out of range
      have hne : index ≠ (k : ℕ) := by omega
      rw [call_set_of_not hnone, Call.state?, if_neg hne]
      rfl

/-! ## Many calls -/

/-- `value` is the last that the calls write for the key, and since then not all keys have been let go -/
def LastWritten (cs : List (Call α)) (k : Key) (value : α) : Prop :=
  ∃ before behind, cs = before ++ .set (k : ℕ) value :: behind ∧
    ∀ c ∈ behind, c ≠ .release ∧ ∀ other, c ≠ .set (k : ℕ) other

theorem lastWritten_concat {cs : List (Call α)} {c : Call α} {value : α} :
    LastWritten (cs ++ [c]) k value ↔
      c = .set (k : ℕ) value ∨ (c ≠ .release ∧ ∀ other, c ≠ .set (k : ℕ) other) ∧ LastWritten cs k value := by
  constructor
  · rintro ⟨before, behind, hcs, hbehind⟩
    rcases List.eq_nil_or_concat behind with rfl | ⟨behind, e, rfl⟩
    · obtain ⟨-, hc⟩ := List.append_inj' hcs rfl
      exact Or.inl (List.cons.inj hc).1
    · rw [List.concat_eq_append] at hcs hbehind
      rw [← List.cons_append, ← List.append_assoc] at hcs
      obtain ⟨hbefore, hc⟩ := List.append_inj' hcs rfl
      obtain rfl := (List.cons.inj hc).1
      exact Or.inr ⟨hbehind c (by simp), before, behind, hbefore, fun d hd => hbehind d (by simp [hd])⟩
  · rintro (rfl | ⟨hc, before, behind, rfl, hbehind⟩)
    · exact ⟨cs, [], rfl, fun _ hd => absurd hd List.not_mem_nil⟩
    · refine ⟨before, behind ++ [c], by simp, fun d hd => ?_⟩
      rcases List.mem_append.1 hd with hd | hd
      · exact hbehind d hd
      · exact List.mem_singleton.1 hd ▸ hc

/-- by induction on the calls, the last one first -/
theorem holds_calls_iff (cs : List (Call α)) (k : Key) :
    (released.calls truth cs).holds k = true ↔ ∃ value, LastWritten cs k value ∧ truth value = true := by
  induction cs using List.reverseRecOn with
  | nil =>
    constructor
    · intro hk
      simp [calls, released, holds] at hk
    · rintro ⟨_, ⟨before, behind, hcs, -⟩, -⟩
      simp at hcs
  | append_singleton cs c ih =>
    rw [calls_concat, call_holds]
    simp only [lastWritten_concat]
    cases c with
    | lowest | isDown index => simpa [Call.state?] using ih
    | release => simp [Call.state?]
    | set index value =>
      by_cases hk : index = (k : ℕ)
      · subst hk
        simp [Call.state?]
      · simpa [Call.state?, hk] using ih

/-! ## Main result -/

/-- what a keypad behind calls remembers of them, and what it answers to the next call -/
structure Recalls (truth : α → Bool) (cs : List (Call α)) (p : Keypad) : Prop where
  /-- a key is down exactly if the last value written for it since all keys were let go counts as true -/
  down : ∀ k, p.holds k = true ↔ ∃ value, LastWritten cs k value ∧ truth value = true
  /-- who asks for a key by its number is told its state, and changes nothing -/
  reads : ∀ k : Key, p.call truth (.isDown (k : ℕ)) = (p, .state (p.holds k))
  /-- who writes one by its number gives this key the value, and no other -/
  writes : ∀ (k : Key) value, ∃ q, p.call truth (.set (k : ℕ) value) = (q, .done) ∧
    ∀ j, q.holds j = if j = k then truth value else p.holds j
  /-- a call is refused exactly if its number is none of a key -/
  refuses : ∀ index e value,
    ((p.call truth (.isDown index)).2 = .refused e ↔ ¬(0 ≤ index ∧ index < 16) ∧ e = ⟨index⟩) ∧
    ((p.call truth (.set index value)).2 = .refused e ↔ ¬(0 ≤ index ∧ index < 16) ∧ e = ⟨index⟩)
  /-- and then it changes nothing -/
  kept : ∀ c e, (p.call truth c).2 = .refused e → (p.call truth c).1 = p
  /-- the lowest key is one that is down, and none below it is -/
  lowest : ∀ k, p.call truth .lowest = (p, .lowest (some k)) ↔ p.holds k = true ∧ ∀ j < k, p.holds j = false
  /-- there is none exactly if no key is down -/
  lowest_none : p.call truth .lowest = (p, .lowest none) ↔ ∀ k, p.holds k = false
  /-- all keys are let go at once -/
  releases : p.call truth .release = (released, .done) ∧ ∀ k, released.holds k = false

theorem recalls_of_down {cs : List (Call α)}
    (hdown : ∀ k, p.holds k = true ↔ ∃ value, LastWritten cs k value ∧ truth value = true) :
    Recalls truth cs p where
  down := hdown
  reads k := p.call_isDown_of_key k
  writes k value := ⟨_, p.call_set_of_key k value, fun j => p.holds_put k j _⟩
  refuses index e value := by
    rcases key_or_none index with ⟨k, rfl⟩ | hnone
    · have hk : (0 : ℤ) ≤ (k : ℕ) ∧ ((k : ℕ) : ℤ) < 16 := by omega
      simp [call_isDown_of_key, call_set_of_key, hk]
    · simp [call_isDown_of_not hnone, call_set_of_not hnone, hnone, eq_comm]
  kept c e he := by
    cases c with
    | lowest => rfl
    | release => nomatch he
    | isDown index => exact p.call_isDown_fst index
    | set index value =>
      rcases key_or_none index with ⟨k, rfl⟩ | hnone
      · rw [call_set_of_key] at he
        nomatch he
      · rw [call_set_of_not hnone]
  lowest k := by
    rw [← lowest?_eq_some_iff]
    simp [call]
  lowest_none := by
    rw [← lowest?_eq_none_iff]
    simp [call]
  releases := ⟨rfl, fun k => by simp [released, holds]⟩

/-- **A keypad recalls what was last written.** After any calls, some of them refused, a key is down exactly if the
value last written for it since all keys were let go counts as true; a number outside 0 to 15 is refused, changes
nothing and stands for no key; and the lowest key that is reported is the lowest of those that are down, or none exactly
if none is, so that key 0 is told apart from no key. -/
theorem recalls_last_written (truth : α → Bool) (cs : List (Call α)) : Recalls truth cs (released.calls truth cs) :=
  recalls_of_down (holds_calls_iff cs)

end ChipEight.Keypad
