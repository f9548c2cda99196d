/-
Tables with distinct keys. A write keeps the keys distinct, in their places, and a look-up finds the only entry of its
key, so that tables with the same keys are told apart by what is looked up in them (`Table.ext_get?`). `Value.Distinct`
says that no table within a value has a key twice; `Value.Proper` says besides that no part of the value is absent or a
tuple, which is so for all that documents hold. What is read or checked in two steps comes out if both do (`bind_ok`).
-/
import Mathlib.Tactic
import ChipEight.Value

namespace ChipEight

/-! ## Work in two steps -/

section Steps

variable {ε α β : Type}

theorem ok_bind (a : α) (f : α → Except ε β) : (Except.ok a >>= f) = f a := rfl

/-- work in two steps comes out if both do -/
theorem bind_ok {x : Except ε α} {f : α → Except ε β} {b : β} (h : x >>= f = .ok b) :
    ∃ a, x = .ok a ∧ f a = .ok b := by
  cases x with
  | error e => nomatch h
  | ok a => exact ⟨a, rfl, h⟩

theorem map_ok {x : Except ε α} {f : α → β} {b : β} (h : x.map f = .ok b) : ∃ a, x = .ok a ∧ f a = b := by
  cases x with
  | error e => nomatch h
  | ok a => exact ⟨a, rfl, Except.ok.inj h⟩

end Steps

namespace Table

variable {t : Table} {key : String} {v w : Value}

/-! ## Looking up -/

theorem mem_keys_of_mem {e : String × Value} (h : e ∈ t) : e.1 ∈ t.keys := List.mem_map_of_mem h

theorem keys_cons (k : String) (x : Value) (t : Table) : keys ((k, x) :: t) = k :: t.keys := rfl

theorem mem_of_get? (h : t.get? key = some v) : (key, v) ∈ t := by
  induction t with
  | nil => simp [get?] at h
  | cons e t ih =>
    obtain ⟨k, x⟩ := e
    simp only [get?] at h
    split_ifs at h with hk
    · obtain rfl := Option.some.inj h
      rw [hk]
      exact List.mem_cons_self
    · exact List.mem_cons_of_mem _ (ih h)

theorem get?_eq_none_iff : t.get? key = none ↔ key ∉ t.keys := by
  induction t with
  | nil => simp [get?, keys]
  | cons e t ih =>
    obtain ⟨k, x⟩ := e
    simp only [get?, keys_cons, List.mem_cons, not_or]
    split_ifs with hk
    · simp [hk]
    · rw [ih]
      exact ⟨fun h => ⟨fun he => hk he.symm, h⟩, fun h => h.2⟩

theorem get?_of_mem (ht : t.keys.Nodup) (h : (key, v) ∈ t) : t.get? key = some v := by
  induction t with
  | nil => simp at h
  | cons e t ih =>
    obtain ⟨k, x⟩ := e
    obtain ⟨hk, ht⟩ : k ∉ keys t ∧ (keys t).Nodup := List.nodup_cons.1 ht
    simp only [get?]
    rcases List.mem_cons.1 h with h | h
    · obtain ⟨rfl, rfl⟩ := Prod.mk.inj h
      rw [if_pos rfl]
    · have hne : k ≠ key := fun he => hk (he ▸ mem_keys_of_mem h)
      rw [if_neg hne]
      exact ih ht h

/-- tables with the same keys in the same order, and the same value for each, are the same -/
theorem ext_get? {s t : Table} (hs : s.keys.Nodup) (hkeys : s.keys = t.keys)
    (hst : ∀ key, s.get? key = t.get? key) : s = t := by
  induction s generalizing t with
  | nil => exact (List.map_eq_nil_iff.1 hkeys.symm).symm
  | cons e s ih =>
    obtain ⟨k, v⟩ := e
    obtain ⟨hk, hs⟩ : k ∉ keys s ∧ (keys s).Nodup := List.nodup_cons.1 hs
    cases t with
    | nil => cases hkeys
    | cons e' t =>
      obtain ⟨k', v'⟩ := e'
      obtain ⟨rfl, htail⟩ : k = k' ∧ keys s = keys t := List.cons.inj hkeys
      have hv : v = v' := by simpa [get?] using hst k
      have hrest (key : String) : get? s key = get? t key := by
        by_cases hkey : k = key
        · subst hkey
          rw [get?_eq_none_iff.2 hk, get?_eq_none_iff.2 (htail ▸ hk)]
        · simpa [get?, hkey] using hst key
      rw [hv, ih hs htail hrest]

/-! ## Writing -/

/-- a write puts the value in the place of its key -/
theorem put_of_mem (ht : t.keys.Nodup) (hk : key ∈ t.keys) :
    t.put key v = t.map fun e => (e.1, if e.1 = key then v else e.2) := by
  induction t with
  | nil => simp [keys] at hk
  | cons e t ih =>
    obtain ⟨k, x⟩ := e
    obtain ⟨hnot, ht⟩ : k ∉ keys t ∧ (keys t).Nodup := List.nodup_cons.1 ht
    simp only [put, List.map_cons]
    split_ifs with he
    · -- the rest does not have the key again
      have hrest : t.map (fun e => (e.1, if e.1 = key then v else e.2)) = t := by
        rw [List.map_congr_left (g := id), List.map_id]
        intro e hmem
        have hne : e.1 ≠ key := by
          rintro rfl
          exact hnot (he ▸ mem_keys_of_mem hmem)
        simp [hne]
      rw [hrest]
    · rw [ih ht (by simpa [keys, Ne.symm he] using hk)]

theorem keys_put (t : Table) (key : String) (v : Value) :
    (t.put key v).keys = if key ∈ t.keys then t.keys else t.keys ++ [key] := by
  induction t with
  | nil => rfl
  | cons e t ih =>
    obtain ⟨k, x⟩ := e
    simp only [put, keys_cons, List.mem_cons]
    split_ifs with he hmem hmem
    · rw [keys_cons]
    · exact absurd (Or.inl he.symm) hmem
    · rw [keys_cons, ih, if_pos (hmem.resolve_left (Ne.symm he))]
    · rw [keys_cons, ih, if_neg (fun h => hmem (Or.inr h))]
      rfl

theorem get?_put (t : Table) (key : String) (v : Value) (k : String) :
    (t.put key v).get? k = if key = k then some v else t.get? k := by
  induction t with
  | nil => simp [put, get?]
  | cons e t ih =>
    obtain ⟨l, x⟩ := e
    by_cases hl : l = key
    · subst hl
      by_cases hk : l = k <;> simp [put, get?, hk]
    · by_cases hk : l = k
      · subst hk
        simp [put, get?, hl, Ne.symm hl]
      · simp [put, get?, hl, hk, ih]

end Table

/-! ## Values -/

/-- no table within the value has a key twice; what stands in a list counts as a whole -/
inductive Value.Distinct : Value → Prop
  | table {entries : List (String × Value)} (keys : (Table.keys entries).Nodup)
      (values : ∀ e ∈ entries, e.2.Distinct) : Distinct (.table entries)
  | plain {v : Value} (h : ∀ entries, v ≠ .table entries) : Distinct v

theorem Value.Distinct.keys_nodup {t : Table} (h : (Value.table t).Distinct) : t.keys.Nodup := by
  cases h with
  | plain h => exact absurd rfl (h t)
  | table keys _ => exact keys

theorem Value.Distinct.get? {t : Table} {key : String} {v : Value} (h : (Value.table t).Distinct)
    (hv : t.get? key = some v) : v.Distinct := by
  cases h with
  | plain h => exact absurd rfl (h t)
  | table _ values => exact values _ (Table.mem_of_get? hv)

/-- the value can stand in a document: nothing in it is absent or a tuple, and no table has a key twice -/
inductive Value.Proper : Value → Prop
  | bool (b : Bool) : Proper (.bool b)
  | int (i : ℤ) : Proper (.int i)
  | float (x : Binary64) : Proper (.float x)
  | text (s : String) : Proper (.text s)
  | moment (t : Moment) : Proper (.moment t)
  | list {items : List Value} (h : ∀ v ∈ items, v.Proper) : Proper (.list items)
  | table {entries : List (String × Value)} (keys : (Table.keys entries).Nodup)
      (values : ∀ e ∈ entries, e.2.Proper) : Proper (.table entries)

theorem Value.Proper.keys_nodup {t : Table} (h : (Value.table t).Proper) : t.keys.Nodup := by
  cases h with
  | table keys _ => exact keys

theorem Value.Proper.get? {t : Table} (h : (Value.table t).Proper) {key : String} {v : Value}
    (hv : t.get? key = some v) : v.Proper := by
  cases h with
  | table _ values => exact values _ (Table.mem_of_get? hv)

theorem Value.Proper.distinct {v : Value} (h : v.Proper) : v.Distinct := by
  induction h with
  | table keys _ ih => exact .table keys ih
  | _ => exact .plain (by simp)

end ChipEight
