/-
Merging several times. Settings stay as they are under no changes and under themselves. Changes that were taken are
taken again, and then change nothing (`merge_again`), since what they put in place of a value fits over itself. Two
changes that are taken each, and do not both have something in the place of a value that is no table, are taken one
after the other, in either order and to the same effect (`merge_comm`). Both inductions follow the way in which the
changes fit, and tables are compared key by key (`Table.ext_get?`).
-/
import ChipEight.Proofs.Overrides

namespace ChipEight.Settings

variable {base o : Table} {old change c₁ c₂ : Value}

/-! ## Tables with changes laid over them -/

theorem get?_overlay_of_none {key : String} (h : Table.get? o key = none) :
    (overlay base o).get? key = base.get? key := by
  simp only [get?_overlay, h, Option.elim_none, Option.map_id']

/-- what comes of values without a key twice has none twice -/
theorem distinct_overlayValue (hold : old.Distinct) (hc : change.Distinct) : (overlayValue old change).Distinct := by
  induction hold generalizing change with
  | plain h =>
    rw [overlayValue_of_plain (Value.isTable_eq_false h)]
    exact hc
  | @table base keys values ih =>
    cases change with
    | table o =>
      refine .table ((keys_overlay base o).symm ▸ keys) fun e he => ?_
      rw [overlay_eq_map] at he
      obtain ⟨⟨key, old⟩, hmem, rfl⟩ := List.mem_map.1 he
      cases hkey : Table.get? o key with
      | none => exact values _ hmem
      | some c => exact ih _ hmem (hc.get? hkey)
    | _ => exact hc

/-! ## The same changes again -/

theorem overlay_nil (base : Table) : overlay base [] = base := by
  rw [overlay_eq_map]
  exact List.map_id base

/-- a value fits over itself, and stays as it is -/
theorem fits_self {v : Value} (hv : v.Distinct) : Fits v v ∧ overlayValue v v = v := by
  induction hv with
  | @plain v h =>
    have hplain := Value.isTable_eq_false h
    exact ⟨.plain hplain, overlayValue_of_plain hplain v⟩
  | @table t keys values ih =>
    refine ⟨.table (fun key v hv => hv ▸ Option.some_ne_none v) fun key old v hold hv => ?_, ?_⟩
    · cases hold.symm.trans hv
      exact (ih _ (Table.mem_of_get? hold)).1
    · have hself : overlay t t = t := by
        refine Table.ext_get? ((keys_overlay t t).symm ▸ keys) (keys_overlay t t) fun key => ?_
        cases hv : Table.get? t key with
        | none => rw [get?_overlay, hv, Option.map_none]
        | some v =>
          rw [get?_overlay, hv, Option.map_some, Option.elim_some, (ih _ (Table.mem_of_get? hv)).2]
      rw [overlayValue, hself]

/-- by induction on the way in which the change fits; in place of a value that is no table, it meets itself -/
theorem Fits.again (h : Fits old change) (hold : old.Distinct) (hc : change.Distinct) :
    Fits (overlayValue old change) change ∧
      overlayValue (overlayValue old change) change = overlayValue old change := by
  induction h with
  | @plain old change hplain =>
    rw [overlayValue_of_plain hplain]
    exact fits_self hc
  | @table base o keys values ih =>
    -- an entry with a change in it has the value from which the induction goes on
    have hagain {key : String} {c : Value} (hkey : Table.get? o key = some c) :
        ∃ v, (overlay base o).get? key = some v ∧ Fits v c ∧ overlayValue v c = v := by
      obtain ⟨v, hv⟩ := Option.ne_none_iff_exists'.1 (keys key c hkey)
      refine ⟨overlayValue v c, ?_, ih key v c hv hkey (hold.get? hv) (hc.get? hkey)⟩
      rw [get?_overlay, hv, hkey]
      rfl
    refine ⟨.table (fun key c hkey => ?_) fun key v c hv hkey => ?_, ?_⟩
    · obtain ⟨v, hv, -⟩ := hagain hkey
      exact hv ▸ Option.some_ne_none v
    · obtain ⟨v', hv', hfits, -⟩ := hagain hkey
      cases hv.symm.trans hv'
      exact hfits
    · have hsame : overlay (overlay base o) o = overlay base o := by
        have hnodup : (overlay (overlay base o) o).keys.Nodup := by
          simpa only [keys_overlay] using hold.keys_nodup
        refine Table.ext_get? hnodup (keys_overlay _ o) fun key => ?_
        cases hkey : Table.get? o key with
        | none => exact get?_overlay_of_none hkey
        | some c =>
          obtain ⟨v, hv, -, hc⟩ := hagain hkey
          rw [get?_overlay, hv, hkey, Option.map_some, Option.elim_some, hc]
      rw [overlayValue, overlayValue, hsame]

/-! ## Changes in different places -/

/-- no two changes are for the same place of a value that is no table -/
def Apart (old c₁ c₂ : Value) : Prop :=
  ∀ path v, old.follow? path = some v → v.isTable = false → c₁.follow? path = none ∨ c₂.follow? path = none

theorem Apart.symm (h : Apart old c₁ c₂) : Apart old c₂ c₁ := fun path v hv hplain => (h path v hv hplain).symm

/-- what is no table is itself such a place -/
theorem not_apart_of_plain (h : old.isTable = false) : ¬Apart old c₁ c₂ := by
  intro hapart
  rcases hapart [] old rfl h with h | h <;> cases h

theorem apart_table_iff {o₁ o₂ : Table} : Apart (.table base) (.table o₁) (.table o₂) ↔
    ∀ key old c₁ c₂, base.get? key = some old → o₁.get? key = some c₁ → o₂.get? key = some c₂ → Apart old c₁ c₂ := by
  constructor
  · intro h key old c₁ c₂ hold h₁ h₂ path v hv hplain
    simpa [Value.follow?_cons, Value.get?, h₁, h₂] using
      h (key :: path) v (by simpa [Value.follow?_cons, Value.get?, hold] using hv) hplain
  · intro h path v hv hplain
    cases path with
    | nil =>
      obtain rfl := Option.some.inj hv
      cases hplain
    | cons key path =>
      simp only [Value.follow?_cons, Value.get?] at hv ⊢
      obtain ⟨old, hold, hv⟩ := Option.bind_eq_some_iff.1 hv
      cases h₁ : Table.get? o₁ key with
      | none => exact Or.inl rfl
      | some c₁ =>
        cases h₂ : Table.get? o₂ key with
        | none => exact Or.inr rfl
        | some c₂ => exact h key old c₁ c₂ hold h₁ h₂ path v hv hplain

/-- changes still fit after others in different places -/
theorem Fits.after (h₁ : Fits old c₁) (h₂ : Fits old c₂) (hapart : Apart old c₁ c₂) :
    Fits (overlayValue old c₁) c₂ := by
  induction h₁ generalizing c₂ with
  | plain hplain => exact absurd hapart (not_apart_of_plain hplain)
  | @table base o₁ keys values ih =>
    cases h₂ with
    | plain hplain => cases hplain
    | @table _ o₂ keys₂ values₂ =>
      refine .table (fun key c hc => ?_) fun key v c hv hc => ?_
      · obtain ⟨old, hold⟩ := Option.ne_none_iff_exists'.1 (keys₂ key c hc)
        simp [get?_overlay, hold]
      · rw [get?_overlay] at hv
        obtain ⟨old, hold, rfl⟩ := Option.map_eq_some_iff.1 hv
        have hfits := values₂ key old c hold hc
        cases h₁ : Table.get? o₁ key with
        | none => exact hfits
        | some c₁ => exact ih key old c₁ hold h₁ hfits (apart_table_iff.1 hapart key old c₁ c hold h₁ hc)

/-- by induction on the way in which the first change fits: where both have a value, they go on in tables -/
theorem overlayValue_comm (hold : old.Distinct) (h₁ : Fits old c₁) (h₂ : Fits old c₂) (hapart : Apart old c₁ c₂) :
    overlayValue (overlayValue old c₁) c₂ = overlayValue (overlayValue old c₂) c₁ := by
  induction h₁ generalizing c₂ with
  | plain hplain => exact absurd hapart (not_apart_of_plain hplain)
  | @table base o₁ keys values ih =>
    cases h₂ with
    | plain hplain => cases hplain
    | @table _ o₂ keys₂ values₂ =>
      have hsame : overlay (overlay base o₁) o₂ = overlay (overlay base o₂) o₁ := by
        have hnodup : (overlay (overlay base o₁) o₂).keys.Nodup := by
          simpa only [keys_overlay] using hold.keys_nodup
        refine Table.ext_get? hnodup (by simp only [keys_overlay]) fun key => ?_
        cases h₁ : Table.get? o₁ key with
        | none => rw [get?_overlay_of_none h₁, get?_overlay _ o₂, get?_overlay _ o₂, get?_overlay_of_none h₁]
        | some c₁ =>
          cases h₂ : Table.get? o₂ key with
          | none => rw [get?_overlay_of_none h₂, get?_overlay _ o₁, get?_overlay _ o₁, get?_overlay_of_none h₂]
          | some c₂ =>
            cases hkey : Table.get? base key with
            | none => simp only [get?_overlay, hkey, Option.map_none]
            | some old =>
              simp only [get?_overlay, hkey, h₁, h₂, Option.map_some, Option.elim_some]
              rw [ih key old c₁ hkey h₁ (hold.get? hkey) (values₂ key old c₂ hkey h₂)
                (apart_table_iff.1 hapart key old c₁ c₂ hkey h₁ h₂)]
      simp only [overlayValue, hsame]

/-! ## Main result -/

section Merges

variable (hbase : (Value.table base).Distinct)

include hbase

theorem merge_nil : merge base [] = .ok base := by
  have hnil : (Value.table []).Distinct := .table List.nodup_nil (by simp)
  exact (merge_ok_iff hbase hnil).2 ⟨.table (by simp [Table.get?]) (by simp [Table.get?]), (overlay_nil base).symm⟩

theorem merge_self : merge base base = .ok base := by
  obtain ⟨hfits, hsame⟩ := fits_self hbase
  exact (merge_ok_iff hbase hbase).2 ⟨hfits, (Value.table.inj hsame).symm⟩

theorem merge_again {t : Table} (ho : (Value.table o).Distinct) (h : merge base o = .ok t) : merge t o = .ok t := by
  obtain ⟨hfits, rfl⟩ := (merge_ok_iff hbase ho).1 h
  obtain ⟨hagain, hsame⟩ := hfits.again hbase ho
  exact (merge_ok_iff (distinct_overlayValue hbase ho) ho).2 ⟨hagain, (Value.table.inj hsame).symm⟩

theorem merge_comm {o₁ o₂ t₁ t₂ : Table} (ho₁ : (Value.table o₁).Distinct) (ho₂ : (Value.table o₂).Distinct)
    (h₁ : merge base o₁ = .ok t₁) (h₂ : merge base o₂ = .ok t₂)
    (hapart : Apart (.table base) (.table o₁) (.table o₂)) :
    ∃ t, merge t₁ o₂ = .ok t ∧ merge t₂ o₁ = .ok t := by
  obtain ⟨hfits₁, rfl⟩ := (merge_ok_iff hbase ho₁).1 h₁
  obtain ⟨hfits₂, rfl⟩ := (merge_ok_iff hbase ho₂).1 h₂
  refine ⟨overlay (overlay base o₁) o₂, ?_, ?_⟩
  · exact (merge_ok_iff (distinct_overlayValue hbase ho₁) ho₂).2 ⟨hfits₁.after hfits₂ hapart, rfl⟩
  · have hcomm := Value.table.inj (overlayValue_comm hbase hfits₁ hfits₂ hapart)
    exact (merge_ok_iff (distinct_overlayValue hbase ho₂) ho₁).2 ⟨hfits₂.after hfits₁ hapart.symm, hcomm⟩

end Merges

/-- **Merging several times.** Where no table has a key twice, settings stay as they are under no changes and under
themselves; changes that are taken are taken again, and change nothing then; and two changes that are taken each, and
do not both have something in the place of a value that is no table, are taken one after the other in either order,
with the same result. -/
theorem merge_laws (hbase : (Value.table base).Distinct) :
    merge base [] = .ok base ∧ merge base base = .ok base ∧
      (∀ o t, (Value.table o).Distinct → merge base o = .ok t → merge t o = .ok t) ∧
      ∀ o₁ o₂ t₁ t₂, (Value.table o₁).Distinct → (Value.table o₂).Distinct → merge base o₁ = .ok t₁ →
        merge base o₂ = .ok t₂ → Apart (.table base) (.table o₁) (.table o₂) →
        ∃ t, merge t₁ o₂ = .ok t ∧ merge t₂ o₁ = .ok t :=
  ⟨merge_nil hbase, merge_self hbase, fun _ _ ho h => merge_again hbase ho h,
    fun _ _ _ _ ho₁ ho₂ h₁ h₂ hapart => merge_comm hbase ho₁ ho₂ h₁ h₂ hapart⟩

/-- a table in place of a name is taken twice; two colours are set in either order -/
theorem merge_laws_of_default :
    let rom : Table := [("rom", .table [("up", .int 1)])]
    let back : Table := [("color", .table [("back", .int 2)]), ("scale", .int 3)]
    let front : Table := [("color", .table [("front", .int 4)])]
    (∃ t, merge default rom = .ok t ∧ merge t rom = .ok t ∧ t.get? "rom" = some (.table [("up", .int 1)])) ∧
      ∃ t₁ t₂ t, merge default back = .ok t₁ ∧ merge default front = .ok t₂ ∧
        merge t₁ front = .ok t ∧ merge t₂ back = .ok t ∧
        (Value.table t).follow? ["color"] = some (.table [("back", .int 2), ("front", .int 4)]) := by
  intro rom back front
  have hnumber (i : ℤ) : (Value.int i).Distinct := .plain (by simp)
  have hone (key : String) (i : ℤ) : (Value.table [(key, .int i)]).Distinct :=
    .table (by simp [Table.keys]) (by simpa using hnumber i)
  have hrom : (Value.table rom).Distinct := .table (by decide) (by simpa [rom] using hone "up" 1)
  have hback : (Value.table back).Distinct :=
    .table (by decide) (by simpa [back] using ⟨hone "back" 2, hnumber 3⟩)
  have hfront : (Value.table front).Distinct := .table (by decide) (by simpa [front] using hone "front" 4)
  -- the only key that both have is that of the colours, and these have none in common
  have hapart : Apart (.table default) (.table back) (.table front) := by
    refine apart_table_iff.2 fun key old c₁ c₂ hold h₁ h₂ => ?_
    simp only [front, Table.get?] at h₂
    split_ifs at h₂ with hkey
    subst hkey
    cases hold
    cases h₁
    cases h₂
    refine apart_table_iff.2 fun key old c₁ c₂ hold h₁ h₂ => ?_
    simp only [Table.get?] at h₁ h₂
    split_ifs at h₁ h₂ with hkey hkey'
    exact absurd (hkey.trans hkey'.symm) (by decide)
  obtain ⟨-, -, hagain, hcomm⟩ := merge_laws default_distinct
  have hrom' := hagain rom _ hrom rfl
  obtain ⟨t, h₁, h₂⟩ := hcomm back front _ _ hback hfront rfl rfl hapart
  refine ⟨⟨_, rfl, hrom', rfl⟩, _, _, t, rfl, rfl, h₁, h₂, ?_⟩
  cases h₁
  rfl

end ChipEight.Settings
