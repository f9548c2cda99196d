/-
Laying changes over settings. The changes that do not fit are those under a key that the table below them does not
have, and those that are no table where the setting is one (`strays`, depth first in the order of the changes). If
there are any, the first is refused; else every entry keeps its place and its key, and has the value of its change if
there is one, a table entry by entry and all else as a whole (`merge_eq`).
-/
import ChipEight.Proofs.Tables
import ChipEight.Settings.Basic

namespace ChipEight.Settings

/-! ## What merging amounts to -/

mutual

/-- a value with a change laid over it -/
def overlayValue : Value → Value → Value
  | .table base, .table changes => .table (overlay base changes)
  | _, change => change

/-- a table with changes laid over it -/
def overlay : List (String × Value) → Table → Table
  | [], _ => []
  | (key, old) :: rest, changes =>
    (key, (changes.get? key).elim old (overlayValue old)) :: overlay rest changes

end

mutual

/-- what does not fit in the change of one setting -/
def straysIn (key : String) (old : Value) : Value → List Refusal
  | .table changes => match old with | .table base => strays base changes | _ => []
  | change => match old with | .table _ => [⟨key, change⟩] | _ => []

/-- what does not fit in the changes of a table -/
def strays (base : Table) : List (String × Value) → List Refusal
  | [] => []
  | (key, change) :: rest =>
    (match base.get? key with | some old => straysIn key old change | none => [⟨key, change⟩]) ++ strays base rest

end

/-- the first refusal, or what there is without one -/
def firstOr {α : Type} (rs : List Refusal) (a : α) : Except Refusal α :=
  match rs with
  | [] => .ok a
  | r :: _ => .error r

theorem overlay_eq_map (base changes : Table) :
    overlay base changes = base.map fun e => (e.1, (changes.get? e.1).elim e.2 (overlayValue e.2)) := by
  induction base with
  | nil => rfl
  | cons e base ih => simp only [overlay, List.map_cons, ih]

/-! ## Merging -/

/-- the changes laid over the entries of `done`, which may already hold others; `base` has the values below them -/
def layOver (base done changes : Table) : Table :=
  done.map fun e => (e.1, (changes.get? e.1).elim e.2 (overlayValue ((base.get? e.1).getD e.2)))

theorem layOver_self {base : Table} (hb : base.keys.Nodup) (changes : Table) :
    layOver base base changes = overlay base changes := by
  rw [overlay_eq_map]
  apply List.map_congr_left
  intro e he
  simp only [Table.get?_of_mem hb he, Option.getD_some]

/-- the first change may as well be written before the others are laid over -/
theorem layOver_put {base done rest : Table} {key : String} {old change : Value} (hd : done.keys.Nodup)
    (hmem : key ∈ done.keys) (hold : base.get? key = some old) (hkey : key ∉ rest.keys) :
    layOver base (done.put key (overlayValue old change)) rest = layOver base done ((key, change) :: rest) := by
  rw [Table.put_of_mem hd hmem]
  simp only [layOver, List.map_map]
  apply List.map_congr_left
  intro e he
  simp only [Function.comp_apply, Table.get?]
  by_cases h : e.1 = key
  · subst h
    simp [Table.get?_eq_none_iff.2 hkey, hold]
  · simp only [if_neg h, if_neg (Ne.symm h)]

/-- changes laid one after the other over the entries that `done` has in the places of `base` -/
theorem mergeEntries_eq {base : Table} (hb : base.keys.Nodup) (hbase : ∀ e ∈ base, e.2.Distinct) {changes : Table}
    (hc : changes.keys.Nodup)
    (hvalues : ∀ e ∈ changes, ∀ (key : String) {old : Value}, old.Distinct →
      mergeValue key old e.2 = firstOr (straysIn key old e.2) (overlayValue old e.2))
    {done : Table} (hd : done.keys = base.keys) :
    mergeEntries base changes done = firstOr (strays base changes) (layOver base done changes) := by
  induction changes generalizing done with
  | nil => simp [mergeEntries, strays, firstOr, layOver, Table.get?]
  | cons e rest ih =>
    obtain ⟨key, change⟩ := e
    obtain ⟨hkey, hrest⟩ : key ∉ Table.keys rest ∧ (Table.keys rest).Nodup := List.nodup_cons.1 hc
    simp only [mergeEntries, strays]
    cases hold : base.get? key with
    | none => rfl
    | some old =>
      have hmem : (key, old) ∈ base := Table.mem_of_get? hold
      simp only [hvalues (key, change) List.mem_cons_self key (hbase _ hmem)]
      cases hs : straysIn key old change with
      | cons r rs => rfl
      | nil =>
        have hkeys : key ∈ done.keys := hd ▸ Table.mem_keys_of_mem hmem
        have hput : (done.put key (overlayValue old change)).keys = base.keys := by
          rw [Table.keys_put, if_pos hkeys, hd]
        rw [← layOver_put (hd ▸ hb) hkeys hold hkey]
        exact ih hrest (fun e he => hvalues e (List.mem_cons_of_mem _ he)) hput

theorem mergeValue_eq {change : Value} (hc : change.Distinct) (key : String) {old : Value} (ho : old.Distinct) :
    mergeValue key old change = firstOr (straysIn key old change) (overlayValue old change) := by
  induction hc generalizing key old with
  | @table changes keys values ih =>
    cases ho with
    | @table base hkeys hvalues =>
      simp only [mergeValue, straysIn, overlayValue]
      rw [mergeEntries_eq hkeys hvalues keys (fun e he key old ho => ih e he key ho) rfl, layOver_self hkeys]
      cases strays base changes <;> rfl
    | plain h =>
      cases old with
      | table base => exact absurd rfl (h base)
      | _ => rfl
  | @plain change h =>
    cases change with
    | table changes => exact absurd rfl (h changes)
    | _ => cases old <;> rfl

/-- **Merging.** Where no table has a key twice, the first stray change is refused, and changes without strays are laid
over the settings. -/
theorem merge_eq {base changes : Table} (hbase : (Value.table base).Distinct)
    (hchanges : (Value.table changes).Distinct) :
    merge base changes = firstOr (strays base changes) (overlay base changes) := by
  cases hbase with
  | plain h => exact absurd rfl (h base)
  | table hb hvalues =>
    cases hchanges with
    | plain h => exact absurd rfl (h changes)
    | table hc hch =>
      rw [merge, mergeEntries_eq hb hvalues hc (fun e he key old ho => mergeValue_eq (hch e he) key ho) rfl,
        layOver_self hb]

end ChipEight.Settings
