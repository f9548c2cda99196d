/-
Settings path by path. A path of keys leads through one table after the other (`Value.follow?`), and the entries of a
table and of the tables in it are listed depth first (`Settings.places`). An entry strays if its path leads to a table
below that does not have its key, or has a table there where the entry gives none; changes are refused exactly for
their first entry that strays. Changes without one go over the settings path by path: every table below keeps its keys
in their order, and every other value below is that of the changes if these have one at its path, taken as a whole
(`merge_pathwise`).
-/
import ChipEight.Proofs.Acceptance

namespace ChipEight

/-! ## Paths -/

namespace Value

def isTable : Value → Bool
  | table _ => true
  | _ => false

/-- the value of a key, in a value that is a table -/
def get? : Value → String → Option Value
  | table t, key => Table.get? t key
  | _, _ => none

/-- the value at the end of a path of keys -/
def follow? (v : Value) : List String → Option Value
  | [] => some v
  | key :: path => (v.get? key).bind (follow? · path)

variable {v : Value} {key : String}

theorem follow?_nil (v : Value) : v.follow? [] = some v := rfl

theorem follow?_cons (v : Value) (key : String) (path : List String) :
    v.follow? (key :: path) = (v.get? key).bind (follow? · path) := rfl

theorem isTable_eq_false (h : ∀ entries, v ≠ table entries) : v.isTable = false := by
  cases v with
  | table t => exact absurd rfl (h t)
  | _ => rfl

/-- a value that is no table has no keys -/
theorem get?_of_plain (h : v.isTable = false) : v.get? key = none := by
  cases v with
  | table t => cases h
  | _ => rfl

end Value

namespace Settings

/-! ## Places -/

/-- an entry somewhere in a table: the path to the table that it stands in, its key and its value -/
structure Place where
  path : List String
  key : String
  value : Value

namespace Place

/-- the entry as it is found from one table further up -/
def under (key : String) (e : Place) : Place := { e with path := key :: e.path }

/-- the refusal of the entry; it does not tell the path -/
def refusal (e : Place) : Refusal := ⟨e.key, e.value⟩

/-- does the entry not fit over the value: its path leads to a table there, which does not have its key, or has a table
where the entry has none -/
def strays (below : Value) (e : Place) : Bool :=
  match below.follow? e.path with
  | some (.table t) =>
    match Table.get? t e.key with
    | none => true
    | some old => old.isTable && !e.value.isTable
  | _ => false

end Place

mutual

/-- the entries in a value -/
def placesIn : Value → List Place
  | .table t => places t
  | _ => []

/-- the entries of a table and of the tables in it, depth first: each comes before those in its value -/
def places : List (String × Value) → List Place
  | [] => []
  | (key, v) :: rest => ⟨[], key, v⟩ :: ((placesIn v).map (Place.under key) ++ places rest)

end

variable {base changes : Table} {old change : Value} {key : String}

theorem strays_here (base : Table) (key : String) (change : Value) :
    Place.strays (.table base) ⟨[], key, change⟩ =
      (base.get? key).elim true fun old => old.isTable && !change.isTable := by
  simp only [Place.strays, Value.follow?_nil]
  cases base.get? key <;> rfl

theorem strays_under (base : Table) (key : String) (e : Place) :
    (e.under key).strays (.table base) = (base.get? key).elim false fun old => e.strays old := by
  simp only [Place.strays, Place.under, Value.follow?_cons, Value.get?]
  cases base.get? key <;> rfl

/-- nothing strays in what goes over a value that is no table -/
theorem strays_of_plain (h : old.isTable = false) (e : Place) : e.strays old = false := by
  obtain ⟨path, key, v⟩ := e
  unfold Place.strays
  cases path with
  | nil => cases old <;> first | rfl | cases h
  | cons k path => simp only [Value.follow?_cons, Value.get?_of_plain h, Option.bind_none]

/-- what strays in the change of one setting: the change itself, or entries in it -/
def strayingIn (key : String) (old change : Value) : List Refusal :=
  (if old.isTable && !change.isTable then [⟨key, change⟩] else []) ++
    ((placesIn change).filter (Place.strays old)).map Place.refusal

theorem strayingIn_of_plain (h : old.isTable = false) (key : String) (change : Value) :
    strayingIn key old change = [] := by
  have hnone : (placesIn change).filter (Place.strays old) = [] :=
    List.filter_eq_nil_iff.2 fun e _ => by simp [strays_of_plain h]
  simp [strayingIn, h, hnone]

/-- an entry and those in its value stray as they do over the value below it; where there is none, only the entry
itself does -/
theorem strays_entry (base : Table) (key : String) (change : Value) :
    ((⟨[], key, change⟩ :: (placesIn change).map (Place.under key)).filter (Place.strays (.table base))).map
        Place.refusal =
      (base.get? key).elim [⟨key, change⟩] fun old => strayingIn key old change := by
  have hrefusal : Place.refusal ∘ Place.under key = Place.refusal := rfl
  have hhere := strays_here base key change
  have hbelow : ((placesIn change).map (Place.under key)).filter (Place.strays (.table base)) =
      ((placesIn change).filter fun e => (base.get? key).elim false fun old => e.strays old).map (Place.under key) := by
    rw [List.filter_map]
    simp only [Function.comp_def, strays_under]
  cases h : base.get? key with
  | none =>
    rw [h] at hhere hbelow
    rw [List.filter_cons_of_pos hhere, hbelow]
    simp [Place.refusal]
  | some old =>
    rw [h] at hhere hbelow
    rw [Option.elim_some, strayingIn]
    by_cases hown : (old.isTable && !change.isTable) = true
    · rw [List.filter_cons_of_pos (hhere.trans hown), hbelow, List.map_cons, List.map_map, hrefusal,
        if_pos hown]
      rfl
    · rw [List.filter_cons_of_neg (hhere.trans_ne hown), hbelow, List.map_map, hrefusal, if_neg hown]
      rfl

theorem strays_cons (base : Table) (key : String) (change : Value) (rest : Table) :
    strays base ((key, change) :: rest) =
      ((base.get? key).elim [⟨key, change⟩] fun old => straysIn key old change) ++ strays base rest := by
  rw [strays]
  cases base.get? key <;> rfl

theorem strays_eq_of (h : ∀ e ∈ changes, ∀ old, straysIn e.1 old e.2 = strayingIn e.1 old e.2) :
    strays base changes = ((places changes).filter (Place.strays (.table base))).map Place.refusal := by
  induction changes with
  | nil => rfl
  | cons e rest ih =>
    obtain ⟨key, change⟩ := e
    have hfirst (old : Value) : straysIn key old change = strayingIn key old change := h _ List.mem_cons_self old
    have hrest := ih fun e he => h e (List.mem_cons_of_mem _ he)
    rw [strays_cons, hrest, places, ← List.cons_append, List.filter_append, List.map_append, strays_entry]
    simp only [hfirst]

/-- what does not fit in a change are the entries that stray, in their order -/
theorem straysIn_eq (hc : change.Distinct) (key : String) (old : Value) :
    straysIn key old change = strayingIn key old change := by
  induction hc generalizing key old with
  | @table changes keys values ih =>
    cases old with
    | table base => exact strays_eq_of fun e he old => ih e he e.1 old
    | _ => rw [strayingIn_of_plain rfl]; rfl
  | @plain change h =>
    cases change with
    | table changes => exact absurd rfl (h changes)
    | _ => cases old <;> rfl

theorem strays_eq (hc : (Value.table changes).Distinct) (base : Table) :
    strays base changes = ((places changes).filter (Place.strays (.table base))).map Place.refusal :=
  straysIn_eq hc "" (.table base)

/-! ## Changes that fit -/

/-- the change fits over the value: a table goes over a table, if its keys are there and their changes fit, and anything
goes over what is no table -/
inductive Fits : Value → Value → Prop
  | plain {old change : Value} (h : old.isTable = false) : Fits old change
  | table {base changes : Table} (keys : ∀ key change, changes.get? key = some change → base.get? key ≠ none)
    (values : ∀ key old change, base.get? key = some old → changes.get? key = some change → Fits old change) :
    Fits (.table base) (.table changes)

theorem Fits.get? (h : Fits (.table base) (.table changes)) (hchange : changes.get? key = some change) :
    ∃ old, base.get? key = some old ∧ Fits old change := by
  cases h with
  | plain h => cases h
  | table keys values =>
    obtain ⟨old, hold⟩ := Option.ne_none_iff_exists'.1 (keys _ _ hchange)
    exact ⟨old, hold, values _ _ _ hold hchange⟩

theorem strays_eq_nil_iff :
    strays base changes = [] ↔ ∀ e ∈ changes, ∃ old, base.get? e.1 = some old ∧ straysIn e.1 old e.2 = [] := by
  induction changes with
  | nil => simp [strays]
  | cons e rest ih =>
    obtain ⟨key, change⟩ := e
    rw [strays_cons, List.append_eq_nil_iff, ih, List.forall_mem_cons]
    refine and_congr_left' ?_
    cases base.get? key <;> simp

/-- a change without strays fits, and the other way round -/
theorem fits_iff (hc : change.Distinct) (key : String) (old : Value) :
    Fits old change ↔ straysIn key old change = [] := by
  induction hc generalizing key old with
  | @table changes keys values ih =>
    cases old with
    | table base =>
      show _ ↔ strays base changes = []
      rw [strays_eq_nil_iff]
      constructor
      · intro h e he
        obtain ⟨old, hold, hfits⟩ := h.get? (Table.get?_of_mem keys he)
        exact ⟨old, hold, (ih e he e.1 old).1 hfits⟩
      · intro h
        refine .table (fun key change hchange hnone => ?_) fun key old change hold hchange => ?_
        · obtain ⟨old, hold, -⟩ := h _ (Table.mem_of_get? hchange)
          cases hold.symm.trans hnone
        · obtain ⟨old', hold', hnil⟩ := h _ (Table.mem_of_get? hchange)
          cases hold.symm.trans hold'
          exact (ih _ (Table.mem_of_get? hchange) key old).2 hnil
    | _ => exact iff_of_true (.plain rfl) rfl
  | @plain change h =>
    cases old with
    | table base =>
      cases change with
      | table changes => exact absurd rfl (h changes)
      | _ => exact iff_of_false (fun hfits => by cases hfits; contradiction) (by simp [straysIn])
    | _ => exact iff_of_true (.plain rfl) (by cases change <;> rfl)

/-! ## Values after changes -/

theorem overlayValue_of_plain (h : old.isTable = false) (change : Value) : overlayValue old change = change := by
  cases old with
  | table base => cases h
  | _ => rfl

theorem keys_overlay (base changes : Table) : (overlay base changes).keys = base.keys := by
  rw [overlay_eq_map]
  simp only [Table.keys, List.map_map, Function.comp_def]

theorem get?_overlay (base changes : Table) (key : String) :
    (overlay base changes).get? key =
      (base.get? key).map fun old => (changes.get? key).elim old (overlayValue old) := by
  induction base with
  | nil => rfl
  | cons e base ih =>
    obtain ⟨k, old⟩ := e
    simp only [overlay, Table.get?]
    split_ifs with hk
    · rw [hk]
      rfl
    · exact ih

/-- by induction on the path: at its end stands the value of before, with the change at the end of that path laid over
it if there is one, and that change fits -/
theorem follow?_overlayValue {v : Value} {path : List String} (h : Fits old change)
    (hv : old.follow? path = some v) :
    (overlayValue old change).follow? path = some ((change.follow? path).elim v (overlayValue v)) ∧
      ∀ c, change.follow? path = some c → Fits v c := by
  induction path generalizing old change with
  | nil =>
    obtain rfl := Option.some.inj hv
    refine ⟨rfl, fun c hc => ?_⟩
    obtain rfl := Option.some.inj hc
    exact h
  | cons key path ih =>
    cases h with
    | plain hplain =>
      rw [Value.follow?_cons, Value.get?_of_plain hplain] at hv
      cases hv
    | @table base changes keys values =>
      simp only [Value.follow?_cons, Value.get?, overlayValue, get?_overlay] at hv ⊢
      obtain ⟨old, hold, hv⟩ := Option.bind_eq_some_iff.1 hv
      cases hchange : changes.get? key with
      | none => simp [hold, hv]
      | some change => simpa [hold] using ih (values key old change hold hchange) hv

/-! ## Main result -/

/-- the table is what changes make of a table below, path by path -/
structure Overridden (base changes t : Table) : Prop where
  /-- tables keep their keys, in their order -/
  tables : ∀ path b, (Value.table base).follow? path = some (.table b) →
    ∃ b', (Value.table t).follow? path = some (.table b') ∧ Table.keys b' = Table.keys b
  /-- what is no table becomes what the changes have in its place, and stays where they have nothing -/
  values : ∀ path v, (Value.table base).follow? path = some v → v.isTable = false →
    (Value.table t).follow? path = some (((Value.table changes).follow? path).getD v)

theorem overridden_overlay (h : Fits (.table base) (.table changes)) :
    Overridden base changes (overlay base changes) where
  tables path b hb := by
    obtain ⟨hfollow, hfits⟩ := follow?_overlayValue h hb
    rw [overlayValue] at hfollow
    cases hc : (Value.table changes).follow? path with
    | none => exact ⟨b, by rw [hfollow, hc]; rfl, rfl⟩
    | some c =>
      cases hfits c hc with
      | plain hplain => cases hplain
      | @table _ changes' keys values =>
        rw [hfollow, hc]
        exact ⟨overlay b changes', rfl, keys_overlay b changes'⟩
  values path v hv hplain := by
    obtain ⟨hfollow, -⟩ := follow?_overlayValue h hv
    rw [overlayValue] at hfollow
    rw [hfollow]
    cases (Value.table changes).follow? path with
    | none => rfl
    | some c => exact congrArg some (overlayValue_of_plain hplain c)

section Merging

variable (hbase : (Value.table base).Distinct) (hchanges : (Value.table changes).Distinct)

include hbase hchanges

theorem merge_of_stray {e : Place} (he : (places changes).find? (Place.strays (.table base)) = some e) :
    merge base changes = .error e.refusal := by
  have hhead : (strays base changes).head? = some e.refusal := by
    rw [strays_eq hchanges, List.head?_map, List.head?_filter, he, Option.map_some]
  obtain ⟨rest, hstrays⟩ := List.head?_eq_some_iff.1 hhead
  rw [merge_eq hbase hchanges, hstrays]
  rfl

/-- changes are taken if they fit, and laid over the settings -/
theorem merge_ok_iff {t : Table} :
    merge base changes = .ok t ↔ Fits (.table base) (.table changes) ∧ t = overlay base changes := by
  have hfits : Fits (.table base) (.table changes) ↔ strays base changes = [] := fits_iff hchanges "" (.table base)
  rw [merge_eq hbase hchanges, hfits]
  cases strays base changes with
  | nil => simp [firstOr, eq_comm]
  | cons r rs => simp [firstOr]

end Merging

/-- changes fit that have no entry that strays -/
theorem fits_of_places (hchanges : (Value.table changes).Distinct)
    (h : ∀ e ∈ places changes, ¬e.strays (.table base)) : Fits (.table base) (.table changes) := by
  apply (fits_iff hchanges "" (.table base)).2
  show strays base changes = []
  rw [strays_eq hchanges, List.filter_eq_nil_iff.2 h]
  rfl

/-- **Changes go over settings path by path.** Where no table has a key twice, changes are refused exactly if some entry
of them strays, with the key and the value of the first that does, depth first; or, if that value has too much of
something to be put into words, they fail for that. Changes none of whose entries strays give the table in which every
table below keeps its keys in their order, and every other value below is that of the changes at its path, whatever it
is, or its own where they have none. -/
theorem merge_pathwise (hbase : (Value.table base).Distinct) (hchanges : (Value.table changes).Distinct) :
    ((∃ e, refusing (merge base changes) = .error e) ↔ ∃ e ∈ places changes, e.strays (.table base)) ∧
      (∀ e, (places changes).find? (Place.strays (.table base)) = some e →
        (e.value.excess? = none → refusing (merge base changes) = .error (.refused ⟨e.key, e.value⟩)) ∧
        ∀ x, e.value.excess? = some x → refusing (merge base changes) = .error (.excess x)) ∧
      ((∀ e ∈ places changes, ¬e.strays (.table base)) →
        ∃ t, refusing (merge base changes) = .ok t ∧ Overridden base changes t) := by
  have hrefused (e : Place) (he : (places changes).find? (Place.strays (.table base)) = some e) :
      refusing (merge base changes) = .error (.ofRefusal ⟨e.key, e.value⟩) := by
    rw [merge_of_stray hbase hchanges he]
    rfl
  have hmerged (h : ∀ e ∈ places changes, ¬e.strays (.table base)) :
      refusing (merge base changes) = .ok (overlay base changes) := by
    rw [(merge_ok_iff hbase hchanges).2 ⟨fits_of_places hchanges h, rfl⟩]
    rfl
  refine ⟨⟨?_, ?_⟩, fun e he => ⟨fun hx => ?_, fun x hx => ?_⟩, fun h => ?_⟩
  · rintro ⟨e, he⟩
    by_contra hnone
    push Not at hnone
    cases he.symm.trans (hmerged fun e he => hnone e he)
  · rintro ⟨e, he, hstrays⟩
    obtain ⟨first, hfirst⟩ := Option.isSome_iff_exists.1 (List.find?_isSome.2 ⟨e, he, hstrays⟩)
    exact ⟨_, hrefused first hfirst⟩
  · rw [hrefused e he, ConfigError.ofRefusal, hx]
  · rw [hrefused e he, ConfigError.ofRefusal, hx]
  · exact ⟨_, hmerged h, overridden_overlay (fits_of_places hchanges h)⟩

/-- a table goes over a name as a whole, but among the colours a name is refused, before one that comes later -/
theorem merge_pathwise_of_nested :
    let changes : Table := [("rom", .table [("up", .int 1)]), ("color", .table [("front", .table []), ("up", .int 2)]),
      ("down", .int 3)]
    let fitting : Table := changes.take 1
    (Value.table default).Distinct ∧ (Value.table changes).Distinct ∧ (Value.table fitting).Distinct ∧
      refusing (merge default changes) = .error (.refused ⟨"up", .int 2⟩) ∧
      ∃ t, refusing (merge default fitting) = .ok t ∧
        (Value.table t).follow? ["rom"] = some (.table [("up", .int 1)]) := by
  intro changes fitting
  have hnumber (i : ℤ) : (Value.int i).Distinct := .plain (by simp)
  have hrom : (Value.table [("up", .int 1)]).Distinct := .table (by decide) (by simpa using hnumber 1)
  have hfitting : (Value.table fitting).Distinct := .table (by decide) (by simpa [fitting, changes] using hrom)
  have hempty : (Value.table []).Distinct := .table (by decide) (by simp)
  have hcolor : (Value.table [("front", .table []), ("up", .int 2)]).Distinct :=
    .table (by decide) (by simpa using ⟨hempty, hnumber 2⟩)
  have hchanges : (Value.table changes).Distinct :=
    .table (by decide) (by simpa [changes] using ⟨hrom, hcolor, hnumber 3⟩)
  obtain ⟨-, hfirst, -⟩ := merge_pathwise default_distinct hchanges
  obtain ⟨-, -, hmerged⟩ := merge_pathwise default_distinct hfitting
  refine ⟨default_distinct, hchanges, hfitting, (hfirst ⟨["color"], "up", .int 2⟩ rfl).1 (by decide +kernel), ?_⟩
  obtain ⟨t, ht, hoverridden⟩ := hmerged (by decide)
  exact ⟨t, ht, hoverridden.values ["rom"] .absent rfl rfl⟩

/-- an entry that strays with a number of more than 4300 digits is not refused -/
theorem not_refused_of_longStray :
    let v : Value := .int (16 ^ 3600 - 1 : ℕ)
    (places [("x", v)]).find? (Place.strays (.table default)) = some ⟨[], "x", v⟩ ∧
      refusing (merge default [("x", v)]) = .error (.excess .digits) := by
  intro v
  have hexcess : v.excess? = some .digits := excess?_int (by decide +kernel)
  have hrefused : merge default [("x", v)] = .error ⟨"x", v⟩ := rfl
  refine ⟨rfl, ?_⟩
  rw [hrefused, refusing, ConfigError.ofRefusal]
  simp only [hexcess]

end Settings

end ChipEight
