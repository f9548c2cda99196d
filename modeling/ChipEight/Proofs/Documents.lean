/-
What documents hold. While a document is read, no table gets a key twice, since a write either finds its key missing or
takes the place of the old entry; and the values that are read are no tuples and never absent. So the table that a
document describes can stand in a document again (`read_proper`).
-/
import ChipEight.Proofs.Tables
import ChipEight.Toml.Document

namespace ChipEight.Toml

/-! ## Tables under construction -/

/-- the node stands for what a document can hold -/
inductive Node.Proper : Node → Prop
  | leaf {v : Value} (h : v.Proper) : Proper (.leaf v)
  | table {o : Origin} {entries : List (String × Node)} (keys : (entries.map Prod.fst).Nodup)
      (nodes : ∀ e ∈ entries, e.2.Proper) : Proper (.table o entries)
  | tables {finished : List (List (String × Node))} {last : List (String × Node)}
      (keys : ∀ es ∈ last :: finished, (es.map Prod.fst).Nodup)
      (nodes : ∀ es ∈ last :: finished, ∀ e ∈ es, e.2.Proper) : Proper (.tables finished last)

namespace Entries

/-- the keys are distinct and the nodes proper -/
structure Proper (es : Entries) : Prop where
  keys : (es.map Prod.fst).Nodup
  nodes : ∀ e ∈ es, e.2.Proper

theorem proper_nil : Proper [] := ⟨List.nodup_nil, fun _ h => nomatch h⟩

variable {es es' : Entries} {k : String} {n : Node}

theorem Proper.get? (h : es.Proper) (hk : es.get? k = some n) : n.Proper := by
  have hmem : (k, n) ∈ es := by
    clear h
    induction es with
    | nil => simp [Entries.get?] at hk
    | cons e es ih =>
      obtain ⟨l, x⟩ := e
      simp only [Entries.get?] at hk
      split_ifs at hk with hl
      · obtain rfl := Option.some.inj hk
        rw [hl]
        exact List.mem_cons_self
      · exact List.mem_cons_of_mem _ (ih hk)
  exact h.nodes _ hmem

/-- a write changes one entry or adds one -/
theorem mem_put {e : String × Node} (h : e ∈ es.put k n) : e = (k, n) ∨ e ∈ es := by
  induction es with
  | nil => exact Or.inl (List.mem_singleton.1 h)
  | cons x es ih =>
    obtain ⟨l, x⟩ := x
    simp only [put] at h
    split_ifs at h with hl
    · rcases List.mem_cons.1 h with h | h
      · exact Or.inl (by rw [h, hl])
      · exact Or.inr (List.mem_cons_of_mem _ h)
    · rcases List.mem_cons.1 h with h | h
      · exact Or.inr (h ▸ List.mem_cons_self)
      · exact (ih h).imp_right (List.mem_cons_of_mem _)

theorem nodup_put (h : (es.map Prod.fst).Nodup) : ((es.put k n).map Prod.fst).Nodup := by
  induction es with
  | nil => simp [put]
  | cons x es ih =>
    obtain ⟨l, x⟩ := x
    obtain ⟨hl, h⟩ : l ∉ es.map Prod.fst ∧ (es.map Prod.fst).Nodup := List.nodup_cons.1 h
    simp only [put]
    split_ifs with hk
    · exact List.nodup_cons.2 ⟨hl, h⟩
    · refine List.nodup_cons.2 ⟨fun hmem => ?_, ih h⟩
      obtain ⟨e, he, rfl⟩ := List.mem_map.1 hmem
      rcases mem_put he with rfl | he
      · exact hk rfl
      · exact hl (List.mem_map_of_mem he)

theorem Proper.put (h : es.Proper) (hn : n.Proper) : (es.put k n).Proper where
  keys := nodup_put h.keys
  nodes e he := by
    rcases mem_put he with rfl | he
    · exact hn
    · exact h.nodes e he

theorem Proper.node (h : es.Proper) (o : Origin) : (Node.table o es).Proper := .table h.keys h.nodes

theorem Proper.of_table {o : Origin} (h : (Node.table o es).Proper) : es.Proper := by
  cases h with
  | table keys nodes => exact ⟨keys, nodes⟩

theorem Proper.of_tables {finished : List (List (String × Node))} (h : (Node.tables finished es).Proper) :
    es.Proper := by
  cases h with
  | tables keys nodes => exact ⟨keys es List.mem_cons_self, nodes es List.mem_cons_self⟩

/-- the table that headers reach may change -/
theorem Proper.tables_of {finished : List (List (String × Node))} {last : List (String × Node)}
    (h : (Node.tables finished last).Proper) (hes : es.Proper) : (Node.tables finished es).Proper := by
  cases h with
  | tables keys nodes =>
    constructor
    · intro x hx
      rcases List.mem_cons.1 hx with rfl | hx
      · exact hes.keys
      · exact keys x (List.mem_cons_of_mem _ hx)
    · intro x hx
      rcases List.mem_cons.1 hx with rfl | hx
      · exact hes.nodes
      · exact nodes x (List.mem_cons_of_mem _ hx)

/-- an array of tables may be begun, and gone on with -/
theorem proper_tables_cons {finished : List (List (String × Node))} {last : List (String × Node)}
    (h : (Node.tables finished last).Proper) : (Node.tables (last :: finished) []).Proper := by
  cases h with
  | tables keys nodes =>
    constructor
    · intro x hx
      rcases List.mem_cons.1 hx with rfl | hx
      · exact List.nodup_nil
      · exact keys x hx
    · intro x hx
      rcases List.mem_cons.1 hx with rfl | hx
      · exact fun _ h => nomatch h
      · exact nodes x hx

theorem proper_tables_nil : (Node.tables [] []).Proper := by
  constructor
  all_goals
    intro x hx
    rw [List.mem_singleton.1 hx]
  · exact List.nodup_nil
  · exact fun _ h => nomatch h

/-! ## Writing -/

theorem Proper.within {f : Entries → Option Entries} (hf : ∀ {es es'}, es.Proper → f es = some es' → es'.Proper)
    {path : List String} (h : es.Proper) (hes : es.within f path = some es') : es'.Proper := by
  induction path generalizing es es' with
  | nil => exact hf h hes
  | cons k path ih =>
    simp only [Entries.within] at hes
    split at hes
    case h_1 =>
      obtain ⟨sub, hsub, rfl⟩ := Option.map_eq_some_iff.1 hes
      exact h.put ((ih proper_nil hsub).node _)
    case h_2 o old hk =>
      obtain ⟨sub, hsub, rfl⟩ := Option.map_eq_some_iff.1 hes
      exact h.put ((ih (.of_table (h.get? hk)) hsub).node _)
    case h_3 finished last hk =>
      obtain ⟨sub, hsub, rfl⟩ := Option.map_eq_some_iff.1 hes
      exact h.put (Proper.tables_of (h.get? hk) (ih (.of_tables (h.get? hk)) hsub))
    case h_4 => simp at hes

theorem Proper.openTable (h : es.Proper) (hes : es.openTable k = some es') : es'.Proper := by
  simp only [Entries.openTable] at hes
  split at hes
  case h_1 =>
    obtain rfl := Option.some.inj hes
    exact h.put (proper_nil.node _)
  case h_2 hk =>
    obtain rfl := Option.some.inj hes
    exact h.put ((Proper.of_table (h.get? hk)).node _)
  case h_3 => simp at hes

theorem Proper.openNext (h : es.Proper) (hes : es.openNext k = some es') : es'.Proper := by
  simp only [Entries.openNext] at hes
  split at hes
  case h_1 =>
    obtain rfl := Option.some.inj hes
    exact h.put proper_tables_nil
  case h_2 hk =>
    obtain rfl := Option.some.inj hes
    exact h.put (proper_tables_cons (h.get? hk))
  case h_3 => simp at hes

theorem Proper.assign {current : ℕ} {v : Value} (hv : v.Proper) {path : List String} (h : es.Proper)
    (hes : es.assign current v path = some es') : es'.Proper := by
  induction path generalizing es es' with
  | nil => simp [Entries.assign] at hes
  | cons k path ih =>
    cases path with
    | nil =>
      simp only [Entries.assign] at hes
      split_ifs at hes
      obtain rfl := Option.some.inj hes
      exact h.put (.leaf hv)
    | cons l path =>
      simp only [Entries.assign] at hes
      split at hes
      case h_1 =>
        obtain ⟨sub, hsub, rfl⟩ := Option.map_eq_some_iff.1 hes
        exact h.put ((ih proper_nil hsub).node _)
      case h_2 o old hk =>
        split_ifs at hes
        obtain ⟨sub, hsub, rfl⟩ := Option.map_eq_some_iff.1 hes
        exact h.put ((ih (.of_table (h.get? hk)) hsub).node _)
      case h_3 => simp at hes

end Entries

/-! ## Values -/

theorem entriesValue_eq_map (es : Entries) : entriesValue es = es.map fun e => (e.1, e.2.value) := by
  induction es with
  | nil => rfl
  | cons e es ih => simp only [entriesValue, List.map_cons, ih]

theorem tablesValue_eq_map (ess : List Entries) : tablesValue ess = ess.map fun es => .table (entriesValue es) := by
  induction ess with
  | nil => rfl
  | cons es ess ih => simp only [tablesValue, List.map_cons, ih]

/-- a table is proper if what its nodes stand for is -/
theorem proper_entriesValue {es : Entries} (keys : (es.map Prod.fst).Nodup) (values : ∀ e ∈ es, e.2.value.Proper) :
    (Value.table (entriesValue es)).Proper := by
  rw [entriesValue_eq_map]
  refine .table ?_ ?_
  · simpa [Table.keys, Function.comp_def] using keys
  · intro e he
    obtain ⟨x, hx, rfl⟩ := List.mem_map.1 he
    exact values x hx

theorem Node.Proper.value {n : Node} (h : n.Proper) : n.value.Proper := by
  induction h with
  | leaf h => exact h
  | table keys _ ih => exact proper_entriesValue keys ih
  | @tables finished last keys _ ih =>
    simp only [Node.value, tablesValue_eq_map]
    refine .list fun v hv => ?_
    rw [List.mem_append, List.mem_reverse, List.mem_map, List.mem_singleton] at hv
    obtain ⟨es, hes, rfl⟩ | rfl := hv
    · exact proper_entriesValue (keys es (List.mem_cons_of_mem _ hes)) (ih es (List.mem_cons_of_mem _ hes))
    · exact proper_entriesValue (keys last List.mem_cons_self) (ih last List.mem_cons_self)

theorem Entries.Proper.value {es : Entries} (h : es.Proper) : (Value.table (entriesValue es)).Proper :=
  proper_entriesValue h.keys fun e he => (h.nodes e he).value

/-! ## Reading values -/

theorem must_ok {α : Type} {o : Option α} {a : α} (h : must o = .ok a) : o = some a := by
  cases o with
  | none => nomatch h
  | some b => rw [Except.ok.inj h]

theorem word_proper {cs rest : List Char} {v : Value} (h : word cs = some (v, rest)) : v.Proper := by
  obtain h | ⟨-, h⟩ := (Option.orElse_eq_some _ _ _).1 h
  · obtain ⟨⟨s, r⟩, -, h⟩ := Option.map_eq_some_iff.1 h
    obtain ⟨rfl, -⟩ := Prod.mk.inj h
    exact .text s
  obtain h | ⟨-, h⟩ := (Option.orElse_eq_some _ _ _).1 h
  · simp only [bool] at h
    split at h
    · obtain ⟨rfl, -⟩ := Prod.mk.inj (Option.some.inj h)
      exact .bool true
    · obtain ⟨rfl, -⟩ := Prod.mk.inj (Option.some.inj h)
      exact .bool false
    · nomatch h
  · obtain ⟨⟨t, r⟩, -, h⟩ := Option.map_eq_some_iff.1 h
    obtain ⟨rfl, -⟩ := Prod.mk.inj h
    exact .moment t

theorem radix_proper {cs rest : List Char} {v : Value} (h : radix cs = some (v, rest)) : v.Proper := by
  simp only [radix] at h
  split at h
  case h_4 => nomatch h
  all_goals
    obtain ⟨⟨ds, r⟩, -, h⟩ := Option.map_eq_some_iff.1 h
    obtain ⟨rfl, -⟩ := Prod.mk.inj h
    exact .int _

theorem decimal_proper {cs rest : List Char} {v : Value} (h : decimal cs = some (v, rest)) : v.Proper := by
  obtain ⟨⟨whole, r⟩, -, h⟩ := Option.map_eq_some_iff.1 h
  dsimp only at h
  split at h
  · obtain ⟨rfl, -⟩ := Prod.mk.inj h
    exact .int _
  · obtain ⟨rfl, -⟩ := Prod.mk.inj h
    exact .float _

theorem special_proper {cs rest : List Char} {v : Value} (h : special cs = some (v, rest)) : v.Proper := by
  simp only [special] at h
  split at h
  · obtain ⟨rfl, -⟩ := Prod.mk.inj (Option.some.inj h)
    exact .float _
  · obtain ⟨rfl, -⟩ := Prod.mk.inj (Option.some.inj h)
    exact .float _
  · nomatch h

theorem number_proper {cs rest : List Char} {v : Value} (h : number cs = some (v, rest)) : v.Proper := by
  obtain h | ⟨-, h⟩ := (Option.orElse_eq_some _ _ _).1 h
  · exact radix_proper h
  obtain h | ⟨-, h⟩ := (Option.orElse_eq_some _ _ _).1 h
  · exact decimal_proper h
  · exact special_proper h

theorem scalar_proper {cs rest : List Char} {v : Value} (h : scalar cs = .ok (v, rest)) : v.Proper := by
  simp only [scalar] at h
  split at h
  case h_1 found hw =>
    obtain rfl := Except.ok.inj h
    exact word_proper hw
  case h_2 =>
    split_ifs at h
    exact number_proper (must_ok h)

/-- the readers that call each other, by the bound on their steps -/
theorem values_proper (fuel : ℕ) :
    (∀ {room cs v rest}, value fuel room cs = .ok (v, rest) → v.Proper) ∧
      (∀ {room cs vs rest}, items fuel room cs = .ok (vs, rest) → ∀ v ∈ vs, v.Proper) ∧
      ∀ {room es cs es' rest}, es.Proper → pairs fuel room es cs = .ok (es', rest) → es'.Proper := by
  induction fuel with
  | zero => simp [value, items, pairs]
  | succ fuel ih =>
    -- each reader calls the others with one step less
    obtain ⟨ihValue, ihItems, ihPairs⟩ := ih
    refine ⟨fun {room cs v rest} h => ?_, fun {room cs vs rest} h => ?_, fun {room es cs es' rest} hes h => ?_⟩
    · simp only [value] at h
      split_ifs at h
      split at h
      case h_1 =>
        obtain ⟨r, -, h⟩ := bind_ok h
        obtain ⟨⟨vs, r'⟩, hvs, h⟩ := bind_ok h
        obtain ⟨rfl, -⟩ := Prod.mk.inj (Except.ok.inj h)
        exact .list (ihItems hvs)
      case h_2 =>
        split at h
        · obtain ⟨rfl, -⟩ := Prod.mk.inj (Except.ok.inj h)
          exact Entries.proper_nil.value
        · obtain ⟨⟨es, r'⟩, hes, h⟩ := bind_ok h
          obtain ⟨rfl, -⟩ := Prod.mk.inj (Except.ok.inj h)
          exact (ihPairs Entries.proper_nil hes).value
      case h_3 => exact scalar_proper h
    · unfold items at h
      split at h
      case h_1 => nomatch ‹fuel + 1 = 0›
      case h_2 =>
        obtain ⟨rfl, -⟩ := Prod.mk.inj (Except.ok.inj h)
        simp
      case h_3 hn _ =>
        obtain rfl := Nat.succ.inj hn
        obtain ⟨⟨v, r⟩, hv, h⟩ := bind_ok h
        obtain ⟨r', -, h⟩ := bind_ok h
        split at h
        · obtain ⟨rfl, -⟩ := Prod.mk.inj (Except.ok.inj h)
          simpa using ihValue hv
        · obtain ⟨r'', -, h⟩ := bind_ok h
          obtain ⟨⟨vs', r''⟩, hvs, h⟩ := bind_ok h
          obtain ⟨rfl, -⟩ := Prod.mk.inj (Except.ok.inj h)
          exact List.forall_mem_cons.2 ⟨ihValue hv, ihItems hvs⟩
        · nomatch h
    · simp only [pairs] at h
      obtain ⟨⟨k, r⟩, -, h⟩ := bind_ok h
      obtain ⟨r, -, h⟩ := bind_ok h
      obtain ⟨⟨v, r⟩, hv, h⟩ := bind_ok h
      obtain ⟨es₁, hassign, h⟩ := bind_ok h
      have hes₁ : es₁.Proper := hes.assign (ihValue hv) (must_ok hassign)
      split at h
      · obtain ⟨rfl, -⟩ := Prod.mk.inj (Except.ok.inj h)
        exact hes₁
      · exact ihPairs hes₁ h
      · nomatch h

/-! ## Lines -/

variable {s s' : State} {cs rest : List Char}

theorem header_proper {fuel : ℕ} {opens : String → Entries → Option Entries} {closing : List Char}
    (hopens : ∀ {k es es'}, es.Proper → opens k es = some es' → es'.Proper) (hs : s.entries.Proper)
    (h : header fuel opens closing s cs = some (s', rest)) : s'.entries.Proper := by
  simp only [header, Option.bind_eq_bind, Option.bind_eq_some_iff] at h
  obtain ⟨⟨name, r⟩, -, ⟨path, last⟩, -, es, hes, r', -, h⟩ := h
  obtain ⟨rfl, -⟩ := Prod.mk.inj (Option.some.inj h)
  exact hs.within hopens hes

theorem pair_proper {fuel : ℕ} (hs : s.entries.Proper) (h : pair fuel s cs = .ok (s', rest)) :
    s'.entries.Proper := by
  obtain ⟨⟨k, r⟩, -, h⟩ := bind_ok h
  obtain ⟨r', -, h⟩ := bind_ok h
  obtain ⟨⟨v, r''⟩, hv, h⟩ := bind_ok h
  obtain ⟨es, hes, h⟩ := bind_ok h
  obtain ⟨rfl, -⟩ := Prod.mk.inj (Except.ok.inj h)
  exact hs.within (fun hes h => hes.assign ((values_proper fuel).1 hv) h) (must_ok hes)

theorem statement_proper {fuel : ℕ} (hs : s.entries.Proper) (h : statement fuel s cs = .ok (s', rest)) :
    s'.entries.Proper := by
  simp only [statement] at h
  split at h
  case h_4 => exact header_proper Entries.Proper.openNext hs (must_ok h)
  case h_5 => exact header_proper Entries.Proper.openTable hs (must_ok h)
  case h_6 => exact pair_proper hs h
  all_goals
    obtain ⟨rfl, -⟩ := Prod.mk.inj (Except.ok.inj h)
    exact hs

theorem lines_proper {fuel : ℕ} (hs : s.entries.Proper) (h : lines fuel s cs = .ok s') : s'.entries.Proper := by
  induction fuel generalizing s cs with
  | zero => nomatch h
  | succ fuel ih =>
    obtain ⟨⟨s₁, r⟩, hstatement, h⟩ := bind_ok h
    obtain ⟨r', -, h⟩ := bind_ok h
    have hs₁ := statement_proper hs hstatement
    split at h
    · obtain rfl := Except.ok.inj h
      exact hs₁
    · exact ih hs₁ h
    · nomatch h

/-- **Documents.** In a table that is read no key comes twice, at any depth, and no value is absent or a tuple. -/
theorem read_proper {text : String} {t : Table} (h : read text = .ok t) : (Value.table t).Proper := by
  simp only [read] at h
  cases hlines : lines (2 * (joinLines text.toList).length + 2) {} (joinLines text.toList) with
  | error e => simp [hlines, Except.map] at h
  | ok s =>
    rw [hlines] at h
    obtain rfl := Except.ok.inj h
    exact (lines_proper Entries.proper_nil hlines).value

end ChipEight.Toml
