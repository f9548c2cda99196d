/-
Which documents are settings. A document is usable if it names nothing but settings and gives each a value that it can
have (`Usable`). Reading a usable one gives the default settings with its own in their places. Any other is refused
for its first offence (`offences`): names and tables in wrong places come first, in the order of the document, then
the values that a setting cannot have, in the order in which settings are looked at (`load_result`).

A refusal is put into words, so one of a value that cannot be written in full, such as a number of more than 4300
digits, fails as that value does and not as a refusal.
-/
import ChipEight.Proofs.Documents
import ChipEight.Proofs.Merging
import ChipEight.Settings.Load

namespace ChipEight.Settings

/-! ## Usable documents -/

/-- an array of exactly three numbers from 0 to 255 -/
def IsRgb (v : Value) : Prop :=
  ∃ r g b : ℤ, v = .list [.int r, .int g, .int b] ∧ (0 ≤ r ∧ r ≤ 255) ∧ (0 ≤ g ∧ g ≤ 255) ∧ 0 ≤ b ∧ b ≤ 255

structure UsableColors (c : Table) : Prop where
  keys : ∀ k ∈ c.keys, k = "back" ∨ k = "front"
  back : ∀ v, c.get? "back" = some v → IsRgb v
  front : ∀ v, c.get? "front" = some v → IsRgb v

structure Usable (t : Table) : Prop where
  keys : ∀ k ∈ t.keys, k = "rom" ∨ k = "cycles_per_frame" ∨ k = "scale" ∨ k = "color"
  cycles : ∀ v, t.get? "cycles_per_frame" = some v → ∃ i, v = .int i ∧ 0 < i
  scale : ∀ v, t.get? "scale" = some v → ∃ i, v = .int i ∧ 0 < i
  color : ∀ v, t.get? "color" = some v → ∃ c, v = .table c ∧ UsableColors c
  rom : ∀ v, t.get? "rom" = some v → ∃ s, v = .text s

/-- the colours that a document gives -/
def colorsOf (t : Table) : Table :=
  match t.get? "color" with
  | some (.table c) => c
  | _ => []

/-- the default settings, with those of a document in their places -/
def withDefaults (t : Table) : Table :=
  [("rom", (t.get? "rom").getD .absent), ("cycles_per_frame", (t.get? "cycles_per_frame").getD (.int 10)),
    ("scale", (t.get? "scale").getD (.int 10)),
    ("color", .table [("back", ((colorsOf t).get? "back").getD (.list [.int 0, .int 0, .int 0])),
      ("front", ((colorsOf t).get? "front").getD (.list [.int 255, .int 255, .int 255]))])]

/-! ## Offences -/

/-- what is wrong with the place of an entry: it names no setting, or stands where the table of colours should, or is
that table and names no colour -/
def misnamedAt (key : String) (v : Value) : List Refusal :=
  if key = "color" then
    match v with
    | .table c => (c.filter fun e => e.1 ≠ "back" ∧ e.1 ≠ "front").map fun e => ⟨e.1, e.2⟩
    | v => [⟨"color", v⟩]
  else if key = "rom" ∨ key = "cycles_per_frame" ∨ key = "scale" then []
  else [⟨key, v⟩]

def misnamed (t : Table) : List Refusal := t.flatMap fun e => misnamedAt e.1 e.2

/-- a given value that fails the test of its setting -/
def misfit (ok : Value → Bool) (key : String) : Option Value → List Refusal
  | some v => if ok v then [] else [⟨key, v⟩]
  | none => []

/-- the values that settings cannot have -/
def misfits (t : Table) : List Refusal :=
  misfit isPositive "cycles_per_frame" (t.get? "cycles_per_frame") ++
    (misfit isPositive "scale" (t.get? "scale") ++
      (misfit isColor "color.back" ((colorsOf t).get? "back") ++
        (misfit isColor "color.front" ((colorsOf t).get? "front") ++ misfit isRom "rom" (t.get? "rom"))))

/-- all that speaks against a document, in the order in which it is found -/
def offences (t : Table) : List Refusal := misnamed t ++ misfits t

variable {t : Table}

/-! ## Merging with the defaults -/

theorem default_distinct : (Value.table default).Distinct := by
  refine .table (by decide) ?_
  simp only [default, List.forall_mem_cons, List.not_mem_nil, false_implies, implies_true, and_true]
  refine ⟨.plain (by simp), .plain (by simp), .plain (by simp), .table (by decide) ?_⟩
  simp only [List.forall_mem_cons, List.not_mem_nil, false_implies, implies_true, and_true]
  exact ⟨.plain (by simp), .plain (by simp)⟩

/-- a colour is replaced as a whole, so only names can be wrong -/
theorem strays_colors (back front : List Value) (c : Table) :
    strays [("back", .list back), ("front", .list front)] c =
      (c.filter fun e => e.1 ≠ "back" ∧ e.1 ≠ "front").map fun e => ⟨e.1, e.2⟩ := by
  induction c with
  | nil => rfl
  | cons e c ih =>
    obtain ⟨key, v⟩ := e
    have hlist : ∀ items, straysIn key (.list items) v = [] := by
      intro items
      cases v <;> rfl
    by_cases hback : key = "back"
    · subst hback
      simp [strays, Table.get?, hlist, ih]
    by_cases hfront : key = "front"
    · subst hfront
      simp [strays, Table.get?, hlist, ih]
    · simp [strays, Table.get?, Ne.symm hback, Ne.symm hfront, hback, hfront, ih]

theorem strays_default (t : Table) : strays default t = misnamed t := by
  induction t with
  | nil => rfl
  | cons e t ih =>
    obtain ⟨key, v⟩ := e
    rw [strays, ih, misnamed, misnamed, List.flatMap_cons]
    congr 1
    -- only the table of colours is looked into
    by_cases hcolor : key = "color"
    · subst hcolor
      cases v with
      | table c => exact strays_colors _ _ c
      | _ => rfl
    have hplain : ∀ old, (∀ es, old ≠ .table es) → straysIn key old v = [] := by
      intro old hold
      cases old with
      | table es => exact absurd rfl (hold es)
      | _ => cases v <;> rfl
    by_cases hrom : key = "rom"
    · subst hrom
      exact hplain .absent (by simp)
    by_cases hcycles : key = "cycles_per_frame"
    · subst hcycles
      exact hplain (.int 10) (by simp)
    by_cases hscale : key = "scale"
    · subst hscale
      exact hplain (.int 10) (by simp)
    · simp [misnamedAt, default, Table.get?, Ne.symm hrom, Ne.symm hcycles, Ne.symm hscale, Ne.symm hcolor, hrom,
        hcycles, hscale, hcolor]

/-- an entry is in its place if it names a setting and, if that is the table of colours, gives a table of colours -/
theorem misnamedAt_eq_nil_iff {key : String} {v : Value} :
    misnamedAt key v = [] ↔ (key = "rom" ∨ key = "cycles_per_frame" ∨ key = "scale" ∨ key = "color") ∧
      (key = "color" → ∃ c, v = .table c ∧ ∀ k ∈ Table.keys c, k = "back" ∨ k = "front") := by
  simp only [misnamedAt]
  split_ifs with hcolor hplain
  · cases v with
    | table c =>
      simp only [List.map_eq_nil_iff, List.filter_eq_nil_iff, decide_eq_true_eq, hcolor, true_implies,
        Value.table.injEq, exists_eq_left', Table.keys, List.forall_mem_map, or_true, true_and]
      refine forall₂_congr fun e _ => ?_
      tauto
    | _ => simp [hcolor]
  · simp only [hcolor, false_implies, and_true, true_iff]
    tauto
  · simp only [false_iff, not_and]
    tauto

/-- where nothing is misnamed, the colours are those of a table -/
theorem color_of_misnamed_nil (h : misnamed t = []) {v : Value} (hv : t.get? "color" = some v) :
    ∃ c, v = .table c ∧ ∀ k ∈ Table.keys c, k = "back" ∨ k = "front" := by
  have hat : misnamedAt "color" v = [] := List.flatMap_eq_nil_iff.1 h _ (Table.mem_of_get? hv)
  exact (misnamedAt_eq_nil_iff.1 hat).2 rfl

/-- what is no table is replaced as a whole -/
theorem elim_overlayValue {old : Value} (hold : ∀ es, old ≠ .table es) (change : Option Value) :
    change.elim old (overlayValue old) = change.getD old := by
  cases change with
  | none => rfl
  | some change =>
    cases old with
    | table es => exact absurd rfl (hold es)
    | _ => rfl

theorem overlay_color (h : misnamed t = []) (back front : List Value) :
    (t.get? "color").elim (.table [("back", .list back), ("front", .list front)])
        (overlayValue (.table [("back", .list back), ("front", .list front)])) =
      .table [("back", ((colorsOf t).get? "back").getD (.list back)),
        ("front", ((colorsOf t).get? "front").getD (.list front))] := by
  cases hv : t.get? "color" with
  | none => simp [colorsOf, hv, Table.get?]
  | some v =>
    obtain ⟨c, rfl, -⟩ := color_of_misnamed_nil h hv
    show Value.table (overlay [("back", .list back), ("front", .list front)] c) = _
    simp [colorsOf, hv, overlay, elim_overlayValue]

theorem overlay_default (h : misnamed t = []) : overlay default t = withDefaults t := by
  simp [default, overlay, withDefaults, elim_overlayValue, overlay_color h]

/-! ## Looking at the values -/

theorem refusing_bind {α β : Type} (x : Except Refusal α) (f : α → Except Refusal β) :
    (refusing x >>= fun a => refusing (f a)) = refusing (x >>= f) := by
  cases x <;> rfl

theorem firstOr_append (rs rs' : List Refusal) {α β : Type} (a : α) (b : β) :
    (firstOr rs a >>= fun _ => firstOr rs' b) = firstOr (rs ++ rs') b := by
  cases rs <;> rfl

theorem refusing_firstOr_eq_ok_iff {α : Type} {rs : List Refusal} {a b : α} :
    refusing (firstOr rs a) = .ok b ↔ rs = [] ∧ a = b := by
  cases rs <;> simp [firstOr, refusing]

/-- a setting passes its test or is a misfit, if its default passes -/
theorem check_getD {ok : Value → Bool} {key : String} {d : Value} (hd : ok d = true) (o : Option Value) :
    check ok key (o.getD d) = firstOr (misfit ok key o) () := by
  cases o with
  | none => simp [check, misfit, firstOr, hd]
  | some v => by_cases h : ok v = true <;> simp [check, misfit, firstOr, h]

theorem validate_withDefaults (t : Table) : validate (withDefaults t) = refusing (firstOr (misfits t) ()) := by
  have hcycles : need (withDefaults t) "cycles_per_frame" = .ok ((t.get? "cycles_per_frame").getD (.int 10)) := rfl
  have hscale : need (withDefaults t) "scale" = .ok ((t.get? "scale").getD (.int 10)) := rfl
  have hrom : need (withDefaults t) "rom" = .ok ((t.get? "rom").getD .absent) := rfl
  obtain ⟨c, hcolor, hback, hfront⟩ : ∃ c, need (withDefaults t) "color" = .ok c ∧
      needIn c "back" = .ok (((colorsOf t).get? "back").getD (.list [.int 0, .int 0, .int 0])) ∧
      needIn c "front" = .ok (((colorsOf t).get? "front").getD (.list [.int 255, .int 255, .int 255])) :=
    ⟨_, rfl, rfl, rfl⟩
  -- the defaults pass, so that a test can only fail on a value of the document
  have hten : isPositive (.int 10) = true := rfl
  have hblack : isColor (.list [.int 0, .int 0, .int 0]) = true := rfl
  have hwhite : isColor (.list [.int 255, .int 255, .int 255]) = true := rfl
  have hnothing : isRom .absent = true := rfl
  simp only [validate, checkPositive, checkColor, hcycles, hscale, hrom, hcolor, hback, hfront, ok_bind,
    check_getD hten, check_getD hblack, check_getD hwhite, check_getD hnothing, refusing_bind, firstOr_append]
  rfl

/-- the whole of laying a document over the defaults -/
theorem ofTable_eq (ht : (Value.table t).Proper) :
    ofTable t = refusing (firstOr (offences t) (withDefaults t)) := by
  have hmerge : merge default t = firstOr (misnamed t) (overlay default t) := by
    rw [merge_eq default_distinct ht.distinct, strays_default]
  rw [ofTable, hmerge, offences]
  cases h : misnamed t with
  | cons r rs => rfl
  | nil =>
    -- the table is the right one only where nothing is misnamed, and only then is it looked at
    show (validate (overlay default t) >>= fun _ => Except.ok (overlay default t)) = _
    rw [overlay_default h, validate_withDefaults]
    cases misfits t <;> rfl

/-! ## Usable documents have no offences -/

theorem misnamed_eq_nil_iff (ht : t.keys.Nodup) :
    misnamed t = [] ↔ (∀ k ∈ t.keys, k = "rom" ∨ k = "cycles_per_frame" ∨ k = "scale" ∨ k = "color") ∧
      ∀ v, t.get? "color" = some v → ∃ c, v = .table c ∧ ∀ k ∈ Table.keys c, k = "back" ∨ k = "front" := by
  simp only [misnamed, List.flatMap_eq_nil_iff, misnamedAt_eq_nil_iff, Table.keys, List.forall_mem_map]
  constructor
  · exact fun h => ⟨fun e he => (h e he).1, fun v hv => (h _ (Table.mem_of_get? hv)).2 rfl⟩
  · refine fun h e he => ⟨h.1 e he, fun hcolor => h.2 e.2 (Table.get?_of_mem ht ?_)⟩
    rwa [← hcolor]

theorem misfit_eq_nil_iff {ok : Value → Bool} {key : String} {o : Option Value} :
    misfit ok key o = [] ↔ ∀ v, o = some v → ok v = true := by
  cases o with
  | none => simp [misfit]
  | some v => simp [misfit]

theorem isPositive_iff {v : Value} : isPositive v = true ↔ ∃ i, v = .int i ∧ 0 < i := by
  cases v <;> simp [isPositive]

theorem isComponent_iff {v : Value} : isComponent v = true ↔ ∃ i, v = .int i ∧ 0 ≤ i ∧ i ≤ 255 := by
  cases v <;> simp [isComponent]

theorem components_iff {items : List Value} :
    (items.length == 3 && items.all isComponent) = true ↔ ∃ r g b : ℤ, items = [.int r, .int g, .int b] ∧
      (0 ≤ r ∧ r ≤ 255) ∧ (0 ≤ g ∧ g ≤ 255) ∧ 0 ≤ b ∧ b ≤ 255 := by
  simp only [Bool.and_eq_true, beq_iff_eq, List.length_eq_three, List.all_eq_true, isComponent_iff]
  constructor
  · rintro ⟨⟨a, b, c, rfl⟩, hall⟩
    simp only [List.forall_mem_cons] at hall
    obtain ⟨⟨r, rfl, hr⟩, ⟨g, rfl, hg⟩, ⟨b, rfl, hb⟩, -⟩ := hall
    exact ⟨r, g, b, rfl, hr, hg, hb⟩
  · rintro ⟨r, g, b, rfl, hr, hg, hb⟩
    exact ⟨⟨_, _, _, rfl⟩, by simp [hr, hg, hb]⟩

theorem isColor_iff {v : Value} (hv : v.Proper) : isColor v = true ↔ IsRgb v := by
  cases hv with
  | list h => simp only [isColor, IsRgb, components_iff, Value.list.injEq]
  | _ => simp [isColor, IsRgb]

theorem isRom_iff {v : Value} (hv : v.Proper) : isRom v = true ↔ ∃ s, v = .text s := by
  cases hv <;> simp [isRom]

theorem colorsOf_get?_eq_some_iff {key : String} {v : Value} :
    (colorsOf t).get? key = some v ↔ ∃ c, t.get? "color" = some (.table c) ∧ Table.get? c key = some v := by
  cases h : t.get? "color" with
  | none => simp [colorsOf, h, Table.get?]
  | some x => cases x <;> simp [colorsOf, h, Table.get?]

theorem misfits_eq_nil_iff (ht : (Value.table t).Proper) :
    misfits t = [] ↔ (∀ v, t.get? "cycles_per_frame" = some v → ∃ i, v = .int i ∧ 0 < i) ∧
      (∀ v, t.get? "scale" = some v → ∃ i, v = .int i ∧ 0 < i) ∧
      (∀ v, (colorsOf t).get? "back" = some v → IsRgb v) ∧ (∀ v, (colorsOf t).get? "front" = some v → IsRgb v) ∧
      ∀ v, t.get? "rom" = some v → ∃ s, v = .text s := by
  have hcolor : ∀ {key v}, (colorsOf t).get? key = some v → v.Proper := by
    intro key v h
    obtain ⟨c, hc, hv⟩ := colorsOf_get?_eq_some_iff.1 h
    exact (ht.get? hc).get? hv
  simp only [misfits, List.append_eq_nil_iff, misfit_eq_nil_iff, isPositive_iff]
  refine and_congr_right' (and_congr_right' (and_congr ?_ (and_congr ?_ ?_)))
  · exact forall₂_congr fun v hv => isColor_iff (hcolor hv)
  · exact forall₂_congr fun v hv => isColor_iff (hcolor hv)
  · exact forall₂_congr fun v hv => isRom_iff (ht.get? hv)

theorem usable_iff (ht : (Value.table t).Proper) : Usable t ↔ offences t = [] := by
  rw [offences, List.append_eq_nil_iff, misnamed_eq_nil_iff ht.keys_nodup, misfits_eq_nil_iff ht]
  constructor
  · intro h
    have hcolors : ∀ c, t.get? "color" = some (.table c) → UsableColors c := by
      intro c hc
      obtain ⟨c', hc', husable⟩ := h.color _ hc
      rwa [Value.table.inj hc']
    refine ⟨⟨h.keys, fun v hv => ?_⟩, h.cycles, h.scale, fun v hv => ?_, fun v hv => ?_, h.rom⟩
    · obtain ⟨c, rfl, hc⟩ := h.color v hv
      exact ⟨c, rfl, hc.keys⟩
    · obtain ⟨c, hc, hv⟩ := colorsOf_get?_eq_some_iff.1 hv
      exact (hcolors c hc).back v hv
    · obtain ⟨c, hc, hv⟩ := colorsOf_get?_eq_some_iff.1 hv
      exact (hcolors c hc).front v hv
  · rintro ⟨⟨hkeys, hcolor⟩, hcycles, hscale, hback, hfront, hrom⟩
    refine ⟨hkeys, hcycles, hscale, fun v hv => ?_, hrom⟩
    obtain ⟨c, rfl, hc⟩ := hcolor v hv
    exact ⟨c, rfl, hc, fun v hget => hback v (colorsOf_get?_eq_some_iff.2 ⟨c, hv, hget⟩),
      fun v hget => hfront v (colorsOf_get?_eq_some_iff.2 ⟨c, hv, hget⟩)⟩

/-! ## Main result -/

theorem readFile_proper {files : Files} {name : String} (h : readFile files name = .ok t) :
    (Value.table t).Proper := by
  simp only [readFile] at h
  split at h
  · nomatch h
  split at h
  · nomatch h
  split at h
  · nomatch h
  · nomatch h
  · obtain rfl := Except.ok.inj h
    exact Toml.read_proper ‹_›

theorem load_some {files : Files} {name : String} (h : readFile files name = .ok t) :
    (load files (some name)).result = refusing (firstOr (offences t) (withDefaults t)) := by
  simp only [load, h, ofTable_eq (readFile_proper h)]

/-- **Loading.** A document gives settings exactly if it is usable, and then they are the defaults with its own in
their places. Any other is refused for its first offence, with its key and value; or, if that value has too much of
something to be put into words, fails for that. -/
theorem load_result {files : Files} {name : String} (h : readFile files name = .ok t) :
    ((∃ settings, (load files (some name)).result = .ok settings) ↔ Usable t) ∧
      (Usable t → (load files (some name)).result = .ok (withDefaults t)) ∧
      (¬Usable t → ∃ r, (offences t).head? = some r ∧
        (r.value.excess? = none → (load files (some name)).result = .error (.refused r)) ∧
        ∀ e, r.value.excess? = some e → (load files (some name)).result = .error (.excess e)) := by
  rw [load_some h, usable_iff (readFile_proper h)]
  cases offences t with
  | nil => simp [firstOr, refusing]
  | cons r rs =>
    refine ⟨by simp [firstOr, refusing], by simp, fun _ => ⟨r, rfl, fun hr => ?_, fun e hr => ?_⟩⟩
    · simp [firstOr, refusing, ConfigError.ofRefusal, hr]
    · simp [firstOr, refusing, ConfigError.ofRefusal, hr]

/-- a file with a text holds what the text is read as -/
theorem readFile_of_bytes {files : Files} {name text : String} (hfile : files.read name = .ok text.toUTF8.data) :
    readFile files name = match Toml.read text with
      | .error .malformed => .error (.malformed name)
      | .error (.excess e) => .error (.excess e)
      | .ok t => .ok t := by
  have htext : String.fromUTF8? ⟨text.toUTF8.data⟩ = some text := dif_pos text.isValidUTF8
  cases hread : Toml.read text with
  | ok t => simp only [readFile, hfile, htext, hread]
  | error e => cases e <;> simp only [readFile, hfile, htext, hread]

/-- a file with the text of a document holds its table -/
theorem readFile_of_text {files : Files} {name text : String} (hfile : files.read name = .ok text.toUTF8.data)
    (hread : Toml.read text = .ok t) : readFile files name = .ok t := by
  rw [readFile_of_bytes hfile, hread]

/-- a name among the colours is refused before a scale of zero -/
theorem load_result_of_two_offences :
    let files : Files := .ofList [("c.toml", "scale=0\n[color]\nup=1".toUTF8.data)]
    let t : Table := [("scale", .int 0), ("color", .table [("up", .int 1)])]
    readFile files "c.toml" = .ok t ∧ ¬Usable t ∧
      (load files (some "c.toml")).result = .error (.refused ⟨"up", .int 1⟩) := by
  intro files t
  have hread : Toml.read "scale=0\n[color]\nup=1" = .ok t := by
    simp only [Toml.read, String.reduceToList]
    rfl
  have h : readFile files "c.toml" = .ok t := readFile_of_text rfl hread
  have hunusable : ¬Usable t := fun hu => by
    obtain ⟨i, hi, hpos⟩ := hu.scale (.int 0) rfl
    obtain rfl := Value.int.inj hi
    exact absurd hpos (by decide)
  obtain ⟨-, -, hrefused⟩ := load_result h
  obtain ⟨r, hr, hresult, -⟩ := hrefused hunusable
  obtain rfl : ⟨"up", .int 1⟩ = r := Option.some.inj hr
  exact ⟨h, hunusable, hresult (by decide +kernel)⟩

/-! ## Numbers that are not put into words -/

section LongNumber

open Toml

/-- the number that so many hexadecimal digits write, all of them F -/
def allOnes (digits : ℕ) : ℕ := inBase 16 (List.replicate digits 'F')

/-- the characters of a document that gives that number for a name -/
def longRom (digits : ℕ) : List Char := 'r' :: 'o' :: 'm' :: '=' :: '0' :: 'x' :: List.replicate digits 'F'

theorem digits_replicate (n : ℕ) :
    digits isHex (List.replicate (n + 1) 'F') = some (List.replicate (n + 1) 'F', []) := by
  have hF : isHex 'F' = true := rfl
  have hmore : moreDigits isHex (List.replicate n 'F') = (List.replicate n 'F', []) := by
    induction n with
    | zero => rfl
    | succ n ih => simp [List.replicate_succ, moreDigits, hF, ih]
  simp [List.replicate_succ, digits, hF, hmore]

theorem joinLines_longRom (n : ℕ) : joinLines (longRom n) = longRom n := by
  have hdigits : joinLines (List.replicate n 'F') = List.replicate n 'F' := by
    induction n with
    | zero => rfl
    | succ n ih => simp [List.replicate_succ, joinLines, ih]
  simp [longRom, joinLines, hdigits]

theorem value_longRom (n fuel : ℕ) :
    value (fuel + 1) depthBound ('0' :: 'x' :: List.replicate (n + 1) 'F') = .ok (.int (allOnes (n + 1)), []) := by
  have hword : word ('0' :: 'x' :: List.replicate (n + 1) 'F') = none := rfl
  have hlong : startsTooLong ('0' :: 'x' :: List.replicate (n + 1) 'F') = false := rfl
  have hnumber : number ('0' :: 'x' :: List.replicate (n + 1) 'F') = some (.int (allOnes (n + 1)), []) := by
    simp [number, radix, digits_replicate, allOnes]
  simp [value, scalar, hword, hlong, hnumber, depthBound, must]

theorem read_longRom (n : ℕ) :
    Toml.read (String.ofList (longRom (n + 1))) = .ok [("rom", .int (allOnes (n + 1)))] := by
  have hpair : ∀ fuel, pair (fuel + 1) {} (longRom (n + 1)) =
      .ok ({ entries := [("rom", .leaf (.int (allOnes (n + 1))))] }, []) := by
    intro fuel
    have hkey : key (fuel + 1) (longRom (n + 1)) = some (["rom"], '=' :: '0' :: 'x' :: List.replicate (n + 1) 'F') :=
      rfl
    have hspace : skipSpace ('0' :: 'x' :: List.replicate (n + 1) 'F') = '0' :: 'x' :: List.replicate (n + 1) 'F' :=
      rfl
    simp only [pair, hkey, must, expect, ok_bind, if_true, hspace, value_longRom]
    rfl
  have hlines : ∀ fuel, lines (fuel + 1) {} (longRom (n + 1)) =
      .ok { entries := [("rom", .leaf (.int (allOnes (n + 1))))] } := by
    intro fuel
    have hstatement : statement (fuel + 1) {} (skipSpace (longRom (n + 1))) = pair (fuel + 1) {} (longRom (n + 1)) :=
      rfl
    simp only [lines, hstatement, hpair]
    rfl
  simp only [Toml.read, String.toList_ofList, joinLines_longRom, hlines]
  rfl

theorem excess?_int {i : ℤ} (h : isLongNumber i = true) : Value.excess? (.int i) = some .digits := by
  simp [Value.excess?, Value.excessIn?, depthBound, h]

/-- a name that is a number of 3600 hexadecimal digits is not refused, though it cannot be used -/
theorem not_refused_of_longRom :
    let files : Files := .ofList [("c.toml", (String.ofList (longRom 3600)).toUTF8.data)]
    let t : Table := [("rom", .int (allOnes 3600))]
    readFile files "c.toml" = .ok t ∧ ¬Usable t ∧ (load files (some "c.toml")).result = .error (.excess .digits) := by
  intro files t
  have h : readFile files "c.toml" = .ok t := readFile_of_text rfl (read_longRom 3599)
  have hunusable : ¬Usable t := fun hu => by
    obtain ⟨s, hs⟩ := hu.rom (.int (allOnes 3600)) rfl
    nomatch hs
  have hoffences : offences t = [⟨"rom", .int (allOnes 3600)⟩] := rfl
  have hexcess := excess?_int (i := allOnes 3600) (by decide +kernel)
  refine ⟨h, hunusable, ?_⟩
  rw [load_some h, hoffences]
  simp only [firstOr, refusing, ConfigError.ofRefusal, hexcess]

end LongNumber

end ChipEight.Settings
