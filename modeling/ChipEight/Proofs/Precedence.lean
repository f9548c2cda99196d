/-
Which settings count. A run reads one file of settings, the one that its command line names or else `config.toml` if
that is a regular file, or none (`Source`); that it is one does not mean that it can be read. Whatever is wrong with the
file is refused, overridden or not; then the numbers of the command line are looked at. Where nothing is wrong, the
command line comes before the file and the file before the defaults, for each setting by itself (`build_precedence`).
-/
import ChipEight.Proofs.Acceptance
import ChipEight.Proofs.Arguments

namespace ChipEight.Settings

open CommandLine (Given Options)

/-! ## The file -/

/-- the file that settings are read from, if there is one -/
inductive Source (files : Files) (o : Options) : Option String → Prop
  | named {name : String} (h : o.config = some (.value name)) : Source files o (some name)
  | found (h : o.config = none) (hfile : files.isFile "config.toml" = true) : Source files o (some "config.toml")
  | nothing (h : o.config = none) (hfile : files.isFile "config.toml" = false) : Source files o none

/-- the table that settings are taken from; without a file it is empty -/
inductive Base (files : Files) (o : Options) : Table → Prop
  | read {name : String} {t : Table} (h : Source files o (some name)) (hread : readFile files name = .ok t) :
    Base files o t
  | empty (h : Source files o none) : Base files o []

variable {files : Files} {o : Options} {name? : Option String} {t base : Table}

theorem loadFor_of_source (h : Source files o name?) : loadFor files o = load files name? := by
  cases h with
  | named h => simp only [loadFor, h]
  | found h hfile => simp only [loadFor, h, defaultFile, hfile, if_true]
  | nothing h hfile => simp [loadFor, h, defaultFile, hfile]

theorem source_or_blank (files : Files) (o : Options) : (∃ name?, Source files o name?) ∨ o.config = some .blank := by
  cases hc : o.config with
  | none =>
    cases hfile : files.isFile "config.toml" with
    | true => exact Or.inl ⟨_, .found hc hfile⟩
    | false => exact Or.inl ⟨_, .nothing hc hfile⟩
  | some given =>
    cases given with
    | value name => exact Or.inl ⟨_, .named hc⟩
    | blank => exact Or.inr rfl

/-- settings are loaded from a table that nothing speaks against -/
theorem base_of_load (h : Source files o name?) (hload : (load files name?).result = .ok base) :
    ∃ t, Base files o t ∧ offences t = [] := by
  cases name? with
  | none => exact ⟨[], .empty h, rfl⟩
  | some name =>
    cases hread : readFile files name with
    | error e => simp [load, hread] at hload
    | ok t =>
      rw [load_some hread, refusing_firstOr_eq_ok_iff] at hload
      exact ⟨t, .read h hread, hload.1⟩

theorem load_of_base (h : Base files o t) :
    (loadFor files o).result = refusing (firstOr (offences t) (withDefaults t)) := by
  cases h with
  | read h hread => rw [loadFor_of_source h, load_some hread]
  | empty h => rw [loadFor_of_source h]; rfl

/-! ## The command line -/

/-- is the number that was given above zero; a blank is not -/
def AboveZero (n : Given ℤ) : Prop := ∃ i, n = .value i ∧ 0 < i

theorem isPositive_givenNumber_iff {n : Given ℤ} : isPositive (givenNumber n) = true ↔ AboveZero n := by
  cases n with
  | value i => simp [givenNumber, isPositive_iff, AboveZero]
  | blank => simp [givenNumber, isPositive, AboveZero]

/-- what speaks against the numbers of a command line, in the order in which it is found -/
def misgiven (o : Options) : List Refusal :=
  misfit isPositive "cycles_per_frame" (o.cycles.map givenNumber) ++
    misfit isPositive "scale" (o.scale.map givenNumber)

theorem misfit_given_eq_nil_iff {key : String} {given : Option (Given ℤ)} :
    misfit isPositive key (given.map givenNumber) = [] ↔ ∀ n, given = some n → AboveZero n := by
  cases given with
  | none => simp [misfit]
  | some n => simp [misfit, ← isPositive_givenNumber_iff]

theorem misfit_given_of_not {key : String} {n : Given ℤ} (h : ¬AboveZero n) :
    misfit isPositive key (some (givenNumber n)) = [⟨key, givenNumber n⟩] := by
  rw [← isPositive_givenNumber_iff] at h
  simp [misfit, h]

theorem misgiven_eq_nil_iff : misgiven o = [] ↔
    (∀ n, o.cycles = some n → AboveZero n) ∧ ∀ n, o.scale = some n → AboveZero n := by
  rw [misgiven, List.append_eq_nil_iff, misfit_given_eq_nil_iff, misfit_given_eq_nil_iff]

/-- the settings of a command line over those of a table, with defaults for the rest -/
def combined (o : Options) (t : Table) : Table :=
  [("rom", (o.rom.map Value.text).getD ((t.get? "rom").getD .absent)),
    ("cycles_per_frame", (o.cycles.map givenNumber).getD ((t.get? "cycles_per_frame").getD (.int 10))),
    ("scale", (o.scale.map givenNumber).getD ((t.get? "scale").getD (.int 10))),
    ("color", .table [("back", ((colorsOf t).get? "back").getD (.list [.int 0, .int 0, .int 0])),
      ("front", ((colorsOf t).get? "front").getD (.list [.int 255, .int 255, .int 255]))])]

theorem override_withDefaults (o : Options) (t : Table) : override o (withDefaults t) = combined o t := by
  cases hrom : o.rom <;> cases hscale : o.scale <;> cases hcycles : o.cycles <;>
    simp only [override, combined, hrom, hscale, hcycles] <;> rfl

/-- a given setting comes before that of a table -/
theorem get?_override (o : Options) (t : Table) :
    (override o t).get? "rom" = (o.rom.map Value.text).or (t.get? "rom") ∧
      (override o t).get? "cycles_per_frame" = (o.cycles.map givenNumber).or (t.get? "cycles_per_frame") ∧
      (override o t).get? "scale" = (o.scale.map givenNumber).or (t.get? "scale") ∧
      (override o t).get? "color" = t.get? "color" := by
  cases hrom : o.rom <;> cases hscale : o.scale <;> cases hcycles : o.cycles <;>
    simp [override, hrom, hscale, hcycles, Table.get?_put]

/-- so the settings are those of one table, over the defaults -/
theorem combined_eq (o : Options) (t : Table) : combined o t = withDefaults (override o t) := by
  obtain ⟨hrom, hcycles, hscale, hcolor⟩ := get?_override o t
  simp only [combined, withDefaults, colorsOf, hrom, hcycles, hscale, hcolor, Option.getD_or]

theorem misfit_or {ok : Value → Bool} {key : String} {given old : Option Value} (h : misfit ok key old = []) :
    misfit ok key (given.or old) = misfit ok key given := by
  cases given with
  | none => exact h
  | some v => rfl

/-- where nothing speaks against a table, only the numbers of the command line can be wrong -/
theorem misfits_override (h : misfits t = []) : misfits (override o t) = misgiven o := by
  obtain ⟨hrom, hcycles, hscale, hcolor⟩ := get?_override o t
  simp only [misfits, List.append_eq_nil_iff] at h
  obtain ⟨cycles, scale, back, front, rom⟩ := h
  have hname : misfit isRom "rom" (o.rom.map Value.text) = [] := by
    cases o.rom <;> rfl
  simp only [misfits, misgiven, colorsOf, hrom, hcycles, hscale, hcolor, misfit_or cycles, misfit_or scale,
    misfit_or rom, hname]
  simp only [colorsOf] at back front
  simp only [back, front, List.append_nil]

/-- the settings of a run, where nothing speaks against the table they are taken from -/
theorem build_of_base (h : Base files o t) (ht : offences t = []) :
    (build files o).result = refusing (firstOr (misgiven o) (combined o t)) := by
  have hload : (loadFor files o).result = .ok (withDefaults t) := by
    rw [load_of_base h, ht]
    rfl
  have hmisfits := (List.append_eq_nil_iff.1 ht).2
  have hvalidate : validate (combined o t) = refusing (firstOr (misgiven o) ()) := by
    rw [combined_eq, validate_withDefaults, misfits_override hmisfits]
  simp only [build, hload, override_withDefaults, hvalidate]
  cases misgiven o <;> rfl

theorem build_of_load (h : Source files o name?) (hload : (load files name?).result = .ok base) :
    ∃ t, Base files o t ∧ (build files o).result = refusing (firstOr (misgiven o) (combined o t)) := by
  obtain ⟨t, ht, hoffences⟩ := base_of_load h hload
  exact ⟨t, ht, build_of_base ht hoffences⟩

theorem build_of_loadFor_error {e : ConfigError} (h : (loadFor files o).result = .error e) :
    (build files o).result = .error e := by
  simp only [build, h]

theorem build_of_load_error {e : ConfigError} (h : Source files o name?)
    (hload : (load files name?).result = .error e) : (build files o).result = .error e :=
  build_of_loadFor_error (by rw [loadFor_of_source h, hload])

theorem build_of_blank (h : o.config = some .blank) : (build files o).result = .error .blankName :=
  build_of_loadFor_error (by simp only [loadFor, h])

/-- who has settings has them from a file that can be loaded, or from none -/
theorem load_of_build {s : Table} (h : (build files o).result = .ok s) :
    ∃ name? base, Source files o name? ∧ (load files name?).result = .ok base := by
  rcases source_or_blank files o with ⟨name?, hsource⟩ | hblank
  · cases hload : (load files name?).result with
    | error e =>
      rw [build_of_load_error hsource hload] at h
      nomatch h
    | ok base => exact ⟨name?, base, hsource, hload⟩
  · rw [build_of_blank hblank] at h
    nomatch h

/-- what a command line gives is short enough to be refused in words -/
theorem ofRefusal_of_misgiven (ho : o.Short) {r : Refusal} (hr : r ∈ misgiven o) :
    ConfigError.ofRefusal r = .refused r := by
  have hgiven {n : Given ℤ} (hn : n.Short) : (givenNumber n).excess? = none := by
    cases n with
    | value i =>
      have hi : isLongNumber i = false := hn
      simp [givenNumber, Value.excess?, Value.excessIn?, depthBound, hi]
    | blank => rfl
  have hmisfit {key : String} {given : Option (Given ℤ)} (hg : ∀ n, given = some n → n.Short)
      (hr : r ∈ misfit isPositive key (given.map givenNumber)) : r.value.excess? = none := by
    cases given with
    | none => simp [misfit] at hr
    | some n =>
      simp only [Option.map_some, misfit] at hr
      split_ifs at hr
      · simp at hr
      · rw [List.mem_singleton.1 hr]
        exact hgiven (hg n rfl)
  have hexcess : r.value.excess? = none := by
    rcases List.mem_append.1 hr with hr | hr
    · exact hmisfit ho.cycles hr
    · exact hmisfit ho.scale hr
  simp only [ConfigError.ofRefusal, hexcess]

/-! ## Main result -/

/-- what comes of the settings of a file and a command line -/
structure Precedence (files : Files) (o : Options) (result : Except ConfigError Table) : Prop where
  succeeds : (∃ s, result = .ok s) ↔
    (∃ name? base, Source files o name? ∧ (load files name?).result = .ok base) ∧
      (∀ n, o.cycles = some n → AboveZero n) ∧ ∀ n, o.scale = some n → AboveZero n
  /-- what is wrong with the file is wrong whatever the command line gives -/
  file : ∀ name? e, Source files o name? → (load files name?).result = .error e → result = .error e
  cycles : ∀ name? base n, Source files o name? → (load files name?).result = .ok base → o.cycles = some n →
    ¬AboveZero n → result = .error (.refused ⟨"cycles_per_frame", givenNumber n⟩)
  scale : ∀ name? base n, Source files o name? → (load files name?).result = .ok base →
    (∀ n, o.cycles = some n → AboveZero n) → o.scale = some n → ¬AboveZero n →
      result = .error (.refused ⟨"scale", givenNumber n⟩)
  settings : ∀ s, result = .ok s → ∃ t, Base files o t ∧ s = combined o t

/-- **Precedence.** For every command line that can be read, there are settings exactly if the file that is read can be
loaded by itself and the numbers of the command line are above zero. They are then those of the command line, or else
of the file, or else the defaults, each by itself. What is wrong is refused: in the file first, then the number of
instructions, then the scale. -/
theorem build_precedence (files : Files) {args : List String} (h : CommandLine.parse args = .ok o) :
    Precedence files o (build files o).result := by
  have hrefused {r : Refusal} (hr : r ∈ misgiven o) : ConfigError.ofRefusal r = .refused r :=
    ofRefusal_of_misgiven (CommandLine.parse_short h) hr
  constructor
  · constructor
    · rintro ⟨s, hs⟩
      obtain ⟨name?, base, hsource, hload⟩ := load_of_build hs
      obtain ⟨t, -, hbuild⟩ := build_of_load hsource hload
      rw [hbuild, refusing_firstOr_eq_ok_iff, misgiven_eq_nil_iff] at hs
      exact ⟨⟨name?, base, hsource, hload⟩, hs.1⟩
    · rintro ⟨⟨name?, base, hsource, hload⟩, hpositive⟩
      obtain ⟨t, -, hbuild⟩ := build_of_load hsource hload
      exact ⟨combined o t, by rw [hbuild, refusing_firstOr_eq_ok_iff, misgiven_eq_nil_iff]; exact ⟨hpositive, rfl⟩⟩
  · exact fun name? e hsource hload => build_of_load_error hsource hload
  · intro name? base n hsource hload hn hnot
    obtain ⟨t, -, hbuild⟩ := build_of_load hsource hload
    have hmisgiven : misgiven o = ⟨"cycles_per_frame", givenNumber n⟩ ::
        misfit isPositive "scale" (o.scale.map givenNumber) := by
      rw [misgiven, hn, Option.map_some, misfit_given_of_not hnot]
      rfl
    rw [hbuild, hmisgiven, firstOr, refusing, hrefused (by rw [hmisgiven]; exact List.mem_cons_self)]
  · intro name? base n hsource hload hcycles hn hnot
    obtain ⟨t, -, hbuild⟩ := build_of_load hsource hload
    have hmisgiven : misgiven o = [⟨"scale", givenNumber n⟩] := by
      rw [misgiven, misfit_given_eq_nil_iff.2 hcycles, hn, Option.map_some, misfit_given_of_not hnot]
      rfl
    rw [hbuild, hmisgiven, firstOr, refusing, hrefused (by rw [hmisgiven]; exact List.mem_cons_self)]
  · intro s hs
    obtain ⟨name?, base, hsource, hload⟩ := load_of_build hs
    obtain ⟨t, ht, hbuild⟩ := build_of_load hsource hload
    rw [hbuild, refusing_firstOr_eq_ok_iff] at hs
    exact ⟨t, ht, hs.2.symm⟩

/-- an empty name and a number come before the defaults, and the scale of the file remains; two numbers that cannot be
used are not saved by the file; a file that is there but must not be read is no reason to do without it -/
theorem build_precedence_of_scale :
    let files : Files := .ofList [("config.toml", "scale=3".toUTF8.data)]
    let denied : HostProblem := .refused 13 "Permission denied"
    let locked : Files := { look := fun _ => .error denied, isFile := fun _ => true }
    let o : Options := { rom := some "", cycles := some (.value 7) }
    let zeros : Options := { scale := some (.value 0), cycles := some (.value 0) }
    CommandLine.parse ["", "-n", "7"] = .ok o ∧ CommandLine.parse ["-s", "0", "-n", "0"] = .ok zeros ∧
      (build files o).result = .ok [("rom", .text ""), ("cycles_per_frame", .int 7), ("scale", .int 3),
        ("color", .table [("back", .list [.int 0, .int 0, .int 0]), ("front", .list [.int 255, .int 255, .int 255])])] ∧
      (build files zeros).result = .error (.refused ⟨"cycles_per_frame", .int 0⟩) ∧
      (build locked o).result = .error (.unopened (.host denied "config.toml")) := by
  intro files denied locked o zeros
  let t : Table := [("scale", .int 3)]
  have ho : CommandLine.parse ["", "-n", "7"] = .ok o := rfl
  have hzeros : CommandLine.parse ["-s", "0", "-n", "0"] = .ok zeros := rfl
  have hread : Toml.read "scale=3" = .ok t := by
    simp only [Toml.read, String.reduceToList]
    rfl
  have hfile : readFile files "config.toml" = .ok t := readFile_of_text rfl hread
  have hload : (load files (some "config.toml")).result = .ok (withDefaults t) := load_some hfile
  refine ⟨ho, hzeros, ?_, ?_, ?_⟩
  · obtain ⟨hsucceeds, -, -, -, hsettings⟩ := build_precedence files ho
    have hcycles : ∀ n, o.cycles = some n → AboveZero n := fun n hn => ⟨7, (Option.some.inj hn).symm, by decide⟩
    have hscale : ∀ n, o.scale = some n → AboveZero n := by
      intro n hn
      cases hn
    obtain ⟨s, hs⟩ := hsucceeds.2 ⟨⟨_, _, .found rfl rfl, hload⟩, hcycles, hscale⟩
    obtain ⟨t', hbase, rfl⟩ := hsettings s hs
    -- the only table that the settings can be taken from is that of the file
    obtain rfl : t = t' := by
      cases hbase with
      | read hsource hread' =>
        cases hsource with
        | named h => cases h
        | found _ _ => exact Except.ok.inj (hfile.symm.trans hread')
      | empty hsource =>
        cases hsource with
        | nothing _ hnone => cases hnone
    exact hs
  · obtain ⟨-, -, hcycles, -, -⟩ := build_precedence files hzeros
    refine hcycles _ _ (.value 0) (.found rfl rfl) hload rfl ?_
    rintro ⟨i, hi, hpos⟩
    obtain rfl : 0 = i := Given.value.inj hi
    exact absurd hpos (by decide)
  · obtain ⟨-, hfailed, -, -, -⟩ := build_precedence locked ho
    exact hfailed (some "config.toml") _ (.found rfl rfl) rfl

end ChipEight.Settings
