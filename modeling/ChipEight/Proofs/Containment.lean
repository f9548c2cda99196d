/-
How the settings of a run fail. Most failures are reported: the run logs one error line and ends with status 1
(`Reported`). Some are not, and break the run off (`Escapes`): a file that is not UTF-8 text, a number or a nesting that
is too much to be read or to be written into a report, and a name that is blank or holds a NUL. There is nothing else
that can go wrong (`settings_outcome`).
-/
import ChipEight.Proofs.Precedence
import ChipEight.Proofs.Sessions

namespace ChipEight

open CommandLine (Options)

namespace Settings

/-! ## Reading the file -/

section Reading

variable {files : Files} {name : String} {bytes : Array UInt8}

theorem readFile_of_error {e : OpenError} (h : files.read name = .error e) :
    readFile files name = .error (.unopened e) := by
  simp only [readFile, h]

theorem readFile_of_invalid (h : files.read name = .ok bytes) (hbytes : ¬ByteArray.IsValidUTF8 ⟨bytes⟩) :
    readFile files name = .error .notText := by
  have hnone : String.fromUTF8? ⟨bytes⟩ = none := dif_neg hbytes
  simp only [readFile, h, hnone]

/-- bytes are no text, or those of one text -/
theorem text_or_invalid (bytes : Array UInt8) :
    ¬ByteArray.IsValidUTF8 ⟨bytes⟩ ∨ ∃ text : String, bytes = text.toUTF8.data := by
  by_cases h : ByteArray.IsValidUTF8 ⟨bytes⟩
  · exact Or.inr ⟨⟨⟨bytes⟩, h⟩, rfl⟩
  · exact Or.inl h

end Reading

/-! ## What can go wrong -/

/-- a failure that is reported -/
inductive Reported (files : Files) (o : Options) : ConfigError → Prop
  /-- whatever reason the host has for giving no bytes -/
  | unopened {name : String} {p : HostProblem} (h : Source files o (some name)) (hname : '\x00' ∉ name.toList)
    (hlook : files.look name = .error p) : Reported files o (.unopened (.host p name))
  | malformed {name text : String} (h : Source files o (some name)) (hbytes : files.read name = .ok text.toUTF8.data)
    (hread : Toml.read text = .error .malformed) : Reported files o (.malformed name)
  | offence {t : Table} {r : Refusal} (h : Base files o t) (hr : (offences t).head? = some r)
    (hexcess : r.value.excess? = none) : Reported files o (.refused r)
  | misgiven {t : Table} {r : Refusal} (h : Base files o t) (ht : offences t = [])
    (hr : (misgiven o).head? = some r) : Reported files o (.refused r)

/-- a failure that is not -/
inductive Escapes (files : Files) (o : Options) : ConfigError → Prop
  | blankName (h : o.config = some .blank) : Escapes files o .blankName
  | nulInName {name : String} (h : Source files o (some name)) (hname : '\x00' ∈ name.toList) :
    Escapes files o (.unopened .nulInName)
  | notText {name : String} {bytes : Array UInt8} (h : Source files o (some name))
    (hbytes : files.read name = .ok bytes) (hinvalid : ¬ByteArray.IsValidUTF8 ⟨bytes⟩) : Escapes files o .notText
  /-- a decimal number has too many digits to be read, or values lie too deep in each other -/
  | unread {name text : String} {e : Excess} (h : Source files o (some name))
    (hbytes : files.read name = .ok text.toUTF8.data) (hread : Toml.read text = .error (.excess e)) :
    Escapes files o (.excess e)
  /-- the value that is to be refused cannot be written -/
  | unwritten {t : Table} {r : Refusal} {e : Excess} (h : Base files o t) (hr : (offences t).head? = some r)
    (hexcess : r.value.excess? = some e) : Escapes files o (.excess e)

variable {files : Files} {o : Options} {e : ConfigError}

theorem firstOr_of_head? {rs : List Refusal} {r : Refusal} {α : Type} {a : α} (h : rs.head? = some r) :
    refusing (firstOr rs a) = .error (.ofRefusal r) := by
  obtain ⟨rest, rfl⟩ := List.head?_eq_some_iff.1 h
  rfl

theorem build_of_unread {name : String} (h : Source files o (some name)) (hread : readFile files name = .error e) :
    (build files o).result = .error e :=
  build_of_load_error h (by simp only [load, hread])

theorem build_of_offence {t : Table} {r : Refusal} (h : Base files o t) (hr : (offences t).head? = some r) :
    (build files o).result = .error (.ofRefusal r) :=
  build_of_loadFor_error (by rw [load_of_base h, firstOr_of_head? hr])

theorem build_of_reported (ho : o.Short) (h : Reported files o e) :
    (build files o).result = .error e ∧ e.isReported = true := by
  cases h with
  | unopened h hname hlook =>
    refine ⟨build_of_unread h (readFile_of_error ?_), rfl⟩
    rw [Files.read_of_look hname, hlook]
    rfl
  | malformed h hbytes hread => exact ⟨build_of_unread h (by rw [readFile_of_bytes hbytes, hread]), rfl⟩
  | offence h hr hexcess =>
    refine ⟨?_, rfl⟩
    rw [build_of_offence h hr, ConfigError.ofRefusal, hexcess]
  | misgiven h ht hr =>
    refine ⟨?_, rfl⟩
    rw [build_of_base h ht, firstOr_of_head? hr, ofRefusal_of_misgiven ho (List.mem_of_head? hr)]

theorem build_of_escapes (h : Escapes files o e) : (build files o).result = .error e ∧ e.isReported = false := by
  cases h with
  | blankName h => exact ⟨build_of_blank h, rfl⟩
  | nulInName h hname => exact ⟨build_of_unread h (readFile_of_error (Files.read_of_nul hname)), rfl⟩
  | notText h hbytes hinvalid => exact ⟨build_of_unread h (readFile_of_invalid hbytes hinvalid), rfl⟩
  | unread h hbytes hread => exact ⟨build_of_unread h (by rw [readFile_of_bytes hbytes, hread]), rfl⟩
  | unwritten h hr hexcess =>
    refine ⟨?_, rfl⟩
    rw [build_of_offence h hr, ConfigError.ofRefusal, hexcess]

/-- with a table there are settings, or something speaks against the table or the command line -/
theorem outcome_of_base {t : Table} (h : Base files o t) :
    (∃ s, (build files o).result = .ok s) ∨ ∃ e, Reported files o e ∨ Escapes files o e := by
  cases hoffences : offences t with
  | nil =>
    cases hmisgiven : misgiven o with
    | nil => exact Or.inl ⟨_, (build_of_base h hoffences).trans (by rw [hmisgiven]; rfl)⟩
    | cons r rs => exact Or.inr ⟨_, Or.inl (.misgiven h hoffences (by rw [hmisgiven]; rfl))⟩
  | cons r rs =>
    have hr : (offences t).head? = some r := by rw [hoffences]; rfl
    cases hexcess : r.value.excess? with
    | none => exact Or.inr ⟨_, Or.inl (.offence h hr hexcess)⟩
    | some e => exact Or.inr ⟨_, Or.inr (.unwritten h hr hexcess)⟩

/-- there are settings, or what went wrong is known -/
theorem outcome (files : Files) (o : Options) :
    (∃ s, (build files o).result = .ok s) ∨ ∃ e, Reported files o e ∨ Escapes files o e := by
  rcases source_or_blank files o with ⟨name?, h⟩ | hblank
  · cases name? with
    | none => exact outcome_of_base (.empty h)
    | some name =>
      by_cases hname : '\x00' ∈ name.toList
      · exact Or.inr ⟨_, Or.inr (.nulInName h hname)⟩
      cases hlook : files.look name with
      | error p => exact Or.inr ⟨_, Or.inl (.unopened h hname hlook)⟩
      | ok bytes =>
        have hbytes := Files.read_of_ok hname hlook
        rcases text_or_invalid bytes with hinvalid | ⟨text, rfl⟩
        · exact Or.inr ⟨_, Or.inr (.notText h hbytes hinvalid)⟩
        · cases hread : Toml.read text with
          | ok t => exact outcome_of_base (.read h (readFile_of_text hbytes hread))
          | error e =>
            cases e with
            | malformed => exact Or.inr ⟨_, Or.inl (.malformed h hbytes hread)⟩
            | excess e => exact Or.inr ⟨_, Or.inr (.unread h hbytes hread)⟩
  · exact Or.inr ⟨_, Or.inr (.blankName hblank)⟩

end Settings

namespace Emulator

open Settings (Reported Escapes)

variable {S : Type} {files : Files} {args : List String} {o : Options} {e : ConfigError}

/-! ## Main result -/

theorem run_of_settings_error (host : Host S) (hostSeed : ℤ) (batches : List (List Event))
    (hargs : CommandLine.parse args = .ok o) (hsettings : (Settings.build files o).result = .error e) :
    ∃ r : Ran S, r.Quiet ∧ run host files hostSeed args batches =
      if e.isReported then fail r e.message else crash r (.settings e) := by
  refine ⟨_, ⟨?_, ?_⟩, by simp only [run, hargs, hsettings]; rfl⟩
  · simp [Ran.errors]
  · rfl

/-- how the settings of a run end: they are usable, or a failure is reported, or one is not -/
structure SettingsOutcome (files : Files) (args : List String) (o : Options) : Prop where
  usable : ∀ t, (Settings.build files o).result = .ok t → Settings.validate t = .ok ()
  reported : ∀ e, Reported files o e → (Settings.build files o).result = .error e ∧
    ∀ {S : Type} (host : Host S) hostSeed batches, (run host files hostSeed args batches).Failed e.message
  escaped : ∀ e, Escapes files o e → (Settings.build files o).result = .error e ∧
    ∀ {S : Type} (host : Host S) hostSeed batches, (run host files hostSeed args batches).BrokeOff (.settings e)
  either : (∃ t, (Settings.build files o).result = .ok t) ∨ ∃ e, Reported files o e ∨ Escapes files o e

/-- **How settings fail.** For every command line that can be read, all files and every host, the settings pass their
tests, or the run fails with status 1 and one error line, or it breaks off without one. The last is so exactly if the
file is not UTF-8 text, or has a number or a nesting that cannot be read or, being refused, cannot be written, or has a
name that is blank or holds a NUL. -/
theorem settings_outcome (files : Files) (hargs : CommandLine.parse args = .ok o) : SettingsOutcome files args o where
  usable _ h := Settings.validate_of_build h
  reported e h := by
    obtain ⟨hresult, hreported⟩ := Settings.build_of_reported (CommandLine.parse_short hargs) h
    refine ⟨hresult, fun host hostSeed batches => ?_⟩
    obtain ⟨r, hr, hrun⟩ := run_of_settings_error host hostSeed batches hargs hresult
    rw [hrun, if_pos hreported]
    exact failed_fail hr _
  escaped e h := by
    obtain ⟨hresult, hnot⟩ := Settings.build_of_escapes h
    refine ⟨hresult, fun host hostSeed batches => ?_⟩
    obtain ⟨r, hr, hrun⟩ := run_of_settings_error host hostSeed batches hargs hresult
    rw [hrun, if_neg (by simp [hnot])]
    exact brokeOff_crash hr _
  either := Settings.outcome files o

/-- without a file, a run of no instructions is reported as one that cannot be had -/
theorem settings_outcome_of_zero :
    CommandLine.parse ["-n", "0"] = .ok { cycles := some (.value 0) } ∧
      (run Surface.host .none 7 ["-n", "0"] [[]]).Failed "Invalid configuration value for 'cycles_per_frame': 0" := by
  have hargs : CommandLine.parse ["-n", "0"] = .ok { cycles := some (.value 0) } := rfl
  refine ⟨hargs, ?_⟩
  have hreported : Reported .none { cycles := some (.value 0) } (.refused ⟨"cycles_per_frame", .int 0⟩) :=
    .misgiven (.empty (.nothing rfl rfl)) rfl rfl
  have h := ((settings_outcome .none hargs).reported _ hreported).2 Surface.host 7 [[]]
  have hmessage : ConfigError.message (.refused ⟨"cycles_per_frame", .int 0⟩) =
      "Invalid configuration value for 'cycles_per_frame': 0" := rfl
  rwa [hmessage] at h

/-- a file of one byte that is no text ends a run with no status -/
theorem not_exited_of_notText :
    let files : Files := .ofList [("config.toml", #[0xFF])]
    CommandLine.parse [] = .ok {} ∧ (Settings.build files {}).result = .error .notText ∧
      ∀ hostSeed batches code, (run Surface.host files hostSeed [] batches).ending ≠ .exited code := by
  intro files
  have hargs : CommandLine.parse [] = .ok {} := rfl
  have hbytes : files.read "config.toml" = .ok #[0xFF] := rfl
  have hescapes : Escapes files {} .notText := .notText (.found rfl rfl) hbytes (by decide)
  obtain ⟨hresult, -⟩ := Settings.build_of_escapes hescapes
  refine ⟨hargs, hresult, fun hostSeed batches code => ?_⟩
  obtain ⟨r, -, hrun⟩ := run_of_settings_error Surface.host hostSeed batches hargs hresult
  rw [hrun]
  simp [ConfigError.isReported, crash]

end Emulator

end ChipEight
