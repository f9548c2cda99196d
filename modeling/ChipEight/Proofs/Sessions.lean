/-
Whole runs, from the command line to the images, on any host that opens the window it is asked for and paints in it.
Settings that have passed their tests can be taken apart, so a run that has them gets on to its program
(`run_eq_start`). Without a program that can be had it fails with status 1, one error line and no image. With one it
plays, and the images are the pictures of the frames that were completed; the only faults on the way are those of the
stack, and the one that comes first ends the run with status 1 and a report of the machine (`run_outcome`).

What the host says is reported, and what is wrong with settings, programs and stacks. A name that the host cannot even
be asked for, since it holds a NUL, ends a run without a report (`not_exited_of_nul`), and so does a blank seed.
-/
import ChipEight.Emulator
import ChipEight.Proofs.Acceptance
import ChipEight.Proofs.Faults
import ChipEight.Proofs.Plays
import ChipEight.Proofs.Restart
import ChipEight.Proofs.Windows

namespace ChipEight

/-! ## Settings that have passed -/

namespace Settings

variable {t : Table}

theorem refusing_check_ok {ok : Value → Bool} {key : String} {v : Value} (h : refusing (check ok key v) = .ok ()) :
    ok v = true := by
  by_contra hv
  simp [check, hv, refusing] at h

theorem need_ok {key : String} {v : Value} (h : need t key = .ok v) : t.get? key = some v := by
  simp only [need] at h
  split at h
  · rename_i hv
    rw [hv, Except.ok.inj h]
  · nomatch h

theorem needIn_ok {key : String} {v w : Value} (h : needIn v key = .ok w) :
    ∃ c, v = .table c ∧ Table.get? c key = some w := by
  cases v with
  | table c => exact ⟨c, rfl, need_ok h⟩
  | _ => nomatch h

theorem colorOf?_of_isColor {v : Value} (h : isColor v = true) : ∃ c, colorOf? v = some c := by
  have hitems : ∀ items : List Value, (items.length == 3 && items.all isComponent) = true →
      ∃ c, (items.mapM intOf?).bind Color.ofInts? = some c := by
    intro items h
    obtain ⟨r, g, b, rfl, hr, hg, hb⟩ := components_iff.1 h
    exact ⟨⟨UInt8.ofInt r, UInt8.ofInt g, UInt8.ofInt b⟩, by simp [intOf?, Color.ofInts?, hr, hg, hb]⟩
  cases v with
  | list items => exact hitems items h
  | tuple items => exact hitems items h
  | _ => nomatch h

/-- settings that have passed their tests can be taken apart, and their numbers are above zero -/
theorem ofTable?_of_validate (h : validate t = .ok ()) : ∃ s, ofTable? t = some s ∧ 0 < s.cycles ∧ 0 < s.scale := by
  obtain ⟨cycles, hcycles, h⟩ := bind_ok h
  obtain ⟨_, hcyclesOk, h⟩ := bind_ok h
  obtain ⟨scale, hscale, h⟩ := bind_ok h
  obtain ⟨_, hscaleOk, h⟩ := bind_ok h
  obtain ⟨color, hcolor, h⟩ := bind_ok h
  obtain ⟨back, hback, h⟩ := bind_ok h
  obtain ⟨_, hbackOk, h⟩ := bind_ok h
  obtain ⟨color', hcolor', h⟩ := bind_ok h
  obtain ⟨front, hfront, h⟩ := bind_ok h
  obtain ⟨_, hfrontOk, h⟩ := bind_ok h
  obtain ⟨c, rfl, hgetBack⟩ := needIn_ok hback
  obtain rfl := Except.ok.inj (hcolor.symm.trans hcolor')
  obtain ⟨c', hc, hgetFront⟩ := needIn_ok hfront
  obtain rfl := Value.table.inj hc
  obtain ⟨n, rfl, hn⟩ := isPositive_iff.1 (refusing_check_ok hcyclesOk)
  obtain ⟨k, rfl, hk⟩ := isPositive_iff.1 (refusing_check_ok hscaleOk)
  obtain ⟨b, hb⟩ := colorOf?_of_isColor (refusing_check_ok hbackOk)
  obtain ⟨f, hf⟩ := colorOf?_of_isColor (refusing_check_ok hfrontOk)
  refine ⟨⟨(t.get? "rom").bind romOf, n, k.toNat, b, f⟩, ?_, hn, by simpa using hk⟩
  simp [ofTable?, need_ok hcycles, need_ok hscale, need_ok hcolor, intOf?, hgetBack, hgetFront, hb, hf]

/-- the settings of a run have passed their tests -/
theorem validate_of_build {files : Files} {o : CommandLine.Options} (h : (build files o).result = .ok t) :
    validate t = .ok () := by
  simp only [build] at h
  split at h
  · simp_all
  · rename_i u _
    simp only at h
    cases hv : validate (override o u) with
    | error e => simp [hv, Except.map] at h
    | ok _ =>
      simp only [hv, Except.map] at h
      rw [← Except.ok.inj h, hv]

end Settings

/-! ## Faults on the way -/

namespace Machine

variable {σ : Type} [RandomSource σ] {m : Machine σ} {cycles : ℤ}

/-- what ends a play of a program is an overflow or an underflow of the stack -/
theorem FaultsBehind.ofStack {done : List (List Event)} {batch : List Event} {before : Machine σ} {f : Fault}
    (hm : m.Counted) (h : FaultsBehind cycles m done batch before f) : ∃ a, f = .overflow a ∨ f = .underflow a := by
  obtain ⟨k, -, -, hbefore⟩ := h.steps
  have hc : before.Counted := by
    rw [hbefore]
    exact kept_counted.afterSteps (kept_counted.applyEvents batch (kept_counted.afterFrames hm done)) k
  rcases (execute_fault_iff (m := { before with pc := next before.pc }) hc.depth _ f).1 h.fault with
    ⟨-, -, hf⟩ | ⟨-, -, hf⟩
  · exact ⟨_, Or.inr hf⟩
  · exact ⟨_, Or.inl hf⟩

/-- the pictures of frames are as wide and high as the window that shows them -/
theorem framePictures_sized (batches : List (List Event)) : ∀ p ∈ m.framePictures cycles batches, p.Sized 64 32 := by
  intro p hp
  obtain ⟨f, -, rfl⟩ := List.mem_map.1 hp
  obtain ⟨hrows, hcolumns⟩ := picture_size (m.afterFrames cycles (batches.take (f + 1)))
  exact ⟨hrows, hcolumns⟩

end Machine

/-! ## Reports -/

namespace Ran

variable {S : Type}

/-- the error lines of a run, in order -/
def errors (r : Ran S) : List String :=
  r.log.toList.filterMap fun line => match line with | .error text => some text | .debug _ => none

/-- nothing has been reported or shown so far -/
structure Quiet (r : Ran S) : Prop where
  errors : r.errors = []
  images : r.images = []

/-- the run failed: with status 1, one error line and no image -/
structure Failed (r : Ran S) (text : String) : Prop where
  ending : r.ending = .exited 1
  errors : r.errors = [text]
  images : r.images = []

/-- the run broke off without a report, and without an image -/
structure BrokeOff (r : Ran S) (c : Crash) : Prop where
  ending : r.ending = .crashed c
  errors : r.errors = []
  images : r.images = []

/-- the run ended with a status and error lines, and showed pictures in a window -/
structure Showed (look : S → ℕ → ℕ → Option Color) (r : Ran S) (code : ℕ) (errors : List String) (w : Window)
    (pictures : List Picture) : Prop where
  ending : r.ending = .exited code
  errors : r.errors = errors
  images : List.Forall₂ (w.Shows look) pictures r.images

theorem errors_debug (r : Ran S) (notices : Array Notice) :
    ({ r with log := r.log ++ notices.map .debug } : Ran S).errors = r.errors := by
  simp [errors, List.filterMap_append]

theorem errors_push (r : Ran S) (text : String) :
    ({ r with log := r.log.push (.error text) } : Ran S).errors = r.errors ++ [text] := by
  simp [errors]

end Ran

namespace Emulator

open CommandLine (Options)

variable {S : Type} {host : Host S} {look : S → ℕ → ℕ → Option Color} {files : Files} {hostSeed : ℤ}
  {args : List String} {batches : List (List Event)} {o : Options} {t : Table} {s : Settings} {r : Ran S}

/-- where the random numbers of a run start: at the seed on the command line, or else at the host's; a blank is none -/
def seed? (o : Options) (hostSeed : ℤ) : Option ℤ :=
  match o.seed with
  | none => some hostSeed
  | some (.value n) => some n
  | some .blank => none

theorem failed_fail (hr : r.Quiet) (text : String) : (fail r text).Failed text where
  ending := rfl
  errors := (r.errors_push text).trans (by rw [hr.errors]; rfl)
  images := hr.images

theorem brokeOff_crash (hr : r.Quiet) (c : Crash) : (crash r c).BrokeOff c where
  ending := rfl
  errors := hr.errors
  images := hr.images

/-- a run that has its settings starts with them, with nothing reported or shown -/
theorem run_eq_start (host : Host S) (hostSeed : ℤ) (batches : List (List Event))
    (hargs : CommandLine.parse args = .ok o) (hsettings : (Settings.build files o).result = .ok t)
    (hs : Settings.ofTable? t = some s) :
    ∃ r : Ran S, r.Quiet ∧ run host files hostSeed args batches = start host files hostSeed o s batches r := by
  refine ⟨_, ⟨?_, ?_⟩, by simp only [run, hargs, hsettings, hs]; rfl⟩
  · simp [Ran.errors]
  · rfl

/-! ## Playing in the window -/

section Playing

open Machine
open Played (Ended)

variable {m last : Machine Twister} {done : List (List Event)}

/-- a window opens for a play that has ended, and shows the pictures of its frames -/
theorem opens_shows (hhost : host.Serves look (64 * s.scale) (32 * s.scale)) (hscale : 0 < s.scale)
    {fault : Option Fault} (h : Ended s.cycles m done last fault (m.play s.cycles batches)) :
    ∃ surface, (windowFor s).openOn host = .ok surface ∧
      List.Forall₂ ((windowFor s).Shows look) (m.framePictures s.cycles done)
        ((windowFor s).drawAllOn host.toCanvas surface (m.play s.cycles batches).pictures.toList) := by
  obtain ⟨surface, hopen, hsurface⟩ := Window.openOn_of_serves hhost s.back s.front
  refine ⟨surface, hopen, ?_⟩
  rw [h.pictures]
  exact Window.shows_drawAllOn hhost.paints hscale s.back s.front (framePictures_sized done) hsurface

theorem showed_of_ended (hr : r.Quiet) (hhost : host.Serves look (64 * s.scale) (32 * s.scale)) (hscale : 0 < s.scale)
    (h : Ended s.cycles m done last none (m.play s.cycles batches)) :
    (playIn host s m batches r).Showed look 0 [] (windowFor s) (m.framePictures s.cycles done) := by
  obtain ⟨surface, hopen, hshows⟩ := opens_shows hhost hscale h
  simp only [playIn, hopen, h.fault]
  exact ⟨rfl, (r.errors_debug _).trans hr.errors, hshows⟩

theorem showed_of_ended_fault (hr : r.Quiet) (hhost : host.Serves look (64 * s.scale) (32 * s.scale))
    (hscale : 0 < s.scale) {f : Fault} (hf : ∃ a, f = .overflow a ∨ f = .underflow a)
    (h : Ended s.cycles m done last (some f) (m.play s.cycles batches)) :
    (playIn host s m batches r).Showed look 1 [f.message ++ "\n" ++ last.dump] (windowFor s)
      (m.framePictures s.cycles done) := by
  obtain ⟨surface, hopen, hshows⟩ := opens_shows hhost hscale h
  have herrors := ({ r with log := r.log ++ (m.play s.cycles batches).notices.map .debug } : Ran S).errors_push
    (faultReport f last)
  rw [r.errors_debug, hr.errors] at herrors
  obtain ⟨a, rfl | rfl⟩ := hf
  all_goals
    simp only [playIn, hopen, h.fault, h.machine]
    exact ⟨rfl, herrors, hshows⟩

end Playing

/-! ## Getting at the program -/

variable {name : String} {bytes : Array UInt8} {source : Twister}

theorem sourceFor_eq (o : Options) (hostSeed : ℤ) :
    sourceFor o hostSeed = (seed? o hostSeed).elim (.error .blankSeed) fun n => .ok (Twister.seeded n) := by
  simp only [sourceFor, seed?]
  cases o.seed with
  | none => rfl
  | some given => cases given <;> rfl

theorem playFile_of_error {e : OpenError} (hread : files.read name = .error e) :
    playFile host files name source s batches r = if e.isOfHost then fail r e.message else crash r (.program e) := by
  have hload : Machine.loadFile files name source = { result := .error (.unopened e) } := by
    simp only [Machine.loadFile, hread]
  simp [playFile, hload]

/-- a file that is read is reported, in the log for debugging, before its size is looked at -/
theorem playFile_of_ok (host : Host S) (source : Twister) (s : Settings) (batches : List (List Event))
    (hr : r.Quiet) (hread : files.read name = .ok bytes) :
    ∃ r' : Ran S, r'.Quiet ∧ playFile host files name source s batches r =
      match Machine.load bytes source with
      | .ok m => playIn host s m batches r'
      | .error e => fail r' e.message := by
  refine ⟨{ r with log := r.log ++ #[Notice.romRead bytes.size name].map .debug },
    ⟨(r.errors_debug _).trans hr.errors, hr.images⟩, ?_⟩
  simp only [playFile, Machine.loadFile, hread]
  cases Machine.load bytes source <;> rfl

theorem failed_of_tooLarge (hr : r.Quiet) (hread : files.read name = .ok bytes) (hsize : 3584 < bytes.size) :
    (playFile host files name source s batches r).Failed
      ("ROM is " ++ toString bytes.size ++ " bytes, only " ++ toString 3584 ++ " bytes fit in memory") := by
  obtain ⟨r', hr', heq⟩ := playFile_of_ok host source s batches hr hread
  have hload : Machine.load bytes source = .error ⟨bytes.size⟩ := by
    simp only [Machine.load, Rom.ofBytes, dif_neg (show ¬bytes.size ≤ programRoom from Nat.not_le.2 hsize), Except.map]
  rw [heq, hload]
  exact failed_fail hr' _

/-! ## Main result -/

/-- what a run makes of a program that it can play: it shows the frames before the first batch that asks to quit, or
those before the first that faults, which it reports -/
structure Performed (look : S → ℕ → ℕ → Option Color) (s : Settings) (m : Machine Twister)
    (batches : List (List Event)) (r : Ran S) : Prop where
  completed : m.FramesFree s.cycles (Machine.beforeQuit batches) →
    r.Showed look 0 [] (windowFor s) (m.framePictures s.cycles (Machine.beforeQuit batches))
  faulted : ∀ done batch before f, done ++ [batch] <+: Machine.beforeQuit batches →
    Machine.FaultsBehind s.cycles m done batch before f →
      (∃ a, f = .overflow a ∨ f = .underflow a) ∧
        r.Showed look 1 [f.message ++ "\n" ++ before.step.machine.dump] (windowFor s) (m.framePictures s.cycles done)
  either : m.FramesFree s.cycles (Machine.beforeQuit batches) ∨
    ∃ done batch before f, done ++ [batch] <+: Machine.beforeQuit batches ∧
      Machine.FaultsBehind s.cycles m done batch before f

theorem performed (hr : r.Quiet) (hhost : host.Serves look (64 * s.scale) (32 * s.scale)) (hscale : 0 < s.scale)
    (hread : files.read name = .ok bytes) (hfits : bytes.size ≤ 3584) :
    Performed look s (Machine.boot ⟨bytes, hfits⟩ source) batches
      (playFile host files name source s batches r) := by
  obtain ⟨r', hr', heq⟩ := playFile_of_ok host source s batches hr hread
  obtain ⟨hcompleted, hfaulted⟩ := Machine.play_ended (Machine.boot ⟨bytes, hfits⟩ source) s.cycles batches
  have hcounted := Machine.boot_counted ⟨bytes, hfits⟩ source
  rw [heq, Machine.load_of_fits hfits]
  refine ⟨fun hfree => ?_, fun done batch before f hpre hf => ?_, Machine.framesFree_or_fault _ _ _⟩
  · obtain ⟨last, hended⟩ := hcompleted hfree
    exact showed_of_ended hr' hhost hscale hended
  · have hstack := hf.ofStack hcounted
    exact ⟨hstack, showed_of_ended_fault hr' hhost hscale hstack (hfaulted done batch before f hpre hf)⟩

/-- what becomes of a run that has its settings, a name for its program and a seed -/
structure ProgramOutcome (host : Host S) (look : S → ℕ → ℕ → Option Color) (files : Files) (s : Settings)
    (name : String) (seed : ℤ) (batches : List (List Event)) (r : Ran S) : Prop where
  /-- the host is not asked for such a name, and nothing is reported -/
  nul : '\x00' ∈ name.toList → r.BrokeOff (.program .nulInName)
  unopened : '\x00' ∉ name.toList → ∀ p, files.look name = .error p → r.Failed (OpenError.host p name).message
  tooLarge : '\x00' ∉ name.toList → ∀ bytes, files.look name = .ok bytes → 3584 < bytes.size →
    r.Failed ("ROM is " ++ toString bytes.size ++ " bytes, only " ++ toString 3584 ++ " bytes fit in memory")
  played : '\x00' ∉ name.toList → ∀ bytes (hfits : bytes.size ≤ 3584), files.look name = .ok bytes →
    host.Serves look (64 * s.scale) (32 * s.scale) →
      Performed look s (Machine.boot ⟨bytes, hfits⟩ (Twister.seeded seed)) batches r

theorem programOutcome (hr : r.Quiet) (look : S → ℕ → ℕ → Option Color) (hscale : 0 < s.scale) (seed : ℤ) :
    ProgramOutcome host look files s name seed batches
      (playFile host files name (Twister.seeded seed) s batches r) where
  nul hnul := by
    rw [playFile_of_error (Files.read_of_nul hnul)]
    exact brokeOff_crash hr _
  unopened hname p hlook := by
    have hread : files.read name = .error (.host p name) := by
      rw [Files.read_of_look hname, hlook]
      rfl
    rw [playFile_of_error hread]
    exact failed_fail hr _
  tooLarge hname bytes hlook hsize := failed_of_tooLarge hr (Files.read_of_ok hname hlook) hsize
  played hname bytes hfits hlook hhost := performed hr hhost hscale (Files.read_of_ok hname hlook) hfits

/-- what becomes of a run that has its settings -/
structure RunOutcome (host : Host S) (look : S → ℕ → ℕ → Option Color) (files : Files) (hostSeed : ℤ) (o : Options)
    (s : Settings) (batches : List (List Event)) (r : Ran S) : Prop where
  nameless : s.rom = none → r.Failed "No ROM given on the command line or in the config file"
  /-- there is no random source for a blank seed -/
  unseeded : ∀ name, s.rom = some name → seed? o hostSeed = none → r.BrokeOff .blankSeed
  named : ∀ name seed, s.rom = some name → seed? o hostSeed = some seed →
    ProgramOutcome host look files s name seed batches r

/-- **Whole runs.** A command line is read and settings are had. Without the name of a program, or with a program that
the host does not give or that does not fit, the run fails with status 1, one error line and no image; with one that
fits it is played, from the seed given or else the host's, in a window of the size asked for, on every host that opens
it and paints in it. A blank seed and a name with a NUL in it break the run off. -/
theorem run_outcome (host : Host S) (look : S → ℕ → ℕ → Option Color) (files : Files) (hostSeed : ℤ)
    (batches : List (List Event)) (hargs : CommandLine.parse args = .ok o)
    (hsettings : (Settings.build files o).result = .ok t) :
    ∃ s, Settings.ofTable? t = some s ∧
      RunOutcome host look files hostSeed o s batches (run host files hostSeed args batches) := by
  obtain ⟨s, hs, -, hscale⟩ := Settings.ofTable?_of_validate (Settings.validate_of_build hsettings)
  obtain ⟨r, hr, hrun⟩ := run_eq_start host hostSeed batches hargs hsettings hs
  rw [hrun]
  refine ⟨s, hs, fun hrom => ?_, fun name hrom hseed => ?_, fun name seed hrom hseed => ?_⟩
  · simp only [start, hrom]
    exact failed_fail hr _
  · simp only [start, hrom, sourceFor_eq, hseed]
    exact brokeOff_crash hr _
  · simp only [start, hrom, sourceFor_eq, hseed, Option.elim_some]
    exact programOutcome hr look hscale seed

/-- a program that faults in its second frame, played with one instruction a frame -/
theorem run_outcome_of_bareReturn :
    let files : Files := .ofList [("r.ch8", Machine.bareReturn.bytes)]
    let o : Options := { rom := some "r.ch8", cycles := some (.value 1) }
    let s : Settings := ⟨some "r.ch8", 1, 10, ⟨0, 0, 0⟩, ⟨255, 255, 255⟩⟩
    let m := Machine.boot Machine.bareReturn (Twister.seeded 7)
    let before := (m.afterFrames 1 [[.keyDown 120]]).applyEvents [.keyUp 120]
    CommandLine.parse ["r.ch8", "-n", "1"] = .ok o ∧
      (∃ t, (Settings.build files o).result = .ok t ∧ Settings.ofTable? t = some s) ∧
      Surface.host.Serves Surface.get? 640 320 ∧
      (run Surface.host files 7 ["r.ch8", "-n", "1"] [[.keyDown 120], [.keyUp 120], [.quit]]).Showed Surface.get? 1
        [(Fault.underflow 0x202).message ++ "\n" ++ before.step.machine.dump] (windowFor s)
        (m.framePictures 1 [[.keyDown 120]]) := by
  intro files o s m before
  let t : Table := [("rom", .text "r.ch8"), ("cycles_per_frame", .int 1), ("scale", .int 10),
    ("color", .table [("back", .list [.int 0, .int 0, .int 0]), ("front", .list [.int 255, .int 255, .int 255])])]
  have hargs : CommandLine.parse ["r.ch8", "-n", "1"] = .ok o := rfl
  have hsettings : (Settings.build files o).result = .ok t := rfl
  have hs : Settings.ofTable? t = some s := rfl
  have hhost : Surface.host.Serves Surface.get? 640 320 := Surface.host_serves (by decide) (by decide)
  refine ⟨hargs, ⟨t, hsettings, hs⟩, hhost, ?_⟩
  obtain ⟨s', hs', -, -, hnamed⟩ :=
    run_outcome Surface.host Surface.get? files 7 [[.keyDown 120], [.keyUp 120], [.quit]] hargs hsettings
  obtain rfl := Option.some.inj (hs.symm.trans hs')
  obtain ⟨-, -, -, hplayed⟩ := hnamed "r.ch8" 7 rfl rfl
  have hfault := Machine.faultsBehind_bareReturn (Twister.seeded 7) [.keyDown 120] [.keyUp 120]
  have hlook : files.look "r.ch8" = .ok Machine.bareReturn.bytes := rfl
  have hpre : [[.keyDown 120]] ++ [[.keyUp 120]] <+: Machine.beforeQuit [[.keyDown 120], [.keyUp 120], [.quit]] := by
    decide
  exact ((hplayed (by decide) _ Machine.bareReturn.fits hlook hhost).faulted _ _ _ _ hpre hfault).2

/-- a name with a NUL in a file of settings ends a run with no status -/
theorem not_exited_of_nul :
    let files : Files := .ofList [("config.toml", "rom=\"g\\u0000\"".toUTF8.data)]
    CommandLine.parse [] = .ok {} ∧ (∃ t, (Settings.build files {}).result = .ok t) ∧
      ∀ code, (run Surface.host files 7 [] [[]]).ending ≠ .exited code := by
  intro files
  let t : Table := [("rom", .text "g\x00")]
  have hread : Toml.read "rom=\"g\\u0000\"" = .ok t := by
    simp only [Toml.read, String.reduceToList]
    rfl
  let s : Settings := ⟨some "g\x00", 10, 10, ⟨0, 0, 0⟩, ⟨255, 255, 255⟩⟩
  have hfile : Settings.readFile files "config.toml" = .ok t := Settings.readFile_of_text rfl hread
  have hload : (Settings.load files (some "config.toml")).result = .ok (Settings.withDefaults t) :=
    Settings.load_some hfile
  have hsettings : (Settings.build files {}).result = .ok (Settings.withDefaults t) := by
    have hfor : Settings.loadFor files {} = Settings.load files (some "config.toml") := rfl
    simp only [Settings.build, hfor, hload]
    rfl
  have hs : Settings.ofTable? (Settings.withDefaults t) = some s := rfl
  have hargs : CommandLine.parse [] = .ok {} := rfl
  refine ⟨hargs, ⟨_, hsettings⟩, fun code => ?_⟩
  obtain ⟨r, -, hrun⟩ := run_eq_start Surface.host 7 [[]] hargs hsettings hs
  rw [hrun, start, sourceFor_eq]
  show (playFile Surface.host files "g\x00" _ s [[]] r).ending ≠ _
  rw [playFile_of_error (Files.read_of_nul (by decide))]
  simp [crash, OpenError.isOfHost]

end Emulator

end ChipEight
