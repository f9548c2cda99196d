/-
What a play tells of the sound. Behind each frame the sound state of the play is turned over if the machine says
otherwise, and each turn is one line of the log, while the instructions themselves have no such lines (`frame_sound`).
So by induction on the frames the state is always what the machine says, and the lines up to any frame are its changes
from silence on (`Goes.heard`). They take turns, the first of them tells of a start, and there is an odd number of
them exactly while there is a sound (`turns_alternate`); a frame that faults adds none (`sound_transitions`).
-/
import ChipEight.Proofs.Logs
import ChipEight.Proofs.Timers

namespace ChipEight

variable {σ : Type}

/-! ## Lines about the sound -/

/-- the lines about the sound among those of notices, oldest first -/
def soundLines (notices : Array Notice) : List String :=
  (notices.toList.map Notice.text).filter fun line => line = "Sound started" ∨ line = "Sound stopped"

/-- the line about a turn of the sound, if there is one -/
def turn (was is : Bool) : List String :=
  if is = was then [] else [if is then "Sound started" else "Sound stopped"]

/-- the lines about the first `n` turns of a sound -/
def turns (on : ℕ → Bool) (n : ℕ) : List String := (List.range n).flatMap fun f => turn (on f) (on (f + 1))

/-- so many lines that tell of a start and of a stop by turns -/
def alternation (k : ℕ) : List String :=
  (List.range k).map fun i => if i % 2 = 0 then "Sound started" else "Sound stopped"

theorem turns_succ (on : ℕ → Bool) (n : ℕ) : turns on (n + 1) = turns on n ++ turn (on n) (on (n + 1)) := by
  simp [turns, List.range_succ, List.flatMap_append]

theorem alternation_succ (k : ℕ) :
    alternation (k + 1) = alternation k ++ [if k % 2 = 0 then "Sound started" else "Sound stopped"] := by
  rw [alternation, List.range_succ, List.map_append, List.map_singleton, alternation]

/-- by induction on the turns: the next one is a start exactly if an even number of lines has come before it -/
theorem turns_alternate {on : ℕ → Bool} (hsilent : on 0 = false) (n : ℕ) :
    turns on n = alternation (turns on n).length ∧ ((turns on n).length % 2 = 1 ↔ on n = true) := by
  induction n with
  | zero => simp [turns, alternation, hsilent]
  | succ n ih =>
    obtain ⟨hlines, hodd⟩ := ih
    rw [turns_succ]
    by_cases hsame : on (n + 1) = on n
    · rw [turn, if_pos hsame, List.append_nil, hsame]
      exact ⟨hlines, hodd⟩
    · have hother : on (n + 1) = !on n := Bool.eq_not_of_ne hsame
      rw [turn, if_neg hsame, List.length_append, List.length_singleton, alternation_succ, ← hlines, hother]
      by_cases hon : on n = true
      · have hcount : (turns on n).length % 2 = 1 := hodd.2 hon
        have hnext : ¬((turns on n).length + 1) % 2 = 1 := by omega
        simp [hon, hcount, hnext]
      · have hcount : (turns on n).length % 2 = 0 := by
          have hne : ¬(turns on n).length % 2 = 1 := fun h => hon (hodd.1 h)
          omega
        have hnext : ((turns on n).length + 1) % 2 = 1 := by omega
        simp [hon, hcount, hnext]

theorem soundLines_append (a b : Array Notice) : soundLines (a ++ b) = soundLines a ++ soundLines b := by
  simp [soundLines]

theorem soundLines_soundNotices (was is : Bool) : soundLines (Machine.soundNotices was is) = turn was is := by
  cases was <;> cases is <;> decide

/-- no line of the machine's own begins like one about the sound -/
theorem Notice.head?_text_of_isOwn {n : Notice} (h : n.isOwn = true) : n.text.toList.head? ≠ some 'S' := by
  cases n with
  | unknownOpcode w =>
    change ("Ignoring unknown op-code: " ++ _ : String).toList.head? ≠ _
    simp only [String.toList_append]
    simp
  | keyTaken k a =>
    change ("Key " ++ _ ++ _ ++ _ ++ _ : String).toList.head? ≠ _
    simp only [String.toList_append]
    simp
  | romRead size name =>
    change ("Loaded " ++ _ ++ _ ++ _ : String).toList.head? ≠ _
    simp only [String.toList_append]
    simp
  | soundStarted | soundStopped | settingsRead name => nomatch h

theorem soundLines_of_isOwn {notices : Array Notice} (h : ∀ n ∈ notices.toList, n.isOwn = true) :
    soundLines notices = [] := by
  rw [soundLines, List.filter_eq_nil_iff]
  intro line hline
  obtain ⟨n, hn, rfl⟩ := List.mem_map.1 hline
  have hhead := Notice.head?_text_of_isOwn (h n hn)
  rw [decide_eq_true_eq]
  rintro (he | he)
  · exact hhead (he ▸ rfl)
  · exact hhead (he ▸ rfl)

/-- how many frames of a play have come to their end; each of them has shown its picture -/
def Played.frames (p : Played σ) : ℕ := p.pictures.size

namespace Machine

variable [RandomSource σ] {cycles : ℤ}

/-! ## One frame -/

theorem execute_notices_isOwn (m : Machine σ) (w : ℕ) : ∀ n ∈ (m.execute w).notices.toList, n.isOwn = true := by
  by_cases hknown : Opcode.Known w
  · by_cases hwait : Opcode.family w = 0xF ∧ w % 256 = 0x0A
    · rw [execute_notices_of_wait hwait.1 hwait.2]
      cases m.keypad.lowest? with
      | none => simp
      | some k => simp [Notice.isOwn]
    · rw [execute_notices_of_other hknown hwait]
      simp
  · rw [execute_notices_of_unknown hknown]
    simp [Notice.isOwn]

theorem run_notices_isOwn (m : Machine σ) (k : ℕ) : ∀ n ∈ (m.run k).notices.toList, n.isOwn = true := by
  intro n hn
  have hrun : (m.run k).notices.toList = _ := steps_notices (o := { machine := m }) rfl k
  rw [hrun] at hn
  obtain ⟨d, hd, hn⟩ := List.mem_flatMap.1 hn
  rcases work_of_mem_frameDeeds hd with hwork | hwork
  · rw [hwork] at hn
    exact execute_notices_isOwn _ _ n hn
  · rw [hwork] at hn
    nomatch hn

/-- a frame tells of a turn of the sound, if it comes to its end -/
theorem frame_sound (m : Machine σ) (cycles : ℤ) (playing : Bool) :
    ((m.frame cycles playing).fault = none →
      (m.frame cycles playing).playing = (m.frame cycles playing).machine.sounding ∧
        soundLines (m.frame cycles playing).notices = turn playing (m.frame cycles playing).playing) ∧
    ((m.frame cycles playing).fault ≠ none →
      (m.frame cycles playing).playing = playing ∧ soundLines (m.frame cycles playing).notices = []) := by
  have hown : soundLines (m.run cycles.toNat).notices = [] := soundLines_of_isOwn (m.run_notices_isOwn cycles.toNat)
  cases hf : (m.run cycles.toNat).fault with
  | none =>
    have hafter (was is : Bool) : soundAfter was is = is := by
      cases was <;> cases is <;> rfl
    simp only [frame, hf, hafter, soundLines_append, soundLines_soundNotices, hown]
    simp
  | some f =>
    rw [frame_of_fault hf]
    exact ⟨fun h => (Option.some_ne_none f h).elim, fun _ => ⟨rfl, hown⟩⟩

theorem frame_picture?_of_fault {m : Machine σ} {playing : Bool} {f : Fault}
    (h : (m.frame cycles playing).fault = some f) : (m.frame cycles playing).picture? = none := by
  cases hf : (m.run cycles.toNat).fault with
  | none => simp [frame, hf] at h
  | some f' => rw [frame_of_fault hf]

/-! ## Frame after frame -/

/-- a play as it stands behind one frame for each of these batches -/
def playOn (m : Machine σ) (cycles : ℤ) (batches : List (List Event)) : Played σ :=
  batches.foldl (Played.next cycles) { machine := m }

/-- is there a sound at the end of frame `f`, that is, does the sound timer run behind its tick; before the first frame
there is none -/
def soundAt (m : Machine σ) (cycles : ℤ) (batches : List (List Event)) : ℕ → Bool
  | 0 => false
  | f + 1 => 0 < (m.afterFrames cycles (batches.take (f + 1))).sound.toNat

/-- what a play has told of the sound by the end of frame `f`: each turn of it, in order -/
structure Heard (m : Machine σ) (cycles : ℤ) (batches : List (List Event)) (f : ℕ) (p : Played σ) : Prop where
  playing : p.playing = m.soundAt cycles batches f
  lines : soundLines p.notices = turns (m.soundAt cycles batches) f

/-- the first `n` batches are gone through, each with a frame that no step faults in -/
structure Goes (m : Machine σ) (cycles : ℤ) (batches : List (List Event)) (n : ℕ) : Prop where
  length : n ≤ batches.length
  quits : ∀ b ∈ batches.take n, asksToQuit b = false
  free : m.FramesFree cycles (batches.take n)

variable {m : Machine σ} {batches : List (List Event)} {f n : ℕ}

theorem Goes.of_le (h : m.Goes cycles batches n) (hf : f ≤ n) : m.Goes cycles batches f where
  length := hf.trans h.length
  quits b hb := h.quits b (List.take_subset_take_left batches hf hb)
  free done batch hdone := h.free done batch (hdone.trans (List.take_prefix_take_left hf))

theorem Goes.follows (h : m.Goes cycles batches n) :
    Played.Follows cycles (batches.take n) { machine := m } (m.playOn cycles (batches.take n)) :=
  (Played.through_of_free (p := { machine := m }) h.quits rfl h.free []).2

theorem Goes.frames (h : m.Goes cycles batches n) : (m.playOn cycles (batches.take n)).frames = n := by
  rw [Played.frames, ← Array.length_toList, h.follows.pictures, framePictures, List.length_append, List.length_map,
    List.length_range, List.length_take_of_le h.length]
  exact Nat.zero_add n

theorem Goes.through (h : m.Goes cycles batches n) :
    m.play cycles batches = Played.through cycles (batches.drop n) (m.playOn cycles (batches.take n)) := by
  have hthrough := (Played.through_of_free (p := { machine := m }) h.quits rfl h.free (batches.drop n)).1
  rwa [List.take_append_drop] at hthrough

theorem Goes.free_last {n : ℕ} (h : m.Goes cycles batches (n + 1)) :
    ∃ batch, batches.take (n + 1) = batches.take n ++ [batch] ∧
      ((m.afterFrames cycles (batches.take n)).applyEvents batch).StepsFree cycles.toNat := by
  have hlt : n < batches.length := h.length
  have htake : batches.take (n + 1) = batches.take n ++ [batches[n]] := List.take_succ_eq_append_getElem hlt
  refine ⟨batches[n], htake, h.free (batches.take n) batches[n] ?_⟩
  rw [htake]

theorem sounding_eq_soundAt (m : Machine σ) (cycles : ℤ) (batches : List (List Event)) (n : ℕ) :
    (m.afterFrames cycles (batches.take (n + 1))).sounding = m.soundAt cycles batches (n + 1) :=
  Bool.eq_iff_iff.2 ((sounding_iff _).trans decide_eq_true_iff.symm)

/-- by induction on the frames -/
theorem Goes.heard (h : m.Goes cycles batches n) : Heard m cycles batches n (m.playOn cycles (batches.take n)) := by
  induction n with
  | zero => exact ⟨rfl, rfl⟩
  | succ n ih =>
    have hn := h.of_le n.le_succ
    obtain ⟨hplaying, hlines⟩ := ih hn
    obtain ⟨batch, htake, hfree⟩ := h.free_last
    have hlast := h.follows.machine
    have hnext : m.playOn cycles (batches.take (n + 1)) = (m.playOn cycles (batches.take n)).next cycles batch := by
      rw [htake, playOn, List.foldl_concat]
      rfl
    rw [← hn.follows.machine] at hfree
    obtain ⟨-, -, hnone⟩ := frame_of_free hfree (m.playOn cycles (batches.take n)).playing
    obtain ⟨hstate, hturn⟩ := (frame_sound _ cycles (m.playOn cycles (batches.take n)).playing).1 hnone
    rw [hnext] at hlast ⊢
    have hon : ((m.playOn cycles (batches.take n)).next cycles batch).playing = m.soundAt cycles batches (n + 1) := by
      rw [← sounding_eq_soundAt, ← hlast]
      exact hstate
    refine ⟨hon, ?_⟩
    rw [turns_succ, ← hlines, ← hplaying, ← hon]
    exact (soundLines_append _ _).trans (congrArg _ hturn)

/-- frames that no step faults in, up to the first batch that asks to quit -/
theorem goes_of_prefix {done : List (List Event)} (hdone : done <+: beforeQuit batches)
    (hfree : m.FramesFree cycles done) : m.Goes cycles batches done.length ∧ batches.take done.length = done := by
  have hpre : done <+: batches := hdone.trans (List.takeWhile_prefix _)
  have htake : batches.take done.length = done := (List.prefix_iff_eq_take.1 hpre).symm
  refine ⟨⟨hpre.length_le, ?_, ?_⟩, htake⟩
  · intro b hb
    rw [htake] at hb
    exact not_asksToQuit_of_mem_beforeQuit b (hdone.subset hb)
  · rwa [htake]

/-- a play stops behind some frames: with a batch that asks to quit, or in a frame that faults -/
theorem exists_goes (m : Machine σ) (cycles : ℤ) (batches : List (List Event)) :
    ∃ n, m.Goes cycles batches n ∧
      ((∃ last, m.play cycles batches = (m.playOn cycles (batches.take n)).poll last) ∨
        ∃ batch f, m.play cycles batches = (m.playOn cycles (batches.take n)).next cycles batch ∧
          ((m.playOn cycles (batches.take n)).next cycles batch).fault = some f) := by
  rcases framesFree_or_fault m cycles (beforeQuit batches) with hfree | ⟨done, batch, before, f, hpre, hf⟩
  · obtain ⟨hgo, htake⟩ := goes_of_prefix List.prefix_rfl hfree
    obtain ⟨last, rest, hlast, heq⟩ := exists_quit_behind batches
    refine ⟨_, hgo, Or.inl ⟨last, ?_⟩⟩
    have hplay : m.play cycles batches = m.play cycles (beforeQuit batches ++ last :: rest) := by
      rw [← heq]
      exact (through_append_quit cycles batches _).symm
    obtain ⟨hthrough, -⟩ := Played.through_of_free (p := { machine := m }) not_asksToQuit_of_mem_beforeQuit rfl hfree
      (last :: rest)
    rw [hplay, htake]
    exact hthrough.trans (Played.through_of_quit cycles hlast rest _)
  · obtain ⟨hgo, htake⟩ := goes_of_prefix ((List.prefix_append done [batch]).trans hpre) hf.frames
    obtain ⟨k, hk, hfree, rfl⟩ := hf.steps
    have hmachine := hgo.follows.machine
    rw [htake] at hmachine
    have hfault : ((m.playOn cycles done).next cycles batch).fault = some f := by
      rw [← hmachine] at hfree hf
      exact (frame_of_free_of_fault hk hfree hf.fault _).2.2
    obtain ⟨more, hmore⟩ := hpre.trans (List.takeWhile_prefix _)
    have hdrop : batches.drop done.length = batch :: more := by
      rw [← hmore]
      simp
    have hbatch : asksToQuit batch = false :=
      not_asksToQuit_of_mem_beforeQuit batch (hpre.subset (List.mem_append_right done (List.mem_singleton_self batch)))
    refine ⟨done.length, hgo, Or.inr ⟨batch, f, ?_, by rwa [htake]⟩⟩
    rw [hgo.through, hdrop, htake]
    exact Played.through_of_fault hbatch hfault more

/-- what a play does behind its last frame that comes to an end tells nothing more of the sound -/
theorem exists_goes_heard (m : Machine σ) (cycles : ℤ) (batches : List (List Event)) :
    ∃ n, m.Goes cycles batches n ∧ (m.play cycles batches).frames = n ∧
      Heard m cycles batches n (m.play cycles batches) := by
  obtain ⟨n, hgo, hend⟩ := exists_goes m cycles batches
  obtain ⟨hplaying, hlines⟩ := hgo.heard
  refine ⟨n, hgo, ?_⟩
  rcases hend with ⟨last, hp⟩ | ⟨batch, f, hp, hf⟩
  · rw [hp]
    exact ⟨hgo.frames, hplaying, hlines⟩
  · obtain ⟨hstate, hnone⟩ := (frame_sound _ cycles (m.playOn cycles (batches.take n)).playing).2
      (Option.ne_none_iff_exists'.2 ⟨f, hf⟩)
    have hpicture := frame_picture?_of_fault hf
    rw [hp]
    refine ⟨?_, hstate.trans hplaying, ?_⟩
    · simp only [Played.frames, Played.next, Played.add]
      rw [hpicture]
      exact hgo.frames
    · rw [← hlines]
      exact (soundLines_append _ _).trans (by rw [hnone, List.append_nil]; rfl)

/-! ## Main result -/

/-- the play goes through frame `f`, and behind it stands as the frames up to it have left it -/
structure PassesThrough (m : Machine σ) (cycles : ℤ) (batches : List (List Event)) (f : ℕ) : Prop where
  play : m.play cycles batches = Played.through cycles (batches.drop f) (m.playOn cycles (batches.take f))
  frames : (m.playOn cycles (batches.take f)).frames = f
  machine : (m.playOn cycles (batches.take f)).machine = m.afterFrames cycles (batches.take f)
  heard : Heard m cycles batches f (m.playOn cycles (batches.take f))

theorem Goes.passesThrough (h : m.Goes cycles batches n) : m.PassesThrough cycles batches n :=
  ⟨h.through, h.frames, h.follows.machine, h.heard⟩

/-- **Each turn of the sound is told, once.** A play from any machine goes through its frames, and behind each of them
its sound state is whether the sound timer runs behind the tick of the frame; the lines about the sound are until then
the turns of this state from silence on, so that a frame adds the line of a start or of a stop if it starts or stops the
sound, and none if it does neither. A last frame that faults adds none. So the lines tell of a start and of a stop by
turns, and their number is odd exactly if there is a sound at the end of the last frame that has come to its end. -/
theorem sound_transitions (m : Machine σ) (cycles : ℤ) (batches : List (List Event)) :
    (∀ f ≤ (m.play cycles batches).frames, m.PassesThrough cycles batches f) ∧
      Heard m cycles batches (m.play cycles batches).frames (m.play cycles batches) ∧
      soundLines (m.play cycles batches).notices =
        alternation (soundLines (m.play cycles batches).notices).length ∧
      ((soundLines (m.play cycles batches).notices).length % 2 = 1 ↔
        m.soundAt cycles batches (m.play cycles batches).frames = true) := by
  obtain ⟨n, hgo, hframes, hheard⟩ := exists_goes_heard m cycles batches
  have hsilent : m.soundAt cycles batches 0 = false := rfl
  obtain ⟨hturns, hodd⟩ := turns_alternate hsilent n
  rw [hframes]
  refine ⟨fun f hf => (hgo.of_le hf).passesThrough, hheard, ?_, ?_⟩
  · rw [hheard.lines]
    exact hturns
  · rw [hheard.lines]
    exact hodd

/-- a program that sets the sound timer, and returns from nowhere then -/
def chime : Rom := ⟨#[0xF0, 0x18, 0x00, 0xEE], Nat.le_of_ble_eq_true rfl⟩

/-- the program in execution, with a two in each register -/
def chimeAt (pc opcode : ℕ) (sound : UInt8) (keypad : Keypad) : Machine Cycle :=
  { boot chime (Cycle.mk #[] 0) with v := Vector.replicate 16 2, pc, opcode, sound, keypad }

theorem fetch_chimeAt (pc opcode : ℕ) (sound : UInt8) (p : Keypad) :
    (chimeAt pc opcode sound p).fetch =
      (chime.byteAt (pc % 4096)).toNat * 256 + (chime.byteAt ((pc + 1) % 4096)).toNat :=
  fetch_of_image chime rfl

theorem step_chimeAt_set (p : Keypad) :
    (chimeAt 0x200 0 0 p).step = { machine := chimeAt 0x202 0xF018 2 p } := by
  have hw : (chimeAt 0x200 0 0 p).fetch = 0xF018 := (fetch_chimeAt ..).trans (by decide)
  rw [step, hw]
  rfl

theorem step_chimeAt_ret (sound : UInt8) (p : Keypad) :
    (chimeAt 0x202 0xF018 sound p).step.fault = some (.underflow 0x202) := by
  have hw : (chimeAt 0x202 0xF018 sound p).fetch = 0x00EE := (fetch_chimeAt ..).trans (by decide)
  rw [step, hw]
  rfl

theorem afterFrame_chimeAt (b : List Event) :
    ∃ p, (chimeAt 0x200 0 0 .released).afterFrame 1 b = chimeAt 0x202 0xF018 1 p := by
  obtain ⟨p, hp⟩ := applyEvents_eq (chimeAt 0x200 0 0 .released) b
  have hstep : ((chimeAt 0x200 0 0 .released).applyEvents b).step = { machine := chimeAt 0x202 0xF018 2 p } := by
    rw [hp]
    exact step_chimeAt_set p
  have hless : (if (2 : UInt8) = 0 then 0 else 2 - 1) = (1 : UInt8) := by decide
  refine ⟨p, ?_⟩
  rw [afterFrame, show (1 : ℤ).toNat = 0 + 1 from rfl, afterSteps_succ, hstep]
  exact congrArg (fun sound => chimeAt 0x202 0xF018 sound p) hless

theorem faultsBehind_chimeAt (b c : List Event) :
    FaultsBehind 1 (chimeAt 0x200 0 0 .released) [b] c
      (((chimeAt 0x200 0 0 .released).afterFrames 1 [b]).applyEvents c) (.underflow 0x202) := by
  refine ⟨?_, ⟨0, by decide, fun j hj => absurd hj (Nat.not_lt_zero j), rfl⟩, ?_⟩
  · refine framesFree_cons.2 ⟨stepsFree_succ.2 ⟨?_, fun j hj => absurd hj (Nat.not_lt_zero j)⟩, framesFree_nil⟩
    obtain ⟨p, hp⟩ := applyEvents_eq (chimeAt 0x200 0 0 .released) b
    rw [hp]
    exact congrArg Outcome.fault (step_chimeAt_set p)
  · obtain ⟨p, hp⟩ := afterFrame_chimeAt b
    obtain ⟨q, hq⟩ := applyEvents_eq (chimeAt 0x202 0xF018 1 p) c
    rw [afterFrames, List.foldl_cons, List.foldl_nil, hp, hq]
    exact step_chimeAt_ret 1 q

/-- the sound starts in the first frame, and is still on when the second one faults -/
theorem sound_transitions_of_chime :
    let m := chimeAt 0x200 0 0 .released
    let batches : List (List Event) := [[.keyDown 120], [.other], [.quit]]
    (m.play 1 batches).frames = 1 ∧ m.PassesThrough 1 batches 1 ∧
      soundLines (m.play 1 batches).notices = ["Sound started"] ∧ (m.play 1 batches).playing = true := by
  intro m batches
  have hgo : ∀ b ∈ ([[.keyDown 120], [.other]] : List (List Event)), asksToQuit b = false := by decide
  have hended : Played.Ended 1 m [[.keyDown 120]] _ _ (m.play 1 batches) :=
    play_of_fault hgo (List.prefix_refl _) (faultsBehind_chimeAt [.keyDown 120] [.other]) [[.quit]]
  have hframes : (m.play 1 batches).frames = 1 := by
    rw [Played.frames, ← Array.length_toList, hended.pictures, framePictures, List.length_map, List.length_range]
    rfl
  have hon : m.soundAt 1 batches 1 = true := by
    obtain ⟨p, hp⟩ := afterFrame_chimeAt [.keyDown 120]
    have hafter : m.afterFrames 1 (batches.take 1) = chimeAt 0x202 0xF018 1 p := hp
    rw [soundAt, hafter]
    rfl
  obtain ⟨hpasses, hheard, -, -⟩ := sound_transitions m 1 batches
  rw [hframes] at hpasses hheard
  refine ⟨hframes, hpasses 1 le_rfl, ?_, hheard.playing.trans hon⟩
  rw [hheard.lines, turns_succ, hon]
  rfl

end Machine

end ChipEight
