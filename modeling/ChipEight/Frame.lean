/-
Frames. One frame is a number of instructions, one tick of the timers and one picture; it also tells when the sound
starts or stops. A play is a sequence of frames, each after a batch of events, up to the first batch that asks to
quit or the first fault. The batch that quits still reaches the keypad, but starts no frame; a frame that faults
neither ticks nor draws.
-/
import ChipEight.Event
import ChipEight.Machine.Step
import ChipEight.Window

namespace ChipEight

/-- the frames of a second; the host's clock is told of it after each frame -/
def framesPerSecond : Nat := 60

/-- what one frame leaves: no picture and the old sound state if it faulted -/
structure FrameOutcome (σ : Type) where
  machine : Machine σ
  notices : Array Notice
  playing : Bool
  picture? : Option Picture
  fault : Option Fault

namespace Machine

variable {σ : Type} [RandomSource σ]

/-- the sound state behind a frame: the one before it, turned over if the machine says otherwise -/
def soundAfter (was is : Bool) : Bool := if is != was then !was else was

/-- what a turn of the sound state is reported as -/
def soundNotices (was is : Bool) : Array Notice :=
  if is != was then #[if !was then .soundStarted else .soundStopped] else #[]

/-- run one frame of so many instructions (none if negative); `playing` is the sound state before it -/
def frame (m : Machine σ) (cycles : Int) (playing : Bool) : FrameOutcome σ :=
  let o := m.run cycles.toNat
  match o.fault with
  | some f => ⟨o.machine, o.notices, playing, none, some f⟩
  | none =>
    let m := o.machine.tick
    ⟨m, o.notices ++ soundNotices playing m.sounding, soundAfter playing m.sounding, some m.picture, none⟩

end Machine

/-- what a play leaves: how many batches of events it asked for, pictures and clock calls in order -/
structure Played (σ : Type) where
  machine : Machine σ
  polled : Nat := 0
  notices : Array Notice := #[]
  pictures : Array Picture := #[]
  ticks : Array Nat := #[]
  playing : Bool := false
  fault : Option Fault := none

namespace Played

variable {σ : Type} [RandomSource σ]

/-- take in the next batch of events -/
def poll (p : Played σ) (batch : List Event) : Played σ :=
  { p with machine := p.machine.applyEvents batch, polled := p.polled + 1 }

/-- add one frame to a play; its clock call comes only after a frame without fault -/
def add (p : Played σ) (f : FrameOutcome σ) : Played σ where
  machine := f.machine
  polled := p.polled
  notices := p.notices ++ f.notices
  pictures := p.pictures ++ f.picture?.toArray
  ticks := if f.fault.isSome then p.ticks else p.ticks.push framesPerSecond
  playing := f.playing
  fault := f.fault

/-- play on through batches of events; when they are used up, the host quits -/
def through (cycles : Int) : List (List Event) → Played σ → Played σ
  | [], p => p.poll [.quit]
  | batch :: rest, p =>
    let p := p.poll batch
    if asksToQuit batch then p
    else
      let p := p.add (p.machine.frame cycles p.playing)
      if p.fault.isSome then p else through cycles rest p

end Played

/-- play a machine through batches of events, from silence -/
def Machine.play {σ : Type} [RandomSource σ] (m : Machine σ) (cycles : Int) (batches : List (List Event)) :
    Played σ :=
  Played.through cycles batches { machine := m }

end ChipEight
