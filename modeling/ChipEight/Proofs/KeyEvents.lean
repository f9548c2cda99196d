/-
Events and the keypad. A host goes through a batch of events one by one, writes keys by their numbers and remembers
whether it has been asked to quit. The numbers always name a key, and a request to quit is no reason to stop, so that a
host comes to the end of every batch with all events of it taken in (`handle_eq`). A key has then the state that the
last event about it wrote, or its old one if no event is about it, and nothing else of the machine has changed
(`events_last_write`).
-/
import ChipEight.Proofs.Plays

namespace ChipEight

variable {σ : Type}

namespace Event

/-! ## Keys and codes -/

/-- the code of the keyboard key that stands for a key -/
def codeOf (k : Key) : ℤ := (layout.get k).toNat

theorem codeOf_inj {k k' : Key} : codeOf k = codeOf k' ↔ k = k' := by
  revert k k'
  decide

/-- one code stands for each key, and no other code does -/
theorem keyOf?_eq_some_iff {code : ℤ} {k : Key} : keyOf? code = some k ↔ code = codeOf k := by
  have hlayout (k : Key) : (layout[k]?.map fun c => (c.toNat : ℤ)) = some (codeOf k) := by
    revert k
    decide
  simp only [keyOf?, hlayout]
  rw [← Fin.find?_eq_find?_finRange, Fin.find?_eq_some_iff]
  simp only [beq_iff_eq, Option.some.injEq, beq_eq_false_iff_ne, ne_eq]
  constructor
  · exact fun h => h.1.symm
  · rintro rfl
    exact ⟨rfl, fun j hj he => hj.ne (codeOf_inj.1 he)⟩

/-- the state that an event writes to a key, if it is about that key -/
def stateOf? (k : Key) : Event → Option Bool
  | keyDown code => if keyOf? code = some k then some true else none
  | keyUp code => if keyOf? code = some k then some false else none
  | _ => none

/-- the state that the last event of a batch about a key writes to it, if any event is about it -/
def lastStateOf? (k : Key) (batch : List Event) : Option Bool := batch.reverse.findSome? (stateOf? k)

theorem lastStateOf?_cons (k : Key) (e : Event) (batch : List Event) :
    lastStateOf? k (e :: batch) = (lastStateOf? k batch).or (e.stateOf? k) := by
  simp [lastStateOf?]

/-- is the event about no key at all -/
def Idle (e : Event) : Prop :=
  e = quit ∨ e = other ∨ ∃ code, keyOf? code = none ∧ (e = keyDown code ∨ e = keyUp code)

end Event

open Event

namespace Machine

/-! ## One event -/

theorem applyEvent_holds (m : Machine σ) (e : Event) (k : Key) :
    (m.applyEvent e).keypad.holds k = (e.stateOf? k).getD (m.keypad.holds k) := by
  cases e with
  | quit | other => rfl
  | keyDown code | keyUp code =>
    cases hk : keyOf? code with
    | none => simp [applyEvent, writes?, stateOf?, hk]
    | some j =>
      by_cases hj : k = j
      · simp [applyEvent, writes?, stateOf?, hk, hj, Keypad.holds_put]
      · simp [applyEvent, writes?, stateOf?, hk, hj, Ne.symm hj, Keypad.holds_put]

theorem applyEvent_of_idle (m : Machine σ) {e : Event} (he : e.Idle) : m.applyEvent e = m := by
  rcases he with rfl | rfl | ⟨code, hk, rfl | rfl⟩
  · rfl
  · rfl
  · simp [applyEvent, writes?, hk]
  · simp [applyEvent, writes?, hk]

/-! ## Batches -/

theorem setKey_of_lt (m : Machine σ) (k : Key) (down : Bool) :
    m.setKey (k : ℕ) down = .ok { m with keypad := m.keypad.put k down } := by
  simp only [setKey, Keypad.set, Key.ofInt_of_key]
  rfl

theorem heed_eq (m : Machine σ) (going : Bool) (e : Event) :
    heed (m, going) e = .ok (m.applyEvent e, going && !e.quits) := by
  unfold heed applyEvent
  cases e.writes? with
  | none => rfl
  | some w =>
    obtain ⟨k, down⟩ := w
    simp only [setKey_of_lt]
    rfl

/-- by induction on the events, with what has been remembered before them -/
theorem handle_eq (m : Machine σ) (batch : List Event) :
    m.handle batch = .ok (m.applyEvents batch, !asksToQuit batch) := by
  have hall : ∀ (m : Machine σ) (going : Bool),
      batch.foldlM heed (m, going) = .ok (m.applyEvents batch, going && !asksToQuit batch) := by
    induction batch with
    | nil => simp [applyEvents, asksToQuit, pure, Except.pure]
    | cons e batch ih =>
      intro m going
      rw [List.foldlM_cons, heed_eq]
      refine (ih (m.applyEvent e) _).trans ?_
      simp [applyEvents, asksToQuit, Bool.and_assoc]
  exact (hall m true).trans (by rw [Bool.true_and])

theorem applyEvents_cons (m : Machine σ) (e : Event) (batch : List Event) :
    m.applyEvents (e :: batch) = (m.applyEvent e).applyEvents batch := rfl

theorem applyEvents_append (m : Machine σ) (batch batch' : List Event) :
    m.applyEvents (batch ++ batch') = (m.applyEvents batch).applyEvents batch' :=
  List.foldl_append

theorem applyEvents_holds (m : Machine σ) (batch : List Event) (k : Key) :
    (m.applyEvents batch).keypad.holds k = (lastStateOf? k batch).getD (m.keypad.holds k) := by
  induction batch generalizing m with
  | nil => rfl
  | cons e batch ih =>
    rw [applyEvents_cons, ih, applyEvent_holds, lastStateOf?_cons]
    cases lastStateOf? k batch <;> rfl

/-! ## Main result -/

/-- what a batch of events makes of a machine, and whether a host goes on behind it -/
structure Heeds (m : Machine σ) (batch : List Event) (n : Machine σ) (going : Bool) : Prop where
  /-- a request to quit counts wherever it comes -/
  quits : going = false ↔ .quit ∈ batch ∨ .keyDown 27 ∈ batch
  /-- the last event about a key gives it its state -/
  keys : ∀ k, n.keypad.holds k = (lastStateOf? k batch).getD (m.keypad.holds k)
  rest : n = { m with keypad := n.keypad }
  /-- events about no key might as well not be there -/
  idle : ∀ before e behind, batch = before ++ e :: behind → e.Idle → n = m.applyEvents (before ++ behind)

theorem heeds_applyEvents (m : Machine σ) (batch : List Event) :
    Heeds m batch (m.applyEvents batch) (!asksToQuit batch) where
  quits := by
    rw [Bool.not_eq_false']
    exact asksToQuit_iff
  keys := m.applyEvents_holds batch
  rest := by
    obtain ⟨p, hp⟩ := m.applyEvents_eq batch
    rw [hp]
  idle before e behind hbatch he := by
    rw [hbatch, applyEvents_append, applyEvents_cons, applyEvent_of_idle _ he, applyEvents_append]

/-- **The last event about a key gives it its state.** A host never fails on a batch of events, whatever they are. It is
asked to quit exactly if some event of the batch is a request to, and whether it is or not, each key has behind the
batch the state that the last event about it wrote, or its old one if there is none; nothing else of the machine
changes. Each key has one code of its own, and no other code stands for it. -/
theorem events_last_write (m : Machine σ) (batch : List Event) :
    (∃ n going, m.handle batch = .ok (n, going) ∧ Heeds m batch n going ∧ n = m.applyEvents batch ∧
      going = !asksToQuit batch) ∧
    ∀ code k, keyOf? code = some k ↔ code = codeOf k :=
  ⟨⟨_, _, m.handle_eq batch, m.heeds_applyEvents batch, rfl, rfl⟩, fun _ _ => keyOf?_eq_some_iff⟩

end Machine

end ChipEight
