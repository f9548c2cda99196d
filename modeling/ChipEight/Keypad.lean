/-
The hexadecimal keypad: sixteen keys `0` to `F`, each up or down. There is no queue of presses; the last state
written for a key is the one that is read back, and of several keys down the lowest is reported.
-/
import ChipEight.Nibble

namespace ChipEight

/-- one of the sixteen keys -/
abbrev Key := Nibble

/-- a number that names no key -/
structure NoSuchKey where
  index : Int
  deriving DecidableEq, Repr

def NoSuchKey.message (e : NoSuchKey) : String :=
  "Key index out of range: " ++ toString e.index

/-- the key that a number names; a negative number names none -/
def Key.ofInt (index : Int) : Except NoSuchKey Key :=
  if h : 0 ≤ index ∧ index < 16 then .ok ⟨index.toNat, by omega⟩ else .error ⟨index⟩

theorem Key.ofInt_of_key (k : Key) : Key.ofInt (k : Nat) = .ok k := by
  have hk : (0 : Int) ≤ (k : Nat) ∧ ((k : Nat) : Int) < 16 := by omega
  rw [Key.ofInt, dif_pos hk]
  rfl

theorem Key.ofInt_of_not {index : Int} (h : ¬(0 ≤ index ∧ index < 16)) : Key.ofInt index = .error ⟨index⟩ := by
  rw [Key.ofInt, dif_neg h]

/-- which keys are down -/
structure Keypad where
  down : Vector Bool 16
  deriving DecidableEq

namespace Keypad

/-- every key is up -/
def released : Keypad := ⟨Vector.replicate 16 false⟩

/-- is this key down -/
def holds (p : Keypad) (k : Key) : Bool := p.down[k]

/-- write the state of one key -/
def put (p : Keypad) (k : Key) (down : Bool) : Keypad := ⟨p.down.set k down⟩

theorem holds_put (p : Keypad) (j k : Key) (down : Bool) :
    (p.put j down).holds k = if k = j then down else p.holds k := by
  by_cases h : k = j
  · subst h
    simp [holds, put]
  · have hne : (j : Nat) ≠ k := fun he => h (Fin.ext he.symm)
    simp [holds, put, h, hne]

/-- write the state of the key with this number -/
def set (p : Keypad) (index : Int) (down : Bool) : Except NoSuchKey Keypad :=
  (Key.ofInt index).map fun k => p.put k down

/-- read the state of the key with this number -/
def isDown (p : Keypad) (index : Int) : Except NoSuchKey Bool :=
  (Key.ofInt index).map p.holds

/-- the keys that are down, lowest first -/
def pressed (p : Keypad) : List Key := (List.finRange 16).filter p.holds

/-- the lowest key that is down -/
def lowest? (p : Keypad) : Option Key := (List.finRange 16).find? p.holds

end Keypad

end ChipEight
