/-
The Mersenne Twister with 32-bit words and 624 words of state, seeded from an integer of any size: the key is the
absolute value cut into 32-bit words, lowest first. A byte is the top nine bits of the next output, drawn again
while they make 256 or more.
-/
import ChipEight.Random.Source

namespace ChipEight

/-- the 624 words and the position of the next one to hand out -/
structure Twister where
  words : Vector UInt32 624
  next : Nat
  deriving DecidableEq

namespace Twister

/-- the word at a position, counted around the end -/
def word (ws : Vector UInt32 624) (i : Nat) : UInt32 := ws[i % 624]

def setWord (ws : Vector UInt32 624) (i : Nat) (x : UInt32) : Vector UInt32 624 := ws.set (i % 624) x

/-- a word mixed with its own two top bits -/
def spread (x : UInt32) : UInt32 := x ^^^ (x >>> 30)

/-- fill the state from one word -/
def fromWord (seed : UInt32) : Vector UInt32 624 :=
  (List.range 623).foldl
    (fun ws i => setWord ws (i + 1) (1812433253 * spread (word ws i) + UInt32.ofNat (i + 1)))
    (setWord (Vector.replicate 624 0) 0 seed)

/-- the position after `i`; past the end the last word is copied to the front and the walk goes on at one -/
def walk (ws : Vector UInt32 624) (i : Nat) : Vector UInt32 624 × Nat :=
  if i + 1 < 624 then (ws, i + 1) else (setWord ws 0 (word ws 623), 1)

/-- first pass: stir the key in -/
def stirKey (key : Array UInt32) (s : Vector UInt32 624 × Nat) (k : Nat) : Vector UInt32 624 × Nat :=
  let (ws, i) := s
  let j := k % key.size
  let x := (word ws i ^^^ (spread (word ws (i - 1)) * 1664525)) + key.getD j 0 + UInt32.ofNat j
  walk (setWord ws i x) i

/-- second pass: stir the positions in -/
def stirPlace (s : Vector UInt32 624 × Nat) (_ : Nat) : Vector UInt32 624 × Nat :=
  let (ws, i) := s
  let x := (word ws i ^^^ (spread (word ws (i - 1)) * 1566083941)) - UInt32.ofNat i
  walk (setWord ws i x) i

/-- the state that a key of at least one word seeds -/
def fromKey (key : Array UInt32) : Twister :=
  let s := (List.range (max 624 key.size)).foldl (stirKey key) (fromWord 19650218, 1)
  let s := (List.range 623).foldl stirPlace s
  ⟨setWord s.1 0 0x80000000, 624⟩

/-- a number cut into 32-bit words, lowest first; zero is one word -/
def keyOf (n : Nat) : List UInt32 :=
  if n < 0x100000000 then [UInt32.ofNat n] else UInt32.ofNat (n % 0x100000000) :: keyOf (n / 0x100000000)
termination_by n
decreasing_by omega

/-- seed from an integer; its sign does not matter -/
def seeded (seed : Int) : Twister := fromKey (keyOf seed.natAbs).toArray

/-- make the next word from two neighbours and a word further on -/
def twist (ws : Vector UInt32 624) (i : Nat) : Vector UInt32 624 :=
  let y := (word ws i &&& 0x80000000) ||| (word ws (i + 1) &&& 0x7fffffff)
  setWord ws i (word ws (i + 397) ^^^ (y >>> 1) ^^^ (if y % 2 = 1 then 0x9908b0df else 0))

/-- even out the bits of a word before it is handed out -/
def temper (y : UInt32) : UInt32 :=
  let y := y ^^^ (y >>> 11)
  let y := y ^^^ ((y <<< 7) &&& 0x9d2c5680)
  let y := y ^^^ ((y <<< 15) &&& 0xefc60000)
  y ^^^ (y >>> 18)

/-- the next 32-bit output -/
def output (t : Twister) : UInt32 × Twister :=
  if t.next < 624 then (temper (word t.words t.next), { t with next := t.next + 1 })
  else
    let ws := (List.range 624).foldl twist t.words
    (temper (word ws 0), ⟨ws, 1⟩)

instance : Nonempty Twister := ⟨fromKey #[0]⟩

/-- one try at a byte: the top nine bits of an output, refused when they make 256 or more -/
def attempt (t : Twister) : Twister ⊕ (Nat × Twister) :=
  let n := (t.output.1 >>> 23).toNat
  if n < 256 then .inr (n, t.output.2) else .inl t.output.2

/-- the next byte: tries are made until one is not refused, without a bound on their number -/
def byte (t : Twister) : Nat × Twister := Id.run (repeatM attempt t)

/-- the loop is its body: a refused try is followed by the next byte of the state behind it -/
theorem byte_eq (t : Twister) : t.byte = (attempt t).elim byte id := by
  unfold byte
  rw [repeatM_eq_of_monadTail]
  cases h : attempt t <;> simp only [repeatM.body, h] <;> rfl

end Twister

instance : RandomSource Twister where
  draw t := let (b, t) := t.byte; (b, t)

end ChipEight
