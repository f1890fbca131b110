import TruthTables.Random.Source

/-!
# The Mersenne twister — a random source with a seed

    The state is a block of 624 words.  A new block is computed from the old
    one by a linear recurrence, and each word is tempered before it is
    given out.  An integer of any size is a seed: its magnitude, cut into
    words, is stirred into a block that starts from a fixed one.
-/

namespace TruthTables

/-- A block of words, and how many of them have been given out. -/
structure Twister where
  words : Array UInt32
  given : Nat

namespace Twister

/-- The number of words in a block. -/
def blockSize : Nat := 624

/-- The distance over which the recurrence reaches. -/
def reach : Nat := 397

/-- A word of a block. -/
def word (block : Array UInt32) (i : Nat) : UInt32 := block.getD i 0

/-- A word with its two highest bits folded into its lowest ones. -/
def fold (w : UInt32) : UInt32 := w ^^^ (w >>> 30)

/-- The block that grows from a single word. -/
def blockOf (w : UInt32) : Array UInt32 :=
  (List.range (blockSize - 1)).foldl
    (fun block i => block.push (1812433253 * fold (word block i) + (i + 1).toUInt32)) #[w]

/-- One step of stirring: the word at `i` is replaced by `f` of the word
    before it and itself, and `i` moves on, past the end to the second word
    while the last word is copied to the front. -/
def stir (f : UInt32 → UInt32 → UInt32) (state : Array UInt32 × Nat) : Array UInt32 × Nat :=
  let (block, i) := state
  let block := block.setIfInBounds i (f (word block (i - 1)) (word block i))
  if i + 1 < blockSize then (block, i + 1)
  else (block.setIfInBounds 0 (word block (blockSize - 1)), 1)

/-- The block that grows from a key of at least one word. -/
def blockOfKey (key : Array UInt32) : Array UInt32 :=
  let mixed := (List.range (max blockSize key.size)).foldl
    (fun state k =>
      let j := k % key.size
      stir (fun before w => (w ^^^ (fold before * 1664525)) + word key j + j.toUInt32) state)
    (blockOf 19650218, 1)
  let settled := (List.range (blockSize - 1)).foldl
    (fun state _ =>
      stir (fun before w => (w ^^^ (fold before * 1566083941)) - state.2.toUInt32) state)
    mixed
  settled.1.setIfInBounds 0 0x80000000

/-- The words of a natural number, the lowest first, at least one. -/
def keyOf (n : Nat) : Array UInt32 :=
  ((List.range (n.log2 / 32 + 1)).map fun i => (n >>> (32 * i)).toUInt32).toArray

/-- The twister for a seed.  The sign of the seed does not matter. -/
def ofSeed (seed : Int) : Twister := ⟨blockOfKey (keyOf seed.natAbs), blockSize⟩

/-- The next block. -/
def nextBlock (block : Array UInt32) : Array UInt32 :=
  (List.range blockSize).foldl
    (fun block i =>
      let y := (word block i &&& 0x80000000) |||
        (word block ((i + 1) % blockSize) &&& 0x7fffffff)
      let odd : UInt32 := if y &&& 1 = 1 then 0x9908b0df else 0
      block.setIfInBounds i (word block ((i + reach) % blockSize) ^^^ (y >>> 1) ^^^ odd))
    block

/-- Spreads the bits of a word of a block before it is given out. -/
def temper (w : UInt32) : UInt32 :=
  let y := w ^^^ (w >>> 11)
  let y := y ^^^ ((y <<< 7) &&& 0x9d2c5680)
  let y := y ^^^ ((y <<< 15) &&& 0xefc60000)
  y ^^^ (y >>> 18)

/-- Gives out the next word. -/
def next : StateM Twister UInt32 := fun t =>
  let t := if t.given < blockSize then t else ⟨nextBlock t.words, 0⟩
  (temper (word t.words t.given), ⟨t.words, t.given + 1⟩)

/-- A fraction with 53 binary digits, from the upper bits of two words. -/
def unit : StateM Twister Fraction := do
  let a ← next
  let b ← next
  return ⟨(a >>> 5).toNat * Nat.pow 2 26 + (b >>> 6).toNat, Nat.pow 2 53⟩

/-- How many words are tried for one index.  A try fails with a probability
    of less than one half, so the limit is not met in practice. -/
def tries : Nat := 4096

/-- Tries up to `fuel` words for an index up to `last`: as many of the upper
    bits of a word as the size of the range has, unless they are too great. -/
def indexWithin (last : Nat) : Nat → StateM Twister (Fin (last + 1))
  | 0 => return 0
  | fuel + 1 => do
      let w ← next
      let r := w.toNat >>> (32 - ((last + 1).log2 + 1))
      if h : r < last + 1 then return ⟨r, h⟩ else indexWithin last fuel

instance : RandomSource Twister where
  unit := unit
  index last := indexWithin last tries

end Twister

end TruthTables
