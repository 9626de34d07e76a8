/-!
# Random numbers

The machine draws its random bytes from a generator. Which bytes a generator gives is
not for the machine to know: it is a rule that says what is drawn at a place, and where
the next byte is drawn. A generator belongs to a seed of 64 bits, or it comes from
entropy, of which any may come up.

To run a machine, a ChaCha stream of twelve rounds is used. The key of the stream is
spread out from the seed by a linear congruential generator with permuted output. The
words of the stream are used in order, and a word is brought into the range by
multiplication: of the product of the word and the size of the range, the high half is
the number, and a word whose product has a low half that is too large is passed over,
which makes every number of the range equally likely.

## Main definitions

* `Generator`, `Generator.draw` — a row of random bytes.
* `RandomSource`, `RandomSource.generator` — where generators come from.
* `ChaCha.spreadSeed`, `ChaCha.block` — the key of a seed, and sixteen words of the
  stream.
* `RandomSource.chaCha` — the source for running machines.
-/

namespace Chip8

/-! ## Generators -/

/-- A row of random bytes from a place on. -/
structure Generator where
  /-- The byte that is drawn at a place, and the place behind it. -/
  drawAt : Nat → UInt8 × Nat
  place : Nat

/-- A random byte, and the generator behind it. -/
def Generator.draw (g : Generator) : UInt8 × Generator :=
  let (byte, place) := g.drawAt g.place
  (byte, { g with place })

/-- Where generators come from. -/
structure RandomSource where
  /-- The generator of a seed. -/
  ofSeed : UInt64 → Generator
  /-- The generator that comes up next where no seed is set. -/
  entropy : Generator

/-- The generator of a seed, or one from entropy where none is set. -/
def RandomSource.generator (source : RandomSource) : Option UInt64 → Generator
  | some seed => source.ofSeed seed
  | none => source.entropy

namespace ChaCha

/-! ## The key -/

/-- The word rotated to the right. -/
def rotateRight (w : UInt32) (count : UInt32) : UInt32 :=
  (w >>> count) ||| (w <<< ((32 - count) % 32))

/-- The word rotated to the left. -/
def rotateLeft (w : UInt32) (count : UInt32) : UInt32 :=
  (w <<< count) ||| (w >>> ((32 - count) % 32))

/-- The next state of the generator that spreads the seed. -/
def spreadStep (state : UInt64) : UInt64 := state * 6364136223846793005 + 11634580027462260723

/-- The word that a state gives: its bits are folded and rotated by its highest five
bits. -/
def spreadWord (state : UInt64) : UInt32 :=
  rotateRight (((state >>> 18) ^^^ state) >>> 27).toUInt32 (state >>> 59).toUInt32

/-- Words from a state on. -/
def spreadWords : Nat → UInt64 → List UInt32
  | 0, _ => []
  | count + 1, state => spreadWord (spreadStep state) :: spreadWords count (spreadStep state)

/-- The eight words of the key of a seed. -/
def spreadSeed (seed : UInt64) : List UInt32 := spreadWords 8 seed

/-! ## The stream -/

/-- Mixes four words of a block. -/
def quarterRound (s : Vector UInt32 16) (a b c d : Fin 16) : Vector UInt32 16 :=
  let s := s.set a (s[a] + s[b])
  let s := s.set d (rotateLeft (s[d] ^^^ s[a]) 16)
  let s := s.set c (s[c] + s[d])
  let s := s.set b (rotateLeft (s[b] ^^^ s[c]) 12)
  let s := s.set a (s[a] + s[b])
  let s := s.set d (rotateLeft (s[d] ^^^ s[a]) 8)
  let s := s.set c (s[c] + s[d])
  s.set b (rotateLeft (s[b] ^^^ s[c]) 7)

/-- Mixes the columns of a block, then its diagonals. -/
def doubleRound (s : Vector UInt32 16) : Vector UInt32 16 :=
  let s := quarterRound s 0 4 8 12
  let s := quarterRound s 1 5 9 13
  let s := quarterRound s 2 6 10 14
  let s := quarterRound s 3 7 11 15
  let s := quarterRound s 0 5 10 15
  let s := quarterRound s 1 6 11 12
  let s := quarterRound s 2 7 8 13
  quarterRound s 3 4 9 14

/-- Six times two rounds. -/
def twelveRounds (s : Vector UInt32 16) : Vector UInt32 16 :=
  (List.range 6).foldl (fun s _ => doubleRound s) s

/-- A block before it is mixed: four constants, the key, and the number of the block. -/
def blockSeed (key : List UInt32) (number : Nat) : Vector UInt32 16 :=
  let words : List UInt32 :=
    [0x61707865, 0x3320646e, 0x79622d32, 0x6b206574] ++ key
      ++ [UInt32.ofNat number, UInt32.ofNat (number / UInt32.size), 0, 0]
  Vector.ofFn fun i => words.getD i.val 0

/-- The sixteen words of a block of the stream. -/
def block (key : List UInt32) (number : Nat) : Vector UInt32 16 :=
  let seed := blockSeed key number
  let mixed := twelveRounds seed
  Vector.ofFn fun i => mixed[i] + seed[i]

/-! ## Numbers -/

/-- The word of the stream at a place. -/
def word (key : List UInt32) (place : Nat) : UInt32 :=
  (block key (place / 16)).get ⟨place % 16, Nat.mod_lt _ (by decide)⟩

/-- The size of the range of random bytes: the bytes `FE` and `FF` are never drawn. -/
def range : Nat := 254

/-- The largest low half of a product that is accepted. -/
def acceptedLow : Nat := UInt32.size - 1 - (UInt32.size - range) % range

/-- The product of the word at a place and the size of the range. -/
def product (key : List UInt32) (place : Nat) : Nat := (word key place).toNat * range

/-- The number of words, all passed over, after which the next is taken in any case. The
chance of passing over a single one is below one in a hundred million. -/
def patience : Nat := 64

/-- The byte that is drawn at a place, from where on `limit` words may be passed
over. -/
def drawWithin (key : List UInt32) : Nat → Nat → UInt8 × Nat
  | 0, place => (UInt8.ofNat (product key place / UInt32.size), place + 1)
  | limit + 1, place =>
    if product key place % UInt32.size ≤ acceptedLow then
      (UInt8.ofNat (product key place / UInt32.size), place + 1)
    else drawWithin key limit (place + 1)

/-- The beginning of the stream of a seed. -/
def ofSeed (seed : UInt64) : Generator :=
  let key := spreadSeed seed
  ⟨drawWithin key patience, 0⟩

end ChaCha

/-- The source for running machines. Where no seed is set, it stands for one of the
sources that there can be. -/
def RandomSource.chaCha : RandomSource := ⟨ChaCha.ofSeed, ChaCha.ofSeed 0⟩

end Chip8
