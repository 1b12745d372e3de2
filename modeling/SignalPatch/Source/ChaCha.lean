import SignalPatch.Source.Generators

/-!
# The ChaCha generator with eight rounds

The random generator of the noise source.  A block of sixteen words is a function
of the key and of the number of the block; the stream is the blocks in order,
each word used once.  A sample is drawn from one word.
-/

namespace SignalPatch

abbrev ChaChaBlock := Vector UInt32 16

abbrev ChaChaKey := Vector UInt32 8

namespace ChaCha

def rotateLeft (word count : UInt32) : UInt32 :=
  (word <<< count) ||| (word >>> (32 - count))

def rotateRight (word count : UInt32) : UInt32 :=
  (word >>> count) ||| (word <<< (32 - count))

/-- Add the second word into the first, and mix the sum into the third. -/
def halfStep (block : ChaChaBlock) (first second third : Fin 16) (count : UInt32) :
    ChaChaBlock :=
  let sum := block[first] + block[second]
  let mixed := rotateLeft (block[third] ^^^ sum) count
  (block.set first sum).set third mixed

/-- Mix four words of a block. -/
def quarterRound (block : ChaChaBlock) (a b c d : Fin 16) : ChaChaBlock :=
  let block := halfStep block a b d 16
  let block := halfStep block c d b 12
  let block := halfStep block a b d 8
  halfStep block c d b 7

/-- Mix the columns and then the diagonals of a block. -/
def doubleRound (block : ChaChaBlock) : ChaChaBlock :=
  let block := quarterRound block 0 4 8 12
  let block := quarterRound block 1 5 9 13
  let block := quarterRound block 2 6 10 14
  let block := quarterRound block 3 7 11 15
  let block := quarterRound block 0 5 10 15
  let block := quarterRound block 1 6 11 12
  let block := quarterRound block 2 7 8 13
  quarterRound block 3 4 9 14

/-- The block before mixing: four constants, the key, and the number of the block. -/
def initialBlock (key : ChaChaKey) (number : UInt64) : ChaChaBlock :=
  #v[0x61707865, 0x3320646e, 0x79622d32, 0x6b206574,
    key[0], key[1], key[2], key[3], key[4], key[5], key[6], key[7],
    number.toUInt32, (number >>> 32).toUInt32, 0, 0]

def block (key : ChaChaKey) (number : UInt64) : ChaChaBlock :=
  let start := initialBlock key number
  let mixed := doubleRound (doubleRound (doubleRound (doubleRound start)))
  Vector.zipWith (· + ·) start mixed

/-- One step of the generator that spreads a seed over the key. -/
def seedStep (state : UInt64) : UInt64 :=
  state * 6364136223846793005 + 11634580027462260723

def seedWord (state : UInt64) : UInt32 :=
  let shifted := (((state >>> 18) ^^^ state) >>> 27).toUInt32
  rotateRight shifted (state >>> 59).toUInt32

/-- So many words from a state of the seed generator. -/
def seedWords : Nat → UInt64 → List UInt32
  | 0, _ => []
  | count + 1, state =>
      let state := seedStep state
      seedWord state :: seedWords count state

theorem length_seedWords (count : Nat) (state : UInt64) :
    (seedWords count state).length = count := by
  induction count generalizing state with
  | zero => rfl
  | succ count ih => simp [seedWords, ih]

def keyOfSeed (seed : UInt64) : ChaChaKey :=
  ⟨(seedWords 8 seed).toArray, by simp [length_seedWords]⟩

end ChaCha

/-- A stream of random words: the words left in a block, and the number of the next block. -/
structure RandomStream where
  key : ChaChaKey
  words : List UInt32
  next : UInt64

namespace RandomStream

def ofSeed (seed : UInt64) : RandomStream :=
  ⟨ChaCha.keyOfSeed seed, [], 0⟩

def draw (stream : RandomStream) : UInt32 × RandomStream :=
  match stream.words with
  | word :: words => (word, ⟨stream.key, words, stream.next⟩)
  | [] =>
      let block := ChaCha.block stream.key stream.next
      (block[0], ⟨stream.key, block.toList.tail, stream.next + 1⟩)

/-- The sample of a random word, at least minus one and less than one. -/
def sampleOfWord (word : UInt32) : Sample :=
  (⟨(word >>> 9) ||| 0x3F800000⟩ - 1) * 2 + (-1)

instance : RandomGenerator RandomStream where
  ofSeed := ofSeed
  draw stream :=
    let (word, stream) := stream.draw
    (sampleOfWord word, stream)

end RandomStream

end SignalPatch
