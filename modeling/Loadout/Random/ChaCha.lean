import Loadout.Random.Choice

/-!
# ChaCha words

The words of the ChaCha stream with eight rounds, under a key that is drawn from a seed of 64 bits.
A block has sixteen words. It depends on the key and on its own number alone, so the stream is the
blocks in order.
-/

namespace Loadout.ChaCha

/-- The sixteen words that the rounds work on. -/
abbrev Block := Vector UInt32 16

def rotateLeft (x n : UInt32) : UInt32 := (x <<< n) ||| (x >>> (32 - n))

/-- Adds the word at `b` to the one at `a`, joins the sum into the word at `d` and rotates that. -/
def mix (s : Block) (a b d : Fin 16) (n : UInt32) : Block :=
  let s := s.set a (s[a] + s[b])
  s.set d (rotateLeft (s[d] ^^^ s[a]) n)

def quarterRound (s : Block) (a b c d : Fin 16) : Block :=
  let s := mix s a b d 16
  let s := mix s c d b 12
  let s := mix s a b d 8
  mix s c d b 7

/-- A round of the columns and one of the diagonals. -/
def doubleRound (s : Block) : Block :=
  let s := quarterRound s 0 4 8 12
  let s := quarterRound s 1 5 9 13
  let s := quarterRound s 2 6 10 14
  let s := quarterRound s 3 7 11 15
  let s := quarterRound s 0 5 10 15
  let s := quarterRound s 1 6 11 12
  let s := quarterRound s 2 7 8 13
  quarterRound s 3 4 9 14

/-- The words of the text that every block begins with. -/
def constants : Vector UInt32 4 := #v[0x61707865, 0x3320646e, 0x79622d32, 0x6b206574]

/-- A block before the rounds: the constants, the key, the number of the block, and zeros. -/
def initial (key : Vector UInt32 8) (number : UInt64) : Block :=
  (constants ++ key ++ #v[number.toUInt32, (number >>> 32).toUInt32, 0, 0]).cast (by decide)

/-- The words of a block. -/
def block (key : Vector UInt32 8) (number : UInt64) : Block :=
  let start := initial key number
  let mixed := doubleRound (doubleRound (doubleRound (doubleRound start)))
  .zipWith (· + ·) start mixed

/-! ## Keys -/

/-- The step of the generator that keys are drawn from. -/
def advance (s : UInt64) : UInt64 := s * 6364136223846793005 + 11634580027462260723

/-- The word of a state of that generator: its upper bits folded, rotated right by the uppermost. -/
def keyWord (s : UInt64) : UInt32 :=
  let folded := (((s >>> 18) ^^^ s) >>> 27).toUInt32
  let turn := (s >>> 59).toUInt32
  (folded >>> turn) ||| (folded <<< ((32 - turn) &&& 31))

/-- The key of a seed. -/
def key (seed : UInt64) : Vector UInt32 8 :=
  let s1 := advance seed
  let s2 := advance s1
  let s3 := advance s2
  let s4 := advance s3
  let s5 := advance s4
  let s6 := advance s5
  let s7 := advance s6
  let s8 := advance s7
  #v[keyWord s1, keyWord s2, keyWord s3, keyWord s4, keyWord s5, keyWord s6, keyWord s7, keyWord s8]

/-! ## The stream -/

/-- A place in the stream: the words that are left of the last block, and the next block. -/
structure Stream where
  key : Vector UInt32 8
  next : UInt64
  left : List UInt32

def Stream.ofSeed (seed : UInt64) : Stream := ⟨ChaCha.key seed, 0, []⟩

/-- The next word of a stream. -/
def Stream.step (s : Stream) : UInt32 × Stream :=
  match s.left with
  | w :: rest => (w, { s with left := rest })
  | [] =>
    let words := block s.key s.next
    (words[0], { s with next := s.next + 1, left := words.toList.drop 1 })

/-- The words of the streams. -/
def words : WordSource Stream := ⟨Stream.step⟩

end Loadout.ChaCha
