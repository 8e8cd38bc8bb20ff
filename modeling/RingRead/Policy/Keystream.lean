import RingRead.Bytes.LittleEndian

/-!
# A keystream of 32-bit words

The stream of the ChaCha cipher with twelve rounds: a key of eight words and a 64-bit block
counter give sixteen words at a time. The state of the cipher is a vector of sixteen words,
so every index below is within it by its type.
-/

namespace RingRead

/-- The working state of the cipher. -/
abbrev CipherState := Vector UInt32 16

namespace CipherState

/-- Rotate a word to the left by less than its width. -/
def rotateLeft (word amount : UInt32) : UInt32 := (word <<< amount) ||| (word >>> (32 - amount))

/-- Mix four words of the state: additions, exclusive ors and rotations, each word in
turn. -/
def quarterRound (s : CipherState) (a b c d : Fin 16) : CipherState :=
  let s := s.set a (s[a] + s[b])
  let s := s.set d (rotateLeft (s[d] ^^^ s[a]) 16)
  let s := s.set c (s[c] + s[d])
  let s := s.set b (rotateLeft (s[b] ^^^ s[c]) 12)
  let s := s.set a (s[a] + s[b])
  let s := s.set d (rotateLeft (s[d] ^^^ s[a]) 8)
  let s := s.set c (s[c] + s[d])
  s.set b (rotateLeft (s[b] ^^^ s[c]) 7)

/-- One round over the columns of the state and one over its diagonals. -/
def doubleRound (s : CipherState) : CipherState :=
  let s := s.quarterRound 0 4 8 12
  let s := s.quarterRound 1 5 9 13
  let s := s.quarterRound 2 6 10 14
  let s := s.quarterRound 3 7 11 15
  let s := s.quarterRound 0 5 10 15
  let s := s.quarterRound 1 6 11 12
  let s := s.quarterRound 2 7 8 13
  s.quarterRound 3 4 9 14

/-- Repeat the double round. -/
def doubleRounds : Nat → CipherState → CipherState
  | 0, s => s
  | n + 1, s => doubleRounds n s.doubleRound

end CipherState

/-- A keystream: its key, the number of the block after the words that are still unread, and
those words. -/
structure Keystream where
  key : Vector UInt32 8
  counter : UInt64 := 0
  unread : List UInt32 := []
deriving Repr

namespace Keystream

/-- The sixteen words of one block. The first four words of the state are the text
`expand 32-byte k`, the last four the counter and a stream number of zero. -/
def block (key : Vector UInt32 8) (counter : UInt64) : List UInt32 :=
  let start : CipherState :=
    #v[0x61707865, 0x3320646e, 0x79622d32, 0x6b206574,
      key[0], key[1], key[2], key[3], key[4], key[5], key[6], key[7],
      counter.toUInt32, (counter >>> 32).toUInt32, 0, 0]
  (start.zipWith (· + ·) (CipherState.doubleRounds 6 start)).toList

/-- The next word. When those of a block are used up, the next block is made. -/
def nextWord (k : Keystream) : UInt32 × Keystream :=
  match k.unread with
  | word :: unread => (word, { k with unread })
  | [] =>
    let words := block k.key k.counter
    (words.headD 0, { k with counter := k.counter + 1, unread := words.tail })

/-- The next two words as one 64-bit number, low word first. -/
def nextDouble (k : Keystream) : UInt64 × Keystream :=
  let (low, k) := k.nextWord
  let (high, k) := k.nextWord
  (low.toUInt64 ||| (high.toUInt64 <<< 32), k)

/-! ## Keys from seeds

A seed has 64 bits and a key 256. The seed is the start of a small generator whose first
eight words are the key. -/

/-- One step of the generator that spreads a seed over a key: a linear step on 64 bits, of
which a permuted 32-bit part is given out. -/
def spread (state : UInt64) : UInt32 × UInt64 :=
  let state := state * 6364136223846793005 + 11634580027462260723
  let word := (((state >>> 18) ^^^ state) >>> 27).toUInt32
  let turn := (state >>> 59).toUInt32
  ((word >>> turn) ||| (word <<< ((32 - turn) &&& 31)), state)

/-- The first words that a seed is spread over. -/
def spreadWords : Nat → UInt64 → List UInt32
  | 0, _ => []
  | n + 1, state =>
    let (word, state) := spread state
    word :: spreadWords n state

@[simp] theorem length_spreadWords (n : Nat) (state : UInt64) :
    (spreadWords n state).length = n := by
  induction n generalizing state with
  | zero => rfl
  | succ n ih => simp [spreadWords, ih]

/-- The keystream of a seed. Equal seeds have equal streams. -/
def ofSeed (seed : UInt64) : Keystream :=
  { key := ⟨(spreadWords 8 seed).toArray, by simp⟩ }

end Keystream

end RingRead
