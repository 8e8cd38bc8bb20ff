/-!
# Little-endian words

A word of `width` bytes is written least significant byte first. `encode` and `decode` work
on lists, where a word is a number in base 256 read from its low digit; every fixed layout
of the library (block words, queue entries, setup parameters) is a concatenation of such
words.

**Round trip.** `decode_encode` says that reading back a written number gives its remainder
modulo `256 ^ width`, so a word that fits its width survives unchanged.
-/

namespace RingRead.LittleEndian

/-- The low `width` bytes of `n`, least significant first. What does not fit into the width
is dropped. -/
def encode : (width n : Nat) → List UInt8
  | 0, _ => []
  | width + 1, n => UInt8.ofNat n :: encode width (n / 256)

/-- The number whose base-256 digits, lowest first, are the given bytes. -/
def decode : List UInt8 → Nat
  | [] => 0
  | b :: rest => b.toNat + 256 * decode rest

@[simp] theorem length_encode (width n : Nat) : (encode width n).length = width := by
  induction width generalizing n with
  | zero => rfl
  | succ width ih => simp [encode, ih]

/-- Reading a written word gives the number back, up to the width of the word. -/
theorem decode_encode (width n : Nat) : decode (encode width n) = n % Nat.pow 256 width := by
  induction width generalizing n with
  | zero => simp [encode, decode, Nat.mod_one]
  | succ width ih =>
    simp only [encode, decode, ih, UInt8.toNat_ofNat', Nat.reducePow]
    rw [show Nat.pow 256 (width + 1) = 256 * Nat.pow 256 width from Nat.pow_succ', Nat.mod_mul]

theorem decode_lt (bytes : List UInt8) : decode bytes < Nat.pow 256 bytes.length := by
  induction bytes with
  | nil => exact Nat.zero_lt_one
  | cons b rest ih =>
    have hb := b.toNat_lt
    rw [decode, List.length_cons, show Nat.pow 256 (rest.length + 1) =
      256 * Nat.pow 256 rest.length from Nat.pow_succ']
    omega

/-- Writing the number that was read gives the bytes back. -/
theorem encode_decode (bytes : List UInt8) : encode bytes.length (decode bytes) = bytes := by
  induction bytes with
  | nil => rfl
  | cons b rest ih =>
    have hb := b.toNat_lt
    have hlow : UInt8.ofNat (b.toNat + 256 * decode rest) = b := by
      apply UInt8.toNat_inj.mp
      rw [UInt8.toNat_ofNat']
      omega
    have hhigh : (b.toNat + 256 * decode rest) / 256 = decode rest := by omega
    rw [List.length_cons, decode, encode, hlow, hhigh, ih]

end RingRead.LittleEndian
