/-!
# Segments of byte strings

A segment is a stretch of bytes that is kept in one of two ways: as one byte with a count,
or byte for byte. A run costs nothing to keep however long it is, which is what lets a fresh
block or a file of zeros be as large as an address space.

**View.** `toList` is what a segment stands for. `length_toList` and `toList_slice` say what
the operations do to it.
-/

namespace RingRead

/-- A stretch of a byte string. -/
inductive Segment where
  /-- One byte, so many times. -/
  | run (count : Nat) (byte : UInt8)
  /-- Bytes one by one. -/
  | data (bytes : ByteArray)

namespace Segment

/-- The number of bytes. -/
def size : Segment → Nat
  | run count _ => count
  | data bytes => bytes.size

/-- The bytes in order. -/
def toList : Segment → List UInt8
  | run count byte => List.replicate count byte
  | data bytes => bytes.data.toList

/-- The bytes from `start` on, at most `length` of them. What is asked for whole is not
copied. -/
def slice : Segment → (start length : Nat) → Segment
  | run count byte, start, length => run (min length (count - start)) byte
  | data bytes, start, length =>
    if start = 0 ∧ bytes.size ≤ length then data bytes
    else data (bytes.extract start (start + length))

@[simp] theorem length_toList (s : Segment) : s.toList.length = s.size := by
  cases s with
  | run count byte => exact List.length_replicate
  | data bytes => exact Array.length_toList

/-- A slice of a segment is that slice of its bytes. -/
@[simp] theorem toList_slice (s : Segment) (start length : Nat) :
    (s.slice start length).toList = (s.toList.drop start).take length := by
  cases s with
  | run count byte => simp [toList, slice]
  | data bytes =>
    by_cases h : start = 0 ∧ bytes.size ≤ length
    · have hlength : (data bytes).toList.length ≤ length := by rw [length_toList]; exact h.2
      rw [slice, if_pos h, h.1, List.drop_zero, List.take_of_length_le hlength]
    · rw [slice, if_neg h]
      simp [toList, List.extract_eq_take_drop]

end Segment

end RingRead
