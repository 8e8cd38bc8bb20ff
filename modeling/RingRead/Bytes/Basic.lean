import RingRead.Bytes.LittleEndian
import RingRead.Bytes.Segment

/-!
# Byte strings

The contents of blocks and files, kept as segments. Two byte strings may hold the same bytes
in different segments, so a byte string is always spoken of through `toList`.

**View.** There is one lemma for each operation: `toList_slice`, `toList_append`,
`toList_overwrite` and the rest say which bytes come out.

**Length.** A byte string is changed by overwriting a stretch of it, and nothing ever
changes its length: `size_overwrite` is the reason why a block stays a block whatever is
delivered into it.

**The first word.** The first eight bytes are also read and written as one little-endian
word, which is where a free block carries its mark. `firstWord_setFirstWord` says that a
mark is found again.
-/

namespace RingRead

/-- A string of bytes: a file, a block, or a piece that is copied between them. The segments
follow one another in order, and how the bytes are cut into them has no meaning. -/
structure Bytes where
  segments : List Segment

namespace Bytes

/-- The bytes in order. -/
def toList (bytes : Bytes) : List UInt8 := bytes.segments.flatMap Segment.toList

/-- The number of bytes. -/
def size (bytes : Bytes) : Nat := bytes.segments.foldr (fun s total => s.size + total) 0

/-! ## Making byte strings

Where byte strings come from: memory that is new, and files. A long string of one byte is a
single segment. -/

/-- `n` copies of one byte. -/
def replicate (n : Nat) (byte : UInt8) : Bytes := ⟨[.run n byte]⟩

/-- `n` zero bytes, which is what a new block consists of. -/
def zeros (n : Nat) : Bytes := replicate n 0

/-- The bytes of an array. -/
def ofByteArray (bytes : ByteArray) : Bytes := ⟨[.data bytes]⟩

/-- The bytes of a list, in order. -/
def ofList (bytes : List UInt8) : Bytes := ofByteArray ⟨bytes.toArray⟩

instance : Append Bytes := ⟨fun a b => ⟨a.segments ++ b.segments⟩⟩

/-! ## Parts of byte strings

To take a part is to cut the segments at its ends. A segment that lies in it as a whole is
not copied, so the pieces of a large file cost little. -/

/-- The segments that hold the bytes from `start` on, at most `length` of them. -/
def sliceSegments : List Segment → (start length : Nat) → List Segment
  | [], _, _ => []
  | s :: rest, start, length =>
    if length = 0 then []
    else if s.size ≤ start then sliceSegments rest (start - s.size) length
    else s.slice start length :: sliceSegments rest 0 (length - (s.size - start))

/-- The bytes from `start` on, at most `length` of them. Past the end there are none. -/
def slice (bytes : Bytes) (start length : Nat) : Bytes :=
  ⟨sliceSegments bytes.segments start length⟩

/-- Write `piece` over the bytes from `start` on. What would lie past the end is dropped, so
the length stays. -/
def overwrite (target : Bytes) (start : Nat) (piece : Bytes) : Bytes :=
  let count := min piece.size (target.size - start)
  target.slice 0 start ++ piece.slice 0 count ++ target.slice (start + count) target.size

/-- The 64-bit word in the first eight bytes. Where there are fewer, the missing ones count
as zero. -/
def firstWord (bytes : Bytes) : UInt64 :=
  UInt64.ofNat (LittleEndian.decode (bytes.slice 0 8).toList)

/-- Put a 64-bit word into the first eight bytes, the lowest byte first. -/
def setFirstWord (bytes : Bytes) (word : UInt64) : Bytes :=
  bytes.overwrite 0 (ofList (LittleEndian.encode 8 word.toNat))

/-! ## The bytes that come out

Each operation has one lemma, in terms of lists. Everything that is shown about the contents
of blocks rests on these, and never looks at segments. -/

@[simp] theorem length_toList (bytes : Bytes) : bytes.toList.length = bytes.size := by
  obtain ⟨segments⟩ := bytes
  rw [toList, size]
  induction segments with
  | nil => rfl
  | cons s rest ih =>
    rw [List.flatMap_cons, List.length_append, Segment.length_toList, List.foldr_cons, ih]

@[simp] theorem toList_replicate (n : Nat) (byte : UInt8) :
    (replicate n byte).toList = List.replicate n byte := by
  simp [replicate, toList, Segment.toList]

@[simp] theorem toList_zeros (n : Nat) : (zeros n).toList = List.replicate n 0 :=
  toList_replicate n 0

@[simp] theorem toList_ofByteArray (bytes : ByteArray) :
    (ofByteArray bytes).toList = bytes.data.toList := by
  simp [ofByteArray, toList, Segment.toList]

@[simp] theorem toList_ofList (bytes : List UInt8) : (ofList bytes).toList = bytes := by
  simp [ofList]

@[simp] theorem toList_append (a b : Bytes) : (a ++ b).toList = a.toList ++ b.toList :=
  List.flatMap_append

/-- A slice of the segments is that slice of the bytes. -/
theorem flatMap_sliceSegments (segments : List Segment) (start length : Nat) :
    (sliceSegments segments start length).flatMap Segment.toList =
      ((segments.flatMap Segment.toList).drop start).take length := by
  fun_induction sliceSegments segments start length with
  | case1 => simp
  | case2 => simp
  | case3 s rest start length _ hstart ih =>
    have hnil : s.toList.drop start = [] := List.drop_of_length_le (by simpa using hstart)
    rw [ih, List.flatMap_cons, List.drop_append, hnil, List.nil_append, Segment.length_toList]
  | case4 s rest start length _ hstart ih =>
    have hzero : start - s.size = 0 := by omega
    rw [List.flatMap_cons, List.flatMap_cons, ih, Segment.toList_slice, List.drop_append,
      List.take_append, Segment.length_toList, hzero, List.length_drop, Segment.length_toList]

@[simp] theorem toList_slice (bytes : Bytes) (start length : Nat) :
    (bytes.slice start length).toList = (bytes.toList.drop start).take length :=
  flatMap_sliceSegments ..

/-- An overwrite leaves the bytes before and after the piece alone, and takes as much of the
piece as there is room for. -/
theorem toList_overwrite (target : Bytes) (start : Nat) (piece : Bytes) :
    (target.overwrite start piece).toList =
      target.toList.take start ++ piece.toList.take (target.size - start) ++
        target.toList.drop (start + min piece.size (target.size - start)) := by
  have hpiece : piece.toList.take (min piece.size (target.size - start)) =
      piece.toList.take (target.size - start) := by
    rw [← length_toList piece, Nat.min_comm, ← List.take_take, List.take_length]
  simp only [overwrite, toList_append, toList_slice, List.drop_zero, hpiece]
  rw [List.take_of_length_le (i := target.size) (by simp)]

/-! ## Lengths

The number of bytes that come out, which for an overwrite is the number that went in. -/

@[simp] theorem size_replicate (n : Nat) (byte : UInt8) : (replicate n byte).size = n := by
  simp [← length_toList]

@[simp] theorem size_zeros (n : Nat) : (zeros n).size = n := size_replicate n 0

@[simp] theorem size_ofList (bytes : List UInt8) : (ofList bytes).size = bytes.length := by
  simp [← length_toList]

@[simp] theorem size_append (a b : Bytes) : (a ++ b).size = a.size + b.size := by
  simp [← length_toList]

@[simp] theorem size_slice (bytes : Bytes) (start length : Nat) :
    (bytes.slice start length).size = min length (bytes.size - start) := by
  simp [← length_toList]

/-- Overwriting keeps the length, wherever it starts and however long the piece is. -/
@[simp] theorem size_overwrite (target : Bytes) (start : Nat) (piece : Bytes) :
    (target.overwrite start piece).size = target.size := by
  simp only [overwrite, size_append, size_slice]
  omega

@[simp] theorem size_setFirstWord (bytes : Bytes) (word : UInt64) :
    (bytes.setFirstWord word).size = bytes.size :=
  size_overwrite ..

/-- What an overwrite leaves from some byte on depends on the bytes from there on alone. -/
theorem drop_toList_overwrite {a b : Bytes} {n : Nat} (hsize : a.size = b.size)
    (h : a.toList.drop n = b.toList.drop n) (start : Nat) (piece : Bytes) :
    (a.overwrite start piece).toList.drop n = (b.overwrite start piece).toList.drop n := by
  have hlater {k : Nat} (hk : n ≤ k) : a.toList.drop k = b.toList.drop k := by
    rw [← Nat.sub_add_cancel hk, Nat.add_comm, ← List.drop_drop, h, List.drop_drop]
  have htake : (a.toList.take start).drop n = (b.toList.take start).drop n := by
    rw [List.drop_take, List.drop_take, h]
  rw [toList_overwrite, toList_overwrite, ← hsize]
  simp only [List.drop_append, List.drop_drop, List.length_append, List.length_take,
    length_toList, htake, hsize]
  congr 1
  by_cases hstart : start ≤ b.size
  · exact hlater (by omega)
  · rw [List.drop_of_length_le (by simp; omega), List.drop_of_length_le (by simp; omega)]

/-! ## The first word

Between the word and the bytes there is a little-endian encoding of eight bytes, and reading
it back gives the word again. -/

/-- A word that is put in front of eight bytes or more takes the place of the first
eight. -/
theorem toList_setFirstWord (bytes : Bytes) (word : UInt64) (h : 8 ≤ bytes.size) :
    (bytes.setFirstWord word).toList =
      LittleEndian.encode 8 word.toNat ++ bytes.toList.drop 8 := by
  have hencode : (LittleEndian.encode 8 word.toNat).length = 8 := LittleEndian.length_encode ..
  rw [setFirstWord, toList_overwrite, toList_ofList, size_ofList, hencode, List.take_zero,
    List.nil_append, List.take_of_length_le (by omega), Nat.zero_add, Nat.sub_zero,
    Nat.min_eq_left h]

theorem drop_toList_setFirstWord (bytes : Bytes) (word : UInt64) (h : 8 ≤ bytes.size) :
    (bytes.setFirstWord word).toList.drop 8 = bytes.toList.drop 8 := by
  rw [toList_setFirstWord _ _ h, List.drop_left' (LittleEndian.length_encode ..)]

/-- It is found there. -/
theorem firstWord_setFirstWord (bytes : Bytes) (word : UInt64) (h : 8 ≤ bytes.size) :
    (bytes.setFirstWord word).firstWord = word := by
  have hencode : (LittleEndian.encode 8 word.toNat).length = 8 := LittleEndian.length_encode ..
  have hfirst : ((bytes.setFirstWord word).slice 0 8).toList =
      LittleEndian.encode 8 word.toNat := by
    rw [toList_slice, toList_setFirstWord _ _ h, List.drop_zero, List.take_left' hencode]
  rw [firstWord, hfirst, LittleEndian.decode_encode,
    Nat.mod_eq_of_lt (by simpa using word.toNat_lt), UInt64.ofNat_toNat]

/-- It is the word that the first eight bytes write. -/
theorem encode_firstWord {bytes : Bytes} (h : 8 ≤ bytes.size) :
    LittleEndian.encode 8 bytes.firstWord.toNat = bytes.toList.take 8 := by
  have hlength : (bytes.slice 0 8).toList.length = 8 := by
    rw [length_toList, size_slice]
    omega
  have hlt := LittleEndian.decode_lt (bytes.slice 0 8).toList
  rw [hlength] at hlt
  have hroundTrip := LittleEndian.encode_decode (bytes.slice 0 8).toList
  rw [hlength] at hroundTrip
  rw [firstWord, UInt64.toNat_ofNat_of_lt' hlt, hroundTrip, toList_slice, List.drop_zero]

end Bytes

end RingRead
