import RingRead.Bytes.LittleEndian
import RingRead.Inspect

/-!
# Queue entries

A submission entry asks the kernel for one operation, a completion entry reports the result
of one. Both have a fixed layout in memory: 64 and 16 bytes of little-endian words.

Of the many operations that a submission entry can ask for, the library uses one,
`Sqe.read`; the simulated kernel also knows the operation that does nothing.
-/

namespace RingRead

/-- The bits of a signed 32-bit number, as an unsigned one, which is how it is written to
memory. -/
def wordBits (i : Int32) : Nat := i.toUInt32.toNat

/-- The operation that does nothing. -/
def opNop : UInt8 := 0

/-- The operation that reads from a file into memory. -/
def opRead : UInt8 := 22

/-- A submission entry. The fields are those of the kernel's interface, in their order in
memory. -/
structure Sqe where
  opcode : UInt8 := 0
  flags : UInt8 := 0
  ioprio : UInt16 := 0
  /-- The descriptor of the file. -/
  fd : Int32 := 0
  /-- The offset in the file. -/
  off : UInt64 := 0
  /-- The address in memory. -/
  addr : UInt64 := 0
  len : UInt32 := 0
  rwFlags : UInt32 := 0
  /-- The tag that comes back with the completion. -/
  userData : UInt64 := 0
  bufIndex : UInt16 := 0
  personality : UInt16 := 0
  fileIndex : UInt32 := 0
  addr3 : UInt64 := 0
  pad2 : UInt64 := 0
deriving DecidableEq, Repr, Inhabited

namespace Sqe

/-- Read `len` bytes at `off` of the file `fd` to the address `addr`. All other fields are
zero. -/
def read (fd : Int32) (off addr : UInt64) (len : UInt32) (userData : UInt64) : Sqe :=
  { opcode := opRead, fd, off, addr, len, userData }

/-- The 64 bytes of an entry. -/
def bytes (e : Sqe) : List UInt8 :=
  open LittleEndian in
  encode 1 e.opcode.toNat ++ encode 1 e.flags.toNat ++ encode 2 e.ioprio.toNat
    ++ encode 4 (wordBits e.fd) ++ encode 8 e.off.toNat ++ encode 8 e.addr.toNat
    ++ encode 4 e.len.toNat ++ encode 4 e.rwFlags.toNat ++ encode 8 e.userData.toNat
    ++ encode 2 e.bufIndex.toNat ++ encode 2 e.personality.toNat ++ encode 4 e.fileIndex.toNat
    ++ encode 8 e.addr3.toNat ++ encode 8 e.pad2.toNat

@[simp] theorem length_bytes (e : Sqe) : e.bytes.length = 64 := by
  simp [bytes]

/-- An entry as text. -/
def inspect (e : Sqe) : String :=
  inspectRecord "IoUringSqe"
    [("opcode", toString e.opcode), ("flags", toString e.flags), ("ioprio", toString e.ioprio),
      ("fd", toString e.fd.toInt), ("off", toString e.off), ("addr", toString e.addr),
      ("len", toString e.len), ("rw_flags", toString e.rwFlags),
      ("user_data", toString e.userData), ("buf_index", toString e.bufIndex),
      ("personality", toString e.personality), ("file_index", toString e.fileIndex),
      ("addr3", toString e.addr3), ("pad2", toString e.pad2)]

end Sqe

/-- A completion entry: the tag of the operation, its result and flags. A negative result is
the negative of an error number. -/
structure Cqe where
  userData : UInt64 := 0
  res : Int32 := 0
  flags : UInt32 := 0
deriving DecidableEq, Repr, Inhabited

namespace Cqe

/-- The 16 bytes of an entry. -/
def bytes (e : Cqe) : List UInt8 :=
  open LittleEndian in
  encode 8 e.userData.toNat ++ encode 4 (wordBits e.res) ++ encode 4 e.flags.toNat

@[simp] theorem length_bytes (e : Cqe) : e.bytes.length = 16 := by
  simp [bytes]

/-- An entry as text. -/
def inspect (e : Cqe) : String :=
  inspectRecord "IoUringCqe"
    [("user_data", toString e.userData), ("res", toString e.res.toInt),
      ("flags", toString e.flags)]

end Cqe

end RingRead
