import RingRead.SystemError

/-!
# Paths that cannot be opened

Why the system refuses to open a path, in a tree of files that has the null device and
nothing else. A path is followed name by name, and the first obstacle on the way is the one
that is reported.
-/

namespace RingRead

/-- A place in a tree of files, as far as a path has been followed. -/
inductive HostPlace where
  /-- A directory, by the names on the way to it, last first. -/
  | directory (names : List String)
  /-- The null device. -/
  | nullDevice
deriving DecidableEq, Repr

namespace HostPath

/-- The longest name of a file, in bytes. -/
def nameLimit : Nat := 255

/-- A path of this many bytes or more is refused, whatever is in it. -/
def pathLimit : Nat := 4096

/-- One step along a path, in a tree that has the null device and no other file. Paths that
do not begin at the root begin in an empty directory below it. -/
def step : HostPlace → String → Except SystemError HostPlace
  | .nullDevice, _ => .error (.os SystemError.enotdir)
  | .directory names, name =>
    if name = "" ∨ name = "." then .ok (.directory names)
    else if name = ".." then .ok (.directory names.tail)
    else if nameLimit < name.utf8ByteSize then .error (.os SystemError.enametoolong)
    else if names = [] ∧ name = "dev" then .ok (.directory ["dev"])
    else if names = ["dev"] ∧ name = "null" then .ok .nullDevice
    else .error (.os SystemError.enoent)

/-- Why a path cannot be opened as a file to read, in a tree that has no such file. What the
path is made of is looked at first: a byte that no path can have, no bytes at all, or too
many. -/
def refusal (path : String) : SystemError :=
  if path.contains '\x00' then .other "file name contained an unexpected NUL byte"
  else if path = "" then .os SystemError.enoent
  else if pathLimit ≤ path.utf8ByteSize then .os SystemError.enametoolong
  else
    let start := if path.startsWith "/" then [] else ["."]
    match (path.splitOn "/").foldlM step (HostPlace.directory start) with
    | .error e => e
    | .ok _ => .os SystemError.einval

end HostPath

end RingRead
