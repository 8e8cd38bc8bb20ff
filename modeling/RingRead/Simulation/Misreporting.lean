import RingRead.Simulation.Basic

/-!
# A kernel that misreports

A simulated kernel whose reports about a ring can be changed, to see what ring creation
makes of them: other parameters than those it set up, other words in the shared regions,
mappings that fail or have another length than was asked for.

A mapping of the kernel's own regions can only come back shorter. With `ample` the kernel
maps fresh memory of any length up to 16 MiB, zero but for the first 24 bytes, which are
those of the region; then a mapping may also be longer than was asked for.
-/

namespace RingRead

/-- The ways in which a kernel misreports. Without any of them it is the simulated kernel
inside. -/
structure Misreport where
  /-- The parameters it reports in place of its own. -/
  amend : Params → Params := id
  /-- Words that it stores into its regions after setup, in order. -/
  words : List (Region × Nat × UInt32) := []
  /-- Mappings that fail. -/
  refusals : Region → Option SystemError := fun _ => none
  /-- Mappings that come back with another length. -/
  lengths : Region → Option Nat := fun _ => none
  /-- Map more than there is. -/
  ample : Bool := false

/-- A simulated kernel that misreports. What it really does is done by the kernel inside. -/
structure MisreportingKernel where
  inner : SimulatedKernel
  report : Misreport := {}

namespace MisreportingKernel

/-- The bytes of a region that an ample mapping begins with. -/
def ampleHead : Nat := 24

/-- The longest ample mapping. -/
def ampleLimit : Nat := 1 <<< 24

/-- The length that a mapping comes back with: the misreported one, but of the kernel's own
regions no more than was asked for. -/
def mappedLength (k : MisreportingKernel) (length : Nat) (region? : Option Region) : Nat :=
  match region?.bind k.report.lengths with
  | none => length
  | some other => if k.report.ample then other else min length other

/-- Map a region. A refusal comes before anything else; the limit of ample mappings is one
on the length that they come back with. -/
def map (k : MisreportingKernel) (length : Nat) (selector : UInt64) :
    Except SystemError Mapping × MisreportingKernel :=
  let region? := Region.ofSelector? selector
  let mapped := k.mappedLength length region?
  match region?.bind k.report.refusals with
  | some e => (.error e, k)
  | none =>
    if k.report.ample ∧ ampleLimit < mapped then (.error (.os SystemError.enomem), k)
    else
      match k.inner.map (if k.report.ample then ampleHead else length) selector with
      | (.error e, _) => (.error e, k)
      | (.ok _, _) => (.ok ⟨mapped⟩, k)

/-- The word at an offset of a region: what was stored there last, or the simulated kernel's
own. -/
def word (k : MisreportingKernel) (region : Region) (offset : Nat) : UInt32 :=
  if k.report.ample ∧ ampleHead ≤ offset then 0
  else
    match k.report.words.reverse.find? fun (r, place, _) => r = region ∧ place = offset with
    | some (_, _, value) => value
    | none => (k.inner.word? region offset).getD 0

/-- Store a word. It is found there from then on, whatever the kernel inside would say. -/
def setWord (k : MisreportingKernel) (region : Region) (offset : Nat) (value : UInt32) :
    MisreportingKernel :=
  { k with report.words := k.report.words ++ [(region, offset, value)] }

instance : Kernel MisreportingKernel where
  setup k entries :=
    let (answer, inner) := k.inner.setup entries
    (answer.map k.report.amend, { k with inner })
  map := map
  load k region offset := (k.word region offset, k)
  store := setWord
  storeEntry k offset e := { k with inner := k.inner.setEntry (offset / 64) e }
  loadEntry k offset := (k.inner.completionAt offset, k)
  enter k toSubmit _ flags :=
    let entered := k.inner.enter toSubmit flags
    ⟨entered.answer, entered.transfers, { k with inner := entered.kernel }⟩
  patience k := k.inner.interrupts

end MisreportingKernel

end RingRead
