import RingRead.Simulation.Basic

/-!
# A scripted kernel that keeps a record

A simulated kernel whose next answers can be laid down in a script, and which records every
time it is entered: what it was asked, what it answered, and which entries had been staged
for it.
-/

namespace RingRead

/-- What a scripted kernel does the next time it is entered: as the simulated kernel would,
less than that, or nothing. -/
inductive ScriptedAct where
  /-- What the simulated kernel does. -/
  | plain
  /-- Fail without doing anything. -/
  | fail (e : SystemError)
  /-- Take no more entries than this. -/
  | accept (limit : UInt32)
  /-- Do what it does, but answer with this number if it succeeds. -/
  | answer (value : UInt32)
deriving DecidableEq, Repr

/-- An entry that was staged when the kernel was entered: its slot in the index array, the
number found there, and the entry of that number. -/
structure StagedEntry where
  slot : UInt32
  number : UInt32
  entry : Sqe
deriving DecidableEq, Repr

/-- One time that the kernel was entered: what it was asked, what it has answered, and what
was staged by then. -/
structure EnterRecord where
  toSubmit : UInt32
  minComplete : UInt32
  flags : UInt32
  answer : Except SystemError UInt32
  staged : List StagedEntry

/-- A simulated kernel with a script and a record. When the script has come to its end, it
does what the simulated kernel does. -/
structure ScriptedKernel where
  inner : SimulatedKernel
  /-- What it does the next times it is entered. -/
  script : List ScriptedAct := []
  /-- The times it was entered, last first. -/
  record : List EnterRecord := []

namespace ScriptedKernel

/-- The entries at the last `count` positions before the published submission tail. -/
def staged (rings : SimulatedRings) (count : UInt32) : List StagedEntry :=
  (List.range count.toNat).map fun i =>
    let slot := (rings.sqTail - count + UInt32.ofNat i) &&& (rings.entries - 1)
    let number := rings.index[slot.toNat]?.getD 0
    { slot, number, entry := rings.table[(number &&& (rings.entries - 1)).toNat]?.getD {} }

/-- Enter the simulated kernel as an act says. One that fails does not enter it. -/
def act (k : SimulatedKernel) (toSubmit flags : UInt32) : ScriptedAct → Entered SimulatedKernel
  | .plain => k.enter toSubmit flags
  | .fail e => ⟨.error e, [], k⟩
  | .accept limit => k.enter (min toSubmit limit) flags
  | .answer value =>
    let entered := k.enter toSubmit flags
    { entered with answer := entered.answer.map fun _ => value }

/-- Enter the kernel: the next act of the script, or a plain one, is done and recorded. -/
def enter (k : ScriptedKernel) (toSubmit minComplete flags : UInt32) : Entered ScriptedKernel :=
  let staged := match k.inner.rings with
    | none => []
    | some rings => staged rings toSubmit
  let entered := act k.inner toSubmit flags (k.script.headD .plain)
  let answer := entered.answer
  ⟨answer, entered.transfers,
    { inner := entered.kernel
      script := k.script.tail
      record := { toSubmit, minComplete, flags, answer, staged } :: k.record }⟩

instance : Kernel ScriptedKernel where
  setup k entries :=
    let (answer, inner) := k.inner.setup entries
    (answer, { k with inner })
  map k length selector := ((k.inner.map length selector).1, k)
  load k region offset := ((k.inner.word? region offset).getD 0, k)
  store k region offset value := { k with inner := k.inner.setWord region offset value }
  storeEntry k offset e := { k with inner := k.inner.setEntry (offset / 64) e }
  loadEntry k offset := (k.inner.completionAt offset, k)
  enter := enter
  patience k := k.script.length + k.inner.interrupts

end ScriptedKernel

end RingRead
