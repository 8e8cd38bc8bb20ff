import RingRead.Proofs.Engine.Lockstep

/-!
# Traced kernels

A `Traced` kernel is any kernel, with a list of all that an engine asked of it after setup:
accesses to shared memory and entries into the kernel, in the order in which they were made.

* **It cannot be told apart.** A traced kernel answers as the kernel itself does
  (`lockstep_traced`), so whatever an engine does on the one it does on the other
  (`Engine.untrace_performAll`). The list that a run leaves behind says what the same run
  asks of the kernel itself.
* **Accesses.** What goes through the mappings of a ring are the accesses alone, a part of
  the list (`Traced.accesses`).
-/

namespace RingRead

/-! ## Operations

An engine comes to its kernel in two ways once its ring is set up. It reads and writes the
memory that it shares with the kernel, which the kernel does not notice, and it enters the
kernel. -/

/-- An access to shared memory: a word that is loaded or stored, a submission entry that is
stored, or a completion entry that is loaded. Entries lie in one region only. -/
inductive Access where
  | load (region : Region) (offset : Nat)
  | store (region : Region) (offset : Nat) (value : UInt32)
  | storeEntry (offset : Nat) (entry : Sqe)
  | loadEntry (offset : Nat)
deriving DecidableEq

namespace Access

/-- The region that is accessed. -/
@[simp] def region : Access → Region
  | load region _ | store region _ _ => region
  | storeEntry _ _ => .submissionEntries
  | loadEntry _ => .completionRing

/-- The layout of the value that is read or written. -/
@[simp] def layout : Access → Layout
  | load _ _ | store _ _ _ => .word
  | storeEntry _ _ => .sqe
  | loadEntry _ => .cqe

/-- Where in its region the value starts. -/
@[simp] def offset : Access → Nat
  | load _ offset | store _ offset _ | storeEntry offset _ | loadEntry offset => offset

end Access

/-- What an engine asks of a kernel that its ring is set up on. This is all that the two
have to do with each other: words and entries of shared memory, and the one call by which
the kernel is entered. -/
inductive Operation where
  | access (a : Access)
  | enter (toSubmit minComplete flags : UInt32)
deriving DecidableEq

/-- The access that an operation makes, if it makes one: to enter the kernel goes through no
mapping. -/
def Operation.access? : Operation → Option Access
  | access a => some a
  | enter .. => none

/-! ## Traced kernels -/

/-- A kernel whose operations are listed. The list is kept beside the kernel, and neither
the kernel nor the engine looks at it, so it cannot change what they do. -/
structure Traced (κ : Type) where
  kernel : κ
  /-- The operations so far, oldest first. -/
  operations : List Operation := []

namespace Traced

variable {κ : Type}

/-- The kernel has gone on with an operation. -/
def after (w : Traced κ) (kernel : κ) (operation : Operation) : Traced κ :=
  ⟨kernel, w.operations ++ [operation]⟩

/-- The accesses so far, oldest first. They are those of the operations that go through a
mapping, which all do but to enter the kernel. -/
def accesses (w : Traced κ) : List Access := w.operations.filterMap Operation.access?

variable (w : Traced κ) (kernel : κ)

@[simp] theorem accesses_after_access (a : Access) :
    (w.after kernel (.access a)).accesses = w.accesses ++ [a] :=
  List.filterMap_append

@[simp] theorem accesses_after_enter (toSubmit minComplete flags : UInt32) :
    (w.after kernel (.enter toSubmit minComplete flags)).accesses = w.accesses :=
  List.filterMap_append.trans (List.append_nil _)

end Traced

variable {κ π : Type} [Kernel κ] [OffsetPolicy π]

instance : Kernel (Traced κ) where
  setup w entries :=
    let (answer, kernel) := Kernel.setup w.kernel entries
    (answer, { w with kernel })
  map w length selector :=
    let (answer, kernel) := Kernel.map w.kernel length selector
    (answer, { w with kernel })
  load w region offset :=
    let (value, kernel) := Kernel.load w.kernel region offset
    (value, w.after kernel (.access (.load region offset)))
  store w region offset value :=
    w.after (Kernel.store w.kernel region offset value) (.access (.store region offset value))
  storeEntry w offset entry :=
    w.after (Kernel.storeEntry w.kernel offset entry) (.access (.storeEntry offset entry))
  loadEntry w offset :=
    let (entry, kernel) := Kernel.loadEntry w.kernel offset
    (entry, w.after kernel (.access (.loadEntry offset)))
  enter w toSubmit minComplete flags :=
    let entered := Kernel.enter w.kernel toSubmit minComplete flags
    ⟨entered.answer, entered.transfers, w.after entered.kernel (.enter toSubmit minComplete flags)⟩
  patience w := Kernel.patience w.kernel

/-- It answers as the kernel itself does. -/
theorem lockstep_traced : Kernel.Lockstep fun (w : Traced κ) k => w.kernel = k :=
  Kernel.Wraps.lockstep
    { load := fun _ _ _ => rfl
      store := fun _ _ _ _ => rfl
      storeEntry := fun _ _ _ => rfl
      loadEntry := fun _ _ => rfl
      enter := fun _ _ _ _ => rfl
      patience := fun _ => rfl }

/-! ## Rings and engines on a traced kernel

Tracing starts with an empty list, whatever the kernel has been through. Nothing else of a
ring or an engine takes part: its mappings, its parts and its pool are the same with and
without. -/

namespace Ring

/-- The ring on the same kernel, traced from now on. -/
def trace (r : Ring κ) : Ring (Traced κ) := r.onto { kernel := r.kernel }

/-- The ring on the kernel itself. -/
def untrace (r : Ring (Traced κ)) : Ring κ := r.onto r.kernel.kernel

end Ring

namespace Engine

/-- The engine on the same kernel, traced from now on. -/
def trace (e : Engine κ) : Engine (Traced κ) := ⟨e.ring.trace, e.pool⟩

/-- The engine on the kernel itself. -/
def untrace (e : Engine (Traced κ)) : Engine κ := ⟨e.ring.untrace, e.pool⟩

omit [Kernel κ] in
/-- An engine is what its traced engine is paired with. -/
theorem paired_trace (e : Engine κ) : e.trace.Paired (fun w k => w.kernel = k) e :=
  ⟨e.ring.kernel, rfl, rfl⟩

omit [Kernel κ] in
/-- A traced engine is paired with one engine only, the one that it was made of. -/
theorem eq_untrace {e : Engine (Traced κ)} {e' : Engine κ}
    (h : e.Paired (fun w k => w.kernel = k) e') : e' = e.untrace := by
  obtain ⟨kernel, rfl, rfl⟩ := h
  rfl

omit [Kernel κ] in
/-- What a call gives on the traced engine, and what it gives on the engine itself. -/
theorem eq_of_alike {α : Type} {x : α × Engine (Traced κ)} {x' : α × Engine κ}
    (h : Alike (Engine.Paired fun w k => w.kernel = k) x x') : x' = (x.1, x.2.untrace) :=
  Prod.ext h.answer_eq.symm (eq_untrace h.related)

/-- A traced engine goes through calls as the engine itself does. -/
theorem untrace_performAll (e : Engine κ) (calls : List Call) :
    (e.trace.performAll calls).untrace = e.performAll calls :=
  (eq_untrace (lockstep_traced.performAll e.paired_trace calls)).symm

/-- A traced engine submits as the engine itself does. -/
theorem untrace_submitReads (e : Engine κ) (target : ReadTarget) (requested : UInt32)
    (policy : π) :
    let traced := e.trace.submitReads target requested policy
    let submitted := e.submitReads target requested policy
    submitted = (traced.1, traced.2.1.untrace, traced.2.2) := by
  intro traced submitted
  obtain ⟨hanswer, hengine, hpolicy⟩ :=
    lockstep_traced.submitReads e.paired_trace target requested policy
  exact Prod.ext hanswer.symm (Prod.ext (eq_untrace hengine) hpolicy)

/-- A traced engine reaps as the engine itself does. -/
theorem untrace_reap (e : Engine κ) (mode : ReapMode) :
    e.reap mode = ((e.trace.reap mode).1, (e.trace.reap mode).2.untrace) :=
  eq_of_alike (lockstep_traced.reap e.paired_trace mode)

/-- A traced engine drains as the engine itself does. -/
theorem untrace_drain (e : Engine κ) (mode : ReapMode) :
    e.drain mode = ((e.trace.drain mode).1, (e.trace.drain mode).2.untrace) :=
  eq_of_alike (lockstep_traced.drain e.paired_trace mode)

end Engine

end RingRead
