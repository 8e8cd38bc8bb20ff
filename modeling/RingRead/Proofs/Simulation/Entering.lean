import RingRead.Proofs.Simulation.Queues
import RingRead.Proofs.Simulation.Serving

/-!
# The queue of a simulated kernel

Seen from outside, a simulated kernel without a limit on what it accepts is one queue: the
completions that were posted and not taken, and after them those that are pending. Between
calls everything that was published is consumed, and the queue fits into the ring
(`Queues`).

* Posting what is pending changes nothing about the queue (`Queues.flush`).
* Entering with a batch appends a completion for each of its reads (`enter_batch`).
* Waiting changes nothing about the queue either (`enter_wait`), but unless it is
  interrupted or the kernel is stalled nothing is pending afterwards.
-/

namespace RingRead.SimulatedKernel

variable {k k' k'' : SimulatedKernel} {n : UInt32} {queue : List Cqe} {rings : SimulatedRings}

/-- Two states of one kernel: what it was told in the beginning is the same. Rings, queue,
counters and results that are left may differ. -/
structure SameSettings (k k' : SimulatedKernel) : Prop where
  file_eq : k'.file = k.file
  deferred_eq : k'.deferred = k.deferred
  reversed_eq : k'.reversed = k.reversed
  stalled_eq : k'.stalled = k.stalled
  acceptLimit_eq : k'.acceptLimit = k.acceptLimit

theorem SameSettings.refl (k : SimulatedKernel) : k.SameSettings k := ⟨rfl, rfl, rfl, rfl, rfl⟩

theorem SameSettings.trans (h : k.SameSettings k') (h' : k'.SameSettings k'') :
    k.SameSettings k'' :=
  ⟨h'.file_eq.trans h.file_eq, h'.deferred_eq.trans h.deferred_eq,
    h'.reversed_eq.trans h.reversed_eq, h'.stalled_eq.trans h.stalled_eq,
    h'.acceptLimit_eq.trans h.acceptLimit_eq⟩

/-- What happens to its rings does not change the settings of a kernel. -/
theorem sameSettings_rings (k : SimulatedKernel) (rings? : Option SimulatedRings) :
    k.SameSettings { k with rings := rings? } := ⟨rfl, rfl, rfl, rfl, rfl⟩

/-- A kernel has consumed what was published to its rings of `n` entries, and the
completions that are posted or pending are those in the queue. There is room in the ring for
all of them. -/
def Queues (k : SimulatedKernel) (n : UInt32) (queue : List Cqe) : Prop :=
  ∃ rings, k.rings = some rings ∧ rings.entries = n ∧ rings.WellFormed ∧ rings.Settled ∧
    rings.unread ++ k.pending = queue ∧ queue.length ≤ rings.cqEntries.toNat

/-- The completions that were posted and not taken, and after them those that are pending.
It is one queue for the kernel, which moves completions from its second part to the first
without changing their order. -/
def queued (k : SimulatedKernel) : List Cqe :=
  match k.rings with
  | none => k.pending
  | some rings => rings.unread ++ k.pending

theorem Queues.queued_eq (h : k.Queues n queue) : k.queued = queue := by
  obtain ⟨rings, hrings, -, -, -, hqueue, -⟩ := h
  rw [queued, hrings]
  exact hqueue

/-- There is only one queue that a kernel can have. -/
theorem Queues.self (h : k.Queues n queue) : k.Queues n k.queued := by
  rw [h.queued_eq]
  exact h

/-! ## Posting

As long as there is room for all that is pending, posting moves the border between what is
posted and what is pending, and the queue stays the same. -/

variable {cs : List Cqe} {counters : SimulationCounters}

/-- What posting one completion keeps, posting several keeps. -/
theorem postAll_induction {P : SimulatedRings → Prop} (hpost : ∀ r c, P r → P (r.post c))
    (h : P rings) (cs : List Cqe) (counters : SimulationCounters) :
    P (postAll cs rings counters).1 := by
  induction cs generalizing rings counters with
  | nil => exact h
  | cons c cs ih =>
    rw [postAll]
    split
    · exact ih h _
    · exact ih (hpost rings c h) _

/-- Completions that there is room for are posted in order. -/
theorem unread_postAll (h : rings.WellFormed)
    (hroom : rings.unread.length + cs.length ≤ rings.cqEntries.toNat)
    (counters : SimulationCounters) :
    (postAll cs rings counters).1.unread = rings.unread ++ cs := by
  induction cs generalizing rings counters with
  | nil => exact (List.append_nil _).symm
  | cons c cs ih =>
    have hnot : ¬rings.isFull := by
      intro hfull
      have hle := UInt32.le_iff_toNat_le.mp hfull
      rw [SimulatedRings.length_unread, List.length_cons] at hroom
      omega
    have hunread := SimulatedRings.unread_post h hnot c
    rw [postAll, if_neg hnot, ih (h.post c), hunread, List.append_assoc, List.singleton_append]
    rw [hunread, List.length_append, List.length_singleton, Nat.add_assoc, Nat.add_comm 1]
    exact hroom

/-- Posting what is pending keeps the queue. There is room for everything, because a read in
flight has a slot and the completion ring is twice as deep. -/
theorem Queues.flush (h : k.Queues n queue) :
    k.flush.Queues n queue ∧ k.SameSettings k.flush ∧ k.flush.injected = k.injected ∧
      k.flush.interrupts = k.interrupts ∧ (k.stalled = false → k.flush.pending = []) := by
  obtain ⟨rings, hrings, rfl, hwf, hsettled, rfl, hlength⟩ := h
  rw [SimulatedKernel.flush]
  split
  · next hstalled =>
    refine ⟨⟨rings, hrings, rfl, hwf, hsettled, rfl, hlength⟩, .refl k, rfl, rfl, ?_⟩
    intro hnot
    rw [hnot] at hstalled
    cases hstalled
  · rw [hrings]
    have hunread := unread_postAll hwf (List.length_append ▸ hlength) k.counters
    -- posting moves the completion tail and fills slots, and does not touch the submission side
    obtain ⟨hwf', hsettled', hentries⟩ : (postAll k.pending rings k.counters).1.WellFormed ∧
        (postAll k.pending rings k.counters).1.Settled ∧
        (postAll k.pending rings k.counters).1.entries = rings.entries :=
      postAll_induction (P := fun r => r.WellFormed ∧ r.Settled ∧ r.entries = rings.entries)
        (fun r c hr => ⟨hr.1.post c, ⟨hr.2.1.consumed_eq, hr.2.1.sqHead_eq⟩, hr.2.2⟩)
        ⟨hwf, hsettled, rfl⟩ k.pending k.counters
    refine ⟨⟨_, rfl, hentries, hwf', hsettled', ?_, ?_⟩, ⟨rfl, rfl, rfl, rfl, rfl⟩, rfl, rfl, ?_⟩
    · rw [hunread, List.append_nil]
    · rw [SimulatedRings.cqEntries, hentries]
      exact hlength
    · exact fun _ => rfl

/-! ## Consuming

Consuming is where the queue grows. The entries are the oldest ones that were published, and
each of them adds one completion. -/

/-- What belongs to a batch, in the order in which the kernel reports the batch: that in
which it was submitted, or the reverse. The kernel decides this once and for all, by one of
its settings. -/
def reported {α : Type} (k : SimulatedKernel) (batch : List α) : List α :=
  if k.reversed then batch.reverse else batch

theorem reported_perm {α : Type} (k : SimulatedKernel) (batch : List α) :
    (k.reported batch).Perm batch := by
  rw [reported]
  split
  · exact List.reverse_perm batch
  · exact List.Perm.refl batch

@[simp] theorem length_reported {α : Type} (k : SimulatedKernel) (batch : List α) :
    (k.reported batch).length = batch.length :=
  (k.reported_perm batch).length_eq

/-- What belongs together one by one is reported one by one. -/
theorem forall₂_reported {α β : Type} {R : α → β → Prop} {as : List α} {bs : List β}
    (k : SimulatedKernel) (h : List.Forall₂ R as bs) :
    List.Forall₂ R (k.reported as) (k.reported bs) := by
  rw [reported, reported]
  split
  · exact List.forall₂_reverse_iff.mpr h
  · exact h

variable {count : UInt32} {entries : List Sqe} {completions : List Cqe}
variable {transfers : List Transfer} {rest : List Int32}

/-- Consuming a batch puts its completions at the end of the queue, in the order in which
the kernel reports it. -/
theorem consume_batch (hrings : k.rings = some rings) (hwf : rings.WellFormed)
    (htail : rings.sqTail = rings.consumed + count)
    (hentries : rings.entriesFrom count.toNat rings.consumed = entries)
    (hperform : performAll k.file k.injected entries = (completions, transfers, rest))
    (hroom : rings.unread.length + k.pending.length + completions.length ≤
      rings.cqEntries.toNat) :
    ∃ k', k.consume count = (count, transfers, k') ∧
      k'.Queues rings.entries (rings.unread ++ k.pending ++ k.reported completions) ∧
      k.SameSettings k' ∧ k'.injected = rest ∧ k'.interrupts = k.interrupts := by
  simp only [consume, hrings, SimulatedRings.consume_published htail, hentries, hperform]
  refine ⟨_, rfl, ⟨_, rfl, rfl, ?_, ⟨rfl, rfl⟩, ?_, ?_⟩, ⟨rfl, rfl, rfl, rfl, rfl⟩, rfl, rfl⟩
  · exact hwf.of_positions ..
  · exact (List.append_assoc ..).symm
  · rw [List.length_append, List.length_append, length_reported]
    exact hroom

/-! ## Entering

A call of the kernel is counted, consumes and answers. The three parts are separate
functions here, so that each of them has its own lemmas. -/

/-- A kernel that counts one more call. -/
def entered (k : SimulatedKernel) : SimulatedKernel :=
  { k with counters.enters := k.counters.enters + 1 }

/-- A kernel that counts one more wait. -/
def waited (k : SimulatedKernel) : SimulatedKernel :=
  { k with counters.waits := k.counters.waits + 1 }

/-- Counting does not change the settings. -/
theorem sameSettings_entered (k : SimulatedKernel) : k.SameSettings k.entered :=
  ⟨rfl, rfl, rfl, rfl, rfl⟩

/-- How a kernel answers a call after it has consumed what was to be consumed. A call that
waits is interrupted as long as there are interruptions left. -/
def respond (flags : UInt32) :
    UInt32 × List Transfer × SimulatedKernel → Entered SimulatedKernel
  | (taken, transfers, k) =>
    if flags &&& enterGetEvents ≠ 0 then
      match k.interrupts with
      | 0 => ⟨.ok taken, transfers, k.waited.flush⟩
      | interrupts + 1 =>
        ⟨.error (.os SystemError.eintr), transfers, { k.waited with interrupts }⟩
    else if k.deferred then ⟨.ok taken, transfers, k⟩
    else ⟨.ok taken, transfers, k.flush⟩

/-- Without a limit on what it accepts, the kernel consumes what it is asked to. -/
theorem enter_eq_respond (hlimit : k.acceptLimit = none) (count flags : UInt32) :
    k.enter count flags = respond flags (k.entered.consume count) := by
  rcases k
  obtain rfl := hlimit
  rfl

/-- Entering with a batch accepts all of it, and its completions come last. Whether they are
posted in this call makes no difference to the queue. -/
theorem enter_batch (hrings : k.rings = some rings) (hwf : rings.WellFormed)
    (htail : rings.sqTail = rings.consumed + count)
    (hentries : rings.entriesFrom count.toNat rings.consumed = entries)
    (hlimit : k.acceptLimit = none)
    (hperform : performAll k.file k.injected entries = (completions, transfers, rest))
    (hroom : rings.unread.length + k.pending.length + completions.length ≤
      rings.cqEntries.toNat) :
    ∃ k', k.enter count 0 = ⟨.ok count, transfers, k'⟩ ∧
      k'.Queues rings.entries (rings.unread ++ k.pending ++ k.reported completions) ∧
      k.SameSettings k' ∧ k'.injected = rest := by
  obtain ⟨k', hconsume, hqueues, hsettings, hinjected, -⟩ :=
    consume_batch (k := k.entered) hrings hwf htail hentries hperform hroom
  have hsettings' : k.SameSettings k' := k.sameSettings_entered.trans hsettings
  obtain ⟨hqueues', hflush, hinjected', -, -⟩ := hqueues.flush
  rw [enter_eq_respond hlimit, hconsume, respond, if_neg (by decide)]
  split
  · exact ⟨k', rfl, hqueues, hsettings', hinjected⟩
  · exact ⟨k'.flush, rfl, hqueues', hsettings'.trans hflush, hinjected'.trans hinjected⟩

/-- `k'` is a later state of `k`, in which the queue is the given one. It may have posted,
and been interrupted, but it has not performed any operation. -/
structure LeadsTo (k : SimulatedKernel) (n : UInt32) (queue : List Cqe) (k' : SimulatedKernel) :
    Prop where
  queues : k'.Queues n queue
  settings : k.SameSettings k'
  injected_eq : k'.injected = k.injected

theorem LeadsTo.trans {queue' : List Cqe} (h : k.LeadsTo n queue k')
    (h' : k'.LeadsTo n queue' k'') : k.LeadsTo n queue' k'' :=
  ⟨h'.queues, h.settings.trans h'.settings, h'.injected_eq.trans h.injected_eq⟩

/-- A wait changes nothing about the queue. If it is not interrupted, it posts. -/
theorem enter_wait (h : k.Queues n queue) (hlimit : k.acceptLimit = none) :
    (k.interrupts = 0 →
      ∃ k', k.enter 0 enterGetEvents = ⟨.ok 0, [], k'⟩ ∧ k.LeadsTo n queue k' ∧
        (k.stalled = false → k'.pending = [])) ∧
    ∀ interrupts, k.interrupts = interrupts + 1 →
      ∃ k', k.enter 0 enterGetEvents = ⟨.error (.os SystemError.eintr), [], k'⟩ ∧
        k.LeadsTo n queue k' ∧ k'.interrupts = interrupts := by
  obtain ⟨rings, hrings, rfl, hwf, hsettled, hqueue, hlength⟩ := h
  have htail : rings.sqTail = rings.consumed + 0 := by
    rw [UInt32.add_zero, hsettled.consumed_eq]
  have hroom : rings.unread.length + k.entered.pending.length + 0 ≤ rings.cqEntries.toNat := by
    rw [Nat.add_zero, ← List.length_append]
    exact hqueue ▸ hlength
  have hentries : rings.entriesFrom (0 : UInt32).toNat rings.consumed = [] := rfl
  -- everything that was published is consumed, so a call that submits nothing consumes nothing
  obtain ⟨k', hconsume, hqueues, hsettings, hinjected, hinterrupts⟩ :=
    consume_batch (k := k.entered) hrings hwf htail hentries rfl hroom
  have hempty : k.entered.reported ([] : List Cqe) = [] := ite_self []
  have hqueues' : k'.waited.Queues rings.entries queue := by
    rw [hempty, List.append_nil] at hqueues
    exact hqueue ▸ hqueues
  have hsettings' : k.SameSettings k'.waited :=
    (k.sameSettings_entered.trans hsettings).trans ⟨rfl, rfl, rfl, rfl, rfl⟩
  have hinjected' : k'.waited.injected = k.injected := hinjected
  have hinterrupts' : k'.interrupts = k.interrupts := hinterrupts
  rw [enter_eq_respond hlimit, hconsume, respond, if_pos (by decide), hinterrupts']
  constructor
  · intro hzero
    obtain ⟨hflushed, hflush, hsame, -, hpending⟩ := hqueues'.flush
    refine ⟨k'.waited.flush, by rw [hzero],
      ⟨hflushed, hsettings'.trans hflush, hsame.trans hinjected'⟩, fun hstalled => ?_⟩
    exact hpending (hsettings'.stalled_eq.trans hstalled)
  · intro interrupts hsome
    have hsame : k.SameSettings { k'.waited with interrupts } :=
      hsettings'.trans ⟨rfl, rfl, rfl, rfl, rfl⟩
    exact ⟨{ k'.waited with interrupts }, by rw [hsome], ⟨hqueues', hsame, hinjected'⟩, rfl⟩

end RingRead.SimulatedKernel
