import RingRead.Proofs.Backlog.Outstanding
import RingRead.Proofs.Simulation.Starting
import RingRead.Simulation.Scripted

/-!
# Kernels in front of a simulated one

A relay is a kernel with a simulated kernel behind it, to which it passes on all that is
asked of it. On the way back it may give another answer than the simulated kernel did, and
it need not come to it at all: it may fail before the kernel behind is reached, and it may
offer that one less than it was asked to. What it must not do is change memory, or transfer
bytes of its own.

An engine on a relay does what an engine on the kernel behind it would do
(`Ring.behind_take`, `Engine.behind_staged`, `Ring.create_behind`), until the kernel is
entered.
-/

namespace RingRead

/-- A kernel that passes on what is asked of it to a simulated kernel behind it. It need not
pass on all of it: it may answer a call of its own accord, or offer the kernel behind fewer
entries than it was asked to. Loads and stores go through as they are. -/
class Relay (κ : Type) [Kernel κ] where
  /-- The simulated kernel behind. -/
  behind : κ → SimulatedKernel
  /-- Change the kernel behind from outside. -/
  adjust : κ → (SimulatedKernel → SimulatedKernel) → κ
  behind_adjust : ∀ k change, behind (adjust k change) = change (behind k)
  setup : ∀ k entries, Kernel.setup (behind k) entries =
    ((Kernel.setup k entries).1, behind (Kernel.setup k entries).2)
  map : ∀ k length selector, Kernel.map (behind k) length selector =
    ((Kernel.map k length selector).1, behind (Kernel.map k length selector).2)
  load : ∀ k region offset, Kernel.load (behind k) region offset =
    ((Kernel.load k region offset).1, behind (Kernel.load k region offset).2)
  store : ∀ k region offset value, Kernel.store (behind k) region offset value =
    behind (Kernel.store k region offset value)
  storeEntry : ∀ k offset e, Kernel.storeEntry (behind k) offset e =
    behind (Kernel.storeEntry k offset e)
  loadEntry : ∀ k offset, Kernel.loadEntry (behind k) offset =
    ((Kernel.loadEntry k offset).1, behind (Kernel.loadEntry k offset).2)
  /-- The kernel behind is entered with no more entries than were asked for, or not at
  all. -/
  enter : ∀ k toSubmit minComplete flags,
    let entered := Kernel.enter k toSubmit minComplete flags
    (entered.transfers = [] ∧ behind entered.kernel = behind k) ∨
      ∃ offered ≤ toSubmit,
        entered.transfers = ((behind k).enter offered flags).transfers ∧
          behind entered.kernel = ((behind k).enter offered flags).kernel

namespace Relay

/-- A relay is clear if entering it is entering the kernel behind it, in what it answers as
in what it does. -/
def Clear (κ : Type) [Kernel κ] [Relay κ] : Prop :=
  ∀ (k : κ) toSubmit minComplete flags,
    let entered := Kernel.enter k toSubmit minComplete flags
    entered.answer = ((behind k).enter toSubmit flags).answer ∧
      behind entered.kernel = ((behind k).enter toSubmit flags).kernel

/-- A simulated kernel is a relay with nothing in front. -/
instance : Relay SimulatedKernel where
  behind k := k
  adjust k change := change k
  behind_adjust _ _ := rfl
  setup _ _ := rfl
  map _ _ _ := rfl
  load _ _ _ := rfl
  store _ _ _ _ := rfl
  storeEntry _ _ _ := rfl
  loadEntry _ _ := rfl
  enter _ toSubmit _ _ := Or.inr ⟨toSubmit, UInt32.le_refl toSubmit, rfl, rfl⟩

/-- A simulated kernel by itself is clear. -/
theorem clear_simulated : Clear SimulatedKernel := fun _ _ _ _ => ⟨rfl, rfl⟩

/-- What a scripted kernel does when it is entered comes from the kernel behind it: it is
entered with what was asked or with less, or not at all. -/
theorem act_cases (k : SimulatedKernel) (toSubmit flags : UInt32) (act : ScriptedAct) :
    let entered := ScriptedKernel.act k toSubmit flags act
    (entered.transfers = [] ∧ entered.kernel = k) ∨
      ∃ offered ≤ toSubmit,
        entered.transfers = (k.enter offered flags).transfers ∧
          entered.kernel = (k.enter offered flags).kernel := by
  cases act with
  | plain => exact Or.inr ⟨toSubmit, UInt32.le_refl toSubmit, rfl, rfl⟩
  | fail e => exact Or.inl ⟨rfl, rfl⟩
  | accept limit =>
    have hle : min toSubmit limit ≤ toSubmit := by
      rw [UInt32.le_iff_toNat_le, UInt32.toNat_min]
      exact Nat.min_le_left ..
    exact Or.inr ⟨min toSubmit limit, hle, rfl, rfl⟩
  | answer value => exact Or.inr ⟨toSubmit, UInt32.le_refl toSubmit, rfl, rfl⟩

instance : Relay ScriptedKernel where
  behind := ScriptedKernel.inner
  adjust k change := { k with inner := change k.inner }
  behind_adjust _ _ := rfl
  setup _ _ := rfl
  map k length selector := Prod.ext rfl (k.inner.map_snd length selector)
  load _ _ _ := rfl
  store _ _ _ _ := rfl
  storeEntry _ _ _ := rfl
  loadEntry _ _ := rfl
  enter k toSubmit _ flags := act_cases k.inner toSubmit flags (k.script.headD .plain)

end Relay

variable {κ : Type} [Kernel κ] [Relay κ]

/-- When a relay is entered, the kernel behind it takes the first of the entries that wait,
and no more of them than were asked for. If the relay is clear, it takes as many as it
answers, and without a limit as many as were asked for. -/
theorem Relay.passes_enter {k : κ} {n : UInt32} {entries : List Sqe}
    (h : (behind k).Backlog n entries) (toSubmit minComplete flags : UInt32) :
    let entered := Kernel.enter k toSubmit minComplete flags
    ∃ m ≤ toSubmit.toNat,
      (Clear κ →
        (∀ taken, entered.answer = .ok taken → m = taken.toNat) ∧
          ((behind k).acceptLimit = none → m = min entries.length toSubmit.toNat)) ∧
      (behind k).Passes n entries m (behind entered.kernel) := by
  intro entered
  by_cases hclear : Clear κ
  · obtain ⟨m, hm, htaken, hall, hpasses⟩ := h.enter toSubmit flags
    obtain ⟨hanswer, hkernel⟩ := hclear k toSubmit minComplete flags
    rw [hanswer, hkernel]
    exact ⟨m, hm, fun _ => ⟨htaken, hall⟩, hpasses⟩
  · rcases Relay.enter k toSubmit minComplete flags with ⟨-, hkernel⟩ | ⟨offered, hle, -, hkernel⟩
    · rw [hkernel]
      exact ⟨0, Nat.zero_le _, fun hnot => absurd hnot hclear, .refl h⟩
    · obtain ⟨m, hm, -, -, hpasses⟩ := h.enter offered flags
      rw [hkernel]
      exact ⟨m, hm.trans (UInt32.le_iff_toNat_le.mp hle), fun hnot => absurd hnot hclear, hpasses⟩

/-! ## Rings

Each use of a ring is a few accesses, and a relay passes each of them on. So what is known
about rings on a simulated kernel carries over, one equation for each use. -/

namespace Ring

/-- The ring as it is on the kernel behind. It has the same layout and the same count of
reads in flight. -/
def behind (r : Ring κ) : Ring SimulatedKernel := { r with kernel := Relay.behind r.kernel }

theorem behind_submissionTail (r : Ring κ) :
    r.behind.submissionTail = (r.submissionTail.1, r.submissionTail.2.behind) := by
  simp only [submissionTail, behind, Relay.load]

theorem behind_completionHead (r : Ring κ) :
    r.behind.completionHead = (r.completionHead.1, r.completionHead.2.behind) := by
  simp only [completionHead, behind, Relay.load]

theorem behind_completionTail (r : Ring κ) :
    r.behind.completionTail = (r.completionTail.1, r.completionTail.2.behind) := by
  simp only [completionTail, behind, Relay.load]

theorem behind_entry (r : Ring κ) (head : UInt32) :
    r.behind.entry head = ((r.entry head).1, (r.entry head).2.behind) := by
  simp only [entry, behind, Relay.loadEntry]
  rfl

theorem behind_publishHead (r : Ring κ) (head : UInt32) :
    r.behind.publishHead head = (r.publishHead head).behind := by
  simp only [publishHead, behind, Relay.store]

theorem behind_publishTail (r : Ring κ) (tail : UInt32) :
    r.behind.publishTail tail = (r.publishTail tail).behind := by
  simp only [publishTail, behind, Relay.store]

theorem behind_stage (r : Ring κ) (tail : UInt32) (e : Sqe) :
    r.behind.stage tail e = (r.stage tail e).behind := by
  simp only [stage, behind, Relay.storeEntry, Relay.store]
  rfl

theorem behind_stageAll (r : Ring κ) (tail : UInt32) (entries : List Sqe) :
    r.behind.stageAll tail entries = (r.stageAll tail entries).behind := by
  induction entries generalizing r tail with
  | nil => rfl
  | cons e rest ih => rw [stageAll, behind_stage, ih, stageAll]

/-- Looking for a completion finds what is found on the kernel behind. -/
theorem behind_take (r : Ring κ) : r.behind.take = (r.take.1, r.take.2.behind) := by
  rw [take, take, behind_completionHead]
  dsimp only
  rw [behind_completionTail]
  generalize hring : r.completionHead.2.completionTail.2 = r'
  have hcq : r'.behind.cq = r'.cq := rfl
  dsimp only
  rw [hcq]
  split
  · rfl
  · split
    · rfl
    · simp only [behind_entry, behind_publishHead]

/-! ## Creation

The steps of the creation ask for parameters, mappings and words. What a relay answers is
what the kernel behind has answered. -/

variable {k k' : κ} {capacity : UInt32} {params : Params}

/-- A capacity is negotiated with the kernel behind. The relay hands on the parameters that
it reports. -/
theorem negotiate_behind (h : negotiate k capacity = .ok (params, k')) :
    negotiate (Relay.behind k) capacity = .ok (params, Relay.behind k') := by
  rw [negotiate] at h ⊢
  rw [Relay.setup]
  rcases hsetup : Kernel.setup k capacity with ⟨err | found, k₁⟩
  · rw [hsetup] at h
    cases h
  · rw [hsetup] at h
    dsimp only at h ⊢
    split at h
    · cases h
    · next hdepth =>
      cases h
      rw [if_neg hdepth]

theorem mapRegion_behind {region : Region} {m : Mapping}
    (h : mapRegion k params region = .ok (m, k')) :
    mapRegion (Relay.behind k) params region = .ok (m, Relay.behind k') := by
  rw [mapRegion] at h ⊢
  rw [Relay.map]
  rcases hmap : Kernel.map k (params.regionLength region) region.selector with ⟨err | found, k₁⟩
  · rw [hmap] at h
    cases h
  · rw [hmap] at h
    cases h
    rfl

theorem locateSubmission_behind {m m' : Mapping} {sq : SubmissionQueue}
    (h : locateSubmission k params m m' = .ok (sq, k')) :
    locateSubmission (Relay.behind k) params m m' = .ok (sq, Relay.behind k') := by
  obtain ⟨tailAt, htail, h⟩ := bind_eq_ok h
  obtain ⟨maskAt, hmask, h⟩ := bind_eq_ok h
  obtain ⟨arrayAt, harray, h⟩ := bind_eq_ok h
  obtain ⟨tableAt, htable, h⟩ := bind_eq_ok h
  cases h
  simp only [locateSubmission, htail, hmask, Relay.load, harray, htable]
  rfl

theorem locateCompletion_behind {m : Mapping} {cq : CompletionQueue}
    (h : locateCompletion k params m = .ok (cq, k')) :
    locateCompletion (Relay.behind k) params m = .ok (cq, Relay.behind k') := by
  obtain ⟨headAt, hhead, h⟩ := bind_eq_ok h
  obtain ⟨tailAt, htail, h⟩ := bind_eq_ok h
  obtain ⟨maskAt, hmask, h⟩ := bind_eq_ok h
  obtain ⟨entriesAt, hentries, h⟩ := bind_eq_ok h
  cases h
  simp only [locateCompletion, hhead, htail, hmask, Relay.load, hentries]
  rfl

/-- A ring that was created on a relay was created on the kernel behind it. The relay passes
the parameters and the mappings on as they are. -/
theorem create_behind {r : Ring κ} (h : create k capacity = .ok r) :
    create (Relay.behind k) capacity = .ok r.behind := by
  obtain ⟨k₁, k₂, k₃, k₄, k₅, ⟨hzero, hmax⟩, hnegotiate, hmap₁, hmap₂, hmap₃, hsq, hcq,
    ⟨hsqMask, hcqMask⟩, hflight⟩ := create_eq_ok h
  have hcapacity : ¬(capacity = 0 ∨ maxEntries < capacity) :=
    not_or.mpr ⟨hzero, UInt32.not_lt.mpr hmax⟩
  simp only [create, if_neg hcapacity, negotiate_behind hnegotiate, mapRegion_behind hmap₁,
    mapRegion_behind hmap₂, mapRegion_behind hmap₃, locateSubmission_behind hsq,
    locateCompletion_behind hcq, bind, Except.bind, pure, Except.pure]
  have hmasks : ¬(r.sq.mask ≠ r.sq.entries - 1 ∨ r.cq.mask ≠ r.cq.entries - 1) :=
    not_or.mpr ⟨not_not.mpr hsqMask, not_not.mpr hcqMask⟩
  rw [if_neg hmasks, ← hflight]
  rfl

end Ring

/-! ## Engines

Of an engine's calls only the staging is needed here. Where the kernel is entered, a relay
may do something else than the kernel behind it would, and this is what `Relay.passes_enter`
is for. -/

namespace Engine

/-- The engine as it is on the kernel behind. The pool is the same: relays transfer what the
kernel behind transfers. -/
def behind (e : Engine κ) : Engine SimulatedKernel := ⟨e.ring.behind, e.pool⟩

variable {π : Type} [OffsetPolicy π]

/-- A batch is staged as it is staged on the kernel behind. Staging only stores, and a relay
passes stores on. -/
theorem behind_staged (e : Engine κ) (target : ReadTarget) (count : UInt32) (policy : π) :
    e.behind.staged target count policy = (e.staged target count policy).behind := by
  have hring : e.behind.ring = e.ring.behind := rfl
  have hpool : e.behind.pool = e.pool := rfl
  have hsize : e.behind.blockSize = e.blockSize := rfl
  rw [staged, staged, hring, hpool, hsize, Ring.behind_submissionTail, Ring.behind_stageAll]
  rfl

end Engine

end RingRead
