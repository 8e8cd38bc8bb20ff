import RingRead.Proofs.Backlog.Incidents
import RingRead.Proofs.Engine.Exchanges
import RingRead.Proofs.Engine.Lockstep
import RingRead.Proofs.Simulation.Batches

/-!
# Engines in good order

A simulated kernel that takes everything at once and reports in order copies data while it
is entered, and at no other time. The data go to the blocks of the batch that it is entered
with, which have just gone on loan. So no free block is ever written to, and no mark is
lost.

`e.Orderly n` says that an engine on such a kernel is in good order: nothing waits, and the
pool is intact. A new engine is (`orderly_create`), and stays so whatever happens to it
(`Orderly.undergoAll`): completions may be deferred, withheld or forged, results may be
given in advance, and submissions may fail.
-/

namespace RingRead

namespace SimulatedKernel

variable {entries : List Sqe}

/-! ## The kernel

What a simulated kernel does when it is entered depends on its settings and on the entries
that it finds. The settings stay. What it copies is cut to the length of the entry and to
the end of the file, whatever result it then reports. -/

theorem sameSettings_consume (k : SimulatedKernel) (limit : UInt32) :
    k.SameSettings (k.consume limit).2.2 := by
  rw [consume]
  split
  · exact .refl k
  · exact ⟨rfl, rfl, rfl, rfl, rfl⟩

/-- How a call ends is decided by the settings of a kernel, and does not change them. -/
theorem sameSettings_respond (k : SimulatedKernel) (flags taken : UInt32)
    (transfers : List Transfer) :
    k.SameSettings (respond flags (taken, transfers, k)).kernel := by
  have hwaited : k.SameSettings k.waited := ⟨rfl, rfl, rfl, rfl, rfl⟩
  rw [respond]
  split
  · split
    · exact hwaited.trans k.waited.sameSettings_flush
    · exact ⟨rfl, rfl, rfl, rfl, rfl⟩
  · split
    · exact .refl k
    · exact k.sameSettings_flush

/-- Entering a kernel changes none of its settings: its file, its limit, and whether it
defers, withholds or reverses. -/
theorem sameSettings_enter (k : SimulatedKernel) (toSubmit flags : UInt32) :
    k.SameSettings (k.enter toSubmit flags).kernel := by
  have hconsumed := k.sameSettings_entered.trans
    (k.entered.sameSettings_consume (k.limitTo toSubmit))
  rw [enter_eq_respond_limitTo]
  exact hconsumed.trans (sameSettings_respond ..)

/-- What the kernel is told in the beginning stays so. -/
theorem keeps_sameSettings (k₀ : SimulatedKernel) : Kernel.Keeps k₀.SameSettings where
  load _ h _ _ := h
  store k h _ _ _ := h.trans (k.sameSettings_rings _)
  storeEntry k h _ _ := h.trans (k.sameSettings_rings _)
  loadEntry _ h _ := h
  enter k h toSubmit _ flags := h.trans (k.sameSettings_enter toSubmit flags)

/-- A wait transfers nothing. No entry is taken in it, and what was deferred was transferred
when it was taken. -/
theorem transfers_wait (k : SimulatedKernel) : (k.enter 0 enterGetEvents).transfers = [] := by
  rw [enter_wait_eq, respond, if_pos (by decide)]
  split
  · rfl
  · rfl

/-- Bytes are copied as an entry asks for it: to the address that it names, no more of them
than it says, and from inside the file alone. -/
structure Copies (file : Bytes) (s : Sqe) (t : Transfer) : Prop where
  address_eq : t.address = s.addr
  size_le : t.piece.size ≤ s.len.toNat
  inside : min s.off.toNat file.size + t.piece.size ≤ file.size
  piece_eq : t.piece.toList = (file.toList.drop (min s.off.toNat file.size)).take t.piece.size

/-- An offset past the end of the file is as good as the end. -/
theorem copies_slice {file : Bytes} {s : Sqe} {length : Nat} (h : length ≤ s.len.toNat) :
    Copies file s ⟨s.addr, file.slice s.off.toNat length⟩ := by
  have hsize := Bytes.size_slice file s.off.toNat length
  refine ⟨rfl, ?_, ?_, ?_⟩
  · dsimp only
    omega
  · dsimp only
    omega
  · dsimp only
    rw [Bytes.toList_slice, hsize]
    by_cases hoff : s.off.toNat ≤ file.size
    · rw [Nat.min_eq_left hoff, ← file.length_toList, ← List.length_drop, ← List.take_take,
        List.take_length]
    · have hend : file.size ≤ s.off.toNat := Nat.le_of_not_le hoff
      have hnil : file.toList.drop s.off.toNat = [] :=
        List.drop_of_length_le (by rwa [Bytes.length_toList])
      rw [Nat.sub_eq_zero_of_le hend, Nat.min_zero, hnil, List.take_nil, List.take_zero]

/-- Whatever result is given in advance, no more is copied than the entry asks for. -/
theorem copies_of_mem_perform {file : Bytes} {injected : List Int32} {s : Sqe} {t : Transfer}
    (ht : t ∈ (perform file injected s).2.1) : Copies file s t := by
  rw [perform.eq_def] at ht
  dsimp only at ht
  split at ht
  · cases ht
  · split at ht
    · cases injected with
      | nil =>
        cases ht
        exact copies_slice (Nat.le_refl _)
      | cons res rest =>
        dsimp only at ht
        split at ht
        · cases ht
        · cases ht
          exact copies_slice (Nat.min_le_right ..)
    · cases ht

theorem copies_of_mem_performAll {file : Bytes} {injected : List Int32} {t : Transfer}
    (ht : t ∈ (performAll file injected entries).2.1) : ∃ s ∈ entries, Copies file s t := by
  induction entries generalizing injected with
  | nil => cases ht
  | cons s rest ih =>
    rcases List.mem_append.mp ht with hfirst | hrest
    · exact ⟨s, List.mem_cons_self .., copies_of_mem_perform (Option.mem_toList.mp hfirst)⟩
    · obtain ⟨s', hs', hcopies⟩ := ih hrest
      exact ⟨s', List.mem_cons_of_mem _ hs', hcopies⟩

end SimulatedKernel

namespace Engine

variable {κ π : Type} [OffsetPolicy π] {e : Engine SimulatedKernel} {n requested count : UInt32}
variable {target : ReadTarget} {policy : π}

/-! ## Good order

The three parts need each other. Marks stay intact because data arrive in blocks on loan,
which is so because nothing waits that a block could be taken back from, and nothing waits
because the kernel takes everything. -/

/-- Nothing waits, no mark is damaged, and the kernel takes everything and reports in order.
It may still defer completions and withhold them. This is kept by all incidents that do not
change the settings of the kernel, so it is there wherever two batches are to be compared
with one. -/
structure Orderly (e : Engine SimulatedKernel) (n : UInt32) : Prop where
  tracks : e.Tracks n []
  intact : e.pool.Intact
  acceptLimit_eq : e.ring.kernel.acceptLimit = none
  reversed_eq : e.ring.kernel.reversed = false

/-- All that was published is consumed. -/
theorem Orderly.settled (h : e.Orderly n) :
    ∃ rings, e.ring.kernel.rings = some rings ∧ rings.entries = n ∧ rings.WellFormed ∧
      rings.Settled := by
  obtain ⟨rings, hrings, hn, hwaits, -⟩ := h.tracks.backlog
  have htail : rings.sqTail = rings.consumed :=
    hwaits.sqTail_eq.trans (Position.add_ofNat_zero _)
  exact ⟨rings, hrings, hn, hwaits.wellFormed, htail.symm, hwaits.sqHead_eq.trans htail.symm⟩

/-- A complete batch is accepted as a whole, and served at once. So the whole effect of a
submission can be written down: on the kernel, the pool and the policy. -/
theorem Orderly.submitReads_of_complete (h : e.Orderly n)
    (hcount : min requested e.ring.available = count) (hne : count ≠ 0)
    (hblocks : target.blocks e.blockSize ≠ 0)
    (hok : (Pool.loanReads (target.blocks e.blockSize) count.toNat e.pool policy).1 = .ok ()) :
    let loan := Pool.loanReads (target.blocks e.blockSize) count.toNat e.pool policy
    let entries := e.stagedEntries target count policy
    e.submitReads target requested policy =
      (.ok count,
        ⟨{ e.ring with
            kernel := (e.ring.kernel.entered.serve entries).prompted
            inFlight := e.ring.inFlight + count },
          loan.2.2.1.receiveAll (e.ring.kernel.delivers entries)⟩,
        loan.2.2.2) := by
  intro loan entries
  obtain ⟨rings, hrings, hn, hwf, hsettled⟩ := h.settled
  have hsound := h.intact.toSound
  have hlayout : e.ring.HasLayout rings.entries := hn ▸ h.tracks.layout
  have hlength : entries.length = count.toNat :=
    (List.length_map _).trans ((Pool.length_loanReads e.pool _ count.toNat policy).2 hok)
  have hle : count.toNat ≤ rings.entries.toNat := by
    have hroom := h.tracks.balanced.toNat_min_le requested
    rw [hcount, h.tracks.capacity_eq, ← hn] at hroom
    exact Nat.le_trans hroom (Nat.sub_le ..)
  have henter := SimulatedKernel.enter_eq_serve hrings hwf hsettled h.acceptLimit_eq h.reversed_eq
    hlength hle
  have htail : e.ring.submissionTail.1 = rings.sqTail :=
    congrArg Prod.fst (Ring.submissionTail_eq hlayout hrings)
  have hstaged := staged_on_simulated hlayout hrings hwf target count policy
  -- the ring with the batch in its slots and the tail not moved yet
  let kernel := { e.ring.kernel with rings := some (rings.stageAll rings.sqTail entries) }
  have hhand : handOver ⟨{ e.ring with kernel }, loan.2.2.1⟩ count (rings.sqTail + count) =
      (.ok count,
        ⟨{ e.ring with
            kernel := (e.ring.kernel.entered.serve entries).prompted
            inFlight := e.ring.inFlight + count },
          loan.2.2.1.receiveAll (e.ring.kernel.delivers entries)⟩) :=
    handOver_on_simulated ⟨hlayout.sq_eq, hlayout.cq_eq⟩ rfl henter
  have hsubmit := submitReads_of_room hsound hcount hne hblocks policy
  rw [hok, htail, hstaged] at hsubmit
  obtain ⟨hanswer, hengine⟩ := Prod.mk.inj (hsubmit.trans hhand)
  exact Prod.ext hanswer (Prod.ext hengine (policy_submitReads hsound hcount hne hblocks policy))

/-! ## What an incident keeps

A submission is the only incident in which data arrive. All others move completions and
blocks, and a block that is given back gets its mark in the same step. -/

/-- The kernel keeps its settings, whatever happens. -/
theorem sameSettings_undergo (e : Engine SimulatedKernel) (incident : Incident) :
    e.ring.kernel.SameSettings (e.undergo incident).ring.kernel := by
  cases incident with
  | call call => exact (SimulatedKernel.keeps_sameSettings e.ring.kernel).perform (.refl _) call
  | inject res => exact ⟨rfl, rfl, rfl, rfl, rfl⟩
  | interrupt => exact ⟨rfl, rfl, rfl, rfl, rfl⟩
  | post c =>
    have hpending : e.ring.kernel.SameSettings
        { e.ring.kernel with pending := e.ring.kernel.pending ++ [c] } := ⟨rfl, rfl, rfl, rfl, rfl⟩
    exact hpending.trans (SimulatedKernel.sameSettings_flush _)

/-- What a kernel delivers for a batch arrives in the blocks of the batch, which have just
gone on loan. -/
theorem loaned_of_mem_delivers {kernel : SimulatedKernel} {t : Transfer} (h : e.pool.Sound)
    (ht : t ∈ kernel.delivers (e.stagedEntries target count policy)) :
    (e.staged target count policy).pool.state? (Address.index t.address) = some .loaned := by
  obtain ⟨s, hs, hcopies⟩ := SimulatedKernel.copies_of_mem_performAll ht
  obtain ⟨id, ⟨-, haddr⟩, hloaned⟩ := names_of_mem_stagedEntries h hs
  rw [hcopies.address_eq, haddr, Address.index_ofIndex]
  exact hloaned

/-- A submission damages no mark, whether it succeeds or not. -/
theorem Orderly.intact_submitReads (h : e.Orderly n) (target : ReadTarget) (requested : UInt32)
    (policy : π) : (e.submitReads target requested policy).2.1.pool.Intact := by
  have hsound := h.intact.toSound
  have hstaged (count : UInt32) : (e.staged target count policy).pool.Intact :=
    (h.intact.loanReads (target.blocks e.blockSize) count.toNat policy).1
  rcases submitReads_cases hsound target requested policy with
    hsame | ⟨hblocks, hcount, hsame | ⟨hok, -⟩⟩
  · rw [hsame]
    exact h.intact
  · rw [hsame]
    exact hstaged _
  · rw [h.submitReads_of_complete rfl hcount hblocks hok]
    exact (hstaged _).receiveAll fun t ht => loaned_of_mem_delivers hsound ht

/-- A block that comes back is free with its mark, or is held. -/
theorem intact_finish {e : Engine κ} (h : e.pool.Intact) (c : Cqe) :
    (e.finish c).2.pool.Intact := by
  by_cases hloaned : e.pool.state? c.userData.toNat = some .loaned
  · have hreturned : (e.returned c).pool.Intact := h.reclaim hloaned
    rw [finish_of_loaned h.toSound hloaned]
    cases e.verdict c with
    | error err => exact hreturned.release (check_returned h.toSound hloaned)
    | ok completion => exact hreturned
  · rw [finish_of_unknown hloaned]
    exact h

/-- No data arrive while a completion is looked for, whether or not that means to wait. -/
theorem pool_takeOrWait (e : Engine SimulatedKernel) (mode : ReapMode) :
    (e.takeOrWait mode).2.pool = e.pool := by
  refine takeOrWait_invariant (P := fun e' => e'.pool = e.pool) ?_ ?_ rfl mode
  · intro e' hsame
    exact hsame
  · intro e' hsame
    change e'.pool.receiveAll (e'.ring.kernel.enter 0 enterGetEvents).transfers = e.pool
    rw [SimulatedKernel.transfers_wait]
    exact hsame

theorem intact_reap (h : e.pool.Intact) (mode : ReapMode) : (e.reap mode).2.pool.Intact := by
  have hintact : (e.takeOrWait mode).2.pool.Intact := (e.pool_takeOrWait mode).symm ▸ h
  rcases e.reap_looked mode with hlooked | ⟨c, hfinished⟩
  · rw [hlooked]
    exact hintact
  · rw [hfinished]
    exact intact_finish hintact c

theorem intact_release (h : e.pool.Intact) (token : Token) : (e.release token).2.pool.Intact := by
  rcases hcheck : e.pool.check token with err | _
  · rw [release, Pool.release_error hcheck]
    exact h
  · exact h.release hcheck

/-- Marks are damaged only by bytes that arrive in a free block. In good order the kernel
copies into blocks on loan alone, so there are none. -/
theorem Orderly.intact_undergo (h : e.Orderly n) (incident : Incident) :
    (e.undergo incident).pool.Intact := by
  cases incident with
  | call call =>
    cases call with
    | submitReads target requested policy => exact h.intact_submitReads target requested policy
    | reap mode => exact intact_reap h.intact mode
    | drain mode =>
      exact drain_invariant (P := fun e' => e'.pool.Intact) (fun _ h mode => intact_reap h mode)
        h.intact mode
    | release token => exact intact_release h.intact token
  | inject res => exact h.intact
  | interrupt => exact h.intact
  | post c => exact h.intact

/-- Nothing that happens brings an engine out of order. -/
theorem Orderly.undergo (h : e.Orderly n) (incident : Incident) :
    (e.undergo incident).Orderly n := by
  obtain ⟨htracks, hlimit⟩ := h.tracks.nil_undergo Relay.clear_simulated (Or.inl h.acceptLimit_eq)
  exact ⟨htracks, h.intact_undergo incident, hlimit.trans h.acceptLimit_eq,
    (e.sameSettings_undergo incident).reversed_eq.trans h.reversed_eq⟩

/-- So an engine in good order is in good order after every run. -/
theorem Orderly.undergoAll (h : e.Orderly n) (run : List Incident) :
    (e.undergoAll run).Orderly n := by
  induction run generalizing e with
  | nil => exact h
  | cons first rest ih => exact ih (h.undergo first)

/-- A new engine is in good order if its kernel takes everything and reports in order. -/
theorem orderly_create {kernel : SimulatedKernel} {capacity serial : UInt32} {config : PoolConfig}
    {mappings : MappingAnswers}
    (h : create kernel capacity serial config mappings = .ok e) (hlimit : kernel.acceptLimit = none)
    (hreversed : kernel.reversed = false) : ∃ n, e.Orderly n := by
  obtain ⟨hpool, hring⟩ := create_eq_ok h
  obtain ⟨n, htracks, hlimit', -⟩ := tracks_create h
  obtain ⟨-, -, hkernel, -⟩ := Ring.create_on_simulated hring
  refine ⟨n, htracks, Pool.intact_create hpool, hlimit'.trans hlimit, ?_⟩
  rw [hkernel]
  exact hreversed

end Engine

end RingRead
