import RingRead.Proofs.Pool.Memory
import RingRead.Proofs.Simulation.ReadingBack

/-!
# Copying into blocks

All that happens to the memory of blocks in a run of an engine on a simulated kernel. Each
incident comes down to calls of the pool, and then to what the kernel copies
(`Engine.eventsOf`): a submission allocates and lends its blocks and enters the kernel, and
a reap takes a block back and gives it up if the read has failed.

* **The pool.** The pool after a run is what these events make of the pool before it
  (`Engine.pool_undergoAll`).
* **The copies.** What is copied was asked for by an entry that was staged in the run, and
  it fits into the block that this entry names (`Engine.copies_along`).

The accesses of these events are then those of `Pool.accessesAlong`.
-/

namespace RingRead

/-! ## Calls

A submission and a reap use the pool through its calls, a few of them each. To say what a
run does to memory they are written down as lists, and the pool after a run is what comes of
the lists. -/

namespace Pool

variable {π : Type} [OffsetPolicy π] {p : Pool}

/-- The calls by which so many blocks are lent, as far as blocks can be had. The first
allocation that fails is the last call. -/
def loanCalls : (count : Nat) → Pool → List PoolCall
  | 0, _ => []
  | count + 1, p =>
    .allocate :: match p.allocate with
      | (.error _, _) => []
      | (.ok t, p) => .loan t :: loanCalls count (p.loan t).2

/-- A pool after calls. -/
def callAll (p : Pool) (calls : List PoolCall) : Pool := p.undergoAll (calls.map .call)

theorem callAll_append (p : Pool) (calls calls' : List PoolCall) :
    p.callAll (calls ++ calls') = (p.callAll calls).callAll calls' := by
  rw [callAll, List.map_append, undergoAll_append]
  rfl

/-- These calls make of the pool what loaning a batch makes of it. -/
theorem callAll_loanCalls (p : Pool) (blocks : UInt64) (count : Nat) (policy : π) :
    p.callAll (p.loanCalls count) = (loanReads blocks count p policy).2.2.1 := by
  induction count generalizing p policy with
  | zero => rfl
  | succ count ih =>
    rcases halloc : p.allocate with ⟨err | t, p'⟩
    · rw [loanReads_of_error halloc, loanCalls, halloc]
      exact congrArg Prod.snd halloc
    · rw [loanReads_of_ok halloc, loanCalls, halloc]
      have hundergo : p.undergo (.call .allocate) = p' := congrArg Prod.snd halloc
      refine Eq.trans ?_ (ih (p'.loan t).2 _)
      rw [← hundergo]
      rfl

/-- To receive is one of the things that happen to a pool. -/
theorem undergoAll_receive (p : Pool) (transfers : List Transfer) :
    p.undergoAll (transfers.map .receive) = p.receiveAll transfers :=
  List.foldl_map

theorem admitsAll_calls (p : Pool) (calls : List PoolCall) : p.AdmitsAll (calls.map .call) := by
  induction calls generalizing p with
  | nil => trivial
  | cons call rest ih => exact ⟨trivial, ih _⟩

/-- What arrives does not take the place away from what arrives later. -/
theorem admitsAll_receive {transfers : List Transfer} (h : ∀ t ∈ transfers, p.Lands t) :
    p.AdmitsAll (transfers.map .receive) := by
  induction transfers generalizing p with
  | nil => trivial
  | cons t rest ih =>
    obtain ⟨hfirst, hrest⟩ := List.forall_mem_cons.mp h
    refine ⟨hfirst, ih fun t' ht' => ?_⟩
    obtain ⟨hindex, hfits⟩ := hrest t' ht'
    exact ⟨(size_receive p t).symm ▸ hindex, hfits⟩

end Pool

/-! ## The kernel

Data are copied when an entry is performed, which happens when it is consumed. So the copies
of a call can be told from the entries that wait when it is made. -/

namespace SimulatedKernel

variable {k : SimulatedKernel} {t : Transfer}

/-- What a kernel copies while it is entered is what it copies of the entries that it
consumes. Posting copies nothing. -/
theorem transfers_enter (k : SimulatedKernel) (toSubmit flags : UInt32) :
    (k.enter toSubmit flags).transfers = (k.entered.consume (k.limitTo toSubmit)).2.1 := by
  rw [enter_eq_respond_limitTo, respond]
  split
  · split
    · rfl
    · rfl
  · split
    · rfl
    · rfl

/-- What an enter copies was asked for by an entry that waited when it was made. Entries
that are published later have no part in it. -/
theorem copies_of_mem_enter {toSubmit flags : UInt32}
    (ht : t ∈ (k.enter toSubmit flags).transfers) :
    ∃ s ∈ k.waiting, Copies k.file s t := by
  rw [transfers_enter, consume] at ht
  rcases hrings : k.rings with _ | rings
  · have hnone : k.entered.rings = none := hrings
    rw [hnone] at ht
    cases ht
  · have hsome : k.entered.rings = some rings := hrings
    rw [hsome] at ht
    obtain ⟨s, hs, hcopies⟩ := copies_of_mem_performAll ht
    refine ⟨s, ?_, hcopies⟩
    rw [waiting_of_rings hrings, ← rings.consume_append_waiting (k.limitTo toSubmit)]
    exact List.mem_append_left _ hs

end SimulatedKernel

/-! ## Events of an engine

For each incident there is a list of events of the pool. That the list is the right one is
shown once, in `pool_undergo`, and everything about accesses is then about lists of
events. -/

namespace Engine

section Calls

variable {κ : Type} {e : Engine κ}

/-- The calls by which a completion entry is finished. A tag without a block on loan is
looked up and refused. -/
def finishCalls (e : Engine κ) (c : Cqe) : List PoolCall :=
  .reclaim c.userData ::
    if e.pool.state? c.userData.toNat = some .loaned then
      match e.verdict c with
      | .error _ => [.release (e.pool.issue c.userData.toUInt32)]
      | .ok _ => []
    else []

theorem pool_finish (h : e.pool.Sound) (c : Cqe) :
    (e.finish c).2.pool = e.pool.callAll (e.finishCalls c) := by
  rw [finishCalls]
  by_cases hloaned : e.pool.state? c.userData.toNat = some .loaned
  · rw [finish_of_loaned h hloaned, if_pos hloaned]
    cases e.verdict c with
    | error err => rfl
    | ok completion => rfl
  · rw [finish_of_unknown hloaned, if_neg hloaned]
    exact (congrArg Prod.snd (Pool.reclaim_unknown hloaned)).symm

variable [Kernel κ]

/-- The calls of a reap. -/
def reapCalls (e : Engine κ) (mode : ReapMode) : List PoolCall :=
  match e.takeOrWait mode with
  | (.ok (some c), e) => e.finishCalls c
  | (.ok none, _) | (.error _, _) => []

/-- The calls of several reaps. -/
def reapAllCalls : List ReapMode → Engine κ → List PoolCall
  | [], _ => []
  | mode :: modes, e => e.reapCalls mode ++ reapAllCalls modes (e.reap mode).2

end Calls

variable {e e₀ : Engine SimulatedKernel} {run : List Incident} {incident : Incident} {t : Transfer}

/-- A reap does to the pool what its calls do: it takes back one block, and gives it up
again if the read has failed. -/
theorem pool_reap (h : e.pool.Sound) (mode : ReapMode) :
    (e.reap mode).2.pool = e.pool.callAll (e.reapCalls mode) := by
  have hpool := e.pool_takeOrWait mode
  rw [reapCalls]
  rcases htake : e.takeOrWait mode with ⟨err | _ | c, e'⟩
  all_goals rw [htake] at hpool
  · rw [reap_of_error htake]
    exact hpool
  · rw [reap_of_none htake]
    exact hpool
  · rw [reap_of_taken htake]
    have hsound : e'.pool.Sound := hpool.symm ▸ h
    exact (pool_finish hsound c).trans (congrArg (Pool.callAll · _) hpool)

theorem pool_reapAll (h : e.pool.Sound) (modes : List ReapMode) :
    (reapAll modes e).2.pool = e.pool.callAll (reapAllCalls modes e) := by
  induction modes generalizing e with
  | nil => rfl
  | cons mode modes ih =>
    rw [reapAllCalls, Pool.callAll_append, ← pool_reap h mode]
    exact ih (sound_of_reap h rfl)

/-- The calls of the pool in an incident. -/
def callsOf (e : Engine SimulatedKernel) : Incident → List PoolCall
  | .call (@Call.submitReads _ _ target requested _) =>
    if target.blocks e.blockSize = 0 then []
    else e.pool.loanCalls (min requested e.ring.available).toNat
  | .call (.reap mode) => e.reapCalls mode
  | .call (.drain mode) => reapAllCalls (e.drainModes mode) e
  | .call (.release token) => [.release token]
  | .inject _ | .interrupt | .post _ => []

/-- What the kernel copies in an incident: it does when a complete batch is handed over, and
at no other time. Waiting makes it post completions, but the bytes are there by then. -/
def transfersOf (e : Engine SimulatedKernel) : Incident → List Transfer
  | .call (@Call.submitReads _ _ target requested policy) =>
    let count := min requested e.ring.available
    if count = 0 ∨ target.blocks e.blockSize = 0 then []
    else
      match (Pool.loanReads (target.blocks e.blockSize) count.toNat e.pool policy).1 with
      | .error _ => []
      | .ok () => ((e.published target count policy).ring.kernel.enter count 0).transfers
  | _ => []

/-- What happens to the pool in an incident: the calls first, and then what the kernel
copies. A submission has made all its calls by the time it enters the kernel. -/
def eventsOf (e : Engine SimulatedKernel) (incident : Incident) : List PoolEvent :=
  (e.callsOf incident).map .call ++ (e.transfersOf incident).map .receive

/-- What happens to the pool in a run. -/
def eventsAlong : Engine SimulatedKernel → List Incident → List PoolEvent
  | _, [] => []
  | e, incident :: rest => e.eventsOf incident ++ (e.undergo incident).eventsAlong rest

/-- The pool after a submission is what the calls of its batch make of it, and the copies
after them. -/
theorem pool_submitReads {π : Type} [OffsetPolicy π] (h : e.pool.Sound) (target : ReadTarget)
    (requested : UInt32) (policy : π) :
    let incident := Incident.call (.submitReads target requested policy)
    (e.undergo incident).pool =
      (e.pool.callAll (e.callsOf incident)).receiveAll (e.transfersOf incident) := by
  intro incident
  change (e.submitReads target requested policy).2.1.pool = _
  rw [callsOf, transfersOf]
  generalize hcount : min requested e.ring.available = count
  by_cases hnone : count = 0
  · have hfull : min requested e.ring.available = 0 := hcount.trans hnone
    rw [submitReads_of_full hfull, if_pos (Or.inl hnone), hnone]
    split
    · rfl
    · rfl
  by_cases hblocks : target.blocks e.blockSize = 0
  · rw [submitReads_of_small (hcount ▸ hnone) hblocks, if_pos hblocks, if_pos (Or.inr hblocks)]
    rfl
  rw [if_neg hblocks, if_neg (not_or.mpr ⟨hnone, hblocks⟩),
    Pool.callAll_loanCalls e.pool (target.blocks e.blockSize) count.toNat policy]
  -- the calls of the pool are the same whether or not the batch is then handed over
  have hsubmit := submitReads_of_room h hcount hnone hblocks policy
  rcases hloan : (Pool.loanReads (target.blocks e.blockSize) count.toNat e.pool policy).1
    with err | _
  · rw [hloan] at hsubmit
    exact congrArg (fun submitted => submitted.2.pool) hsubmit
  · obtain ⟨-, inFlight, hengine⟩ := e.handOver_eq target count policy
    rw [hloan] at hsubmit
    exact congrArg Engine.pool ((congrArg Prod.snd hsubmit).trans hengine)

/-- The pool after an incident is what its events make of the pool. -/
theorem pool_undergo (h : e.pool.Sound) (incident : Incident) :
    (e.undergo incident).pool =
      (e.pool.callAll (e.callsOf incident)).receiveAll (e.transfersOf incident) := by
  cases incident with
  | call call =>
    cases call with
    | submitReads target requested policy => exact pool_submitReads h target requested policy
    | reap mode => exact pool_reap h mode
    | drain mode =>
      change (e.drain mode).2.pool = _
      rw [drain_eq_reapAll]
      exact pool_reapAll h (e.drainModes mode)
    | release token => rfl
  | inject res => rfl
  | interrupt => rfl
  | post c => rfl

theorem undergoAll_eventsOf (h : e.pool.Sound) (incident : Incident) :
    e.pool.undergoAll (e.eventsOf incident) = (e.undergo incident).pool := by
  rw [eventsOf, Pool.undergoAll_append, Pool.undergoAll_receive, pool_undergo h]
  rfl

theorem eventsAlong_append (e : Engine SimulatedKernel) (past : List Incident)
    (incident : Incident) :
    e.eventsAlong (past ++ [incident]) =
      e.eventsAlong past ++ (e.undergoAll past).eventsOf incident := by
  induction past generalizing e with
  | nil => exact List.append_nil _
  | cons first rest ih =>
    rw [List.cons_append, eventsAlong, ih, eventsAlong, List.append_assoc]
    rfl

/-- **The pool.** The pool after a run is what its events make of the pool. -/
theorem pool_undergoAll (h : e.Reachable) (run : List Incident) :
    (e.undergoAll run).pool = e.pool.undergoAll (e.eventsAlong run) := by
  induction run generalizing e with
  | nil => rfl
  | cons incident rest ih =>
    rw [eventsAlong, Pool.undergoAll_append, undergoAll_eventsOf h.balanced.sound]
    exact ih (h.undergo incident)

/-! ## Copies

An entry that is copied for was staged at some point of the run, perhaps many incidents
before the kernel came to it. In the meantime its block may have been given back, and be in
any state. It is still a block of the pool, and as long as it was. -/

theorem stagedAlong_append (e : Engine SimulatedKernel) (past : List Incident)
    (incident : Incident) :
    e.stagedAlong (past ++ [incident]) =
      e.stagedAlong past ++ (e.undergoAll past).stagedBy incident := by
  induction past generalizing e with
  | nil => exact List.append_nil _
  | cons first rest ih =>
    rw [List.cons_append, stagedAlong, ih, stagedAlong, List.append_assoc]
    rfl

/-- No block is ever lost. A pool makes blocks and takes none apart. -/
theorem size_le_undergoAll (h : e.Reachable) (run : List Incident) :
    e.pool.size ≤ (e.undergoAll run).pool.size := by
  rw [pool_undergoAll h run]
  exact (Pool.later_undergoAll ..).size_le

/-- What is staged names blocks that there are. -/
theorem names_of_mem_stagedBy {s : Sqe} (h : e.pool.Sound) (hs : s ∈ e.stagedBy incident) :
    ∃ id, s.Names id ∧ id.toNat < (e.undergo incident).pool.size := by
  rw [pool_undergo h, Pool.size_receiveAll]
  cases incident with
  | call call =>
    cases call with
    | submitReads target requested policy =>
      rw [stagedBy] at hs
      rw [callsOf]
      split at hs
      · cases hs
      · next hblocks =>
        obtain ⟨id, hnames, hloaned⟩ := names_of_mem_stagedEntries h hs
        rw [if_neg hblocks,
          Pool.callAll_loanCalls e.pool (target.blocks e.blockSize) _ policy]
        exact ⟨id, hnames, Pool.state?_isSome_iff.mp (Option.isSome_of_eq_some hloaned)⟩
    | _ => cases hs
  | _ => cases hs

theorem names_of_mem_stagedAlong {s : Sqe} (h : e.Reachable) (hs : s ∈ e.stagedAlong run) :
    ∃ id, s.Names id ∧ id.toNat < (e.undergoAll run).pool.size := by
  induction run generalizing e with
  | nil => cases hs
  | cons incident rest ih =>
    rcases List.mem_append.mp hs with hnow | hlater
    · obtain ⟨id, hnames, hid⟩ := names_of_mem_stagedBy h.balanced.sound hnow
      exact ⟨id, hnames, Nat.lt_of_lt_of_le hid (size_le_undergoAll (h.undergo incident) rest)⟩
    · exact ih (h.undergo incident) hlater

/-- What the kernel copies in an incident was asked for within the terms. -/
theorem copies_of_mem_transfersOf {terms : Terms} {n : UInt32} (h : e.ring.Meets terms n)
    (hasked : ∀ s ∈ e.stagedBy incident, terms.asked s) (ht : t ∈ e.transfersOf incident) :
    ∃ s, terms.asked s ∧ SimulatedKernel.Copies e.ring.kernel.file s t := by
  cases incident with
  | call call =>
    cases call with
    | submitReads target requested policy =>
      rw [transfersOf] at ht
      rw [stagedBy] at hasked
      generalize min requested e.ring.available = count at ht hasked
      split at ht
      · cases ht
      · next hroom =>
        obtain ⟨-, hblocks⟩ := not_or.mp hroom
        rw [if_neg hblocks] at hasked
        rcases hloan : (Pool.loanReads (target.blocks e.blockSize) count.toNat e.pool policy).1
          with err | _
        · rw [hloan] at ht
          cases ht
        · rw [hloan] at ht
          have hlength : (e.stagedEntries target count policy).length = count.toNat :=
            (List.length_map _).trans ((Pool.length_loanReads ..).2 hloan)
          -- only a batch that is complete is published, and only what is published is copied
          obtain ⟨hmeets, hfile⟩ := meets_published h hasked hlength
          obtain ⟨s, hs, hcopies⟩ := SimulatedKernel.copies_of_mem_enter ht
          exact ⟨s, hmeets.kernel.waiting s hs, hfile ▸ hcopies⟩
    | _ => cases ht
  | _ => cases ht

/-- The terms that ask for these entries and for nothing else. On what is told in advance
and what is answered they put no condition. -/
def termsOf (entries : List Sqe) : Terms where
  asked s := s ∈ entries
  told _ := True
  answered _ := True

variable {kernel : SimulatedKernel} {capacity serial : UInt32} {config : PoolConfig}
  {mappings : MappingAnswers}

/-- The file of a kernel stays what it was. -/
theorem file_undergoAll (e : Engine SimulatedKernel) (run : List Incident) :
    (e.undergoAll run).ring.kernel.file = e.ring.kernel.file := by
  induction run generalizing e with
  | nil => rfl
  | cons incident rest ih =>
    exact (ih (e.undergo incident)).trans (e.sameSettings_undergo incident).file_eq

/-- What is copied in the incident after a run was asked for in the run, or is asked for
now. -/
theorem staged_of_mem_transfersOf (hcreate : create kernel capacity serial config mappings = .ok e₀)
    (run : List Incident) (ht : t ∈ (e₀.undergoAll run).transfersOf incident) :
    ∃ s ∈ e₀.stagedAlong (run ++ [incident]), SimulatedKernel.Copies kernel.file s t := by
  let terms := termsOf (e₀.stagedAlong (run ++ [incident]))
  obtain ⟨n, hnew⟩ : ∃ n, e₀.ring.Meets terms n :=
    meets_create hcreate (fun _ _ => trivial) (fun _ _ => trivial) fun _ _ _ _ => trivial
  -- the terms ask for nothing but that an entry was staged, so every incident is allowed
  have hallow : ∀ incident ∈ run, terms.Allow incident := by
    intro incident _
    cases incident with
    | call _ | inject _ | interrupt | post _ => trivial
  have hasked : ∀ s ∈ e₀.stagedAlong run ++ (e₀.undergoAll run).stagedBy incident,
      terms.asked s := by
    rw [← stagedAlong_append]
    exact fun s hs => hs
  obtain ⟨hpast, hnow⟩ := List.forall_mem_append.mp hasked
  have hmeets := meets_undergoAll hnew (.created hcreate) hpast hallow
  obtain ⟨-, hring⟩ := create_eq_ok hcreate
  obtain ⟨-, -, hkernel, -⟩ := Ring.create_on_simulated hring
  have hfile : (e₀.undergoAll run).ring.kernel.file = kernel.file := by
    rw [file_undergoAll, hkernel]
    rfl
  obtain ⟨s, hs, hcopies⟩ := copies_of_mem_transfersOf hmeets hnow ht
  exact ⟨s, hs, hfile ▸ hcopies⟩

/-- What was asked for fits into the block that it was asked for. -/
theorem lands_of_copies {p : Pool} {file : Bytes} {s : Sqe} {id : UInt32}
    (hcopies : SimulatedKernel.Copies file s t) (hnames : s.Names id)
    (hlen : s.len.toNat = p.blockSize) (hid : id.toNat < p.size) : p.Lands t := by
  have haddress : t.address = Address.ofIndex id := hcopies.address_eq.trans hnames.2
  rw [Pool.Lands, haddress, Address.index_ofIndex, Address.offset_ofIndex, Nat.zero_add]
  exact ⟨hid, hlen ▸ hcopies.size_le⟩

/-- A copy takes the place of as many bytes at the start of its block, and of no others. -/
theorem bytes?_receive_of_copies {p : Pool} {file : Bytes} {s : Sqe} {id : UInt32}
    (hcopies : SimulatedKernel.Copies file s t) (hnames : s.Names id)
    (hlen : s.len.toNat = p.blockSize) (huniform : p.Uniform) (hid : id.toNat < p.size) :
    (∃ old new, p.bytes? id.toNat = some old ∧ (p.receive t).bytes? id.toNat = some new ∧
      old.size = p.blockSize ∧ new.toList = t.piece.toList ++ old.toList.drop t.piece.size) ∧
      ∀ other, other ≠ id.toNat → (p.receive t).bytes? other = p.bytes? other := by
  have haddress : t.address = Address.ofIndex id := hcopies.address_eq.trans hnames.2
  have hindex : Address.index t.address = id.toNat := by
    rw [haddress, Address.index_ofIndex]
  refine ⟨?_, fun other hother => Pool.bytes?_modify_ne p _ (hindex ▸ hother)⟩
  obtain ⟨old, hold⟩ := Pool.exists_bytes hid
  have hsize := huniform.size_bytes hold
  have hfits : t.piece.size ≤ old.size := hsize ▸ hlen ▸ hcopies.size_le
  have hnew := Pool.bytes?_receive_ofIndex hold t.piece
  rw [← haddress] at hnew
  refine ⟨old, _, hold, hnew, hsize, ?_⟩
  rw [Bytes.toList_overwrite, List.take_zero, List.nil_append, Nat.sub_zero, Nat.zero_add,
    Nat.min_eq_left hfits, List.take_of_length_le (by rwa [Bytes.length_toList])]

/-- **The copies.** Whatever the kernel copies in a run was asked for by an entry that was
staged in the run, and arrives in a block that it fits into. -/
theorem copies_along (hcreate : create kernel capacity serial config mappings = .ok e₀)
    (run : List Incident) :
    e₀.pool.AdmitsAll (e₀.eventsAlong run) ∧
      ∀ t, .receive t ∈ e₀.eventsAlong run →
        ∃ s ∈ e₀.stagedAlong run, SimulatedKernel.Copies kernel.file s t := by
  have hnew : e₀.Reachable := .created hcreate
  -- A kernel that has fallen behind copies for entries that were staged long before. So a run is
  -- extended at its end, with everything behind it.
  induction run using List.reverseRecOn with
  | nil => exact ⟨trivial, fun t ht => absurd ht List.not_mem_nil⟩
  | append_singleton run incident ih =>
    obtain ⟨hadmits, hcopies⟩ := ih
    have hsound := (hnew.undergoAll run).balanced.sound
    have hconfig := config_undergoAll hnew run
    have hlast : e₀.undergoAll (run ++ [incident]) = (e₀.undergoAll run).undergo incident :=
      List.foldl_append
    have hpool := pool_undergo hsound incident
    have hlater := (e₀.undergoAll run).pool.later_undergoAll
      (((e₀.undergoAll run).callsOf incident).map .call)
    rw [eventsAlong_append, stagedAlong_append, Pool.admitsAll_append, ← pool_undergoAll hnew,
      eventsOf, Pool.admitsAll_append]
    refine ⟨⟨hadmits, Pool.admitsAll_calls .., Pool.admitsAll_receive fun t ht => ?_⟩,
      fun t ht => ?_⟩
    · obtain ⟨s, hs, hcopies⟩ := staged_of_mem_transfersOf hcreate run ht
      obtain ⟨id, hnames, hid⟩ := names_of_mem_stagedAlong hnew hs
      obtain ⟨-, hlen⟩ := read_of_mem_stagedAlong hnew hs
      -- No block comes into being while bytes arrive: those there are at the end of the incident
      -- are those there are after its calls.
      rw [hlast, hpool, Pool.size_receiveAll] at hid
      refine lands_of_copies hcopies hnames (hlen.trans ?_) hid
      exact congrArg PoolConfig.blockSize (hlater.config_eq.trans hconfig).symm
    · rcases List.mem_append.mp ht with hpast | hnow
      · obtain ⟨s, hs, hcopied⟩ := hcopies t hpast
        exact ⟨s, List.mem_append_left _ hs, hcopied⟩
      · rw [← stagedAlong_append]
        refine staged_of_mem_transfersOf hcreate run ?_
        simpa using hnow

/-- **No access leaves its block.** What is mapped for a block of a valid configuration are
the least whole pages that hold it. Take an engine on any simulated kernel through any run:
any file, any targets and policies, any results that are given in advance, with completions
that are forged and batches that the kernel has fallen behind with. Then

* the pool is what the events of the run have made of it, and none of the accesses by which
  they happen touches a byte outside the block that it names;
* none of them faults, and afterwards memory holds the blocks as they are in the pool. What
  can be seen of a block is read from inside the block as well;
* every copy is of bytes inside the file, of no more than one block, as an entry that was
  staged in the run asks for it. The bytes lie at the start of the block that the entry
  names, behind them the block is as before, and so are all other blocks.
-/
theorem accesses_inside_blocks (hcreate : create kernel capacity serial config mappings = .ok e₀)
    (run : List Incident) :
    (∀ c : PoolConfig, c.fault? = none →
      c.mappedSize ≤ UInt32.size ∧ 0 < c.mappedSize ∧ pageSize ∣ c.mappedSize ∧
        c.blockSize ≤ c.mappedSize ∧ c.mappedSize < c.blockSize + pageSize) ∧
    let e := e₀.undergoAll run
    let events := e₀.eventsAlong run
    let accesses := e₀.pool.accessesAlong events
    (e.pool = e₀.pool.undergoAll events ∧ ∀ access ∈ accesses, access.Inside config) ∧
    (∃ m, Memory.empty.Runs accesses m ∧ e.pool.LiesIn m ∧
      ∀ token bytes, e.data token = .ok bytes →
        bytes.size = config.blockSize ∧ m.Performs (.read token.id.toNat 0 bytes.toList) m) ∧
    ∀ before t after, events = before ++ .receive t :: after →
      let p := e₀.pool.undergoAll before
      ∃ s ∈ e₀.stagedAlong run, ∃ id, s.Names id ∧ s.len.toNat = config.blockSize ∧
        SimulatedKernel.Copies kernel.file s t ∧
        (∃ old new, p.bytes? id.toNat = some old ∧ (p.receive t).bytes? id.toNat = some new ∧
          old.size = config.blockSize ∧
          new.toList = t.piece.toList ++ old.toList.drop t.piece.size) ∧
        ∀ other, other ≠ id.toNat → (p.receive t).bytes? other = p.bytes? other := by
  refine ⟨fun c hvalid => PoolConfig.mappedSize_bounds hvalid, ?_⟩
  intro e events accesses
  have hnew : e₀.Reachable := .created hcreate
  obtain ⟨hpoolCreated, -⟩ := create_eq_ok hcreate
  have hconfig : e₀.pool.config = config := Pool.config_create hpoolCreated
  have hpool : e.pool = e₀.pool.undergoAll events := pool_undergoAll hnew run
  obtain ⟨hadmits, hcopies⟩ := copies_along hcreate run
  -- a new pool lies in an empty memory; from there on each event is carried out in memory
  have hempty := Pool.liesIn_create hpoolCreated
  obtain ⟨hinside, m, hruns, hlies⟩ := hempty.undergoAll hadmits
  have hsize : e.pool.config = config := (config_undergoAll hnew run).trans hconfig
  rw [hconfig] at hinside
  rw [← hpool] at hlies
  refine ⟨⟨hpool, hinside⟩, ⟨m, hruns, hlies, fun token bytes hdata => ?_⟩, ?_⟩
  · obtain ⟨hbytes, hread⟩ := hlies.read_of_data hdata
    exact ⟨hbytes.trans (congrArg PoolConfig.blockSize hsize), hread⟩
  · intro before t after hevents p
    have ht : .receive t ∈ events := hevents ▸ List.mem_append_right _ (List.mem_cons_self ..)
    obtain ⟨s, hs, hcopied⟩ := hcopies t ht
    obtain ⟨id, hnames, -⟩ := names_of_mem_stagedAlong hnew hs
    obtain ⟨-, hlen⟩ := read_of_mem_stagedAlong hnew hs
    rw [show e₀.eventsAlong run = _ from hevents, Pool.admitsAll_append] at hadmits
    obtain ⟨hbefore, ⟨hid, -⟩, -⟩ := hadmits
    rw [hcopied.address_eq, hnames.2, Address.index_ofIndex] at hid
    -- what the block held before the transfer is known from the events up to there
    obtain ⟨-, m', -, hlies'⟩ := hempty.undergoAll hbefore
    have hblock : p.blockSize = e₀.blockSize :=
      congrArg PoolConfig.blockSize (e₀.pool.later_undergoAll before).config_eq
    have hsize : e₀.blockSize = config.blockSize := congrArg PoolConfig.blockSize hconfig
    refine ⟨s, hs, id, hnames, hlen.trans hsize, hcopied, ?_⟩
    rw [← hsize, ← hblock]
    exact bytes?_receive_of_copies hcopied hnames (hlen.trans hblock.symm) hlies'.uniform hid

/-- The first of two reads is cut short from outside, the second one by the end of the file.
The first block is recycled for a third read, which goes well. -/
theorem accesses_inside_blocks_of_short_reads :
    ∃ e₀ : Engine SimulatedKernel,
      create { file := .ofList [1, 2, 3, 4, 5, 6, 7, 8, 9, 10, 11, 12], injected := [3] } 4 7
        { blockSize := 8, alignment := 8 } = .ok e₀ ∧
        let run : List Incident := [.call (.submitReads ⟨3, 16⟩ 2 ({} : Walker)),
          .call (.reap .nonBlocking), .call (.submitReads ⟨3, 16⟩ 1 ({} : Walker)),
          .call (.reap .nonBlocking), .call (.reap .nonBlocking)]
        let mark : List UInt8 := [0xef, 0xbe, 0xad, 0xde, 0, 0, 0, 0]
        let accesses : List BlockAccess := [.map 0 4096, .map 1 4096, .write 0 0 [1, 2, 3],
          .write 1 0 [9, 10, 11, 12], .write 0 0 mark, .read 0 0 mark,
          .write 0 0 [0, 0, 0, 0, 0, 0, 0, 0], .write 0 0 [1, 2, 3, 4, 5, 6, 7, 8],
          .write 1 0 mark]
        e₀.pool.accessesAlong (e₀.eventsAlong run) = accesses ∧
          (∀ access ∈ accesses, access.Inside { blockSize := 8, alignment := 8 }) ∧
          ∃ m, Memory.empty.Runs accesses m ∧
            m.Performs (.read 0 0 [1, 2, 3, 4, 5, 6, 7, 8]) m := by
  obtain ⟨e₀, hcreate⟩ : ∃ e₀ : Engine SimulatedKernel,
      create { file := .ofList [1, 2, 3, 4, 5, 6, 7, 8, 9, 10, 11, 12], injected := [3] } 4 7
        { blockSize := 8, alignment := 8 } = .ok e₀ := ⟨_, rfl⟩
  refine ⟨e₀, hcreate, ?_⟩
  intro run mark accesses
  have haccesses : e₀.pool.accessesAlong (e₀.eventsAlong run) = accesses := by
    cases hcreate
    decide +kernel
  have hseen : ((e₀.undergoAll run).data ⟨0, 7⟩).toOption.map Bytes.toList =
      some [1, 2, 3, 4, 5, 6, 7, 8] := by
    cases hcreate
    decide +kernel
  obtain ⟨-, ⟨-, hinside⟩, ⟨m, hruns, -, hread⟩, -⟩ := accesses_inside_blocks hcreate run
  rw [haccesses] at hinside hruns
  refine ⟨haccesses, hinside, m, hruns, ?_⟩
  rcases hdata : (e₀.undergoAll run).data ⟨0, 7⟩ with err | bytes
  · rw [hdata] at hseen
    cases hseen
  · rw [hdata] at hseen
    obtain hbytes : bytes.toList = _ := Option.some.inj hseen
    rw [← hbytes]
    exact (hread ⟨0, 7⟩ bytes hdata).2

end Engine

end RingRead
