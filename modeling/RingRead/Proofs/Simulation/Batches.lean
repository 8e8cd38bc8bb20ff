import RingRead.Proofs.Simulation.Interrupting

/-!
# Batches, one after the other

What a kernel without a limit makes of a batch, as a function of its state and of the
entries: `k.serve entries` is the kernel after the entries were staged, published, consumed
and performed.

A batch may come in two parts (`serve_prompted_append`). Between them the kernel posts the
completions of the first part, unless it is deferred or stalled. It may as well post them
later, because posting is done in the completion queue, where serving the second part has no
business.
-/

namespace RingRead

namespace SimulatedRings

/-! ## The rings

Serving a batch writes the index array and the table of entries and moves three positions.
None of this is read or written when a completion is posted. -/

theorem stageAll_append (r : SimulatedRings) (tail : UInt32) (entries entries' : List Sqe) :
    r.stageAll tail (entries ++ entries') =
      (r.stageAll tail entries).stageAll (tail + UInt32.ofNat entries.length) entries' := by
  induction entries generalizing r tail with
  | nil =>
    rw [List.length_nil, Position.add_ofNat_zero]
    rfl
  | cons e rest ih =>
    rw [List.length_cons, ← Position.succ_add_ofNat]
    exact ih (r.stage tail e) (tail + 1)

/-- The rings with all positions of the submission queue moved to one: everything that was
published is consumed. -/
def moveTo (r : SimulatedRings) (position : UInt32) : SimulatedRings :=
  { r with sqTail := position, sqHead := position, consumed := position }

/-- The rings after a batch was staged at the tail, published and consumed. -/
def serve (r : SimulatedRings) (entries : List Sqe) : SimulatedRings :=
  (r.stageAll r.sqTail entries).moveTo (r.sqTail + UInt32.ofNat entries.length)

theorem serve_append (r : SimulatedRings) (entries entries' : List Sqe) :
    r.serve (entries ++ entries') = (r.serve entries).serve entries' := by
  have hmoved (position position' : UInt32) (r : SimulatedRings) (tail : UInt32) :
      ((r.moveTo position).stageAll tail entries').moveTo position' =
        (r.stageAll tail entries').moveTo position' := by
    rw [← stageAll_comm (f := (moveTo · position)) fun _ _ _ => rfl]
    rfl
  have hserve : (r.serve entries).serve entries' =
      ((r.serve entries).stageAll (r.sqTail + UInt32.ofNat entries.length) entries').moveTo
        (r.sqTail + UInt32.ofNat entries.length + UInt32.ofNat entries'.length) := rfl
  rw [hserve, serve, serve, hmoved, stageAll_append, List.length_append, UInt32.ofNat_add,
    UInt32.add_assoc]

/-- Posting is done in the completion queue, and serving in the submission queue. -/
theorem serve_post (r : SimulatedRings) (entries : List Sqe) (c : Cqe) :
    (r.post c).serve entries = (r.serve entries).post c := by
  have hstaged := stageAll_comm (f := (post · c)) (fun _ _ _ => rfl) r r.sqTail entries
  have htail : (r.post c).sqTail = r.sqTail := rfl
  rw [serve, htail, ← hstaged]
  rfl

theorem isFull_serve (r : SimulatedRings) (entries : List Sqe) :
    (r.serve entries).isFull ↔ r.isFull := by
  obtain ⟨index, table, hstaged⟩ := r.stageAll_eq r.sqTail entries
  rw [serve, hstaged]
  exact Iff.rfl

end SimulatedRings

namespace SimulatedKernel

variable {k : SimulatedKernel} {rings : SimulatedRings} {count : UInt32} {entries : List Sqe}

/-! ## Performing and posting

Two lists of entries are performed one after the other as they are performed together: the
second begins with the results that the first has left over. Two lists of completions are
posted so as well. -/

theorem performAll_append (file : Bytes) (injected : List Int32) (entries entries' : List Sqe) :
    performAll file injected (entries ++ entries') =
      let (cs, transfers, rest) := performAll file injected entries
      let (cs', transfers', rest') := performAll file rest entries'
      (cs ++ cs', transfers ++ transfers', rest') := by
  induction entries generalizing injected with
  | nil => rfl
  | cons e tail ih =>
    simp only [List.cons_append, performAll, ih, List.append_assoc]

theorem postAll_append (cs cs' : List Cqe) (rings : SimulatedRings)
    (counters : SimulationCounters) :
    postAll (cs ++ cs') rings counters =
      postAll cs' (postAll cs rings counters).1 (postAll cs rings counters).2 := by
  induction cs generalizing rings counters with
  | nil => rfl
  | cons c rest ih =>
    rw [List.cons_append, postAll, postAll]
    split
    · exact ih ..
    · exact ih ..

/-- Posting is done before or after a batch is served and counted. The two write different
counters. -/
theorem postAll_serve (cs : List Cqe) (rings : SimulatedRings) (counters : SimulationCounters)
    (entries : List Sqe) (performed : Nat) :
    postAll cs (rings.serve entries) { counters with submitted := counters.submitted + performed } =
      ((postAll cs rings counters).1.serve entries,
        { (postAll cs rings counters).2 with
          submitted := (postAll cs rings counters).2.submitted + performed }) := by
  induction cs generalizing rings counters with
  | nil => rfl
  | cons c rest ih =>
    rw [postAll, postAll]
    by_cases hfull : rings.isFull
    · rw [if_pos hfull, if_pos ((rings.isFull_serve entries).mpr hfull)]
      exact ih rings { counters with overflowed := counters.overflowed + 1 }
    · rw [if_neg hfull, if_neg (mt (rings.isFull_serve entries).mp hfull), ← rings.serve_post]
      exact ih (rings.post c) { counters with completed := counters.completed + 1 }

/-- A kernel that is not stalled posts everything that is pending. -/
theorem flush_eq (hstalled : k.stalled = false) (hrings : k.rings = some rings) :
    k.flush =
      { k with
        rings := some (postAll k.pending rings k.counters).1
        pending := []
        counters := (postAll k.pending rings k.counters).2 } := by
  rw [flush, if_neg (by simp [hstalled]), hrings]

/-- Without rings, or when it is stalled, a kernel posts nothing, and keeps what is
pending. -/
theorem flush_of_idle (h : k.stalled = true ∨ k.rings = none) : k.flush = k := by
  rw [flush]
  rcases h with hstalled | hrings
  · rw [if_pos hstalled]
  · rw [hrings]
    exact ite_self k

theorem sameSettings_flush (k : SimulatedKernel) : k.SameSettings k.flush := by
  rw [flush]
  split
  · exact .refl k
  · split
    · exact .refl k
    · exact ⟨rfl, rfl, rfl, rfl, rfl⟩

theorem sameSettings_prompted (k : SimulatedKernel) : k.SameSettings k.prompted := by
  rw [prompted]
  split
  · exact .refl k
  · exact k.sameSettings_flush

/-- Posting uses up none of the results that were given in advance. -/
theorem injected_prompted (k : SimulatedKernel) : k.prompted.injected = k.injected := by
  have hflush : k.flush.injected = k.injected := by
    rw [flush]
    split
    · rfl
    · split
      · rfl
      · rfl
  rw [prompted]
  split
  · rfl
  · exact hflush

/-- Calls are counted before or after what is pending is posted. -/
theorem prompted_entered (k : SimulatedKernel) : k.entered.prompted = k.prompted.entered := by
  have hself : k.prompted =
      k.prompted.recount k.interrupts k.counters.enters k.counters.waits :=
    prompted_recount k _ _ _
  have hcounted : k.entered.prompted =
      k.prompted.recount k.interrupts (k.counters.enters + 1) k.counters.waits :=
    prompted_recount k _ _ _
  rw [hcounted]
  exact (congrArg entered hself).symm

/-! ## Batches

All that a kernel does with a batch, from the first entry that is staged to the last that is
performed, is one function of its state. So two orders of doing things can be compared by
comparing two terms. -/

/-- The kernel after a batch was staged, published, consumed and performed. -/
def serve (k : SimulatedKernel) (entries : List Sqe) : SimulatedKernel :=
  let (completions, _, injected) := performAll k.file k.injected entries
  { k with
    rings := k.rings.map (·.serve entries)
    injected
    pending := k.pending ++ completions
    counters.submitted := k.counters.submitted + entries.length }

/-- What a kernel transfers when it performs a batch. It depends on the file and on the
results that were given in advance, and not on the rings. -/
def delivers (k : SimulatedKernel) (entries : List Sqe) : List Transfer :=
  (performAll k.file k.injected entries).2.1

/-- Calls are counted before or after a batch is served. -/
theorem serve_entered (k : SimulatedKernel) (entries : List Sqe) :
    k.entered.serve entries = (k.serve entries).entered := rfl

/-- A kernel that is entered with a batch that is staged and published accepts all of it and
serves it. It has no limit of its own and reports in order. -/
theorem enter_eq_serve (hrings : k.rings = some rings) (hwf : rings.WellFormed)
    (hsettled : rings.Settled) (hlimit : k.acceptLimit = none) (hreversed : k.reversed = false)
    (hcount : entries.length = count.toNat) (hle : count.toNat ≤ rings.entries.toNat) :
    let published := { rings.stageAll rings.sqTail entries with sqTail := rings.sqTail + count }
    enter { k with rings := some published } count 0 =
      ⟨.ok count, k.delivers entries, (k.entered.serve entries).prompted⟩ := by
  intro published
  have hcount' : count = UInt32.ofNat entries.length := by rw [hcount, UInt32.ofNat_toNat]
  obtain ⟨-, hconsumed, hentries⟩ : published.WellFormed ∧ published.consumed = rings.sqTail ∧
      published.entriesFrom entries.length published.consumed = entries :=
    hsettled.entriesFrom_published hwf (hcount ▸ hle) (rings.sqTail + count)
  have htail : published.sqTail = published.consumed + count := by rw [hconsumed]
  have hserved : { published with consumed := published.sqTail, sqHead := published.sqTail } =
      rings.serve entries := by
    rw [SimulatedRings.serve, ← hcount']
    rfl
  have hconsume : consume ({ k with rings := some published } : SimulatedKernel).entered count =
      (count, k.delivers entries, k.entered.serve entries) := by
    simp only [consume, entered, SimulatedRings.consume_published htail, ← hcount, hentries,
      hserved, hreversed, serve, hrings, Option.map_some]
    rfl
  have hall : ({ k with rings := some published } : SimulatedKernel).limitTo count = count := by
    simp only [limitTo, hlimit]
  rw [enter_batch_eq, hall, hconsume]

/-- Serving two batches one after the other is serving both at once. Results that were given
in advance are used up in the same order. -/
theorem serve_append (k : SimulatedKernel) (entries entries' : List Sqe) :
    k.serve (entries ++ entries') = (k.serve entries).serve entries' := by
  have hrings : k.rings.map (·.serve (entries ++ entries')) =
      (k.rings.map (·.serve entries)).map (·.serve entries') := by
    rw [Option.map_map]
    exact congrArg (k.rings.map ·) (funext fun r => r.serve_append entries entries')
  simp only [serve, performAll_append, hrings, List.length_append, List.append_assoc,
    Nat.add_assoc]

theorem delivers_append (k : SimulatedKernel) (entries entries' : List Sqe) :
    k.delivers (entries ++ entries') =
      k.delivers entries ++ (k.serve entries).delivers entries' := by
  rw [delivers, performAll_append]
  rfl

/-- What is delivered does not depend on what was posted. -/
theorem delivers_prompted (k : SimulatedKernel) (entries : List Sqe) :
    k.prompted.delivers entries = k.delivers entries := by
  rw [delivers, delivers, injected_prompted, k.sameSettings_prompted.file_eq]

/-- What is posted before a batch is served may as well be posted after it, together with
what the batch brings. -/
theorem flush_serve_flush (k : SimulatedKernel) (entries : List Sqe) :
    (k.flush.serve entries).flush = (k.serve entries).flush := by
  by_cases hidle : k.stalled = true ∨ k.rings = none
  · rw [flush_of_idle hidle]
  · obtain ⟨hstalled, hsome⟩ := not_or.mp hidle
    obtain ⟨rings, hrings⟩ := Option.ne_none_iff_exists'.mp hsome
    have hstalled' := Bool.eq_false_iff.mpr hstalled
    have hflush := flush_eq hstalled' hrings
    have hserved : (k.serve entries).rings = some (rings.serve entries) := by
      simp only [serve, hrings, Option.map_some]
    have hserved' : (k.flush.serve entries).rings =
        some ((postAll k.pending rings k.counters).1.serve entries) := by
      rw [hflush]
      rfl
    have hstalled'' : (k.flush.serve entries).stalled = false := by
      rw [hflush]
      exact hstalled'
    have hpost := postAll_serve k.pending rings k.counters entries entries.length
    rw [flush_eq hstalled'' hserved', flush_eq (k := k.serve entries) hstalled' hserved, hflush]
    simp only [serve, List.nil_append]
    rw [postAll_append, hpost]

theorem prompted_serve_prompted (k : SimulatedKernel) (entries : List Sqe) :
    (k.prompted.serve entries).prompted = (k.serve entries).prompted := by
  have hdeferred : (k.serve entries).deferred = k.deferred := rfl
  have hdeferred' : (k.flush.serve entries).deferred = k.deferred :=
    k.sameSettings_flush.deferred_eq
  rw [prompted, prompted, prompted, hdeferred]
  split
  · next hk => rw [if_pos (hdeferred.trans hk)]
  · next hk => rw [if_neg (hdeferred' ▸ hk), flush_serve_flush]

/-- **Two batches, one after the other**, leave a kernel as one batch does, but for the
number of calls. -/
theorem serve_prompted_append (k : SimulatedKernel) (entries entries' : List Sqe) :
    ((k.entered.serve entries).prompted.entered.serve entries').prompted =
      (k.entered.serve (entries ++ entries')).prompted.entered := by
  rw [← prompted_entered, prompted_serve_prompted, ← prompted_entered, serve_append, serve_entered]

end SimulatedKernel

end RingRead
