import RingRead.Proofs.Simulation.Consistency
import RingRead.Proofs.Simulation.Waiting

/-!
# Reaping from a simulated kernel

Reaps take the outstanding reads from the front, one at a time (`Engine.ReapOutcome`). A
read that succeeded leaves its block held, with the bytes of the file in it; the block of a
read that failed is given up. A reap that takes no read leaves the outstanding reads as they
are.

Several reaps, such as those of a drain, take a first part of the outstanding reads
(`Engine.reapsAll_reapAll`).
-/

namespace RingRead.Engine

variable {e : Engine SimulatedKernel} {n : UInt32} {r : Read} {reads : List Read} {c : Cqe}
variable {rest : List Cqe} {kernel : SimulatedKernel} {mode : ReapMode}

/-! ## Going by the answers

A caller sees answers and nothing else. Which read an answer is about can be told from it in
all cases but one, and there it can be told from the order. -/

/-- The tag of the read that a reap has taken, going by its answer. A completion has it in
its token, and two of the errors carry it. -/
def takenTag? : Except (Abort Error) (Option Completion) → Option UInt64
  | .ok (some completion) => some completion.token.tag
  | .error (.failed (.completionFailed tag _)) => some tag
  | .error (.failed (.shortRead tag _ _)) => some tag
  | _ => none

/-- The reads that are left when a reap has given this answer. An overflow has taken a read
as well, and does not say which: it stands for the oldest one. -/
def strike (reads : List Read) : Except (Abort Error) (Option Completion) → List Read
  | .error (.overflow _) => reads.tail
  | answer => reads.filter fun r => takenTag? answer ≠ some r.tag

/-- The oldest read is struck off when it is named. Tags are never shared, so the others
stay. -/
theorem strike_cons {answer : Except (Abort Error) (Option Completion)}
    (hnodup : ((r :: reads).map Read.block).Nodup)
    (htaken : takenTag? answer = some r.tag ∨ answer = .error (.overflow .negation)) :
    strike (r :: reads) answer = reads := by
  rcases htaken with htaken | rfl
  · obtain ⟨hnot, -⟩ := List.nodup_cons.mp hnodup
    have hothers : reads.filter (fun r' => takenTag? answer ≠ some r'.tag) = reads := by
      refine List.filter_eq_self.mpr fun r' hr' => decide_eq_true fun heq => hnot ?_
      have htag : r.tag = r'.tag := Option.some.inj (htaken.symm.trans heq)
      exact Read.tag_inj.mp htag ▸ List.mem_map_of_mem hr'
    have hstrike : strike (r :: reads) answer =
        (r :: reads).filter fun r' => takenTag? answer ≠ some r'.tag := by
      rcases answer with (err | operation) | completion
      · rfl
      · cases htaken
      · rfl
    rw [hstrike, List.filter_cons_of_neg (by simpa using htaken), hothers]
  · rfl

/-- An answer that names no read strikes off none. There are such answers: nothing was
there, or a tag was unknown. -/
theorem strike_of_none (answer : Except (Abort Error) (Option Completion))
    (htaken : takenTag? answer = none)
    (hanswer : ∀ operation, answer ≠ .error (.overflow operation)) :
    strike reads answer = reads := by
  have hstrike : strike reads answer = reads.filter fun r => takenTag? answer ≠ some r.tag := by
    rcases answer with (err | operation) | completion
    · rfl
    · exact absurd rfl (hanswer operation)
    · rfl
  rw [hstrike]
  exact List.filter_eq_self.mpr fun r _ => by simp [htaken]

/-! ## One reap

An engine that is consistent with its kernel has its oldest read answered by the first
completion of the queue. So a reap that takes a completion takes that read. -/

/-- A completion entry speaks either of a whole block or of a failure. -/
theorem verdict_cases (e : Engine SimulatedKernel) (c : Cqe) :
    (e.verdict c = .ok ⟨e.pool.issue c.userData.toUInt32, e.blockSize⟩ ∧
      c.res.toInt = e.blockSize) ∨
    ∃ abort, e.verdict c = .error abort ∧
      (takenTag? (.error abort) = some c.userData ∨ abort = .overflow .negation) ∧
      c.res.toInt ≠ e.blockSize := by
  rw [verdict]
  split
  · next hneg =>
    have hlt : c.res.toInt < 0 := Int32.lt_iff_toInt_lt.mp hneg
    refine Or.inr ⟨_, rfl, ?_, by omega⟩
    rcases c.refusal_cases with ⟨-, hrefusal⟩ | ⟨-, hrefusal⟩
    · exact Or.inl (by rw [hrefusal]; rfl)
    · exact Or.inr hrefusal
  · next hnonneg =>
    have hle : 0 ≤ c.res.toInt := Int32.le_iff_toInt_le.mp (Int32.not_lt.mp hnonneg)
    split
    · exact Or.inr ⟨_, rfl, Or.inl rfl, by omega⟩
    · next hwhole =>
      rw [Decidable.not_not] at hwhole
      exact Or.inl ⟨by rw [hwhole], by omega⟩

/-- When the block of the first outstanding read has come back from the kernel, the others
are outstanding, whether the block is held or free now. -/
theorem Consistent.tail {pool : Pool} {s : BlockState} (h : e.Consistent n (r :: reads))
    (hqueued : e.ring.kernel.queued = c :: rest)
    (hserved : List.Forall₂ (Serves e.ring.kernel.file e.pool) reads rest)
    (hleads : e.ring.kernel.LeadsTo n rest kernel) (hmoves : e.pool.Moves [r.block.toNat] s pool)
    (hs : s ≠ .loaned) (hintact : pool.Intact) (hsize : pool.size = e.pool.size)
    (hmappings : pool.mappings = e.pool.mappings) :
    e.Carries n (r :: reads) { (e.onKernel kernel).returned c with pool } reads := by
  obtain ⟨hnot, hnodup⟩ := List.nodup_cons.mp h.nodup
  have hloaned := h.loaned r (List.mem_cons_self ..)
  -- the blocks of the reads in flight are all different, so the others stay as they are
  have hother (r' : Read) (hr' : r' ∈ reads) : r'.block.toNat ∉ [r.block.toNat] := by
    rw [List.mem_singleton, UInt32.toNat_inj]
    intro heq
    exact hnot (heq ▸ List.mem_map_of_mem hr')
  have hrest : kernel.queued = rest := hleads.queues.queued_eq
  refine ⟨⟨⟨h.layout.sq_eq, h.layout.cq_eq⟩, hleads.queues.self,
    hleads.settings.acceptLimit_eq.trans h.acceptLimit_eq, hintact, hnodup, ?_, ?_, ?_, ?_⟩,
    ⟨hmoves.keeps ?_ (Nat.le_of_eq hsize.symm) (hmappings ▸ List.suffix_refl _),
      hleads.settings⟩, ?_, ?_⟩
  · intro r' hr'
    have hloaned' := h.loaned r' (List.mem_cons_of_mem _ hr')
    exact (hmoves.state_of_not_mem _ (hother r' hr')).trans hloaned'
  · change List.Forall₂ (Serves kernel.file pool) reads kernel.queued
    rw [hrest, hleads.settings.file_eq]
    refine forall₂_serves_of_bytes_eq hserved (congrArg PoolConfig.blockSize hmoves.config_eq) ?_
    exact fun r' hr' => hmoves.bytes_of_not_mem _ (hother r' hr')
  · have hflight : (e.onKernel kernel).inFlight.toNat = reads.length + 1 := h.inFlight_eq
    have hreturned := toNat_inFlight_returned (e := e.onKernel kernel) c
    rw [hflight] at hreturned
    exact hreturned
  · exact Nat.le_of_succ_le h.length_le
  · intro id hid
    rw [List.mem_singleton.mp hid, hloaned]
    decide
  · intro hnamed id hid
    have hne : id ∉ [r.block.toNat] := hmoves.not_mem_of_state hs.symm hid
    rw [hmoves.state_of_not_mem id hne] at hid
    obtain ⟨r', hr', rfl⟩ := hnamed id hid
    rcases List.mem_cons.mp hr' with rfl | hr'
    · exact absurd (List.mem_singleton.mpr rfl) hne
    · exact ⟨r', hr', rfl⟩
  · intro hhealthy
    refine hhealthy.of_leadsTo hleads ?_ (congrArg PoolConfig.blockSize hmoves.config_eq)
    rw [hqueued]
    exact List.subset_cons_self c rest

/-- How a reap can end on a simulated kernel: which of the outstanding reads it answers, and
which are outstanding then. -/
inductive ReapOutcome (e : Engine SimulatedKernel) (mode : ReapMode) :
    List Read → Except (Abort Error) (Option Completion) → List Read → Engine SimulatedKernel → Prop
  /-- The oldest read has succeeded. -/
  | succeeded {r : Read} {reads : List Read} {e'}
      (hready : mode = .nonBlocking → e.ring.ready ≠ 0)
      (hheld : e'.pool.state? r.block.toNat = some .held)
      (hholds : e'.pool.Holds e.ring.kernel.file r) :
      ReapOutcome e mode (r :: reads) (.ok (some ⟨e.pool.issue r.block, e.blockSize⟩)) reads e'
  /-- The oldest read has failed, or how it has failed cannot be told. -/
  | failed {r : Read} {reads : List Read} {abort e'}
      (htaken : takenTag? (.error abort) = some r.tag ∨ abort = .overflow .negation)
      (hsick : ¬e.Healthy) : ReapOutcome e mode (r :: reads) (.error abort) reads e'
  /-- Nothing was posted, and the reap did not wait. -/
  | nothing {reads : List Read} (hready : e.ring.ready = 0)
      (hmode : mode = .nonBlocking ∨ e.inFlight = 0) :
      ReapOutcome e mode reads (.ok none) reads e
  /-- Nothing was posted even after a wait. -/
  | withheld {reads : List Read} {e'} (hsick : ¬e.Healthy) :
      ReapOutcome e mode reads (.error (.failed .emptyAfterWait)) reads e'

/-- Finishing the first completion of the queue finishes the oldest read, in the way that
its result says. -/
theorem finish_outcome (h : e.Consistent n (r :: reads))
    (hserves : Serves e.ring.kernel.file e.pool r c) (hqueued : e.ring.kernel.queued = c :: rest)
    (hserved : List.Forall₂ (Serves e.ring.kernel.file e.pool) reads rest)
    (hready : mode = .nonBlocking → e.ring.ready ≠ 0)
    (hleads : e.ring.kernel.LeadsTo n rest kernel) :
    let e' := ((e.onKernel kernel).finish c).2
    e.ReapOutcome mode (r :: reads) (((e.onKernel kernel).finish c).1.map some) reads e' ∧
      e.Carries n (r :: reads) e' reads := by
  -- the tag of the completion names the block of the oldest read
  have hblock : c.userData.toNat = r.block.toNat := by rw [hserves.tag_eq, Read.toNat_tag]
  have hid : c.userData.toUInt32 = r.block := by
    rw [hserves.tag_eq]
    exact UInt32.toUInt32_toUInt64 r.block
  have hloaned : e.pool.state? c.userData.toNat = some .loaned := by
    rw [hblock]
    exact h.loaned r (List.mem_cons_self ..)
  have hreclaim := Pool.moves_reclaim hloaned
  have hintact := h.intact.reclaim hloaned
  have hsize := Pool.size_reclaim hloaned
  have hmappings := e.pool.mappings_reclaim c.userData
  have hcheck := check_returned (e := e.onKernel kernel) h.intact.toSound hloaned
  obtain ⟨-, hheld, hbytes⟩ := Pool.reclaim_loaned hloaned
  rw [hblock] at hreclaim hheld hbytes
  rw [finish_of_loaned (e := e.onKernel kernel) h.intact.toSound hloaned]
  rcases verdict_cases (e.onKernel kernel) c
    with ⟨hverdict, hwhole⟩ | ⟨abort, hverdict, htaken, hres⟩
  · rw [hverdict, hid]
    refine ⟨.succeeded hready hheld ?_,
      h.tail hqueued hserved hleads hreclaim (by decide) hintact hsize hmappings⟩
    have hsame : (e.pool.reclaim c.userData).2.blockSize = e.pool.blockSize :=
      congrArg PoolConfig.blockSize hreclaim.config_eq
    exact (hserves.holds hwhole).of_bytes_eq hsame hbytes
  · have hrelease := Pool.moves_release hcheck
    rw [hid] at hcheck hrelease
    rw [hverdict, hid]
    refine ⟨.failed ?_ ?_, h.tail hqueued hserved hleads (hreclaim.again hrelease) (by decide)
      (hintact.release hcheck) ((Pool.size_release hcheck).trans hsize)
      ((Pool.mappings_release _ _).trans hmappings)⟩
    · rwa [hserves.tag_eq] at htaken
    · intro hhealthy
      exact hres (hhealthy.whole c (hqueued ▸ List.mem_cons_self ..))

/-- How a reap ends, and that the engine stays in step with the kernel. -/
theorem reap_outcome (h : e.Consistent n reads) (mode : ReapMode) :
    ∃ reads', e.ReapOutcome mode reads (e.reap mode).1 reads' (e.reap mode).2 ∧
      e.Carries n reads (e.reap mode).2 reads' := by
  -- the completions in the queue and the outstanding reads are taken apart side by side
  have hlooks := looks_takeOrWait h.layout h.queues h.acceptLimit_eq mode
  have hserved := h.served
  rcases hentry : e.takeOrWait mode with ⟨answer, e₁⟩
  rw [hentry] at hlooks
  dsimp only at hlooks
  generalize hqueued : e.ring.kernel.queued = queue at hlooks hserved
  cases hlooks with
  | found hready hleads =>
    rcases hserved with _ | ⟨hserves, hserved⟩
    rw [reap_of_taken hentry]
    exact ⟨_, finish_outcome h hserves hqueued hserved hready hleads⟩
  | nothing hready hmode =>
    rw [reap_of_none hentry]
    exact ⟨reads, .nothing hready hmode, .refl h⟩
  | withheld hstalled hflight hleads =>
    rw [reap_of_error hentry]
    refine ⟨reads, .withheld fun hhealthy => ?_, h.carries_onKernel (hqueued ▸ hleads)⟩
    -- a healthy kernel with an empty queue owes nothing
    have hlength := hserved.length_eq
    rw [hstalled hhealthy.stalled_eq, List.length_nil, ← h.inFlight_eq] at hlength
    exact absurd hlength (Nat.ne_of_gt (UInt32.lt_iff_toNat_lt.mp hflight))

/-! ## Several reaps

The reaps of a drain take reads one by one from the front. An answer that is an error ends
the drain, but its read was taken like the others. -/

/-- What the answers of several reaps say about the reads that were taken. What the reaps
have brought together is a first part of these reads, and is held when the reaps have
ended. -/
structure ReapsAll (e : Engine SimulatedKernel) (taken : List Read)
    (answers : List (Except (Abort Error) (Option Completion))) (e' : Engine SimulatedKernel) :
    Prop where
  struck : ∀ rest, ((taken ++ rest).map Read.block).Nodup →
    answers.foldl strike (taken ++ rest) = rest
  gathered : ∀ completions, gather answers = .ok completions →
    ∃ returned, returned <+: taken ∧
      completions = returned.map (fun r => ⟨e.pool.issue r.block, e.blockSize⟩) ∧
      ∀ r ∈ returned, e'.pool.state? r.block.toNat = some .held ∧
        e'.pool.Holds e.ring.kernel.file r
  succeeds : e.Healthy → ∃ completions, gather answers = .ok completions

variable {answer : Except (Abort Error) (Option Completion)} {taken reads' : List Read}
variable {answers : List (Except (Abort Error) (Option Completion))}
  {e' e'' : Engine SimulatedKernel}

/-- The first answer strikes off the oldest read, and the others strike off those that they
name. -/
theorem ReapsAll.struck_cons (h : e'.ReapsAll taken answers e'')
    (htaken : takenTag? answer = some r.tag ∨ answer = .error (.overflow .negation))
    (rest : List Read) (hnodup : ((r :: taken ++ rest).map Read.block).Nodup) :
    (answer :: answers).foldl strike (r :: taken ++ rest) = rest := by
  have hfirst : strike (r :: (taken ++ rest)) answer = taken ++ rest := strike_cons hnodup htaken
  rw [List.foldl_cons, List.cons_append, hfirst]
  exact h.struck rest (List.nodup_cons.mp hnodup).2

/-- A reap before others, if it answers a read. Its completion stays good while the others
are made. -/
theorem ReapsAll.cons_succeeded (hcarries : e.Carries n (r :: reads) e' reads)
    (hcarries' : e'.Carries n reads e'' reads')
    (hheld : e'.pool.state? r.block.toNat = some .held)
    (hholds : e'.pool.Holds e.ring.kernel.file r) (h : e'.ReapsAll taken answers e'') :
    e.ReapsAll (r :: taken) (.ok (some ⟨e.pool.issue r.block, e.blockSize⟩) :: answers) e'' := by
  have hsize := hcarries.keeps.blockSize_eq
  have hissue := Pool.issue_of_serial_eq hcarries.keeps.pool.serial_eq
  refine ⟨h.struck_cons (Or.inl rfl), ?_, ?_⟩
  · intro completions hgather
    rcases hrest : gather answers with err | completions'
    · rw [gather, hrest] at hgather
      cases hgather
    · rw [gather, hrest] at hgather
      obtain rfl := Except.ok.inj hgather
      obtain ⟨returned, hprefix, rfl, hreturned⟩ := h.gathered completions' hrest
      refine ⟨r :: returned, List.cons_prefix_cons.mpr ⟨rfl, hprefix⟩, ?_, ?_⟩
      · simp only [List.map_cons, hsize, hissue]
      · intro r' hr'
        -- what the first reap has brought stays held, whatever the others do
        rcases List.mem_cons.mp hr' with rfl | hr'
        · exact ⟨hcarries'.keeps.pool.state_eq _ hheld,
            hholds.of_keeps hcarries'.keeps.pool hheld⟩
        · rw [← hcarries.keeps.settings.file_eq]
          exact hreturned r' hr'
  · intro hhealthy
    obtain ⟨completions, hgather⟩ := h.succeeds (hcarries.healthy hhealthy)
    exact ⟨_, by rw [gather, hgather]; rfl⟩

/-- A failed reap before others. They bring nothing together. -/
theorem reapsAll_cons_error {abort : Abort Error} (hsick : ¬e.Healthy)
    (hstruck : ∀ rest, ((taken ++ rest).map Read.block).Nodup →
      (.error abort :: answers).foldl strike (taken ++ rest) = rest) :
    e.ReapsAll taken (.error abort :: answers) e'' :=
  ⟨hstruck, nofun, fun hhealthy => absurd hhealthy hsick⟩

/-- A reap that finds nothing before others. They bring nothing together. -/
theorem reapsAll_cons_none (h : e'.ReapsAll taken answers e'') :
    e.ReapsAll taken (.ok none :: answers) e'' := by
  refine ⟨fun rest hnodup => ?_, ?_, fun _ => ⟨[], rfl⟩⟩
  · rw [List.foldl_cons, strike_of_none (.ok none) rfl nofun]
    exact h.struck rest hnodup
  intro completions hgather
  obtain rfl := Except.ok.inj hgather
  exact ⟨[], List.nil_prefix, rfl, nofun⟩

/-- Several reaps take the outstanding reads from the front. A reap that fails may have
taken one as well, but never one from further back. -/
theorem reapsAll_reapAll (h : e.Consistent n reads) (modes : List ReapMode) :
    ∃ taken rest, reads = taken ++ rest ∧
      e.ReapsAll taken (reapAll modes e).1 (reapAll modes e).2 ∧
      e.Carries n reads (reapAll modes e).2 rest := by
  induction modes generalizing e reads with
  | nil =>
    refine ⟨[], reads, rfl, ⟨fun _ _ => rfl, ?_, fun _ => ⟨[], rfl⟩⟩, .refl h⟩
    intro completions hgather
    obtain rfl := Except.ok.inj hgather
    exact ⟨[], List.prefix_rfl, rfl, by simp⟩
  | cons mode modes ih =>
    obtain ⟨reads', houtcome, hcarries⟩ := reap_outcome h mode
    -- the other reaps start with the reads that the first one has left
    obtain ⟨taken, rest, rfl, hall, hcarries'⟩ := ih hcarries.consistent
    have htrans := hcarries.trans hcarries'
    rw [reapAll]
    generalize (e.reap mode).1 = answer at houtcome
    generalize hengine : (e.reap mode).2 = e' at houtcome hcarries hcarries' hall htrans
    cases houtcome with
    | @succeeded r _ _ hready hheld hholds =>
      exact ⟨r :: taken, rest, rfl, hall.cons_succeeded hcarries hcarries' hheld hholds, htrans⟩
    | @failed r _ _ _ htaken hsick =>
      refine ⟨r :: taken, rest, rfl, reapsAll_cons_error hsick (hall.struck_cons ?_), htrans⟩
      exact htaken.imp_right fun habort => by rw [habort]
    | nothing => exact ⟨taken, rest, rfl, reapsAll_cons_none hall, htrans⟩
    | withheld hsick =>
      refine ⟨taken, rest, rfl, reapsAll_cons_error hsick fun rest' hnodup => ?_, htrans⟩
      rw [List.foldl_cons, strike_of_none (.error (.failed .emptyAfterWait)) rfl (by simp)]
      exact hall.struck rest' hnodup

end RingRead.Engine
