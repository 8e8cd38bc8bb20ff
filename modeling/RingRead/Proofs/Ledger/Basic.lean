import RingRead.Proofs.Engine.Calls
import RingRead.Proofs.Simulation.Reaping
import RingRead.Proofs.Simulation.Starting
import RingRead.Proofs.Simulation.Submitting

/-!
# The ledger of an engine

A user of an engine can keep books on it: which reads were submitted and have not come back,
and which completions were returned and still have their blocks. A `Ledger` is an engine on
a simulated kernel with these books. They are kept from what the calls answer, with the
reads of a batch as the pool foretells them (`Pool.batch`), and the engine never looks at
them.

A run is a sequence of events: calls, and words to the kernel from outside. `Ledger.Tracks`
is the invariant that every event keeps (`tracks_run`): the outstanding reads of the ledger
are those that engine and kernel agree on.
-/

namespace RingRead

/-- Something that happens to an engine on a simulated kernel. Completions are not forged
here: the kernel reports what it was asked to do, if not always as it went. -/
inductive Event : Type 1 where
  | call (call : Call)
  /-- The kernel is told the result of the next read that has none yet. -/
  | inject (res : Int32)
  /-- The kernel is told to interrupt one more wait. -/
  | interrupt

/-- A completion that was returned, and the outstanding read that it answered. If no read
had its tag, there is none. That there always is one is not part of the definition; it is
what the ledger is kept for. -/
structure Delivery where
  completion : Completion
  read? : Option Read

/-- An engine with the books that its user keeps. The user knows what calls were made and
what they answered, and what the pool and the policy would have chosen. -/
structure Ledger where
  engine : Engine SimulatedKernel
  /-- The reads that were submitted and not reaped, batch after batch, each batch in the
  order in which the kernel reports it. -/
  outstanding : List Read := []
  /-- The completions that were returned and whose blocks were not given back. -/
  owned : List Delivery := []
  /-- Has a submission ever failed because no new block could be made? -/
  exhausted : Bool := false

namespace Ledger

open Engine

/-! ## Keeping books

The ledger puts down what it is told. Whether its books are right is not decided by how they
are kept: a user who struck off the wrong read would have other books, and these would not
be those of `tracks_run`. -/

/-- The reads that a submission has submitted, going by its answer: those of the batch, or
none. Of a submission that has failed nothing is written down, whatever the kernel has made
of it. -/
def submitted {π : Type} [OffsetPolicy π] (e : Engine SimulatedKernel) (target : ReadTarget)
    (policy : π) : (answer : Except Error UInt32) → List Read
  | .ok count => e.ring.kernel.reported (e.pool.batch target policy count.toNat)
  | .error _ => []

/-- Has a submission failed because no new block could be made? -/
def isExhausted : (answer : Except Error UInt32) → Bool
  | .error (.poolExhausted _) | .error (.alloc _) => true
  | _ => false

/-- The reads that are left when reaps have given these answers. An answer strikes off the
read that was taken, whether or not that read has succeeded. -/
def remaining (reads : List Read) (answers : List (Except (Abort Error) (Option Completion))) :
    List Read :=
  answers.foldl strike reads

/-- Completions with the outstanding reads that they answer, which are found by their
tags. -/
def deliveries (reads : List Read) (completions : List Completion) : List Delivery :=
  completions.map fun completion =>
    { completion, read? := reads.find? fun r => r.tag = completion.token.tag }

/-- The ledger after several reaps, which together have returned the given completions. -/
def reaped (l : Ledger) (modes : List ReapMode) (completions : List Completion) : Ledger :=
  let (answers, engine) := reapAll modes l.engine
  { l with
    engine
    outstanding := remaining l.outstanding answers
    owned := deliveries l.outstanding completions ++ l.owned }

/-- The ledger after an event. A drain is a sequence of reaps (`Engine.drain_eq_reapAll`),
some of which may have taken reads that an error keeps it from returning. -/
def step (l : Ledger) : Event → Ledger
  | .call (@Call.submitReads _ _ target requested policy) =>
    let (answer, engine, _) := l.engine.submitReads target requested policy
    { l with
      engine
      outstanding := l.outstanding ++ submitted l.engine target policy answer
      exhausted := l.exhausted || isExhausted answer }
  | .call (.reap mode) =>
    l.reaped [mode] ((l.engine.reap mode).1.toOption.getD none).toList
  | .call (.drain mode) =>
    l.reaped (l.engine.drainModes mode) ((l.engine.drain mode).1.toOption.getD [])
  | .call (.release token) =>
    { l with
      engine := (l.engine.release token).2
      owned := l.owned.filter fun d => d.completion.token ≠ token }
  | .inject res => { l with engine := l.engine.onKernel (l.engine.ring.kernel.inject res) }
  | .interrupt => { l with engine := l.engine.onKernel l.engine.ring.kernel.interrupt }

/-- The ledger after a run, which is a list of events. The engine in it goes through the
same calls as any other; what is written down beside it has no influence on it. -/
def run (l : Ledger) (events : List Event) : Ledger := events.foldl step l

/-- The ledger of an engine that was just created, with both completion indices moved to
`start`. A kernel may have run for long before, so no index is to be relied on to start at
zero. -/
def opening (e : Engine SimulatedKernel) (start : UInt32) : Ledger where
  engine := e.onKernel (e.ring.kernel.startAt start)

/-- The engine of a ledger goes through the calls of a run. -/
theorem engine_step_call (l : Ledger) (call : Call) :
    (l.step (.call call)).engine = l.engine.perform call := by
  cases call with
  | submitReads => rfl
  | reap => rfl
  | drain mode =>
    rw [step, Engine.perform, drain_eq_reapAll]
    rfl
  | release => rfl

/-! ## What the books say

The outcome of a submission is described in terms of engine and kernel
(`Engine.SubmitOutcome`). The ledger knows the answer alone, and that is enough to put down
the right reads. -/

variable {π : Type} [OffsetPolicy π] {e e' : Engine SimulatedKernel} {n count : UInt32}
variable {reads reads' taken rest : List Read} {target : ReadTarget} {policy : π}
variable {answer : Except Error UInt32}

/-- The ledger puts down what was submitted. -/
theorem submitted_of_outcome (h : e.SubmitOutcome target policy count reads answer reads' e') :
    reads' = reads ++ submitted e target policy answer := by
  cases h with
  | idle =>
    have hnone : submitted e target policy (.ok 0) = [] := ite_self []
    rw [hnone, List.append_nil]
  | small => exact (List.append_nil reads).symm
  | exhausted => exact (List.append_nil reads).symm
  | submitted => rfl

/-- As long as new blocks can be made, submitting leaves no block on loan that is not
outstanding. When they cannot, all block numbers are in use, or the system has refused to
map memory. The blocks that were loaned before that are on loan and belong to no read. -/
theorem named_of_outcome (h : e.SubmitOutcome target policy count reads answer reads' e') :
    (isExhausted answer = false → e.Named reads → e'.Named reads') ∧
      (isExhausted answer = true →
        e'.pool.size = UInt32.size ∨ ∃ err, some err ∈ e.pool.mappings) := by
  cases h with
  | idle => exact ⟨fun _ => id, nofun⟩
  | small => exact ⟨fun _ => id, nofun⟩
  | exhausted hshort =>
    rcases hshort with ⟨rfl, hsize⟩ | ⟨err, hmem, rfl⟩
    · exact ⟨nofun, fun _ => Or.inl hsize⟩
    · exact ⟨nofun, fun _ => Or.inr ⟨err, hmem⟩⟩
  | submitted _ hnamed => exact ⟨fun _ => hnamed, nofun⟩

/-! ## What runs keep

The invariant ties the ledger to the engine: its reads are those whose completions the
kernel has or will have, in this order, and they are the ones whose blocks are on loan. -/

variable {e₀ : Engine SimulatedKernel} {l : Ledger}

/-- The ledger of an engine that started as `e₀` has the right reads outstanding. The last
three parts say what may have gone wrong on the way, and that nothing else has. -/
structure Tracks (e₀ : Engine SimulatedKernel) (n : UInt32) (l : Ledger) : Prop where
  consistent : l.engine.Consistent n l.outstanding
  settings : e₀.ring.kernel.SameSettings l.engine.ring.kernel
  config_eq : l.engine.pool.config = e₀.pool.config
  named : l.exhausted = false → l.engine.Named l.outstanding
  short : l.exhausted = true →
    l.engine.pool.size = UInt32.size ∨ ∃ err, some err ∈ e₀.pool.mappings
  mappings_suffix : l.engine.pool.mappings <:+ e₀.pool.mappings

theorem Tracks.blockSize_eq (h : l.Tracks e₀ n) : l.engine.blockSize = e₀.blockSize :=
  congrArg PoolConfig.blockSize h.config_eq

/-- A pool in which all block numbers are in use stays so, and a refusal of the system stays
one that was among its answers. -/
theorem short_of_keeps {mappings : MappingAnswers} (hkeeps : e.Keeps e')
    (h : e'.Consistent n reads')
    (hshort : e.pool.size = UInt32.size ∨ ∃ err, some err ∈ mappings) :
    e'.pool.size = UInt32.size ∨ ∃ err, some err ∈ mappings :=
  hshort.imp_left fun hsize =>
    Nat.le_antisymm h.intact.size_le (hsize.symm.trans_le hkeeps.pool.size_le)

/-- A submission that succeeds writes down its reads, in the order in which they will be
reported. One that fails with the pool exhausted writes down nothing, and what is right of
the ledger stays right. -/
theorem Tracks.submitReads (h : l.Tracks e₀ n) (target : ReadTarget) (requested : UInt32)
    (policy : π) : (l.step (.call (.submitReads target requested policy))).Tracks e₀ n := by
  obtain ⟨reads', houtcome, hconsistent, hkeeps, -⟩ :=
    submitReads_outcome h.consistent target requested policy
  obtain ⟨hnamed, hshort⟩ := named_of_outcome houtcome
  obtain rfl := submitted_of_outcome houtcome
  refine ⟨hconsistent, h.settings.trans hkeeps.settings,
    hkeeps.pool.config_eq.trans h.config_eq, ?_, ?_,
    hkeeps.pool.mappings_suffix.trans h.mappings_suffix⟩
  · intro hnot
    obtain ⟨hbefore, hnow⟩ := Bool.or_eq_false_iff.mp hnot
    exact hnamed hnow (h.named hbefore)
  · intro hexhausted
    rcases Bool.or_eq_true_iff.mp hexhausted with hbefore | hnow
    · exact short_of_keeps hkeeps hconsistent (h.short hbefore)
    · refine (hshort hnow).imp_right fun ⟨err, hmem⟩ => ?_
      exact ⟨err, h.mappings_suffix.subset hmem⟩

/-- Several reaps keep the ledger right, and so reaps and drains do. -/
theorem Tracks.reaped (h : l.Tracks e₀ n) (modes : List ReapMode) (completions : List Completion) :
    (l.reaped modes completions).Tracks e₀ n := by
  obtain ⟨taken, rest, hreads, hall, hcarries⟩ := reapsAll_reapAll h.consistent modes
  have hremaining : remaining l.outstanding (reapAll modes l.engine).1 = rest := by
    have hnodup := h.consistent.nodup
    rw [hreads] at hnodup ⊢
    exact hall.struck rest hnodup
  have hkeeps := hcarries.keeps
  refine ⟨?_, h.settings.trans hkeeps.settings, hkeeps.pool.config_eq.trans h.config_eq, ?_, ?_,
    hkeeps.pool.mappings_suffix.trans h.mappings_suffix⟩
  · change (reapAll modes l.engine).2.Consistent n (remaining _ _)
    rw [hremaining]
    exact hcarries.consistent
  · intro hnot
    change (reapAll modes l.engine).2.Named (remaining _ _)
    rw [hremaining]
    exact hcarries.named (h.named hnot)
  · intro hexhausted
    exact short_of_keeps hkeeps hcarries.consistent (h.short hexhausted)

/-- Giving back a block without a right to it does nothing. -/
theorem release_of_error {token : Token} {err : Error} (h : e.pool.check token = .error err) :
    e.release token = (.error err, e) := by
  rw [Engine.release, Pool.release_error h]

/-- A block that is given back is taken off the list of what is owned. The reads that are
outstanding have other blocks. -/
theorem Tracks.release (h : l.Tracks e₀ n) (token : Token) :
    (l.step (.call (.release token))).Tracks e₀ n := by
  rcases hcheck : l.engine.pool.check token with err | _
  · have hsame := release_of_error hcheck
    -- a release that is refused leaves everything as it is
    refine ⟨?_, ?_, ?_, ?_, ?_, ?_⟩
    all_goals rw [step, hsame]
    exacts [h.consistent, h.settings, h.config_eq, h.named, h.short, h.mappings_suffix]
  · have hmoves := Pool.moves_release hcheck
    refine ⟨h.consistent.release hcheck, h.settings, hmoves.config_eq.trans h.config_eq, ?_, ?_,
      (l.engine.pool.mappings_release token).symm ▸ h.mappings_suffix⟩
    · intro hnot id hid
      have hother := hmoves.not_mem_of_state (by decide) hid
      exact h.named hnot id ((hmoves.state_of_not_mem id hother).symm.trans hid)
    · intro hexhausted
      exact (h.short hexhausted).imp_left (Pool.size_release hcheck).trans

theorem Tracks.onKernel {kernel : SimulatedKernel} (h : l.Tracks e₀ n)
    (hqueues : kernel.Queues n l.engine.ring.kernel.queued)
    (hsettings : l.engine.ring.kernel.SameSettings kernel) :
    Tracks e₀ n { l with engine := l.engine.onKernel kernel } :=
  ⟨h.consistent.onKernel hqueues hsettings, h.settings.trans hsettings, h.config_eq, h.named,
    h.short, h.mappings_suffix⟩

/-- Every event keeps the ledger right. -/
theorem tracks_step (h : l.Tracks e₀ n) (event : Event) : (l.step event).Tracks e₀ n := by
  cases event with
  | call call =>
    cases call with
    | submitReads target requested policy => exact h.submitReads target requested policy
    | reap mode => exact h.reaped [mode] _
    | drain mode => exact h.reaped (l.engine.drainModes mode) _
    | release token => exact h.release token
  | inject res => exact h.onKernel h.consistent.queues ⟨rfl, rfl, rfl, rfl, rfl⟩
  | interrupt => exact h.onKernel h.consistent.queues ⟨rfl, rfl, rfl, rfl, rfl⟩

/-- So does every run. -/
theorem tracks_run (h : l.Tracks e₀ n) (events : List Event) : (l.run events).Tracks e₀ n := by
  induction events generalizing l with
  | nil => exact h
  | cons event rest ih => exact ih (tracks_step h event)

theorem blockSize_opening {kernel : SimulatedKernel} {capacity serial : UInt32}
    {config : PoolConfig} {mappings : MappingAnswers}
    (hcreate : Engine.create kernel capacity serial config mappings = .ok e)
    (start : UInt32) : (opening e start).engine.blockSize = config.blockSize :=
  congrArg PoolConfig.blockSize (Pool.config_create (create_eq_ok hcreate).1)

/-- The system has not been asked for anything yet. -/
theorem mappings_opening {kernel : SimulatedKernel} {capacity serial : UInt32} {config : PoolConfig}
    {mappings : MappingAnswers}
    (hcreate : Engine.create kernel capacity serial config mappings = .ok e) (start : UInt32) :
    (opening e start).engine.pool.mappings = mappings :=
  Pool.mappings_create (create_eq_ok hcreate).1

/-- Nothing is outstanding on an engine that was just created. -/
theorem tracks_opening {kernel : SimulatedKernel} {capacity serial : UInt32} {config : PoolConfig}
    {mappings : MappingAnswers}
    (hcreate : Engine.create kernel capacity serial config mappings = .ok e)
    (hlimit : kernel.acceptLimit = none) (hpending : kernel.pending = []) (start : UInt32) :
    (opening e start).Tracks (opening e start).engine e.capacity ∧
      kernel.LeadsTo e.capacity [] (opening e start).engine.ring.kernel := by
  obtain ⟨hpool, hring⟩ := create_eq_ok hcreate
  obtain ⟨-, hsize, -⟩ := Pool.sound_create hpool
  obtain ⟨⟨hdepth, hle⟩, hlayout, hkernel, hflight⟩ := Ring.create_on_simulated hring
  have hleads := SimulatedKernel.leadsTo_startAt hdepth hle hpending start
  have hcapacity : e.capacity = SimulatedKernel.powerOfTwoFrom capacity :=
    congrArg SubmissionQueue.entries hlayout.sq_eq
  rw [← hkernel, ← hcapacity] at hleads
  rw [← hcapacity] at hlayout
  have hqueued : (opening e start).engine.ring.kernel.queued = [] := hleads.queues.queued_eq
  refine ⟨⟨⟨⟨hlayout.sq_eq, hlayout.cq_eq⟩, hleads.queues.self,
    hleads.settings.acceptLimit_eq.trans hlimit, Pool.intact_create hpool, List.nodup_nil, nofun,
    ?_, congrArg UInt32.toNat hflight, Nat.zero_le _⟩, .refl _, rfl, ?_, nofun,
    List.suffix_refl _⟩, hleads⟩
  · rw [hqueued]
    exact List.Forall₂.nil
  -- a pool without blocks has none on loan
  · intro _ id hid
    change e.pool.state? id = some .loaned at hid
    have hlt : id < e.pool.size := Pool.state?_isSome_iff.mp (by rw [hid]; rfl)
    rw [hsize] at hlt
    cases hlt

end Ledger

end RingRead
