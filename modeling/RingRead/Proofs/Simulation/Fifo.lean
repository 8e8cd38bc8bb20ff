import RingRead.Proofs.Simulation.Posting
import RingRead.Proofs.Simulation.Starting

/-!
# The completion ring is a bounded queue

Two sides work on the completion ring of a simulated kernel. The kernel moves what is
pending to the ring when it is entered or given a completion, and the user of the ring looks
for completions. `Traffic` is a ring together with what has gone through it: what was
pending, what was moved, and what looking for completions has answered. None of this is read
by either side.

* **A step.** Gathering completions changes nothing in the ring, moving them appends those
  that find room (`Traffic.Ordered.advance`), and looking takes the first
  (`Traffic.Ordered.take`).
* **A run.** `Traffic.fifo_of_run`: what was taken and what is unread are together what was
  moved and not dropped, in this order.
-/

namespace RingRead

/-- Something that happens to a ring on a simulated kernel. The completion indices are moved
by the two sides alone, and entries may be staged and published in any way. -/
inductive RingEvent where
  | stage (position : UInt32) (entry : Sqe)
  | publish (tail : UInt32)
  | enter (toSubmit minComplete flags : UInt32)
  /-- The kernel is given a completion that belongs to no submission. -/
  | post (c : Cqe)
  | inject (res : Int32)
  | interrupt
  /-- The user looks for a completion. -/
  | take
deriving DecidableEq

/-- Is a completion given to the kernel? -/
def RingEvent.isPost : RingEvent → Bool
  | post _ => true
  | _ => false

/-- The ring after an event. -/
def Ring.undergo (r : Ring SimulatedKernel) : RingEvent → Ring SimulatedKernel
  | .stage position entry => r.stage position entry
  | .publish tail => r.publishTail tail
  | .enter toSubmit minComplete flags =>
    { r with kernel := (Kernel.enter r.kernel toSubmit minComplete flags).kernel }
  | .post c => { r with kernel := r.kernel.postRaw c }
  | .inject res => { r with kernel := r.kernel.inject res }
  | .interrupt => { r with kernel := r.kernel.interrupt }
  | .take => r.take.2

/-- The kernel when everything is pending that an event makes pending, before any of it is
moved. This is a point inside the event, which is why the event is not looked at from
outside alone. -/
def Ring.gathered (r : Ring SimulatedKernel) : RingEvent → SimulatedKernel
  | .enter toSubmit _ _ => (r.kernel.entered.consume (r.kernel.limitTo toSubmit)).2.2
  | .post c => { r.kernel with pending := r.kernel.pending ++ [c] }
  | event => (r.undergo event).kernel

/-- A ring with what has gone through its completion queue. The lists are kept for the sake
of what is said about them: no operation reads them. -/
structure Traffic where
  ring : Ring SimulatedKernel
  /-- The completions that have been pending, oldest first. -/
  received : List Cqe
  /-- Those that are not pending any more. -/
  moved : List Move := []
  /-- The answers to the user's looking for completions. -/
  answers : List (Except Error (Option Cqe)) := []

namespace Traffic

/-- The completions that were taken, oldest first. -/
def taken (t : Traffic) : List Cqe :=
  t.answers.filterMap fun answer => answer.toOption.join

/-- The traffic after an event. What is pending before completions are moved and not
afterwards was moved. -/
def step (t : Traffic) (event : RingEvent) : Traffic :=
  let gathered := t.ring.gathered event
  let ring := t.ring.undergo event
  let gone := gathered.pending.take (gathered.pending.length - ring.kernel.pending.length)
  { ring
    received := t.received ++ gathered.pending.drop t.ring.kernel.pending.length
    moved := t.moved ++ gathered.moves gone
    answers := if event = .take then t.answers ++ [t.ring.take.1] else t.answers }

/-- The traffic after a run. -/
def run (t : Traffic) (events : List RingEvent) : Traffic := events.foldl step t

/-- A ring on which nothing has happened, with both completion indices moved to `start`.
What the kernel was given before it had a ring is pending. -/
def opening (r : Ring SimulatedKernel) (start : UInt32) : Traffic where
  ring := { r with kernel := r.kernel.startAt start }
  received := r.kernel.pending

/-- A ring of `n` entries whose completion queue is in order. So many completions were given
to the kernel from outside. What was taken and what is unread are together what was posted,
and each counter counts what its name says. -/
structure Ordered (t : Traffic) (n : UInt32) (posts : Nat) : Prop where
  layout : t.ring.HasLayout n
  answers_ok : ∀ answer ∈ t.answers, ∃ c?, answer = .ok c?
  received_eq : t.received = t.moved.map Move.completion ++ t.ring.kernel.pending
  queue : ∃ rings, t.ring.kernel.rings = some rings ∧ rings.entries = n ∧ rings.Bounded ∧
    t.taken ++ rings.unread = Move.accepted rings.cqEntries.toNat t.moved
  found_le : ∀ m ∈ t.moved, m.found ≤ (2 * n).toNat
  submitted_eq : t.ring.kernel.counters.submitted + posts = t.received.length
  completed_eq : t.ring.kernel.counters.completed = (Move.accepted (2 * n).toNat t.moved).length
  overflowed_eq : t.ring.kernel.counters.overflowed = (Move.dropped (2 * n).toNat t.moved).length

variable {t : Traffic} {n : UInt32} {posts posts' performed : Nat} {incoming gone : List Cqe}
variable {k k' : SimulatedKernel} {event : RingEvent}

/-- Completions are gathered, and some of what is pending is moved. -/
theorem Ordered.advance (h : t.Ordered n posts)
    (hgathers : t.ring.kernel.Gathers incoming performed k) (hposts : k.Posts gone k')
    (hcount : incoming.length + posts = performed + posts') :
    Ordered
      { t with
        ring := { t.ring with kernel := k' }
        received := t.received ++ incoming
        moved := t.moved ++ k.moves gone } n posts' := by
  obtain ⟨rings, hrings, rfl, hbounded, hqueue⟩ := h.queue
  -- two steps of the kernel: it gathers completions, and then it posts those that it gathered
  obtain ⟨rings₁, hrings₁, hbounded₁, hsame⟩ := hgathers.rings rings hrings hbounded
  obtain ⟨⟨rings₂, hrings₂, hbounded₂, hentries, hunread⟩, hsubmitted, hcompleted, hoverflowed⟩ :=
    hposts.rings rings₁ hrings₁ hbounded₁
  have hmoves : k.moves gone = rings₁.moves gone := by
    rw [SimulatedKernel.moves, hrings₁]
  have hdepth : rings₁.cqEntries = 2 * rings.entries := by
    rw [SimulatedRings.cqEntries, hsame.entries_eq]
  have hdepth₂ : rings₂.cqEntries = 2 * rings.entries := by
    rw [SimulatedRings.cqEntries, hentries, hsame.entries_eq]
  rw [hdepth] at hunread hcompleted hoverflowed
  refine ⟨⟨h.layout.sq_eq, h.layout.cq_eq⟩, h.answers_ok, ?_, ?_, ?_, ?_, ?_, ?_⟩
  · rw [h.received_eq, List.append_assoc, ← hgathers.pending_eq, hposts.pending_eq, List.map_append,
      hmoves, SimulatedRings.map_completion_moves, List.append_assoc]
  · refine ⟨rings₂, hrings₂, hentries.trans hsame.entries_eq, hbounded₂, ?_⟩
    rw [hunread, hsame.unread_eq, ← List.append_assoc, hdepth₂, Move.accepted_append, hmoves]
    exact congrArg (· ++ _) hqueue
  · intro m hm
    rcases List.mem_append.mp hm with hm | hm
    · exact h.found_le m hm
    · rw [hmoves] at hm
      exact hdepth ▸ SimulatedRings.le_of_mem_moves hbounded₁ hm
  · rw [List.length_append, ← h.submitted_eq, hsubmitted, hgathers.submitted_eq]
    omega
  · rw [hcompleted, hgathers.completed_eq, h.completed_eq, hmoves, Move.accepted_append,
      List.length_append]
  · rw [hoverflowed, hgathers.overflowed_eq, h.overflowed_eq, hmoves, Move.dropped_append,
      List.length_append]

/-- An event of the kernel's side that gathers completions and moves some of what is
pending. -/
theorem Ordered.step_of_gathers (h : t.Ordered n posts) (hne : event ≠ .take)
    (hring : t.ring.undergo event = { t.ring with kernel := k' })
    (hgathers : t.ring.kernel.Gathers incoming performed (t.ring.gathered event))
    (hposts : (t.ring.gathered event).Posts gone k')
    (hcount : incoming.length + posts = performed + posts') :
    (t.step event).Ordered n posts' := by
  have hgone : (t.ring.gathered event).pending.take
      ((t.ring.gathered event).pending.length - k'.pending.length) = gone := by
    rw [hposts.pending_eq, List.length_append, Nat.add_sub_cancel, List.take_left]
  have hincoming : (t.ring.gathered event).pending.drop t.ring.kernel.pending.length =
      incoming := by
    rw [hgathers.pending_eq, List.drop_left]
  simp only [step, hring, hgone, hincoming, if_neg hne]
  exact h.advance hgathers hposts hcount

/-- What happens on the kernel's side keeps the queue in order, and counts one more
completion from outside if it is one. -/
theorem Ordered.step_of_ne_take (h : t.Ordered n posts) (hne : event ≠ .take) :
    (t.step event).Ordered n (posts + if event.isPost then 1 else 0) := by
  obtain ⟨rings, hrings, rfl, hbounded, -⟩ := h.queue
  have hwf := hbounded.wellFormed
  cases event with
  | stage position entry =>
    -- staging and publishing are on the other ring
    have hstage := Ring.stage_eq h.layout hrings hwf.depth position entry
    have hgathers : t.ring.kernel.Gathers [] 0 (t.ring.stage position entry).kernel := by
      rw [hstage]
      exact .of_sameCompletions hrings (hwf.stage position entry) ⟨rfl, rfl, rfl, rfl⟩
    exact h.step_of_gathers hne rfl hgathers (.refl _) rfl
  | publish tail =>
    have hpublish := Ring.publishTail_eq h.layout hrings tail
    have hgathers : t.ring.kernel.Gathers [] 0 (t.ring.publishTail tail).kernel := by
      rw [hpublish]
      refine .of_sameCompletions hrings ?_ ⟨rfl, rfl, rfl, rfl⟩
      exact hwf.of_positions ..
    exact h.step_of_gathers hne rfl hgathers (.refl _) rfl
  | enter toSubmit minComplete flags =>
    let limit := t.ring.kernel.limitTo toSubmit
    -- an enter is the one event in which operations are performed
    obtain ⟨incoming, hgathers⟩ := t.ring.kernel.entered.gathers_consume limit
    obtain ⟨gone, hposts⟩ :=
      (t.ring.gathered (.enter toSubmit minComplete flags)).posts_respond flags
        (t.ring.kernel.entered.consume limit).1 (t.ring.kernel.entered.consume limit).2.1
    exact h.step_of_gathers hne rfl hgathers.of_entered hposts rfl
  | post c =>
    have hgathers : t.ring.kernel.Gathers [c] 0 (t.ring.gathered (.post c)) :=
      ⟨rfl, rfl, rfl, rfl, fun rings hrings h => ⟨rings, hrings, h, .refl rings⟩⟩
    obtain ⟨gone, hposts⟩ := (t.ring.gathered (.post c)).posts_flush
    refine h.step_of_gathers hne rfl hgathers hposts ?_
    change 1 + posts = 0 + (posts + 1)
    omega
  | inject res =>
    have hgathers : t.ring.kernel.Gathers [] 0 (t.ring.kernel.inject res) := .of_eq rfl rfl rfl
    exact h.step_of_gathers hne rfl hgathers (.refl _) rfl
  | interrupt =>
    have hgathers : t.ring.kernel.Gathers [] 0 t.ring.kernel.interrupt := .of_eq rfl rfl rfl
    exact h.step_of_gathers hne rfl hgathers (.refl _) rfl
  | take => exact absurd rfl hne

/-- Looking for a completion touches nothing that is pending, and adds one answer. -/
theorem step_take (hpending : t.ring.take.2.kernel.pending = t.ring.kernel.pending) :
    t.step .take =
      { t with ring := t.ring.take.2, answers := t.answers ++ [t.ring.take.1] } := by
  have hgathered : t.ring.gathered .take = t.ring.take.2.kernel := rfl
  have hundergo : t.ring.undergo .take = t.ring.take.2 := rfl
  simp only [step, hgathered, hundergo, hpending, Nat.sub_self, List.take_zero,
    SimulatedKernel.moves_nil, List.append_nil, List.drop_length, if_true]

theorem taken_concat (t : Traffic) (r : Ring SimulatedKernel) (c? : Option Cqe) :
    taken { t with ring := r, answers := t.answers ++ [.ok c?] } = t.taken ++ c?.toList := by
  rw [taken, List.filterMap_append]
  cases c? with
  | none => rfl
  | some c => rfl

/-- The user finds the first completion that was moved to the ring and not taken. -/
theorem Ordered.take (h : t.Ordered n posts) :
    (t.step .take).Ordered n posts ∧
      t.ring.take.1 = .ok (Move.accepted (2 * n).toNat t.moved)[t.taken.length]? := by
  obtain ⟨rings, hrings, rfl, hbounded, hqueue⟩ := h.queue
  have hwf := hbounded.wellFormed
  have hanswers (c? : Option Cqe) : ∀ answer ∈ t.answers ++ [.ok c?], ∃ c?, answer = .ok c? := by
    simp only [List.forall_mem_append, List.forall_mem_singleton]
    exact ⟨h.answers_ok, c?, rfl⟩
  -- what was taken is as long as the part of the posted ones that is behind the head
  have hfirst : (Move.accepted (2 * rings.entries).toNat t.moved)[t.taken.length]? =
      rings.unread.head? := by
    rw [← SimulatedRings.cqEntries, ← hqueue, List.getElem?_append_right (Nat.le_refl _),
      Nat.sub_self, List.head?_eq_getElem?]
  rw [hfirst]
  cases hunread : rings.unread with
  | nil =>
    have htake := Ring.take_of_nil h.layout hrings hunread
    rw [step_take (by rw [htake]), htake]
    refine ⟨⟨h.layout, hanswers none, h.received_eq, ⟨rings, hrings, rfl, hbounded, ?_⟩, h.found_le,
      h.submitted_eq, h.completed_eq, h.overflowed_eq⟩, rfl⟩
    rw [taken_concat, Option.toList_none, List.append_nil]
    exact hqueue
  | cons c rest =>
    obtain ⟨hrest, htake⟩ := Ring.take_of_cons h.layout hrings hbounded.length_le hunread
    rw [step_take (by rw [htake]), htake]
    refine ⟨⟨⟨h.layout.sq_eq, h.layout.cq_eq⟩, hanswers (some c), h.received_eq,
      ⟨_, rfl, rfl, ⟨?_, ?_⟩, ?_⟩, h.found_le, h.submitted_eq, h.completed_eq, h.overflowed_eq⟩,
      rfl⟩
    · exact hwf.of_positions ..
    · have hle := hbounded.length_le
      rw [hunread] at hle
      rw [hrest]
      exact Nat.le_of_succ_le hle
    · rw [taken_concat, hrest, List.append_assoc, Option.toList_some, List.singleton_append,
        ← hunread]
      exact hqueue

/-- Every event keeps the queue in order. -/
theorem Ordered.step (h : t.Ordered n posts) (event : RingEvent) :
    (t.step event).Ordered n (posts + if event.isPost then 1 else 0) := by
  by_cases htake : event = .take
  · rw [htake]
    exact h.take.1
  · exact h.step_of_ne_take htake

theorem Ordered.run (h : t.Ordered n posts) (events : List RingEvent) :
    (t.run events).Ordered n (posts + events.countP RingEvent.isPost) := by
  induction events generalizing t posts with
  | nil => exact h
  | cons event rest ih =>
    have hrest := ih (h.step event)
    rw [Nat.add_assoc, Nat.add_comm (if event.isPost then 1 else 0)] at hrest
    rw [List.countP_cons]
    exact hrest

/-- On a new ring the queue is in order. What the kernel was given before is pending. -/
theorem ordered_opening {kernel : SimulatedKernel} {capacity : UInt32} {r : Ring SimulatedKernel}
    (hcreate : Ring.create kernel capacity = .ok r) (hnew : kernel.counters = {}) (start : UInt32) :
    (opening r start).Ordered r.sq.entries kernel.pending.length := by
  obtain ⟨⟨hdepth, hle⟩, hlayout, hkernel, -⟩ := Ring.create_on_simulated hcreate
  have hentries : r.sq.entries = SimulatedKernel.powerOfTwoFrom capacity :=
    congrArg SubmissionQueue.entries hlayout.sq_eq
  rw [← hentries] at hdepth hle hlayout hkernel
  obtain ⟨hwf, hunread⟩ := SimulatedKernel.wellFormed_startAt hdepth hle start
  have hstart := SimulatedKernel.startAt_eq (k := kernel.withRings r.sq.entries) rfl start
  rw [opening, hkernel, hstart]
  refine ⟨⟨hlayout.sq_eq, hlayout.cq_eq⟩, nofun, rfl, ⟨_, rfl, rfl, ⟨hwf, ?_⟩, hunread⟩, nofun, ?_,
    ?_, ?_⟩
  · rw [hunread]
    exact Nat.zero_le _
  · change kernel.counters.submitted + _ = _
    rw [hnew]
    exact Nat.zero_add _
  · exact congrArg SimulationCounters.completed hnew
  · exact congrArg SimulationCounters.overflowed hnew

/-! ## Runs

The two sides take turns in any order. Each event of a run keeps `Ordered`, and what
`Ordered` says about the lists is what the result says about a run. -/

/-- **The completion ring is a bounded queue.** Whatever the kernel's settings are, wherever
both completion indices start and however the two sides take turns, after any run:

* What was taken and what is unread, read from its slots, are together the completions that
  were moved to the ring and found room, in order and each once. Those that found as many
  entries unread as the ring has are the ones that were dropped.
* Looking for a completion never fails, and finds the next of them if there is one.
* No completion finds more entries unread than the ring has, and all that was pending and is
  not any more was moved.
* What is ready is what is unread, and there is room for it.
* The counters count: with what is pending they make up all operations that were performed
  and all completions that were given to the kernel, before it had a ring or later. -/
theorem fifo_of_run {kernel : SimulatedKernel} {capacity : UInt32} {r : Ring SimulatedKernel}
    (hcreate : Ring.create kernel capacity = .ok r) (hnew : kernel.counters = {}) (start : UInt32)
    (events : List RingEvent) :
    let t := (opening r start).run events
    let depth := r.cq.entries.toNat
    let posted := Move.accepted depth t.moved
    let dropped := Move.dropped depth t.moved
    let counters := t.ring.kernel.counters
    (∃ rings, t.ring.kernel.rings = some rings ∧ t.taken ++ rings.unread = posted ∧
      t.ring.ready.toNat = rings.unread.length ∧ rings.unread.length ≤ depth) ∧
    ((∀ answer ∈ t.answers, ∃ c?, answer = .ok c?) ∧
      t.ring.take.1 = .ok posted[t.taken.length]?) ∧
    (t.received = t.moved.map Move.completion ++ t.ring.kernel.pending ∧
      ∀ m ∈ t.moved, m.found ≤ depth) ∧
    (counters.completed = posted.length ∧ counters.overflowed = dropped.length) ∧
    counters.completed + counters.overflowed + t.ring.kernel.pending.length =
      counters.submitted + (kernel.pending.length + events.countP RingEvent.isPost) := by
  intro t depth posted dropped counters
  have h : t.Ordered r.sq.entries _ := (ordered_opening hcreate hnew start).run events
  obtain ⟨-, hlayout, -, -⟩ := Ring.create_on_simulated hcreate
  have hdepth : r.cq.entries = 2 * r.sq.entries := by
    rw [hlayout.cq_eq, hlayout.sq_eq]
  obtain ⟨rings, hrings, hentries, hbounded, hqueue⟩ := h.queue
  obtain ⟨-, hfirst⟩ := h.take
  have hcompleted := h.completed_eq
  have hoverflowed := h.overflowed_eq
  have hfound := h.found_le
  have hle := hbounded.length_le
  rw [SimulatedRings.cqEntries, hentries, ← hdepth] at hqueue hle
  rw [← hdepth] at hfirst hcompleted hoverflowed hfound
  refine ⟨⟨rings, hrings, hqueue, Ring.toNat_ready h.layout hrings, hle⟩, ⟨h.answers_ok, hfirst⟩,
    ⟨h.received_eq, hfound⟩, ⟨hcompleted, hoverflowed⟩, ?_⟩
  -- everything that came in was moved or is pending, and what was moved was posted or dropped
  have hall : counters.submitted + _ = _ := h.submitted_eq
  have hmoved := Move.length_accepted_add_dropped r.cq.entries.toNat t.moved
  rw [h.received_eq, List.length_append, List.length_map] at hall
  rw [show counters.completed = _ from hcompleted, show counters.overflowed = _ from hoverflowed]
  omega

/-- A completion was pending before the ring of two was set up, a read and another
completion follow: the last one finds the ring full. Once one was taken there is room again,
and the indices wrap. -/
theorem fifo_with_drop :
    ∃ r, Ring.create
        ({ file := SimulatedKernel.patternedFile 4 8, pending := [{ userData := 9 }] } :
          SimulatedKernel) 1 = .ok r ∧
      let events : List RingEvent :=
        [.stage 0 (.read 3 8 (Address.ofIndex 0) 8 5), .publish 1, .enter 1 0 0,
          .post { userData := 7 }, .take, .post { userData := 8 }, .take, .take, .take]
      let t := (opening r 4294967295).run events
      t.moved.map (·.completion.userData) = [9, 5, 7, 8] ∧ t.moved.map Move.found = [0, 1, 2, 1] ∧
        t.taken.map Cqe.userData = [9, 5, 8] ∧ t.answers.length = 4 ∧
        (∀ answer ∈ t.answers, ∃ c?, answer = .ok c?) ∧
        t.taken = Move.accepted 2 t.moved ∧
        t.ring.kernel.counters.completed + t.ring.kernel.counters.overflowed +
          t.ring.kernel.pending.length = t.ring.kernel.counters.submitted + 3 := by
  refine ⟨_, rfl, ?_⟩
  intro events t
  have hmoved : t.moved.map (·.completion.userData) = [9, 5, 7, 8] := by decide +kernel
  have hfound : t.moved.map Move.found = [0, 1, 2, 1] := by decide +kernel
  have htaken : t.taken.map Cqe.userData = [9, 5, 8] := by decide +kernel
  have hanswers : t.answers.length = 4 := by decide +kernel
  have hready : t.ring.ready.toNat = 0 := by decide +kernel
  have h := @fifo_of_run
    { file := SimulatedKernel.patternedFile 4 8, pending := [{ userData := 9 }] } 1 _ rfl rfl
    4294967295 events
  obtain ⟨⟨rings, -, hqueue, hunread, -⟩, ⟨hok, -⟩, -, -, hcounters⟩ := h
  have hnil : rings.unread = [] := List.eq_nil_of_length_eq_zero (hunread.symm.trans hready)
  rw [hnil, List.append_nil] at hqueue
  exact ⟨hmoved, hfound, htaken, hanswers, hok, hqueue, hcounters⟩

end Traffic

end RingRead
