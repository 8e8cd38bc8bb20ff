import RingRead.Proofs.Backlog.Outstanding

/-!
# Posting to a ring that may be full

Completions are moved from what is pending to the ring one at a time. Each of them finds so
many unread entries there, and what becomes of it depends on that number alone.

* **One completion.** `unread_offer`: with as many entries unread as the ring has, it is
  dropped and nothing changes; with fewer it comes last.
* **All that is pending.** `SimulatedRings.moves` lists what is moved, each completion with
  the number of entries that it found unread. `unread_postAll_moves` and `counters_postAll`:
  those that found room are appended and counted as completed, the others are counted as
  dropped.
-/

namespace RingRead

/-- A completion that was moved to a ring, with what it has found there: the number of
entries that were unread at that moment. Whether it was dropped follows from this number and
the depth alone. -/
structure Move where
  completion : Cqe
  /-- The number of entries that it found unread. -/
  found : Nat
deriving DecidableEq

namespace Move

/-- The completions that found fewer than `depth` entries unread, in order. -/
def accepted (depth : Nat) (moves : List Move) : List Cqe :=
  (moves.filter fun m => m.found ≠ depth).map completion

/-- The completions that found `depth` entries unread, in order. -/
def dropped (depth : Nat) (moves : List Move) : List Cqe :=
  (moves.filter fun m => m.found = depth).map completion

variable {depth : Nat} {moves moves' : List Move}

theorem accepted_cons (m : Move) (moves : List Move) :
    accepted depth (m :: moves) =
      (if m.found = depth then [] else [m.completion]) ++ accepted depth moves := by
  by_cases h : m.found = depth
  · simp [accepted, h]
  · simp [accepted, h]

theorem dropped_cons (m : Move) (moves : List Move) :
    dropped depth (m :: moves) =
      (if m.found = depth then [m.completion] else []) ++ dropped depth moves := by
  by_cases h : m.found = depth
  · simp [dropped, h]
  · simp [dropped, h]

theorem accepted_append :
    accepted depth (moves ++ moves') = accepted depth moves ++ accepted depth moves' := by
  simp [accepted]

theorem dropped_append :
    dropped depth (moves ++ moves') = dropped depth moves ++ dropped depth moves' := by
  simp [dropped]

/-- Each completion that was moved is accepted or dropped. -/
theorem length_accepted_add_dropped (depth : Nat) (moves : List Move) :
    (accepted depth moves).length + (dropped depth moves).length = moves.length := by
  induction moves with
  | nil => rfl
  | cons m rest ih =>
    rw [accepted_cons, dropped_cons, List.length_append, List.length_append, List.length_cons]
    split
    all_goals
      rw [List.length_nil, List.length_singleton]
      omega

end Move

namespace SimulatedRings

open SimulatedKernel (postAll)

variable {r r' : SimulatedRings} {c : Cqe} {cs cs' : List Cqe} {counters : SimulationCounters}

/-- A ring with no more unread entries than it has room for. A ring that starts so stays so,
since what finds it full is dropped. -/
structure Bounded (r : SimulatedRings) : Prop where
  wellFormed : r.WellFormed
  length_le : r.unread.length ≤ r.cqEntries.toNat

/-- The completion sides of two rings are the same. What is done to the submission side, by
either party, leaves this in place. -/
structure SameCompletions (r r' : SimulatedRings) : Prop where
  entries_eq : r'.entries = r.entries
  cqHead_eq : r'.cqHead = r.cqHead
  cqTail_eq : r'.cqTail = r.cqTail
  completions_eq : r'.completions = r.completions

theorem SameCompletions.refl (r : SimulatedRings) : r.SameCompletions r := ⟨rfl, rfl, rfl, rfl⟩

theorem SameCompletions.unread_eq (h : r.SameCompletions r') : r'.unread = r.unread := by
  obtain ⟨hentries, hhead, htail, hcompletions⟩ := h
  have hat (position : UInt32) : r'.completionAt position = r.completionAt position := by
    simp only [completionAt, cqEntries, hentries, hcompletions]
  simp only [unread, hhead, htail, hat]

theorem Bounded.of_sameCompletions (h : r.Bounded) (hwf : r'.WellFormed)
    (hsame : r.SameCompletions r') : r'.Bounded := by
  refine ⟨hwf, ?_⟩
  rw [hsame.unread_eq, cqEntries, hsame.entries_eq]
  exact h.length_le

/-! ## One completion

Whether a completion is kept depends on how many are unread when it is moved. That number is
put down with it, so that a run can be asked afterwards which completions were dropped, and
why. -/

/-- A ring is full exactly if as many entries are unread as it has. The kernel compares the
distance of the indices with the depth. -/
theorem isFull_iff (h : r.Bounded) : r.isFull ↔ r.unread.length = r.cqEntries.toNat := by
  have hle := h.length_le
  rw [isFull, UInt32.le_iff_toNat_le, ← length_unread]
  omega

/-- The ring after one completion was moved to it. -/
def offer (r : SimulatedRings) (c : Cqe) : SimulatedRings := (postAll [c] r {}).1

theorem offer_of_full (h : r.isFull) (c : Cqe) : r.offer c = r := by
  rw [offer, postAll, if_pos h, postAll]

theorem offer_of_room (h : ¬r.isFull) (c : Cqe) : r.offer c = r.post c := by
  rw [offer, postAll, if_neg h, postAll]

@[simp] theorem cqEntries_offer (r : SimulatedRings) (c : Cqe) :
    (r.offer c).cqEntries = r.cqEntries := by
  by_cases hfull : r.isFull
  · rw [offer_of_full hfull]
  · rw [offer_of_room hfull]
    rfl

/-- A completion that finds the ring full changes nothing, any other one comes last. -/
theorem unread_offer (h : r.Bounded) (c : Cqe) :
    (r.offer c).Bounded ∧
      (r.offer c).unread =
        r.unread ++ if r.unread.length = r.cqEntries.toNat then [] else [c] := by
  by_cases hfull : r.isFull
  · rw [offer_of_full hfull, if_pos ((isFull_iff h).mp hfull), List.append_nil]
    exact ⟨h, rfl⟩
  · have hne := mt (isFull_iff h).mpr hfull
    have hunread := unread_post h.wellFormed hfull c
    rw [offer_of_room hfull, if_neg hne, hunread]
    refine ⟨⟨h.wellFormed.post c, ?_⟩, rfl⟩
    have hle := h.length_le
    change (r.post c).unread.length ≤ r.cqEntries.toNat
    rw [hunread, List.length_append, List.length_singleton]
    omega

/-! ## All that is pending

Completions are moved one after the other, and each one that is kept is unread for the next.
The list of moves is made along the way. -/

/-- What is moved to a ring, each completion with the number of entries that it finds
unread. -/
def moves : List Cqe → SimulatedRings → List Move
  | [], _ => []
  | c :: rest, r => ⟨c, r.unread.length⟩ :: moves rest (r.offer c)

theorem map_completion_moves (cs : List Cqe) (r : SimulatedRings) :
    (moves cs r).map Move.completion = cs := by
  induction cs generalizing r with
  | nil => rfl
  | cons c rest ih => rw [moves, List.map_cons, ih]

/-- No completion finds more entries unread than there are. -/
theorem le_of_mem_moves (h : r.Bounded) {m : Move} (hm : m ∈ moves cs r) :
    m.found ≤ r.cqEntries.toNat := by
  induction cs generalizing r with
  | nil => cases hm
  | cons c rest ih =>
    rcases List.mem_cons.mp hm with rfl | hm
    · exact h.length_le
    · have hle := ih (unread_offer h c).1 hm
      rwa [cqEntries_offer] at hle

/-- Moving completions one after the other is moving the first of them and then the
others. -/
theorem postAll_cons (c : Cqe) (rest : List Cqe) (r : SimulatedRings)
    (counters : SimulationCounters) :
    postAll (c :: rest) r counters =
      postAll rest (r.offer c)
        (if r.isFull then { counters with overflowed := counters.overflowed + 1 }
          else { counters with completed := counters.completed + 1 }) := by
  rw [postAll]
  split
  · next hfull => rw [offer_of_full hfull]
  · next hroom => rw [offer_of_room hroom]

/-- The completions that find room are appended, in order. Once the ring is full all that
follow are dropped, since nothing is taken meanwhile. -/
theorem unread_postAll_moves (h : r.Bounded) (cs : List Cqe) (counters : SimulationCounters) :
    (postAll cs r counters).1.Bounded ∧
      (postAll cs r counters).1.unread =
        r.unread ++ Move.accepted r.cqEntries.toNat (moves cs r) := by
  induction cs generalizing r counters with
  | nil => exact ⟨h, (List.append_nil _).symm⟩
  | cons c rest ih =>
    obtain ⟨hbounded, hunread⟩ := unread_offer h c
    rw [postAll_cons]
    obtain ⟨hposted, hrest⟩ := ih hbounded
      (if r.isFull then { counters with overflowed := counters.overflowed + 1 }
        else { counters with completed := counters.completed + 1 })
    refine ⟨hposted, ?_⟩
    rw [hrest, hunread, cqEntries_offer, moves, Move.accepted_cons, List.append_assoc]

/-- Those that find room are counted as completed, the others as dropped. -/
theorem counters_postAll (h : r.Bounded) (cs : List Cqe) (counters : SimulationCounters) :
    (postAll cs r counters).2 =
      { counters with
        completed :=
          counters.completed + (Move.accepted r.cqEntries.toNat (moves cs r)).length
        overflowed :=
          counters.overflowed + (Move.dropped r.cqEntries.toNat (moves cs r)).length } := by
  induction cs generalizing r counters with
  | nil => rfl
  | cons c rest ih =>
    rw [postAll_cons, ih (unread_offer h c).1, cqEntries_offer, moves, Move.accepted_cons,
      Move.dropped_cons]
    by_cases hfull : r.isFull
    · have heq := (isFull_iff h).mp hfull
      simp only [if_pos hfull, if_pos heq, List.length_append, List.length_singleton,
        List.nil_append, Nat.add_assoc]
    · have hne := mt (isFull_iff h).mpr hfull
      simp only [if_neg hfull, if_neg hne, List.length_append, List.length_singleton,
        List.nil_append, Nat.add_assoc]

end SimulatedRings

/-! ## A kernel

What a kernel does to its completions comes in two steps: it gathers new ones, and it moves
some of those that are pending. Either may be empty. -/

theorem SimulatedRings.length_entriesFrom (r : SimulatedRings) (count : Nat) (position : UInt32) :
    (r.entriesFrom count position).length = count := by
  induction count generalizing position with
  | zero => rfl
  | succ count ih => exact congrArg Nat.succ (ih (position + 1))

namespace SimulatedKernel

variable {k k' k'' : SimulatedKernel} {gone : List Cqe}

/-- What a kernel moves to its rings, each completion with the number of entries that it
finds unread. -/
def moves (k : SimulatedKernel) (gone : List Cqe) : List Move :=
  match k.rings with
  | none => []
  | some rings => rings.moves gone

@[simp] theorem moves_nil (k : SimulatedKernel) : k.moves [] = [] := by
  rw [moves]
  split
  · rfl
  · rfl

/-- `k'` is `k` with more completions pending, after as many operations as `performed` says.
The completion side of its rings is the same, so nothing was moved yet. -/
structure Gathers (k : SimulatedKernel) (incoming : List Cqe) (performed : Nat)
    (k' : SimulatedKernel) : Prop where
  pending_eq : k'.pending = k.pending ++ incoming
  submitted_eq : k'.counters.submitted = k.counters.submitted + performed
  completed_eq : k'.counters.completed = k.counters.completed
  overflowed_eq : k'.counters.overflowed = k.counters.overflowed
  rings : ∀ rings, k.rings = some rings → rings.Bounded →
    ∃ rings', k'.rings = some rings' ∧ rings'.Bounded ∧ rings.SameCompletions rings'

/-- `k'` is `k` after it has moved the completions in `gone` to its rings. These are the
first of what was pending, and each is counted as completed or as dropped. -/
structure Posts (k : SimulatedKernel) (gone : List Cqe) (k' : SimulatedKernel) : Prop where
  pending_eq : k.pending = gone ++ k'.pending
  rings : ∀ rings, k.rings = some rings → rings.Bounded →
    let depth := rings.cqEntries.toNat
    (∃ rings', k'.rings = some rings' ∧ rings'.Bounded ∧ rings'.entries = rings.entries ∧
      rings'.unread = rings.unread ++ Move.accepted depth (rings.moves gone)) ∧
    k'.counters.submitted = k.counters.submitted ∧
    k'.counters.completed =
      k.counters.completed + (Move.accepted depth (rings.moves gone)).length ∧
    k'.counters.overflowed =
      k.counters.overflowed + (Move.dropped depth (rings.moves gone)).length

/-- Nothing more is pending. -/
theorem Gathers.refl (k : SimulatedKernel) : k.Gathers [] 0 k :=
  ⟨(List.append_nil _).symm, rfl, rfl, rfl, fun rings hrings h => ⟨rings, hrings, h, .refl rings⟩⟩

/-- What leaves rings, pending completions and counters alone gathers nothing. -/
theorem Gathers.of_eq (hrings : k'.rings = k.rings) (hpending : k'.pending = k.pending)
    (hcounters : k'.counters = k.counters) : k.Gathers [] 0 k' := by
  have hrefl := Gathers.refl k
  refine ⟨hpending.trans hrefl.pending_eq, ?_, ?_, ?_, hrings ▸ hrefl.rings⟩
  all_goals simp only [hcounters, Nat.add_zero]

/-- Counting the call puts nothing in what is pending. -/
theorem Gathers.of_entered {incoming : List Cqe} {performed : Nat}
    (h : k.entered.Gathers incoming performed k') : k.Gathers incoming performed k' :=
  ⟨h.pending_eq, h.submitted_eq, h.completed_eq, h.overflowed_eq, h.rings⟩

/-- A change of the submission side puts nothing in what is pending. -/
theorem Gathers.of_sameCompletions {rings rings' : SimulatedRings} (hrings : k.rings = some rings)
    (hwf : rings'.WellFormed) (hsame : rings.SameCompletions rings') :
    k.Gathers [] 0 { k with rings := some rings' } := by
  refine ⟨(List.append_nil _).symm, rfl, rfl, rfl, fun rings₁ hrings₁ h => ?_⟩
  obtain rfl : rings = rings₁ := Option.some.inj (hrings.symm.trans hrings₁)
  exact ⟨rings', rfl, h.of_sameCompletions hwf hsame, hsame⟩

/-- Nothing is moved. -/
theorem Posts.refl (k : SimulatedKernel) : k.Posts [] k := by
  refine ⟨rfl, fun rings hrings h => ⟨⟨rings, hrings, h, rfl, ?_⟩, rfl, rfl, rfl⟩⟩
  exact (List.append_nil _).symm

/-- A kernel that is stalled moves nothing, any other one moves all that is pending. -/
theorem posts_flush (k : SimulatedKernel) : ∃ gone, k.Posts gone k.flush := by
  by_cases hstalled : k.stalled
  · rw [flush, if_pos hstalled]
    exact ⟨[], .refl k⟩
  · cases hrings : k.rings with
    | none =>
      rw [flush, if_neg hstalled, hrings]
      exact ⟨[], .refl k⟩
    | some rings =>
      -- with rings, and not stalled, the kernel posts everything that is pending
      have hflush : k.flush =
          { k with
            rings := some (postAll k.pending rings k.counters).1
            pending := []
            counters := (postAll k.pending rings k.counters).2 } := by
        rw [flush, if_neg hstalled, hrings]
      rw [hflush]
      refine ⟨k.pending, (List.append_nil _).symm, ?_⟩
      intro rings' hrings' h
      obtain rfl : rings = rings' := Option.some.inj (hrings.symm.trans hrings')
      obtain ⟨hbounded, hunread⟩ := SimulatedRings.unread_postAll_moves h k.pending k.counters
      obtain ⟨cqTail, completions, hposted⟩ := postAll_eq k.pending rings k.counters
      refine ⟨⟨_, rfl, hbounded, by rw [hposted], hunread⟩, ?_⟩
      rw [SimulatedRings.counters_postAll h]
      exact ⟨rfl, rfl, rfl⟩

/-- A kernel that answers a call posts what is pending, or it leaves that for later, when it
defers or is interrupted. -/
theorem posts_respond (k : SimulatedKernel) (flags taken : UInt32) (transfers : List Transfer) :
    ∃ gone, k.Posts gone (respond flags (taken, transfers, k)).kernel := by
  rw [respond]
  split
  · split
    · obtain ⟨gone, h⟩ := k.waited.posts_flush
      exact ⟨gone, h.pending_eq, h.rings⟩
    · exact ⟨[], (Posts.refl k).pending_eq, (Posts.refl k).rings⟩
  · split
    · exact ⟨[], .refl k⟩
    · exact k.posts_flush

/-- Consuming entries puts as many completions in what is pending as entries were
consumed. -/
theorem gathers_consume (k : SimulatedKernel) (limit : UInt32) :
    ∃ incoming, k.Gathers incoming incoming.length (k.consume limit).2.2 := by
  cases hrings : k.rings with
  | none =>
    rw [consume, hrings]
    exact ⟨[], .refl k⟩
  | some rings =>
    refine ⟨k.reported (performAll k.file k.injected (rings.consume limit).2.1).1, ?_⟩
    have hlength : (rings.consume limit).2.1.length = (rings.consume limit).1.toNat :=
      rings.length_entriesFrom ..
    rw [length_reported, length_performAll, hlength]
    simp only [consume, hrings]
    refine ⟨rfl, rfl, rfl, rfl, ?_⟩
    intro rings' hrings' h
    obtain rfl : rings = rings' := Option.some.inj (hrings.symm.trans hrings')
    have hwf := h.wellFormed
    have hsame : rings.SameCompletions (rings.consume limit).2.2 := ⟨rfl, rfl, rfl, rfl⟩
    refine ⟨_, rfl, h.of_sameCompletions ?_ hsame, hsame⟩
    exact hwf.of_positions ..

end SimulatedKernel

end RingRead
