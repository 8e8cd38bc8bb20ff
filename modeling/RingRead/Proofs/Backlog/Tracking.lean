import RingRead.Proofs.Backlog.Relay
import RingRead.Proofs.Engine.Exchanges

/-!
# Engines with a backlog

An engine on a relay, with the entries that wait in the kernel behind it.

* `e.Tracks n entries` says that the engine's ring lies where the kernel has it, and that
  `entries` wait, each of which names a block.
* `e.Owes` says that each read that the kernel owes has a block on loan of its own.
* `e.Rests e' n entries` says that nothing was consumed on the way from `e` to `e'`, and
  that nothing more is owed. That is so in a reap, whether or not it waits (`rests_reap`).
-/

namespace RingRead

/-- An entry names a block, by its tag and by its address. The two are written from the same
number when the entry is made, and they are compared by nobody: the kernel writes to the
address, and the engine takes back the tag. -/
def Sqe.Names (s : Sqe) (id : UInt32) : Prop :=
  s.userData = id.toUInt64 ∧ s.addr = Address.ofIndex id

instance (s : Sqe) (id : UInt32) : Decidable (s.Names id) :=
  inferInstanceAs (Decidable (_ ∧ _))

/-- A ring that looks for a completion takes nothing from the entries that wait. What it
takes, the kernel no longer owes. -/
theorem Ring.take_backlog {r : Ring SimulatedKernel} {n : UInt32} {entries : List Sqe}
    (h : r.HasLayout n) (hbacklog : r.kernel.Backlog n entries) :
    r.take = (.ok none, r) ∨
      ∃ c kernel, r.take = (.ok (some c), { r with kernel }) ∧
        r.kernel.Passes n entries 0 kernel ∧
        r.kernel.tags.Perm (c.userData :: kernel.tags) := by
  obtain ⟨rings, hrings, rfl, hwaits, hlength⟩ := hbacklog
  cases hunread : rings.unread with
  | nil => exact Or.inl (take_of_nil h hrings hunread)
  | cons c rest =>
    obtain ⟨hrest, htake⟩ := take_of_cons h hrings hlength hunread
    -- taking a completion moves the head of one ring; the entries wait in the other
    let taken : SimulatedRings := { rings with cqHead := rings.cqHead + 1 }
    have hwaits' : taken.Waits entries :=
      SimulatedKernel.waits_of_completions hwaits hwaits.wellFormed.size_completions
    have htags : r.kernel.tags.Perm
        (c.userData :: { r.kernel with rings := some taken }.tags) := by
      rw [SimulatedKernel.tags_of_rings hrings, SimulatedKernel.tags_of_rings rfl,
        hwaits.waiting_eq, hwaits'.waiting_eq, hrest, hunread]
      exact List.perm_middle
    have hposition : { r.kernel with rings := some taken }.position = r.kernel.position := by
      simp only [SimulatedKernel.position, hrings, taken]
    refine Or.inr ⟨c, _, htake, ⟨⟨taken, rfl, rfl, hwaits', ?_⟩, ?_, ?_, ?_, rfl⟩, htags⟩
    · rw [hrest]
      rw [hunread, List.length_cons] at hlength
      exact Nat.le_of_succ_le hlength
    · rw [← hposition]
      exact SimulatedKernel.passedSince_position _
    · rw [hposition]
      exact (Position.add_ofNat_zero _).symm
    · exact (List.sublist_cons_self ..).subperm.trans htags.symm.subperm

namespace Engine

variable {κ : Type} [Kernel κ] [Relay κ] {e e' e'' : Engine κ} {n : UInt32} {entries : List Sqe}

/-- The entries that were published and not consumed, oldest first. -/
def waiting (e : Engine κ) : List Sqe := e.behind.ring.kernel.waiting

/-- The number of entries that were published and not consumed: the submission tail less the
kernel's submission head. The engine cannot see it. It follows from its books only as long
as no submission has failed. -/
def unconsumed (e : Engine κ) : Nat := e.behind.ring.kernel.unconsumed

/-- The entries that were consumed on the way from one state to another. They are read from
their slots, between the two positions that the kernel was at. -/
def passed (e e' : Engine κ) : List Sqe :=
  e'.behind.ring.kernel.passedSince e.behind.ring.kernel.position

/-- The ring lies where the kernel has it, and these entries wait, each of which names a
block. That the block is on loan is left to `Owes`, since forged completions can put an end
to it. -/
structure Tracks (e : Engine κ) (n : UInt32) (entries : List Sqe) : Prop where
  balanced : e.Balanced
  layout : e.ring.behind.HasLayout n
  backlog : e.behind.ring.kernel.Backlog n entries
  named : ∀ s ∈ entries, ∃ id, s.Names id

/-- Each read that the kernel owes has a block of its own, which is on loan. What is owed
are entries that wait and completions that are pending or posted. -/
structure Owes (e : Engine κ) : Prop where
  nodup : e.behind.ring.kernel.tags.Nodup
  loaned : ∀ tag ∈ e.behind.ring.kernel.tags, e.pool.state? tag.toNat = some .loaned

/-- Nothing was consumed on the way from one state to another. The same entries wait, in the
same slots, and the books that are kept of them are still right. -/
structure Stays (e e' : Engine κ) (n : UInt32) (entries : List Sqe) : Prop where
  tracks : e'.Tracks n entries
  position_eq : e'.behind.ring.kernel.position = e.behind.ring.kernel.position
  acceptLimit_eq : e'.behind.ring.kernel.acceptLimit = e.behind.ring.kernel.acceptLimit

/-- Nothing was consumed on the way, and what is owed in the end was owed before. So whoever
has a block that is owed in the end had it before, and the read in it is the same. -/
structure Rests (e e' : Engine κ) (n : UInt32) (entries : List Sqe) : Prop
    extends e.Stays e' n entries where
  owes : e.Owes → e'.Owes

theorem Rests.refl (h : e.Tracks n entries) : e.Rests e n entries := ⟨⟨h, rfl, rfl⟩, id⟩

theorem Rests.trans (h : e.Rests e' n entries) (h' : e'.Rests e'' n entries) :
    e.Rests e'' n entries :=
  ⟨⟨h'.tracks, h'.position_eq.trans h.position_eq, h'.acceptLimit_eq.trans h.acceptLimit_eq⟩,
    fun howes => h'.owes (h.owes howes)⟩

/-- Where the position is the same, nothing was passed. -/
theorem Stays.passed_eq (h : e.Stays e' n entries) : e.passed e' = [] := by
  rw [passed, ← h.position_eq]
  exact SimulatedKernel.passedSince_position _

/-- Fewer reads are owed as well, as long as the blocks of those that are left have stayed
on loan. -/
theorem Owes.of_subperm (h : e.Owes)
    (hsubperm : e'.behind.ring.kernel.tags.Subperm e.behind.ring.kernel.tags)
    (hstate : ∀ tag ∈ e'.behind.ring.kernel.tags,
      e'.pool.state? tag.toNat = e.pool.state? tag.toNat) : e'.Owes := by
  obtain ⟨tags, hperm, hsublist⟩ := hsubperm
  refine ⟨hperm.nodup_iff.mp (h.nodup.sublist hsublist), fun tag htag => ?_⟩
  rw [hstate tag htag]
  exact h.loaned tag (hsublist.subset (hperm.mem_iff.mpr htag))

/-! ## Waiting

A wait enters the kernel without asking it to take entries. The kernel may post completions
then, and does not move its position. -/

/-- What a kernel does on its own account, without taking an entry, and what it transfers,
is nothing to the entries that wait. -/
theorem Tracks.rests_of_passes {kernel : κ} (h : e.Tracks n entries)
    (hpasses : e.behind.ring.kernel.Passes n entries 0 (Relay.behind kernel))
    (transfers : List Transfer) :
    e.Rests ⟨{ e.ring with kernel }, e.pool.receiveAll transfers⟩ n entries := by
  refine ⟨⟨⟨?_, ⟨h.layout.sq_eq, h.layout.cq_eq⟩, hpasses.backlog, h.named⟩, ?_,
    hpasses.acceptLimit_eq⟩, fun howes => howes.of_subperm hpasses.tags_subperm fun tag _ => ?_⟩
  · exact h.balanced.of_drifts ⟨kernel, transfers, rfl⟩
  · exact hpasses.position_eq.trans (Position.add_ofNat_zero _)
  · exact Pool.state?_receiveAll e.pool transfers tag.toNat

/-- A kernel that is entered without being asked to take entries takes none. -/
theorem Tracks.rests_enter {minComplete flags : UInt32} {answer : Except SystemError UInt32}
    (h : e.Tracks n entries) (henter : e.enter 0 minComplete flags = (answer, e')) :
    e.Rests e' n entries := by
  obtain ⟨-, rfl⟩ := Prod.mk.inj henter
  obtain ⟨m, hm, -, hpasses⟩ := Relay.passes_enter h.backlog 0 minComplete flags
  obtain rfl : m = 0 := Nat.le_zero.mp hm
  exact h.rests_of_passes hpasses _

theorem Tracks.rests_wait (h : e.Tracks n entries) : e.Rests e.wait.2 n entries := by
  let P (e' : Engine κ) : Prop := e.Rests e' n entries
  have henter (e' : Engine κ) (hrests : P e') : P (e'.enter 0 1 enterGetEvents).2 :=
    hrests.trans (hrests.tracks.rests_enter rfl)
  exact waitWithin_invariant henter (Rests.refl h) _

/-- The completion that was found, if there was one, is no longer owed. So its block may be
taken back: no entry that waits and no other completion has its tag. -/
def NoLongerOwes (e : Engine κ) : Except Error (Option Cqe) → Prop
  | .ok (some c) => c.userData ∉ e.behind.ring.kernel.tags
  | _ => True

/-- Looking for a completion leaves the entries that wait alone. If one is found, its tag is
not among those that are owed any more, because no tag is owed twice. -/
theorem Tracks.rests_take {result : Except Error (Option Cqe)} (h : e.Tracks n entries)
    (htake : e.take = (result, e')) :
    e.Rests e' n entries ∧ (e.Owes → e'.NoLongerOwes result) := by
  have hresult : e.ring.take.1 = result := congrArg Prod.fst htake
  have htaken : (⟨e.ring.take.2, e.pool⟩ : Engine κ) = e' := congrArg Prod.snd htake
  have hengine : e' = ⟨{ e.ring with kernel := e.ring.take.2.kernel }, e.pool.receiveAll []⟩ :=
    htaken.symm.trans (congrArg (fun ring => (⟨ring, e.pool⟩ : Engine κ)) e.ring.take_eq)
  have hbehind := e.ring.behind_take
  rw [hengine, ← hresult]
  rcases Ring.take_backlog h.layout h.backlog with
    hnone | ⟨c, kernel, hsome, hpasses, htags⟩
  · obtain ⟨hanswer, hring⟩ := Prod.mk.inj (hbehind.symm.trans hnone)
    have hkernel : Relay.behind e.ring.take.2.kernel = e.behind.ring.kernel :=
      congrArg Ring.kernel hring
    rw [hanswer]
    refine ⟨h.rests_of_passes ?_ _, fun _ => trivial⟩
    rw [hkernel]
    exact .refl h.backlog
  · obtain ⟨hanswer, hring⟩ := Prod.mk.inj (hbehind.symm.trans hsome)
    have hkernel : Relay.behind e.ring.take.2.kernel = kernel := congrArg Ring.kernel hring
    rw [hanswer]
    refine ⟨h.rests_of_passes ?_ _, fun howes => ?_⟩
    · rw [hkernel]
      exact hpasses
    · -- no tag is owed twice
      have hnodup := htags.nodup_iff.mp howes.nodup
      have hnot := (List.nodup_cons.mp hnodup).1
      rw [← hkernel] at hnot
      exact hnot

/-- However a reap comes to an entry or to none, nothing is consumed meanwhile. -/
theorem Tracks.rests_takeOrWait {mode : ReapMode} {result : Except Error (Option Cqe)}
    (h : e.Tracks n entries) (htake : e.takeOrWait mode = (result, e')) :
    e.Rests e' n entries ∧ (e.Owes → e'.NoLongerOwes result) := by
  rw [takeOrWait] at htake
  split at htake
  · next hfirst =>
    cases htake
    exact h.rests_take hfirst
  · next hfirst =>
    cases htake
    exact h.rests_take hfirst
  · next hfirst =>
    -- the first look has found nothing: wait, and look once more
    have hrests := (h.rests_take hfirst).1
    have hwaited := hrests.trans hrests.tracks.rests_wait
    split at htake
    · split at htake
      · next hwait =>
        cases htake
        rw [hwait] at hwaited
        exact ⟨hwaited, fun _ => trivial⟩
      · next hwait =>
        rw [hwait] at hwaited
        split at htake
        all_goals
          next hagain =>
            cases htake
            obtain ⟨hsecond, howed⟩ := hwaited.tracks.rests_take hagain
            exact ⟨hwaited.trans hsecond, fun howes => howed (hwaited.owes howes)⟩
    · cases htake
      exact ⟨hrests, fun _ => trivial⟩

/-! ## Taking back

What a reap takes from the kernel it takes from the pool as well: the completion is not owed
any more when its block comes back, so the blocks of the others are still on loan. -/

/-- A reap consumes nothing. It may wait, and a wait makes the kernel post; but a wait
offers the kernel no entries, so those that wait go on waiting. -/
theorem Tracks.rests_reap (h : e.Tracks n entries) (mode : ReapMode) :
    e.Rests (e.reap mode).2 n entries := by
  have hbalanced := h.balanced.reap mode
  rcases hentry : e.takeOrWait mode with ⟨err | (_ | c), e₁⟩
  · rw [reap_of_error hentry]
    exact (h.rests_takeOrWait hentry).1
  · rw [reap_of_none hentry]
    exact (h.rests_takeOrWait hentry).1
  · obtain ⟨hrests, howed⟩ := h.rests_takeOrWait hentry
    have htracks := hrests.tracks
    have hsound := htracks.balanced.sound
    rw [reap_of_taken hentry] at hbalanced ⊢
    obtain ⟨inFlight, hring⟩ := ring_finish hsound c
    have hkernel : (e₁.finish c).2.behind.ring.kernel = e₁.behind.ring.kernel :=
      congrArg (fun ring => Relay.behind ring.kernel) hring
    refine ⟨⟨⟨hbalanced, ⟨?_, ?_⟩, ?_, htracks.named⟩, ?_, ?_⟩, fun howes => ?_⟩
    · exact (congrArg Ring.sq hring).trans htracks.layout.sq_eq
    · exact (congrArg Ring.cq hring).trans htracks.layout.cq_eq
    · exact hkernel ▸ htracks.backlog
    · exact (congrArg _ hkernel).trans hrests.position_eq
    · exact (congrArg _ hkernel).trans hrests.acceptLimit_eq
    -- only the block of the reaped read changes its state, and that one is not owed any more
    · refine (hrests.owes howes).of_subperm (hkernel ▸ List.Subperm.refl _) fun tag htag => ?_
      have hne : tag.toNat ≠ c.userData.toNat := by
        intro heq
        rw [UInt64.toNat_inj.mp heq, hkernel] at htag
        exact howed howes htag
      exact state?_finish_of_ne hsound hne

/-- A drain consumes nothing: it is made of reaps. -/
theorem Tracks.rests_drain (h : e.Tracks n entries) (mode : ReapMode) :
    e.Rests (e.drain mode).2 n entries :=
  drain_invariant (P := fun e' => e.Rests e' n entries)
    (fun _ hrests mode => hrests.trans (hrests.tracks.rests_reap mode)) (.refl h) mode

/-- Giving a block back consumes nothing, and blocks on loan stay on loan. -/
theorem Tracks.rests_release (h : e.Tracks n entries) (token : Token) :
    e.Rests (e.release token).2 n entries := by
  have hbalanced := h.balanced.perform (.release token)
  rcases hcheck : e.pool.check token with err | _
  · have hrelease := Pool.release_error hcheck
    simp only [release, hrelease]
    exact .refl h
  · refine ⟨⟨⟨hbalanced, h.layout, h.backlog, h.named⟩, rfl, rfl⟩, fun howes => ?_⟩
    refine howes.of_subperm (List.Subperm.refl _) fun tag htag => ?_
    have hmoves := Pool.moves_release hcheck
    refine hmoves.state_of_not_mem _ fun hmem => ?_
    have hheld := (Pool.check_eq_ok_iff.mp hcheck).1
    rw [← List.mem_singleton.mp hmem, howes.loaned tag htag] at hheld
    cases hheld

end Engine

end RingRead
