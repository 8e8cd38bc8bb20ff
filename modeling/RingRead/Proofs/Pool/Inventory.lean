import Mathlib.Data.List.Count
import RingRead.Proofs.Pool.Custody

/-!
# Taking stock of a pool

The books of a pool are its free stack, the states of its blocks and six counters. They are
written by different operations, and one of these, an allocation that finds a block damaged,
returns half way through. An `Inventory` is a pool together with the blocks that were
reported as damaged. It goes through any calls, tokens that are long gone included, and any
bytes that arrive in any block.

* **Counting.** The states of a pool are a list (`Pool.states`), and a move of one block
  sets one place of it. So each move takes one off the count of the old state and adds one
  to the count of the new one (`Pool.Moves.count_add`).
* **A step.** `Inventory.Balanced` says that the books agree with each other. Every event
  keeps it (`Inventory.Balanced.step`), whatever the call answers.
* **A run.** `Inventory.balanced_of_run` carries it over all runs, and
  `Inventory.inUse_of_run` says what it makes of the number of blocks in use.
* **How far counters get.** An event puts down one allocation at most, and all other
  counters are bounded by the allocations. So they are 64-bit numbers in any run of fewer
  than 2 ^ 64 events (`Inventory.Balanced.fits`).

A loan needs a block that the token gives a right to: lending checks nothing by itself.
-/

namespace RingRead

/-! ## Counting blocks

A count over blocks is a count over a list of states, and what list lemmas say about setting
one place or adding one at the end is what the operations of the pool do to it. -/

namespace Pool

variable {p p' : Pool} {t : Token} {id : Nat} {ids : List Nat} {s old : BlockState}

/-- The states of all blocks, in the order of their numbers. A step of the pool changes one
place of this list or adds one at the end, so that a count over it changes by one at
most. -/
def states (p : Pool) : List BlockState := p.blocks.toList.map Block.state

@[simp] theorem length_states (p : Pool) : p.states.length = p.size := by
  simp [states, size]

@[simp] theorem getElem?_states (p : Pool) (id : Nat) : p.states[id]? = p.state? id := by
  simp [states, state?]

/-- The count that the pool takes over its blocks is a count over the list of their
states. -/
theorem count_eq (p : Pool) (s : BlockState) : p.count s = p.states.count s := by
  simp [count, states, List.count, List.countP_map, Function.comp_def, Array.countP_toList,
    beq_eq_decide]

/-- Every block is in one of three states, so the three counts add up to the number of
blocks. The free ones are those with state `free`, on the stack or off it. -/
theorem count_add_count (p : Pool) :
    p.count .free + p.count .held + p.count .loaned = p.size := by
  simp only [count_eq, ← length_states]
  induction p.states with
  | nil => rfl
  | cons first rest ih => cases first <;> simp <;> omega

theorem map_some_states (p : Pool) : p.states.map some = (List.range p.size).map p.state? := by
  apply List.ext_getElem
  · simp
  · intro id hid _
    simp only [List.length_map, length_states] at hid
    simp [← getElem?_states, hid]

/-- The blocks that are listed are as many as there are. -/
theorem Lists.count_eq (h : p.Lists s ids) : p.count s = ids.length := by
  have hperm : ids.Perm ((List.range p.size).filter fun id => p.state? id = some s) := by
    rw [List.perm_ext_iff_of_nodup h.nodup (List.nodup_range.filter _)]
    intro id
    simp only [← h.mem_iff, List.mem_filter, List.mem_range, decide_eq_true_eq, iff_and_self]
    intro hstate
    exact state?_isSome_iff.mp (by simp [hstate])
  have hcount := List.count_map_of_injective p.states some (fun _ _ => Option.some.inj) s
  rw [Pool.count_eq, ← hcount, map_some_states, hperm.length_eq, ← List.countP_eq_length_filter,
    List.count, List.countP_map]
  simp only [Function.comp_def, beq_eq_decide]

/-- One block that moves, and none that is new, sets one place of the states. -/
theorem Moves.states_eq (h : p.Moves [id] s p') (hsize : p'.size = p.size) :
    p'.states = p.states.set id s := by
  apply List.ext_getElem?
  intro other
  rw [List.getElem?_set]
  by_cases hother : id = other
  · subst hother
    have hstate := h.state_of_mem id (by simp)
    have hlt : id < p.size := hsize ▸ state?_isSome_iff.mp (by simp [hstate])
    simp [hstate, hlt]
  · simp [hother, h.state_of_not_mem other (by simpa using Ne.symm hother)]

/-- A block that is new comes last. -/
theorem Moves.states_append (h : p.Moves [p.size] s p') (hsize : p'.size = p.size + 1) :
    p'.states = p.states ++ [s] := by
  apply List.ext_getElem?
  intro id
  rcases Nat.lt_trichotomy id p.size with hlt | rfl | hgt
  · rw [List.getElem?_append_left (by simpa using hlt)]
    simp [h.state_of_not_mem id (by simpa using Nat.ne_of_lt hlt)]
  · simp [h.state_of_mem p.size (by simp)]
  · have hnone : p'.states[id]? = none := by
      rw [List.getElem?_eq_none_iff, length_states]
      omega
    rw [hnone, eq_comm, List.getElem?_eq_none_iff, List.length_append, length_states]
    exact hgt

/-- A block that moves is counted in its new state instead of in its old one. -/
theorem Moves.count_add (h : p.Moves [id] s p') (hsize : p'.size = p.size)
    (hold : p.state? id = some old) (k : BlockState) :
    p'.count k + (if old = k then 1 else 0) = p.count k + if s = k then 1 else 0 := by
  have hlt : id < p.states.length := by
    simpa using state?_isSome_iff.mp (by simp [hold])
  have hget : p.states[id] = old := by
    simpa [hold] using (List.getElem?_eq_getElem hlt).symm
  have hle := List.boole_getElem_le_count (a := k) hlt
  rw [count_eq, count_eq, h.states_eq hsize, List.count_set hlt]
  simp only [hget, beq_iff_eq] at hle ⊢
  omega

/-! ## Statistics

Which operation writes which counters. A release and an allocation that succeeds are put
down. All others are not: a failed allocation, a loan, a block that comes back, a write. -/

/-- An allocation that succeeds is put down as a new block if the free stack was empty, and
as a recycled one if it was not. -/
theorem stats_allocate (hok : p.allocate = (.ok t, p')) :
    (p.free = [] ∧ p'.stats = p.stats.recordFresh) ∨
      (p.free ≠ [] ∧ p'.stats = p.stats.recordRecycled) := by
  cases hfree : p.free with
  | nil =>
    rw [allocate_empty hfree] at hok
    rcases p.allocateFresh_cases with
      ⟨-, -, hfresh⟩ | ⟨err, -, -, hfresh⟩ | ⟨-, hfresh⟩
    all_goals
      rw [hfresh] at hok
      cases hok
    exact Or.inl ⟨rfl, rfl⟩
  | cons n rest =>
    by_cases hmark : p.firstWord n.toNat = canary
    · obtain ⟨-, -, hstats⟩ := allocate_sound hfree hmark
      rw [hok] at hstats
      exact Or.inr ⟨by simp, hstats⟩
    · rw [allocate_damaged hfree hmark] at hok
      cases hok

/-- An allocation that fails is put down nowhere. -/
theorem stats_of_allocate_error {err : Error} (herror : p.allocate = (.error err, p')) :
    p'.stats = p.stats := by
  rcases allocate_error_cases herror with
    ⟨-, -, -, rfl⟩ | ⟨refusal, -, -, -, -, rfl⟩ | ⟨n, rest, -, -, -, rfl⟩
  all_goals rfl

/-- A release is put down if the token gives a right to the block. -/
theorem stats_release (h : p.check t = .ok ()) :
    (p.release t).2.stats = p.stats.recordRelease := by
  simp only [release, h]
  rfl

/-- A block that comes back from the kernel was in use and stays so. The counters take no
notice. -/
theorem stats_reclaim (p : Pool) (tag : UInt64) : (p.reclaim tag).2.stats = p.stats := by
  rw [reclaim]
  split <;> rfl

end Pool

/-! ## Events

The events of a pool are all that can change it. Bytes arrive from the kernel without a
call, and at addresses that no call has named. So they are events of their own, and may
arrive anywhere, in a free block too. The answers of the calls are left out, but for the one
that says which block is damaged. -/

/-- What can happen to a pool: a call, or bytes that arrive from outside, wherever they go.
Tokens need not be used only once here, and need not even have been issued by this pool. -/
inductive PoolEvent where
  | call (call : PoolCall)
  | receive (transfer : Transfer)

namespace Pool

/-- The pool after an event. What the event is answered is not looked at, and a call that
fails leaves behind what it leaves behind. -/
def undergo (p : Pool) : PoolEvent → Pool
  | .call .allocate => p.allocate.2
  | .call (.release token) => (p.release token).2
  | .call (.write token start piece) => (p.write token start piece).2
  | .call (.loan token) => (p.loan token).2
  | .call (.reclaim tag) => (p.reclaim tag).2
  | .receive transfer => p.receive transfer

/-- The block that an event reports as damaged: the one that an allocation took off the free
stack and found without its mark. -/
def reported? (p : Pool) : PoolEvent → Option UInt32
  | .call .allocate =>
    match p.allocate.1 with
    | .error (.canaryMismatch id _ _) => some id
    | _ => none
  | _ => none

/-- A loan needs the token of a held block, such as one that was just allocated. All other
calls check what they are given, so any token and any tag may be tried. -/
def Permits (p : Pool) : PoolEvent → Prop
  | .call (.loan token) => p.state? token.id.toNat = some .held ∧ token.pool = p.serial
  | _ => True

instance (p : Pool) : (event : PoolEvent) → Decidable (p.Permits event)
  | .call (.loan _) => inferInstanceAs (Decidable (_ ∧ _))
  | .call .allocate | .call (.release _) | .call (.write ..) | .call (.reclaim _) | .receive _ =>
    isTrue trivial

/-- An event that is no allocation gives a block back or leaves the counters alone, and
makes no block. -/
theorem undergo_of_ne_allocate {p : Pool} {event : PoolEvent} (hevent : event ≠ .call .allocate) :
    (p.undergo event).size = p.size ∧
      ((p.undergo event).stats = p.stats ∨ (p.undergo event).stats = p.stats.recordRelease) := by
  rcases event with call | transfer
  · cases call with
    | allocate => exact absurd rfl hevent
    | release t =>
      cases hcheck : p.check t with
      | error err =>
        have hsame : p.undergo (.call (.release t)) = p :=
          congrArg Prod.snd (release_error hcheck)
        exact ⟨congrArg size hsame, Or.inl (congrArg stats hsame)⟩
      | ok _ => exact ⟨size_release hcheck, Or.inr (stats_release hcheck)⟩
    | write t start piece =>
      simp only [undergo, write]
      cases p.check t with
      | error err => exact ⟨rfl, Or.inl rfl⟩
      | ok _ => exact ⟨size_modify .., Or.inl rfl⟩
    | loan t => exact ⟨size_modify .., Or.inl rfl⟩
    | reclaim tag =>
      refine ⟨?_, Or.inl (stats_reclaim p tag)⟩
      by_cases hloaned : p.state? tag.toNat = some .loaned
      · exact size_reclaim hloaned
      · rw [undergo, reclaim_unknown hloaned]
  · exact ⟨size_receive p transfer, Or.inl rfl⟩

end Pool

/-- A pool, and the blocks that were reported as damaged. The pool keeps no list of these.
They are remembered here because the books only balance when they are counted. -/
structure Inventory where
  pool : Pool
  /-- One block for each allocation that found a block damaged, latest first. -/
  damaged : List UInt32 := []

namespace Inventory

/-- Stock after an event. A block is put down as damaged when an allocation reports it, and
never struck off: a block that left the free stack that way cannot come back to it. -/
def step (i : Inventory) (event : PoolEvent) : Inventory where
  pool := i.pool.undergo event
  damaged := (i.pool.reported? event).toList ++ i.damaged

/-- Stock after a run, which is a list of events one after the other. -/
def run (i : Inventory) (events : List PoolEvent) : Inventory := events.foldl step i

/-- Every loan of a run is one of a block that its token gives a right to at that point. Of
all the calls this is the only one that does not look at its token itself, so the only one
on which a condition has to be put. -/
def Permitted (i : Inventory) : List PoolEvent → Prop
  | [] => True
  | event :: rest => i.pool.Permits event ∧ (i.step event).Permitted rest

instance decidablePermitted :
    (i : Inventory) → (events : List PoolEvent) → Decidable (i.Permitted events)
  | _, [] => isTrue trivial
  | i, event :: rest =>
    have := decidablePermitted (i.step event) rest
    inferInstanceAs (Decidable (i.pool.Permits event ∧ _))

/-- The books of a pool agree with each other. The free stack and the damaged blocks list
the free ones between them, the number of new blocks is that of all blocks, and what was
issued is what was given back and what is in use. -/
structure Balanced (i : Inventory) : Prop where
  sound : i.pool.Sound
  /-- A free block is on the stack, or was reported as damaged, and only one of both,
  once. -/
  free : i.pool.Lists .free ((i.pool.free ++ i.damaged).map UInt32.toNat)
  fresh_eq : i.pool.stats.fresh = i.pool.size
  inUse_eq : i.pool.stats.inUse = i.pool.count .held + i.pool.count .loaned
  issued_eq : i.pool.stats.fresh + i.pool.stats.recycled =
    i.pool.stats.releases + i.pool.stats.inUse
  inUse_le : i.pool.stats.inUse ≤ i.pool.stats.peakInUse
  peakInUse_le : i.pool.stats.peakInUse ≤ i.pool.size

variable {i : Inventory} {p' : Pool} {t : Token}

/-! ## A step

For each event there is one lemma, and `Balanced.step` puts them together. A call that fails
may leave everything as it was, and then there is nothing to show. The case that does not is
an allocation that finds a damaged block: the block is gone from the stack then, but nobody
holds it. -/

/-- Bytes do not enter the books. -/
theorem Balanced.of_state_eq (h : i.Balanced) (hstate : ∀ id, p'.state? id = i.pool.state? id)
    (hfree : p'.free = i.pool.free) (hstats : p'.stats = i.pool.stats) :
    Balanced { i with pool := p' } := by
  have hstates : p'.states = i.pool.states := List.ext_getElem? (by simpa using hstate)
  have hcount (s : BlockState) : p'.count s = i.pool.count s := by
    rw [Pool.count_eq, hstates, Pool.count_eq]
  have hsize : p'.size = i.pool.size := by
    rw [← Pool.length_states, hstates, Pool.length_states]
  refine ⟨h.sound.of_state_eq (by simp [hfree]) hstate hsize, ?_, ?_, ?_, ?_, ?_, ?_⟩
  · simpa [hfree] using h.free.of_state_eq hstate
  · simpa [hstats, hsize] using h.fresh_eq
  · simpa [hstats, hcount] using h.inUse_eq
  · simpa [hstats] using h.issued_eq
  · simpa [hstats] using h.inUse_le
  · simpa [hstats, hsize] using h.peakInUse_le

/-- Every block is in use, on the stack or damaged. -/
theorem Balanced.size_eq (h : i.Balanced) :
    i.pool.stats.inUse + i.pool.free.length + i.damaged.length = i.pool.size := by
  have hall := i.pool.count_add_count
  have hlisted := h.free.count_eq
  have hinUse := h.inUse_eq
  simp only [List.length_map, List.length_append] at hlisted
  omega

/-- A block that goes from its holder to the kernel, or back, stays in use. -/
theorem Balanced.of_moves {id : Nat} {s old : BlockState} (h : i.Balanced)
    (hmoves : i.pool.Moves [id] s p') (hsound : p'.Sound) (hold : i.pool.state? id = some old)
    (hfree : p'.free = i.pool.free) (hstats : p'.stats = i.pool.stats)
    (hsize : p'.size = i.pool.size) (hs : s ≠ .free) (hne : old ≠ .free) :
    Balanced { i with pool := p' } := by
  have hheld := hmoves.count_add hsize hold .held
  have hloaned := hmoves.count_add hsize hold .loaned
  have hinUse := h.inUse_eq
  refine ⟨hsound, ?_, ?_, ?_, ?_, ?_, ?_⟩
  · simpa [hfree] using h.free.keep hmoves hs (by simpa [hold] using hne)
  · simpa [hstats, hsize] using h.fresh_eq
  · cases s <;> cases old <;> simp at hs hne hheld hloaned <;> simp [hstats] <;> omega
  · simpa [hstats] using h.issued_eq
  · simpa [hstats] using h.inUse_le
  · simpa [hstats, hsize] using h.peakInUse_le

/-- Lending a block that is held leaves it in use. -/
theorem Balanced.loan (h : i.Balanced) (hheld : i.pool.state? t.id.toNat = some .held) :
    (i.step (.call (.loan t))).Balanced :=
  h.of_moves (Pool.moves_loan (by simp [hheld])) (h.sound.loan hheld) hheld rfl rfl
    (Pool.size_modify ..) (by decide) (by decide)

/-- So does its coming back. A tag that no block on loan has is refused. -/
theorem Balanced.reclaim (h : i.Balanced) (tag : UInt64) :
    (i.step (.call (.reclaim tag))).Balanced := by
  by_cases hloaned : i.pool.state? tag.toNat = some .loaned
  · have hfree : (i.pool.reclaim tag).2.free = i.pool.free := by
      rw [Pool.reclaim, if_pos hloaned]
      rfl
    exact h.of_moves (Pool.moves_reclaim hloaned) (h.sound.reclaim hloaned) hloaned hfree
      (Pool.stats_reclaim _ _) (Pool.size_reclaim hloaned) (by decide) (by decide)
  · simpa [step, Pool.undergo, Pool.reported?, Pool.reclaim_unknown hloaned] using h

/-- Giving back a block that is held is one release more and one block in use less. There
was one in use: the block itself. -/
theorem Balanced.release (h : i.Balanced) (t : Token) : (i.step (.call (.release t))).Balanced := by
  cases hcheck : i.pool.check t with
  | error err =>
    simpa [step, Pool.undergo, Pool.reported?, Pool.release_error hcheck] using h
  | ok _ =>
    obtain ⟨-, hfree, -, -⟩ := Pool.release_ok hcheck
    obtain ⟨hstate, -⟩ := Pool.check_eq_ok_iff.mp hcheck
    have hmoves := Pool.moves_release hcheck
    have hsize := Pool.size_release hcheck
    have hstats := Pool.stats_release hcheck
    -- one block moves from held to free, and each count follows from that
    have hheld := hmoves.count_add hsize hstate .held
    have hloaned := hmoves.count_add hsize hstate .loaned
    have hentered := h.free.enter hmoves (by simp [hstate])
    have hinUse := h.inUse_eq
    have hissued := h.issued_eq
    have hpeak := h.inUse_le
    simp at hheld hloaned
    refine ⟨h.sound.release hcheck, ?_, ?_, ?_, ?_, ?_, ?_⟩
    all_goals simp only [step, Pool.undergo, Pool.reported?, Option.toList_none, List.nil_append]
    · simpa [hfree] using hentered
    · simpa [hstats, hsize, PoolStats.recordRelease] using h.fresh_eq
    · simp only [hstats, PoolStats.recordRelease]
      omega
    · simp only [hstats, PoolStats.recordRelease]
      omega
    · simp only [hstats, PoolStats.recordRelease]
      omega
    · simpa [hstats, hsize, PoolStats.recordRelease] using h.peakInUse_le

/-- A damaged block goes from the free stack to those that were reported. Its state stays
`free`, so it is one of the free blocks still, and the counters do not mention it. -/
theorem Balanced.allocate_damaged {n : UInt32} {rest : List UInt32} (h : i.Balanced)
    (hfree : i.pool.free = n :: rest) :
    Balanced { pool := { i.pool with free := rest }, damaged := n :: i.damaged } := by
  have hmoved : (rest ++ n :: i.damaged).Perm (i.pool.free ++ i.damaged) := by
    rw [hfree]
    exact List.perm_middle
  refine ⟨?_, ⟨?_, fun id => ?_⟩, h.fresh_eq, h.inUse_eq, h.issued_eq, h.inUse_le,
    h.peakInUse_le⟩
  · exact h.sound.of_state_eq (by simp [hfree]) (fun _ => rfl) rfl
  · exact (hmoved.map UInt32.toNat).nodup_iff.mpr h.free.nodup
  · rw [(hmoved.map UInt32.toNat).mem_iff]
    exact h.free.mem_iff id

/-- A block that is handed out is put down once, as new or as recycled. The peak follows,
and does not get past the number of blocks. -/
theorem Balanced.allocate_ok (h : i.Balanced) (hok : i.pool.allocate = (.ok t, p')) :
    Balanced { i with pool := p' } := by
  have halloc := Pool.allocates_of_ok h.sound hok
  have hinUse := h.inUse_eq
  have hissued := h.issued_eq
  have hfresh := h.fresh_eq
  have hpeak := h.inUse_le
  have hpeak' := h.peakInUse_le
  have hall := h.size_eq
  rcases Pool.stats_allocate hok with ⟨hempty, hstats⟩ | ⟨hsome, hstats⟩
  · obtain ⟨hfree, -⟩ | ⟨-, hfree, hid, hsize⟩ := halloc.origin
    · simp [hempty] at hfree
    -- a new block: one state more at the end, and the stack stays empty
    have hnew : i.pool.Moves [i.pool.size] .held p' := hid ▸ halloc.moves
    have hstates := hnew.states_append hsize
    have hheld : p'.count .held = i.pool.count .held + 1 := by
      simp [Pool.count_eq, hstates]
    have hnone : i.pool.state? i.pool.size ≠ some .free := by simp [Pool.state?_size]
    refine ⟨halloc.sound, ?_, ?_, ?_, ?_, ?_, ?_⟩
    · simpa [hfree, hempty] using h.free.keep hnew (by decide) hnone
    all_goals simp only [hstats, PoolStats.recordFresh, PoolStats.handOut, halloc.count_eq, hheld,
      hsize]
    all_goals omega
  · obtain ⟨hfree, hsize⟩ | ⟨hempty, -⟩ := halloc.origin
    -- a recycled block: it leaves the stack, and its state moves
    · have hstate : i.pool.state? t.id.toNat = some .free := h.sound.state_free _ (by simp [hfree])
      have hheld := halloc.moves.count_add hsize hstate .held
      simp at hheld
      refine ⟨halloc.sound, ?_, ?_, ?_, ?_, ?_, ?_⟩
      · exact h.free.leave (by simp [hfree]) halloc.moves (by decide)
      all_goals simp only [hstats, PoolStats.recordRecycled, PoolStats.handOut, halloc.count_eq,
        hheld, hsize]
      all_goals simp [hfree] at hall
      all_goals omega
    · exact absurd hempty hsome

/-- An allocation keeps the books balanced in each of its outcomes: a recycled block, a new
one, a damaged one, and none for want of room. -/
theorem Balanced.allocate (h : i.Balanced) : (i.step (.call .allocate)).Balanced := by
  rcases halloc : i.pool.allocate with ⟨err | token, p'⟩
  · rcases Pool.allocate_error_cases halloc with
      ⟨-, -, rfl, rfl⟩ | ⟨refusal, -, -, -, rfl, rfl⟩ | ⟨n, rest, hfree, -, rfl, rfl⟩
    · simpa [step, Pool.undergo, Pool.reported?, halloc] using h
    · have hkept : Balanced { i with pool := i.pool.refused } :=
        h.of_state_eq (fun _ => rfl) rfl rfl
      simpa [step, Pool.undergo, Pool.reported?, halloc] using hkept
    · simpa [step, Pool.undergo, Pool.reported?, halloc] using h.allocate_damaged hfree
  · simpa [step, Pool.undergo, Pool.reported?, halloc] using h.allocate_ok halloc

/-- Writing through a token does not enter the books, whether the token is good or not. -/
theorem Balanced.write (h : i.Balanced) (t : Token) (start : Nat) (piece : Bytes) :
    (i.step (.call (.write t start piece))).Balanced := by
  cases hcheck : i.pool.check t with
  | error err => simpa [step, Pool.undergo, Pool.reported?, Pool.write, hcheck] using h
  | ok _ =>
    obtain ⟨hstate, -⟩ := Pool.write_ok hcheck start piece
    refine h.of_state_eq hstate ?_ ?_
    all_goals simp only [Pool.undergo, Pool.write, hcheck]
    all_goals rfl

/-- Every event keeps the books balanced, calls that fail among them. Only an allocation can
take a block out of the books, and then it reports the block as damaged. -/
theorem Balanced.step (h : i.Balanced) {event : PoolEvent} (hpermits : i.pool.Permits event) :
    (i.step event).Balanced := by
  cases event with
  | call call =>
    cases call with
    | allocate => exact h.allocate
    | release token => exact h.release token
    | write token start piece => exact h.write token start piece
    | loan token => exact h.loan hpermits.1
    | reclaim tag => exact h.reclaim tag
  | receive transfer => exact h.of_state_eq (Pool.state?_receive _ transfer) rfl rfl

/-- So the books balance after every run that starts with balanced ones. -/
theorem Balanced.run (h : i.Balanced) {events : List PoolEvent}
    (hpermitted : i.Permitted events) : (i.run events).Balanced := by
  induction events generalizing i with
  | nil => exact h
  | cons event rest ih =>
    obtain ⟨hpermits, hrest⟩ := hpermitted
    exact ih (h.step hpermits) hrest

/-! ## How far the counters get

The counters of a pool only ever grow, but for the blocks in use, and there is nothing in a
pool that keeps them from growing. What bounds them is the length of its history. -/

/-- An event puts down one allocation at most. -/
theorem allocations_step_le (i : Inventory) (event : PoolEvent) :
    (i.step event).pool.stats.allocations ≤ i.pool.stats.allocations + 1 := by
  by_cases hevent : event = .call .allocate
  · subst hevent
    change i.pool.allocate.2.stats.allocations ≤ _
    rcases halloc : i.pool.allocate with ⟨err | token, p'⟩
    · rw [Pool.stats_of_allocate_error halloc]
      exact Nat.le_succ _
    · rcases Pool.stats_allocate halloc with ⟨-, hstats⟩ | ⟨-, hstats⟩
      all_goals
        simp only [hstats, PoolStats.allocations, PoolStats.recordFresh,
          PoolStats.recordRecycled, PoolStats.handOut]
        omega
  · obtain ⟨-, hstats⟩ := Pool.undergo_of_ne_allocate (p := i.pool) hevent
    change (i.pool.undergo event).stats.allocations ≤ _
    rcases hstats with hstats | hstats
    all_goals
      rw [hstats]
      exact Nat.le_succ _

/-- A run puts down no more allocations than it has events. -/
theorem allocations_run_le (i : Inventory) (events : List PoolEvent) :
    (i.run events).pool.stats.allocations ≤ i.pool.stats.allocations + events.length := by
  induction events generalizing i with
  | nil => exact Nat.le_refl _
  | cons event rest ih =>
    have hstep := i.allocations_step_le event
    calc ((i.step event).run rest).pool.stats.allocations
      _ ≤ (i.step event).pool.stats.allocations + rest.length := ih (i.step event)
      _ ≤ i.pool.stats.allocations + (rest.length + 1) := by omega

/-- Balanced books have no counter that gets past the number of allocations. -/
theorem Balanced.fits (h : i.Balanced) (hfew : i.pool.stats.allocations < UInt64.size) :
    i.pool.stats.Fits := by
  have hfresh := h.fresh_eq
  have hissued := h.issued_eq
  have hinUse := h.inUse_le
  have hpeak := h.peakInUse_le
  have hall : i.pool.stats.fresh + i.pool.stats.recycled < UInt64.size := hfew
  constructor
  all_goals omega

/-! ## Runs

A new pool has no blocks, so its books balance, and the step carries this through any run.
What a run may not contain is a loan without a token for a held block, at the point where
the loan is made. -/

/-- The books of a new pool are empty. -/
theorem balanced_create {serial : UInt32} {config : PoolConfig} {mappings : MappingAnswers}
    {pool : Pool} (h : Pool.create serial config mappings = .ok pool) : Balanced { pool } := by
  obtain ⟨hsound, -, -⟩ := Pool.sound_create h
  obtain ⟨-, rfl⟩ := Pool.create_ok h
  exact ⟨hsound, ⟨by simp, by simp [Pool.state?]⟩, rfl, rfl, rfl, Nat.le_refl _, Nat.le_refl _⟩

/-- All counters of a new pool are zero. -/
theorem stats_create {serial : UInt32} {config : PoolConfig} {mappings : MappingAnswers}
    {pool : Pool} (h : Pool.create serial config mappings = .ok pool) : pool.stats = {} := by
  obtain ⟨-, rfl⟩ := Pool.create_ok h
  rfl

/-- Where there is something to give back, the number of blocks in use is not zero. -/
theorem Balanced.inUse_pos (h : i.Balanced) (hcheck : i.pool.check t = .ok ()) :
    0 < i.pool.stats.inUse := by
  obtain ⟨hheld, -⟩ := Pool.check_eq_ok_iff.mp hcheck
  have hmem : .held ∈ i.pool.states := List.mem_of_getElem? (by simpa using hheld)
  have hpos := List.count_pos_iff.mpr hmem
  rw [← Pool.count_eq] at hpos
  rw [h.inUse_eq]
  omega

/-- **The books of a pool balance.** Take a new pool through any calls and any bytes that
arrive in its blocks, tokens that were given back long ago included, and loans of blocks
that are held, such as those that were just allocated. Then at every point

* the free stack names blocks of the pool that are free, each once;
* a free block is on the stack or was reported as damaged, and not both; the free blocks
  that are not on the stack are as many as the reports;
* the counters say how many blocks there are and how many of them are held or on loan, every
  allocation is a release or a block in use, and the peak lies between the blocks in use and
  all of them;
* the counters are 64-bit numbers, as long as there were fewer than 2 ^ 64 events;
* a block that may be given back is in use, and one that is allocated may be lent.
-/
theorem balanced_of_run {serial : UInt32} {config : PoolConfig} {mappings : MappingAnswers}
    {pool : Pool} (hcreate : Pool.create serial config mappings = .ok pool)
    (events : List PoolEvent) (hpermitted : Permitted { pool } events) :
    let i := run { pool } events
    let stats := i.pool.stats
    (i.pool.free.Nodup ∧
      ∀ n ∈ i.pool.free, n.toNat < i.pool.size ∧ i.pool.state? n.toNat = some .free) ∧
    ((∀ id, i.pool.state? id = some .free ↔
        ∃ n : UInt32, (n ∈ i.pool.free ∨ n ∈ i.damaged) ∧ n.toNat = id) ∧
      i.damaged.Nodup ∧ i.pool.free.Disjoint i.damaged ∧
      i.pool.count .free = i.pool.free.length + i.damaged.length) ∧
    (stats.fresh = i.pool.size ∧ stats.inUse = i.pool.count .held + i.pool.count .loaned ∧
      stats.fresh + stats.recycled = stats.releases + stats.inUse ∧
      stats.inUse ≤ stats.peakInUse ∧ stats.peakInUse ≤ i.pool.size) ∧
    (events.length < UInt64.size → stats.Fits) ∧
    (∀ t, i.pool.check t = .ok () → 0 < stats.inUse) ∧
    ∀ t p', i.pool.allocate = (.ok t, p') → p'.Permits (.call (.loan t)) := by
  intro i stats
  have h : i.Balanced := (balanced_create hcreate).run hpermitted
  obtain ⟨hfree, hdamaged, hdisjoint⟩ := List.nodup_append.mp h.free.nodup.of_map
  refine ⟨⟨hfree, fun n hn => ?_⟩, ⟨fun id => ?_, hdamaged, ?_, ?_⟩,
    ⟨h.fresh_eq, h.inUse_eq, h.issued_eq, h.inUse_le, h.peakInUse_le⟩, fun hfew => ?_,
    fun t => h.inUse_pos, ?_⟩
  · have hstate := h.sound.state_free n hn
    exact ⟨Pool.state?_isSome_iff.mp (by simp [hstate]), hstate⟩
  · rw [h.free.mem_iff, List.mem_map]
    simp
  · intro n hn hn'
    exact hdisjoint n hn n hn' rfl
  · simpa using h.free.count_eq
  -- each event counts once at most, so few events keep all counters in 64 bits
  · have hnone : pool.stats.allocations = 0 := by rw [stats_create hcreate]; rfl
    have hle := allocations_run_le { pool } events
    rw [hnone, Nat.zero_add] at hle
    exact h.fits (Nat.lt_of_le_of_lt hle hfew)
  · intro t p' hok
    have halloc := Pool.allocates_of_ok h.sound hok
    exact ⟨halloc.held, halloc.pool_eq.trans halloc.moves.serial_eq.symm⟩

/-- Two blocks are given back, and one of them is written to while it is free. It is
reported and stays off the stack, the other one is recycled. Old tokens of both, and a tag
that came back, are refused and leave the books alone. -/
theorem balanced_after_damage :
    ∃ pool, Pool.create 7 { blockSize := 8, alignment := 8 } = .ok pool ∧
      let events : List PoolEvent :=
        [.call .allocate, .call .allocate, .call .allocate, .call (.release ⟨0, 7⟩),
          .call (.release ⟨1, 7⟩), .receive ⟨Address.ofIndex 1, .zeros 8⟩, .call .allocate,
          .call (.release ⟨0, 7⟩), .call (.release ⟨1, 7⟩), .call (.loan ⟨2, 7⟩), .call .allocate,
          .call (.reclaim 2), .call (.reclaim 2)]
      let i := run { pool } events
      Permitted { pool } events ∧ i.damaged = [1] ∧
        i.pool.stats = ⟨3, 1, 2, 2, 3⟩ ∧ i.pool.count .free = 1 ∧
        i.pool.count .held + i.pool.count .loaned = 2 := by
  let pool : Pool := { serial := 7, config := { blockSize := 8, alignment := 8 } }
  have hcreate : Pool.create 7 { blockSize := 8, alignment := 8 } = .ok pool := rfl
  refine ⟨pool, hcreate, ?_⟩
  intro events
  have hpermitted : Permitted { pool } events := by decide +kernel
  have hfree : (run { pool } events).pool.free = [] := by decide +kernel
  have hdamaged : (run { pool } events).damaged = [1] := by decide +kernel
  have hstats : (run { pool } events).pool.stats = ⟨3, 1, 2, 2, 3⟩ := by decide +kernel
  have h := balanced_of_run hcreate events hpermitted
  -- from here on the run is of no interest, only where it has led
  generalize run { pool } events = i at hfree hdamaged hstats h ⊢
  obtain ⟨-, ⟨-, -, -, hcount⟩, ⟨-, hinUse, -⟩, -⟩ := h
  rw [hfree, hdamaged] at hcount
  rw [hstats] at hinUse
  exact ⟨hpermitted, hdamaged, hstats, hcount, hinUse.symm⟩

/-! ## What is in use

The pool has two answers to the question how many blocks are in use. One is a counter that
is written with each allocation and release. The other is derived from the lists: all blocks
without those on the free stack. The two agree until a block is found to be damaged, and
never again after that. -/

/-- **A damaged block counts as in use.** The number that the pool derives from its lists is
off by the blocks that were reported as damaged. They are off the free stack, but neither
held nor on loan, and the statistics do not count them. So the two numbers agree, and the
free stack has all free blocks, exactly as long as no block was reported. There are 32-bit
block numbers, so these numbers are far from the end of their range. -/
theorem inUse_of_run {serial : UInt32} {config : PoolConfig} {mappings : MappingAnswers}
    {pool : Pool} (hcreate : Pool.create serial config mappings = .ok pool)
    (events : List PoolEvent) (hpermitted : Permitted { pool } events) :
    let i := run { pool } events
    let used := i.pool.count .held + i.pool.count .loaned
    i.pool.stats.inUse = used ∧ i.pool.inUse = used + i.damaged.length ∧
      i.pool.inUse ≤ UInt32.size ∧
      i.pool.count .free = i.pool.freeCount + i.damaged.length ∧
      (i.pool.inUse = i.pool.stats.inUse ↔ i.damaged = []) ∧
      (i.pool.freeCount = i.pool.count .free ↔ i.damaged = []) := by
  intro i used
  have h : i.Balanced := (balanced_create hcreate).run hpermitted
  have hused : i.pool.stats.inUse = used := h.inUse_eq
  have hsize := h.size_eq
  have hfree : i.pool.count .free = i.pool.freeCount + i.damaged.length := by
    simpa [Pool.freeCount] using h.free.count_eq
  have hinUse : i.pool.inUse = used + i.damaged.length := by
    rw [Pool.inUse, Pool.freeCount]
    omega
  refine ⟨hused, hinUse, Nat.le_trans (Nat.sub_le ..) h.sound.size_le, hfree, ?_, ?_⟩
  · rw [hinUse, hused, ← List.length_eq_zero_iff]
    omega
  · rw [hfree, ← List.length_eq_zero_iff]
    omega

/-- A block that is written to while it is free, and then reported. -/
def damage : List PoolEvent :=
  [.call .allocate, .call (.release ⟨0, 7⟩), .receive ⟨Address.ofIndex 0, .zeros 8⟩,
    .call .allocate]

/-- The only block of the pool is in use, by nobody. -/
theorem inUse_after_damage :
    ∃ pool, Pool.create 7 { blockSize := 8, alignment := 8 } = .ok pool ∧
      Permitted { pool } damage ∧
      let i := run { pool } damage
      i.damaged = [0] ∧ i.pool.inUse = 0 + i.damaged.length ∧
        ¬i.pool.inUse = i.pool.stats.inUse := by
  let pool : Pool := { serial := 7, config := { blockSize := 8, alignment := 8 } }
  have hcreate : Pool.create 7 { blockSize := 8, alignment := 8 } = .ok pool := rfl
  have hpermitted : Permitted { pool } damage := by decide +kernel
  have hdamaged : (run { pool } damage).damaged = [0] := by decide +kernel
  have hnone : (run { pool } damage).pool.stats.inUse = 0 := by decide +kernel
  obtain ⟨hused, hinUse, -, -, hagree, -⟩ := inUse_of_run hcreate damage hpermitted
  refine ⟨pool, hcreate, hpermitted, hdamaged, ?_, ?_⟩
  · rw [hinUse, ← hused, hnone]
  · rw [hagree, hdamaged]
    simp

/-- So the two numbers do not agree in every state that a pool can come to. -/
theorem inUse_disagrees :
    ¬∀ (serial : UInt32) (config : PoolConfig) (pool : Pool) (events : List PoolEvent),
      Pool.create serial config = .ok pool → Permitted { pool } events →
        let p := (run { pool } events).pool
        p.inUse = p.count .held + p.count .loaned ∧ p.inUse = p.stats.inUse ∧
          p.freeCount = p.count .free := by
  intro h
  obtain ⟨hinUse, -, -⟩ := h 7 { blockSize := 8, alignment := 8 }
    { serial := 7, config := { blockSize := 8, alignment := 8 } } damage rfl (by decide +kernel)
  revert hinUse
  decide +kernel

end Inventory

end RingRead
