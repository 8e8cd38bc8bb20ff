import RingRead.Proofs.Backlog.Orderly
import RingRead.Proofs.Engine.Upkeep
import RingRead.Proofs.Simulation.Posting

/-!
# Where completions come from

A simulated kernel posts what it makes of the entries that it consumes, and it consumes what
was staged and published. So what is true of all entries that are staged, and of all results
that are given in advance, says what can come back. `Terms` are three such properties that
fit together: of entries, of results given in advance, and of completions.

* **The kernel.** `SimulatedKernel.Meets` says that entries that wait, results that are
  given and completions that are queued have these properties. The kernel may defer,
  reverse, withhold or drop completions, be interrupted, and fall behind. Then a batch may
  be staged over entries that wait, and the tail may even lap the head; but every slot of
  the window still has some entry of a batch (`SimulatedRings.waiting_publish`).
* **The engine.** `Engine.Meets` adds that the engine finds the rings where they are. Then
  whatever a reap takes was posted by the kernel (`Engine.Meets.takeOrWait`).
* **A run.** `Engine.meets_undergoAll` carries it over all runs of incidents within the
  terms.
-/

namespace RingRead

/-! ## Entries in the rings

The slots of the window may hold entries that were staged over others, in any mixture. But
each of them holds one entry that was staged at some time, and that is all that is used. -/

namespace SimulatedRings

open Position

variable {P : Sqe → Prop} {r : SimulatedRings} {batch : List Sqe} {position tail : UInt32}

/-- The entries that are read from a position on are those at the positions that follow
it. -/
theorem mem_entriesFrom_iff {count : Nat} {s : Sqe} :
    s ∈ r.entriesFrom count position ↔
      ∃ i < count, r.entryAt (position + UInt32.ofNat i) = s := by
  induction count generalizing position with
  | zero => simp [entriesFrom]
  | succ count ih =>
    rw [entriesFrom, List.mem_cons, ih]
    constructor
    · rintro (rfl | ⟨i, hi, rfl⟩)
      · exact ⟨0, Nat.zero_lt_succ _, by rw [add_ofNat_zero]⟩
      · exact ⟨i + 1, Nat.succ_lt_succ hi, by rw [succ_add_ofNat]⟩
    · rintro ⟨_ | i, hi, rfl⟩
      · exact Or.inl (by rw [add_ofNat_zero])
      · exact Or.inr ⟨i, Nat.lt_of_succ_lt_succ hi, by rw [succ_add_ofNat]⟩

/-- What a position names after an entry was staged is that entry, or what it named before.
Nothing is ever half written. -/
theorem entryAt_stage_cases (h : r.Slotted) (tail : UInt32) (e : Sqe) (position : UInt32) :
    (r.stage tail e).entryAt position = e ∨
      (r.stage tail e).entryAt position = r.entryAt position := by
  have hlt := slot_lt h.depth tail
  by_cases hslot : (position &&& (r.entries - 1)) = (tail &&& (r.entries - 1))
  · obtain ⟨hindex, htable⟩ := staged_stage h tail e
    have hstaged : (r.stage tail e).Staged position e := by
      constructor
      · exact hslot ▸ hindex
      · exact hslot ▸ htable
    exact Or.inl hstaged.entryAt
  · -- the slot names some entry of the table, which may be the one that was written
    have hne : (tail &&& (r.entries - 1)).toNat ≠ (position &&& (r.entries - 1)).toNat :=
      fun heq => hslot (UInt32.toNat_inj.mp heq).symm
    simp only [entryAt, stage, Array.getElem?_setIfInBounds_ne hne]
    generalize (r.index[(position &&& (r.entries - 1)).toNat]?.getD 0 &&& (r.entries - 1)).toNat =
      number
    rw [Array.getElem?_setIfInBounds]
    split
    · rw [if_pos (h.size_table ▸ hlt)]
      exact Or.inl rfl
    · exact Or.inr rfl

/-- A position that names an entry with a property still does after more of them were
staged. -/
theorem entryAt_stageAll (h : r.Slotted) (hbatch : ∀ e ∈ batch, P e)
    (hold : P (r.entryAt position)) (tail : UInt32) :
    P ((r.stageAll tail batch).entryAt position) := by
  induction batch generalizing r tail with
  | nil => exact hold
  | cons e rest ih =>
    refine ih (h.stage tail e) (fun e' he' => hbatch e' (List.mem_cons_of_mem _ he')) ?_ (tail + 1)
    rcases entryAt_stage_cases h tail e position with hnew | hsame
    · rw [hnew]
      exact hbatch e (List.mem_cons_self ..)
    · rw [hsame]
      exact hold

/-- So does each position that an entry of the batch was staged for. -/
theorem entryAt_stageAll_of_lt (h : r.Slotted) (hbatch : ∀ e ∈ batch, P e) (tail : UInt32)
    {i : Nat} (hi : i < batch.length) :
    P ((r.stageAll tail batch).entryAt (tail + UInt32.ofNat i)) := by
  induction batch generalizing r tail i with
  | nil => cases hi
  | cons e rest ih =>
    have hrest : ∀ e' ∈ rest, P e' := fun e' he' => hbatch e' (List.mem_cons_of_mem _ he')
    cases i with
    | zero =>
      rw [add_ofNat_zero]
      refine entryAt_stageAll (h.stage tail e) hrest ?_ (tail + 1)
      rw [(staged_stage h tail e).entryAt]
      exact hbatch e (List.mem_cons_self ..)
    | succ i =>
      rw [← succ_add_ofNat]
      exact ih (h.stage tail e) hrest (tail + 1) (Nat.lt_of_succ_lt_succ hi)

/-- Staging alone changes no more than what the slots of waiting entries hold. -/
theorem waiting_stageAll (h : r.Slotted) (hbatch : ∀ e ∈ batch, P e) (hold : ∀ s ∈ r.waiting, P s)
    (tail : UInt32) : ∀ s ∈ (r.stageAll tail batch).waiting, P s := by
  have hat (i : Nat) (hi : i < r.published.toNat) :
      P ((r.stageAll tail batch).entryAt (r.consumed + UInt32.ofNat i)) :=
    entryAt_stageAll h hbatch (hold _ (mem_entriesFrom_iff.mpr ⟨i, hi, rfl⟩)) tail
  obtain ⟨index, table, hstaged⟩ := r.stageAll_eq tail batch
  rw [hstaged] at hat ⊢
  intro s hs
  obtain ⟨i, hi, rfl⟩ := mem_entriesFrom_iff.mp hs
  exact hat i hi

/-- After a batch was published, each position of the window names an entry that waited
before or one of the batch. This does not depend on how many there are, so it holds also
where entries were staged over others. -/
theorem waiting_publish (h : r.Slotted) (hbatch : ∀ e ∈ batch, P e)
    (hold : ∀ s ∈ r.waiting, P s) :
    ∀ s ∈ { r.stageAll r.sqTail batch with
      sqTail := r.sqTail + UInt32.ofNat batch.length }.waiting, P s := by
  have hat (i : Nat) (hi : i < r.published.toNat) :
      P ((r.stageAll r.sqTail batch).entryAt (r.consumed + UInt32.ofNat i)) :=
    entryAt_stageAll h hbatch (hold _ (mem_entriesFrom_iff.mpr ⟨i, hi, rfl⟩)) r.sqTail
  have hnew (j : Nat) (hj : j < batch.length) :
      P ((r.stageAll r.sqTail batch).entryAt (r.sqTail + UInt32.ofNat j)) :=
    entryAt_stageAll_of_lt h hbatch r.sqTail hj
  have htail : r.sqTail = r.consumed + UInt32.ofNat r.published.toNat := by
    rw [UInt32.ofNat_toNat, published]
    grind
  have hahead : r.sqTail + UInt32.ofNat batch.length - r.consumed =
      r.published + UInt32.ofNat batch.length := by
    rw [published]
    grind
  obtain ⟨index, table, hstaged⟩ := r.stageAll_eq r.sqTail batch
  rw [hstaged] at hat hnew ⊢
  intro s hs
  obtain ⟨i, hi, rfl⟩ := mem_entriesFrom_iff.mp hs
  change i < (r.sqTail + UInt32.ofNat batch.length - r.consumed).toNat at hi
  -- no room is asked for: the batch may reach around the ring, and the count may wrap
  have hle : i < r.published.toNat + batch.length := by
    rw [hahead, UInt32.toNat_add, UInt32.toNat_ofNat'] at hi
    have hsum := Nat.mod_le (r.published.toNat + batch.length % 2 ^ 32) (2 ^ 32)
    have hlength := Nat.mod_le batch.length (2 ^ 32)
    omega
  change P (SimulatedRings.entryAt { r with index, table } _)
  by_cases hwaited : i < r.published.toNat
  · exact hat i hwaited
  · -- a position behind the old tail
    have hposition : r.sqTail + UInt32.ofNat (i - r.published.toNat) =
        r.consumed + UInt32.ofNat i := by
      rw [htail, UInt32.add_assoc, ← UInt32.ofNat_add,
        Nat.add_sub_cancel' (Nat.not_lt.mp hwaited)]
    rw [← hposition]
    exact hnew _ (by omega)

/-- What becomes of the completions is nothing to the entries that wait. -/
theorem waiting_completions (r : SimulatedRings) (cqHead cqTail : UInt32)
    (completions : Array Cqe) :
    { r with cqHead, cqTail, completions }.waiting = r.waiting :=
  entriesFrom_congr r { r with cqHead, cqTail, completions } rfl rfl rfl ..

/-- Staging is nothing to the completions. -/
theorem sameCompletions_stageAll (r : SimulatedRings) (tail : UInt32) (batch : List Sqe) :
    r.SameCompletions (r.stageAll tail batch) := by
  obtain ⟨index, table, hstaged⟩ := r.stageAll_eq tail batch
  rw [hstaged]
  exact ⟨rfl, rfl, rfl, rfl⟩

theorem entriesFrom_add (r : SimulatedRings) (count more : Nat) (position : UInt32) :
    r.entriesFrom (count + more) position =
      r.entriesFrom count position ++ r.entriesFrom more (position + UInt32.ofNat count) := by
  induction count generalizing position with
  | zero => rw [Nat.zero_add, add_ofNat_zero, entriesFrom, List.nil_append]
  | succ count ih =>
    rw [Nat.succ_add, entriesFrom, entriesFrom, ih, succ_add_ofNat, List.cons_append]

/-- Consuming splits the entries that wait. -/
theorem consume_append_waiting (r : SimulatedRings) (limit : UInt32) :
    (r.consume limit).2.1 ++ (r.consume limit).2.2.waiting = r.waiting := by
  have hle : min r.published limit ≤ r.published := by
    rw [UInt32.le_iff_toNat_le, UInt32.toNat_min]
    exact Nat.min_le_left ..
  have hleft : r.sqTail - (r.consumed + min r.published limit) =
      r.published - min r.published limit := by
    rw [published]
    grind
  have hsum : (min r.published limit).toNat +
      (r.sqTail - (r.consumed + min r.published limit)).toNat = r.published.toNat := by
    rw [hleft, UInt32.toNat_sub_of_le _ _ hle]
    exact Nat.add_sub_cancel' (UInt32.le_iff_toNat_le.mp hle)
  have hall := r.entriesFrom_add (min r.published limit).toNat
    (r.sqTail - (r.consumed + min r.published limit)).toNat r.consumed
  rw [hsum, UInt32.ofNat_toNat] at hall
  refine Eq.trans ?_ hall.symm
  exact congrArg (r.entriesFrom _ r.consumed ++ ·)
    (entriesFrom_congr r (r.consume limit).2.2 rfl rfl rfl ..)

end SimulatedRings

/-! ## Kernels

An entry comes in by being staged, is consumed, performed, and leaves as a completion. At
each of these places it is within the terms if it was before. -/

/-- What a kernel may be asked, what it may be told in advance, and what it may answer.
Different questions about where completions come from are different terms. -/
structure Terms where
  asked : Sqe → Prop
  told : Int32 → Prop
  answered : Cqe → Prop

/-- What comes of performing an operation within the terms is within the terms. This is the
only condition that ties the three to each other. -/
def Terms.Hold (terms : Terms) (file : Bytes) : Prop :=
  ∀ injected s, (∀ res ∈ injected, terms.told res) → terms.asked s →
    terms.answered (SimulatedKernel.perform file injected s).1

/-- What is told from outside in an incident is within the terms. -/
def Terms.Allow (terms : Terms) : Incident → Prop
  | .inject res => terms.told res
  | .post c => terms.answered c
  | .call _ | .interrupt => True

namespace SimulatedKernel

variable {terms : Terms} {k : SimulatedKernel} {rings : SimulatedRings} {n : UInt32}
variable {file : Bytes} {injected : List Int32} {entries : List Sqe}

/-- What a kernel has been asked, told and made to answer is within the terms. -/
structure Meets (k : SimulatedKernel) (terms : Terms) (n : UInt32) : Prop where
  rings : ∃ rings, k.rings = some rings ∧ rings.entries = n ∧ rings.Bounded
  waiting : ∀ s ∈ k.waiting, terms.asked s
  injected : ∀ res ∈ k.injected, terms.told res
  queued : ∀ c ∈ k.queued, terms.answered c

theorem waiting_of_rings (hrings : k.rings = some rings) : k.waiting = rings.waiting := by
  rw [waiting, hrings]

theorem queued_of_rings (hrings : k.rings = some rings) :
    k.queued = rings.unread ++ k.pending := by
  rw [queued, hrings]

/-- What the terms say about the rings of a kernel. -/
theorem Meets.in_rings (h : k.Meets terms n) :
    ∃ rings, k.rings = some rings ∧ rings.entries = n ∧ rings.Bounded ∧
      (∀ s ∈ rings.waiting, terms.asked s) ∧
      ∀ c ∈ rings.unread ++ k.pending, terms.answered c := by
  obtain ⟨rings, hrings, hentries, hbounded⟩ := h.rings
  have hwaiting := h.waiting
  have hqueued := h.queued
  rw [waiting_of_rings hrings] at hwaiting
  rw [queued_of_rings hrings] at hqueued
  exact ⟨rings, hrings, hentries, hbounded, hwaiting, hqueued⟩

/-- To be within the terms is a matter of the entries that wait, of the results that are
left and of the completions that are queued. -/
theorem meets_of_rings (hrings : k.rings = some rings) (hentries : rings.entries = n)
    (hbounded : rings.Bounded) (hwaiting : ∀ s ∈ rings.waiting, terms.asked s)
    (hinjected : ∀ res ∈ k.injected, terms.told res)
    (hqueued : ∀ c ∈ rings.unread ++ k.pending, terms.answered c) : k.Meets terms n := by
  refine ⟨⟨rings, hrings, hentries, hbounded⟩, ?_, hinjected, ?_⟩
  · rw [waiting_of_rings hrings]
    exact hwaiting
  · rw [queued_of_rings hrings]
    exact hqueued

/-- Whatever a read does with a result that was given in advance, it uses up no other
one. -/
theorem injected_perform (file : Bytes) (injected : List Int32) (s : Sqe) :
    (perform file injected s).2.2 ⊆ injected := by
  rw [perform.eq_def]
  dsimp only
  split
  · exact List.Subset.refl _
  · split
    · cases injected with
      | nil => exact List.Subset.refl _
      | cons res rest =>
        dsimp only
        split
        · exact List.subset_cons_self ..
        · exact List.subset_cons_self ..
    · exact List.Subset.refl _

theorem injected_performAll (file : Bytes) (injected : List Int32) (entries : List Sqe) :
    (performAll file injected entries).2.2 ⊆ injected := by
  induction entries generalizing injected with
  | nil => exact List.Subset.refl _
  | cons s rest ih => exact List.Subset.trans (ih _) (injected_perform file injected s)

/-- Performing operations within the terms answers within the terms, whether a result was
given in advance or comes of the file. -/
theorem answered_performAll (hterms : terms.Hold file) (htold : ∀ res ∈ injected, terms.told res)
    (hasked : ∀ s ∈ entries, terms.asked s) :
    ∀ c ∈ (performAll file injected entries).1, terms.answered c := by
  induction entries generalizing injected with
  | nil => exact nofun
  | cons s rest ih =>
    have hleft (res : Int32) (hres : res ∈ (perform file injected s).2.2) : terms.told res :=
      htold res (injected_perform file injected s hres)
    intro c hc
    rcases List.mem_cons.mp hc with rfl | hc
    · exact hterms injected s htold (hasked s (List.mem_cons_self ..))
    · exact ih hleft (fun s' hs' => hasked s' (List.mem_cons_of_mem _ hs')) c hc

/-- Posting drops completions at most. -/
theorem Meets.flush (h : k.Meets terms n) : k.flush.Meets terms n := by
  obtain ⟨rings, hrings, rfl, hbounded, hwaiting, hqueued⟩ := h.in_rings
  rw [SimulatedKernel.flush]
  split
  · exact h
  · obtain ⟨hwf, hle, hsublist⟩ :=
      unread_postAll_sublist hbounded.wellFormed hbounded.length_le k.pending k.counters
    obtain ⟨cqTail, completions, hposted⟩ := postAll_eq k.pending rings k.counters
    rw [hposted] at hwf hle hsublist
    rw [← rings.waiting_completions rings.cqHead cqTail completions] at hwaiting
    simp only [hrings, hposted]
    refine meets_of_rings rfl rfl ⟨hwf, hle⟩ hwaiting h.injected fun c hc => ?_
    rw [List.append_nil] at hc
    exact hqueued c (hsublist.subset hc)

/-- Consuming performs entries that waited, and their completions are queued. -/
theorem Meets.consume (h : k.Meets terms n) (hterms : terms.Hold k.file) (limit : UInt32) :
    (k.consume limit).2.2.Meets terms n := by
  obtain ⟨rings, hrings, rfl, hbounded, hwaiting, hqueued⟩ := h.in_rings
  rw [← rings.consume_append_waiting limit] at hwaiting
  obtain ⟨hconsumed, hleft⟩ := List.forall_mem_append.mp hwaiting
  have hanswered := answered_performAll hterms h.injected hconsumed
  simp only [SimulatedKernel.consume, hrings]
  refine meets_of_rings rfl rfl ?_ hleft ?_ ?_
  · have hwf := hbounded.wellFormed
    refine hbounded.of_sameCompletions ?_ ⟨rfl, rfl, rfl, rfl⟩
    exact hwf.of_positions ..
  · exact fun res hres => h.injected res (injected_performAll _ _ _ hres)
  · intro c hc
    rw [← List.append_assoc] at hc
    rcases List.mem_append.mp hc with hold | hnew
    · exact hqueued c hold
    · exact hanswered c ((k.reported_perm _).mem_iff.mp hnew)

/-- A change of the submission side is within the terms if what waits then is. -/
theorem Meets.of_sameCompletions {rings' : SimulatedRings} (h : k.Meets terms n)
    (hrings : k.rings = some rings) (hwf : rings'.WellFormed) (hsame : rings.SameCompletions rings')
    (hwaiting : ∀ s ∈ rings'.waiting, terms.asked s) :
    { k with rings := some rings' }.Meets terms n := by
  obtain ⟨rings₁, hrings₁, rfl, hbounded, -, hqueued⟩ := h.in_rings
  obtain rfl : rings₁ = rings := Option.some.inj (hrings₁.symm.trans hrings)
  rw [← hsame.unread_eq] at hqueued
  exact meets_of_rings rfl hsame.entries_eq (hbounded.of_sameCompletions hwf hsame) hwaiting
    h.injected hqueued

/-- A completion that is posted from outside joins the queue. -/
theorem Meets.postRaw {c : Cqe} (h : k.Meets terms n) (hc : terms.answered c) :
    (k.postRaw c).Meets terms n := by
  obtain ⟨rings, hrings, hentries, hbounded, hwaiting, hqueued⟩ := h.in_rings
  have hpending : { k with pending := k.pending ++ [c] }.Meets terms n := by
    refine meets_of_rings hrings hentries hbounded hwaiting h.injected ?_
    rw [← List.append_assoc]
    exact List.forall_mem_append.mpr ⟨hqueued, List.forall_mem_singleton.mpr hc⟩
  exact hpending.flush

/-- What a call counts, and how often it is interrupted, is not in the terms. -/
theorem Meets.of_eq {k' : SimulatedKernel} (h : k.Meets terms n) (hrings : k'.rings = k.rings)
    (hinjected : k'.injected = k.injected) (hpending : k'.pending = k.pending) :
    k'.Meets terms n := by
  obtain ⟨rings, hsome, hentries, hbounded, hwaiting, hqueued⟩ := h.in_rings
  exact meets_of_rings (hrings.trans hsome) hentries hbounded hwaiting (hinjected ▸ h.injected)
    (hpending ▸ hqueued)

/-- However a kernel is entered, it stays within the terms. -/
theorem Meets.enter (h : k.Meets terms n) (hterms : terms.Hold k.file) (toSubmit flags : UInt32) :
    (k.enter toSubmit flags).kernel.Meets terms n := by
  have hentered : k.entered.Meets terms n := h.of_eq rfl rfl rfl
  have hconsumed := hentered.consume hterms (k.limitTo toSubmit)
  rw [enter_eq_respond_limitTo]
  generalize k.entered.consume (k.limitTo toSubmit) = consumed at hconsumed ⊢
  rcases consumed with ⟨taken, transfers, k'⟩
  have hwaited : k'.waited.Meets terms n := hconsumed.of_eq rfl rfl rfl
  rw [respond]
  split
  · split
    · exact hwaited.flush
    · exact hconsumed.of_eq rfl rfl rfl
  · split
    · exact hconsumed
    · exact hconsumed.flush

end SimulatedKernel

/-! ## Rings

A ring takes an entry out of the completion queue, or none. It finds the queue where the
kernel has it, so what it takes was queued. -/

namespace Ring

variable {terms : Terms} {r : Ring SimulatedKernel} {n : UInt32}

/-- The ring lies where the kernel has it, and the kernel is within the terms and keeps to
them. -/
structure Meets (r : Ring SimulatedKernel) (terms : Terms) (n : UInt32) : Prop where
  layout : r.HasLayout n
  kernel : r.kernel.Meets terms n
  hold : terms.Hold r.kernel.file

/-- Kernels differ in their settings only if they are different from the beginning. -/
theorem Meets.of_kernel {kernel : SimulatedKernel} {inFlight : UInt32} (h : r.Meets terms n)
    (hkernel : kernel.Meets terms n) (hsettings : r.kernel.SameSettings kernel) :
    Meets { r with kernel, inFlight } terms n :=
  ⟨⟨h.layout.sq_eq, h.layout.cq_eq⟩, hkernel, hsettings.file_eq ▸ h.hold⟩

/-- A ring takes what the kernel has posted, and nothing else. -/
theorem Meets.take (h : r.Meets terms n) :
    r.take.2.Meets terms n ∧ ∀ c, r.take.1 = .ok (some c) → terms.answered c := by
  obtain ⟨rings, hrings, rfl, hbounded, hwaiting, hqueued⟩ := h.kernel.in_rings
  cases hunread : rings.unread with
  | nil =>
    rw [take_of_nil h.layout hrings hunread]
    exact ⟨h, nofun⟩
  | cons c rest =>
    obtain ⟨hrest, htake⟩ := take_of_cons h.layout hrings hbounded.length_le hunread
    rw [hunread, List.cons_append] at hqueued
    obtain ⟨hfirst, hothers⟩ := List.forall_mem_cons.mp hqueued
    -- the entries that wait do not depend on the completion ring
    rw [← rings.waiting_completions (rings.cqHead + 1) rings.cqTail rings.completions] at hwaiting
    rw [htake]
    refine ⟨h.of_kernel ?_ ⟨rfl, rfl, rfl, rfl, rfl⟩, fun c' hc' => ?_⟩
    · have hwf := hbounded.wellFormed
      have hle := hbounded.length_le
      rw [hunread, List.length_cons] at hle
      refine SimulatedKernel.meets_of_rings rfl rfl ⟨?_, ?_⟩ hwaiting h.kernel.injected ?_
      · exact hwf.of_positions ..
      · rw [hrest]
        exact Nat.le_of_succ_le hle
      · rw [hrest]
        exact hothers
    · cases hc'
      exact hfirst

end Ring

/-! ## Engines

Submissions bring entries in and reaps take completions out. Neither makes any up. -/

namespace Engine

variable {π : Type} [OffsetPolicy π] {terms : Terms} {e e' : Engine SimulatedKernel} {n : UInt32}
variable {target : ReadTarget} {policy : π} {count : UInt32}

theorem meets_enter (h : e.ring.Meets terms n) (toSubmit minComplete flags : UInt32) :
    (e.enter toSubmit minComplete flags).2.ring.Meets terms n :=
  h.of_kernel (h.kernel.enter h.hold toSubmit flags)
    (e.ring.kernel.sameSettings_enter toSubmit flags)

/-- However a reap comes to an entry, the kernel has posted it. -/
theorem meets_takeOrWait (h : e.ring.Meets terms n) (mode : ReapMode) :
    (e.takeOrWait mode).2.ring.Meets terms n ∧
      ∀ c, (e.takeOrWait mode).1 = .ok (some c) → terms.answered c := by
  have htake (e' : Engine SimulatedKernel) (h : e'.ring.Meets terms n) :
      e'.take.2.ring.Meets terms n := h.take.1
  have henter (e' : Engine SimulatedKernel) (h : e'.ring.Meets terms n) :
      (e'.enter 0 1 enterGetEvents).2.ring.Meets terms n := meets_enter h 0 1 enterGetEvents
  refine ⟨takeOrWait_invariant htake henter h mode, fun c hc => ?_⟩
  obtain ⟨e₁, h₁, htaken⟩ := take_of_takeOrWait htake henter h (Prod.ext hc rfl)
  exact h₁.take.2 c (congrArg Prod.fst htaken)

/-- A reap asks the kernel for nothing, and takes only what it has posted. -/
theorem meets_reap (h : e.ring.Meets terms n) (hsound : e.pool.Sound) (mode : ReapMode) :
    (e.reap mode).2.ring.Meets terms n := by
  have htaken := (meets_takeOrWait h mode).1
  rcases e.reap_looked mode with hlooked | ⟨c, hfinished⟩
  · rw [hlooked]
    exact htaken
  · have hlooked : (e.takeOrWait mode).2.pool.Sound :=
      sound_of_drifts hsound (drifts_of_takeOrWait rfl)
    obtain ⟨inFlight, hring⟩ := ring_finish hlooked c
    rw [hfinished, hring]
    exact htaken.of_kernel htaken.kernel (.refl _)

theorem meets_drain (h : e.ring.Meets terms n) (hsound : e.pool.Sound) (mode : ReapMode) :
    (e.drain mode).2.ring.Meets terms n := by
  have hboth := drain_invariant (P := fun e => e.pool.Sound ∧ e.ring.Meets terms n)
    (fun _ h mode => ⟨sound_of_reap h.1 rfl, meets_reap h.2 h.1 mode⟩) ⟨hsound, h⟩ mode
  exact hboth.2

/-- A batch that is staged is seen by the kernel only where it takes the place of other
entries, and then it is within the terms as well. -/
theorem meets_staged (h : e.ring.Meets terms n)
    (hasked : ∀ s ∈ e.stagedEntries target count policy, terms.asked s) :
    (e.staged target count policy).ring.Meets terms n := by
  obtain ⟨rings, hrings, rfl, hbounded, hwaiting, -⟩ := h.kernel.in_rings
  have hwf := hbounded.wellFormed
  rw [staged_on_simulated h.layout hrings hwf target count policy]
  refine h.of_kernel (h.kernel.of_sameCompletions hrings (hwf.stageAll ..) ?_ ?_)
    ⟨rfl, rfl, rfl, rfl, rfl⟩
  · exact SimulatedRings.sameCompletions_stageAll ..
  · exact SimulatedRings.waiting_stageAll hwf.slotted hasked hwaiting rings.sqTail

/-- A batch is published in the kernel's rings. -/
theorem ring_published {rings : SimulatedRings} (hlayout : e.ring.HasLayout rings.entries)
    (hrings : e.ring.kernel.rings = some rings) (hwf : rings.WellFormed) (target : ReadTarget)
    (count : UInt32) (policy : π) :
    let staged := rings.stageAll rings.sqTail (e.stagedEntries target count policy)
    let kernel :=
      { e.ring.kernel with rings := some { staged with sqTail := rings.sqTail + count } }
    (e.published target count policy).ring = { e.ring with kernel } := by
  intro staged kernel
  have hstaged := staged_on_simulated hlayout hrings hwf target count policy
  have hlayout' : (e.staged target count policy).ring.HasLayout rings.entries := by
    rw [hstaged]
    exact ⟨hlayout.sq_eq, hlayout.cq_eq⟩
  have htail : e.ring.submissionTail.1 = rings.sqTail :=
    congrArg Prod.fst (Ring.submissionTail_eq hlayout hrings)
  rw [published, Ring.publishTail_eq hlayout' (congrArg (·.ring.kernel.rings) hstaged), hstaged,
    htail]
  rfl

/-- A batch that is published waits. -/
theorem meets_published (h : e.ring.Meets terms n)
    (hasked : ∀ s ∈ e.stagedEntries target count policy, terms.asked s)
    (hlength : (e.stagedEntries target count policy).length = count.toNat) :
    (e.published target count policy).ring.Meets terms n ∧
      (e.published target count policy).ring.kernel.file = e.ring.kernel.file := by
  obtain ⟨rings, hrings, rfl, hbounded, hwaiting, -⟩ := h.kernel.in_rings
  have hwf := hbounded.wellFormed
  have hpublished := SimulatedRings.waiting_publish hwf.slotted hasked hwaiting
  rw [hlength, UInt32.ofNat_toNat] at hpublished
  rw [ring_published h.layout hrings hwf target count policy]
  have hstagedWf := hwf.stageAll rings.sqTail (e.stagedEntries target count policy)
  have hsame := rings.sameCompletions_stageAll rings.sqTail (e.stagedEntries target count policy)
  refine ⟨h.of_kernel (h.kernel.of_sameCompletions hrings ?_ ?_ hpublished)
    ⟨rfl, rfl, rfl, rfl, rfl⟩, rfl⟩
  · exact hstagedWf.of_positions ..
  · exact ⟨hsame.entries_eq, hsame.cqHead_eq, hsame.cqTail_eq, hsame.completions_eq⟩

/-- A submission whose entries are within the terms keeps the kernel within them, however it
ends. Where it fails before the tail is moved, what was staged waits for nobody. -/
theorem meets_submitReads (h : e.ring.Meets terms n) (hsound : e.pool.Sound)
    (requested : UInt32)
    (hasked : target.blocks e.blockSize ≠ 0 →
      ∀ s ∈ e.stagedEntries target (min requested e.ring.available) policy, terms.asked s) :
    (e.submitReads target requested policy).2.1.ring.Meets terms n := by
  rcases submitReads_cases hsound target requested policy with
    hsame | ⟨hblocks, -, hsame | ⟨hcomplete, hhanded⟩⟩
  · rw [hsame]
    exact h
  all_goals
    generalize min requested e.ring.available = count at *
  · rw [hsame]
    exact meets_staged h (hasked hblocks)
  · have hlength : (e.stagedEntries target count policy).length = count.toNat :=
      (List.length_map _).trans ((Pool.length_loanReads ..).2 hcomplete)
    have hring := (meets_published h (hasked hblocks) hlength).1
    obtain ⟨-, inFlight, hengine⟩ := e.handOver_eq target count policy
    have hsubmitted : (e.submitReads target requested policy).2.1 = _ :=
      (congrArg Prod.snd hhanded).trans hengine
    rw [hsubmitted]
    exact hring.of_kernel (hring.kernel.enter hring.hold count 0)
      (SimulatedKernel.sameSettings_enter _ count 0)

/-! ## Runs

The terms of a run are about what is staged in it and what is told from outside. The kernel
adds nothing to this, so what comes back is within them. -/

/-- The entries that an incident stages. -/
def stagedBy (e : Engine SimulatedKernel) : Incident → List Sqe
  | .call (@Call.submitReads _ _ target requested policy) =>
    if target.blocks e.blockSize = 0 then []
    else e.stagedEntries target (min requested e.ring.available) policy
  | _ => []

/-- The entries that are staged in a run, incident after incident. All that a kernel can be
asked in the run is among these, also where slots are overwritten before it has looked at
them. -/
def stagedAlong : Engine SimulatedKernel → List Incident → List Sqe
  | _, [] => []
  | e, incident :: rest => e.stagedBy incident ++ (e.undergo incident).stagedAlong rest

/-- What happens to an engine, if the entries of a run and what it is told from outside are
within the terms. -/
theorem meets_undergo {incident : Incident} (h : e.ring.Meets terms n) (hsound : e.pool.Sound)
    (hasked : ∀ s ∈ e.stagedBy incident, terms.asked s) (hallow : terms.Allow incident) :
    (e.undergo incident).ring.Meets terms n := by
  cases incident with
  | call call =>
    cases call with
    | submitReads target requested policy =>
      refine meets_submitReads h hsound requested fun hblocks => ?_
      rw [stagedBy, if_neg hblocks] at hasked
      exact hasked
    | reap mode => exact meets_reap h hsound mode
    | drain mode => exact meets_drain h hsound mode
    | release token => exact h
  | inject res =>
    refine h.of_kernel ⟨h.kernel.rings, h.kernel.waiting, ?_, h.kernel.queued⟩
      ⟨rfl, rfl, rfl, rfl, rfl⟩
    exact List.forall_mem_append.mpr ⟨h.kernel.injected, List.forall_mem_singleton.mpr hallow⟩
  | interrupt => exact h.of_kernel (h.kernel.of_eq rfl rfl rfl) ⟨rfl, rfl, rfl, rfl, rfl⟩
  | post c =>
    have hsettings : e.ring.kernel.SameSettings (e.ring.kernel.postRaw c) :=
      e.sameSettings_undergo (.post c)
    exact h.of_kernel (h.kernel.postRaw hallow) hsettings

/-- Whatever happens to an engine, calls can lead to where it is then. What is done to the
kernel from outside is what a kernel might do by itself. -/
theorem Reachable.undergo (h : e.Reachable) (incident : Incident) :
    (e.undergo incident).Reachable := by
  cases incident with
  | call call => exact h.performed call
  | inject _ | interrupt | post _ => exact h.drifted ⟨_, [], rfl⟩

theorem Reachable.undergoAll (h : e.Reachable) (run : List Incident) :
    (e.undergoAll run).Reachable := by
  induction run generalizing e with
  | nil => exact h
  | cons incident rest ih => exact ih (h.undergo incident)

theorem meets_undergoAll {run : List Incident} (h : e.ring.Meets terms n) (hreachable : e.Reachable)
    (hasked : ∀ s ∈ e.stagedAlong run, terms.asked s)
    (hallow : ∀ incident ∈ run, terms.Allow incident) :
    (e.undergoAll run).ring.Meets terms n := by
  induction run generalizing e with
  | nil => exact h
  | cons incident rest ih =>
    obtain ⟨hnow, hlater⟩ := List.forall_mem_append.mp hasked
    obtain ⟨hfirst, hrest⟩ := List.forall_mem_cons.mp hallow
    exact ih (meets_undergo h hreachable.balanced.sound hnow hfirst) (hreachable.undergo incident)
      hlater hrest

/-- A new engine is within all terms that what its kernel has to post and was told is
within. -/
theorem meets_create {kernel : SimulatedKernel} {capacity serial : UInt32} {config : PoolConfig}
    {mappings : MappingAnswers}
    (h : create kernel capacity serial config mappings = .ok e)
    (hpending : ∀ c ∈ kernel.pending, terms.answered c)
    (htold : ∀ res ∈ kernel.injected, terms.told res) (hhold : terms.Hold kernel.file) :
    ∃ n, e.ring.Meets terms n := by
  obtain ⟨-, hring⟩ := create_eq_ok h
  obtain ⟨⟨hdepth, hle⟩, hlayout, hkernel, -⟩ := Ring.create_on_simulated hring
  let rings : SimulatedRings := { entries := SimulatedKernel.powerOfTwoFrom capacity }
  have hrings : e.ring.kernel.rings = some rings := by
    rw [hkernel]
    rfl
  have hunread : rings.unread = [] := SimulatedRings.unread_eq_nil (UInt32.sub_self 0)
  have hwaiting : rings.waiting = [] := by
    have hpublished : rings.published = 0 := UInt32.sub_self 0
    rw [SimulatedRings.waiting, hpublished]
    rfl
  have hwf : rings.WellFormed :=
    ⟨hdepth, hle, Array.size_replicate, Array.size_replicate, Array.size_replicate⟩
  have hqueued : rings.unread ++ e.ring.kernel.pending = kernel.pending := by
    rw [hunread, hkernel]
    rfl
  refine ⟨_, hlayout, SimulatedKernel.meets_of_rings hrings rfl ⟨hwf, ?_⟩ ?_ ?_ ?_, ?_⟩
  · rw [hunread]
    exact Nat.zero_le _
  · rw [hwaiting]
    exact fun s hs => absurd hs List.not_mem_nil
  · rw [hkernel]
    exact htold
  · rw [hqueued]
    exact hpending
  · rw [hkernel]
    exact hhold

end Engine

end RingRead
