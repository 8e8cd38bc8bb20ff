import Mathlib.Data.List.Induction
import RingRead.Proofs.Pool.Isolation
import RingRead.Proofs.Pool.Marks

/-!
# Damaged blocks

A block that is given back gets a mark in its first word, and the allocation that takes it
off the free stack again looks whether the mark is there. Bytes from outside can arrive in
any block at any time, so the mark may be gone by then.

* **Detection.** The allocation reports exactly those blocks whose first word is not the
  mark (`Pool.allocate_mismatch_iff`). As long as no bytes from outside arrive in free
  blocks, whatever is written into others, there are none (`Inventory.intact_run`).
* **Quarantine.** A block that was reported is free and not on the stack
  (`Inventory.Balanced.quarantined`). There is no way back from there: it is neither issued
  nor given back, read, written or taken back again.
* **Recycling.** A block on the free stack was put there by a release, and has been there
  since (`Inventory.GivenBack`). But for its first word it holds what was in it at that
  time, and what has arrived in it from outside (`Inventory.givenBack_of_mem_free`).

`Inventory.quarantined_run` says all this of every run of a new pool.
-/

namespace RingRead

namespace Pool

variable {p p' : Pool} {t : Token} {b : UInt32} {rest : List UInt32}

/-! ## Detection

A mark that is gone is found by the allocation that looks for it, and by no other call. So
the question is what the allocation says of the first word, and when the first word can be
anything but the mark. -/

/-- An allocation that takes a block off the free stack reports it if its first word is not
the mark, and only then. -/
theorem allocate_mismatch_iff (h : p.Sound) (hfree : p.free = b :: rest) :
    ∃ bytes, p.bytes? b.toNat = some bytes ∧
      ∀ w, p.allocate.1 = .error (.canaryMismatch b w canary) ↔
        bytes.firstWord = w ∧ w ≠ canary := by
  obtain ⟨block, hblock, -⟩ := Option.map_eq_some_iff.mp (h.state_free b (by simp [hfree]))
  have hbytes : p.bytes? b.toNat = some block.bytes := by rw [bytes?, hblock]; rfl
  have hword : p.firstWord b.toNat = block.bytes.firstWord := by rw [firstWord, hblock]; rfl
  refine ⟨block.bytes, hbytes, fun w => ?_⟩
  by_cases hmark : p.firstWord b.toNat = canary
  · obtain ⟨hok, -, -⟩ := allocate_sound hfree hmark
    rw [hok, ← hword, hmark]
    constructor
    · intro heq
      cases heq
    · rintro ⟨rfl, hne⟩
      exact absurd rfl hne
  · rw [allocate_damaged hfree hmark, hword]
    constructor
    · intro heq
      cases heq
      exact ⟨rfl, hword ▸ hmark⟩
    · rintro ⟨rfl, -⟩
      rfl

/-- An allocation that reports a block has taken it off the free stack, and done nothing
else. In particular it has not put another block in its place. -/
theorem allocate_mismatch {w expected : UInt64}
    (h : p.allocate = (.error (.canaryMismatch b w expected), p')) :
    expected = canary ∧ ∃ rest, p.free = b :: rest ∧ p' = { p with free := rest } := by
  rcases allocate_error_cases h with
    ⟨-, -, herr, -⟩ | ⟨err, -, -, -, herr, -⟩ | ⟨n, rest, hfree, -, herr, rfl⟩
  · cases herr
  · cases herr
  · cases herr
    exact ⟨rfl, rest, hfree, rfl⟩

/-- Bytes from outside arrive in no free block. What arrives in a held or loaned block is
nothing to the marks, as these are written when the block is given back. -/
def Avoids (p : Pool) : PoolEvent → Prop
  | .receive transfer => p.state? (Address.index transfer.address) ≠ some .free
  | .call _ => True

instance (p : Pool) : (event : PoolEvent) → Decidable (p.Avoids event)
  | .receive _ => inferInstanceAs (Decidable (_ ≠ _))
  | .call _ => isTrue trivial

/-- Whatever happens, blocks keep their size. This needs neither marks nor the right
tokens. -/
theorem Uniform.undergo (h : p.Uniform) (event : PoolEvent) : (p.undergo event).Uniform := by
  rcases event with call | transfer
  · cases call with
    | allocate => exact h.allocate
    | release token => exact h.release token
    | write token start piece =>
      rw [Pool.undergo, Pool.write]
      split
      · exact h
      · exact h.modify _ fun b => Bytes.size_overwrite ..
    | loan token => exact h.modify _ fun _ => rfl
    | reclaim tag =>
      rw [Pool.undergo, reclaim]
      split
      · exact h.modify _ fun _ => rfl
      · exact h
  · exact h.receiveAll [transfer]

/-- Writing does not touch the free stack, whether or not the token was accepted. -/
theorem free_write (p : Pool) (t : Token) (start : Nat) (piece : Bytes) :
    (p.write t start piece).2.free = p.free := by
  rw [write]
  split
  · rfl
  · rfl

theorem Intact.write (h : p.Intact) (hcheck : p.check t = .ok ()) (start : Nat) (piece : Bytes) :
    (p.write t start piece).2.Intact := by
  obtain ⟨hheld, -⟩ := check_eq_ok_iff.mp hcheck
  obtain ⟨-, hbytes⟩ := write_ok hcheck start piece
  have hfree := free_write p t start piece
  let event : PoolEvent := .call (.write t start piece)
  refine h.of_free_subset (h.toSound.write hcheck start piece) (h.uniform.undergo event)
    (p.later_after (.event event)).config_eq (hfree ▸ List.Subset.refl _) fun n hn => hbytes _ ?_
  exact h.toSound.ne_of_mem_free (by decide) hheld n (hfree ▸ hn)

/-- Every block keeps its mark while it is on the free stack, if bytes from outside arrive
in no free block. One case for each event; only the last one needs the condition. -/
theorem Intact.undergo {event : PoolEvent} (h : p.Intact) (hpermits : p.Permits event)
    (havoids : p.Avoids event) : (p.undergo event).Intact := by
  rcases event with call | transfer
  · cases call with
    | allocate =>
      rcases halloc : p.allocate with ⟨err | token, p'⟩
      · simpa only [Pool.undergo, halloc] using h.of_allocate_error halloc
      · simpa only [Pool.undergo, halloc] using h.allocate halloc
    | release token =>
      rcases hcheck : p.check token with err | _
      · simpa only [Pool.undergo, release_error hcheck] using h
      · exact h.release hcheck
    | write token start piece =>
      rcases hcheck : p.check token with err | _
      · simpa only [Pool.undergo, Pool.write, hcheck] using h
      · exact h.write hcheck start piece
    | loan token => exact h.loan hpermits.1
    | reclaim tag =>
      by_cases hloaned : p.state? tag.toNat = some .loaned
      · exact h.reclaim hloaned
      · simpa only [Pool.undergo, reclaim_unknown hloaned] using h
  · exact h.receive havoids

/-! ## Quarantine

A damaged block stays free by its state and is on no stack. Nothing in the pool says that it
is damaged. That it cannot come back follows from the two facts together. -/

/-- The block is not issued, and no call that names it succeeds. Nobody has a token of it,
nobody can get one, and old ones do not work. -/
structure Barred (p : Pool) (b : UInt32) : Prop where
  allocate : ∀ t, p.allocate.1 = .ok t → t.id ≠ b
  release : ∀ t, t.id = b → (p.release t).1 ≠ .ok ()
  data : ∀ t bytes, t.id = b → p.data t ≠ .ok bytes
  write : ∀ t start piece, t.id = b → (p.write t start piece).1 ≠ .ok ()
  reclaim : ∀ (tag : UInt64) (t : Token), tag.toNat = b.toNat → (p.reclaim tag).1 ≠ .ok t

/-- Nor is there a way back for a free block that is not on the stack. To be given back it
would have to be held, to be taken back it would have to be on loan, and to be issued it
would have to be on the stack. -/
theorem barred_of_off_stack (h : p.Sound) (hstate : p.state? b.toNat = some .free)
    (hoff : b ∉ p.free) : p.Barred b := by
  have hcheck (t : Token) (hid : t.id = b) : p.check t ≠ .ok () := by
    intro hok
    obtain ⟨hheld, -⟩ := check_eq_ok_iff.mp hok
    rw [hid, hstate] at hheld
    cases hheld
  refine ⟨?_, ?_, ?_, ?_, ?_⟩
  · rintro t hok rfl
    -- an allocation hands out the top of the stack or a number that no block has had
    have hallocates := allocates_of_ok h (Prod.ext hok rfl)
    rcases hallocates.origin with ⟨hfree, -⟩ | ⟨-, -, hid, -⟩
    · exact hoff (by simp [hfree])
    · rw [hid, state?_size] at hstate
      cases hstate
  · intro t hid
    rw [release_answer]
    exact hcheck t hid
  · intro t bytes hid hok
    exact hcheck t hid (data_ok_iff.mp ⟨bytes, hok⟩)
  · intro t start piece hid
    rw [write_answer]
    exact hcheck t hid
  · intro tag t htag
    have hnot : p.state? tag.toNat ≠ some .loaned := by simp [htag, hstate]
    rw [reclaim_unknown hnot]
    intro heq
    cases heq

/-! ## Recycling

A block that is recycled comes with what its last user left in it. To say so exactly, what
arrives from outside while the block is free has to be written down beside it. -/

/-- What has arrived in a block, in order. What arrived in other blocks is left out. -/
def arrivals (b : UInt32) (events : List PoolEvent) : List Transfer :=
  events.filterMap fun
    | .receive transfer =>
      if Address.index transfer.address = b.toNat then some transfer else none
    | .call _ => none

/-- Bytes after transfers to their block, each written over what was there. -/
def written (bytes : Bytes) (transfers : List Transfer) : Bytes :=
  transfers.foldl (fun bytes t => bytes.overwrite (Address.offset t.address) t.piece) bytes

theorem arrivals_append (b : UInt32) (events events' : List PoolEvent) :
    arrivals b (events ++ events') = arrivals b events ++ arrivals b events' :=
  List.filterMap_append

theorem written_append (bytes : Bytes) (transfers transfers' : List Transfer) :
    written bytes (transfers ++ transfers') = written (written bytes transfers) transfers' :=
  List.foldl_append

/-- What transfers leave behind the first word does not depend on the first word. So it does
not matter whether the mark was set before they came or after. -/
theorem drop_toList_written {bytes bytes' : Bytes} (hsize : bytes.size = bytes'.size)
    (h : bytes.toList.drop 8 = bytes'.toList.drop 8) (transfers : List Transfer) :
    (written bytes transfers).toList.drop 8 = (written bytes' transfers).toList.drop 8 := by
  induction transfers generalizing bytes bytes' with
  | nil => exact h
  | cons t rest ih =>
    refine ih ?_ (Bytes.drop_toList_overwrite hsize h _ _)
    rw [Bytes.size_overwrite, Bytes.size_overwrite, hsize]

/-- Bytes from outside are written over what is in a block if they arrive there, and leave
it alone if they do not. -/
theorem bytes?_receive (p : Pool) (transfer : Transfer) (b : UInt32) :
    (p.receive transfer).bytes? b.toNat =
      (p.bytes? b.toNat).map fun bytes => written bytes (arrivals b [.receive transfer]) := by
  by_cases hindex : Address.index transfer.address = b.toNat
  · have harrivals : arrivals b [.receive transfer] = [transfer] := by simp [arrivals, hindex]
    rw [harrivals, receive, hindex, bytes?_modify_self, bytes?, Option.map_map]
    rfl
  · have harrivals : arrivals b [.receive transfer] = [] := by simp [arrivals, hindex]
    rw [harrivals]
    exact (bytes?_modify_ne p _ (Ne.symm hindex)).trans (Option.map_id' ..).symm

/-- What is on the free stack after an allocation was there before, and is as it was: only
the top of the stack is taken. -/
theorem mem_free_allocate (h : p.Sound) (hmem : b ∈ p.allocate.2.free) :
    b ∈ p.free ∧ p.allocate.2.bytes? b.toNat = p.bytes? b.toNat := by
  rcases halloc : p.allocate with ⟨err | token, p'⟩
  · obtain ⟨-, hbytes, -⟩ := same_of_allocate_error halloc
    rw [halloc] at hmem
    refine ⟨?_, hbytes _⟩
    rcases allocate_error_cases halloc with
      ⟨-, -, -, rfl⟩ | ⟨err, -, -, -, -, rfl⟩ | ⟨n, rest, hfree, -, -, rfl⟩
    · exact hmem
    · exact hmem
    · rw [hfree]
      exact List.mem_cons_of_mem n hmem
  · have hallocates := allocates_of_ok h halloc
    rw [halloc] at hmem
    rcases hallocates.origin with ⟨hfree, -⟩ | ⟨-, hfree, -⟩
    -- what is left on the stack is not the block that was taken, so its bytes are as they were
    · have hne : b ≠ token.id := by
        rintro rfl
        exact (List.nodup_cons.mp (hfree ▸ h.nodup_free)).1 hmem
      refine ⟨?_, hallocates.moves.bytes_of_not_mem _ (by simpa [UInt32.toNat_inj] using hne)⟩
      rw [hfree]
      exact List.mem_cons_of_mem _ hmem
    · rw [hfree] at hmem
      cases hmem

/-- A block that is on the free stack after a call was given back in it, or was there before
and is as it was. -/
theorem mem_free_call {call : PoolCall} (h : p.Sound) (hpermits : p.Permits (.call call))
    (hmem : b ∈ (p.undergo (.call call)).free) :
    (∃ t, call = .release t ∧ t.id = b ∧ p.check t = .ok ()) ∨
      b ∈ p.free ∧ (p.undergo (.call call)).bytes? b.toNat = p.bytes? b.toNat := by
  cases call with
  | allocate => exact Or.inr (mem_free_allocate h hmem)
  | release token =>
    rcases hcheck : p.check token with err | _
    · rw [undergo, release_error hcheck] at hmem ⊢
      exact Or.inr ⟨hmem, rfl⟩
    · by_cases hid : token.id = b
      · exact Or.inl ⟨token, rfl, hid, hcheck⟩
      · have hne : b ≠ token.id := Ne.symm hid
        obtain ⟨-, hfree, -, -⟩ := release_ok hcheck
        rw [undergo, hfree] at hmem
        exact Or.inr ⟨(List.mem_cons.mp hmem).resolve_left hne,
          (moves_release hcheck).bytes_of_not_mem _ (by simpa [UInt32.toNat_inj] using hne)⟩
  | write token start piece =>
    have hold : b ∈ p.free := free_write p token start piece ▸ hmem
    refine Or.inr ⟨hold, ?_⟩
    rcases hcheck : p.check token with err | _
    · simp only [undergo, write, hcheck]
    · obtain ⟨hheld, -⟩ := check_eq_ok_iff.mp hcheck
      obtain ⟨-, hbytes⟩ := write_ok hcheck start piece
      exact hbytes _ (h.ne_of_mem_free (by decide) hheld b hold)
  | loan token =>
    -- only an allocation takes from the stack, and only a release adds to it
    have hne := h.ne_of_mem_free (by decide) hpermits.1 b hmem
    exact Or.inr ⟨hmem, bytes?_modify_ne p _ hne⟩
  | reclaim tag =>
    by_cases hloaned : p.state? tag.toNat = some .loaned
    · simp only [undergo, reclaim, hloaned, if_true] at hmem ⊢
      have hne := h.ne_of_mem_free (by decide) hloaned b hmem
      exact Or.inr ⟨hmem, bytes?_modify_ne p _ hne⟩
    · rw [undergo, reclaim_unknown hloaned] at hmem ⊢
      exact Or.inr ⟨hmem, rfl⟩

/-- A block that is taken off the free stack with its mark loses the mark, and keeps the
rest. -/
theorem bytes?_allocate (hfree : p.free = b :: rest) (hok : p.allocate.1 = .ok t) :
    t.id = b ∧ p.allocate.2.bytes? b.toNat = (p.bytes? b.toNat).map (·.setFirstWord 0) := by
  by_cases hmark : p.firstWord b.toNat = canary
  · obtain ⟨hanswer, -, -⟩ := allocate_sound hfree hmark
    obtain rfl := Except.ok.inj (hanswer.symm.trans hok)
    refine ⟨rfl, ?_⟩
    rw [allocate_marked hfree hmark]
    refine (bytes?_modify_self p b.toNat _).trans ?_
    rw [bytes?, Option.map_map]
    rfl
  · rw [allocate_damaged hfree hmark] at hok
    cases hok

end Pool

/-! ## Runs

The steps, carried over whole runs. Reports are kept in the inventory, since the pool itself
has no memory of them. -/

namespace Inventory

variable {i : Inventory} {b : UInt32} {events : List PoolEvent}

/-- Bytes from outside arrive in no block of the pool that is free at that point. It has to
be asked at each point, since blocks become free on the way. -/
def Avoiding (i : Inventory) : List PoolEvent → Prop
  | [] => True
  | event :: rest => i.pool.Avoids event ∧ (i.step event).Avoiding rest

instance decidableAvoiding :
    (i : Inventory) → (events : List PoolEvent) → Decidable (i.Avoiding events)
  | _, [] => isTrue trivial
  | i, event :: rest =>
    have := decidableAvoiding (i.step event) rest
    inferInstanceAs (Decidable (i.pool.Avoids event ∧ _))

/-- A run that avoids free blocks leaves an intact pool intact. -/
theorem intact_run (h : i.pool.Intact) (hpermitted : i.Permitted events)
    (havoiding : i.Avoiding events) : (i.run events).pool.Intact := by
  induction events generalizing i with
  | nil => exact h
  | cons event rest ih =>
    obtain ⟨hpermits, hrest⟩ := hpermitted
    obtain ⟨havoids, hrest'⟩ := havoiding
    exact ih (h.undergo hpermits havoids) hrest hrest'

theorem later_run (i : Inventory) (events : List PoolEvent) :
    i.pool.Later (i.run events).pool := by
  induction events generalizing i with
  | nil => exact .refl _
  | cons event rest ih => exact (i.pool.later_after (.event event)).trans (ih (i.step event))

theorem uniform_run (h : i.pool.Uniform) (events : List PoolEvent) :
    (i.run events).pool.Uniform := by
  induction events generalizing i with
  | nil => exact h
  | cons event rest ih => exact ih (h.undergo event)

/-- In a run from an intact pool, every block has room for the mark, whatever has become of
the marks themselves. -/
theorem le_size_bytes (h : i.pool.Intact) {bytes : Bytes}
    (hbytes : (i.run events).pool.bytes? b.toNat = some bytes) : 8 ≤ bytes.size := by
  obtain ⟨hle, -⟩ := h.blockSize_bounds
  rw [(uniform_run h.uniform events).size_bytes hbytes, Pool.blockSize,
    (i.later_run events).config_eq]
  exact hle

/-- A report stays on the record. It is kept for the proofs alone: the pool forgets the
block at once. -/
theorem mem_damaged_of_mem (hb : b ∈ i.damaged) (events : List PoolEvent) :
    b ∈ (i.run events).damaged := by
  induction events generalizing i with
  | nil => exact hb
  | cons event rest ih =>
    apply ih
    exact List.mem_append_right _ hb

theorem mem_damaged_run {past : List PoolEvent} {w expected : UInt64}
    (h : (i.run past).pool.allocate.1 = .error (.canaryMismatch b w expected))
    (later : List PoolEvent) : b ∈ (i.run (past ++ .call .allocate :: later)).damaged := by
  have hreported : (i.run past).pool.reported? (.call .allocate) = some b := by
    rw [Pool.reported?, h]
  have hmem : b ∈ ((i.run past).step (.call .allocate)).damaged := by
    simp [step, hreported]
  rw [run, List.foldl_append]
  exact mem_damaged_of_mem hmem later

/-- A block that was reported as damaged is free, and not on the stack. So says the
invariant of the books, which counts it as free all the same. -/
theorem Balanced.quarantined (h : i.Balanced) (hb : b ∈ i.damaged) :
    i.pool.state? b.toNat = some .free ∧ b ∉ i.pool.free := by
  obtain ⟨-, -, hdisjoint⟩ := List.nodup_append.mp h.free.nodup.of_map
  refine ⟨(h.free.mem_iff _).mpr (List.mem_map_of_mem (List.mem_append_right _ hb)), ?_⟩
  intro hfree
  exact hdisjoint b hfree b hb rfl

theorem run_concat (i : Inventory) (past : List PoolEvent) (event : PoolEvent) :
    i.run (past ++ [event]) = (i.run past).step event := List.foldl_concat ..

theorem permitted_concat {past : List PoolEvent} {event : PoolEvent}
    (h : i.Permitted (past ++ [event])) :
    i.Permitted past ∧ (i.run past).pool.Permits event := by
  induction past generalizing i with
  | nil => exact ⟨trivial, h.1⟩
  | cons first rest ih =>
    obtain ⟨hfirst, hrest⟩ := h
    obtain ⟨hpast, hlast⟩ := ih hrest
    exact ⟨⟨hfirst, hpast⟩, hlast⟩

/-! ## What is on the free stack

Every block on the free stack has a history: at some point somebody gave it back. The
induction is on the run from its end, since the last release is the one that counts. -/

/-- In a run, the block was given back with the bytes `left` in it, and it has been on the
free stack ever since, while `later` happened. A run may give a block back many times; this
is about the last one. -/
def GivenBack (i : Inventory) (events : List PoolEvent) (b : UInt32) (left : Bytes)
    (later : List PoolEvent) : Prop :=
  ∃ past t, events = past ++ .call (.release t) :: later ∧ t.id = b ∧
    (i.run past).pool.check t = .ok () ∧ (i.run past).pool.bytes? b.toNat = some left ∧
    ∀ since, since <+: later → b ∈ (i.run (past ++ .call (.release t) :: since)).pool.free

/-- A block that was just given back, with nothing after it yet. -/
theorem givenBack_now {t : Token} {left : Bytes} (hcheck : (i.run events).pool.check t = .ok ())
    (hbytes : (i.run events).pool.bytes? t.id.toNat = some left) :
    i.GivenBack (events ++ [.call (.release t)]) t.id left [] := by
  refine ⟨events, t, rfl, rfl, hcheck, hbytes, fun since hsince => ?_⟩
  obtain rfl := List.prefix_nil.mp hsince
  obtain ⟨-, hfree, -, -⟩ := Pool.release_ok hcheck
  rw [run_concat]
  change t.id ∈ ((i.run events).pool.release t).2.free
  rw [hfree]
  exact List.mem_cons_self ..

/-- One that stays on the free stack while one more event happens. -/
theorem GivenBack.concat {left : Bytes} {later : List PoolEvent} {event : PoolEvent}
    (h : i.GivenBack events b left later) (hmem : b ∈ (i.run (events ++ [event])).pool.free) :
    i.GivenBack (events ++ [event]) b left (later ++ [event]) := by
  obtain ⟨past, t, rfl, hid, hcheck, hbytes, hsince⟩ := h
  refine ⟨past, t, by simp, hid, hcheck, hbytes, fun since hprefix => ?_⟩
  rcases List.prefix_concat_iff.mp hprefix with rfl | hprefix
  · simpa using hmem
  · exact hsince since hprefix

/-- A block that is on the free stack after a run of a pool that began with an empty one was
given back in the run. It has the mark and what was left in it, with what has arrived from
outside since written over. -/
theorem givenBack_of_mem_free (h : i.Balanced) (hempty : i.pool.free = [])
    (hpermitted : i.Permitted events) (hmem : b ∈ (i.run events).pool.free) :
    ∃ left later, i.GivenBack events b left later ∧
      (i.run events).pool.bytes? b.toNat =
        some (Pool.written (left.setFirstWord canary) (Pool.arrivals b later)) := by
  induction events using List.reverseRecOn with
  | nil =>
    rw [show (i.run []).pool.free = [] from hempty] at hmem
    cases hmem
  | append_singleton past event ih =>
    obtain ⟨hpast, hpermits⟩ := permitted_concat hpermitted
    have hsound : (i.run past).pool.Sound := (h.run hpast).sound
    have hnow := hmem
    rw [run_concat] at hnow ⊢
    -- what was on the stack before goes on, with what has arrived
    have hgoes (hold : b ∈ (i.run past).pool.free)
        (hbytes : ((i.run past).pool.undergo event).bytes? b.toNat =
          ((i.run past).pool.bytes? b.toNat).map fun bytes =>
            Pool.written bytes (Pool.arrivals b [event])) :
        ∃ left later, i.GivenBack (past ++ [event]) b left later ∧
          ((i.run past).pool.undergo event).bytes? b.toNat =
            some (Pool.written (left.setFirstWord canary) (Pool.arrivals b later)) := by
      obtain ⟨left, later, hgiven, hleft⟩ := ih hpast hold
      refine ⟨left, later ++ [event], hgiven.concat hmem, ?_⟩
      rw [hbytes, hleft, Pool.arrivals_append, Pool.written_append]
      rfl
    rcases event with call | transfer
    · rcases Pool.mem_free_call hsound hpermits hnow with ⟨t, rfl, rfl, hcheck⟩ | ⟨hold, hbytes⟩
      · obtain ⟨-, -, -, hmarked⟩ := Pool.release_ok hcheck
        obtain ⟨hheld, -⟩ := Pool.check_eq_ok_iff.mp hcheck
        obtain ⟨block, hblock, -⟩ := Option.map_eq_some_iff.mp hheld
        have hleft : (i.run past).pool.bytes? t.id.toNat = some block.bytes := by
          rw [Pool.bytes?, hblock]
          rfl
        refine ⟨block.bytes, [], givenBack_now hcheck hleft, hmarked.trans ?_⟩
        rw [hleft]
        rfl
      · refine hgoes hold (hbytes.trans (Option.map_id' ..).symm)
    · exact hgoes hnow (Pool.bytes?_receive _ transfer b)

/-- A recycled block is clear in its first word. The rest is what was in it when it was
given back, with what has arrived from outside since written over. -/
theorem recycled_run {t : Token} (h : i.Balanced) (hintact : i.pool.Intact)
    (hempty : i.pool.free = []) (hpermitted : i.Permitted events)
    (hfree : (i.run events).pool.free ≠ []) (hok : (i.run events).pool.allocate.1 = .ok t) :
    ∃ left later bytes, i.GivenBack events t.id left later ∧
      (i.run events).pool.allocate.2.bytes? t.id.toNat = some bytes ∧ bytes.firstWord = 0 ∧
      bytes.toList.drop 8 =
        (Pool.written left (Pool.arrivals t.id later)).toList.drop 8 := by
  obtain ⟨b, rest, hstack⟩ := List.exists_cons_of_ne_nil hfree
  obtain ⟨rfl, hissued⟩ := Pool.bytes?_allocate hstack hok
  obtain ⟨left, later, hgiven, hbytes⟩ :=
    givenBack_of_mem_free h hempty hpermitted (hstack ▸ List.mem_cons_self ..)
  obtain ⟨past, -, -, -, -, hleft, -⟩ := id hgiven
  have hroom := le_size_bytes hintact hleft
  have hroom' := le_size_bytes hintact hbytes
  rw [hbytes] at hissued
  refine ⟨left, later, _, hgiven, hissued, Bytes.firstWord_setFirstWord _ 0 hroom', ?_⟩
  rw [Bytes.drop_toList_setFirstWord _ _ hroom']
  exact Pool.drop_toList_written (Bytes.size_setFirstWord ..)
    (Bytes.drop_toList_setFirstWord _ _ hroom) _

/-- **Damaged blocks are found and never come back.** Take a new pool through any calls and
any bytes that arrive in its blocks. Then at every point

* an allocation that takes a block off the free stack reports it, with the word that it
  found, exactly if the first word of the block is not the mark;
* one that reports a block has taken it off the top of the stack and left the states and
  bytes of all blocks and the statistics as they were;
* there is nothing to report if no bytes from outside have arrived in free blocks, whatever
  was written into the others;
* a block that some allocation of the run has reported is not issued, and no call that names
  it succeeds;
* a block that is recycled was given back in the run and has been on the free stack since.
  Its first word is zero, and all its other bytes are as they were when it was given back;
  bytes that have arrived in it from outside since, if any, are written over these, and
  nothing else is.
-/
theorem quarantined_run {serial : UInt32} {config : PoolConfig} {mappings : MappingAnswers}
    {pool : Pool}
    (hcreate : Pool.create serial config mappings = .ok pool) (events : List PoolEvent)
    (hpermitted : Permitted { pool } events) :
    let p := (run { pool } events).pool
    (∀ b rest, p.free = b :: rest → ∃ bytes, p.bytes? b.toNat = some bytes ∧
      ∀ w, p.allocate.1 = .error (.canaryMismatch b w canary) ↔
        bytes.firstWord = w ∧ w ≠ canary) ∧
    (∀ b w expected p', p.allocate = (.error (.canaryMismatch b w expected), p') →
      expected = canary ∧ p.free.head? = some b ∧ (∀ id, p'.state? id = p.state? id) ∧
        (∀ id, p'.bytes? id = p.bytes? id) ∧ p'.stats = p.stats) ∧
    (Avoiding { pool } events →
      ∀ b w expected, p.allocate.1 ≠ .error (.canaryMismatch b w expected)) ∧
    (∀ past later b w expected, events = past ++ .call .allocate :: later →
      (run { pool } past).pool.allocate.1 = .error (.canaryMismatch b w expected) → p.Barred b) ∧
    ∀ t, p.free ≠ [] → p.allocate.1 = .ok t →
      ∃ left later bytes, GivenBack { pool } events t.id left later ∧
        p.allocate.2.bytes? t.id.toNat = some bytes ∧ bytes.firstWord = 0 ∧
        bytes.toList.drop 8 =
          (Pool.written left (Pool.arrivals t.id later)).toList.drop 8 := by
  intro p
  have hbalanced : Balanced { pool } := balanced_create hcreate
  have hintact : pool.Intact := Pool.intact_create hcreate
  obtain ⟨-, -, hempty⟩ := Pool.sound_create hcreate
  refine ⟨?_, ?_, ?_, ?_, ?_⟩
  · intro b rest hfree
    exact Pool.allocate_mismatch_iff (hbalanced.run hpermitted).sound hfree
  · intro b w expected p' hmismatch
    obtain ⟨hexpected, rest, hfree, rfl⟩ := Pool.allocate_mismatch hmismatch
    exact ⟨hexpected, by simp [hfree], fun _ => rfl, fun _ => rfl, rfl⟩
  · intro havoiding b w expected hmismatch
    have hend : p.Intact := intact_run hintact hpermitted havoiding
    rcases hend.allocate_error (Prod.ext hmismatch rfl) with ⟨herr, -⟩ | ⟨err, -, herr, -⟩
    · cases herr
    · cases herr
  · intro past later b w expected hevents hmismatch
    have hend := hbalanced.run hpermitted
    -- the report put the block among the damaged ones, and no event takes it out
    have hb : b ∈ (run { pool } events).damaged := hevents ▸ mem_damaged_run hmismatch later
    obtain ⟨hstate, hoff⟩ := hend.quarantined hb
    exact Pool.barred_of_off_stack hend.sound hstate hoff
  · intro t hfree hok
    exact recycled_run hbalanced hintact hempty hpermitted hfree hok

/-- Bytes arrive in a block that is held, which does no harm, and in one that is free, which
is then reported. It is gone for good, and the other one is recycled. -/
theorem quarantined_after_damage :
    ∃ pool, Pool.create 7 { blockSize := 16, alignment := 8 } = .ok pool ∧
      let quiet : List PoolEvent :=
        [.call .allocate, .call .allocate, .receive ⟨Address.ofIndex 0, .zeros 16⟩,
          .call (.release ⟨0, 7⟩), .call (.release ⟨1, 7⟩)]
      let past := quiet ++ [.receive ⟨Address.ofIndex 1, .zeros 8⟩]
      let events := past ++ [.call .allocate]
      Permitted { pool } quiet ∧ Avoiding { pool } quiet ∧
        (∀ b w expected,
          (run { pool } quiet).pool.allocate.1 ≠ .error (.canaryMismatch b w expected)) ∧
        (run { pool } past).pool.allocate.1 = .error (.canaryMismatch 1 0 canary) ∧
        (run { pool } events).pool.Barred 1 ∧
        (run { pool } events).pool.allocate.1 = .ok ⟨0, 7⟩ ∧
        ∃ left later bytes, GivenBack { pool } events 0 left later ∧
          (run { pool } events).pool.allocate.2.bytes? 0 = some bytes ∧ bytes.firstWord = 0 ∧
          bytes.toList.drop 8 = (Pool.written left (Pool.arrivals 0 later)).toList.drop 8 := by
  let pool : Pool := { serial := 7, config := { blockSize := 16, alignment := 8 } }
  have hcreate : Pool.create 7 { blockSize := 16, alignment := 8 } = .ok pool := rfl
  refine ⟨pool, hcreate, ?_⟩
  intro quiet past events
  have hquiet : Permitted { pool } quiet := by decide +kernel
  have havoiding : Avoiding { pool } quiet := by decide +kernel
  have hevents : Permitted { pool } events := by decide +kernel
  have hmismatch : (run { pool } past).pool.allocate.1 = .error (.canaryMismatch 1 0 canary) := by
    decide +kernel
  have hfree : (run { pool } events).pool.free = [0] := by decide +kernel
  have hok : (run { pool } events).pool.allocate.1 = .ok ⟨0, 7⟩ := by decide +kernel
  obtain ⟨-, -, hnone, -⟩ := quarantined_run hcreate quiet hquiet
  obtain ⟨-, -, -, hbarred, hrecycled⟩ := quarantined_run hcreate events hevents
  exact ⟨hquiet, havoiding, hnone havoiding, hmismatch, hbarred past [] 1 0 canary rfl hmismatch,
    hok, hrecycled ⟨0, 7⟩ (by simp [hfree]) hok⟩

end Inventory

end RingRead
