import Mathlib.Algebra.Group.Nat.Defs
import Mathlib.Order.Basic
import RingRead.Pool.Lemmas

/-!
# Sound pools

What every operation of a pool keeps, whatever is written into its blocks from outside.

* **Moves.** `p.Moves ids s p'` says that `p'` is `p` after the blocks `ids` went to the
  state `s`; every other block keeps its state and its bytes. Each operation is one such
  move of at most one block (`Allocates.moves`, `moves_loan`, `moves_reclaim`,
  `moves_release`), and moves to one state compose (`Moves.trans`).
* **Soundness.** `p.Sound` says that the free stack names free blocks only, each once. It is
  what makes a popped block one that nobody else has.
* **Counting.** `count_loan` and `count_reclaim` say how the number of loaned blocks moves.
-/

namespace RingRead.Pool

variable {p p' p'' : Pool} {t : Token} {id : Nat} {ids ids' : List Nat} {s : BlockState}

/-! ## Moves

Most operations of a pool send one block from one state to another, and a batch sends
several. What is interesting is the same each time: where these blocks are now, and that
nothing happened to any other. -/

/-- `p'` is `p` after the blocks `ids` went to the state `s`. The bytes of these blocks are
left open: a mark may have been set or cleared on the way. -/
structure Moves (p : Pool) (ids : List Nat) (s : BlockState) (p' : Pool) : Prop where
  state_of_mem : ∀ id ∈ ids, p'.state? id = some s
  state_of_not_mem : ∀ id ∉ ids, p'.state? id = p.state? id
  bytes_of_not_mem : ∀ id ∉ ids, p'.bytes? id = p.bytes? id
  serial_eq : p'.serial = p.serial
  config_eq : p'.config = p.config

/-- Nothing has moved. This is where a batch starts. -/
theorem Moves.refl (p : Pool) (s : BlockState) : p.Moves [] s p :=
  ⟨by simp, fun _ _ => rfl, fun _ _ => rfl, rfl, rfl⟩

/-- Two moves to the same state are one move of all the blocks. A batch is made of moves by
this. -/
theorem Moves.trans (h : p.Moves ids s p') (h' : p'.Moves ids' s p'') :
    p.Moves (ids ++ ids') s p'' := by
  refine ⟨?_, ?_, ?_, h'.serial_eq.trans h.serial_eq, h'.config_eq.trans h.config_eq⟩
  · intro id hid
    by_cases hmem : id ∈ ids'
    · exact h'.state_of_mem id hmem
    · rw [h'.state_of_not_mem id hmem]
      exact h.state_of_mem id ((List.mem_append.mp hid).resolve_right hmem)
  · intro id hid
    obtain ⟨hids, hids'⟩ := not_or.mp (mt List.mem_append.mpr hid)
    exact (h'.state_of_not_mem id hids').trans (h.state_of_not_mem id hids)
  · intro id hid
    obtain ⟨hids, hids'⟩ := not_or.mp (mt List.mem_append.mpr hid)
    exact (h'.bytes_of_not_mem id hids').trans (h.bytes_of_not_mem id hids)

/-- A second move of the same block forgets the first one, as when a block is allocated and
lent at once. -/
theorem Moves.again {s' : BlockState} (h : p.Moves ids s' p') (h' : p'.Moves ids s p'') :
    p.Moves ids s p'' :=
  ⟨h'.state_of_mem, fun id hid => (h'.state_of_not_mem id hid).trans (h.state_of_not_mem id hid),
    fun id hid => (h'.bytes_of_not_mem id hid).trans (h.bytes_of_not_mem id hid),
    h'.serial_eq.trans h.serial_eq, h'.config_eq.trans h.config_eq⟩

/-- A block that is in another state than the one moved to was not moved. It has its old
state and bytes then. -/
theorem Moves.not_mem_of_state {s' : BlockState} (h : p.Moves ids s p') (hs : s' ≠ s)
    (hstate : p'.state? id = some s') : id ∉ ids := by
  intro hid
  have hmoved := h.state_of_mem id hid
  rw [hstate] at hmoved
  exact hs (Option.some.inj hmoved)

/-- Changing one block moves it to the state that the change gives it. All operations but
the making of a new block change blocks in this way. -/
theorem moves_modify (h : (p.state? id).isSome) (change : Block → Block)
    (hchange : ∀ b, (change b).state = s) : p.Moves [id] s (p.modify id change) := by
  refine ⟨?_, ?_, ?_, rfl, rfl⟩
  · intro other hother
    obtain rfl := List.mem_singleton.mp hother
    obtain ⟨b, hb, -⟩ := Option.map_eq_some_iff.mp (Option.some_get h).symm
    rw [state?_modify_self, hb, Option.map_some, hchange]
  · exact fun other hother => state?_modify_ne p change (by simpa using hother)
  · exact fun other hother => bytes?_modify_ne p change (by simpa using hother)

/-- Tokens depend on the pool through its serial alone, so a token stays what it is while
the pool goes on. -/
theorem issue_of_serial_eq (h : p'.serial = p.serial) (id : UInt32) : p'.issue id = p.issue id := by
  rw [issue, issue, h]

theorem moves_loan (h : (p.state? t.id.toNat).isSome) :
    p.Moves [t.id.toNat] .loaned (p.loan t).2 :=
  moves_modify h _ fun _ => rfl

theorem moves_reclaim {tag : UInt64} (h : p.state? tag.toNat = some .loaned) :
    p.Moves [tag.toNat] .held (p.reclaim tag).2 := by
  rw [reclaim, if_pos h]
  exact moves_modify (by rw [h]; rfl) _ fun _ => rfl

theorem moves_release (h : p.check t = .ok ()) :
    p.Moves [t.id.toNat] .free (p.release t).2 := by
  have hheld := (check_eq_ok_iff.mp h).1
  have hmoves : p.Moves [t.id.toNat] .free (p.modify t.id.toNat fun b =>
      { b with state := .free, bytes := b.bytes.setFirstWord canary }) :=
    moves_modify (by rw [hheld]; rfl) _ fun _ => rfl
  simp only [release, h]
  exact ⟨hmoves.state_of_mem, hmoves.state_of_not_mem, hmoves.bytes_of_not_mem, rfl, rfl⟩

theorem size_reclaim {tag : UInt64} (h : p.state? tag.toNat = some .loaned) :
    (p.reclaim tag).2.size = p.size := by
  rw [reclaim, if_pos h]
  exact size_modify ..

theorem size_release (h : p.check t = .ok ()) : (p.release t).2.size = p.size := by
  simp only [release, h]
  exact size_modify ..

/-! ## Counting

The number of blocks on loan is compared with the number of reads in flight later on. So
each operation is asked how it moves that number. -/

/-- There is nothing to change in a block that the pool does not have. So bytes that arrive
behind the last block are lost. -/
theorem modify_of_none {change : Block → Block} (h : p.blocks[id]? = none) :
    p.modify id change = p := by
  have hsame : p.blocks.modify id change = p.blocks := by
    apply Array.ext_getElem?
    intro i
    rw [Array.getElem?_modify]
    split
    · next heq => subst heq; rw [h]; rfl
    · rfl
  rw [modify, hsame]

/-- Changing one block takes it out of the count of its old state and into that of its new
one. The equation has sums on both sides, as the two states may be the same. -/
theorem count_modify {b : Block} (h : p.blocks[id]? = some b) (change : Block → Block)
    (s : BlockState) :
    (p.modify id change).count s + (if b.state = s then 1 else 0) =
      p.count s + (if (change b).state = s then 1 else 0) := by
  obtain ⟨hlt, rfl⟩ := Array.getElem?_eq_some_iff.mp h
  have hset : p.blocks.modify id change = p.blocks.set id (change p.blocks[id]) hlt := by
    apply Array.ext_getElem?
    intro i
    rw [Array.getElem?_modify, Array.getElem?_set]
    split
    · next heq => subst heq; simp [h]
    · rfl
  have hle := Array.boole_getElem_le_countP (p := fun b => decide (b.state = s)) hlt
  simp only [count, modify, hset, Array.countP_set, decide_eq_true_eq] at hle ⊢
  omega

/-- A block that goes on loan is counted there. -/
theorem count_loan (h : p.state? t.id.toNat = some .held) :
    (p.loan t).2.count .loaned = p.count .loaned + 1 := by
  obtain ⟨b, hb, hstate⟩ := Option.map_eq_some_iff.mp h
  simpa [loan, hstate] using count_modify hb (fun b => { b with state := .loaned }) .loaned

/-- A block that comes back from loan is no longer counted there. -/
theorem count_reclaim {tag : UInt64} (h : p.state? tag.toNat = some .loaned) :
    (p.reclaim tag).2.count .loaned + 1 = p.count .loaned := by
  obtain ⟨b, hb, hstate⟩ := Option.map_eq_some_iff.mp h
  rw [reclaim, if_pos h]
  simpa [hstate] using count_modify hb (fun b => { b with state := .held }) .loaned

/-- Giving a block back does not touch the loaned ones: it was held before and is free
now. -/
theorem count_release (h : p.check t = .ok ()) :
    (p.release t).2.count .loaned = p.count .loaned := by
  obtain ⟨b, hb, hstate⟩ := Option.map_eq_some_iff.mp (check_eq_ok_iff.mp h).1
  have hcount := count_modify hb
    (fun b => { b with state := .free, bytes := b.bytes.setFirstWord canary }) .loaned
  simp only [release, h]
  simpa [hstate, count] using hcount

theorem receiveAll_append (p : Pool) (transfers transfers' : List Transfer) :
    p.receiveAll (transfers ++ transfers') = (p.receiveAll transfers).receiveAll transfers' :=
  List.foldl_append

/-- Bytes from outside change no count, wherever they arrive. -/
theorem count_receive (p : Pool) (transfer : Transfer) (s : BlockState) :
    (p.receive transfer).count s = p.count s := by
  cases hb : p.blocks[Address.index transfer.address]? with
  | none => rw [receive, modify_of_none hb]
  | some b =>
    have hcount := count_modify hb (fun b =>
      { b with bytes := b.bytes.overwrite (Address.offset transfer.address) transfer.piece }) s
    exact Nat.add_right_cancel hcount

@[simp] theorem count_receiveAll (p : Pool) (transfers : List Transfer) (s : BlockState) :
    (p.receiveAll transfers).count s = p.count s := by
  induction transfers generalizing p with
  | nil => rfl
  | cons transfer rest ih => exact (ih (p.receive transfer)).trans (count_receive p transfer s)

/-! ## Soundness

The free stack is a list of numbers, and nothing in its type keeps it from naming a block
twice or one that somebody holds. That it does not is an invariant. It mentions states and
numbers only, so bytes that arrive from outside cannot break it. -/

/-- The free stack names free blocks, each once, and block numbers fit into 32 bits. Nothing
is said of free blocks that are not on the stack: a damaged one is left off it. -/
structure Sound (p : Pool) : Prop where
  nodup_free : p.free.Nodup
  state_free : ∀ id ∈ p.free, p.state? id.toNat = some .free
  size_le : p.size ≤ UInt32.size

/-- An empty pool is sound. It has no blocks and nothing on its stack. -/
theorem sound_create {serial : UInt32} {config : PoolConfig} {mappings : MappingAnswers}
    (h : create serial config mappings = .ok p) : p.Sound ∧ p.size = 0 ∧ p.free = [] := by
  obtain ⟨-, rfl⟩ := create_ok h
  exact ⟨⟨List.nodup_nil, by simp, by simp [size]⟩, rfl, rfl⟩

/-- A new pool has the settings that it was created with. No operation changes them
later. -/
theorem config_create {serial : UInt32} {config : PoolConfig}
    {mappings : MappingAnswers} (h : create serial config mappings = .ok p) :
    p.config = config := by
  obtain ⟨-, rfl⟩ := create_ok h
  rfl

/-- A new pool has asked the system for nothing yet, so all the answers are still to
come. -/
theorem mappings_create {serial : UInt32} {config : PoolConfig}
    {mappings : MappingAnswers} (h : create serial config mappings = .ok p) :
    p.mappings = mappings := by
  obtain ⟨-, rfl⟩ := create_ok h
  rfl

/-- Where the states did not change and no block was made, a part of the free stack is
sound. This covers the allocation that takes a damaged block off. -/
theorem Sound.of_state_eq (h : p.Sound) (hfree : p'.free.Sublist p.free)
    (hstate : ∀ id, p'.state? id = p.state? id) (hsize : p'.size = p.size) : p'.Sound :=
  ⟨h.nodup_free.sublist hfree, fun id hid => (hstate _).trans (h.state_free id (hfree.subset hid)),
    hsize ▸ h.size_le⟩

theorem Sound.receiveAll (h : p.Sound) (transfers : List Transfer) :
    (p.receiveAll transfers).Sound := by
  induction transfers generalizing p with
  | nil => exact h
  | cons transfer rest ih =>
    exact ih (h.of_state_eq (List.Sublist.refl _) (state?_receive p transfer)
      (size_receive p transfer))

/-- Changing a block that is not on the free stack keeps a pool sound, whatever is changed
about it. -/
theorem Sound.modify (h : p.Sound) (hid : ∀ n ∈ p.free, n.toNat ≠ id) (change : Block → Block) :
    (p.modify id change).Sound :=
  ⟨h.nodup_free, fun n hn => (state?_modify_ne p change (hid n hn)).trans (h.state_free n hn),
    (size_modify ..).trans_le h.size_le⟩

/-- A block in another state than free is not on the free stack. So a held or loaned block
can be changed safely. -/
theorem Sound.ne_of_mem_free (h : p.Sound) (hs : s ≠ .free) (hstate : p.state? id = some s) :
    ∀ n ∈ p.free, n.toNat ≠ id := by
  rintro n hn rfl
  rw [h.state_free n hn] at hstate
  exact hs (Option.some.inj hstate).symm

/-- The tag of a block that the pool has is a 32-bit number. A tag has 64 bits, and the
token that is made of it has room for 32. -/
theorem Sound.toNat_toUInt32 {tag : UInt64} (h : p.Sound) (hstate : p.state? tag.toNat = some s) :
    tag.toUInt32.toNat = tag.toNat := by
  have hlt : tag.toNat < p.size := state?_isSome_iff.mp (by rw [hstate]; rfl)
  rw [UInt64.toNat_toUInt32]
  exact Nat.mod_eq_of_lt (Nat.lt_of_lt_of_le hlt h.size_le)

theorem Sound.loan (h : p.Sound) (hheld : p.state? t.id.toNat = some .held) :
    (p.loan t).2.Sound :=
  h.modify (h.ne_of_mem_free (by decide) hheld) _

theorem Sound.reclaim {tag : UInt64} (h : p.Sound) (hloaned : p.state? tag.toNat = some .loaned) :
    (p.reclaim tag).2.Sound := by
  rw [Pool.reclaim, if_pos hloaned]
  exact h.modify (h.ne_of_mem_free (by decide) hloaned) _

/-- A block that is released was held, so it was not on the stack already. This is what the
check of the token is for. -/
theorem Sound.release (h : p.Sound) (hcheck : p.check t = .ok ()) : (p.release t).2.Sound := by
  obtain ⟨-, hfree, -, -⟩ := release_ok hcheck
  have hmoves := moves_release hcheck
  have hnot : t.id ∉ p.free := fun hmem =>
    h.ne_of_mem_free (by decide) (check_eq_ok_iff.mp hcheck).1 t.id hmem rfl
  refine ⟨hfree ▸ List.nodup_cons.mpr ⟨hnot, h.nodup_free⟩, ?_, ?_⟩
  · intro id hid
    rw [hfree] at hid
    by_cases heq : id = t.id
    · exact heq ▸ hmoves.state_of_mem _ (List.mem_singleton.mpr rfl)
    · have hne : id.toNat ∉ [t.id.toNat] := by
        simpa [UInt32.toNat_inj] using heq
      exact (hmoves.state_of_not_mem _ hne).trans
        (h.state_free id ((List.mem_cons.mp hid).resolve_left heq))
  · exact (size_release hcheck).trans_le h.size_le

/-! ## Allocation

An allocation has five ways to end, two good ones and three bad ones. Two lemmas make two
descriptions of them, one for each kind, and nothing after them opens the definition
again. -/

theorem state?_push_of_ne {b : Block} (hid : id ≠ p.size) :
    ({ p with blocks := p.blocks.push b } : Pool).state? id = p.state? id := by
  simp only [state?, Array.getElem?_push]
  rw [if_neg (show id ≠ p.blocks.size from hid)]

theorem bytes?_push_of_ne {b : Block} (hid : id ≠ p.size) :
    ({ p with blocks := p.blocks.push b } : Pool).bytes? id = p.bytes? id := by
  simp only [bytes?, Array.getElem?_push]
  rw [if_neg (show id ≠ p.blocks.size from hid)]

theorem state?_size (p : Pool) : p.state? p.size = none := by
  simp [state?, size]

/-- The token that an allocation gives is for the block on top of the free stack, or for a
new block if the stack is empty. It was in nobody's hands, and now it is held. This is all
that later proofs need to know of an allocation that succeeds. -/
structure Allocates (p : Pool) (t : Token) (p' : Pool) : Prop where
  moves : p.Moves [t.id.toNat] .held p'
  idle : p.state? t.id.toNat = some .free ∨ p.state? t.id.toNat = none
  sound : p'.Sound
  pool_eq : t.pool = p.serial
  count_eq : p'.count .loaned = p.count .loaned
  origin : (p.free = t.id :: p'.free ∧ p'.size = p.size) ∨
    (p.free = [] ∧ p'.free = [] ∧ t.id.toNat = p.size ∧ p'.size = p.size + 1)
  /-- The system is asked for the memory of a new block alone, and does not refuse it. -/
  mapped : (p.free ≠ [] ∧ p'.mappings = p.mappings) ∨
    (p.free = [] ∧ p.refusal? = none ∧ p'.mappings = p.mappings.tail)

/-- The block that was allocated is held until its token is used. -/
theorem Allocates.held (h : p.Allocates t p') : p'.state? t.id.toNat = some .held :=
  h.moves.state_of_mem _ (List.mem_singleton.mpr rfl)

/-- So it can go on loan at once, which is what a batch does with every block. -/
theorem Allocates.sound_loan (h : p.Allocates t p') : (p'.loan t).2.Sound :=
  h.sound.loan h.held

/-- A refusal changes nothing but that the answer of the system is used up: the next
allocation gets the next answer. -/
theorem Sound.refused (h : p.Sound) : p.refused.Sound :=
  ⟨h.nodup_free, h.state_free, h.size_le⟩

/-- A new block gets the number that follows all others, and the system has mapped it. The
free stack was empty and stays so. -/
theorem allocates_fresh (h : p.Sound) (hfree : p.free = []) (hsize : p.size < UInt32.size)
    (hmapped : p.refusal? = none) : p.Allocates (p.issue (UInt32.ofNat p.size)) p.grown := by
  have hid : (UInt32.ofNat p.size).toNat = p.size := UInt32.toNat_ofNat_of_lt' hsize
  have hnone : p.state? (p.issue (UInt32.ofNat p.size)).id.toNat = none :=
    (congrArg p.state? hid).trans (state?_size p)
  refine ⟨⟨?_, ?_, ?_, rfl, rfl⟩, Or.inr hnone, ⟨?_, ?_, ?_⟩, rfl, ?_,
    Or.inr ⟨hfree, hfree, hid, ?_⟩, Or.inr ⟨hfree, hmapped, rfl⟩⟩
  · intro id hmem
    obtain rfl := List.mem_singleton.mp hmem
    rw [show (p.issue (UInt32.ofNat p.size)).id.toNat = p.size from hid]
    simp [state?, size, grown]
  · exact fun id hmem => state?_push_of_ne (by simpa [issue, hid] using hmem)
  · exact fun id hmem => bytes?_push_of_ne (by simpa [issue, hid] using hmem)
  · exact h.nodup_free
  · simp [grown, refused, hfree]
  · exact (Array.size_push ..).trans_le hsize
  · simp [count, grown]
  · exact Array.size_push ..

/-- A block from the top of the stack was free and is held. It was on the stack once only,
so what is left of the stack does not name it. -/
theorem allocates_recycled {n : UInt32} {rest : List UInt32} (h : p.Sound)
    (hfree : p.free = n :: rest) (hmark : p.firstWord n.toNat = canary) :
    p.Allocates (p.issue n) p.allocate.2 := by
  have hpopped : ({ p with free := rest } : Pool).Sound :=
    h.of_state_eq (hfree ▸ List.sublist_cons_self n rest) (fun _ => rfl) rfl
  have hstate : p.state? n.toNat = some .free := h.state_free n (by simp [hfree])
  have hnot : n ∉ rest := (List.nodup_cons.mp (hfree ▸ h.nodup_free)).1
  obtain ⟨b, hb, hbstate⟩ := Option.map_eq_some_iff.mp hstate
  let reuse (b : Block) : Block := { b with state := .held, bytes := b.bytes.setFirstWord 0 }
  -- a block that was free and is held: the number on loan is the same
  have hcount := count_modify hb reuse .loaned
  have hmoves : p.Moves [n.toNat] .held (p.modify n.toNat reuse) :=
    moves_modify (by rw [hstate]; rfl) reuse fun _ => rfl
  have hsound : (({ p with free := rest } : Pool).modify n.toNat reuse).Sound := by
    refine hpopped.modify (fun m hm heq => ?_) reuse
    obtain rfl : m = n := UInt32.toNat_inj.mp heq
    exact hnot hm
  rw [allocate_marked hfree hmark]
  refine ⟨⟨hmoves.state_of_mem, hmoves.state_of_not_mem, hmoves.bytes_of_not_mem, rfl, rfl⟩,
    Or.inl hstate, ⟨hsound.nodup_free, hsound.state_free, hsound.size_le⟩, rfl, ?_,
    Or.inl ⟨hfree, ?_⟩, Or.inl ⟨by simp [hfree], rfl⟩⟩
  · simpa [hbstate, count, Pool.modify] using hcount
  · exact size_modify ..

/-- What a successful allocation does. The two ways to succeed, with a new block and with a
recycled one, are put together here and told apart by `origin` alone. -/
theorem allocates_of_ok (h : p.Sound) (hok : p.allocate = (.ok t, p')) : p.Allocates t p' := by
  cases hfree : p.free with
  | nil =>
    rw [allocate_empty hfree] at hok
    rcases p.allocateFresh_cases with
      ⟨hsize, hmapped, hfresh⟩ | ⟨err, -, -, hfresh⟩ | ⟨-, hfresh⟩
    all_goals
      rw [hfresh] at hok
      cases hok
    exact allocates_fresh h hfree hsize hmapped
  | cons n rest =>
    by_cases hmark : p.firstWord n.toNat = canary
    · have hrecycled := allocates_recycled h hfree hmark
      obtain ⟨ht, -, -⟩ := allocate_sound hfree hmark
      rw [hok] at ht hrecycled
      obtain rfl := Except.ok.inj ht
      exact hrecycled
    · rw [allocate_damaged hfree hmark] at hok
      cases hok

/-- How an allocation can fail: there is no number left for a new block, or the system
refuses to map its memory, or the block on top of the free stack has lost its mark. The last
one takes the block off the stack. -/
theorem allocate_error_cases {e : Error} (h : p.allocate = (.error e, p')) :
    (p.free = [] ∧ UInt32.size ≤ p.size ∧ e = .poolExhausted p.size ∧ p' = p) ∨
      (∃ err, p.free = [] ∧ p.size < UInt32.size ∧ p.refusal? = some err ∧ e = .alloc err ∧
        p' = p.refused) ∨
      ∃ n rest, p.free = n :: rest ∧ p.firstWord n.toNat ≠ canary ∧
        e = .canaryMismatch n (p.firstWord n.toNat) canary ∧ p' = { p with free := rest } := by
  cases hfree : p.free with
  | nil =>
    rw [allocate_empty hfree] at h
    rcases p.allocateFresh_cases with
      ⟨-, -, hfresh⟩ | ⟨err, hsize, hrefusal, hfresh⟩ | ⟨hsize, hfresh⟩
    all_goals
      rw [hfresh] at h
      cases h
    · exact Or.inr (Or.inl ⟨err, rfl, hsize, hrefusal, rfl, rfl⟩)
    · exact Or.inl ⟨rfl, hsize, rfl, rfl⟩
  | cons n rest =>
    by_cases hmark : p.firstWord n.toNat = canary
    · obtain ⟨hok, -, -⟩ := allocate_sound hfree hmark
      rw [h] at hok
      cases hok
    · rw [allocate_damaged hfree hmark] at h
      cases h
      exact Or.inr (Or.inr ⟨n, rest, rfl, hmark, rfl, rfl⟩)

end RingRead.Pool
