import RingRead.Pool.Basic

/-!
# Pools through their views

A pool is looked at through `state?` and `bytes?`, which tell for a block number where the
block is and what it holds. The lemmas say what each operation does to these views.

* **Frame.** `state?_modify_ne` and `bytes?_modify_ne`: changing one block leaves all others
  alone. Bytes that arrive from outside change no state, no size and no counter.
* **Outcomes.** One lemma for each way in which a call can end: `create_ok`,
  `check_eq_ok_iff`, `allocate_empty` with `allocateFresh_cases`, `allocate_marked`,
  `allocate_damaged`, `release_ok`, `release_error`, `loan_ok`, `reclaim_loaned`,
  `reclaim_unknown`.
-/

namespace RingRead.Pool

variable {p : Pool} {t : Token} {id other : Nat} {err : Error}

/-! ## Creating a pool

The configuration is looked at once and for all. What a new pool is comes from here, and no
proof after this one opens the definition. -/

/-- A pool that is created has a valid configuration, and no blocks. -/
theorem create_ok {serial : UInt32} {config : PoolConfig} {mappings : MappingAnswers}
    (h : create serial config mappings = .ok p) :
    config.fault? = none ∧ p = { serial, config, mappings } := by
  rw [create] at h
  split at h
  · cases h
  · next hvalid =>
    cases h
    exact ⟨hvalid, rfl⟩

/-! ## Changing one block

What is seen of the changed block is what the change has made of it, and all other blocks
are seen as before. -/

@[simp] theorem size_modify (p : Pool) (id : Nat) (change : Block → Block) :
    (p.modify id change).size = p.size := by
  simp [modify, size]

theorem state?_modify_self (p : Pool) (id : Nat) (change : Block → Block) :
    (p.modify id change).state? id = p.blocks[id]?.map fun b => (change b).state := by
  simp [modify, state?, Array.getElem?_modify, Function.comp_def]

/-- Changing one block does not change the state of another. -/
theorem state?_modify_ne (p : Pool) (change : Block → Block) (h : other ≠ id) :
    (p.modify id change).state? other = p.state? other := by
  simp [modify, state?, Array.getElem?_modify, h.symm]

theorem bytes?_modify_self (p : Pool) (id : Nat) (change : Block → Block) :
    (p.modify id change).bytes? id = p.blocks[id]?.map fun b => (change b).bytes := by
  simp [modify, bytes?, Array.getElem?_modify, Function.comp_def]

/-- Nor its bytes. -/
theorem bytes?_modify_ne (p : Pool) (change : Block → Block) (h : other ≠ id) :
    (p.modify id change).bytes? other = p.bytes? other := by
  simp [modify, bytes?, Array.getElem?_modify, h.symm]

/-- A change that keeps the state of a block keeps the state of every block. -/
theorem state?_modify_of_state_eq (p : Pool) (id other : Nat) {change : Block → Block}
    (h : ∀ b, (change b).state = b.state) : (p.modify id change).state? other = p.state? other := by
  by_cases ho : other = id
  · subst ho
    rw [state?_modify_self, state?]
    simp only [h]
  · exact state?_modify_ne p change ho

/-- A change that keeps the bytes of a block keeps the bytes of every block. -/
theorem bytes?_modify_of_bytes_eq (p : Pool) (id other : Nat) {change : Block → Block}
    (h : ∀ b, (change b).bytes = b.bytes) : (p.modify id change).bytes? other = p.bytes? other := by
  by_cases ho : other = id
  · subst ho
    rw [bytes?_modify_self, bytes?]
    simp only [h]
  · exact bytes?_modify_ne p change ho

/-- A block is in the table exactly when its state can be asked for. -/
theorem state?_isSome_iff : (p.state? id).isSome ↔ id < p.size := by
  simp [state?, size]

/-- Every block of the pool has bytes. -/
theorem exists_bytes (h : id < p.size) : ∃ bytes, p.bytes? id = some bytes :=
  ⟨_, congrArg (Option.map Block.bytes) (Array.getElem?_eq_getElem h)⟩

/-! ## Bytes from outside

A transfer changes the bytes of one block at most. Everything else about a pool is as it
was, which is what most proofs need of it. -/

@[simp] theorem state?_receive (p : Pool) (transfer : Transfer) (id : Nat) :
    (p.receive transfer).state? id = p.state? id :=
  state?_modify_of_state_eq p _ _ fun _ => rfl

@[simp] theorem size_receive (p : Pool) (transfer : Transfer) :
    (p.receive transfer).size = p.size :=
  size_modify ..

@[simp] theorem free_receive (p : Pool) (transfer : Transfer) :
    (p.receive transfer).free = p.free :=
  rfl

@[simp] theorem stats_receive (p : Pool) (transfer : Transfer) :
    (p.receive transfer).stats = p.stats :=
  rfl

@[simp] theorem state?_receiveAll (p : Pool) (transfers : List Transfer) (id : Nat) :
    (p.receiveAll transfers).state? id = p.state? id := by
  induction transfers generalizing p with
  | nil => rfl
  | cons transfer rest ih => exact (ih (p.receive transfer)).trans (state?_receive p transfer id)

/-! ## Tokens

A call with a token answers as the check of the token does. What it changes, if the check
succeeds, depends on the call. -/

/-- A token gives a right exactly to a held block of the pool that issued it. -/
theorem check_eq_ok_iff :
    p.check t = .ok () ↔ p.state? t.id.toNat = some .held ∧ t.pool = p.serial := by
  rw [check]
  cases h : p.state? t.id.toNat with
  | none => simp
  | some state =>
    by_cases hs : t.pool = p.serial <;> by_cases hh : state = .held <;> simp [hs, hh]

/-- A token that gives a right names a block of the pool. -/
theorem lt_size_of_check (h : p.check t = .ok ()) : t.id.toNat < p.size := by
  obtain ⟨hheld, -⟩ := check_eq_ok_iff.mp h
  exact state?_isSome_iff.mp (by rw [hheld]; rfl)

/-- Whatever a token is used for, it is checked first, and the answer is that of the
check. -/
theorem release_answer (p : Pool) (t : Token) : (p.release t).1 = p.check t := by
  rw [release]
  rcases p.check t with err | _
  · rfl
  · rfl

@[inherit_doc release_answer]
theorem write_answer (p : Pool) (t : Token) (start : Nat) (piece : Bytes) :
    (p.write t start piece).1 = p.check t := by
  rw [write]
  rcases p.check t with err | _
  · rfl
  · rfl

@[inherit_doc release_answer]
theorem data_answer (p : Pool) (t : Token) :
    p.data t = (p.check t).map fun _ => (p.bytes? t.id.toNat).getD (Bytes.zeros 0) := by
  rw [data]
  rcases p.check t with err | _
  · rfl
  · rfl

/-- Reading fails just as the check does, and with the same error. -/
theorem data_error_iff : p.data t = .error err ↔ p.check t = .error err := by
  rw [data_answer]
  rcases p.check t with err' | _
  · simp [Except.map]
  · simp [Except.map]

theorem data_ok_iff : (∃ bytes, p.data t = .ok bytes) ↔ p.check t = .ok () := by
  rw [data_answer]
  rcases p.check t with err | _
  · simp [Except.map]
  · simp [Except.map]

/-- Giving back a block that the token has no right to does nothing. -/
theorem release_error {e : Error} (h : p.check t = .error e) : p.release t = (.error e, p) := by
  simp [release, h]

/-- A block that is given back is free, carries the mark, and is on top of the stack. -/
theorem release_ok (h : p.check t = .ok ()) :
    (p.release t).1 = .ok () ∧ (p.release t).2.free = t.id :: p.free ∧
      (p.release t).2.state? t.id.toNat = some .free ∧
      (p.release t).2.bytes? t.id.toNat = (p.bytes? t.id.toNat).map (·.setFirstWord canary) := by
  obtain ⟨hheld, -⟩ := check_eq_ok_iff.mp h
  obtain ⟨b, hb, -⟩ := Option.map_eq_some_iff.mp hheld
  simp only [release, h]
  refine ⟨trivial, rfl, ?_, ?_⟩
  · exact (state?_modify_self p t.id.toNat _).trans (by rw [hb]; rfl)
  · exact (bytes?_modify_self p t.id.toNat _).trans (by rw [bytes?, hb]; rfl)

/-! ## Allocation

One lemma for each way in which an allocation can end: a new block, or one of three reasons
that there is none, or a block from the stack with its mark or without. -/

/-- With an empty stack a new block is made. -/
theorem allocate_empty (h : p.free = []) : p.allocate = p.allocateFresh := by
  simp [allocate, h]

/-- A new block is made if there is a number for it and the system maps its memory. -/
theorem allocateFresh_cases (p : Pool) :
    (p.size < UInt32.size ∧ p.refusal? = none ∧
        p.allocateFresh = (.ok (p.issue (UInt32.ofNat p.size)), p.grown)) ∨
      (∃ err, p.size < UInt32.size ∧ p.refusal? = some err ∧
        p.allocateFresh = (.error (.alloc err), p.refused)) ∨
      UInt32.size ≤ p.size ∧ p.allocateFresh = (.error (.poolExhausted p.size), p) := by
  rw [allocateFresh]
  by_cases hsize : p.size < UInt32.size
  · rw [if_pos hsize]
    rcases hrefusal : p.refusal? with _ | err
    · exact Or.inl ⟨hsize, rfl, rfl⟩
    · exact Or.inr (Or.inl ⟨err, hsize, rfl, rfl⟩)
  · exact Or.inr (Or.inr ⟨Nat.le_of_not_lt hsize, if_neg hsize⟩)

/-- What is left in memory when a block with its mark is taken off the free stack. The
equation is in full, with the statistics, so that pools can be compared as wholes. -/
theorem allocate_marked {head : UInt32} {rest : List UInt32} (h : p.free = head :: rest)
    (hmark : p.firstWord head.toNat = canary) :
    p.allocate = (.ok (p.issue head),
      { p.modify head.toNat fun b => { b with state := .held, bytes := b.bytes.setFirstWord 0 } with
        free := rest, stats := p.stats.recordRecycled }) := by
  have hmark' : ({ p with free := rest } : Pool).firstWord head.toNat = canary := hmark
  rw [allocate]
  rw [h]
  simp only [hmark', if_true]
  rfl

/-- A block with the mark is taken off the stack; its first word is cleared. -/
theorem allocate_sound {head : UInt32} {rest : List UInt32} (h : p.free = head :: rest)
    (hmark : p.firstWord head.toNat = canary) :
    p.allocate.1 = .ok (p.issue head) ∧ p.allocate.2.free = rest ∧
      p.allocate.2.stats = p.stats.recordRecycled := by
  rw [allocate_marked h hmark]
  exact ⟨rfl, rfl, rfl⟩

/-- A block without the mark is reported and stays off the stack; nothing else changes. -/
theorem allocate_damaged {head : UInt32} {rest : List UInt32} (h : p.free = head :: rest)
    (hmark : p.firstWord head.toNat ≠ canary) :
    p.allocate =
      (.error (.canaryMismatch head (p.firstWord head.toNat) canary), { p with free := rest }) := by
  have hmark' : ({ p with free := rest } : Pool).firstWord head.toNat ≠ canary := hmark
  rw [allocate]
  rw [h]
  simp only [hmark', if_false]
  rfl

/-! ## Loans

A loan changes the state of its block and nothing else, and so does the way back. -/

/-- A block that is handed to the kernel is on loan, with its bytes as they were. -/
theorem loan_ok {s : BlockState} (h : p.state? t.id.toNat = some s) :
    (p.loan t).2.state? t.id.toNat = some .loaned ∧
      (p.loan t).2.bytes? t.id.toNat = p.bytes? t.id.toNat := by
  obtain ⟨b, hb, -⟩ := Option.map_eq_some_iff.mp h
  constructor
  · exact (state?_modify_self p t.id.toNat _).trans (by rw [hb]; rfl)
  · exact (bytes?_modify_self p t.id.toNat _).trans rfl

/-- A tag that is the number of a loaned block brings the block back. -/
theorem reclaim_loaned {tag : UInt64} (h : p.state? tag.toNat = some .loaned) :
    (p.reclaim tag).1 = .ok (p.issue tag.toUInt32) ∧
      (p.reclaim tag).2.state? tag.toNat = some .held ∧
      (p.reclaim tag).2.bytes? tag.toNat = p.bytes? tag.toNat := by
  obtain ⟨b, hb, -⟩ := Option.map_eq_some_iff.mp h
  simp only [reclaim, h, if_true]
  refine ⟨trivial, ?_, ?_⟩
  · exact (state?_modify_self p tag.toNat _).trans (by rw [hb]; rfl)
  · exact (bytes?_modify_self p tag.toNat _).trans rfl

/-- Any other tag is unknown, and nothing changes. -/
theorem reclaim_unknown {tag : UInt64} (h : p.state? tag.toNat ≠ some .loaned) :
    p.reclaim tag = (.error (.unknownTag tag), p) := by
  simp [reclaim, h]

end RingRead.Pool
