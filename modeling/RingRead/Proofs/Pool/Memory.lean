import RingRead.Proofs.Pool.Interleaving
import RingRead.Proofs.Pool.Isolation
import RingRead.Proofs.Pool.Quarantine

/-!
# Blocks in memory

A block of a pool keeps its length whatever is written into it: what would lie past its end
is dropped. Memory itself drops nothing. Here the blocks of a pool lie in one memory, each
at the address of its segment, and what happens to a pool is accesses at addresses, each to
so many bytes as it says. An access to an address that is not mapped faults: there is no
memory after it.

* **Sizes.** What is mapped for a block is the least number of whole pages that holds it
  (`PoolConfig.mappedSize_bounds`).
* **Accesses.** `Pool.accesses` lists the accesses of an event: the mapping of a new block,
  the mark that an allocation reads and clears and a release writes, the piece that arrives.
  Each is inside the block that it names (`Pool.inside_of_mem_accesses`).
* **Contents.** If the blocks of a pool are what memory holds (`Pool.LiesIn`), then no
  access of an event faults, and afterwards they still are (`Pool.LiesIn.undergo`). So what
  is dropped past the end of a block is never anything. `Pool.LiesIn.undergoAll` carries
  this over all runs.

The one thing that is asked for is that a piece that arrives fits into the block that it is
for.
-/

namespace RingRead

/-! ## Sizes

The system hands out whole pages. What is mapped for a block is therefore longer than the
block as a rule, and never longer than the segment of addresses that the block has to
itself. -/

namespace PoolConfig

/-- What is mapped for a block are the least whole pages that hold it. It is no more than
the segment of the block. -/
theorem mappedSize_bounds {c : PoolConfig} (hvalid : c.fault? = none) :
    c.mappedSize ≤ UInt32.size ∧ 0 < c.mappedSize ∧ pageSize ∣ c.mappedSize ∧
      c.blockSize ≤ c.mappedSize ∧ c.mappedSize < c.blockSize + pageSize := by
  obtain ⟨hpos, hlt⟩ := blockSize_bounds hvalid
  have hword : UInt32.size = 4294967296 := rfl
  have hpage : pageSize = 4096 := rfl
  rw [mappedSize, hpage]
  refine ⟨?_, ?_, Nat.dvd_mul_left .., ?_, ?_⟩
  all_goals omega

end PoolConfig

/-! ## Memory

Memory is a map from addresses to bytes, in which most places are empty. An access either
finds what it needs or has no result, so to say that a run has a result is to say that
nothing in it faults. -/

/-- Memory: the byte at each address that is mapped. An address without a byte is not
mapped, and an access to it faults. -/
def Memory : Type := Nat → Option UInt8

/-- An access to the memory of a block, from the byte `start` of the block on. What is read
or written is part of the access, so two runs with the same accesses have seen and left the
same bytes. -/
inductive BlockAccess where
  /-- The block is new: so many zero bytes are mapped for it. -/
  | map (block length : Nat)
  /-- These bytes are read. -/
  | read (block start : Nat) (bytes : List UInt8)
  | write (block start : Nat) (bytes : List UInt8)
deriving DecidableEq, Repr

/-- An access touches no byte outside the block that it names, and what is mapped for a
block is what the configuration says. This is asked of the access alone: it does not depend
on what memory holds. -/
def BlockAccess.Inside (c : PoolConfig) : BlockAccess → Prop
  | map _ length => length = c.mappedSize
  | read _ start bytes | write _ start bytes => start + bytes.length ≤ c.blockSize

namespace Memory

variable {m m' m'' : Memory} {address start : Nat} {bytes piece : List UInt8}

/-- Nothing is mapped. Every access but a mapping faults. -/
def empty : Memory := fun _ => none

/-- Put bytes at an address. Nothing is dropped: a store past the end of a block goes into
what lies behind it, which is what the theorems below have to rule out. -/
def store (m : Memory) (address : Nat) (bytes : List UInt8) : Memory := fun a =>
  if address ≤ a then bytes[a - address]?.or (m a) else m a

/-- These bytes lie in memory from an address on. So the places are mapped, too, and reading
them does not fault. -/
def Holds (m : Memory) (address : Nat) (bytes : List UInt8) : Prop :=
  ∀ i, ∀ hi : i < bytes.length, m (address + i) = some bytes[i]

/-- What becomes of memory by an access. Only a place that is not mapped can be mapped, only
what memory holds can be read, and only what is mapped can be written. -/
inductive Performs : Memory → BlockAccess → Memory → Prop
  | map {m : Memory} {block length : Nat}
      (h : ∀ i < length, m (block * UInt32.size + i) = none) :
      Performs m (.map block length) (m.store (block * UInt32.size) (List.replicate length 0))
  | read {m : Memory} {block start : Nat} {bytes : List UInt8}
      (h : m.Holds (block * UInt32.size + start) bytes) : Performs m (.read block start bytes) m
  | write {m : Memory} {block start : Nat} {bytes : List UInt8}
      (h : ∀ i < bytes.length, (m (block * UInt32.size + start + i)).isSome) :
      Performs m (.write block start bytes) (m.store (block * UInt32.size + start) bytes)

/-- What becomes of memory by accesses, of which none faults. A list of accesses with one
that faults runs to no memory at all. -/
def Runs : Memory → List BlockAccess → Memory → Prop
  | m, [], m' => m' = m
  | m, access :: rest, m' => ∃ m₁, m.Performs access m₁ ∧ Runs m₁ rest m'

theorem Runs.append {accesses accesses' : List BlockAccess} (h : m.Runs accesses m')
    (h' : m'.Runs accesses' m'') : m.Runs (accesses ++ accesses') m'' := by
  induction accesses generalizing m with
  | nil =>
    cases h
    exact h'
  | cons access rest ih =>
    obtain ⟨m₁, hfirst, hrest⟩ := h
    exact ⟨m₁, hfirst, ih hrest⟩

/-- A single access, as a run. -/
theorem Performs.runs {access : BlockAccess} (h : m.Performs access m') : m.Runs [access] m' :=
  ⟨m', h, rfl⟩

/-- A store leaves what is not in its way. -/
theorem store_of_outside {a : Nat} (h : a < address ∨ address + bytes.length ≤ a) :
    m.store address bytes a = m a := by
  rw [store]
  split
  · rw [List.getElem?_eq_none (by omega), Option.none_or]
  · rfl

/-- What is stored is found again. -/
theorem holds_store (m : Memory) (address : Nat) (bytes : List UInt8) :
    (m.store address bytes).Holds address bytes := by
  intro i hi
  rw [store, if_pos (Nat.le_add_right ..), Nat.add_sub_cancel_left, List.getElem?_eq_getElem hi,
    Option.some_or]

/-- What is held depends on the places where it lies alone. -/
theorem Holds.congr (h : m.Holds address bytes)
    (hsame : ∀ i < bytes.length, m' (address + i) = m (address + i)) : m'.Holds address bytes :=
  fun i hi => (hsame i hi).trans (h i hi)

/-- Storing elsewhere leaves what is held. -/
theorem Holds.store_apart {other : Nat} (h : m.Holds address bytes)
    (happart : address + bytes.length ≤ other ∨ other + piece.length ≤ address) :
    (m.store other piece).Holds address bytes := by
  refine h.congr fun i hi => store_of_outside ?_
  omega

/-- Two pieces one behind the other are held just if each of them is, the second one behind
the first. -/
theorem holds_append_iff {bytes' : List UInt8} : m.Holds address (bytes ++ bytes') ↔
    m.Holds address bytes ∧ m.Holds (address + bytes.length) bytes' := by
  constructor
  · intro h
    constructor
    · intro i hi
      rw [h i (by rw [List.length_append]; omega), List.getElem_append_left hi]
    · intro i hi
      rw [Nat.add_assoc, h (bytes.length + i) (by rw [List.length_append]; omega),
        List.getElem_append_right (Nat.le_add_right ..)]
      simp
  · rintro ⟨h, h'⟩ i hi
    rw [List.length_append] at hi
    by_cases hfirst : i < bytes.length
    · rw [List.getElem_append_left hfirst]
      exact h i hfirst
    · have hrest := h' (i - bytes.length) (by omega)
      rw [Nat.add_assoc, Nat.add_sub_cancel' (Nat.le_of_not_lt hfirst)] at hrest
      rw [List.getElem_append_right (Nat.le_of_not_lt hfirst)]
      exact hrest

/-- The front of zero bytes that are stored is zero bytes. Whole pages are mapped for a
block, and the block is only the front of them. -/
theorem holds_zeros (m : Memory) (address : Nat) {count length : Nat} (h : count ≤ length) :
    (m.store address (List.replicate length 0)).Holds address (List.replicate count 0) := by
  have hparts : List.replicate length (0 : UInt8) =
      List.replicate count 0 ++ List.replicate (length - count) 0 := by
    rw [List.replicate_append_replicate, Nat.add_sub_cancel' h]
  have hstored := holds_store m address (List.replicate length 0)
  rw [hparts, holds_append_iff] at hstored
  rw [hparts]
  exact hstored.1

/-- Bytes take the place of as many, between what lies before and what lies behind them.
This is where the lengths matter: a longer piece would go over the last bytes. -/
theorem Holds.store_within {old last : List UInt8} (h : m.Holds address (bytes ++ old ++ last))
    (hlength : piece.length = old.length) :
    (m.store (address + bytes.length) piece).Holds address (bytes ++ piece ++ last) := by
  rw [holds_append_iff, holds_append_iff] at h ⊢
  obtain ⟨⟨hfirst, -⟩, hlast⟩ := h
  rw [List.length_append] at hlast ⊢
  refine ⟨⟨hfirst.store_apart (Or.inl (Nat.le_refl _)), holds_store _ _ _⟩, ?_⟩
  rw [hlength]
  exact hlast.store_apart (Or.inr (by omega))

/-- An overwrite is a store of what there is room for. The overwrite of a block cuts off
what does not fit, so memory and block agree only if the store is cut in the same place. -/
theorem Holds.overwrite {target : Bytes} (h : m.Holds address target.toList) (start : Nat)
    (piece : Bytes) :
    (m.store (address + min start target.size) (piece.toList.take (target.size - start))).Holds
      address (target.overwrite start piece).toList := by
  have hcount : (piece.toList.take (target.size - start)).length =
      min piece.size (target.size - start) := by
    rw [List.length_take, Bytes.length_toList, Nat.min_comm]
  have hfirst : (target.toList.take start).length = min start target.size := by
    rw [List.length_take, Bytes.length_toList]
  have hparts : target.toList = target.toList.take start ++
      (target.toList.drop start).take (min piece.size (target.size - start)) ++
        target.toList.drop (start + min piece.size (target.size - start)) := by
    rw [← List.drop_drop, List.append_assoc, List.take_append_drop, List.take_append_drop]
  rw [hparts] at h
  rw [Bytes.toList_overwrite, ← hfirst]
  apply h.store_within
  rw [hcount, List.length_take, List.length_drop, Bytes.length_toList]
  omega

/-- What is held is mapped, each part of it. So whatever may be read may be written. -/
theorem Holds.isSome (h : m.Holds address bytes) {count : Nat}
    (hcount : start + count ≤ bytes.length) :
    ∀ i < count, (m (address + start + i)).isSome := by
  intro i hi
  rw [Nat.add_assoc, h (start + i) (by omega)]
  rfl

end Memory

/-! ## Accesses of a pool

A pool touches the memory of its blocks in a few of its events only, and this lists where.
The list is read off the program once, here; what is proved of accesses below is proved of
this list. -/

namespace Pool

variable {p p' : Pool} {m : Memory} {event : PoolEvent} {events events' : List PoolEvent}

/-- A piece arrives inside a block that there is. It is a matter of sizes alone, so a pool
that grows keeps it. Whether the block is on loan at that moment does not matter for
memory. -/
def Lands (p : Pool) (t : Transfer) : Prop :=
  Address.index t.address < p.size ∧ Address.offset t.address + t.piece.size ≤ p.blockSize

/-- What is asked of an event: a piece that arrives fits. Calls of the pool need no such
condition, as they cut a piece down themselves. -/
def Admits (p : Pool) : PoolEvent → Prop
  | .call _ => True
  | .receive t => p.Lands t

/-- The accesses to the memory of blocks by which an event happens. A new block is mapped, a
mark is read before it is cleared, and it is written when the block comes back; a loan and
its return touch no bytes. -/
def accesses (p : Pool) : PoolEvent → List BlockAccess
  | .call .allocate =>
    match p.free with
    -- a mapping that the system refuses touches no memory
    | [] =>
      if p.size < UInt32.size ∧ p.refusal? = none then [.map p.size p.config.mappedSize] else []
    | id :: _ =>
      .read id.toNat 0 (LittleEndian.encode 8 (p.firstWord id.toNat).toNat) ::
        if p.firstWord id.toNat = canary then [.write id.toNat 0 (LittleEndian.encode 8 0)] else []
  | .call (.release token) =>
    match p.check token with
    | .ok () => [.write token.id.toNat 0 (LittleEndian.encode 8 canary.toNat)]
    | .error _ => []
  | .call (.write token start piece) =>
    match p.check token with
    -- the slice that a holder writes to ends with the block
    | .ok () =>
      [.write token.id.toNat (min start p.blockSize) (piece.toList.take (p.blockSize - start))]
    | .error _ => []
  | .call (.loan _) | .call (.reclaim _) => []
  | .receive t => [.write (Address.index t.address) (Address.offset t.address) t.piece.toList]

/-- No access touches anything outside the block that it names, whatever the event. A mark
is eight bytes, and no configuration has smaller blocks. -/
theorem inside_of_mem_accesses (hvalid : p.config.fault? = none) (hadmits : p.Admits event) :
    ∀ access ∈ p.accesses event, access.Inside p.config := by
  obtain ⟨hword, -⟩ := PoolConfig.blockSize_bounds hvalid
  -- marks are read and written at the start of a block, which has room for a word
  have hmark (word : Nat) : (0 + (LittleEndian.encode 8 word).length) ≤ p.config.blockSize := by
    rw [LittleEndian.length_encode]
    omega
  intro access haccess
  rcases event with call | t
  · cases call with
    | allocate =>
      rw [accesses] at haccess
      split at haccess
      · split at haccess
        · obtain rfl := List.mem_singleton.mp haccess
          rfl
        · cases haccess
      · rcases List.mem_cons.mp haccess with rfl | hwrite
        · exact hmark _
        · split at hwrite
          · obtain rfl := List.mem_singleton.mp hwrite
            exact hmark _
          · cases hwrite
    | release token =>
      rw [accesses] at haccess
      split at haccess
      · obtain rfl := List.mem_singleton.mp haccess
        exact hmark _
      · cases haccess
    | write token start piece =>
      rw [accesses] at haccess
      split at haccess
      · obtain rfl := List.mem_singleton.mp haccess
        -- what the user writes is cut off at the end of the block
        rw [BlockAccess.Inside, List.length_take]
        change min start p.config.blockSize + min (p.config.blockSize - start) _ ≤ _
        omega
      · cases haccess
    | loan token => cases haccess
    | reclaim tag => cases haccess
  · obtain rfl := List.mem_singleton.mp haccess
    obtain ⟨-, hfits⟩ := hadmits
    rw [BlockAccess.Inside, Bytes.length_toList]
    exact hfits

/-! ## Contents

The invariant is that the blocks of the pool are what memory holds (`LiesIn`). It ties a
pool, in which an overwrite cannot leave its block, to a memory in which it could. Each
event keeps it, for a reason of its own. -/

/-- The blocks of a pool with a valid configuration are what memory holds, each at the start
of its segment, and nothing is mapped behind them. -/
structure LiesIn (p : Pool) (m : Memory) : Prop where
  valid : p.config.fault? = none
  numbered : p.Numbered
  uniform : p.Uniform
  holds : ∀ id bytes, p.bytes? id = some bytes → m.Holds (id * UInt32.size) bytes.toList
  unmapped : ∀ a, p.size * UInt32.size ≤ a → m a = none

/-- A new pool has no blocks, and nothing is mapped. -/
theorem liesIn_create {serial : UInt32} {config : PoolConfig} {mappings : MappingAnswers}
    (h : create serial config mappings = .ok p) : p.LiesIn .empty := by
  have hnumbered := (numbered_create h).1
  obtain ⟨hvalid, rfl⟩ := create_ok h
  exact ⟨hvalid, hnumbered, by simp [Uniform], by simp [bytes?], fun _ _ => rfl⟩

/-- A block is shorter than its segment, so blocks do not overlap. -/
theorem LiesIn.length_lt (h : p.LiesIn m) {id : Nat} {bytes : Bytes}
    (hbytes : p.bytes? id = some bytes) : bytes.toList.length < UInt32.size := by
  rw [Bytes.length_toList, h.uniform.size_bytes hbytes]
  exact (blockSize_bounds h.valid).2

/-- What is stored inside a segment is nothing to the blocks in the others, and nothing is
mapped behind it. -/
theorem LiesIn.store_in_segment {id address : Nat} {piece : List UInt8} (h : p.LiesIn m)
    (hfrom : id * UInt32.size ≤ address) (hto : address + piece.length ≤ (id + 1) * UInt32.size) :
    (∀ other bytes, other ≠ id → p.bytes? other = some bytes →
      (m.store address piece).Holds (other * UInt32.size) bytes.toList) ∧
      ∀ a, p.size * UInt32.size ≤ a → (id + 1) * UInt32.size ≤ a →
        m.store address piece a = none := by
  have hword : UInt32.size = 4294967296 := rfl
  constructor
  · intro other bytes hother hbytes
    have hlength := h.length_lt hbytes
    refine (h.holds other bytes hbytes).store_apart ?_
    rw [hword] at hfrom hto hlength ⊢
    omega
  · intro a ha hbehind
    rw [Memory.store_of_outside (Or.inr (Nat.le_trans hto hbehind))]
    exact h.unmapped a ha

/-- Where nothing but states and the free stack changed, memory is the same. A loan, for
one, is a matter of bookkeeping. -/
theorem LiesIn.of_bytes_eq (h : p.LiesIn m) (hlater : p.Later p') (huniform : p'.Uniform)
    (hsize : p'.size = p.size) (hbytes : ∀ id, p'.bytes? id = p.bytes? id) : p'.LiesIn m :=
  ⟨hlater.config_eq ▸ h.valid, hlater.numbered h.numbered, huniform,
    fun id bytes hb => h.holds id bytes ((hbytes id).symm.trans hb),
    fun a ha => h.unmapped a (hsize ▸ ha)⟩

/-- One block was overwritten from a byte on, and all others were left alone. Three events
do that: a mark is set, a mark is cleared, and a piece arrives. -/
structure Overwrites (p : Pool) (id start : Nat) (piece : Bytes) (p' : Pool) : Prop where
  size_eq : p'.size = p.size
  bytes_self : p'.bytes? id = (p.bytes? id).map (·.overwrite start piece)
  bytes_of_ne : ∀ other, other ≠ id → p'.bytes? other = p.bytes? other

/-- To overwrite a block, what there is room for is written, and no more. The pool that the
blocks are in afterwards is known by what it did to them, so one lemma serves all three
events. -/
theorem LiesIn.overwrite {id start : Nat} {piece : Bytes} (h : p.LiesIn m) (hid : id < p.size)
    (hlater : p.Later p') (huniform : p'.Uniform) (hover : p.Overwrites id start piece p') :
    ∃ m', m.Performs (.write id (min start p.blockSize)
      (piece.toList.take (p.blockSize - start))) m' ∧ p'.LiesIn m' := by
  obtain ⟨block, hblock⟩ := exists_bytes hid
  have hself : p'.bytes? id = some (block.overwrite start piece) := by
    rw [hover.bytes_self, hblock]
    rfl
  have hheld := h.holds id block hblock
  have hstored := hheld.overwrite start piece
  rw [h.uniform.size_bytes hblock] at hstored
  have hinside : min start p.blockSize + (piece.toList.take (p.blockSize - start)).length ≤
      block.toList.length := by
    rw [Bytes.length_toList, h.uniform.size_bytes hblock, List.length_take]
    omega
  have hends := Nat.le_trans hinside (Nat.le_of_lt (h.length_lt hblock))
  -- the block ends in its own segment, so the blocks of other segments are not touched
  have hfits : id * UInt32.size + min start p.blockSize +
      (piece.toList.take (p.blockSize - start)).length ≤ (id + 1) * UInt32.size := by
    rw [Nat.succ_mul, Nat.add_assoc]
    exact Nat.add_le_add_left hends _
  obtain ⟨hothers, hbehind⟩ := h.store_in_segment (Nat.le_add_right ..) hfits
  refine ⟨_, .write (hheld.isSome hinside), hlater.config_eq ▸ h.valid,
    hlater.numbered h.numbered, huniform, fun other bytes hbytes => ?_, fun a ha => ?_⟩
  · by_cases hother : other = id
    · subst hother
      obtain rfl := Option.some.inj (hself.symm.trans hbytes)
      exact hstored
    · exact hothers other bytes hother ((hover.bytes_of_ne other hother).symm.trans hbytes)
  · rw [hover.size_eq] at ha
    exact hbehind a ha (Nat.le_trans (Nat.mul_le_mul_right _ hid) ha)

/-- A change of one block is an overwrite if it overwrites the bytes, whatever it does to
the state. -/
theorem overwrites_modify {id start : Nat} {piece : Bytes} {change : Block → Block}
    (hchange : ∀ b, (change b).bytes = b.bytes.overwrite start piece) :
    p.Overwrites id start piece (p.modify id change) := by
  refine ⟨size_modify .., ?_, fun other hother => bytes?_modify_ne p change hother⟩
  rw [bytes?_modify_self, bytes?, Option.map_map]
  congr 1
  exact funext hchange

/-- No access of an event faults, and afterwards memory holds the blocks as the event has
left them. It is what every event is shown to do, one after the other, in the lemmas that
follow. -/
def HappensIn (p : Pool) (m : Memory) (event : PoolEvent) : Prop :=
  ∃ m', m.Runs (p.accesses event) m' ∧ (p.undergo event).LiesIn m'

/-- A new block is mapped behind all others, if it is. Its pages fit there, since they are
never more than the segment of the block. -/
theorem LiesIn.allocateFresh (h : p.LiesIn m) (hfree : p.free = []) :
    p.HappensIn m (.call .allocate) := by
  have hlater := p.later_allocate
  have huniform := h.uniform.allocate
  rw [HappensIn, accesses, hfree]
  dsimp only
  rw [undergo]
  rw [allocate_empty hfree] at hlater huniform ⊢
  rcases p.allocateFresh_cases with
    ⟨hsize, hgranted, hfresh⟩ | ⟨err, -, hrefusal, hfresh⟩ | ⟨hfull, hfresh⟩
  all_goals rw [hfresh] at hlater huniform ⊢
  · rw [if_pos ⟨hsize, hgranted⟩]
    obtain ⟨hmapped, -, -, hle, -⟩ := PoolConfig.mappedSize_bounds h.valid
    -- whole pages are mapped, and they lie in the one segment that is new
    have hfits : p.size * UInt32.size + (List.replicate p.config.mappedSize (0 : UInt8)).length ≤
        (p.size + 1) * UInt32.size := by
      rw [List.length_replicate, Nat.succ_mul]
      exact Nat.add_le_add_left hmapped _
    obtain ⟨hothers, hbehind⟩ := h.store_in_segment (Nat.le_refl _) hfits
    refine ⟨_, Memory.Performs.runs (.map fun i _ => h.unmapped _ (Nat.le_add_right ..)),
      hlater.config_eq ▸ h.valid, hlater.numbered h.numbered, huniform,
      fun id bytes hbytes => ?_, fun a ha => ?_⟩
    · by_cases hid : id = p.size
      · subst hid
        have hnew : bytes = .zeros p.config.blockSize := by
          simpa [bytes?, size, blockSize, grown] using hbytes.symm
        rw [hnew, Bytes.toList_zeros]
        exact Memory.holds_zeros m _ hle
      · exact hothers id bytes hid ((bytes?_push_of_ne hid).symm.trans hbytes)
    · have hend : (p.size + 1) * UInt32.size ≤ a := by
        rwa [size, grown, Array.size_push] at ha
      exact hbehind a (Nat.le_trans (Nat.mul_le_mul_right _ (Nat.le_succ _)) hend) hend
  · rw [if_neg (by simp [hrefusal])]
    exact ⟨m, rfl, h.of_bytes_eq hlater huniform rfl fun _ => rfl⟩
  · rw [if_neg (by omega)]
    exact ⟨m, rfl, h⟩

/-- To write the first word of a block is to overwrite eight bytes. -/
theorem LiesIn.overwrite_firstWord {id : Nat} {word : UInt64} (h : p.LiesIn m) (hid : id < p.size)
    (hlater : p.Later p') (huniform : p'.Uniform)
    (hover : p.Overwrites id 0 (.ofList (LittleEndian.encode 8 word.toNat)) p') :
    ∃ m', m.Performs (.write id 0 (LittleEndian.encode 8 word.toNat)) m' ∧ p'.LiesIn m' := by
  have hword := (blockSize_bounds h.valid).1
  have hall : (LittleEndian.encode 8 word.toNat).take (p.blockSize - 0) =
      LittleEndian.encode 8 word.toNat :=
    List.take_of_length_le (by rwa [LittleEndian.length_encode])
  have hwritten := h.overwrite hid hlater huniform hover
  rwa [Nat.zero_min, Bytes.toList_ofList, hall] at hwritten

/-- A block that comes off the free stack has its mark read, and cleared if it is there. If
it is not, the eight bytes are all that is looked at. -/
theorem LiesIn.recycle {n : UInt32} {rest : List UInt32} (h : p.LiesIn m)
    (hfree : p.free = n :: rest) : p.HappensIn m (.call .allocate) := by
  have hid : n.toNat < p.size := h.numbered.lt_of_mem_free n (hfree ▸ List.mem_cons_self ..)
  have hlater := p.later_allocate
  have huniform := h.uniform.allocate
  obtain ⟨block, hblock⟩ := exists_bytes hid
  have hword : 8 ≤ block.size := by
    rw [h.uniform.size_bytes hblock]
    exact (blockSize_bounds h.valid).1
  -- the mark is looked at before anything is written, in either case
  have hread : m.Performs
      (.read n.toNat 0 (LittleEndian.encode 8 (p.firstWord n.toNat).toNat)) m := by
    have hheld := h.holds n.toNat block hblock
    rw [← List.take_append_drop 8 block.toList, Memory.holds_append_iff] at hheld
    rw [firstWord_eq, hblock, Option.map_some, Option.getD_some, Bytes.encode_firstWord hword]
    refine .read ?_
    rw [Nat.add_zero]
    exact hheld.1
  rw [HappensIn, accesses, hfree]
  dsimp only
  rw [undergo]
  by_cases hmark : p.firstWord n.toNat = canary
  · rw [allocate_marked hfree hmark] at hlater huniform ⊢
    let reuse (b : Block) : Block := { b with state := .held, bytes := b.bytes.setFirstWord 0 }
    have hover : p.Overwrites n.toNat 0 (.ofList (LittleEndian.encode 8 (0 : UInt64).toNat))
        (p.modify n.toNat reuse) :=
      overwrites_modify fun _ => rfl
    obtain ⟨m', hwrite, hlies⟩ := h.overwrite_firstWord hid hlater huniform
      ⟨hover.size_eq, hover.bytes_self, hover.bytes_of_ne⟩
    rw [if_pos hmark]
    exact ⟨m', ⟨m, hread, hwrite.runs⟩, hlies⟩
  · rw [if_neg hmark]
    rw [allocate_damaged hfree hmark] at hlater huniform ⊢
    exact ⟨m, hread.runs, h.of_bytes_eq hlater huniform rfl fun _ => rfl⟩

/-- A block that is given back gets its mark. A token that is refused gets to no memory at
all. -/
theorem LiesIn.release (h : p.LiesIn m) (token : Token) :
    p.HappensIn m (.call (.release token)) := by
  have hlater := p.later_release token
  have huniform := h.uniform.release token
  rw [HappensIn, accesses]
  rcases hcheck : p.check token with err | _
  · rw [undergo, release_error hcheck]
    exact ⟨m, rfl, h⟩
  · obtain ⟨-, -, -, hself⟩ := release_ok hcheck
    have hother := (moves_release hcheck).bytes_of_not_mem
    obtain ⟨m', hwrite, hlies⟩ := h.overwrite_firstWord (lt_size_of_check hcheck) hlater huniform
      ⟨size_release hcheck, hself, fun id hid => hother id (by simpa using hid)⟩
    exact ⟨m', hwrite.runs, hlies⟩

/-- A holder writes into its own block, and what does not fit is cut off before it is
written. -/
theorem LiesIn.write (h : p.LiesIn m) (token : Token) (start : Nat) (piece : Bytes) :
    p.HappensIn m (.call (.write token start piece)) := by
  let event : PoolEvent := .call (.write token start piece)
  rw [HappensIn, accesses]
  rcases hcheck : p.check token with err | _
  · rw [undergo, Pool.write]
    simp only [hcheck]
    exact ⟨m, rfl, h⟩
  · have hover : p.Overwrites token.id.toNat start piece (p.undergo event) := by
      rw [undergo, Pool.write]
      simp only [hcheck]
      exact overwrites_modify fun _ => rfl
    obtain ⟨m', hwrite, hlies⟩ := h.overwrite (lt_size_of_check hcheck)
      (p.later_after (.event event)) (h.uniform.undergo event) hover
    exact ⟨m', hwrite.runs, hlies⟩

/-- What arrives and fits is written as it is. Nobody cuts it down here: the kernel writes
where it was told to. -/
theorem LiesIn.receive {t : Transfer} (h : p.LiesIn m) (hlands : p.Lands t) :
    p.HappensIn m (.receive t) := by
  obtain ⟨hid, hfits⟩ := hlands
  have hover : p.Overwrites (Address.index t.address) (Address.offset t.address) t.piece
      (p.receive t) :=
    overwrites_modify fun _ => rfl
  have hall : t.piece.toList.take (p.blockSize - Address.offset t.address) = t.piece.toList := by
    apply List.take_of_length_le
    rw [Bytes.length_toList]
    omega
  obtain ⟨m', hwrite, hlies⟩ := h.overwrite hid (p.later_after (.event (.receive t)))
    (h.uniform.undergo (.receive t)) hover
  rw [hall, Nat.min_eq_left (by omega)] at hwrite
  exact ⟨m', hwrite.runs, hlies⟩

/-- **An event.** Where the blocks of a pool are what memory holds, none of the accesses of
an event faults, and they still are afterwards. It is the step from which the run below is
made. -/
theorem LiesIn.undergo (h : p.LiesIn m) (hadmits : p.Admits event) : p.HappensIn m event := by
  -- loans and reclaims change states alone, which have no place in memory
  have hidle (hsize : (p.undergo event).size = p.size)
      (hbytes : ∀ id, (p.undergo event).bytes? id = p.bytes? id) : (p.undergo event).LiesIn m :=
    h.of_bytes_eq (p.later_after (.event event)) (h.uniform.undergo event) hsize hbytes
  rcases event with call | t
  · cases call with
    | allocate =>
      cases hfree : p.free with
      | nil => exact h.allocateFresh hfree
      | cons n rest => exact h.recycle hfree
    | release token => exact h.release token
    | write token start piece => exact h.write token start piece
    | loan token =>
      exact ⟨m, rfl, hidle (size_modify ..) fun id => bytes?_modify_of_bytes_eq p _ id fun _ => rfl⟩
    | reclaim tag =>
      by_cases hloaned : p.state? tag.toNat = some .loaned
      · refine ⟨m, rfl, hidle (size_reclaim hloaned) fun id => ?_⟩
        rw [undergo, reclaim, if_pos hloaned]
        exact bytes?_modify_of_bytes_eq p _ id fun _ => rfl
      · rw [HappensIn, undergo, reclaim_unknown hloaned]
        exact ⟨m, rfl, h⟩
  · exact h.receive hadmits

/-- What a holder gets to see of its block is read from memory, and no more is read. -/
theorem LiesIn.read_of_data {token : Token} {bytes : Bytes} (h : p.LiesIn m)
    (hdata : p.data token = .ok bytes) :
    bytes.size = p.blockSize ∧ m.Performs (.read token.id.toNat 0 bytes.toList) m := by
  have hcheck := data_ok_iff.mp ⟨bytes, hdata⟩
  obtain ⟨block, hblock⟩ := exists_bytes (lt_size_of_check hcheck)
  rw [data_answer, hcheck, hblock] at hdata
  obtain rfl : block = bytes := Except.ok.inj hdata
  refine ⟨h.uniform.size_bytes hblock, .read ?_⟩
  rw [Nat.add_zero]
  exact h.holds _ _ hblock

/-! ## Runs

A run is a list of events, and the one thing asked of it is asked at each point: that a
piece which arrives then fits into the block that it arrives in. -/

/-- A pool after events. -/
def undergoAll (p : Pool) (events : List PoolEvent) : Pool := events.foldl undergo p

/-- The accesses by which events happen, in order. Each event is looked at in the pool that
the ones before it have left. -/
def accessesAlong : Pool → List PoolEvent → List BlockAccess
  | _, [] => []
  | p, event :: rest => p.accesses event ++ (p.undergo event).accessesAlong rest

/-- Whatever arrives in a run fits where it arrives. -/
def AdmitsAll : Pool → List PoolEvent → Prop
  | _, [] => True
  | p, event :: rest => p.Admits event ∧ (p.undergo event).AdmitsAll rest

theorem undergoAll_append (p : Pool) (events events' : List PoolEvent) :
    p.undergoAll (events ++ events') = (p.undergoAll events).undergoAll events' :=
  List.foldl_append

theorem admitsAll_append : p.AdmitsAll (events ++ events') ↔
    p.AdmitsAll events ∧ (p.undergoAll events).AdmitsAll events' := by
  induction events generalizing p with
  | nil => exact ⟨fun h => ⟨trivial, h⟩, And.right⟩
  | cons event rest ih =>
    rw [List.cons_append, AdmitsAll, AdmitsAll, ih, and_assoc]
    rfl

/-- A pool keeps its serial number and its settings through all events, and loses no
block. -/
theorem later_undergoAll (p : Pool) (events : List PoolEvent) : p.Later (p.undergoAll events) := by
  induction events generalizing p with
  | nil => exact .refl p
  | cons event rest ih => exact (p.later_after (.event event)).trans (ih (p.undergo event))

/-- **A run.** No access of a run faults, and none touches a byte outside the block that it
names. Memory holds what the pool says that its blocks hold, at the end and so at every
point. -/
theorem LiesIn.undergoAll (h : p.LiesIn m) (hadmits : p.AdmitsAll events) :
    (∀ access ∈ p.accessesAlong events, access.Inside p.config) ∧
      ∃ m', m.Runs (p.accessesAlong events) m' ∧ (p.undergoAll events).LiesIn m' := by
  induction events generalizing p m with
  | nil => exact ⟨fun access haccess => absurd haccess List.not_mem_nil, m, rfl, h⟩
  | cons event rest ih =>
    obtain ⟨hevent, hrest⟩ := hadmits
    obtain ⟨m₁, hfirst, hlies⟩ := h.undergo hevent
    obtain ⟨hinside, m', hlater, hlies'⟩ := ih hlies hrest
    have hconfig : (p.undergo event).config = p.config := (p.later_after (.event event)).config_eq
    refine ⟨List.forall_mem_append.mpr ⟨inside_of_mem_accesses h.valid hevent, ?_⟩, m',
      hfirst.append hlater, hlies'⟩
    rwa [hconfig] at hinside

end Pool

end RingRead
