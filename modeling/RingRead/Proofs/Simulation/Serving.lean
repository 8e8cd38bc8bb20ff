import Mathlib.Data.List.Forall2
import RingRead.Proofs.Pool.Batch
import RingRead.Simulation.Basic

/-!
# Serving reads

What the simulated kernel makes of the reads of a batch.

* **One read.** `perform_entry_cases` lists the results that a read can have: none or less
  than one byte, with nothing delivered, or as many bytes as were copied to its block.
* **A batch.** There is one completion for each read, in order, and it carries the tag of
  the read. If it reports a whole block, then the block holds that part of the file once
  everything is delivered (`serves_performAll`). Blocks of other reads are not written to.
-/

namespace RingRead

variable {file : Bytes} {p p' : Pool} {r : Read} {reads : List Read} {c : Cqe}
variable {target : ReadTarget} {injected : List Int32}

/-- The block of a read holds what the file has at the offset of the read, and the file has
a whole block there. It is the pool that this is said of, so it can be kept while the read's
completion is still on its way. -/
def Pool.Holds (p : Pool) (file : Bytes) (r : Read) : Prop :=
  ∃ bytes, p.bytes? r.block.toNat = some bytes ∧
    bytes.toList = (file.toList.drop r.offset).take p.blockSize ∧
    r.offset + p.blockSize ≤ file.size

/-- A completion answers a read: it carries the tag of the read, and if it reports a whole
block, the data are there. Of a completion that reports anything else nothing is said about
data. -/
structure Serves (file : Bytes) (p : Pool) (r : Read) (c : Cqe) : Prop where
  tag_eq : c.userData = r.tag
  holds : c.res.toInt = p.blockSize → p.Holds file r

/-- What a block holds depends on its bytes alone. -/
theorem Pool.Holds.of_bytes_eq (h : p.Holds file r) (hsize : p'.blockSize = p.blockSize)
    (hbytes : p'.bytes? r.block.toNat = p.bytes? r.block.toNat) : p'.Holds file r := by
  obtain ⟨bytes, hsome, hlist, hle⟩ := h
  refine ⟨bytes, hbytes.trans hsome, ?_, ?_⟩
  · rw [hsize]
    exact hlist
  · rw [hsize]
    exact hle

theorem Serves.of_bytes_eq (h : Serves file p r c) (hsize : p'.blockSize = p.blockSize)
    (hbytes : p'.bytes? r.block.toNat = p.bytes? r.block.toNat) : Serves file p' r c :=
  ⟨h.tag_eq, fun hres => (h.holds (hsize ▸ hres)).of_bytes_eq hsize hbytes⟩

/-- Reads are still served where their blocks hold the same bytes. -/
theorem forall₂_serves_of_bytes_eq {cs : List Cqe} (h : List.Forall₂ (Serves file p) reads cs)
    (hsize : p'.blockSize = p.blockSize)
    (hbytes : ∀ r ∈ reads, p'.bytes? r.block.toNat = p.bytes? r.block.toNat) :
    List.Forall₂ (Serves file p') reads cs := by
  induction h with
  | nil => exact List.Forall₂.nil
  | cons hfirst _ ih =>
    refine List.Forall₂.cons ?_ (ih fun r hr => hbytes r (List.mem_cons_of_mem _ hr))
    exact hfirst.of_bytes_eq hsize (hbytes _ (List.mem_cons_self ..))

/-- The tags of completions are those of the reads that they answer, in the same order. -/
theorem map_userData_of_serves {cs : List Cqe} (h : List.Forall₂ (Serves file p) reads cs) :
    cs.map Cqe.userData = reads.map Read.tag := by
  induction h with
  | nil => rfl
  | cons hfirst _ ih => rw [List.map_cons, List.map_cons, hfirst.tag_eq, ih]

/-! ## One read

A read is performed with the result that was given in advance, if there is one, and
otherwise with what the file has. In each case what is copied is what the result says, so a
result of a whole block means that a whole block was copied. -/

/-- An unsigned number reads back as a signed one as it is in the lower half, and less by
the whole range in the upper half. -/
theorem toInt_ofInt_word {size : Nat} (h : size < UInt32.size) :
    (Int32.ofInt size).toInt =
      if size < 2 ^ 31 then (size : Int) else (size : Int) - UInt32.size := by
  have hsigned : Int32.size = 4294967296 := rfl
  have hword : UInt32.size = 4294967296 := rfl
  rw [hword] at h ⊢
  rw [Int32.toInt_ofInt, Int.bmod_def, hsigned]
  split
  · rw [if_pos (by omega)]
    omega
  · rw [if_neg (by omega)]
    omega

/-- A 32-bit result that is read back as the number of bytes that it was made from. A
smaller number of bytes cannot be read back as the block size. -/
theorem eq_of_toInt_ofInt {n size : Nat} (hn : n ≤ size) (hsize : size < UInt32.size)
    (h : (Int32.ofInt n).toInt = size) : n = size := by
  have hword : UInt32.size = 4294967296 := rfl
  -- a number that does not fit reads back as a negative one, and no size is negative
  rw [toInt_ofInt_word (Nat.lt_of_le_of_lt hn hsize)] at h
  split at h
  · omega
  · omega

/-- A piece that is as long as the whole block replaces all of it. -/
theorem toList_overwrite_whole {bytes piece : Bytes} (h : piece.size = bytes.size) :
    (bytes.overwrite 0 piece).toList = piece.toList := by
  have hpiece : piece.toList.length ≤ bytes.size :=
    Nat.le_of_eq ((Bytes.length_toList piece).trans h)
  have hbytes : bytes.toList.length ≤ bytes.size := Nat.le_of_eq (Bytes.length_toList bytes)
  rw [Bytes.toList_overwrite, List.take_zero, List.nil_append, h, Nat.sub_zero, Nat.min_self,
    Nat.zero_add, List.drop_of_length_le hbytes, List.append_nil, List.take_of_length_le hpiece]

/-- Bytes that arrive at the address of a block overwrite it from its start. -/
theorem Pool.bytes?_receive_ofIndex {id : UInt32} {bytes : Bytes}
    (h : p.bytes? id.toNat = some bytes) (piece : Bytes) :
    (p.receive ⟨Address.ofIndex id, piece⟩).bytes? id.toNat = some (bytes.overwrite 0 piece) := by
  obtain ⟨b, hb, rfl⟩ := Option.map_eq_some_iff.mp h
  rw [receive, Address.index_ofIndex, Address.offset_ofIndex, bytes?_modify_self, hb]
  rfl

namespace SimulatedKernel

/-- The ways in which a read can be performed: with a result that was given in advance and
is not positive, or with as many bytes as were copied. -/
theorem perform_entry_cases (file : Bytes) (injected : List Int32) (target : ReadTarget)
    {size : Nat} (hsize : size < UInt32.size) (hoffset : r.offset < UInt64.size) :
    (∃ res rest, res ≤ 0 ∧ injected = res :: rest ∧
      perform file injected (r.entry target size) =
        ({ userData := r.tag, res }, none, rest)) ∨
    (∃ length ≤ size, ∃ rest, (injected = [] → length = size ∧ rest = []) ∧
      perform file injected (r.entry target size) =
        ({ userData := r.tag, res := Int32.ofInt (file.slice r.offset length).size },
          some ⟨Address.ofIndex r.block, file.slice r.offset length⟩, rest)) := by
  have hop : (r.entry target size).opcode = opRead := rfl
  have hlen : (r.entry target size).len.toNat = size := UInt32.toNat_ofNat_of_lt' hsize
  have hoff : (r.entry target size).off.toNat = r.offset := UInt64.toNat_ofNat_of_lt' hoffset
  have hnop : opRead ≠ opNop := by decide
  unfold perform
  simp only [hop, hnop, if_true, if_false, hlen, hoff]
  cases injected with
  | nil => exact Or.inr ⟨size, Nat.le_refl _, [], fun _ => ⟨rfl, rfl⟩, rfl⟩
  | cons res rest =>
    dsimp only
    split
    · next hres => exact Or.inl ⟨res, rest, hres, rfl, rfl⟩
    · exact Or.inr ⟨_, Nat.min_le_right res.toInt.toNat size, rest, nofun, rfl⟩

variable {size : Nat} {rest : List Int32} {transfer? : Option Transfer}

/-- A read that is performed and delivered is served, and nothing is delivered to another
block. -/
theorem serves_perform (huniform : p.Uniform) (hsize : p.blockSize = size) (hpos : 0 < size)
    (hlt : size < UInt32.size) (hoffset : r.offset < UInt64.size)
    (hhas : (p.state? r.block.toNat).isSome)
    (h : perform file injected (r.entry target size) = (c, transfer?, rest)) :
    Serves file (p.receiveAll transfer?.toList) r c ∧
      ∀ t ∈ transfer?, t.address = Address.ofIndex r.block := by
  rcases perform_entry_cases file injected target hlt hoffset with
    ⟨res, rest', hres, -, hperform⟩ | ⟨length, hle, rest', -, hperform⟩
  · rw [h] at hperform
    cases hperform
    refine ⟨⟨rfl, fun hwhole => ?_⟩, nofun⟩
    -- a result that is not positive is not the size of a block
    have hnonpos : res.toInt ≤ 0 := Int32.le_iff_toInt_le.mp hres
    rw [Option.toList_none, Pool.receiveAll, List.foldl_nil, hsize] at hwhole
    exact absurd (show (size : Int) ≤ 0 from hwhole ▸ hnonpos) (by omega)
  · rw [h] at hperform
    obtain ⟨rfl, htransfer, -⟩ : _ ∧ _ ∧ _ := by simpa only [Prod.mk.injEq] using hperform
    refine ⟨⟨rfl, fun hwhole => ?_⟩, ?_⟩
    · obtain ⟨b, hb, -⟩ := Option.map_eq_some_iff.mp (Option.some_get hhas).symm
      have hbytes : p.bytes? r.block.toNat = some b.bytes := by rw [Pool.bytes?, hb]; rfl
      have hblockSize : (p.receiveAll transfer?.toList).blockSize = size :=
        (congrArg PoolConfig.blockSize (Pool.config_receiveAll ..)).trans hsize
      -- what was copied is a whole block only if the length and the file allow for one
      have hpiece : (file.slice r.offset length).size = size :=
        eq_of_toInt_ofInt (by rw [Bytes.size_slice]; omega) hlt (hblockSize ▸ hwhole)
      have hmin := hpiece
      rw [Bytes.size_slice] at hmin
      obtain rfl : length = size := by omega
      refine ⟨b.bytes.overwrite 0 (file.slice r.offset length), ?_, ?_, by omega⟩
      · rw [htransfer]
        exact Pool.bytes?_receive_ofIndex hbytes _
      · rw [toList_overwrite_whole (hpiece.trans (hsize ▸ (huniform.size_bytes hbytes).symm)),
          Bytes.toList_slice, hblockSize]
    · intro t ht
      rw [htransfer] at ht
      rw [← Option.mem_some.mp ht]

/-- The reads of a batch are served in order, and nothing is delivered to other blocks. -/
theorem serves_performAll (huniform : p.Uniform) (hsize : p.blockSize = size) (hpos : 0 < size)
    (hlt : size < UInt32.size) (hnodup : (reads.map Read.block).Nodup)
    (hoffset : ∀ r ∈ reads, r.offset < UInt64.size)
    (hhas : ∀ r ∈ reads, (p.state? r.block.toNat).isSome) (file : Bytes) (target : ReadTarget)
    (injected : List Int32) :
    let (completions, transfers, _) :=
      performAll file injected (reads.map (·.entry target size))
    List.Forall₂ (Serves file (p.receiveAll transfers)) reads completions ∧
      ∀ t ∈ transfers, ∃ r ∈ reads, t.address = Address.ofIndex r.block := by
  induction reads generalizing p injected with
  | nil => exact ⟨List.Forall₂.nil, nofun⟩
  | cons r reads ih =>
    obtain ⟨hnot, hnodup⟩ := List.nodup_cons.mp hnodup
    rcases hperform : perform file injected (r.entry target size) with ⟨c, transfer?, rest⟩
    obtain ⟨hserves, haddress⟩ := serves_perform huniform hsize hpos hlt
      (hoffset r (List.mem_cons_self ..)) (hhas r (List.mem_cons_self ..)) hperform
    have hsize' : (p.receiveAll transfer?.toList).blockSize = size :=
      (congrArg PoolConfig.blockSize (Pool.config_receiveAll ..)).trans hsize
    -- the rest of the batch is served in the pool in which the first piece has arrived
    obtain ⟨hrest, haddresses⟩ := ih (huniform.receiveAll transfer?.toList) hsize' hnodup
      (fun r' hr' => hoffset r' (List.mem_cons_of_mem _ hr'))
      (fun r' hr' => by
        rw [Pool.state?_receiveAll]
        exact hhas r' (List.mem_cons_of_mem _ hr'))
      rest
    rcases hall : performAll file rest (reads.map (·.entry target size)) with
      ⟨completions, transfers, rest'⟩
    rw [hall] at hrest haddresses
    simp only [List.map_cons, performAll, hperform, hall, Pool.receiveAll_append]
    refine ⟨List.Forall₂.cons ?_ hrest, ?_⟩
    · -- what is delivered later goes to other blocks
      refine hserves.of_bytes_eq (congrArg PoolConfig.blockSize (Pool.config_receiveAll ..)) ?_
      refine Pool.bytes?_receiveAll_of_ne fun t ht heq => ?_
      obtain ⟨r', hr', haddress'⟩ := haddresses t ht
      rw [haddress', Address.index_ofIndex, UInt32.toNat_inj] at heq
      exact hnot (heq ▸ List.mem_map_of_mem hr')
    · intro t ht
      rcases List.mem_append.mp ht with ht | ht
      · exact ⟨r, List.mem_cons_self .., haddress t (Option.mem_toList.mp ht)⟩
      · obtain ⟨r', hr', haddress'⟩ := haddresses t ht
        exact ⟨r', List.mem_cons_of_mem _ hr', haddress'⟩

/-- Without results given in advance, a read inside the file brings a whole block. -/
theorem perform_whole (hlt : size < 2 ^ 31) (hoffset : r.offset < UInt64.size)
    (hle : r.offset + size ≤ file.size)
    (h : perform file [] (r.entry target size) = (c, transfer?, rest)) :
    c.res.toInt = size ∧ rest = [] := by
  have hword : size < UInt32.size := Nat.lt_trans hlt (by decide)
  rcases perform_entry_cases file [] target hword hoffset with
    ⟨res, rest', -, hnil, -⟩ | ⟨length, -, rest', hnil, hperform⟩
  · cases hnil
  · obtain ⟨rfl, rfl⟩ := hnil rfl
    rw [h] at hperform
    obtain ⟨rfl, -, hrest⟩ : _ ∧ _ ∧ _ := by simpa only [Prod.mk.injEq] using hperform
    refine ⟨?_, hrest⟩
    have hmin : (file.slice r.offset length).size = length := by
      rw [Bytes.size_slice]
      omega
    rw [hmin]
    exact Int32.toInt_ofInt_of_le (by omega) (by omega)

/-- Without results given in advance, a batch of reads inside the file brings whole
blocks. -/
theorem performAll_whole (target : ReadTarget) (hlt : size < 2 ^ 31)
    (hoffset : ∀ r ∈ reads, r.offset < UInt64.size)
    (hle : ∀ r ∈ reads, r.offset + size ≤ file.size) :
    let (completions, _, rest) := performAll file [] (reads.map (·.entry target size))
    (∀ c ∈ completions, c.res.toInt = size) ∧ rest = [] := by
  induction reads with
  | nil => exact ⟨nofun, rfl⟩
  | cons r reads ih =>
    rcases hperform : perform file [] (r.entry target size) with ⟨c, transfer?, rest⟩
    obtain ⟨hres, rfl⟩ := perform_whole hlt (hoffset r (List.mem_cons_self ..))
      (hle r (List.mem_cons_self ..)) hperform
    obtain ⟨hwhole, hrest⟩ := ih (fun r' hr' => hoffset r' (List.mem_cons_of_mem _ hr'))
      fun r' hr' => hle r' (List.mem_cons_of_mem _ hr')
    simp only [List.map_cons, performAll, hperform]
    refine ⟨fun c' hc' => ?_, hrest⟩
    rcases List.mem_cons.mp hc' with rfl | hc'
    · exact hres
    · exact hwhole c' hc'

end SimulatedKernel

end RingRead
