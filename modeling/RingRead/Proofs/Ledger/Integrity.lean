import RingRead.Proofs.Ledger.Basic

/-!
# The data of completions

A completion that was returned has its data until its block is given back. When a completion
is reaped the block goes from loan into the hands of the caller with what the kernel has
delivered (`Engine.ReapsAll`), and nothing that happens later writes into a block that is
held (`Pool.Keeps`). So every completion that the ledger of a run still owns is secured
(`Ledger.secured_run`).
-/

namespace RingRead

/-! ## One completion

The data of a read arrive while its block is on loan. When the read is reaped the block is
held, and from then on it is written to by its holder alone, who in a ledger only reads. -/

namespace Engine

variable {e e' : Engine SimulatedKernel} {d : Delivery}

/-- A completion answers an outstanding read, and its block is held with the data of this
read. The completion reports a whole block. -/
def Secures (e : Engine SimulatedKernel) (d : Delivery) : Prop :=
  ∃ r, d.read? = some r ∧ d.completion = ⟨e.pool.issue r.block, e.blockSize⟩ ∧
    e.pool.state? r.block.toNat = some .held ∧ e.pool.Holds e.ring.kernel.file r

/-- What keeps held blocks as they are keeps completions secured. -/
theorem Keeps.secures (h : e.Keeps e') (hsecures : e.Secures d) : e'.Secures d := by
  obtain ⟨r, hread, hcompletion, hheld, hholds⟩ := hsecures
  refine ⟨r, hread, ?_, h.pool.state_eq _ hheld, ?_⟩
  · rw [hcompletion, h.blockSize_eq, Pool.issue_of_serial_eq h.pool.serial_eq]
  · rw [h.settings.file_eq]
    exact hholds.of_keeps h.pool hheld

/-- Giving back a block with another token does not touch the block of a completion. -/
theorem Secures.release {token : Token} (h : e.Secures d) (hcheck : e.pool.check token = .ok ())
    (hne : d.completion.token ≠ token) : (e.release token).2.Secures d := by
  obtain ⟨r, hread, hcompletion, hheld, hholds⟩ := h
  have hmoves := Pool.moves_release hcheck
  have hother : r.block.toNat ∉ [token.id.toNat] := by
    rw [List.mem_singleton, UInt32.toNat_inj]
    intro heq
    apply hne
    rw [hcompletion, Pool.issue, heq, ← (Pool.check_eq_ok_iff.mp hcheck).2]
  have hsize : (e.release token).2.blockSize = e.blockSize :=
    congrArg PoolConfig.blockSize hmoves.config_eq
  have hissue : (e.release token).2.pool.issue r.block = e.pool.issue r.block :=
    Pool.issue_of_serial_eq hmoves.serial_eq r.block
  refine ⟨r, hread, ?_, (hmoves.state_of_not_mem _ hother).trans hheld, ?_⟩
  · rw [hcompletion, hsize, hissue]
  · exact hholds.of_bytes_eq hsize (hmoves.bytes_of_not_mem _ hother)

/-- The token of a completion is good, so its block can be read and given back. -/
theorem Secures.check_eq_ok (h : e.Secures d) : e.pool.check d.completion.token = .ok () := by
  obtain ⟨r, -, hcompletion, hheld, -⟩ := h
  rw [hcompletion]
  exact Pool.check_eq_ok_iff.mpr ⟨hheld, rfl⟩

/-- What a secured completion says about its data. -/
theorem Secures.data_eq (h : e.Secures d) :
    d.completion.bytes = e.blockSize ∧
      ∃ r, d.read? = some r ∧ r.tag = d.completion.token.tag ∧
        r.offset + e.blockSize ≤ e.ring.kernel.file.size ∧
        ∃ bytes, e.data d.completion.token = .ok bytes ∧
          bytes.toList = (e.ring.kernel.file.toList.drop r.offset).take e.blockSize := by
  have hcheck := h.check_eq_ok
  obtain ⟨r, hread, hcompletion, -, bytes, hbytes, hlist, hle⟩ := h
  refine ⟨by rw [hcompletion], r, hread, by rw [hcompletion]; rfl, hle, bytes, ?_, hlist⟩
  rw [data, Pool.data, hcheck, hcompletion]
  change Except.ok ((e.pool.bytes? r.block.toNat).getD _) = _
  rw [hbytes, Option.getD_some]

end Engine

/-! ## All completions

A run secures completions as they come and keeps them secured as long as they are owned. A
block that is given back may be loaned again and written to, and so its completion is struck
off in the same event. -/

namespace Ledger

open Engine

variable {e e₀ : Engine SimulatedKernel} {l : Ledger} {n : UInt32} {reads : List Read} {r : Read}
variable {kernel : SimulatedKernel} {capacity serial : UInt32} {config : PoolConfig}
  {mappings : MappingAnswers}

/-- An outstanding read is found by its tag. -/
theorem find?_tag (hnodup : (reads.map Read.block).Nodup) (hr : r ∈ reads) :
    reads.find? (fun r' => r'.tag = r.tag) = some r := by
  induction reads with
  | nil => cases hr
  | cons r' reads ih =>
    obtain ⟨hnot, hnodup⟩ := List.nodup_cons.mp hnodup
    rcases List.mem_cons.mp hr with rfl | hr
    · exact List.find?_cons_of_pos (decide_eq_true rfl)
    · have hne : r'.tag ≠ r.tag := fun htag =>
        hnot (Read.tag_inj.mp htag ▸ List.mem_map_of_mem hr)
      rw [List.find?_cons_of_neg (by simpa using hne)]
      exact ih hnodup hr

/-- Every completion that the ledger owns has its data: its block is held, and holds what
the file has at the offset of the read that it answered. Those that were given back are not
owned any longer, and of their blocks nothing is said. -/
def Secured (l : Ledger) : Prop := ∀ d ∈ l.owned, l.engine.Secures d

/-- What reaps have brought together is secured, and what was secured before stays so. A
drain that fails has brought nothing together, and its reads are not in the books. -/
theorem Secured.reaped (h : l.Secured) (htracks : l.Tracks e₀ n) (modes : List ReapMode)
    {completions : List Completion}
    (hgather : gather (reapAll modes l.engine).1 = .ok completions ∨ completions = []) :
    (l.reaped modes completions).Secured := by
  obtain ⟨taken, rest, hreads, hall, hcarries⟩ := reapsAll_reapAll htracks.consistent modes
  have hkeeps := hcarries.keeps
  intro d hd
  rcases List.mem_append.mp hd with hd | hd
  · obtain ⟨completion, hcompletion, rfl⟩ := List.mem_map.mp hd
    rcases hgather with hgather | rfl
    · obtain ⟨returned, hfirst, rfl, hreturned⟩ := hall.gathered completions hgather
      obtain ⟨r, hr, rfl⟩ := List.mem_map.mp hcompletion
      obtain ⟨hheld, hholds⟩ := hreturned r hr
      have hmem : r ∈ l.outstanding := by
        rw [hreads]
        exact List.mem_append_left _ (hfirst.subset hr)
      -- the read is found by its tag, and the token was issued for its block
      refine ⟨r, find?_tag htracks.consistent.nodup hmem, ?_, hheld, ?_⟩
      · change _ = Completion.mk ((reapAll modes l.engine).2.pool.issue r.block)
          (reapAll modes l.engine).2.blockSize
        rw [hkeeps.blockSize_eq, Pool.issue_of_serial_eq hkeeps.pool.serial_eq]
      · change Pool.Holds _ (reapAll modes l.engine).2.ring.kernel.file r
        rw [hkeeps.settings.file_eq]
        exact hholds
    · cases hcompletion
  · exact hkeeps.secures (h d hd)

/-- What a single reap has returned, it has brought together. -/
theorem gather_reap (e : Engine SimulatedKernel) (mode : ReapMode) :
    gather (reapAll [mode] e).1 = .ok ((e.reap mode).1.toOption.getD none).toList ∨
      ((e.reap mode).1.toOption.getD none).toList = [] := by
  rw [reapAll]
  rcases (e.reap mode).1 with err | (_ | completion)
  · exact Or.inr rfl
  · exact Or.inl rfl
  · exact Or.inl rfl

/-- What a drain has returned, its reaps have brought together. -/
theorem gather_drain (e : Engine SimulatedKernel) (mode : ReapMode) :
    gather (reapAll (e.drainModes mode) e).1 = .ok ((e.drain mode).1.toOption.getD []) ∨
      (e.drain mode).1.toOption.getD [] = [] := by
  rw [drain_eq_reapAll]
  rcases gather (reapAll (e.drainModes mode) e).1 with err | completions
  · exact Or.inr rfl
  · exact Or.inl rfl

/-- Every event keeps the completions secured that it leaves to the ledger. The blocks of
these are held, and the kernel copies into blocks on loan only. -/
theorem Secured.step (h : l.Secured) (htracks : l.Tracks e₀ n) (event : Event) :
    (l.step event).Secured := by
  cases event with
  | call call =>
    cases call with
    | submitReads target requested policy =>
      obtain ⟨-, -, -, hkeeps, -⟩ :=
        submitReads_outcome htracks.consistent target requested policy
      exact fun d hd => hkeeps.secures (h d hd)
    | reap mode => exact h.reaped htracks [mode] (gather_reap l.engine mode)
    | drain mode => exact h.reaped htracks _ (gather_drain l.engine mode)
    | release token =>
      intro d hd
      obtain ⟨hd, hne⟩ := List.mem_filter.mp hd
      -- a completion whose token is given back is struck off, whether or not the release succeeds
      rcases hcheck : l.engine.pool.check token with err | _
      · rw [Ledger.step, release_of_error hcheck]
        exact h d hd
      · exact (h d hd).release hcheck (of_decide_eq_true hne)
  | inject res => exact h
  | interrupt => exact h

theorem secured_run (h : l.Secured) (htracks : l.Tracks e₀ n) (events : List Event) :
    (l.run events).Secured := by
  induction events generalizing l with
  | nil => exact h
  | cons event rest ih => exact ih (h.step htracks event) (tracks_step htracks event)

/-- A new ledger owns no completions. -/
theorem secured_opening (e : Engine SimulatedKernel) (start : UInt32) :
    (opening e start).Secured := fun _ hd => absurd hd List.not_mem_nil

/-- After every run, each completion that was returned, and whose token was not given back
since, reports a whole block and answers one of the reads that were outstanding. Its data is
the part of the file that starts at the offset of this read. -/
theorem data_of_owned (hcreate : Engine.create kernel capacity serial config mappings = .ok e)
    (hlimit : kernel.acceptLimit = none) (hpending : kernel.pending = []) (start : UInt32)
    (events : List Event) :
    let l := (opening e start).run events
    ∀ d ∈ l.owned, d.completion.bytes = config.blockSize ∧
      ∃ r, d.read? = some r ∧ r.tag = d.completion.token.tag ∧
        r.offset + config.blockSize ≤ kernel.file.size ∧
        ∃ bytes, l.engine.data d.completion.token = .ok bytes ∧
          bytes.toList = (kernel.file.toList.drop r.offset).take config.blockSize := by
  intro l d hd
  obtain ⟨hopening, hleads⟩ := tracks_opening hcreate hlimit hpending start
  have htracks := tracks_run hopening events
  have hsecured : l.Secured := secured_run (secured_opening e start) hopening events
  have hfile : l.engine.ring.kernel.file = kernel.file :=
    (hleads.settings.trans htracks.settings).file_eq
  have hsize : l.engine.blockSize = config.blockSize :=
    htracks.blockSize_eq.trans (blockSize_opening hcreate start)
  rw [← hfile, ← hsize]
  exact (hsecured d hd).data_eq

/-- Three reads are drained, one block is given back and loaned for another read, which has
not come back. The other two still have their data. -/
theorem data_after_reuse :
    ∃ e : Engine SimulatedKernel,
      Engine.create
          { file := SimulatedKernel.patternedFile 4 8, reversed := true, injected := [9] } 4 7
          { blockSize := 8, alignment := 8 } = .ok e ∧
        let l := (opening e 0).run
          [.call (.submitReads ⟨3, 32⟩ 3 ({} : Walker)), .call (.drain .blocking),
            .call (.release ⟨1, 7⟩), .call (.submitReads ⟨3, 32⟩ 1 (⟨3⟩ : Walker))]
        l.outstanding = [⟨1, 24⟩] ∧ l.owned.map Delivery.read? = [some ⟨2, 16⟩, some ⟨0, 0⟩] ∧
          ∀ d ∈ l.owned, d.completion.bytes = 8 ∧
            ∃ r, d.read? = some r ∧ r.tag = d.completion.token.tag ∧
              r.offset + 8 ≤ (SimulatedKernel.patternedFile 4 8).size ∧
              ∃ bytes, l.engine.data d.completion.token = .ok bytes ∧
                bytes.toList =
                  ((SimulatedKernel.patternedFile 4 8).toList.drop r.offset).take 8 := by
  refine ⟨_, rfl, ?_, ?_, ?_⟩
  · decide +kernel
  · decide +kernel
  · exact @data_of_owned _
      { file := SimulatedKernel.patternedFile 4 8, reversed := true, injected := [9] } 4 7
      { blockSize := 8, alignment := 8 } [] rfl rfl rfl 0 _

end Ledger

end RingRead
