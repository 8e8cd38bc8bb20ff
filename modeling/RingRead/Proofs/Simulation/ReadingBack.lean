import RingRead.Proofs.Simulation.Provenance

/-!
# Block sizes that read back

A read asks for one block, as an unsigned 32-bit number of bytes. Its completion says how
many were copied, as a signed one. A pool takes every block size that fits into the former,
and one from half of them on does not fit into the latter: it reads back as a negative
number, and a reap takes that for a failure of the read. One size reads back as the smallest
number, which has no negative, and the reap overflows.

* **One read.** A read of a whole block inside the file has the block size, cut down to a
  signed number, as its result (`SimulatedKernel.perform_inside`).
* **A run.** Each completion that a reap takes comes from a read that was staged in the run
  (`Engine.performed_of_taken`), so `Engine.reap_of_inside` says for each of them how it
  reads back.
-/

namespace RingRead

/-- In the upper half of the range the number that is read back is negative. There the sign
bit is set. -/
theorem ofInt_neg_iff {size : Nat} (h : size < UInt32.size) :
    Int32.ofInt size < 0 ↔ ¬size < 2 ^ 31 := by
  have hword : UInt32.size = 4294967296 := rfl
  rw [Int32.lt_iff_toInt_lt, toInt_ofInt_word h, Int32.toInt_zero]
  split
  · omega
  · omega

/-- Just half of the range is read back as the smallest number. -/
theorem ofInt_eq_minValue_iff {size : Nat} (h : size < UInt32.size) :
    Int32.ofInt size = Int32.minValue ↔ size = 2 ^ 31 := by
  have hword : UInt32.size = 4294967296 := rfl
  rw [← Int32.toInt_inj, toInt_ofInt_word h, Int32.toInt_minValue]
  split
  · omega
  · omega

namespace SimulatedKernel

variable {file : Bytes} {s : Sqe}

/-- A read inside the file, of which no result was given in advance, copies all that it asks
for. -/
theorem perform_inside (hread : s.opcode = opRead)
    (hinside : s.off.toNat + s.len.toNat ≤ file.size) :
    (perform file [] s).1 = { userData := s.userData, res := Int32.ofInt s.len.toNat } := by
  have hnop : opRead ≠ opNop := by decide
  have hsize : (file.slice s.off.toNat s.len.toNat).size = s.len.toNat := by
    rw [Bytes.size_slice]
    omega
  simp only [perform, hread, hnop, if_true, if_false, hsize]

end SimulatedKernel

namespace Engine

variable {e e' e₀ : Engine SimulatedKernel} {run : List Incident} {s : Sqe} {c : Cqe}
variable {kernel : SimulatedKernel} {capacity serial : UInt32} {config : PoolConfig}
  {mappings : MappingAnswers}
variable {mode : ReapMode}

/-! ## Reads of a run

To say how a completion came about, it is traced back to the entry that it was made of.
Where nothing is forged and nothing told in advance, there is no other source. -/

/-- What is staged are reads of one block each, at whatever offset. -/
theorem read_of_mem_stagedBy {incident : Incident} (h : e.Reachable)
    (hs : s ∈ e.stagedBy incident) : s.opcode = opRead ∧ s.len.toNat = e.blockSize := by
  have hsize : e.blockSize < UInt32.size := (Pool.blockSize_bounds h.valid).2
  cases incident with
  | call call =>
    cases call with
    | submitReads target requested policy =>
      rw [stagedBy] at hs
      split at hs
      · cases hs
      · obtain ⟨r, -, rfl⟩ := List.mem_map.mp hs
        exact ⟨rfl, UInt32.toNat_ofNat_of_lt' hsize⟩
    | _ => cases hs
  | _ => cases hs

theorem config_undergo (h : e.Reachable) (incident : Incident) :
    (e.undergo incident).pool.config = e.pool.config := by
  cases incident with
  | call call => exact config_perform h.balanced call
  | inject _ | interrupt | post _ => rfl

theorem config_undergoAll (h : e.Reachable) (run : List Incident) :
    (e.undergoAll run).pool.config = e.pool.config := by
  induction run generalizing e with
  | nil => rfl
  | cons incident rest ih => exact (ih (h.undergo incident)).trans (config_undergo h incident)

theorem read_of_mem_stagedAlong (h : e.Reachable) (hs : s ∈ e.stagedAlong run) :
    s.opcode = opRead ∧ s.len.toNat = e.blockSize := by
  induction run generalizing e with
  | nil => cases hs
  | cons incident rest ih =>
    rcases List.mem_append.mp hs with hnow | hlater
    · exact read_of_mem_stagedBy h hnow
    · have hsize : (e.undergo incident).blockSize = e.blockSize :=
        congrArg PoolConfig.blockSize (config_undergo h incident)
      exact hsize ▸ ih (h.undergo incident) hlater

/-- The terms of a run in which nothing is told from outside: what is answered comes of the
entries that are staged. -/
def quietTerms (file : Bytes) (entries : List Sqe) : Terms where
  asked s := s ∈ entries
  told _ := False
  answered c := ∃ s ∈ entries, (SimulatedKernel.perform file [] s).1 = c

/-- These terms hold: what a kernel without results given in advance makes of such an entry
is among its answers. -/
theorem hold_quietTerms (file : Bytes) (entries : List Sqe) :
    (quietTerms file entries).Hold file := by
  rw [Terms.Hold]
  intro injected s htold hs
  obtain rfl : injected = [] := List.eq_nil_iff_forall_not_mem.mpr htold
  exact ⟨s, hs, rfl⟩

/-- If nothing is told from outside, a completion that is taken comes of an entry that was
staged. -/
theorem performed_of_taken (hcreate : create kernel capacity serial config mappings = .ok e₀)
    (hpending : kernel.pending = []) (hinjected : kernel.injected = [])
    (hinject : ∀ res, Incident.inject res ∉ run) (hpost : ∀ c, Incident.post c ∉ run)
    (htaken : (e₀.undergoAll run).takeOrWait mode = (.ok (some c), e')) :
    ∃ s ∈ e₀.stagedAlong run, (SimulatedKernel.perform kernel.file [] s).1 = c := by
  have hnone : ∀ res ∈ kernel.injected, False := by
    rw [hinjected]
    exact fun res hres => absurd hres List.not_mem_nil
  let terms := quietTerms kernel.file (e₀.stagedAlong run)
  have hquiet : ∀ c ∈ kernel.pending, terms.answered c := by
    rw [hpending]
    exact fun c hc => absurd hc List.not_mem_nil
  obtain ⟨n, hnew⟩ := meets_create hcreate hquiet hnone
    (hold_quietTerms kernel.file (e₀.stagedAlong run))
  have hallow : ∀ incident ∈ run, terms.Allow incident := by
    intro incident hincident
    cases incident with
    | inject res => exact absurd hincident (hinject res)
    | post c => exact absurd hincident (hpost c)
    | call _ | interrupt => trivial
  have hmeets := meets_undergoAll hnew (.created hcreate) (fun _ hs => hs) hallow
  exact (meets_takeOrWait hmeets mode).2 c (congrArg Prod.fst htaken)

/-- If every batch fits beside the entries that wait, a completion that is taken names a
block on loan. -/
theorem loaned_of_taken (hcreate : create kernel capacity serial config mappings = .ok e₀)
    (hpending : kernel.pending = []) (hpost : ∀ c, Incident.post c ∉ run)
    (hfits : Along Fits e₀ run)
    (htaken : (e₀.undergoAll run).takeOrWait mode = (.ok (some c), e')) :
    e'.pool.state? c.userData.toNat = some .loaned := by
  obtain ⟨n, hnew, -, hfresh⟩ := tracks_create hcreate
  obtain ⟨entries, htracks⟩ := hnew.undergoAll hfits
  have howes := hnew.owes_undergoAll hfits (hfresh hpending) hpost
  -- while the reap waits, nothing is taken from the entries, and nothing more is owed
  have hstep {e₁ e₂ : Engine SimulatedKernel} (howes₁ : e₁.Owes)
      (hrests : e₁.Rests e₂ n entries) : e₂.Tracks n entries ∧ e₂.Owes :=
    ⟨hrests.tracks, hrests.owes howes₁⟩
  obtain ⟨e₁, ⟨htracks₁, howes₁⟩, htake⟩ :=
    take_of_takeOrWait (P := fun e => e.Tracks n entries ∧ e.Owes)
      (fun _ h => hstep h.2 (h.1.rests_take rfl).1) (fun _ h => hstep h.2 (h.1.rests_enter rfl))
      ⟨htracks, howes⟩ htaken
  have hpool : e₁.pool = e'.pool := congrArg (fun result => result.2.pool) htake
  have hanswer : e₁.ring.take.1 = .ok (some c) := congrArg Prod.fst htake
  rw [← hpool]
  apply howes₁.loaned
  rcases Ring.take_backlog htracks₁.layout htracks₁.backlog with
    hnone | ⟨c', kernel', hsome, -, htags⟩
  · have hempty : e₁.ring.take.1 = .ok none := congrArg Prod.fst hnone
    rw [hanswer] at hempty
    cases hempty
  · have hfound : e₁.ring.take.1 = .ok (some c') := congrArg Prod.fst hsome
    rw [hanswer] at hfound
    cases hfound
    exact htags.mem_iff.mpr (List.mem_cons_self ..)

/-! ## How a block size reads back

The length of a read has 32 bits without a sign, and its result as many with one. Sizes
below 2 ^ 31 are the same in both. -/

/-- What the completion of a whole block says. -/
theorem verdict_of_size (hsize : e.blockSize < UInt32.size)
    (hres : c.res = Int32.ofInt e.blockSize) :
    e.verdict c =
      if e.blockSize < 2 ^ 31 then .ok ⟨e.pool.issue c.userData.toUInt32, e.blockSize⟩
      else if e.blockSize = 2 ^ 31 then .error (.overflow .negation)
      else .error (.failed (.completionFailed c.userData (-c.res))) := by
  have hneg : c.res < 0 ↔ ¬e.blockSize < 2 ^ 31 := hres ▸ ofInt_neg_iff hsize
  have hsmallest : c.res = Int32.minValue ↔ e.blockSize = 2 ^ 31 :=
    hres ▸ ofInt_eq_minValue_iff hsize
  rw [verdict]
  by_cases hsmall : e.blockSize < 2 ^ 31
  · have hread : c.res.toInt.toNat = e.blockSize := by
      rw [hres, toInt_ofInt_word hsize, if_pos hsmall, Int.toNat_natCast]
    rw [if_neg (hneg.not.mpr (not_not.mpr hsmall)), if_pos hsmall, hread, if_neg (by simp)]
  · rw [if_pos (hneg.mpr hsmall), if_neg hsmall]
    rcases c.refusal_cases with ⟨hne, hrefusal⟩ | ⟨hmin, hrefusal⟩
    · rw [hrefusal, if_neg (hsmallest.not.mp hne)]
    · rw [hrefusal, if_pos (hsmallest.mp hmin)]

/-- What a completion says does not depend on what happens outside. -/
theorem verdict_of_drifts (h : e.Drifts e') (c : Cqe) : e'.verdict c = e.verdict c := by
  have hconfig := config_of_drifts h
  obtain ⟨kernel, transfers, rfl⟩ := h
  have hissue := Pool.issue_of_serial_eq (Pool.serial_receiveAll e.pool transfers)
    c.userData.toUInt32
  have hsize : (⟨{ e.ring with kernel }, e.pool.receiveAll transfers⟩ :
      Engine SimulatedKernel).blockSize = e.blockSize := congrArg PoolConfig.blockSize hconfig
  simp only [verdict, hsize, hissue]

/-- **Which block sizes read back.** Take an engine on any simulated kernel through any run
in which no result is given in advance and no completion is forged. The kernel may defer,
reverse and drop completions, be interrupted, and take a part of what it is offered. Let a
reap come to a completion. Then

* the completion is what the kernel made of a read of one block that was staged in the run,
  and its block is on loan if every batch did fit beside the entries that waited;
* if that read ends inside the file, the result is the block size as a signed number. This
  is not negative, and is the block size, just if the block size is below 2 ^ 31. Then the
  reap returns the completed read of a whole block, and otherwise it fails as if the kernel
  had refused the read. At 2 ^ 31 itself it does not even fail, since the result has no
  negative.
-/
theorem reap_of_inside (hcreate : create kernel capacity serial config mappings = .ok e₀)
    (hpending : kernel.pending = []) (hinjected : kernel.injected = [])
    (hinject : ∀ res, Incident.inject res ∉ run) (hpost : ∀ c, Incident.post c ∉ run)
    (htaken : (e₀.undergoAll run).takeOrWait mode = (.ok (some c), e')) :
    let e := e₀.undergoAll run
    let size := config.blockSize
    (∃ s ∈ e₀.stagedAlong run, (SimulatedKernel.perform kernel.file [] s).1 = c ∧
      s.opcode = opRead ∧ s.len.toNat = size) ∧
    (Along Fits e₀ run → e'.pool.state? c.userData.toNat = some .loaned) ∧
    ∀ s : Sqe, s.opcode = opRead → s.len.toNat = size → s.off.toNat + size ≤ kernel.file.size →
      (SimulatedKernel.perform kernel.file [] s).1 = c →
        (c.res.toInt = if size < 2 ^ 31 then (size : Int) else size - 2 ^ 32) ∧
        (0 ≤ c.res ↔ size < 2 ^ 31) ∧
        (e'.pool.state? c.userData.toNat = some .loaned →
          (e.reap mode).1 =
            if size < 2 ^ 31 then .ok (some ⟨e.pool.issue c.userData.toUInt32, size⟩)
            else if size = 2 ^ 31 then .error (.overflow .negation)
            else .error (.failed (.completionFailed c.userData (-c.res)))) := by
  intro e size
  have hnew : e₀.Reachable := .created hcreate
  have hreachable : e.Reachable := hnew.undergoAll run
  have hsize₀ : e₀.blockSize = size :=
    congrArg PoolConfig.blockSize (Pool.config_create (create_eq_ok hcreate).1)
  have hsize : e.blockSize = size :=
    (congrArg PoolConfig.blockSize (config_undergoAll hnew run)).trans hsize₀
  have hlt : e.blockSize < UInt32.size := (Pool.blockSize_bounds hreachable.valid).2
  have hdrifts : e.Drifts e' := drifts_of_takeOrWait htaken
  refine ⟨?_, fun hfits => loaned_of_taken hcreate hpending hpost hfits htaken, ?_⟩
  · obtain ⟨s, hs, hperformed⟩ :=
      performed_of_taken hcreate hpending hinjected hinject hpost htaken
    obtain ⟨hread, hlen⟩ := read_of_mem_stagedAlong hnew hs
    exact ⟨s, hs, hperformed, hread, hlen.trans hsize₀⟩
  · intro s hread hlen hinside hperformed
    -- the kernel has read the whole block, and the result is its size as a signed word
    have hres : c.res = Int32.ofInt e.blockSize := by
      rw [← hperformed, SimulatedKernel.perform_inside hread (hlen ▸ hinside), hlen, hsize]
    refine ⟨?_, ?_, fun hloaned => ?_⟩
    · rw [hres, toInt_ofInt_word hlt, hsize]
      rfl
    · rw [← Int32.not_lt, hres, ofInt_neg_iff hlt, not_not, hsize]
    · have hsound : e'.pool.Sound := sound_of_drifts hreachable.balanced.sound hdrifts
      rw [reap_answer_of_loaned hsound htaken hloaned, verdict_of_drifts hdrifts,
        verdict_of_size hlt hres, hsize]
      split
      · rfl
      · split
        · rfl
        · rfl

/-- The kernel takes one entry at a time and keeps completions back, so the read of block 1
is still waiting when the wait for that of block 0 ends. -/
theorem reap_after_partial_batch :
    ∃ e₀ : Engine SimulatedKernel,
      create { file := SimulatedKernel.patternedFile 4 8, deferred := true, acceptLimit := some 1 }
        4 7 { blockSize := 8, alignment := 8 } = .ok e₀ ∧
        let run : List Incident := [.call (.submitReads ⟨3, 32⟩ 2 ({} : Walker))]
        let e := e₀.undergoAll run
        let looked := e.takeOrWait .blocking
        Along Fits e₀ run ∧ looked.1 = .ok (some { userData := 0, res := 8 }) ∧
          (e.reap .blocking).1 = .ok (some ⟨⟨0, 7⟩, 8⟩) := by
  obtain ⟨e₀, hcreate⟩ : ∃ e₀ : Engine SimulatedKernel,
      create { file := SimulatedKernel.patternedFile 4 8, deferred := true, acceptLimit := some 1 }
        4 7 { blockSize := 8, alignment := 8 } = .ok e₀ := ⟨_, rfl⟩
  refine ⟨e₀, hcreate, ?_⟩
  intro run e looked
  have hfits : Along Fits e₀ run := by
    cases hcreate
    decide +kernel
  have hlooked : looked.1 = .ok (some { userData := 0, res := 8 }) := by
    cases hcreate
    decide +kernel
  have hserial : e.pool.serial = 7 := by
    cases hcreate
    decide +kernel
  obtain ⟨-, hloaned, hread⟩ := reap_of_inside hcreate rfl rfl (by simp [run]) (by simp [run])
    (Prod.ext hlooked rfl)
  obtain ⟨-, -, hreap⟩ := hread (.read 3 0 (Address.ofIndex 0) 8 0) (by decide) (by decide)
    (by decide +kernel) (by decide +kernel)
  refine ⟨hfits, hlooked, (hreap (hloaned hfits)).trans ?_⟩
  rw [if_pos (by decide), Pool.issue, hserial]
  rfl

/-- With blocks of 2147484160 bytes, each read that succeeds fails. -/
theorem reap_of_large_block :
    ∃ e₀ : Engine SimulatedKernel,
      create { file := .zeros 2147484160 } 1 7 { blockSize := 2147484160 } = .ok e₀ ∧
        let e := e₀.undergoAll [.call (.submitReads ⟨3, 2147484160⟩ 1 ({} : Walker))]
        let looked := e.takeOrWait .nonBlocking
        looked.1 = .ok (some { userData := 0, res := -2147483136 }) ∧
          ¬(0 : Int32) ≤ -2147483136 ∧
          looked.2.pool.state? 0 = some .loaned ∧
          (e.reap .nonBlocking).1 = .error (.failed (.completionFailed 0 2147483136)) := by
  refine ⟨_, rfl, ?_, ?_, ?_, ?_⟩
  all_goals decide +kernel

end Engine

end RingRead
