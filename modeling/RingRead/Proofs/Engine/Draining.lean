import RingRead.Proofs.Engine.Reaping

/-!
# Loops of an engine that end

Two loops of an engine have no bound of their own: a wait is repeated as long as it is
interrupted, and a drain goes on as long as completions come. The engine runs both with a
bound that it computes beforehand. Here each loop is a relation that knows no bound, and the
engine is shown to be in it, so the bound is never what ends it.

* **Waiting.** `e.Waits n answer e'` takes as many waits as the kernel interrupts, and one.
  A kernel that stops interrupting when it says so (`Kernel.Relents`) is waited for to the
  end (`waits_wait`).
* **Draining.** `e.Gathers mode n answer e'` takes one reap more than reads that come, and
  only the first reap is made in the given mode. The kernel may post entries as long as it
  likes: each read that comes takes a block off loan, so no more reads come than blocks are
  on loan (`gathers_drain`).
* **Asking.** Of all the reaps of a drain only the first one enters the kernel, and only to
  wait (`operations_drain`).
-/

namespace RingRead

variable {κ : Type} [Kernel κ]

section Waiting

/-! ## Waiting

The engine is given a number of repetitions by its kernel, so that its definition is a
recursion on that number. The relation `Waits` has no such number, and each of its rules
enters the kernel once. -/

/-- A kernel after it was waited for so many times in a row. What it answered is left out,
since here only the question is asked whether it goes on interrupting for ever. -/
def Kernel.afterWaits (kernel : κ) : Nat → κ
  | 0 => kernel
  | n + 1 => afterWaits (Kernel.enter kernel 0 1 enterGetEvents).kernel n

/-- A wait that is repeated whenever it is interrupted is interrupted only as often as the
kernel says. A kernel that is interrupted for ever has no such number. -/
def Kernel.Relents (kernel : κ) : Prop :=
  ∃ n ≤ Kernel.patience kernel, ∀ err,
    (Kernel.enter (afterWaits kernel n) 0 1 enterGetEvents).answer = .error err →
      err.isInterrupted = false

namespace Engine

/-- Waiting for a completion until a wait is not interrupted enters the kernel `n` times.
There is no rule for giving up, so an engine that waits in this sense has never run out of
repetitions. -/
inductive Waits : Engine κ → (n : Nat) → Except Error Unit → Engine κ → Prop
  | entered {e e' taken} (henter : e.enter 0 1 enterGetEvents = (.ok taken, e')) :
      Waits e 1 (.ok ()) e'
  | failed {e e' err} (henter : e.enter 0 1 enterGetEvents = (.error err, e'))
      (hfinal : err.isInterrupted = false) : Waits e 1 (.error (.enter err)) e'
  | again {e e₁ e' err n answer} (henter : e.enter 0 1 enterGetEvents = (.error err, e₁))
      (hinterrupted : err.isInterrupted = true) (hrest : Waits e₁ n answer e') :
      Waits e (n + 1) answer e'

variable {e : Engine κ}

/-- A wait that may be repeated often enough goes on to the end. Often enough means: as
often as it takes until a wait is not interrupted. -/
theorem waits_waitWithin {m retries : Nat} (hm : m ≤ retries)
    (h : ∀ err, (Kernel.enter (Kernel.afterWaits e.ring.kernel m) 0 1 enterGetEvents).answer =
      .error err → err.isInterrupted = false) :
    ∃ n ≤ retries + 1, e.Waits n (waitWithin retries e).1 (waitWithin retries e).2 := by
  induction retries generalizing e m with
  | zero =>
    rw [waitWithin]
    rcases henter : e.enter 0 1 enterGetEvents with ⟨err | taken, e₁⟩
    · obtain rfl := Nat.le_zero.mp hm
      have hfinal := h err (congrArg Prod.fst henter)
      simp only [hfinal]
      exact ⟨1, Nat.le_refl 1, .failed henter hfinal⟩
    · exact ⟨1, Nat.le_refl 1, .entered henter⟩
  | succ retries ih =>
    rw [waitWithin]
    rcases henter : e.enter 0 1 enterGetEvents with ⟨err | taken, e₁⟩
    · cases hinterrupted : err.isInterrupted with
      | false =>
        simp only [hinterrupted]
        exact ⟨1, by omega, .failed henter hinterrupted⟩
      | true =>
        cases m with
        | zero =>
          rw [h err (congrArg Prod.fst henter)] at hinterrupted
          cases hinterrupted
        | succ m =>
          -- the next wait is of the kernel that this one has left
          have hkernel : e₁.ring.kernel = (Kernel.enter e.ring.kernel 0 1 enterGetEvents).kernel :=
            congrArg (fun entered => entered.2.ring.kernel) henter.symm
          rw [Kernel.afterWaits, ← hkernel] at h
          obtain ⟨n, hn, hwaits⟩ := ih (Nat.le_of_succ_le_succ hm) h
          simp only [hinterrupted]
          exact ⟨n + 1, by omega, .again henter hinterrupted hwaits⟩
    · exact ⟨1, by omega, .entered henter⟩

/-- The bound of an engine is the patience of its kernel, and a kernel that relents does so
within its patience. -/
theorem waits_wait (h : Kernel.Relents e.ring.kernel) :
    ∃ n ≤ Kernel.patience e.ring.kernel + 1, e.Waits n e.wait.1 e.wait.2 := by
  obtain ⟨m, hm, hanswered⟩ := h
  exact waits_waitWithin hm hanswered

end Engine

end Waiting

section Draining

/-! ## Draining

The number of rounds of a drain is one more than there are blocks on loan. That this is
enough follows from what a reap that brings a read does to the loans, however many entries
the kernel posts and whatever they say. -/

namespace Engine

/-- Reaping as long as reads come, and without waiting after the first reap, takes `n`
reaps. There is no rule for stopping while reads come. A derivation is as long as the drain,
so that a bound on `n` is a bound on how often the loop goes round. -/
inductive Gathers :
    ReapMode → Engine κ → (n : Nat) → Except (Abort Error) (List Completion) → Engine κ → Prop
  | failed {mode e e' abort} (hreap : e.reap mode = (.error abort, e')) :
      Gathers mode e 1 (.error abort) e'
  | nothing {mode e e'} (hreap : e.reap mode = (.ok none, e')) : Gathers mode e 1 (.ok []) e'
  | more {mode e e₁ e' completion n} {answer : Except (Abort Error) (List Completion)}
      (hreap : e.reap mode = (.ok (some completion), e₁))
      (hrest : Gathers .nonBlocking e₁ n answer e') :
      Gathers mode e (n + 1) (answer.map (completion :: ·)) e'

variable {e e' : Engine κ} {mode : ReapMode} {n : Nat}

/-- A reap that brings a read takes a block off loan, and a read that was in flight if any
was. The number of blocks on loan is what bounds the rounds of a drain. -/
theorem counts_of_reap {completion : Completion} (h : e.pool.Sound)
    (hok : e.reap mode = (.ok (some completion), e')) :
    e'.inFlight.toNat = e.inFlight.toNat - 1 ∧ e'.loaned + 1 = e.loaned := by
  obtain ⟨c, e₁, hentry, hfinish⟩ := reap_eq_some hok
  have hdrifts := drifts_of_takeOrWait hentry
  have hflight := inFlight_of_drifts hdrifts
  have hlends := (Lends.refl h).of_drifts hdrifts
  obtain ⟨hloaned, rfl, -⟩ := finish_eq_ok hlends.sound hfinish
  have hcount : (e₁.returned c).loaned + 1 = e₁.loaned := Pool.count_reclaim hloaned
  rw [toNat_inFlight_returned, hflight, hcount]
  exact ⟨rfl, hlends.loaned_eq⟩

/-- With more rounds than blocks on loan, reads are collected to the end. Each read that
comes takes one block off loan, and without blocks on loan none can come. -/
theorem gathers_collect {rounds : Nat} (h : e.pool.Sound) (hrounds : e.loaned < rounds)
    (taken : List Completion) :
    ∃ n ≤ e.loaned + 1, ∃ answer, (collect rounds taken e).1 = answer.map (taken.reverse ++ ·) ∧
      Gathers .nonBlocking e n answer (collect rounds taken e).2 := by
  induction rounds generalizing e taken with
  | zero => exact absurd hrounds (Nat.not_lt_zero _)
  | succ rounds ih =>
    rw [collect]
    rcases hreap : e.reap .nonBlocking with ⟨abort | _ | completion, e₁⟩
    · exact ⟨1, Nat.le_add_left .., .error abort, rfl, .failed hreap⟩
    · exact ⟨1, Nat.le_add_left .., .ok [], by simp [Except.map], .nothing hreap⟩
    · obtain ⟨-, hloaned⟩ := counts_of_reap h hreap
      obtain ⟨n, hn, answer, hanswer, hrest⟩ :=
        ih (sound_of_reap h hreap) (by omega) (completion :: taken)
      refine ⟨n + 1, by omega, _, ?_, .more hreap hrest⟩
      rw [hanswer]
      rcases answer with abort | more
      · rfl
      · simp [Except.map]

/-- A drain goes on to the end, which comes after one reap more than blocks are on loan, at
the latest. -/
theorem gathers_drain (h : e.pool.Sound) (mode : ReapMode) :
    ∃ n ≤ e.loaned + 1, Gathers mode e n (e.drain mode).1 (e.drain mode).2 := by
  rw [drain]
  rcases hreap : e.reap mode with ⟨abort | _ | completion, e₁⟩
  · exact ⟨1, Nat.le_add_left .., .failed hreap⟩
  · exact ⟨1, Nat.le_add_left .., .nothing hreap⟩
  · obtain ⟨-, hloaned⟩ := counts_of_reap h hreap
    obtain ⟨n, hn, answer, hanswer, hrest⟩ :=
      gathers_collect (sound_of_reap h hreap) (Nat.lt_succ_self e₁.loaned) [completion]
    refine ⟨n + 1, by omega, ?_⟩
    change Gathers mode e (n + 1) (collect (e₁.loaned + 1) [completion] e₁).1
      (collect (e₁.loaned + 1) [completion] e₁).2
    rw [hanswer]
    exact .more hreap hrest

/-- A reap that brings nothing has changed nothing. -/
theorem drifts_of_reap_none (h : e.reap mode = (.ok none, e')) : e.Drifts e' :=
  drifts_of_takeOrWait (reap_eq_none h)

/-- A reap that may wait for reads in flight does not come back without one. It brings a
read or fails. -/
theorem reap_ne_none (h : 0 < e.inFlight) : e.reap .blocking ≠ (.ok none, e') :=
  fun hreap => takeOrWait_ne_none h (reap_eq_none hreap)

/-- What was gathered was on loan, each block once. There was one reap more, and each read
was one less in flight. -/
theorem Gathers.collects {answer : Except (Abort Error) (List Completion)} {done : List Completion}
    (h : Gathers mode e n answer e') (hsound : e.pool.Sound) (hok : answer = .ok done) :
    e.pool.Collects (done.map Completion.token) e'.pool ∧ n = done.length + 1 ∧
      e'.inFlight.toNat = e.inFlight.toNat - done.length := by
  induction h generalizing done with
  | failed => cases hok
  | nothing hreap =>
    cases hok
    have hdrifts := drifts_of_reap_none hreap
    exact ⟨collects_of_drifts hdrifts, rfl, congrArg UInt32.toNat (inFlight_of_drifts hdrifts)⟩
  | @more _ e e₁ e' completion n answer hreap hrest ih =>
    obtain ⟨more, hmore, rfl⟩ : ∃ more, answer = .ok more ∧ completion :: more = done := by
      rcases answer with abort | more
      · cases hok
      · exact ⟨more, rfl, Except.ok.inj hok⟩
    obtain ⟨hcollects, hcount, hflight⟩ := ih (sound_of_reap hsound hreap) hmore
    obtain ⟨hless, -⟩ := counts_of_reap hsound hreap
    refine ⟨(collects_of_reap hsound hreap).trans hcollects, ?_, ?_⟩
    · rw [hcount, List.length_cons]
    · rw [hflight, hless, List.length_cons]
      omega

/-- Nothing is gathered only if already the first reap brings nothing. -/
theorem Gathers.reap_of_nil {answer : Except (Abort Error) (List Completion)}
    (h : Gathers mode e n answer e') (hok : answer = .ok []) : e.reap mode = (.ok none, e') := by
  cases h with
  | failed => cases hok
  | nothing hreap => exact hreap
  | @more _ _ _ _ _ _ rest =>
    rcases rest with abort | more
    · cases hok
    · cases hok

/-- A drain that may wait for reads in flight lowers their number when it succeeds. So a
session that drains again and again comes to an end. -/
theorem inFlight_lt_of_drain {done : List Completion} (h : e.pool.Sound) (hflight : 0 < e.inFlight)
    (hok : e.drain .blocking = (.ok done, e')) : e'.inFlight < e.inFlight := by
  obtain ⟨n, -, hgathers⟩ := gathers_drain h .blocking
  rw [hok] at hgathers
  have hless : e'.inFlight.toNat = e.inFlight.toNat - done.length := (hgathers.collects h rfl).2.2
  have hpos : 0 < e.inFlight.toNat := UInt32.lt_iff_toNat_lt.mp hflight
  have hsome : 0 < done.length := by
    refine List.length_pos_of_ne_nil fun hnil => ?_
    exact reap_ne_none hflight (hgathers.reap_of_nil (congrArg Except.ok hnil))
  rw [UInt32.lt_iff_toNat_lt]
  omega

end Engine

end Draining

section Asking

/-! ## Asking

A drain is to wait at most once. That its later reaps do not wait is seen from what the
kernel is asked, so the engine runs on a kernel that puts this down. -/

/-- An access to the memory that is shared: no call, and so nothing that could take time. A
reap that does not wait consists of such operations alone. -/
def Operation.IsAccess (operation : Operation) : Prop := ∃ a, operation = .access a

/-- The operations by which a reap takes an entry or, if it may, waits for one. Submitting
is not among them: a reap hands nothing over. -/
def ReapMode.Permits (mode : ReapMode) (operation : Operation) : Prop :=
  operation.IsAccess ∨ mode = .blocking ∧ operation = .enter 0 1 enterGetEvents

namespace Engine

variable {e : Engine κ} {w w' w'' : Engine (Traced κ)} {P Q : Operation → Prop} {mode : ReapMode}

omit [Kernel κ] in
theorem isAccess_of_mem_takingOperations {r : Ring κ} {operation : Operation} (head : UInt32)
    (h : operation ∈ r.lookingOperations ++ r.takingOperations head) : operation.IsAccess := by
  simp only [Ring.lookingOperations, Ring.takingOperations, List.cons_append, List.nil_append,
    List.mem_cons, List.not_mem_nil, or_false] at h
  rcases h with rfl | rfl | rfl | rfl
  all_goals exact ⟨_, rfl⟩

/-- What is asked of the kernel between `w` and `w'` is all of one kind. The kernel is a
traced one, which keeps a list of all that it was asked. -/
def Asks (w : Engine (Traced κ)) (P : Operation → Prop) (w' : Engine (Traced κ)) : Prop :=
  ∃ operations, w'.ring.kernel.operations = w.ring.kernel.operations ++ operations ∧
    ∀ operation ∈ operations, P operation

omit [Kernel κ] in
theorem Asks.of_eq (h : w'.ring.kernel = w.ring.kernel) : w.Asks P w' :=
  ⟨[], by rw [h, List.append_nil], by simp⟩

omit [Kernel κ] in
/-- What is asked in two parts is of the kind if both parts are. -/
theorem Asks.trans (h : w.Asks P w') (h' : w'.Asks P w'') : w.Asks P w'' := by
  obtain ⟨operations, heq, hall⟩ := h
  obtain ⟨operations', heq', hall'⟩ := h'
  refine ⟨operations ++ operations', by rw [heq', heq, List.append_assoc], fun operation hmem => ?_⟩
  exact (List.mem_append.mp hmem).elim (hall operation) (hall' operation)

omit [Kernel κ] in
theorem Asks.mono (h : w.Asks P w') (hle : ∀ operation, P operation → Q operation) :
    w.Asks Q w' := by
  obtain ⟨operations, heq, hall⟩ := h
  exact ⟨operations, heq, fun operation hmem => hle operation (hall operation hmem)⟩

theorem asks_take (w : Engine (Traced κ)) : w.Asks Operation.IsAccess w.take.2 := by
  have hoperations := w.ring.operations_take
  refine ⟨_, (hoperations.trans (List.append_assoc ..)), fun operation hmem => ?_⟩
  split at hmem
  · exact isAccess_of_mem_takingOperations 0 (List.mem_append_left _ (by simpa using hmem))
  · exact isAccess_of_mem_takingOperations _ hmem

omit [Kernel κ] in
/-- Finishing an entry asks nothing. -/
theorem asks_finish (h : w.pool.Sound) (c : Cqe) : w.Asks P (w.finish c).2 := by
  obtain ⟨inFlight, hring⟩ := ring_finish h c
  exact .of_eq (by rw [hring])

/-- A reap that may not wait accesses memory, and a wait enters the kernel. -/
theorem asks_takeOrWait (w : Engine (Traced κ)) (mode : ReapMode) :
    w.Asks mode.Permits (w.takeOrWait mode).2 := by
  have htake (w : Engine (Traced κ)) : w.Asks mode.Permits w.take.2 :=
    (asks_take w).mono fun _ => Or.inl
  cases mode with
  | nonBlocking =>
    -- a reap that does not block is its first look
    have hsame : (w.takeOrWait .nonBlocking).2 = w.take.2 := by
      rw [takeOrWait]
      rcases w.take with ⟨err | _ | c, w'⟩
      · rfl
      · rfl
      · rfl
    rw [hsame]
    exact htake w
  | blocking =>
    apply takeOrWait_invariant
    · intro w' h
      exact h.trans (htake w')
    · intro w' h
      refine h.trans ⟨[.enter 0 1 enterGetEvents], rfl, ?_⟩
      simp [ReapMode.Permits]
    · exact .of_eq rfl

theorem asks_reap (h : w.pool.Sound) (mode : ReapMode) : w.Asks mode.Permits (w.reap mode).2 := by
  have hlooked := asks_takeOrWait w mode
  have hsound : (w.takeOrWait mode).2.pool.Sound := sound_of_drifts h (drifts_of_takeOrWait rfl)
  rcases w.reap_looked mode with hsame | ⟨c, hfinished⟩
  · rw [hsame]
    exact hlooked
  · rw [hfinished]
    exact hlooked.trans (asks_finish hsound c)

/-- After the first reap, gathering only accesses memory. So a drain waits once at most,
however many reads it returns. -/
theorem Gathers.asks {n : Nat} {answer : Except (Abort Error) (List Completion)}
    (h : Gathers mode w n answer w') (hsound : w.pool.Sound) :
    (w.reap mode).2.Asks Operation.IsAccess w' := by
  induction h with
  | failed hreap =>
    rw [hreap]
    exact .of_eq rfl
  | nothing hreap =>
    rw [hreap]
    exact .of_eq rfl
  | more hreap hrest ih =>
    have hsound' := sound_of_reap hsound hreap
    rw [hreap]
    refine ((asks_reap hsound' .nonBlocking).mono ?_).trans (ih hsound')
    intro operation hpermits
    exact hpermits.resolve_right nofun

/-- Of all that a drain asks of the kernel, only what its first reap asks may be a wait. -/
theorem operations_drain (h : e.pool.Sound) (mode : ReapMode) :
    ∃ rest, (e.trace.drain mode).2.ring.kernel.operations =
        (e.trace.reap mode).2.ring.kernel.operations ++ rest ∧
      (∀ operation ∈ (e.trace.reap mode).2.ring.kernel.operations, mode.Permits operation) ∧
      ∀ operation ∈ rest, operation.IsAccess := by
  have hsound : e.trace.pool.Sound := h
  obtain ⟨n, -, hgathers⟩ := gathers_drain hsound mode
  obtain ⟨rest, hrest, haccess⟩ := hgathers.asks hsound
  obtain ⟨first, hfirst, hpermits⟩ := asks_reap hsound mode
  have hnone : e.trace.ring.kernel.operations = [] := rfl
  rw [hnone, List.nil_append] at hfirst
  exact ⟨rest, hrest, hfirst ▸ hpermits, haccess⟩

end Engine

end Asking

end RingRead
