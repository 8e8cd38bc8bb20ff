import RingRead.Proofs.Engine.Calls

/-!
# Kernels in lockstep

Two kernels run in lockstep under a relation if related states answer alike and stay
related, whatever an engine asks of them. Then engines on them cannot be told apart by what
they answer, and what they leave behind differs in the states of their kernels alone.

* **Kernels.** `Kernel.Lockstep R` has one law for each operation that an engine uses. A
  wait is one operation here, with all of its repetitions, so the kernels may differ in how
  often they interrupt it.
* **Engines.** `e.Paired R e'` says that `e'` is `e` with its kernel in a related state.
  Every call on paired engines gives the same answer and paired engines
  (`Kernel.Lockstep.submitReads`, `reap`, `drain`), and so does every run of calls
  (`Kernel.Lockstep.performAll`).
* **Wrappers.** A kernel that wraps another one and adds nothing to its answers runs in
  lockstep with it (`Kernel.Wraps.lockstep`).
* **Properties.** A kernel runs in lockstep with itself, so what each of its operations
  keeps is kept by every call (`Kernel.Keeps.perform`).
-/

namespace RingRead

variable {κ κ' π α σ σ' : Type}

/-- The same answer, and related states. Most operations of an engine give an answer and a
new state, and lockstep is this relation between what they give on the two sides. -/
structure Alike (R : σ → σ' → Prop) (x : α × σ) (x' : α × σ') : Prop where
  answer_eq : x.1 = x'.1
  related : R x.2 x'.2

/-- Results that are alike are one answer beside two related states. -/
theorem Alike.exists {R : σ → σ' → Prop} {x : α × σ} {x' : α × σ'} (h : Alike R x x') :
    ∃ answer s s', x = (answer, s) ∧ x' = (answer, s') ∧ R s s' :=
  ⟨x.1, x.2, x'.2, rfl, Prod.ext h.answer_eq.symm rfl, h.related⟩

/-! ## Pairs of rings and engines

A ring keeps its layout and a count of reads, and an engine a ring and a pool. Only the ring
has a kernel in it. So two engines can be the same in all but that, and their types may
differ. -/

/-- The ring on another kernel. Everything that the ring keeps for itself is as before: its
parts, its mappings, and its count of reads in flight. -/
def Ring.onto (r : Ring κ) (kernel : κ') : Ring κ' := { r with kernel }

/-- The engine on another kernel. -/
def Engine.onto (e : Engine κ) (kernel : κ') : Engine κ' := ⟨e.ring.onto kernel, e.pool⟩

/-- Two rings that are the same but for their kernels, whose states are related. -/
def Ring.Paired (R : κ → κ' → Prop) (r : Ring κ) (r' : Ring κ') : Prop :=
  ∃ kernel, r' = r.onto kernel ∧ R r.kernel kernel

/-- Two engines that are the same but for their kernels, whose states are related. What one
answers the other answers too, and afterwards they are paired again; this is what a lockstep
of kernels gives for every call. -/
def Engine.Paired (R : κ → κ' → Prop) (e : Engine κ) (e' : Engine κ') : Prop :=
  ∃ kernel, e' = e.onto kernel ∧ R e.ring.kernel kernel

/-- Paired rings and one pool are paired engines. The pool is no concern of the kernel's. -/
theorem Ring.Paired.engine {R : κ → κ' → Prop} {r : Ring κ} {r' : Ring κ'} (hr : r.Paired R r')
    (pool : Pool) : Engine.Paired R ⟨r, pool⟩ ⟨r', pool⟩ := by
  obtain ⟨kernel, rfl, hk⟩ := hr
  exact ⟨kernel, rfl, hk⟩

variable [Kernel κ] [Kernel κ'] [OffsetPolicy π]

/-- Related states of two kernels answer alike and stay related. The laws for handing over
and for waiting speak of engines, because the bytes that are delivered go into the pool, and
must be the same on both sides. -/
structure Kernel.Lockstep (R : κ → κ' → Prop) : Prop where
  load : ∀ {k k'}, R k k' → ∀ region offset,
    Alike R (Kernel.load k region offset) (Kernel.load k' region offset)
  store : ∀ {k k'}, R k k' → ∀ region offset value,
    R (Kernel.store k region offset value) (Kernel.store k' region offset value)
  storeEntry : ∀ {k k'}, R k k' → ∀ offset entry,
    R (Kernel.storeEntry k offset entry) (Kernel.storeEntry k' offset entry)
  loadEntry : ∀ {k k'}, R k k' → ∀ offset,
    Alike R (Kernel.loadEntry k offset) (Kernel.loadEntry k' offset)
  /-- Handing over a batch, which is no wait. -/
  enter : ∀ {e : Engine κ} {e' : Engine κ'}, e.Paired R e' → ∀ count,
    Alike (Engine.Paired R) (e.enter count 0 0) (e'.enter count 0 0)
  wait : ∀ {e : Engine κ} {e' : Engine κ'}, e.Paired R e' →
    Alike (Engine.Paired R) e.wait e'.wait

variable {R : κ → κ' → Prop} {r : Ring κ} {r' : Ring κ'} {e : Engine κ} {e' : Engine κ'}

/-- If a wait is answered alike every time that it is asked for, it may be repeated as often
on both sides. -/
theorem Engine.alike_waitWithin
    (h : ∀ {e : Engine κ} {e' : Engine κ'}, e.Paired R e' →
      Alike (Engine.Paired R) (e.enter 0 1 enterGetEvents) (e'.enter 0 1 enterGetEvents))
    (he : e.Paired R e') (retries : Nat) :
    Alike (Engine.Paired R) (waitWithin retries e) (waitWithin retries e') := by
  induction retries generalizing e e' with
  | zero =>
    obtain ⟨answer, e₁, e₁', henter, henter', he₁⟩ := (h he).exists
    rw [waitWithin, waitWithin, henter, henter']
    rcases answer with err | taken
    -- out of patience, an interrupted wait ends as any other failed one
    · cases hinterrupted : err.isInterrupted
      all_goals
        simp only [hinterrupted]
        exact ⟨rfl, he₁⟩
    · exact ⟨rfl, he₁⟩
  | succ retries ih =>
    obtain ⟨answer, e₁, e₁', henter, henter', he₁⟩ := (h he).exists
    rw [waitWithin, waitWithin, henter, henter']
    rcases answer with err | taken
    · cases hinterrupted : err.isInterrupted with
      | true => simpa only [hinterrupted] using ih he₁
      | false =>
        simp only [hinterrupted]
        exact ⟨rfl, he₁⟩
    · exact ⟨rfl, he₁⟩

namespace Kernel.Lockstep

/-! ## Rings

Each operation of a ring is a sequence of accesses, and each access has a law. Putting the
laws together is all that there is to do here. -/

/-- Reading a shared word, as every look at an index does. The state of the kernel may
change by it. -/
theorem word (h : Lockstep R) {kernel : κ'} (hk : R r.kernel kernel) (region : Region)
    (offset : Nat) :
    Alike (Ring.Paired R) ((Kernel.load r.kernel region offset).map id r.onto)
      ((Kernel.load kernel region offset).map id r.onto) := by
  obtain ⟨hword, hrelated⟩ := h.load hk region offset
  exact ⟨hword, _, rfl, hrelated⟩

theorem submissionTail (h : Lockstep R) (hr : r.Paired R r') :
    Alike (Ring.Paired R) r.submissionTail r'.submissionTail := by
  obtain ⟨kernel, rfl, hk⟩ := hr
  exact h.word hk .submissionRing r.sq.tailAt

theorem completionHead (h : Lockstep R) (hr : r.Paired R r') :
    Alike (Ring.Paired R) r.completionHead r'.completionHead := by
  obtain ⟨kernel, rfl, hk⟩ := hr
  exact h.word hk .completionRing r.cq.headAt

theorem completionTail (h : Lockstep R) (hr : r.Paired R r') :
    Alike (Ring.Paired R) r.completionTail r'.completionTail := by
  obtain ⟨kernel, rfl, hk⟩ := hr
  exact h.word hk .completionRing r.cq.tailAt

theorem publishTail (h : Lockstep R) (hr : r.Paired R r') (tail : UInt32) :
    (r.publishTail tail).Paired R (r'.publishTail tail) := by
  obtain ⟨kernel, rfl, hk⟩ := hr
  exact ⟨_, rfl, h.store hk _ _ _⟩

theorem publishHead (h : Lockstep R) (hr : r.Paired R r') (head : UInt32) :
    (r.publishHead head).Paired R (r'.publishHead head) := by
  obtain ⟨kernel, rfl, hk⟩ := hr
  exact ⟨_, rfl, h.store hk _ _ _⟩

theorem stage (h : Lockstep R) (hr : r.Paired R r') (tail : UInt32) (entry : Sqe) :
    (r.stage tail entry).Paired R (r'.stage tail entry) := by
  obtain ⟨kernel, rfl, hk⟩ := hr
  exact ⟨_, rfl, h.store (h.storeEntry hk _ entry) _ _ _⟩

theorem entry (h : Lockstep R) (hr : r.Paired R r') (head : UInt32) :
    Alike (Ring.Paired R) (r.entry head) (r'.entry head) := by
  obtain ⟨kernel, rfl, hk⟩ := hr
  obtain ⟨hentry, hrelated⟩ := h.loadEntry hk (r.completionOffset head)
  exact ⟨hentry, _, rfl, hrelated⟩

/-- Looking for a completion entry: both sides find the same one, or none. -/
theorem takeEntry (h : Lockstep R) (hr : r.Paired R r') :
    Alike (Ring.Paired R) r.take r'.take := by
  obtain ⟨head, r₁, r₁', hhead, hhead', hr₁⟩ := (h.completionHead hr).exists
  obtain ⟨tail, r₂, r₂', htail, htail', hr₂⟩ := (h.completionTail hr₁).exists
  obtain ⟨c, r₃, r₃', hentry, hentry', hr₃⟩ := (h.entry hr₂ head).exists
  have hcq : r₂'.cq = r₂.cq := by
    obtain ⟨kernel, rfl, -⟩ := hr₂
    rfl
  simp only [Ring.take, hhead, hhead', htail, htail', hentry, hentry', hcq]
  split
  · exact ⟨rfl, hr₂⟩
  · split
    · exact ⟨rfl, hr₂⟩
    · exact ⟨rfl, h.publishHead hr₃ (head + 1)⟩

/-! ## Submitting

Of a submission, the loans are the same on both sides since the pools are. The entries are
stored by one law, and handed over by another. -/

/-- Submitting changes a policy beside the engine, which is the same on both sides. The
policy sees neither the kernel nor the bytes. -/
def Beside (R : κ → κ' → Prop) (x : Engine κ × π) (x' : Engine κ' × π) : Prop :=
  x.1.Paired R x'.1 ∧ x'.2 = x.2

/-- Reads are staged alike. The pool and the policy are the same on both sides, so the same
blocks are lent and the same entries are stored. -/
theorem stageReads (h : Lockstep R) (he : e.Paired R e') (target : ReadTarget) (blocks : UInt64)
    (count : Nat) (tail : UInt32) (policy : π) :
    Alike (Beside R) (Engine.stageReads target blocks count tail e policy)
      (Engine.stageReads target blocks count tail e' policy) := by
  induction count generalizing e e' tail policy with
  | zero => exact ⟨rfl, he, rfl⟩
  | succ count ih =>
    obtain ⟨kernel, rfl, hk⟩ := he
    rw [Engine.stageReads, Engine.stageReads, show (e.onto kernel).pool = e.pool from rfl]
    rcases e.pool.allocate with ⟨err | token, pool⟩
    · exact ⟨rfl, ⟨kernel, rfl, hk⟩, rfl⟩
    · let loaned := Engine.loanRead ⟨e.ring, pool⟩ target blocks token policy
      have hring : e.ring.Paired R (e.ring.onto kernel) := ⟨kernel, rfl, hk⟩
      exact ih ((h.stage hring tail loaned.1).engine loaned.2.1.pool) (tail + 1) loaned.2.2

theorem handOver (h : Lockstep R) (he : e.Paired R e') (count tail : UInt32) :
    Alike (Engine.Paired R) (e.handOver count tail) (e'.handOver count tail) := by
  obtain ⟨kernel, rfl, hk⟩ := he
  have hring : e.ring.Paired R (e.ring.onto kernel) := ⟨kernel, rfl, hk⟩
  have hpaired := (h.publishTail hring tail).engine e.pool
  obtain ⟨answer, e₁, e₁', henter, henter', kernel₂, rfl, hk₂⟩ := (h.enter hpaired count).exists
  have henter'' : ({ e.onto kernel with ring := (e.onto kernel).ring.publishTail tail } :
      Engine κ').enter count 0 0 = (answer, e₁.onto kernel₂) := henter'
  rcases answer with err | accepted
  · rw [Engine.handOver_of_refused henter, Engine.handOver_of_refused henter'']
    exact ⟨rfl, kernel₂, rfl, hk₂⟩
  · rw [Engine.handOver_of_accepted henter, Engine.handOver_of_accepted henter'']
    exact ⟨rfl, kernel₂, rfl, hk₂⟩

/-- A submission answers the same on both sides. The batch that is staged is made by pool
and policy, which are equal, and the kernels are entered with it at the same point. -/
theorem submitReads (h : Lockstep R) (he : e.Paired R e') (target : ReadTarget)
    (requested : UInt32) (policy : π) :
    Alike (Beside R) (e.submitReads target requested policy)
      (e'.submitReads target requested policy) := by
  obtain ⟨kernel, rfl, hk⟩ := he
  have hring : e.ring.Paired R (e.ring.onto kernel) := ⟨kernel, rfl, hk⟩
  obtain ⟨tail, r₁, r₁', htail, htail', kernel₁, rfl, hk₁⟩ := (h.submissionTail hring).exists
  have hpaired : Engine.Paired R ⟨r₁, e.pool⟩ ⟨r₁.onto kernel₁, e.pool⟩ := ⟨kernel₁, rfl, hk₁⟩
  rw [Engine.submitReads, Engine.submitReads]
  -- what is checked before anything is staged is the same on both sides
  rw [show (e.onto kernel).ring.available = e.ring.available from rfl,
    show (e.onto kernel).blockSize = e.blockSize from rfl,
    show (e.onto kernel).ring.submissionTail = (tail, r₁.onto kernel₁) from htail', htail]
  dsimp only
  split
  · exact ⟨rfl, ⟨kernel, rfl, hk⟩, rfl⟩
  split
  · exact ⟨rfl, ⟨kernel, rfl, hk⟩, rfl⟩
  obtain ⟨answer, ⟨e₂, policy'⟩, ⟨e₂', _⟩, hstage, hstage', he₂, rfl⟩ :=
    (h.stageReads hpaired target (target.blocks e.blockSize) (min requested e.ring.available).toNat
      tail policy).exists
  rw [show ({ e.onto kernel with ring := r₁.onto kernel₁ } : Engine κ') =
    ⟨r₁.onto kernel₁, e.pool⟩ from rfl, hstage, hstage']
  rcases answer with err | tail'
  · exact ⟨rfl, he₂, rfl⟩
  · obtain ⟨hanswer, hpaired'⟩ := h.handOver he₂ (min requested e.ring.available) tail'
    exact ⟨hanswer, hpaired', rfl⟩

/-! ## Reaping

A reap is where the two sides may differ in what they do: one wait may be interrupted where
the other is not. The law for waiting takes this up, and from there on the sides agree
again. -/

theorem take (h : Lockstep R) (he : e.Paired R e') :
    Alike (Engine.Paired R) e.take e'.take := by
  obtain ⟨kernel, rfl, hk⟩ := he
  have hring : e.ring.Paired R (e.ring.onto kernel) := ⟨kernel, rfl, hk⟩
  obtain ⟨hanswer, htaken⟩ := h.takeEntry hring
  exact ⟨hanswer, htaken.engine e.pool⟩

/-- However often either side is interrupted, both come to the same entry, or to none. -/
theorem takeOrWait (h : Lockstep R) (he : e.Paired R e') (mode : ReapMode) :
    Alike (Engine.Paired R) (e.takeOrWait mode) (e'.takeOrWait mode) := by
  obtain ⟨answer, e₁, e₁', htake, htake', he₁⟩ := (h.take he).exists
  simp only [Engine.takeOrWait, htake, htake']
  rcases answer with err | _ | c
  · exact ⟨rfl, he₁⟩
  -- both look at the same count of reads in flight, so both wait or neither does
  · have hflight : e₁'.inFlight = e₁.inFlight := by
      obtain ⟨kernel, rfl, -⟩ := he₁
      rfl
    obtain ⟨waited, e₂, e₂', hwait, hwait', he₂⟩ := (h.wait he₁).exists
    obtain ⟨again, e₃, e₃', hagain, hagain', he₃⟩ := (h.take he₂).exists
    simp only [hflight, hwait, hwait']
    split
    · rcases waited with err | _
      · exact ⟨rfl, he₂⟩
      · simp only [hagain, hagain']
        rcases again with err | _ | c
        · exact ⟨rfl, he₃⟩
        · exact ⟨rfl, he₃⟩
        · exact ⟨rfl, he₃⟩
    · exact ⟨rfl, he₁⟩
  · exact ⟨rfl, he₁⟩

omit [Kernel κ] [Kernel κ'] in
theorem release (he : e.Paired R e') (token : Token) :
    Alike (Engine.Paired R) (e.release token) (e'.release token) := by
  obtain ⟨kernel, rfl, hk⟩ := he
  exact ⟨rfl, kernel, rfl, hk⟩

omit [Kernel κ] [Kernel κ'] in
theorem giveUp (he : e.Paired R e') (token : Token) (failure : Abort Error) :
    Alike (Engine.Paired R) (e.giveUp token failure) (e'.giveUp token failure) := by
  obtain ⟨answer, e₁, e₁', hrelease, hrelease', he₁⟩ := (release he token).exists
  simp only [Engine.giveUp, hrelease, hrelease']
  rcases answer with err | _
  · exact ⟨rfl, he₁⟩
  · exact ⟨rfl, he₁⟩

omit [Kernel κ] [Kernel κ'] in
/-- An entry is finished without the kernel. -/
theorem finish (he : e.Paired R e') (c : Cqe) :
    Alike (Engine.Paired R) (e.finish c) (e'.finish c) := by
  obtain ⟨kernel, rfl, hk⟩ := he
  rw [Engine.finish, Engine.finish, show (e.onto kernel).pool = e.pool from rfl]
  rcases e.pool.reclaim c.userData with ⟨err | token, pool⟩
  · exact ⟨rfl, kernel, rfl, hk⟩
  · let inFlight := if e.ring.inFlight = 0 then 0 else e.ring.inFlight - 1
    have hpaired : Engine.Paired R ⟨{ e.ring with inFlight }, pool⟩
        ⟨{ e.ring.onto kernel with inFlight }, pool⟩ := ⟨kernel, rfl, hk⟩
    by_cases hres : c.res < 0
    · simp only [hres, if_true]
      exact giveUp hpaired token _
    · simp only [hres, if_false, Engine.blockSize]
      by_cases hbytes : c.res.toInt.toNat = pool.blockSize
      · simp only [hbytes, ne_eq, not_true_eq_false, if_false]
        exact ⟨rfl, hpaired⟩
      · simp only [hbytes, ne_eq, not_false_eq_true, if_true]
        exact giveUp hpaired token _

theorem reap (h : Lockstep R) (he : e.Paired R e') (mode : ReapMode) :
    Alike (Engine.Paired R) (e.reap mode) (e'.reap mode) := by
  obtain ⟨answer, e₁, e₁', htake, htake', he₁⟩ := (h.takeOrWait he mode).exists
  rcases answer with err | _ | c
  · rw [Engine.reap_of_error htake, Engine.reap_of_error htake']
    exact ⟨rfl, he₁⟩
  · rw [Engine.reap_of_none htake, Engine.reap_of_none htake']
    exact ⟨rfl, he₁⟩
  · obtain ⟨hanswer, hpaired⟩ := finish he₁ c
    rw [Engine.reap_of_taken htake, Engine.reap_of_taken htake', hanswer]
    exact ⟨rfl, hpaired⟩

theorem collect (h : Lockstep R) (he : e.Paired R e') (rounds : Nat) (taken : List Completion) :
    Alike (Engine.Paired R) (Engine.collect rounds taken e) (Engine.collect rounds taken e') := by
  induction rounds generalizing e e' taken with
  | zero => exact ⟨rfl, he⟩
  | succ rounds ih =>
    obtain ⟨answer, e₁, e₁', hreap, hreap', he₁⟩ := (h.reap he .nonBlocking).exists
    simp only [Engine.collect, hreap, hreap']
    rcases answer with err | _ | completion
    · exact ⟨rfl, he₁⟩
    · exact ⟨rfl, he₁⟩
    · exact ih he₁ (completion :: taken)

theorem drain (h : Lockstep R) (he : e.Paired R e') (mode : ReapMode) :
    Alike (Engine.Paired R) (e.drain mode) (e'.drain mode) := by
  obtain ⟨answer, e₁, e₁', hreap, hreap', he₁⟩ := (h.reap he mode).exists
  simp only [Engine.drain, hreap, hreap']
  rcases answer with err | _ | completion
  · exact ⟨rfl, he₁⟩
  · exact ⟨rfl, he₁⟩
  · have hpool : e₁'.pool = e₁.pool := by
      obtain ⟨kernel, rfl, -⟩ := he₁
      rfl
    simp only [hpool]
    exact h.collect he₁ _ _

/-! ## Runs

Runs are sequences of calls, and each call keeps the pair. So whatever a run answers on one
of two kernels in lockstep, it answers on the other. -/

theorem perform (h : Lockstep R) (he : e.Paired R e') (call : Call) :
    (e.perform call).Paired R (e'.perform call) := by
  cases call with
  | submitReads target requested policy => exact (h.submitReads he target requested policy).2.1
  | reap mode => exact (h.reap he mode).2
  | drain mode => exact (h.drain he mode).2
  | release token => exact (release he token).2

/-- A run of calls keeps engines paired. The answers along the way are equal, by the laws
for the single calls. -/
theorem performAll (h : Lockstep R) (he : e.Paired R e') (calls : List Call) :
    (e.performAll calls).Paired R (e'.performAll calls) := by
  induction calls generalizing e e' with
  | nil => exact he
  | cons call rest ih => exact ih (h.perform he call)

end Kernel.Lockstep

/-! ## Wrappers

A recording kernel, or one that counts, does inside what the kernel would have done, and
puts something down. Such a kernel is compared with the one inside it by the relation that
forgets what was put down. -/

/-- Every operation does inside, on the kernel `inner k`, what it would do there by itself.
A wrapper may keep whatever it likes beside that, such as a record of what it was asked. -/
structure Kernel.Wraps (inner : κ → κ') : Prop where
  load : ∀ k region offset,
    Kernel.load (inner k) region offset = (Kernel.load k region offset).map id inner
  store : ∀ k region offset value,
    Kernel.store (inner k) region offset value = inner (Kernel.store k region offset value)
  storeEntry : ∀ k offset entry,
    Kernel.storeEntry (inner k) offset entry = inner (Kernel.storeEntry k offset entry)
  loadEntry : ∀ k offset,
    Kernel.loadEntry (inner k) offset = (Kernel.loadEntry k offset).map id inner
  enter : ∀ k toSubmit minComplete flags,
    let entered := Kernel.enter k toSubmit minComplete flags
    Kernel.enter (inner k) toSubmit minComplete flags =
      ⟨entered.answer, entered.transfers, inner entered.kernel⟩
  patience : ∀ k, Kernel.patience (inner k) = Kernel.patience k

namespace Kernel.Wraps

variable {inner : κ → κ'}

theorem alike_enter (h : Wraps inner) (he : e.Paired (fun k k' => inner k = k') e')
    (toSubmit minComplete flags : UInt32) :
    Alike (Engine.Paired fun k k' => inner k = k') (e.enter toSubmit minComplete flags)
      (e'.enter toSubmit minComplete flags) := by
  obtain ⟨_, rfl, rfl⟩ := he
  have henter := h.enter e.ring.kernel toSubmit minComplete flags
  simp only [Engine.enter, Engine.onto, Ring.onto, henter]
  exact ⟨rfl, _, rfl, rfl⟩

/-- A wrapper answers as the kernel inside it. -/
theorem lockstep (h : Wraps inner) : Kernel.Lockstep fun k k' => inner k = k' where
  load := by
    rintro k _ rfl region offset
    rw [h.load]
    exact ⟨rfl, rfl⟩
  store := by
    rintro k _ rfl region offset value
    exact (h.store k region offset value).symm
  storeEntry := by
    rintro k _ rfl offset entry
    exact (h.storeEntry k offset entry).symm
  loadEntry := by
    rintro k _ rfl offset
    rw [h.loadEntry]
    exact ⟨rfl, rfl⟩
  enter he count := h.alike_enter he count 0 0
  wait := by
    intro e e' he
    -- the two wait equally often, as the patience is that of the kernel inside
    have hpatience : Kernel.patience e'.ring.kernel = Kernel.patience e.ring.kernel := by
      obtain ⟨_, rfl, rfl⟩ := he
      exact h.patience e.ring.kernel
    rw [Engine.wait, Engine.wait, hpatience]
    exact Engine.alike_waitWithin (fun he => h.alike_enter he 0 1 enterGetEvents) he _

end Kernel.Wraps

/-! ## Properties of a kernel

An invariant of the kernel's operations is a relation of the kernel with itself: equal, and
with the property. Lockstep then carries the invariant through calls and runs. -/

/-- Every operation keeps a property of the kernel. What an engine asks is not restricted,
nor in which order it asks. So the property is there after any calls of any engine on the
kernel. -/
structure Kernel.Keeps (P : κ → Prop) : Prop where
  load : ∀ k, P k → ∀ region offset, P (Kernel.load k region offset).2
  store : ∀ k, P k → ∀ region offset value, P (Kernel.store k region offset value)
  storeEntry : ∀ k, P k → ∀ offset entry, P (Kernel.storeEntry k offset entry)
  loadEntry : ∀ k, P k → ∀ offset, P (Kernel.loadEntry k offset).2
  enter : ∀ k, P k → ∀ toSubmit minComplete flags,
    P (Kernel.enter k toSubmit minComplete flags).kernel

namespace Kernel.Keeps

variable {P : κ → Prop} {e e' : Engine κ}

theorem alike_enter (h : Keeps P) (he : e.Paired (fun k k' => k' = k ∧ P k) e')
    (toSubmit minComplete flags : UInt32) :
    Alike (Engine.Paired fun k k' => k' = k ∧ P k) (e.enter toSubmit minComplete flags)
      (e'.enter toSubmit minComplete flags) := by
  obtain ⟨_, rfl, rfl, hk⟩ := he
  exact ⟨rfl, _, rfl, rfl, h.enter _ hk toSubmit minComplete flags⟩

/-- A kernel runs in lockstep with itself, and has the property all the while. -/
theorem lockstep (h : Keeps P) : Kernel.Lockstep fun k k' => k' = k ∧ P k where
  load := by
    rintro _ k ⟨rfl, hk⟩ region offset
    exact ⟨rfl, rfl, h.load k hk region offset⟩
  store := by
    rintro _ k ⟨rfl, hk⟩ region offset value
    exact ⟨rfl, h.store k hk region offset value⟩
  storeEntry := by
    rintro _ k ⟨rfl, hk⟩ offset entry
    exact ⟨rfl, h.storeEntry k hk offset entry⟩
  loadEntry := by
    rintro _ k ⟨rfl, hk⟩ offset
    exact ⟨rfl, rfl, h.loadEntry k hk offset⟩
  enter he count := h.alike_enter he count 0 0
  wait := by
    intro e e' he
    have hpatience : Kernel.patience e'.ring.kernel = Kernel.patience e.ring.kernel := by
      obtain ⟨_, rfl, rfl, -⟩ := he
      rfl
    rw [Engine.wait, Engine.wait, hpatience]
    exact Engine.alike_waitWithin (fun he => h.alike_enter he 0 1 enterGetEvents) he _

/-- What every operation of a kernel keeps, every call of an engine keeps. This is lockstep
of a kernel with itself, so no call has to be looked at again. -/
theorem perform (h : Keeps P) (hk : P e.ring.kernel) (call : Call) :
    P (e.perform call).ring.kernel := by
  have hpaired : e.Paired (fun k k' => k' = k ∧ P k) e := ⟨e.ring.kernel, rfl, rfl, hk⟩
  obtain ⟨_, -, -, hkept⟩ := h.lockstep.perform hpaired call
  exact hkept

end Kernel.Keeps

end RingRead
