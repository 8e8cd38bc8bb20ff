import Mathlib.Data.Bool.Basic
import Mathlib.Logic.Function.Basic
import RingRead.Proofs.Pool.Inventory

/-!
# Pools side by side

Every pool numbers its blocks from zero, so a token that strays into another pool usually
names a block there. A family of pools with different serials goes through requests here,
one pool at a time, with any tokens: of this pool or of another one, in force or given back
long ago.

* **Who gets in.** Giving back, reading and writing succeed exactly with the serial of the
  pool and the number of a block that is held there, taking back exactly with the number of
  a block on loan. A token that one pool has issued is foreign to all others, whatever their
  state, and never to the pool itself (`Pools.isolated_run`).
* **Who does not.** A request that is rejected changes nothing
  (`Pool.after_of_isRejection`). So a run without them ends in the same pools, and all other
  answers are the same (`Pools.run_heeded`, `Pools.answers_heeded`).
-/

namespace RingRead

/-! ## Requests

What can be asked of one pool, as data, with all possible answers. Tokens of any kind may be
in a request: it is for the pool to turn them away. -/

/-- What a pool can be asked for, and what can happen to it: an event, or a look at a block.
A look changes nothing, but it has an answer, and may be refused. -/
inductive PoolRequest where
  | event (event : PoolEvent)
  | data (token : Token)

/-- What a request is answered. -/
inductive PoolAnswer where
  | issued (result : Except Error Token)
  | done (result : Except Error Unit)
  | contents (result : Except Error Bytes)
  | lent (tag address : UInt64)
  /-- Bytes from outside arrive without an answer. -/
  | silence

namespace PoolAnswer

/-- The error of an answer, if it is one. -/
def error? : PoolAnswer → Option Error
  | issued (.error err) | done (.error err) | contents (.error err) => some err
  | _ => none

/-- The token or tag was not accepted. An allocation that fails is not counted here: it was
given no token that could be wrong, and it need not leave the pool as it was. -/
def isRejection (answer : PoolAnswer) : Bool :=
  match answer.error? with
  | some (.foreignBuffer _) | some (.doubleRelease _) | some (.unknownTag _) => true
  | _ => false

end PoolAnswer

namespace Pool

variable {p p' p'' : Pool} {t : Token} {err : Error}

/-- The answer to a request. Together with `after` it is all that a user of the pool gets to
see. So two runs with the same answers that end in the same pool are the same to the
user. -/
def answer (p : Pool) : PoolRequest → PoolAnswer
  | .event (.call .allocate) => .issued p.allocate.1
  | .event (.call (.release token)) => .done (p.release token).1
  | .event (.call (.write token start piece)) => .done (p.write token start piece).1
  | .event (.call (.loan token)) => .lent (p.loan token).1.1 (p.loan token).1.2
  | .event (.call (.reclaim tag)) => .issued (p.reclaim tag).1
  | .event (.receive _) => .silence
  | .data token => .contents (p.data token)

/-- The pool after a request. -/
def after (p : Pool) : PoolRequest → Pool
  | .event event => p.undergo event
  | .data _ => p

/-- A token is turned away, whatever it is used for, and each time with the same error. The
pool is not changed by any of these calls. -/
def Refuses (p : Pool) (t : Token) (err : Error) : Prop :=
  (p.release t).1 = .error err ∧ p.data t = .error err ∧
    ∀ start piece, (p.write t start piece).1 = .error err

/-! ## Tokens that are checked

A token has two parts, the serial of the pool that issued it and the number of a block. They
are checked in this order, and the error says which of them was wrong. -/

/-- All uses of a token make the same check first. -/
theorem refuses_of_check (h : p.check t = .error err) : p.Refuses t err :=
  ⟨(release_answer p t).trans h, data_error_iff.mpr h,
    fun start piece => (write_answer p t start piece).trans h⟩

/-- A token with another serial is foreign in every state of a pool: the serial is looked at
before anything else. -/
theorem check_of_ne (h : t.pool ≠ p.serial) : p.check t = .error (.foreignBuffer t.id) := by
  rw [check]
  split
  · rfl
  · rw [if_pos h]

/-- A token for a block of the pool itself is not. It may be refused for what has become of
the block, but not as foreign. -/
theorem check_ne_foreign (hserial : t.pool = p.serial) (hid : t.id.toNat < p.size) (id : UInt32) :
    p.check t ≠ .error (.foreignBuffer id) := by
  obtain ⟨state, hstate⟩ := Option.isSome_iff_exists.mp (state?_isSome_iff.mpr hid)
  simp only [check, hstate, hserial, ne_eq, not_true_eq_false, if_false]
  split
  · intro h
    cases h
  · intro h
    cases h

/-! ## Rejections -/

/-- A request that is rejected changes nothing. So it cannot be told from the pool
afterwards that it was ever made. -/
theorem after_of_isRejection {request : PoolRequest} (h : (p.answer request).isRejection) :
    p.after request = p := by
  rcases request with ⟨call | transfer⟩ | token
  · cases call with
    -- a failed allocation can change the pool, so it does not count as a rejection
    | allocate =>
      rcases halloc : p.allocate with ⟨err' | token, p'⟩
      · rcases allocate_error_cases halloc with
          ⟨-, -, rfl, -⟩ | ⟨refusal, -, -, -, rfl, -⟩ | ⟨n, rest, -, -, rfl, -⟩
        all_goals simp [answer, halloc, PoolAnswer.isRejection, PoolAnswer.error?] at h
      · simp [answer, halloc, PoolAnswer.isRejection, PoolAnswer.error?] at h
    | release token =>
      rcases hcheck : p.check token with err' | _
      · exact congrArg Prod.snd (release_error hcheck)
      · simp [answer, release_answer, hcheck, PoolAnswer.isRejection, PoolAnswer.error?] at h
    | write token start piece =>
      rcases hcheck : p.check token with err' | _
      · simp only [after, undergo, write, hcheck]
      · simp [answer, write_answer, hcheck, PoolAnswer.isRejection, PoolAnswer.error?] at h
    | loan token => cases h
    | reclaim tag =>
      by_cases hloaned : p.state? tag.toNat = some .loaned
      · obtain ⟨hok, -, -⟩ := reclaim_loaned hloaned
        simp [answer, hok, PoolAnswer.isRejection, PoolAnswer.error?] at h
      · exact congrArg Prod.snd (reclaim_unknown hloaned)
  · cases h
  · rfl

/-! ## Later states

Tokens outlive the state of the pool that they were issued in. What can be said of an old
token rests on what a pool never changes: its serial, and that it has the blocks that it
once had. -/

/-- The numbers on the free stack are those of blocks, and all of them fit into 32 bits. It
is the part of soundness that no wrong use of tokens can break. -/
structure Numbered (p : Pool) : Prop where
  lt_of_mem_free : ∀ n ∈ p.free, n.toNat < p.size
  size_le : p.size ≤ UInt32.size

/-- A later state of a pool: it is still the same pool, and has no fewer blocks. Nothing is
said of what has become of the blocks. -/
structure Later (p p' : Pool) : Prop where
  serial_eq : p'.serial = p.serial
  config_eq : p'.config = p.config
  size_le : p.size ≤ p'.size
  numbered : p.Numbered → p'.Numbered

/-- A new pool has no numbers yet. -/
theorem numbered_create {serial : UInt32} {config : PoolConfig} {mappings : MappingAnswers}
    (h : create serial config mappings = .ok p) : p.Numbered ∧ p.serial = serial := by
  obtain ⟨-, rfl⟩ := create_ok h
  exact ⟨⟨by simp, Nat.zero_le _⟩, rfl⟩

theorem Later.refl (p : Pool) : p.Later p := ⟨rfl, rfl, Nat.le_refl _, id⟩

theorem Later.trans (h : p.Later p') (h' : p'.Later p'') : p.Later p'' :=
  ⟨h'.serial_eq.trans h.serial_eq, h'.config_eq.trans h.config_eq,
    Nat.le_trans h.size_le h'.size_le, h'.numbered ∘ h.numbered⟩

/-- Changing a block makes no numbers and takes none away. -/
theorem later_modify (p : Pool) (id : Nat) (change : Block → Block) :
    p.Later (p.modify id change) := by
  have hsize := size_modify p id change
  exact ⟨rfl, rfl, Nat.le_of_eq hsize.symm, fun h =>
    ⟨fun n hn => hsize.symm ▸ h.lt_of_mem_free n hn, hsize.trans_le h.size_le⟩⟩

/-- An allocation keeps the serial and the configuration, and takes away no block. Where it
makes one there was a number for it. -/
theorem later_allocate (p : Pool) : p.Later p.allocate.2 := by
  cases hfree : p.free with
  | nil =>
    rw [allocate_empty hfree]
    rcases p.allocateFresh_cases with
      ⟨hsize, -, hfresh⟩ | ⟨err, -, -, hfresh⟩ | ⟨-, hfresh⟩
    all_goals rw [hfresh]
    · have hmore : p.size < p.grown.size := by simp [size, grown]
      refine ⟨rfl, rfl, Nat.le_of_lt hmore, fun h => ⟨fun n hn => ?_, ?_⟩⟩
      · exact Nat.lt_of_lt_of_le (h.lt_of_mem_free n hn) (Nat.le_of_lt hmore)
      · exact (Array.size_push ..).trans_le hsize
    · exact ⟨rfl, rfl, Nat.le_refl _, fun h => ⟨h.lt_of_mem_free, h.size_le⟩⟩
    · exact .refl p
  | cons n rest =>
    have hpopped : p.Later { p with free := rest } :=
      ⟨rfl, rfl, Nat.le_refl _, fun h =>
        ⟨fun m hm => h.lt_of_mem_free m (by simp [hfree, hm]), h.size_le⟩⟩
    by_cases hmark : p.firstWord n.toNat = canary
    · rw [allocate_marked hfree hmark]
      obtain ⟨hserial, hconfig, hsize, hnumbered⟩ := hpopped.trans (later_modify _ n.toNat fun b =>
        { b with state := .held, bytes := b.bytes.setFirstWord 0 })
      exact ⟨hserial, hconfig, hsize, fun h =>
        ⟨(hnumbered h).lt_of_mem_free, (hnumbered h).size_le⟩⟩
    · rw [allocate_damaged hfree hmark]
      exact hpopped

/-- So does a release, which puts a block on the stack that is in the pool. -/
theorem later_release (p : Pool) (t : Token) : p.Later (p.release t).2 := by
  rcases hcheck : p.check t with err | _
  · rw [release_error hcheck]
    exact .refl p
  · have hid := lt_size_of_check hcheck
    obtain ⟨-, hfree, -, -⟩ := release_ok hcheck
    have hsize := size_release hcheck
    have hmoves := moves_release hcheck
    refine ⟨hmoves.serial_eq, hmoves.config_eq, Nat.le_of_eq hsize.symm, fun h =>
      ⟨fun n hn => ?_, ?_⟩⟩
    · rw [hfree] at hn
      rw [hsize]
      rcases List.mem_cons.mp hn with rfl | hn
      · exact hid
      · exact h.lt_of_mem_free n hn
    · exact hsize.trans_le h.size_le

/-- Whatever is asked of a pool, it is a later state of the same pool afterwards. Even a
token that was given back long ago cannot take a block away. -/
theorem later_after (p : Pool) (request : PoolRequest) : p.Later (p.after request) := by
  rcases request with ⟨call | transfer⟩ | token
  · cases call with
    | allocate => exact p.later_allocate
    | release token => exact p.later_release token
    | write token start piece =>
      rcases hcheck : p.check token with err | _
      · simp only [after, undergo, write, hcheck]
        exact .refl p
      · simp only [after, undergo, write, hcheck]
        exact p.later_modify _ _
    | loan token => exact p.later_modify _ _
    | reclaim tag =>
      simp only [after, undergo, reclaim]
      split
      · exact p.later_modify _ _
      · exact .refl p
  · exact p.later_modify _ _
  · exact .refl p

/-- A tag is taken back if it is the number of a block on loan, and not if it only ends in
the bits of one. The token that comes back names this block. A tag has 64 bits, and all of
them are looked at. -/
theorem reclaim_ok_iff (h : p.Numbered) (tag : UInt64) :
    ((∃ t, (p.reclaim tag).1 = .ok t) ↔
        tag.toNat < p.size ∧ p.state? tag.toNat = some .loaned) ∧
      ∀ t, (p.reclaim tag).1 = .ok t → t.pool = p.serial ∧ t.id.toNat = tag.toNat := by
  by_cases hloaned : p.state? tag.toNat = some .loaned
  · have hlt : tag.toNat < p.size := state?_isSome_iff.mp (by simp [hloaned])
    obtain ⟨hok, -, -⟩ := reclaim_loaned hloaned
    refine ⟨⟨fun _ => ⟨hlt, hloaned⟩, fun _ => ⟨_, hok⟩⟩, fun t ht => ?_⟩
    obtain rfl := Except.ok.inj (hok.symm.trans ht)
    have hid : tag.toUInt32.toNat = tag.toNat := by
      rw [UInt64.toNat_toUInt32]
      exact Nat.mod_eq_of_lt (Nat.lt_of_lt_of_le hlt h.size_le)
    exact ⟨rfl, hid⟩
  · simp [reclaim_unknown hloaned, hloaned]

/-- A token that a pool has issued has its serial and names a block of it. This is what
makes it foreign to every other pool. -/
theorem issued_in_range (h : p.Numbered) {request : PoolRequest}
    (hissued : p.answer request = .issued (.ok t)) :
    t.pool = p.serial ∧ t.id.toNat < (p.after request).size := by
  rcases request with ⟨call | transfer⟩ | token
  · cases call with
    | allocate =>
      have hok : p.allocate.1 = .ok t := PoolAnswer.issued.inj hissued
      have hlater := p.later_allocate
      cases hfree : p.free with
      | nil =>
        -- the new block is the last one, and its number is the old size
        simp only [after, undergo, allocate_empty hfree] at hok ⊢
        rcases p.allocateFresh_cases with
          ⟨hsize, -, hfresh⟩ | ⟨err, -, -, hfresh⟩ | ⟨-, hfresh⟩
        all_goals
          rw [hfresh] at hok ⊢
          cases hok
        refine ⟨rfl, ?_⟩
        simp only [issue, size, grown, Array.size_push]
        exact Nat.lt_succ_of_le (Nat.le_of_eq (UInt32.toNat_ofNat_of_lt' hsize))
      | cons n rest =>
        by_cases hmark : p.firstWord n.toNat = canary
        · obtain ⟨hanswer, -, -⟩ := allocate_sound hfree hmark
          obtain rfl := Except.ok.inj (hanswer.symm.trans hok)
          exact ⟨rfl, Nat.lt_of_lt_of_le (h.lt_of_mem_free n (by simp [hfree])) hlater.size_le⟩
        · rw [allocate_damaged hfree hmark] at hok
          cases hok
    | reclaim tag =>
      have hok : (p.reclaim tag).1 = .ok t := PoolAnswer.issued.inj hissued
      obtain ⟨hiff, hnames⟩ := reclaim_ok_iff h tag
      obtain ⟨hserial, hid⟩ := hnames t hok
      obtain ⟨hlt, -⟩ := hiff.mp ⟨t, hok⟩
      exact ⟨hserial, hid ▸ Nat.lt_of_lt_of_le hlt (p.later_after _).size_le⟩
    | release token => cases hissued
    | write token start piece => cases hissued
    | loan token => cases hissued
  · cases hissued
  · cases hissued

end Pool

/-! ## Families of pools

Pools stand side by side under names from any type, and each request goes to one of them.
Their serials are all different, and that is the only thing that keeps them apart. -/

namespace Pools

variable {ι : Type} [DecidableEq ι] {pools : ι → Pool}

/-- The pools after a request to one of them. The others are as they were, by definition:
pools share nothing but their kind. -/
def step (pools : ι → Pool) (request : ι × PoolRequest) : ι → Pool :=
  Function.update pools request.1 ((pools request.1).after request.2)

/-- The pools after a run. -/
def run (pools : ι → Pool) (requests : List (ι × PoolRequest)) : ι → Pool :=
  requests.foldl step pools

/-- The answers of a run, in order. -/
def answers : (ι → Pool) → List (ι × PoolRequest) → List PoolAnswer
  | _, [] => []
  | pools, request :: rest =>
    (pools request.1).answer request.2 :: answers (step pools request) rest

/-- The requests of a run that are not rejected where they are made. To leave one out does
not change what becomes of the others. -/
def heeded : (ι → Pool) → List (ι × PoolRequest) → List (ι × PoolRequest)
  | _, [] => []
  | pools, request :: rest =>
    if ((pools request.1).answer request.2).isRejection then heeded (step pools request) rest
    else request :: heeded (step pools request) rest

/-- A pool has issued this token in a run, at some point of it. The token may have been
given back since, and the block may have been issued again under an equal token. -/
def Issued (pools : ι → Pool) (requests : List (ι × PoolRequest)) (i : ι) (t : Token) : Prop :=
  ∃ past request, past ++ [(i, request)] <+: requests ∧
    (run pools past i).answer request = .issued (.ok t)

/-! ## Rejections -/

theorem step_of_isRejection {request : ι × PoolRequest}
    (h : ((pools request.1).answer request.2).isRejection) : step pools request = pools := by
  rw [step, Pool.after_of_isRejection h, Function.update_eq_self]

/-- Without the requests that are rejected, a run ends in the same pools. By induction on
the run, one request at a time. -/
theorem run_heeded (pools : ι → Pool) (requests : List (ι × PoolRequest)) :
    run pools (heeded pools requests) = run pools requests := by
  induction requests generalizing pools with
  | nil => rfl
  | cons request rest ih =>
    rw [heeded]
    split
    · next hrejected =>
      rw [step_of_isRejection hrejected, ih]
      change _ = run (step pools request) rest
      rw [step_of_isRejection hrejected]
    · exact ih (step pools request)

/-- All other requests are answered the same, as they find the same pools. -/
theorem answers_heeded (pools : ι → Pool) (requests : List (ι × PoolRequest)) :
    answers pools (heeded pools requests) =
      (answers pools requests).filter fun answer => !answer.isRejection := by
  induction requests generalizing pools with
  | nil => rfl
  | cons request rest ih =>
    rw [heeded, answers]
    split
    · next hrejected =>
      rw [step_of_isRejection hrejected, ih, List.filter_cons_of_neg (by simp [hrejected])]
    · next hheeded =>
      rw [answers, ih, List.filter_cons_of_pos (by simp [hheeded])]

/-! ## Runs

A token that was issued somewhere in a run can be used anywhere later in it. The lemmas
carry what is known of it from there to here. -/

theorem later_step (pools : ι → Pool) (request : ι × PoolRequest) (i : ι) :
    (pools i).Later (step pools request i) := by
  by_cases hi : i = request.1
  · subst hi
    rw [step, Function.update_self]
    exact Pool.later_after _ _
  · rw [step, Function.update_of_ne hi]
    exact .refl _

theorem later_run (pools : ι → Pool) (requests : List (ι × PoolRequest)) (i : ι) :
    (pools i).Later (run pools requests i) := by
  induction requests generalizing pools with
  | nil => exact .refl _
  | cons request rest ih => exact (later_step pools request i).trans (ih (step pools request))

theorem run_append (pools : ι → Pool) (past future : List (ι × PoolRequest)) :
    run pools (past ++ future) = run (run pools past) future := List.foldl_append

/-- A token that was issued in a run has the serial of its pool, and names a block of it,
then and ever after. -/
theorem Issued.in_range {requests : List (ι × PoolRequest)} {i : ι} {t : Token}
    (h : Issued pools requests i t) (hnumbered : (pools i).Numbered) :
    t.pool = (pools i).serial ∧ t.id.toNat < (run pools requests i).size := by
  obtain ⟨past, request, ⟨future, rfl⟩, hissued⟩ := h
  have hpast := later_run pools past i
  obtain ⟨hserial, hid⟩ := Pool.issued_in_range (hpast.numbered hnumbered) hissued
  have hfuture := later_run (step (run pools past) (i, request)) future i
  rw [step, Function.update_self] at hfuture
  refine ⟨hserial.trans hpast.serial_eq, Nat.lt_of_lt_of_le hid ?_⟩
  rw [run_append, run_append]
  exact hfuture.size_le

/-- **Pools do not get into each other's way.** Take new pools with different serials
through any requests, with any tokens. Then at every point

* giving back, reading and writing succeed exactly with a token that has the serial of the
  pool and the number of a block that is held there;
* a token that a pool has issued is foreign to every other pool in all of its states, and
  never to the pool itself;
* taking back succeeds exactly with the number of a block on loan, and gives a token for
  that block;
* the run without the requests that were rejected ends in the same pools, with the same
  answers.
-/
theorem isolated_run {serials : ι → UInt32} {configs : ι → PoolConfig}
    {mappings : ι → MappingAnswers} (hserials : Function.Injective serials)
    (hcreate : ∀ i, Pool.create (serials i) (configs i) (mappings i) = .ok (pools i))
    (requests : List (ι × PoolRequest)) :
    let now := run pools requests
    (∀ i t,
      let right := t.pool = serials i ∧ (now i).state? t.id.toNat = some .held
      (((now i).release t).1 = .ok () ↔ right) ∧ ((∃ bytes, (now i).data t = .ok bytes) ↔ right) ∧
        ∀ start piece, ((now i).write t start piece).1 = .ok () ↔ right) ∧
    (∀ i t, Issued pools requests i t →
      (∀ j ≠ i, ∀ others, (run pools others j).Refuses t (.foreignBuffer t.id)) ∧
        ∀ id, ((now i).release t).1 ≠ .error (.foreignBuffer id) ∧
          (now i).data t ≠ .error (.foreignBuffer id) ∧
          ∀ start piece, ((now i).write t start piece).1 ≠ .error (.foreignBuffer id)) ∧
    (∀ i (tag : UInt64),
      ((∃ t, ((now i).reclaim tag).1 = .ok t) ↔
          tag.toNat < (now i).size ∧ (now i).state? tag.toNat = some .loaned) ∧
        ∀ t, ((now i).reclaim tag).1 = .ok t → t.pool = serials i ∧ t.id.toNat = tag.toNat) ∧
    run pools (heeded pools requests) = now ∧
      answers pools (heeded pools requests) =
        (answers pools requests).filter fun answer => !answer.isRejection := by
  intro now
  have hnumbered (i : ι) : (pools i).Numbered := (Pool.numbered_create (hcreate i)).1
  have hstart (i : ι) : (pools i).serial = serials i := (Pool.numbered_create (hcreate i)).2
  -- serials never change, so a pool is told from another by its own at any time
  have hserial (requests : List (ι × PoolRequest)) (i : ι) :
      (run pools requests i).serial = serials i :=
    (later_run pools requests i).serial_eq.trans (hstart i)
  refine ⟨fun i t => ?_, fun i t hissued => ⟨fun j hj others => ?_, fun id => ?_⟩,
    fun i tag => ?_, run_heeded pools requests, answers_heeded pools requests⟩
  · have hcheck : (now i).check t = .ok () ↔
        t.pool = serials i ∧ (now i).state? t.id.toNat = some .held := by
      rw [Pool.check_eq_ok_iff, hserial requests i, and_comm]
    refine ⟨?_, Pool.data_ok_iff.trans hcheck, fun start piece => ?_⟩
    · rw [Pool.release_answer]
      exact hcheck
    · rw [Pool.write_answer]
      exact hcheck
  · obtain ⟨hpool, -⟩ := hissued.in_range (hnumbered i)
    refine Pool.refuses_of_check (Pool.check_of_ne ?_)
    rw [hpool, hstart, hserial others j]
    exact fun heq => hj (hserials heq).symm
  · obtain ⟨hpool, hid⟩ := hissued.in_range (hnumbered i)
    have hown : t.pool = (now i).serial := by
      rw [hpool, hstart, hserial requests i]
    have hcheck := Pool.check_ne_foreign hown hid id
    refine ⟨?_, mt Pool.data_error_iff.mp hcheck, fun start piece => ?_⟩
    · rw [Pool.release_answer]
      exact hcheck
    · rw [Pool.write_answer]
      exact hcheck
  · rw [← hserial requests i]
    exact Pool.reclaim_ok_iff ((later_run pools requests i).numbered (hnumbered i)) tag

/-- Two pools, each with its block 0 in use. The token of the first pool does not get into
the second one, its second release is refused, and a tag that only ends in the bits of block
0 is unknown. Nothing of this leaves a trace. -/
theorem isolated_after_straying :
    let serials (second : Bool) : UInt32 := if second then 8 else 7
    let config : PoolConfig := { blockSize := 8, alignment := 8 }
    let requests : List (Bool × PoolRequest) :=
      [(false, .event (.call .allocate)), (true, .event (.call .allocate)),
        (true, .event (.call (.release ⟨0, 7⟩))), (false, .data ⟨0, 8⟩),
        (false, .event (.call (.release ⟨0, 7⟩))), (false, .event (.call (.release ⟨0, 7⟩))),
        (true, .event (.call (.loan ⟨0, 8⟩))), (true, .event (.call (.reclaim 4294967296))),
        (true, .event (.call (.reclaim 0)))]
    ∃ pools : Bool → Pool, Function.Injective serials ∧
      (∀ i, Pool.create (serials i) config = .ok (pools i)) ∧
      (run pools requests true).state? 0 = some .held ∧
      (run pools requests true).Refuses ⟨0, 7⟩ (.foreignBuffer 0) ∧
      (heeded pools requests).length = 5 ∧
      run pools (heeded pools requests) = run pools requests := by
  intro serials config requests
  let pools (i : Bool) : Pool := { serial := serials i, config }
  have hserials : Function.Injective serials := Bool.injective_iff.mpr (by decide)
  have hvalid : config.fault? = none := by decide +kernel
  have hcreate (i : Bool) : Pool.create (serials i) config = .ok (pools i) := by
    rw [Pool.create, hvalid]
  have hissued : Issued pools requests false ⟨0, 7⟩ :=
    ⟨[], .event (.call .allocate), ⟨_, rfl⟩, rfl⟩
  obtain ⟨-, hforeign, -, hheeded, -⟩ := isolated_run hserials hcreate requests
  obtain ⟨hrefuses, -⟩ := hforeign false ⟨0, 7⟩ hissued
  refine ⟨pools, hserials, hcreate, ?_, hrefuses true (by decide) requests, ?_, hheeded⟩
  · decide +kernel
  · decide +kernel

end Pools

end RingRead
