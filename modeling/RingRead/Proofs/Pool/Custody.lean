import Mathlib.Data.List.Nodup
import Mathlib.Data.List.Perm.Basic
import RingRead.Proofs.Pool.Soundness

/-!
# Custody of blocks

Whoever uses a pool holds tokens and has loans out. A token is gone once it was given to
`release` or `loan`: it cannot be used twice. `Custody` is a pool together with the tokens
that were issued and are not gone, and the loans that were made and not reclaimed.

* **Listing.** `p.Lists s ids` says that the blocks in the state `s` are those with the
  numbers `ids`, each listed once. A move of one block enters it into one list and takes it
  out of another (`Lists.enter`, `Lists.leave`, `Lists.keep`).
* **A step.** Every call that uses tokens in hand keeps the tokens a list of the held
  blocks, and the loans one of the loaned blocks (`Custody.Exclusive.step`). It touches no
  block of another token or loan (`Custody.Exclusive.untouched_step`).
* **A run.** `Custody.exclusive_run` carries both over all runs.
-/

namespace RingRead

/-! ## Listing blocks

To say that tokens are exclusive is to say that a list of numbers has no repetition and
names the blocks of one state. Since every operation moves at most one block, three lemmas
cover all that can happen to such a list. -/

namespace Pool

variable {p p' : Pool} {t : Token} {id : Nat} {ids rest : List Nat} {s s' : BlockState}

/-- The blocks in the state `s` are those with the numbers `ids`, each of which is listed
once. A list that has this property counts the blocks as well as naming them. -/
structure Lists (p : Pool) (s : BlockState) (ids : List Nat) : Prop where
  nodup : ids.Nodup
  mem_iff : ∀ id, p.state? id = some s ↔ id ∈ ids

/-- Where no state changes, neither do the lists. Bytes are of no interest to them. -/
theorem Lists.of_state_eq (h : p.Lists s ids) (hstate : ∀ id, p'.state? id = p.state? id) :
    p'.Lists s ids := by
  refine ⟨h.nodup, fun id => ?_⟩
  rw [hstate]
  exact h.mem_iff id

/-- A block that goes to a state enters the list of that state. -/
theorem Lists.enter (h : p.Lists s ids) (hmoves : p.Moves [id] s p')
    (hnot : p.state? id ≠ some s) : p'.Lists s (id :: ids) := by
  refine ⟨List.nodup_cons.mpr ⟨mt (h.mem_iff id).mpr hnot, h.nodup⟩, fun other => ?_⟩
  by_cases hother : other = id
  · subst hother
    simp [hmoves.state_of_mem other (List.mem_singleton.mpr rfl)]
  · rw [hmoves.state_of_not_mem other (by simpa using hother), h.mem_iff]
    simp [hother]

/-- A block that goes to another state leaves the list. Where in the list it stood does not
matter, since users give blocks back in any order. -/
theorem Lists.leave (h : p.Lists s ids) (hids : ids.Perm (id :: rest))
    (hmoves : p.Moves [id] s' p') (hs : s' ≠ s) : p'.Lists s rest := by
  obtain ⟨hnot, hnodup⟩ := List.nodup_cons.mp (hids.nodup h.nodup)
  refine ⟨hnodup, fun other => ?_⟩
  by_cases hother : other = id
  · subst hother
    simp [hmoves.state_of_mem other (List.mem_singleton.mpr rfl), hs, hnot]
  · rw [hmoves.state_of_not_mem other (by simpa using hother), h.mem_iff, hids.mem_iff]
    simp [hother]

/-- A move between two other states changes nothing about the list. Every move of a block is
so for one of the three states. -/
theorem Lists.keep (h : p.Lists s ids) (hmoves : p.Moves [id] s' p') (hs : s' ≠ s)
    (hnot : p.state? id ≠ some s) : p'.Lists s ids := by
  refine ⟨h.nodup, fun other => ?_⟩
  by_cases hother : other = id
  · subst hother
    simp [hmoves.state_of_mem other (List.mem_singleton.mpr rfl), hs, mt (h.mem_iff other).mpr hnot]
  · rw [hmoves.state_of_not_mem other (by simpa using hother)]
    exact h.mem_iff other

/-- Writing into a held block changes the bytes of this block alone, and no state. -/
theorem write_ok (h : p.check t = .ok ()) (start : Nat) (piece : Bytes) :
    (∀ id, (p.write t start piece).2.state? id = p.state? id) ∧
      (∀ id, id ≠ t.id.toNat → (p.write t start piece).2.bytes? id = p.bytes? id) := by
  simp only [write, h]
  constructor
  · intro id
    exact state?_modify_of_state_eq p t.id.toNat id fun _ => rfl
  · intro id hid
    exact bytes?_modify_ne p _ hid

/-- Writing is nothing to the free stack: the block that is written to is held, so it is not
on it. -/
theorem Sound.write (h : p.Sound) (hcheck : p.check t = .ok ()) (start : Nat) (piece : Bytes) :
    (p.write t start piece).2.Sound := by
  have hheld := (check_eq_ok_iff.mp hcheck).1
  simp only [Pool.write, hcheck]
  exact h.modify (h.ne_of_mem_free (by decide) hheld) _

/-- An allocation that fails changes no block. At most the free stack is shorter afterwards,
by the block that was found damaged. -/
theorem same_of_allocate_error {e : Error} (herror : p.allocate = (.error e, p')) :
    (∀ id, p'.state? id = p.state? id) ∧ (∀ id, p'.bytes? id = p.bytes? id) ∧
      p'.serial = p.serial := by
  rcases allocate_error_cases herror with
    ⟨-, -, -, rfl⟩ | ⟨err, -, -, -, -, rfl⟩ | ⟨n, rest, -, -, -, rfl⟩
  all_goals exact ⟨fun _ => rfl, fun _ => rfl, rfl⟩

/-- A free stack that has lost its top is still one of free blocks. -/
theorem Sound.allocate_error {e : Error} (h : p.Sound) (herror : p.allocate = (.error e, p')) :
    p'.Sound := by
  rcases allocate_error_cases herror with
    ⟨-, -, -, rfl⟩ | ⟨err, -, -, -, -, rfl⟩ | ⟨n, rest, hfree, -, -, rfl⟩
  · exact h
  · exact h.refused
  · exact h.of_state_eq (hfree ▸ List.sublist_cons_self n rest) (fun _ => rfl) rfl

end Pool

/-! ## Tokens and loans

A token cannot be copied, and a call that takes one takes it away. Nothing of that is to be
seen in a pool, where a token is a pair of numbers. `Custody` keeps the account that the
pool does not keep. -/

/-- A call of a pool. Calls are data here, so that a run is a list of them, and what is to
hold after every run can be proved by induction on that list. -/
inductive PoolCall where
  | allocate
  | release (token : Token)
  | write (token : Token) (start : Nat) (piece : Bytes)
  | loan (token : Token)
  | reclaim (tag : UInt64)

namespace PoolCall

/-- The token that a call goes through, if it is a call of somebody who holds one. -/
def token? : PoolCall → Option Token
  | release token | write token _ _ | loan token => some token
  | allocate | reclaim _ => none

/-- The tag that a call goes through. Only the kernel side has tags: they come back in
completions. -/
def tag? : PoolCall → Option UInt64
  | reclaim tag => some tag
  | allocate | release _ | write .. | loan _ => none

end PoolCall

/-- A pool, and what its user has of it: the tokens that are in hand, and the tags that are
with the kernel. Nothing in a pool keeps these lists. That they are right is what is
proved. -/
structure Custody where
  pool : Pool
  /-- The tokens that were issued and not given to `release` or `loan` since. -/
  tokens : List Token := []
  /-- The tags of the loans that were made and not reclaimed. -/
  loans : List UInt64 := []

namespace Custody

/-- What a user has after a call. The token that a release or a loan is given is gone,
whatever the call answers: it was moved into the call. -/
def step (c : Custody) : PoolCall → Custody
  | .allocate =>
    match c.pool.allocate with
    | (.ok token, pool) => { c with pool, tokens := token :: c.tokens }
    | (.error _, pool) => { c with pool }
  | .release token =>
    { c with pool := (c.pool.release token).2, tokens := c.tokens.erase token }
  | .write token start piece => { c with pool := (c.pool.write token start piece).2 }
  | .loan token =>
    let ((tag, _), pool) := c.pool.loan token
    { pool, tokens := c.tokens.erase token, loans := tag :: c.loans }
  | .reclaim tag =>
    match c.pool.reclaim tag with
    | (.ok token, pool) =>
      { pool, tokens := token :: c.tokens, loans := c.loans.erase tag }
    | (.error _, pool) => { c with pool }

/-- What a user has after a sequence of calls. -/
def run (c : Custody) (calls : List PoolCall) : Custody := calls.foldl step c

/-- Each call of a sequence goes through a token that is in hand, if it goes through one at
all. That is what moving tokens gives a user, without anything being checked at run time. -/
def Entitled (c : Custody) : List PoolCall → Prop
  | [] => True
  | call :: rest => (∀ token ∈ call.token?, token ∈ c.tokens) ∧ (c.step call).Entitled rest

instance decidableEntitled : (c : Custody) → (calls : List PoolCall) → Decidable (c.Entitled calls)
  | _, [] => isTrue trivial
  | c, call :: rest =>
    have := decidableEntitled (c.step call) rest
    inferInstanceAs (Decidable ((∀ token ∈ call.token?, token ∈ c.tokens) ∧ _))

/-- The tokens in hand name the held blocks, and the loans name the loaned ones, each once.
So nobody else can have a token of a block that somebody holds. -/
structure Exclusive (c : Custody) : Prop where
  sound : c.pool.Sound
  held : c.pool.Lists .held (c.tokens.map fun token => token.id.toNat)
  loaned : c.pool.Lists .loaned (c.loans.map UInt64.toNat)
  pool_eq : ∀ token ∈ c.tokens, token.pool = c.pool.serial

/-- A call leaves a block as it is, its state and its bytes. It may change the statistics
and the free stack, and the blocks of others. -/
def Untouched (c : Custody) (call : PoolCall) (id : Nat) : Prop :=
  (c.step call).pool.state? id = c.pool.state? id ∧
    (c.step call).pool.bytes? id = c.pool.bytes? id

variable {c : Custody} {t : Token} {id : Nat}

/-- The block of a token in hand is held. -/
theorem Exclusive.state?_of_token (h : c.Exclusive) (ht : t ∈ c.tokens) :
    c.pool.state? t.id.toNat = some .held :=
  (h.held.mem_iff _).mpr (List.mem_map_of_mem ht)

/-- A token in hand gives a right to its block. So calls through it are not refused. -/
theorem Exclusive.check_eq_ok (h : c.Exclusive) (ht : t ∈ c.tokens) :
    c.pool.check t = .ok () :=
  Pool.check_eq_ok_iff.mpr ⟨h.state?_of_token ht, h.pool_eq t ht⟩

/-- The tokens in hand are the one that is used and the others, up to order. Since tokens
are told apart by their numbers, so are the blocks. -/
theorem perm_map_erase (ht : t ∈ c.tokens) :
    (c.tokens.map fun token => token.id.toNat).Perm
      (t.id.toNat :: (c.tokens.erase t).map fun token => token.id.toNat) :=
  (List.perm_cons_erase ht).map fun token : Token => token.id.toNat

/-! ## A step

Tokens and loans are two lists, and a call moves a block from one to the other, or in or out
of both. The proofs follow this: which list is entered and which is left. -/

/-- The block of a new token is one that nobody had: it was free, or did not exist. So
tokens stay different. -/
theorem Exclusive.allocate (h : c.Exclusive) : (c.step .allocate).Exclusive := by
  rcases halloc : c.pool.allocate with ⟨err | token, pool⟩
  · obtain ⟨hstate, -, hserial⟩ := Pool.same_of_allocate_error halloc
    simp only [step, halloc]
    exact ⟨h.sound.allocate_error halloc, h.held.of_state_eq hstate, h.loaned.of_state_eq hstate,
      fun token ht => (h.pool_eq token ht).trans hserial.symm⟩
  · have hallocates := Pool.allocates_of_ok h.sound halloc
    -- the block was in nobody's hands
    have hidle : ∀ s, s ≠ .free → c.pool.state? token.id.toNat ≠ some s := by
      intro s hs heq
      rcases hallocates.idle with hfree | hnone
      · rw [hfree] at heq
        exact hs (Option.some.inj heq).symm
      · rw [hnone] at heq
        cases heq
    simp only [step, halloc]
    refine ⟨hallocates.sound, h.held.enter hallocates.moves (hidle _ (by decide)),
      h.loaned.keep hallocates.moves (by decide) (hidle _ (by decide)), ?_⟩
    intro other hother
    have hserial : pool.serial = c.pool.serial := hallocates.moves.serial_eq
    rcases List.mem_cons.mp hother with rfl | hother
    · exact hallocates.pool_eq.trans hserial.symm
    · exact (h.pool_eq other hother).trans hserial.symm

theorem Exclusive.release (h : c.Exclusive) (ht : t ∈ c.tokens) :
    (c.step (.release t)).Exclusive := by
  have hcheck := h.check_eq_ok ht
  have hheld := h.state?_of_token ht
  have hmoves := Pool.moves_release hcheck
  refine ⟨h.sound.release hcheck, h.held.leave (perm_map_erase ht) hmoves (by decide),
    h.loaned.keep hmoves (by decide) (by simp [hheld]), ?_⟩
  intro other hother
  exact (h.pool_eq other (List.mem_of_mem_erase hother)).trans hmoves.serial_eq.symm

theorem Exclusive.write (h : c.Exclusive) (ht : t ∈ c.tokens) (start : Nat) (piece : Bytes) :
    (c.step (.write t start piece)).Exclusive := by
  have hcheck := h.check_eq_ok ht
  obtain ⟨hstate, -⟩ := Pool.write_ok hcheck start piece
  have hserial : (c.pool.write t start piece).2.serial = c.pool.serial := by
    simp only [Pool.write, hcheck]
    rfl
  exact ⟨h.sound.write hcheck start piece, h.held.of_state_eq hstate, h.loaned.of_state_eq hstate,
    fun token ht => (h.pool_eq token ht).trans hserial.symm⟩

/-- A loan turns a token into a tag. The block moves from one list to the other, and there
it was in neither. -/
theorem Exclusive.loan (h : c.Exclusive) (ht : t ∈ c.tokens) : (c.step (.loan t)).Exclusive := by
  have hheld := h.state?_of_token ht
  have hmoves : c.pool.Moves [t.id.toNat] .loaned (c.pool.loan t).2 :=
    Pool.moves_loan (by simp [hheld])
  have htag : t.tag.toNat = t.id.toNat := UInt32.toNat_toUInt64 t.id
  refine ⟨h.sound.loan hheld, h.held.leave (perm_map_erase ht) hmoves (by decide), ?_, ?_⟩
  · have hloaned := h.loaned.enter hmoves (by simp [hheld])
    rw [← htag] at hloaned
    exact hloaned
  · intro other hother
    exact (h.pool_eq other (List.mem_of_mem_erase hother)).trans hmoves.serial_eq.symm

/-- The tag of a loaned block turns its loan into a token. -/
theorem step_reclaim {tag : UInt64} (hloaned : c.pool.state? tag.toNat = some .loaned) :
    c.step (.reclaim tag) =
      { pool := (c.pool.reclaim tag).2,
        tokens := c.pool.issue tag.toUInt32 :: c.tokens,
        loans := c.loans.erase tag } := by
  obtain ⟨hanswer, -, -⟩ := Pool.reclaim_loaned hloaned
  rcases hreclaim : c.pool.reclaim tag with ⟨answer, pool⟩
  rw [hreclaim] at hanswer
  obtain rfl : answer = .ok (c.pool.issue tag.toUInt32) := hanswer
  simp only [step, hreclaim]

/-- A tag that is taken back turns into a token again. A tag that is not with the kernel is
refused, and nothing changes. -/
theorem Exclusive.reclaim (h : c.Exclusive) (tag : UInt64) : (c.step (.reclaim tag)).Exclusive := by
  by_cases hloaned : c.pool.state? tag.toNat = some .loaned
  · have hmoves := Pool.moves_reclaim hloaned
    have hid : (c.pool.issue tag.toUInt32).id.toNat = tag.toNat := h.sound.toNat_toUInt32 hloaned
    -- the tag is one of the loans, because its block is on loan
    have hmem : tag ∈ c.loans := by
      obtain ⟨tag', htag', heq⟩ := List.mem_map.mp ((h.loaned.mem_iff _).mp hloaned)
      exact UInt64.toNat_inj.mp heq ▸ htag'
    rw [step_reclaim hloaned]
    refine ⟨h.sound.reclaim hloaned, ?_,
      h.loaned.leave ((List.perm_cons_erase hmem).map UInt64.toNat) hmoves (by decide), ?_⟩
    · have hheld := h.held.enter hmoves (by simp [hloaned])
      rw [← hid] at hheld
      exact hheld
    · intro other hother
      rcases List.mem_cons.mp hother with rfl | hother
      · exact hmoves.serial_eq.symm
      · exact (h.pool_eq other hother).trans hmoves.serial_eq.symm
  · simp only [step, Pool.reclaim_unknown hloaned]
    exact h

/-- Every call that goes through a token in hand keeps tokens and loans exclusive. One case
for each call; a reclaim needs no token, and one with a wrong tag does nothing. -/
theorem Exclusive.step (h : c.Exclusive) {call : PoolCall}
    (hentitled : ∀ token ∈ call.token?, token ∈ c.tokens) : (c.step call).Exclusive := by
  cases call with
  | allocate => exact h.allocate
  | release token => exact h.release (hentitled token rfl)
  | write token start piece => exact h.write (hentitled token rfl) start piece
  | loan token => exact h.loan (hentitled token rfl)
  | reclaim tag => exact h.reclaim tag

/-- What a call keeps, a sequence of calls keeps. -/
theorem exclusive_of_entitled (h : c.Exclusive) (calls : List PoolCall)
    (hentitled : c.Entitled calls) : (c.run calls).Exclusive := by
  induction calls generalizing c with
  | nil => exact h
  | cons call rest ih =>
    obtain ⟨hcall, hrest⟩ := hentitled
    exact ih (h.step hcall) hrest

/-! ## Blocks of others

What a step does is known by now. What it does not do is the other half of exclusive
ownership: the blocks of all other tokens and loans keep their states and their bytes. -/

/-- A move touches no other block than the ones that it moves. -/
theorem untouched_of_moves {call : PoolCall} {moved : Nat} {s : BlockState}
    (hmoves : c.pool.Moves [moved] s (c.step call).pool) (hne : id ≠ moved) :
    c.Untouched call id :=
  ⟨hmoves.state_of_not_mem id (by simpa using hne), hmoves.bytes_of_not_mem id (by simpa using hne)⟩

/-- Two tokens in hand name two blocks. -/
theorem Exclusive.id_ne (h : c.Exclusive) {t' : Token} (ht : t ∈ c.tokens) (ht' : t' ∈ c.tokens)
    (hne : t ≠ t') : t.id.toNat ≠ t'.id.toNat := fun heq =>
  hne (List.inj_on_of_nodup_map h.held.nodup ht ht' heq)

/-- A call that goes through a token in hand touches its own block only. So holding a token
is enough to be left alone by everybody else. -/
theorem Exclusive.untouched_of_token {call : PoolCall} (h : c.Exclusive) (ht : t ∈ c.tokens)
    (hcall : call.token? = some t) (hne : id ≠ t.id.toNat) : c.Untouched call id := by
  have hheld := h.state?_of_token ht
  cases call with
  | allocate => cases hcall
  | release token =>
    obtain rfl : token = t := Option.some.inj hcall
    exact untouched_of_moves (Pool.moves_release (h.check_eq_ok ht)) hne
  | write token start piece =>
    obtain rfl : token = t := Option.some.inj hcall
    obtain ⟨hstate, hbytes⟩ := Pool.write_ok (h.check_eq_ok ht) start piece
    exact ⟨hstate id, hbytes id hne⟩
  | loan token =>
    obtain rfl : token = t := Option.some.inj hcall
    exact untouched_of_moves (Pool.moves_loan (by simp [hheld])) hne
  | reclaim tag => cases hcall

/-- An allocation touches no block that is in somebody's hands: it takes a free one, or
makes one. -/
theorem Exclusive.untouched_allocate (h : c.Exclusive) {s : BlockState} (hs : s ≠ .free)
    (hstate : c.pool.state? id = some s) : c.Untouched .allocate id := by
  rcases halloc : c.pool.allocate with ⟨err | token, pool⟩
  · obtain ⟨hsame, hbytes, -⟩ := Pool.same_of_allocate_error halloc
    simp only [Untouched, Custody.step, halloc]
    exact ⟨hsame id, hbytes id⟩
  · have hallocates := Pool.allocates_of_ok h.sound halloc
    have hpool : (c.step .allocate).pool = pool := by simp only [Custody.step, halloc]
    refine untouched_of_moves (hpool.symm ▸ hallocates.moves) ?_
    rintro rfl
    rcases hallocates.idle with hfree | hnone
    · rw [hfree] at hstate
      exact hs (Option.some.inj hstate).symm
    · rw [hnone] at hstate
      cases hstate

/-- Reclaiming touches no block but the loaned one that the tag names. -/
theorem untouched_reclaim {tag : UInt64}
    (hne : id ≠ tag.toNat ∨ c.pool.state? id ≠ some .loaned) : c.Untouched (.reclaim tag) id := by
  by_cases hloaned : c.pool.state? tag.toNat = some .loaned
  · have hpool : (c.step (.reclaim tag)).pool = (c.pool.reclaim tag).2 := by
      rw [step_reclaim hloaned]
    refine untouched_of_moves (hpool.symm ▸ Pool.moves_reclaim hloaned) ?_
    rintro rfl
    rcases hne with hne | hne
    · exact hne rfl
    · exact hne hloaned
  · simp [Untouched, Custody.step, Pool.reclaim_unknown hloaned]

/-- A call touches neither the block of a token that it does not go through, nor that of a
loan whose tag it does not go through. -/
theorem Exclusive.untouched_step (h : c.Exclusive) {call : PoolCall}
    (hentitled : ∀ token ∈ call.token?, token ∈ c.tokens) :
    (∀ token ∈ c.tokens, call.token? ≠ some token → c.Untouched call token.id.toNat) ∧
      ∀ tag ∈ c.loans, call.tag? ≠ some tag → c.Untouched call tag.toNat := by
  have hloaned (tag : UInt64) (htag : tag ∈ c.loans) : c.pool.state? tag.toNat = some .loaned :=
    (h.loaned.mem_iff _).mpr (List.mem_map_of_mem htag)
  rcases htoken : call.token? with _ | used
  · -- without a token the call is an allocation or takes back a loan
    cases call with
    | allocate =>
      exact ⟨fun token ht _ => h.untouched_allocate (by decide) (h.state?_of_token ht),
        fun tag htag _ => h.untouched_allocate (by decide) (hloaned tag htag)⟩
    | reclaim tag =>
      refine ⟨fun token ht _ => untouched_reclaim (Or.inr (by simp [h.state?_of_token ht])), ?_⟩
      intro other hother hne
      refine untouched_reclaim (Or.inl fun heq => hne ?_)
      rw [UInt64.toNat_inj.mp heq]
      rfl
    | release token => cases htoken
    | write token start piece => cases htoken
    | loan token => cases htoken
  · have hused : used ∈ c.tokens := hentitled used htoken
    refine ⟨fun token ht hne => ?_, fun tag htag _ => ?_⟩
    · exact h.untouched_of_token hused htoken (h.id_ne ht hused fun heq => hne (heq ▸ rfl))
    · refine h.untouched_of_token hused htoken fun heq => ?_
      have hstate := hloaned tag htag
      rw [heq, h.state?_of_token hused] at hstate
      cases hstate

/-! ## Runs -/

/-- The user of a pool that was just created has nothing. -/
theorem exclusive_create {serial : UInt32} {config : PoolConfig} {mappings : MappingAnswers}
    {pool : Pool}
    (h : Pool.create serial config mappings = .ok pool) : Exclusive { pool } := by
  obtain ⟨hsound, hsize, -⟩ := Pool.sound_create h
  have hnone (s : BlockState) : pool.Lists s [] := by
    refine ⟨List.nodup_nil, fun id => ⟨fun hid => ?_, nofun⟩⟩
    have hlt : id < pool.size := Pool.state?_isSome_iff.mp (by simp [hid])
    omega
  exact ⟨hsound, hnone .held, hnone .loaned, nofun⟩

/-- Where every token is used only while it is in hand, at every point of every run the
tokens in hand name different blocks, which are exactly the held ones, and the loans name
different blocks, which are exactly the loaned ones. No block is both. Whatever call comes
next, it leaves the blocks of all other tokens and loans as they are, state and bytes. -/
theorem exclusive_run {serial : UInt32} {config : PoolConfig} {mappings : MappingAnswers}
    {pool : Pool}
    (hcreate : Pool.create serial config mappings = .ok pool) (calls : List PoolCall)
    (hentitled : Entitled { pool } calls) :
    let c := run { pool } calls
    (c.tokens.map fun token => token.id.toNat).Nodup ∧
      (∀ id, c.pool.state? id = some .held ↔ ∃ token ∈ c.tokens, token.id.toNat = id) ∧
      (c.loans.map UInt64.toNat).Nodup ∧
      (∀ id, c.pool.state? id = some .loaned ↔ ∃ tag ∈ c.loans, tag.toNat = id) ∧
      (∀ token ∈ c.tokens, ∀ tag ∈ c.loans, token.id.toNat ≠ tag.toNat) ∧
      ∀ call : PoolCall, (∀ token ∈ call.token?, token ∈ c.tokens) →
        (∀ token ∈ c.tokens, call.token? ≠ some token → c.Untouched call token.id.toNat) ∧
          ∀ tag ∈ c.loans, call.tag? ≠ some tag → c.Untouched call tag.toNat := by
  intro c
  have h : c.Exclusive := exclusive_of_entitled (exclusive_create hcreate) calls hentitled
  refine ⟨h.held.nodup, fun id => ?_, h.loaned.nodup, fun id => ?_, ?_,
    fun call hcall => h.untouched_step hcall⟩
  · rw [h.held.mem_iff, List.mem_map]
  · rw [h.loaned.mem_iff, List.mem_map]
  · intro token ht tag htag heq
    have hloaned := (h.loaned.mem_iff _).mpr (List.mem_map_of_mem htag)
    rw [← heq, h.state?_of_token ht] at hloaned
    cases hloaned

/-- Three blocks are taken. The first one is lent, comes back once and no second time; the
second one stays on loan; the third one is given back and taken again. Giving it back once
more touches neither of the others. -/
theorem exclusive_after_reuse :
    ∃ pool, Pool.create 7 { blockSize := 8, alignment := 8 } = .ok pool ∧
      let calls : List PoolCall :=
        [.allocate, .allocate, .allocate, .write ⟨0, 7⟩ 2 (.zeros 3), .loan ⟨0, 7⟩, .loan ⟨1, 7⟩,
          .reclaim 0, .reclaim 0, .release ⟨2, 7⟩, .allocate]
      let c := run { pool } calls
      Entitled { pool } calls ∧ c.tokens = [⟨2, 7⟩, ⟨0, 7⟩] ∧ c.loans = [1] ∧
        (∀ id, c.pool.state? id = some .held ↔ ∃ token ∈ c.tokens, token.id.toNat = id) ∧
        c.Untouched (.release ⟨2, 7⟩) 0 ∧ c.Untouched (.release ⟨2, 7⟩) 1 := by
  let calls : List PoolCall :=
    [.allocate, .allocate, .allocate, .write ⟨0, 7⟩ 2 (.zeros 3), .loan ⟨0, 7⟩, .loan ⟨1, 7⟩,
      .reclaim 0, .reclaim 0, .release ⟨2, 7⟩, .allocate]
  let pool : Pool := { serial := 7, config := { blockSize := 8, alignment := 8 } }
  have hcreate : Pool.create 7 { blockSize := 8, alignment := 8 } = .ok pool := rfl
  have hentitled : Entitled { pool } calls := by decide +kernel
  have htokens : (run { pool } calls).tokens = [⟨2, 7⟩, ⟨0, 7⟩] := by decide +kernel
  have hloans : (run { pool } calls).loans = [1] := by decide +kernel
  obtain ⟨-, hheld, -, -, -, huntouched⟩ := exclusive_run hcreate calls hentitled
  obtain ⟨htoken, htag⟩ := huntouched (.release ⟨2, 7⟩) (by simp [PoolCall.token?, htokens])
  refine ⟨pool, hcreate, hentitled, htokens, hloans, hheld, ?_, ?_⟩
  · exact htoken ⟨0, 7⟩ (by simp [htokens]) (by decide)
  · exact htag 1 (by simp [hloans]) (by decide)

end Custody

end RingRead
