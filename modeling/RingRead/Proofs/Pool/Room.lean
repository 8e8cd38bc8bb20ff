import RingRead.Proofs.Pool.Marks

/-!
# Room for more blocks

A pool can give the blocks on its free stack, and then new ones. How many new ones is not
for the pool alone to say: there is a number for each of them as long as fewer than
`UInt32.size` exist, and the system maps the memory of each, or refuses. `Pool.room` is the
number of blocks that can be allocated one after the other, and `Pool.shortage` is the
answer to the allocation after those.

* **A step.** An allocation takes one from the room and leaves the shortage as it is
  (`Allocates.room_succ`). Without damage it fails only where there is no room, and then
  with the shortage (`Marked.allocate_error`).
* **What it is.** The shortage is one of two: all block numbers are in use, or the system
  refuses to map memory, with an error that is among its answers (`shortage_cases`).
-/

namespace RingRead.Pool

variable {p p' : Pool} {t : Token} {answers : MappingAnswers} {err : SystemError} {numbers : Nat}

/-! ## What the system grants

Both functions follow the answers of the system as long as there are block numbers left. The
count stops at the first refusal, and the error is that refusal if the numbers last until
then.
-/

/-- How many blocks the system maps before it refuses one, with so many block numbers left.
A system that has no more answers to give refuses nothing, so only the numbers can run out
then. -/
def grants : MappingAnswers → (numbers : Nat) → Nat
  | [], numbers => numbers
  | some _ :: _, _ => 0
  | none :: _, 0 => 0
  | none :: answers, numbers + 1 => grants answers numbers + 1

/-- Why no more blocks than those are made: the numbers have run out, or the next answer of
the system is a refusal. A refusal that is due when no number is left is never asked for. -/
def denial : MappingAnswers → (numbers : Nat) → Error
  | [], _ | _, 0 => .poolExhausted UInt32.size
  | some err :: _, _ + 1 => .alloc err
  | none :: answers, numbers + 1 => denial answers numbers

@[simp] theorem grants_zero (answers : MappingAnswers) : grants answers 0 = 0 := by
  rcases answers with _ | ⟨_ | err, answers⟩
  all_goals rfl

@[simp] theorem denial_zero (answers : MappingAnswers) :
    denial answers 0 = .poolExhausted UInt32.size := by
  rcases answers with _ | ⟨_ | err, answers⟩
  all_goals rfl

/-- A block that is mapped takes one of the block numbers and one of the answers. -/
theorem grants_succ (h : answers.head?.join = none) (numbers : Nat) :
    grants answers (numbers + 1) = grants answers.tail numbers + 1 ∧
      denial answers (numbers + 1) = denial answers.tail numbers := by
  rcases answers with _ | ⟨_ | err, answers⟩
  · exact ⟨rfl, rfl⟩
  · exact ⟨rfl, rfl⟩
  · cases h

/-- A refusal is the end. What the system would answer after it does not count: both
functions are about allocations up to the first one that fails. -/
theorem grants_of_refusal (h : answers.head?.join = some err) (numbers : Nat) :
    grants answers (numbers + 1) = 0 ∧ denial answers (numbers + 1) = .alloc err := by
  rcases answers with _ | ⟨_ | err', answers⟩
  · cases h
  · cases h
  · cases h
    exact ⟨rfl, rfl⟩

/-- A system that refuses nothing maps a block for every number. -/
theorem grants_eq_self (h : ∀ answer ∈ answers, answer = none) (numbers : Nat) :
    grants answers numbers = numbers ∧ denial answers numbers = .poolExhausted UInt32.size := by
  induction answers generalizing numbers with
  | nil => exact ⟨rfl, by simp [denial]⟩
  | cons answer answers ih =>
    obtain ⟨rfl, hrest⟩ := List.forall_mem_cons.mp h
    cases numbers with
    | zero => exact ⟨rfl, rfl⟩
    | succ numbers =>
      obtain ⟨hgrants, hdenial⟩ := ih hrest numbers
      exact ⟨congrArg Nat.succ hgrants, hdenial⟩

/-- There is no third reason. If it is a refusal, its error is one of the answers. -/
theorem denial_cases (answers : MappingAnswers) (numbers : Nat) :
    denial answers numbers = .poolExhausted UInt32.size ∨
      ∃ err, some err ∈ answers ∧ denial answers numbers = .alloc err := by
  induction answers generalizing numbers with
  | nil => exact Or.inl (by simp [denial])
  | cons answer answers ih =>
    rcases numbers with _ | numbers
    · exact Or.inl (denial_zero _)
    · rcases answer with _ | err
      · rcases ih numbers with hnumbers | ⟨err, hmem, hdenial⟩
        · exact Or.inl hnumbers
        · exact Or.inr ⟨err, List.mem_cons_of_mem _ hmem, hdenial⟩
      · exact Or.inr ⟨err, List.mem_cons_self .., rfl⟩

/-! ## Room in a pool

The blocks on the free stack are added to those that the system grants. The room goes down
by one with each allocation, wherever the block comes from, and a loan or bytes that arrive
leave it as it is. -/

/-- How many blocks can still be allocated: those on the free stack, and those that can be
made. Which blocks are on the stack does not matter. -/
def room (p : Pool) : Nat := p.free.length + grants p.mappings (UInt32.size - p.size)

/-- How the allocation fails for which there is no room. It is known beforehand, as the
answers of the system are. -/
def shortage (p : Pool) : Error := denial p.mappings (UInt32.size - p.size)

theorem shortage_cases (p : Pool) :
    p.shortage = .poolExhausted UInt32.size ∨
      ∃ err, some err ∈ p.mappings ∧ p.shortage = .alloc err :=
  denial_cases ..

/-- Where the system refuses nothing, there is room as long as there are block numbers. This
is the pool that callers have in mind who take memory for granted. -/
theorem room_of_granted (h : ∀ answer ∈ p.mappings, answer = none) :
    p.room = p.free.length + (UInt32.size - p.size) ∧ p.shortage = .poolExhausted UInt32.size := by
  obtain ⟨hgrants, hdenial⟩ := grants_eq_self h (UInt32.size - p.size)
  exact ⟨congrArg (p.free.length + ·) hgrants, hdenial⟩

/-- Room and shortage depend on the free stack, the number of blocks and the system
alone. -/
theorem room_congr (hfree : p'.free.length = p.free.length) (hsize : p'.size = p.size)
    (hmappings : p'.mappings = p.mappings) : p'.room = p.room ∧ p'.shortage = p.shortage := by
  simp [room, shortage, hfree, hsize, hmappings]

/-- An allocation takes one from the room, whether it recycles a block or makes one. What
comes after the room stays the same. -/
theorem Allocates.room_succ (h : p.Allocates t p') :
    p'.room + 1 = p.room ∧ p'.shortage = p.shortage := by
  have hle := h.sound.size_le
  unfold room shortage
  rcases h.origin with ⟨hfree, hsize⟩ | ⟨hfree, hfree', -, hsize⟩
  · have hmappings : p'.mappings = p.mappings := by
      rcases h.mapped with ⟨-, hsame⟩ | ⟨hempty, -⟩
      · exact hsame
      · simp [hfree] at hempty
    rw [hfree, hsize, hmappings, List.length_cons]
    exact ⟨by omega, rfl⟩
  · rcases h.mapped with ⟨hnonempty, -⟩ | ⟨-, hgranted, hmappings⟩
    · exact absurd hfree hnonempty
    have hnumbers : UInt32.size - p.size = UInt32.size - p'.size + 1 := by omega
    obtain ⟨hgrants, hdenial⟩ := grants_succ hgranted (UInt32.size - p'.size)
    rw [hfree, hfree', hmappings, hnumbers, hgrants, hdenial, List.length_nil]
    exact ⟨by omega, rfl⟩

/-- A loan takes no room: the block was taken when it was allocated. -/
theorem room_loan (p : Pool) (t : Token) :
    (p.loan t).2.room = p.room ∧ (p.loan t).2.shortage = p.shortage :=
  room_congr rfl (size_modify ..) rfl

theorem mappings_release (p : Pool) (t : Token) : (p.release t).2.mappings = p.mappings := by
  rcases hcheck : p.check t with err | _
  · rw [release_error hcheck]
  · simp only [release, hcheck]
    rfl

theorem mappings_reclaim (p : Pool) (tag : UInt64) : (p.reclaim tag).2.mappings = p.mappings := by
  rw [reclaim]
  split
  · rfl
  · rfl

@[simp] theorem mappings_receiveAll (p : Pool) (transfers : List Transfer) :
    (p.receiveAll transfers).mappings = p.mappings := by
  induction transfers generalizing p with
  | nil => rfl
  | cons transfer rest ih => exact ih (p.receive transfer)

@[simp] theorem room_receiveAll (p : Pool) (transfers : List Transfer) :
    (p.receiveAll transfers).room = p.room := by
  rw [room, room, size_receiveAll, free_receiveAll, mappings_receiveAll]

@[simp] theorem shortage_receiveAll (p : Pool) (transfers : List Transfer) :
    (p.receiveAll transfers).shortage = p.shortage := by
  rw [shortage, shortage, size_receiveAll, mappings_receiveAll]

/-- Without damage, an allocation fails only for want of room. It is the marks that rule
damage out: a block that still has its mark passes the check. -/
theorem Marked.allocate_error {e : Error} (h : p.Marked) (hsound : p.Sound)
    (herror : p.allocate = (.error e, p')) : p.room = 0 ∧ e = p.shortage := by
  unfold room shortage
  rcases allocate_error_cases herror with
    ⟨hfree, hsize, he, -⟩ | ⟨err, hfree, hsize, hrefusal, he, -⟩ | ⟨n, rest, hfree, hmark, -, -⟩
  · have hfull : p.size = UInt32.size := Nat.le_antisymm hsound.size_le hsize
    simp [hfree, hfull, he]
  · obtain ⟨numbers, hnumbers⟩ := Nat.exists_eq_add_of_lt hsize
    have hleft : UInt32.size - p.size = numbers + 1 := by omega
    obtain ⟨hgrants, hdenial⟩ := grants_of_refusal hrefusal numbers
    rw [hfree, hleft, hgrants, hdenial]
    exact ⟨rfl, he⟩
  · exact absurd (h n (hfree ▸ List.mem_cons_self ..)) hmark

/-- Why a pool could make no block: in the end all block numbers are in use, or the system,
which was to answer as `p` has it, has refused to map memory. The pools are those before and
after a batch, whose earlier allocations may have used up some answers. -/
def Short (p p' : Pool) (e : Error) : Prop :=
  e = .poolExhausted UInt32.size ∧ p'.size = UInt32.size ∨
    ∃ err, some err ∈ p.mappings ∧ e = .alloc err

/-- A refusal is the next of the answers that are left. -/
theorem mem_mappings_of_refusal (h : p.refusal? = some err) : some err ∈ p.mappings := by
  exact List.mem_of_head? (Option.join_eq_some_iff.mp h)

/-- The one allocation that fails in an intact pool fails for one of the two reasons. -/
theorem Intact.short {e : Error} (h : p.Intact) (herror : p.allocate = (.error e, p')) :
    p.Short p' e := by
  rcases h.allocate_error herror with ⟨rfl, hsize, rfl⟩ | ⟨err, hrefusal, rfl, -⟩
  · exact Or.inl ⟨by rw [hsize], hsize⟩
  · exact Or.inr ⟨err, mem_mappings_of_refusal hrefusal, rfl⟩

/-- The answers that are left are the last ones of those that there were. A recycled block
uses none up, and a new one uses up the first. -/
theorem Allocates.mappings_suffix (h : p.Allocates t p') : p'.mappings <:+ p.mappings := by
  rcases h.mapped with ⟨-, hsame⟩ | ⟨-, -, htail⟩
  · exact hsame ▸ List.suffix_refl _
  · exact htail ▸ List.tail_suffix _

/-- What the system has refused after some of its answers it would have refused before
them. -/
theorem Short.of_suffix {p'' : Pool} {e : Error} (h : p'.Short p'' e)
    (hsuffix : p'.mappings <:+ p.mappings) : p.Short p'' e := by
  rcases h with hnumbers | ⟨err, hmem, he⟩
  · exact Or.inl hnumbers
  · exact Or.inr ⟨err, hsuffix.subset hmem, he⟩

/-- A refusal uses up its answer, and no other failure asks for one. -/
theorem mappings_of_allocate_error {e : Error} (herror : p.allocate = (.error e, p')) :
    p'.mappings <:+ p.mappings := by
  rcases allocate_error_cases herror with
    ⟨-, -, -, rfl⟩ | ⟨err, -, -, -, -, rfl⟩ | ⟨n, rest, -, -, -, rfl⟩
  · exact List.suffix_refl _
  · exact List.tail_suffix _
  · exact List.suffix_refl _

end RingRead.Pool
