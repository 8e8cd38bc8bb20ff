import RingRead.Proofs.Backlog.Handing
import RingRead.Proofs.Engine.Calls

/-!
# Runs on a kernel that falls behind

A run is a sequence of incidents: calls of the engine, and what is done to the simulated
kernel from outside. What the kernel takes of a batch it decides by itself, and entries that
it has not taken stay published.

Two things could go wrong then. A later batch could be staged over entries that wait, and an
entry that waits could outlive the loan of its block. A run is safe from both in each of
three ways.

* The kernel takes everything, or at least no submission is made while entries wait
  (`Engine.Prompt`).
* Each batch fits beside the entries that wait (`Engine.Fits`), and no completion is forged.
  Then a read is owed from the moment its entry is published until its completion is taken,
  and until then its block is on loan (`Engine.Owes`).
-/

namespace RingRead

/-- What can happen to an engine: a call, or something outside that the kernel is told. A
forged completion is one that the kernel posts although it has served no such entry. -/
inductive Incident : Type 1 where
  | call (call : Call)
  /-- The result of the next read is given. -/
  | inject (res : Int32)
  /-- One more wait will be interrupted. -/
  | interrupt
  /-- A completion is posted that belongs to no submission. -/
  | post (c : Cqe)

/-- A submission. -/
def Incident.Submits : Incident → Prop
  | .call (@Call.submitReads _ _ _ _ _) => True
  | _ => False

namespace Engine

variable {κ : Type} [Kernel κ] [Relay κ] {e e' : Engine κ} {n : UInt32}
variable {entries entries' : List Sqe}

/-- Change the kernel behind from outside. This is how a test tells it results in advance,
or that its next wait is to be interrupted. -/
def adjust (e : Engine κ) (change : SimulatedKernel → SimulatedKernel) : Engine κ :=
  { e with ring.kernel := Relay.adjust e.ring.kernel change }

/-- The engine after an incident. A call leaves behind what it leaves behind, whether it has
succeeded or not; everything else changes the kernel behind and nothing of the engine. -/
def undergo (e : Engine κ) : Incident → Engine κ
  | .call call => e.perform call
  | .inject res => e.adjust (·.inject res)
  | .interrupt => e.adjust (·.interrupt)
  | .post c => e.adjust (·.postRaw c)

/-- The engine after a run, which is a list of incidents. All states that are spoken of in
this module come about in such a run. -/
def undergoAll (e : Engine κ) (run : List Incident) : Engine κ := run.foldl undergo e

/-- What holds of each incident of a run, on the engine that it happens to. The engine is
the one that the incidents before have led to. -/
def Along (P : Engine κ → Incident → Prop) : Engine κ → List Incident → Prop
  | _, [] => True
  | e, incident :: rest => P e incident ∧ Along P (e.undergo incident) rest

/-- No submission stages an entry while others wait. A submission that stages nothing may be
made at any time. So the entries that wait are those of one batch, and it is enough to know
that the blocks of a batch are on loan when it is published. -/
def Prompt (e : Engine κ) : Incident → Prop
  | .call (@Call.submitReads _ _ target requested _) =>
    e.staging target requested = 0 ∨ e.unconsumed = 0
  | _ => True

/-- The entries that a submission stages have slots beside those that wait. This is about
slots, where the engine itself looks at the reads in flight. -/
def Fits (e : Engine κ) : Incident → Prop
  | .call (@Call.submitReads _ _ target requested _) =>
    e.unconsumed + e.staging target requested ≤ e.capacity.toNat
  | _ => True

instance (e : Engine κ) : ∀ incident, Decidable (e.Fits incident)
  | .call (@Call.submitReads _ _ _ _ _) => inferInstanceAs (Decidable (_ ≤ _))
  | .call (.reap _) | .call (.drain _) | .call (.release _) => .isTrue trivial
  | .inject _ | .interrupt | .post _ => .isTrue trivial

instance decidableAlong {P : Engine κ → Incident → Prop} [∀ e incident, Decidable (P e incident)] :
    ∀ (e : Engine κ) (run : List Incident), Decidable (Along P e run)
  | _, [] => .isTrue trivial
  | e, incident :: rest =>
    have : Decidable (Along P (e.undergo incident) rest) := decidableAlong _ rest
    inferInstanceAs (Decidable (P e incident ∧ Along P (e.undergo incident) rest))

/-- An incident is no submission that fails. Other calls may fail and still count as
successes here. -/
def Succeeds (e : Engine κ) : Incident → Prop
  | .call (@Call.submitReads _ _ target requested policy) =>
    ∃ count, (e.submitReads target requested policy).1 = .ok count
  | _ => True

/-- The entries that waited come first among those that the kernel took in an incident and
those that wait then, and there was a slot for each of them. So the kernel takes them in the
order in which they were published. -/
structure Passage (e e' : Engine κ) (n : UInt32) (entries entries' : List Sqe) : Prop where
  tracks : e'.Tracks n entries'
  length_le : (e.passed e' ++ entries').length ≤ n.toNat
  inOrder : entries <+: e.passed e' ++ entries'
  acceptLimit_eq : e'.behind.ring.kernel.acceptLimit = e.behind.ring.kernel.acceptLimit

theorem Stays.passage (h : e.Stays e' n entries) : e.Passage e' n entries entries := by
  refine ⟨h.tracks, ?_, ?_, h.acceptLimit_eq⟩
  · rw [h.passed_eq]
    exact h.tracks.backlog.length_le
  · rw [h.passed_eq]
    exact List.prefix_refl entries

theorem Hands.passage {batch : List Sqe} {m : Nat} (h : e.Hands e' n entries batch m) :
    e.Passage e' n entries ((entries ++ batch).drop m) := by
  refine ⟨h.tracks, ?_, ?_, h.acceptLimit_eq⟩
  · rw [h.passed_eq, List.take_append_drop]
    exact h.length_le
  · rw [h.passed_eq, List.take_append_drop]
    exact List.prefix_append entries batch

theorem Tracks.capacity_eq (h : e.Tracks n entries) : e.capacity = n :=
  congrArg SubmissionQueue.entries h.layout.sq_eq

theorem Tracks.unconsumed_eq (h : e.Tracks n entries) : e.unconsumed = entries.length :=
  h.backlog.unconsumed_eq

/-- A change from outside that leaves rings and completions alone changes nothing that
waits, and nothing that is owed. -/
theorem Tracks.rests_adjust (h : e.Tracks n entries) {change : SimulatedKernel → SimulatedKernel}
    (hpasses : e.behind.ring.kernel.Passes n entries 0 (change e.behind.ring.kernel)) :
    e.Rests (e.adjust change) n entries := by
  refine h.rests_of_passes ?_ []
  rw [Relay.behind_adjust]
  exact hpasses

/-- A forged completion changes nothing that waits. It may well name a block whose read
waits still, and this is how it can spoil what is owed. -/
theorem Tracks.stays_post (h : e.Tracks n entries) (c : Cqe) :
    e.Stays (e.undergo (.post c)) n entries := by
  have hkernel : (e.undergo (.post c)).behind.ring.kernel = e.behind.ring.kernel.postRaw c :=
    Relay.behind_adjust ..
  let pending := e.behind.ring.kernel.pending ++ [c]
  have hbacklog : { e.behind.ring.kernel with pending }.Backlog n entries := h.backlog
  obtain ⟨hflushed, -, hlimit⟩ := hbacklog.flush
  have hposition := SimulatedKernel.position_flush { e.behind.ring.kernel with pending }
  refine ⟨⟨?_, ⟨h.layout.sq_eq, h.layout.cq_eq⟩, ?_, h.named⟩, ?_, ?_⟩
  · exact h.balanced.of_drifts ⟨_, [], rfl⟩
  · rw [hkernel]
    exact hflushed
  · rw [hkernel]
    exact hposition
  · rw [hkernel]
    exact hlimit

/-- What an incident is to the entries that wait: a batch comes to wait behind them, or
nothing happens to them. Only a forged completion may spoil what is owed. -/
theorem Tracks.undergo_cases {incident : Incident} (h : e.Tracks n entries)
    (hfits : e.Fits incident) :
    (∃ batch m, e.Hands (e.undergo incident) n entries batch m ∧
        (e.Prompt incident → batch = [] ∧ m = 0 ∨ entries = []) ∧
        (Relay.Clear κ → e.behind.ring.kernel.acceptLimit = none ∨ e.Succeeds incident →
          batch.length ≤ m)) ∨
      e.Stays (e.undergo incident) n entries ∧
        ((∀ c, incident ≠ .post c) → e.Owes → (e.undergo incident).Owes) := by
  -- everything but a submission hands nothing over
  have stays {e' : Engine κ} (hrests : e.Rests e' n entries) :
      e.Stays e' n entries ∧ ((∀ c, incident ≠ .post c) → e.Owes → e'.Owes) :=
    ⟨hrests.toStays, fun _ => hrests.owes⟩
  have hsame := SimulatedKernel.Passes.refl h.backlog
  cases incident with
  | call call =>
    cases call with
    | submitReads target requested policy =>
      have hfits' : entries.length + e.staging target requested ≤ n.toNat := by
        rw [← h.unconsumed_eq, ← h.capacity_eq]
        exact hfits
      obtain ⟨batch, m, hhands, hidle, hall⟩ := h.hands target requested policy hfits'
      refine Or.inl ⟨batch, m, hhands, fun hprompt => hprompt.imp hidle fun hzero => ?_, hall⟩
      rw [h.unconsumed_eq] at hzero
      exact List.eq_nil_of_length_eq_zero hzero
    | reap mode => exact Or.inr (stays (h.rests_reap mode))
    | drain mode => exact Or.inr (stays (h.rests_drain mode))
    | release token => exact Or.inr (stays (h.rests_release token))
  | inject res =>
    exact Or.inr (stays (h.rests_adjust ⟨hsame.backlog, hsame.passed_eq, hsame.position_eq,
      hsame.tags_subperm, rfl⟩))
  | interrupt =>
    exact Or.inr (stays (h.rests_adjust ⟨hsame.backlog, hsame.passed_eq, hsame.position_eq,
      hsame.tags_subperm, rfl⟩))
  | post c => exact Or.inr ⟨h.stays_post c, fun hposts => absurd rfl (hposts c)⟩

/-- In each incident that fits the entries keep their order and their slots. -/
theorem Tracks.passage {incident : Incident} (h : e.Tracks n entries) (hfits : e.Fits incident) :
    ∃ entries', e.Passage (e.undergo incident) n entries entries' := by
  rcases h.undergo_cases hfits with ⟨batch, m, hhands, -⟩ | ⟨hstays, -⟩
  · exact ⟨_, hhands.passage⟩
  · exact ⟨_, hstays.passage⟩

/-- Unless a completion is forged, each read that is owed keeps a block on loan of its own.
Completions bring back the blocks of reads that are no longer owed. -/
theorem Tracks.owes_undergo {incident : Incident} (h : e.Tracks n entries)
    (hfits : e.Fits incident) (howes : e.Owes) (hposts : ∀ c, incident ≠ .post c) :
    (e.undergo incident).Owes := by
  rcases h.undergo_cases hfits with ⟨batch, m, hhands, -⟩ | ⟨-, hkeeps⟩
  · exact hhands.owes howes
  · exact hkeeps hposts howes

/-- A submission that stages nothing while entries wait fits. Either it stages nothing, or
nothing waits, and then it fits as it would on a new ring. -/
theorem Tracks.fits_of_prompt {incident : Incident} (h : e.Tracks n entries)
    (hprompt : e.Prompt incident) : e.Fits incident := by
  have hwaiting : e.unconsumed ≤ e.capacity.toNat := by
    rw [h.unconsumed_eq, h.capacity_eq]
    exact h.backlog.length_le
  cases incident with
  | call call =>
    cases call with
    | submitReads target requested policy =>
      have hroom := h.balanced.toNat_min_le requested
      change e.unconsumed + e.staging target requested ≤ e.capacity.toNat
      rcases hprompt with hzero | hzero
      · rw [hzero]
        exact hwaiting
      · rw [hzero, staging]
        split
        · omega
        · omega
    | _ => trivial
  | _ => trivial

/-- With no entry waiting a submission may stage what it wants, and it will fit. -/
theorem Tracks.prompt (h : e.Tracks n []) (incident : Incident) : e.Prompt incident := by
  cases incident with
  | call call =>
    cases call with
    | submitReads target requested policy => exact Or.inr h.unconsumed_eq
    | _ => trivial
  | _ => trivial

/-- A kernel that takes everything is not behind afterwards, and neither is one that a batch
was submitted to. -/
theorem Tracks.nil_undergo {incident : Incident} (hclear : Relay.Clear κ) (h : e.Tracks n [])
    (hall : e.behind.ring.kernel.acceptLimit = none ∨ e.Succeeds incident) :
    (e.undergo incident).Tracks n [] ∧
      (e.undergo incident).behind.ring.kernel.acceptLimit =
        e.behind.ring.kernel.acceptLimit := by
  rcases h.undergo_cases (h.fits_of_prompt (h.prompt incident)) with
    ⟨batch, m, hhands, -, htaken⟩ | ⟨hstays, -⟩
  · have hdrop : ([] ++ batch).drop m = [] := List.drop_eq_nil_iff.mpr (htaken hclear hall)
    have htracks := hhands.tracks
    rw [hdrop] at htracks
    exact ⟨htracks, hhands.acceptLimit_eq⟩
  · exact ⟨hstays.tracks, hstays.acceptLimit_eq⟩

/-! ## Runs

A run that fits at every point keeps the order of the entries all along. The other two ways
to be safe are brought back to this one: where nothing waits when a batch is staged, the
batch fits. -/

variable {run : List Incident}

/-- After a run of incidents that fit there is again a list of entries that wait. -/
theorem Tracks.undergoAll (h : e.Tracks n entries) (hfits : Along Fits e run) :
    ∃ entries', (e.undergoAll run).Tracks n entries' := by
  induction run generalizing e entries with
  | nil => exact ⟨entries, h⟩
  | cons first rest ih =>
    obtain ⟨entries', hpassage⟩ := h.passage hfits.1
    exact ih hpassage.tracks hfits.2

theorem Tracks.owes_undergoAll (h : e.Tracks n entries) (hfits : Along Fits e run)
    (howes : e.Owes) (hposts : ∀ c, Incident.post c ∉ run) : (e.undergoAll run).Owes := by
  induction run generalizing e entries with
  | nil => exact howes
  | cons first rest ih =>
    obtain ⟨entries', hpassage⟩ := h.passage hfits.1
    refine ih hpassage.tracks hfits.2 (h.owes_undergo hfits.1 howes fun c heq => ?_) fun c hc => ?_
    · exact hposts c (heq ▸ List.mem_cons_self ..)
    · exact hposts c (List.mem_cons_of_mem _ hc)

/-- A new engine has no entries waiting. If its kernel had nothing to post, it owes
nothing. -/
theorem tracks_create {kernel : κ} {capacity serial : UInt32} {config : PoolConfig}
    {mappings : MappingAnswers}
    (h : create kernel capacity serial config mappings = .ok e) :
    ∃ n, e.Tracks n [] ∧
      e.behind.ring.kernel.acceptLimit = (Relay.behind kernel).acceptLimit ∧
      ((Relay.behind kernel).pending = [] → e.Owes) := by
  obtain ⟨hpool, hring⟩ := create_eq_ok h
  obtain ⟨⟨hdepth, hle⟩, hlayout, hkernel, -⟩ := Ring.create_on_simulated (Ring.create_behind hring)
  let n := SimulatedKernel.powerOfTwoFrom capacity
  let rings : SimulatedRings := { entries := n }
  have hbehind : e.behind.ring.kernel = (Relay.behind kernel).withRings n := hkernel
  have hunread : rings.unread = [] := SimulatedRings.unread_eq_nil (UInt32.sub_self 0)
  have hpublished : rings.published = 0 := UInt32.sub_self 0
  have hwaits : rings.Waits [] :=
    ⟨⟨hdepth, hle, Array.size_replicate, Array.size_replicate, Array.size_replicate⟩, rfl,
      congrArg UInt32.toNat hpublished, Nat.zero_le _, nofun⟩
  have htags (hpending : (Relay.behind kernel).pending = []) :
      ((Relay.behind kernel).withRings n).tags = [] := by
    rw [SimulatedKernel.tags_of_rings rfl, hwaits.waiting_eq, hunread]
    exact congrArg (List.map Cqe.userData) hpending
  refine ⟨n, ⟨(balanced_create h).1, hlayout, ?_, nofun⟩, ?_, fun hpending => ⟨?_, ?_⟩⟩
  · rw [hbehind]
    refine ⟨rings, rfl, rfl, hwaits, ?_⟩
    rw [hunread]
    exact Nat.zero_le _
  · rw [hbehind]
    rfl
  · rw [hbehind, htags hpending]
    exact List.nodup_nil
  · rw [hbehind, htags hpending]
    exact nofun

end Engine

end RingRead
