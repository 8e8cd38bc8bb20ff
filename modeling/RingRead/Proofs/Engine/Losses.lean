import RingRead.Proofs.Engine.Exchanges
import RingRead.Simulation.Basic

/-!
# Blocks that a drain loses

**A reap loses nothing.** The block of a read that failed is given up before the failure is
reported, so a reap that fails leaves the same blocks held as before, and a block that comes
back with it goes on the free stack (`spares_of_reap`).

**A drain may.** The reads that it has taken before a reap fails are not returned, and their
blocks stay held with no token left to give them back by. These are all that is lost: every
other block that comes back is on the free stack (`held_of_failed_drain`). So nothing is
lost if and only if already the first reap fails.
-/

namespace RingRead

namespace Pool

variable {p p' p'' : Pool} {tokens : List Token}

/-- From `p` to `p'` no other blocks became held, and none left circulation, which is to be
on loan or on the free stack. So what a failed drain has lost can only be among the blocks
that it has collected before. -/
structure Spares (p p' : Pool) : Prop where
  held_iff : ∀ id, p'.state? id = some .held ↔ p.state? id = some .held
  circulates : ∀ id, p.Circulates id → p'.Circulates id

theorem Spares.refl (p : Pool) : p.Spares p := ⟨fun _ => Iff.rfl, fun _ hid => hid⟩

/-- Two steps that spare all blocks spare them together. -/
theorem Spares.trans (h : p.Spares p') (h' : p'.Spares p'') : p.Spares p'' :=
  ⟨fun id => (h'.held_iff id).trans (h.held_iff id),
    fun id hid => h'.circulates id (h.circulates id hid)⟩

theorem spares_receiveAll (p : Pool) (transfers : List Transfer) :
    p.Spares (p.receiveAll transfers) :=
  ⟨fun id => by rw [state?_receiveAll], fun _ hid => hid.receiveAll transfers⟩

/-- A block that came back and is given up at once is spared. -/
theorem Collects.spares (h : p.Collects tokens p') (hback : p'.GivesBack tokens p'') :
    p.Spares p'' :=
  ⟨h.held_iff hback, fun _ hid => h.circulates hback hid⟩

/-- When blocks have come back and the rest was spared, the blocks that came back are held
beside those that were held before, and no others. -/
theorem Collects.held_iff_of_spares (h : p.Collects tokens p') (hspares : p'.Spares p'')
    (id : Nat) :
    p''.state? id = some .held ↔
      p.state? id = some .held ∨ ∃ t ∈ tokens, t.id.toNat = id := by
  rw [hspares.held_iff]
  by_cases hmem : ∃ t ∈ tokens, t.id.toNat = id
  · obtain ⟨t, ht, rfl⟩ := hmem
    exact iff_of_true (check_eq_ok_iff.mp (h.check_eq_ok t ht)).1 (Or.inr ⟨t, ht, rfl⟩)
  · rw [h.state_of_ne id fun t ht heq => hmem ⟨t, ht, heq⟩]
    exact (or_iff_left hmem).symm

/-- A block on loan that is neither among those that came back nor on loan any more is on
the free stack. -/
theorem Collects.mem_free_of_spares (h : p.Collects tokens p') (hspares : p'.Spares p'')
    (id : Nat) (hloaned : p.state? id = some .loaned) (hgone : p''.state? id ≠ some .loaned) :
    (∃ t ∈ tokens, t.id.toNat = id) ∨ ∃ n ∈ p''.free, n.toNat = id := by
  by_cases hmem : ∃ t ∈ tokens, t.id.toNat = id
  · exact Or.inl hmem
  · have hstill : p'.state? id = some .loaned :=
      (h.state_of_ne id fun t ht heq => hmem ⟨t, ht, heq⟩).trans hloaned
    exact Or.inr ((hspares.circulates id (Or.inl hstill)).resolve_left hgone)

end Pool

namespace Engine

variable {κ : Type} {e e' : Engine κ} {abort : Abort Error}

/-- An entry whose read failed brings its block back to the free stack; one that names no
block on loan changes nothing. Either way no block is held that was not held before. -/
theorem spares_of_finish {c : Cqe} (h : e.pool.Sound) (hfail : e.finish c = (.error abort, e')) :
    e.pool.Spares e'.pool := by
  by_cases hloaned : e.pool.state? c.userData.toNat = some .loaned
  · rw [finish_of_loaned h hloaned] at hfail
    rcases hverdict : e.verdict c with err | completion
    · rw [hverdict] at hfail
      cases hfail
      have hback := Pool.GivesBack.cons (check_returned h hloaned) (.refl _)
      exact (Pool.collects_reclaim h hloaned).spares hback
    · rw [hverdict] at hfail
      cases hfail
  · rw [finish_of_unknown hloaned] at hfail
    cases hfail
    exact .refl _

theorem spares_of_drifts (hdrifts : e.Drifts e') : e.pool.Spares e'.pool := by
  obtain ⟨kernel, transfers, rfl⟩ := hdrifts
  exact Pool.spares_receiveAll e.pool transfers

theorem sound_of_drifts (h : e.pool.Sound) (hdrifts : e.Drifts e') : e'.pool.Sound :=
  ((Lends.refl h).of_drifts hdrifts).sound

theorem collects_of_drifts (hdrifts : e.Drifts e') : e.pool.Collects [] e'.pool := by
  obtain ⟨kernel, transfers, rfl⟩ := hdrifts
  exact Pool.collects_receiveAll e.pool transfers

variable [Kernel κ] {mode : ReapMode}

/-! ## One reap

A reap ends with one read or none, or it fails. In none of these cases is a block left over
that its caller has no token for. -/

/-- A reap that fails loses no block. Either it has not come to a completion, or the block
of the completion has gone back on the free stack. -/
theorem spares_of_reap (h : e.pool.Sound) (hfail : e.reap mode = (.error abort, e')) :
    e.pool.Spares e'.pool := by
  rcases hentry : e.takeOrWait mode with ⟨err | (_ | c), e₁⟩
  · rw [reap_of_error hentry] at hfail
    cases hfail
    exact spares_of_drifts (drifts_of_takeOrWait hentry)
  · rw [reap_of_none hentry] at hfail
    cases hfail
  · rw [reap_of_taken hentry] at hfail
    have hdrifts := drifts_of_takeOrWait hentry
    rcases hfinish : e₁.finish c with ⟨err | completion, e₂⟩
    · rw [hfinish] at hfail
      cases hfail
      exact (spares_of_drifts hdrifts).trans
        (spares_of_finish (sound_of_drifts h hdrifts) hfinish)
    · rw [hfinish] at hfail
      cases hfail

/-- A reap that takes a read brings back its block alone. All other blocks are where they
were, the free stack included. -/
theorem collects_of_reap {completion : Completion} (h : e.pool.Sound)
    (hok : e.reap mode = (.ok (some completion), e')) :
    e.pool.Collects [completion.token] e'.pool := by
  obtain ⟨c, e₁, hentry, hfinish⟩ := reap_eq_some hok
  have hdrifts := drifts_of_takeOrWait hentry
  exact (collects_of_drifts hdrifts).trans (collects_of_finish (sound_of_drifts h hdrifts) hfinish)

theorem sound_of_reap {answer : Except (Abort Error) (Option Completion)} (h : e.pool.Sound)
    (hreap : e.reap mode = (answer, e')) : e'.pool.Sound := by
  have hends := reap_ends h mode
  rw [hreap] at hends
  cases hends with
  | kept _ hlends => exact hlends.sound
  | taken _ hsound => exact hsound

/-! ## A drain

A drain is a sequence of reaps and stops at the first that fails. Then the answers of those
before it are lost, and with them the tokens. The blocks are not lost to the pool, which
knows them as held, but nobody can give them back. -/

/-- The reaps with these answers have taken the reads in `taken`, and then one has failed.
Between the last read and the failure all blocks were spared. -/
structure FailsAfter (e : Engine κ) (modes : List ReapMode) (taken : List Completion)
    (abort : Abort Error) (e' : Engine κ) : Prop where
  answers_eq : (reapAll modes e).1 = taken.map (fun c => .ok (some c)) ++ [.error abort]
  collects : ∃ p, e.pool.Collects (taken.map Completion.token) p ∧ p.Spares e'.pool

/-- If the very first reap fails, nothing was taken. -/
theorem failsAfter_nil (h : e.pool.Sound) (hfail : e.reap mode = (.error abort, e')) :
    e.FailsAfter [mode] [] abort e' := by
  refine ⟨by simp [reapAll, hfail], e.pool, ?_, spares_of_reap h hfail⟩
  exact Pool.collects_receiveAll e.pool []

/-- A read that was taken first was taken beside the others. -/
theorem FailsAfter.cons {e₁ : Engine κ} {rest : List ReapMode} {completion : Completion}
    {taken : List Completion} (h : e.pool.Sound)
    (hok : e.reap mode = (.ok (some completion), e₁)) (hrest : e₁.FailsAfter rest taken abort e') :
    e.FailsAfter (mode :: rest) (completion :: taken) abort e' := by
  obtain ⟨p, hcollects, hspares⟩ := hrest.collects
  refine ⟨?_, p, (collects_of_reap h hok).trans hcollects, hspares⟩
  simp [reapAll, hok, hrest.answers_eq]

/-- Reads that are collected until a reap fails. The ones that were taken before do not
matter: they are dropped with the rest. -/
theorem failsAfter_of_collect {rounds : Nat} {taken : List Completion} (h : e.pool.Sound)
    (hfail : collect rounds taken e = (.error abort, e')) :
    ∃ more, e.FailsAfter (collectModes rounds e) more abort e' := by
  induction rounds generalizing taken e with
  | zero => cases hfail
  | succ rounds ih =>
    rw [collect] at hfail
    rw [collectModes]
    rcases hreap : e.reap .nonBlocking with ⟨err | (_ | completion), e₁⟩
    · rw [hreap] at hfail
      cases hfail
      exact ⟨[], failsAfter_nil h hreap⟩
    · rw [hreap] at hfail
      cases hfail
    · rw [hreap] at hfail
      obtain ⟨more, hmore⟩ := ih (sound_of_reap h hreap) hfail
      exact ⟨completion :: more, hmore.cons h hreap⟩

/-- A drain that fails has taken some reads, one reap after the other, and the last reap has
failed. -/
theorem failsAfter_of_drain (h : e.pool.Sound) (hfail : e.drain mode = (.error abort, e')) :
    ∃ taken, e.FailsAfter (e.drainModes mode) taken abort e' := by
  rw [drain] at hfail
  rw [drainModes]
  rcases hreap : e.reap mode with ⟨err | (_ | completion), e₁⟩
  · rw [hreap] at hfail
    cases hfail
    exact ⟨[], failsAfter_nil h hreap⟩
  · rw [hreap] at hfail
    cases hfail
  · rw [hreap] at hfail
    obtain ⟨more, hmore⟩ := failsAfter_of_collect (sound_of_reap h hreap) hfail
    exact ⟨completion :: more, hmore.cons h hreap⟩

/-- A drain that fails has taken some reads before, and hands out none of them. Their blocks
were on loan and are held now; no other block became held, and every other block that came
back is on the free stack. So a drain that fails loses no block if and only if its first
reap fails. -/
theorem held_of_failed_drain (h : e.pool.Sound) (hfail : e.drain mode = (.error abort, e')) :
    ∃ taken : List Completion,
      (reapAll (e.drainModes mode) e).1 = taken.map (fun c => .ok (some c)) ++ [.error abort] ∧
        (∀ done ∈ taken, e.pool.state? done.token.id.toNat = some .loaned) ∧
        (∀ id, e'.pool.state? id = some .held ↔
          e.pool.state? id = some .held ∨ ∃ done ∈ taken, done.token.id.toNat = id) ∧
        (∀ id, e.pool.state? id = some .loaned → e'.pool.state? id ≠ some .loaned →
          (∃ done ∈ taken, done.token.id.toNat = id) ∨ ∃ n ∈ e'.pool.free, n.toNat = id) ∧
        ((∀ id, e'.pool.state? id = some .held → e.pool.state? id = some .held) ↔
          (e.reap mode).1 = .error abort) := by
  obtain ⟨taken, hanswers, p, hcollects, hspares⟩ := failsAfter_of_drain h hfail
  have hloaned : ∀ done ∈ taken, e.pool.state? done.token.id.toNat = some .loaned :=
    fun done hdone => hcollects.loaned done.token (List.mem_map_of_mem hdone)
  have hheld := hcollects.held_iff_of_spares hspares
  have hfree := hcollects.mem_free_of_spares hspares
  simp only [List.mem_map, exists_exists_and_eq_and] at hheld hfree
  refine ⟨taken, hanswers, hloaned, hheld, hfree, ?_⟩
  -- the first answer is a failure exactly if nothing was taken before
  have hfirst : (reapAll (e.drainModes mode) e).1.head? = some (e.reap mode).1 := rfl
  rw [hanswers] at hfirst
  constructor
  · intro hnone
    cases taken with
    | nil => exact (Option.some.inj hfirst).symm
    | cons done rest =>
      have hdone := hloaned done List.mem_cons_self
      have hafter := hnone _ ((hheld _).mpr (Or.inr ⟨done, List.mem_cons_self, rfl⟩))
      rw [hdone] at hafter
      cases hafter
  · intro hreap id hid
    cases taken with
    | nil => exact ((hheld id).mp hid).resolve_right nofun
    | cons done rest =>
      rw [hreap] at hfirst
      cases hfirst

/-- Of three reads the second one came back short, after the first one was taken. The block
of an earlier read is held all along. -/
theorem held_after_short_read :
    ∃ e₀ : Engine SimulatedKernel,
      create { file := SimulatedKernel.patternedFile 4 8, injected := [8, 8, 3] } 4 7
        { blockSize := 8, alignment := 8 } = .ok e₀ ∧
        let e := e₀.performAll [.submitReads ⟨3, 32⟩ 1 ({} : Walker), .reap .blocking,
          .submitReads ⟨3, 32⟩ 3 ({} : Walker)]
        (e.drain .blocking).1 = .error (.failed (.shortRead 2 8 3)) ∧
          (e.reap .blocking).1.toBool = true ∧
          ¬ ∀ id, (e.drain .blocking).2.pool.state? id = some .held →
            e.pool.state? id = some .held := by
  have hlost {e₀ : Engine SimulatedKernel}
      (hcreate : create { file := SimulatedKernel.patternedFile 4 8, injected := [8, 8, 3] } 4 7
        { blockSize := 8, alignment := 8 } = .ok e₀) (calls : List Call)
      (hfail : ((e₀.performAll calls).drain .blocking).1 = .error (.failed (.shortRead 2 8 3)))
      (hfirst : ((e₀.performAll calls).reap .blocking).1.toBool = true) :
      ¬ ∀ id, ((e₀.performAll calls).drain .blocking).2.pool.state? id = some .held →
        (e₀.performAll calls).pool.state? id = some .held := by
    have hsound := ((Reachable.created hcreate).performAll calls).balanced.sound
    obtain ⟨taken, -, -, -, -, hnone⟩ := held_of_failed_drain hsound (Prod.ext hfail rfl)
    intro hkept
    rw [hnone.mp hkept] at hfirst
    cases hfirst
  refine ⟨_, rfl, ?fails, ?first, ?_⟩
  · decide +kernel
  · decide +kernel
  · exact hlost rfl _ ?fails ?first

/-- The first of two reads is taken and the second one failed. The drain hands out neither,
and the block of the first one stays held, off the free stack. -/
theorem held_by_nobody :
    ∃ e₀ : Engine SimulatedKernel,
      create { file := SimulatedKernel.patternedFile 4 8, injected := [8, -5] } 4 7
        { blockSize := 8, alignment := 8 } = .ok e₀ ∧
        let e := e₀.performAll [.submitReads ⟨3, 32⟩ 2 ({} : Walker)]
        (e.drain .nonBlocking).1 = .error (.failed (.completionFailed 1 5)) ∧
          e.pool.state? 0 = some .loaned ∧
          (e.drain .nonBlocking).2.pool.state? 0 = some .held ∧
          (e.drain .nonBlocking).2.pool.free = [1] := by
  refine ⟨_, rfl, ?_, ?_, ?_, ?_⟩
  · decide +kernel
  · decide +kernel
  · decide +kernel
  · decide +kernel

end Engine

end RingRead
