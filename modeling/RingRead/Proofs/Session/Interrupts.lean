import RingRead.Proofs.Backlog.Incidents
import RingRead.Proofs.Session.Lockstep
import RingRead.Proofs.Simulation.Interrupting

/-!
# Interruptions are invisible

Waits of a simulated kernel can be interrupted as often as one likes, and nobody can tell.
Let the same happen to two engines, calls and whole benchmark runs, with any number of
interruptions at any points of either (`Episode.SameButInterrupts`). Then every call is
answered the same, and the engines end up the same, but for the interruptions that are left
and the counts of calls and of waits (`Engine.interrupts_invisible`).

**Time.** Each run has a clock of its own, as long as it has no time limit. Of two runs that
are timed by different clocks, the measured times and the intervals that they report on are
left out of the comparison (`Reply.timeless`); in runs that are `timed` by one clock they
agree as well.
-/

namespace RingRead

/-- What comes back to a caller: the answer of a call with what it leaves of a policy, or
the end of a run with its reports. -/
inductive Reply : Type 1 where
  | submitted {π : Type} (answer : Except Error UInt32) (policy : π)
  | reaped (answer : Except (Abort Error) (Option Completion))
  | drained (answer : Except (Abort Error) (List Completion))
  | released (answer : Except Error Unit)
  /-- A benchmark run has ended. -/
  | ran {π : Type} (outcome : RunOutcome) (rounds : Nat) (reports : List IntervalReport)
      (policy : π)

/-- A reply without what was measured by a clock. -/
def Reply.timeless : Reply → Reply
  | .ran outcome rounds _ policy => .ran outcome.timeless rounds [] policy
  | reply => reply

/-- What comes back from a call. The engine that it leaves behind is not part of it. -/
def Engine.reply {κ : Type} [Kernel κ] (e : Engine κ) : Call → Reply
  | @Call.submitReads _ _ target requested policy =>
    let (answer, _, policy) := e.submitReads target requested policy
    .submitted answer policy
  | .reap mode => .reaped (e.reap mode).1
  | .drain mode => .drained (e.drain mode).1
  | .release token => .released (e.release token).1

/-- Engines on kernels in lockstep reply the same. -/
theorem Kernel.Lockstep.reply {κ κ' : Type} [Kernel κ] [Kernel κ'] {R : κ → κ' → Prop}
    {e : Engine κ} {e' : Engine κ'} (h : Lockstep R) (he : e.Paired R e') (call : Call) :
    e'.reply call = e.reply call := by
  cases call with
  | submitReads target requested policy =>
    obtain ⟨hanswer, -, hpolicy⟩ := h.submitReads he target requested policy
    simp only [Engine.reply, hanswer, hpolicy]
  | reap mode => exact congrArg Reply.reaped (h.reap he mode).answer_eq.symm
  | drain mode => exact congrArg Reply.drained (h.drain he mode).answer_eq.symm
  | release token => exact congrArg Reply.released (release he token).answer_eq.symm

/-! ## Episodes

Two histories are compared side by side. They have the same episodes, and each may have
interruptions wherever it likes, so the comparison takes a step on both sides or on one. -/

/-- What can happen to an engine: an incident, or a whole benchmark run. Runs are episodes
like others, so that it is possible to speak of what comes before, between and after
them. -/
inductive Episode : Type 1 where
  | incident (incident : Incident)
  | run {π : Type} [OffsetPolicy π] (target : ReadTarget) (config : SessionConfig) (policy : π)
      (around : Surroundings π) (allowed : Nat)

namespace Episode

/-- One more wait will be interrupted. -/
def interrupt : Episode := .incident .interrupt

def isInterrupt : Episode → Bool
  | .incident .interrupt => true
  | _ => false

/-- The same thing happens, which is no interruption. A run may be timed by another clock if
it has no time limit, unless both are to be `timed` by one clock. -/
inductive Matches (timed : Prop) : Episode → Episode → Prop
  | call (call : Call) : Matches timed (.incident (.call call)) (.incident (.call call))
  | inject (res : Int32) : Matches timed (.incident (.inject res)) (.incident (.inject res))
  | post (c : Cqe) : Matches timed (.incident (.post c)) (.incident (.post c))
  | run {π : Type} [OffsetPolicy π] {target : ReadTarget} {config : SessionConfig} {policy : π}
      {around around' : Surroundings π} {allowed : Nat}
      (hlimit : config.duration = none ∨ timed) (hstop : around'.stop = around.stop)
      (hclock : timed → around'.clock = around.clock) :
      Matches timed (.run target config policy around allowed)
        (.run target config policy around' allowed)

/-- The same things happen in the same order, with any interruptions between them, as many
as one likes on either side. The clocks of two runs may differ too, as long as no run has a
time limit. -/
inductive SameButInterrupts (timed : Prop) : List Episode → List Episode → Prop
  | nil : SameButInterrupts timed [] []
  | cons {episode episode' past past'} (hmatch : episode.Matches timed episode')
      (h : SameButInterrupts timed past past') :
      SameButInterrupts timed (episode :: past) (episode' :: past')
  | left {past past'} (h : SameButInterrupts timed past past') :
      SameButInterrupts timed (interrupt :: past) past'
  | right {past past'} (h : SameButInterrupts timed past past') :
      SameButInterrupts timed past (interrupt :: past')

end Episode

namespace Engine

open SimulatedKernel

variable {e e' : Engine SimulatedKernel} {asked asked' : Nat} {timed : Prop}
  {episode episode' : Episode} {episodes episodes' : List Episode}

/-- The engine after an episode. -/
def proceed (e : Engine SimulatedKernel) : Episode → Engine SimulatedKernel
  | .incident incident => e.undergo incident
  | @Episode.run _ _ target config policy around allowed =>
    (e.run target config policy around allowed).engine

/-- What comes back from an episode, if anything does. -/
def reply? (e : Engine SimulatedKernel) : Episode → Option Reply
  | .incident (.call call) => some (e.reply call)
  | .incident _ => none
  | @Episode.run _ _ target config policy around allowed =>
    let run := e.run target config policy around allowed
    some (.ran run.outcome run.rounds run.reports run.policy)

/-- The engine after a list of episodes. -/
def proceedAll (e : Engine SimulatedKernel) (episodes : List Episode) : Engine SimulatedKernel :=
  episodes.foldl proceed e

/-- What comes back from a list of episodes, in order. -/
def replies : Engine SimulatedKernel → List Episode → List Reply
  | _, [] => []
  | e, episode :: rest => (e.reply? episode).toList ++ replies (e.proceed episode) rest

/-- Changing the kernel from outside in a way that leaves the counts alone. -/
theorem paired_adjust (he : e.Paired (Disturbed asked asked') e')
    {change : SimulatedKernel → SimulatedKernel}
    (hchange : ∀ k interrupts enters waits,
      change (k.recount interrupts enters waits) = (change k).recount interrupts enters waits) :
    (e.adjust change).Paired (Disturbed asked asked') (e'.adjust change) := by
  obtain ⟨kernel, rfl, hk⟩ := he
  exact ⟨change kernel, rfl, hk.map hchange⟩

/-- One episode. The two engines have the same to say and are the same afterwards, but for
their counts. -/
theorem proceed_of_matches (hmatch : episode.Matches timed episode')
    (he : e.Paired (Disturbed asked asked') e') :
    (e'.reply? episode').map Reply.timeless = (e.reply? episode).map Reply.timeless ∧
      (timed → e'.reply? episode' = e.reply? episode) ∧
      (e.proceed episode).Paired (Disturbed asked asked') (e'.proceed episode') := by
  have hlockstep := lockstep_disturbed asked asked'
  cases hmatch with
  | call call =>
    have hreply := congrArg some (hlockstep.reply he call)
    exact ⟨congrArg (Option.map Reply.timeless) hreply, fun _ => hreply, hlockstep.perform he call⟩
  | inject res => exact ⟨rfl, fun _ => rfl, paired_adjust he fun _ _ _ _ => rfl⟩
  | post c =>
    refine ⟨rfl, fun _ => rfl, paired_adjust he fun k _ _ _ => ?_⟩
    exact flush_recount { k with pending := k.pending ++ [c] } _ _ _
  | @run π _ target config policy around around' allowed hlimit hstop hclock =>
    have hrun := hlockstep.run he hlimit hstop hclock target policy allowed
    refine ⟨?_, fun htimed => ?_, hrun.engine⟩
    · simp only [reply?, Option.map_some, Reply.timeless, hrun.timeless_eq, hrun.rounds_eq,
        hrun.policy_eq]
    · simp only [reply?, hrun.outcome_eq htimed, hrun.reports_eq htimed, hrun.rounds_eq,
        hrun.policy_eq]

/-- An interruption that is asked for first counts as one that was asked for before. -/
theorem add_countP_interrupt (asked : Nat) (episodes : List Episode) :
    asked + (Episode.interrupt :: episodes).countP Episode.isInterrupt =
      asked + 1 + episodes.countP Episode.isInterrupt := by
  rw [List.countP_cons_of_pos rfl]
  omega

/-- Any number of episodes. An interruption on one side is taken up in the number of those
that were asked for there. -/
theorem proceedAll_of_same (h : Episode.SameButInterrupts timed episodes episodes')
    (he : e.Paired (Disturbed asked asked') e') :
    (e'.replies episodes').map Reply.timeless = (e.replies episodes).map Reply.timeless ∧
      (timed → e'.replies episodes' = e.replies episodes) ∧
      (e.proceedAll episodes).Paired
        (Disturbed (asked + episodes.countP Episode.isInterrupt)
          (asked' + episodes'.countP Episode.isInterrupt))
        (e'.proceedAll episodes') := by
  induction h generalizing e e' asked asked' with
  | nil => exact ⟨rfl, fun _ => rfl, he⟩
  | @cons episode episode' past past' hmatch h ih =>
    obtain ⟨htimeless, htimed, hnext⟩ := proceed_of_matches hmatch he
    obtain ⟨ihtimeless, ihtimed, ihnext⟩ := ih hnext
    have hquiet : episode.isInterrupt = false ∧ episode'.isInterrupt = false := by
      cases hmatch with
      | call | inject | post | run => exact ⟨rfl, rfl⟩
    refine ⟨?_, fun ht => ?_, ?_⟩
    · simp only [replies, List.map_append, ← Option.toList_map, htimeless, ihtimeless]
    · simp only [replies, htimed ht, ihtimed ht]
    · simp only [List.countP_cons, hquiet]
      exact ihnext
  | @left past past' h ih =>
    have hnext : (e.proceed .interrupt).Paired (Disturbed (asked + 1) asked') e' := by
      obtain ⟨kernel, rfl, hk⟩ := he
      exact ⟨kernel, rfl, hk.interrupt_left⟩
    rw [add_countP_interrupt]
    exact ih hnext
  | @right past past' h ih =>
    have hnext : e.Paired (Disturbed asked (asked' + 1)) (e'.proceed .interrupt) := by
      obtain ⟨kernel, rfl, hk⟩ := he
      exact ⟨kernel.interrupt, rfl, hk.interrupt_right⟩
    rw [add_countP_interrupt]
    exact ih hnext

/-- Let the same happen to an engine twice, the second time with other interruptions to come
in the beginning, and with other interruptions between what happens. Then all replies are
the same, and so are the engines at the end, but for the interruptions that are left and the
counts of calls and of waits. Each interruption that was used up has added one to both
counts. -/
theorem interrupts_invisible (h : Episode.SameButInterrupts timed episodes episodes')
    (e : Engine SimulatedKernel) (pending : Nat) :
    let e' := e.onKernel { e.ring.kernel with interrupts := pending }
    let asked := e.ring.kernel.interrupts + episodes.countP Episode.isInterrupt
    let asked' := pending + episodes'.countP Episode.isInterrupt
    let k := (e.proceedAll episodes).ring.kernel
    (e'.replies episodes').map Reply.timeless = (e.replies episodes).map Reply.timeless ∧
      (timed → e'.replies episodes' = e.replies episodes) ∧
      ∃ interrupts enters waits used used',
        e'.proceedAll episodes' =
            (e.proceedAll episodes).onKernel (k.recount interrupts enters waits) ∧
          used + k.interrupts = asked ∧ used' + interrupts = asked' ∧
          enters + used = k.counters.enters + used' ∧
          waits + used = k.counters.waits + used' := by
  intro e' asked asked' k
  have he : e.Paired (Disturbed e.ring.kernel.interrupts pending) e' :=
    ⟨_, rfl, disturbed_of_interrupts e.ring.kernel pending⟩
  obtain ⟨htimeless, htimed, kernel, hend, interrupts, enters, waits, rfl, used, used', hcounts⟩ :=
    proceedAll_of_same h he
  exact ⟨htimeless, htimed, interrupts, enters, waits, used, used', hend, hcounts⟩

/-- A kernel that defers has waits to interrupt. Two reads and then a run of three more,
without interruptions and by one clock, and again with four interruptions and by another
clock: three of them are used up. -/
theorem interrupts_invisible_in_run :
    ∃ e : Engine SimulatedKernel,
      create { file := SimulatedKernel.patternedFile 4 8, deferred := true } 4 7
          { blockSize := 8, alignment := 8 } = .ok e ∧
        let e' := e.onKernel { e.ring.kernel with interrupts := 1 }
        let submit : Episode := .incident (.call (.submitReads ⟨3, 32⟩ 2 ({} : Walker)))
        let drain : Episode := .incident (.call (.drain .blocking))
        let config : SessionConfig := { queueDepth := 2, maxReads := some 3 }
        let episodes : List Episode :=
          [submit, drain, .run ⟨3, 32⟩ config ({} : Walker) { clock := id } 9]
        let episodes' : List Episode :=
          [submit, drain, .interrupt, .interrupt,
            .run ⟨3, 32⟩ config ({} : Walker) { clock := (9 * ·) } 9, .interrupt]
        (e.proceedAll episodes).ring.kernel.counters.waits = 3 ∧
          (e'.proceedAll episodes').ring.kernel.counters.waits = 6 ∧
          (e'.proceedAll episodes').ring.kernel.interrupts = 1 ∧
          (e'.replies episodes').map Reply.timeless = (e.replies episodes).map Reply.timeless ∧
          ∃ interrupts enters waits, e'.proceedAll episodes' =
            (e.proceedAll episodes).onKernel
              ((e.proceedAll episodes).ring.kernel.recount interrupts enters waits) := by
  obtain ⟨e, hcreate⟩ : ∃ e : Engine SimulatedKernel,
      create { file := SimulatedKernel.patternedFile 4 8, deferred := true } 4 7
        { blockSize := 8, alignment := 8 } = .ok e := ⟨_, rfl⟩
  refine ⟨e, hcreate, ?_⟩
  intro e' submit drain config episodes episodes'
  have hsame : Episode.SameButInterrupts False episodes episodes' :=
    .cons (.call _) (.cons (.call _) (.right (.right
      (.cons (.run (Or.inl rfl) rfl False.elim) (.right .nil)))))
  obtain ⟨hreplies, -, interrupts, enters, waits, -, -, hend, -⟩ := interrupts_invisible hsame e 1
  refine ⟨?_, ?_, ?_, hreplies, interrupts, enters, waits, hend⟩
  all_goals
    clear hsame hreplies hend
    obtain rfl := Except.ok.inj hcreate
    decide +kernel

end Engine

end RingRead
