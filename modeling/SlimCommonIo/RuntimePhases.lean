import SlimCommonIo.RuntimeNodes

/-!
# How far `start` and `stop` have come with each node

A node has been created and not been asked to stop, or it has been asked and its
thread is on its way out.  The order in which `start` and `stop` go through the
nodes says which of them is which.
-/

namespace SlimCommonIo

open Transition

variable {Q : Program} {k : ℕ}

/-! ## One node -/

/-- The thread is to enter `run` or inside of it, and nobody has asked it to stop. -/
def Node.Up (node : Node Q) : Prop :=
  node.thread = .created false ∨
    node.thread = .running ∧ Scheduler.InRun node.scheduler.stack ∧
      node.scheduler.stop.requested = false

/-- The thread has been asked to stop, and when `stop` waits for it the stop
callback has been called. -/
def Node.Asked (node : Node Q) (point : StopPoint) : Prop :=
  node.thread = .created true ∨ node.thread = .exited ∨
    node.thread = .running ∧ (node.scheduler.stack = [] ∨
      Scheduler.InRun node.scheduler.stack ∧ node.scheduler.stop.requested = true ∧
        (point = .join → node.scheduler.stop.called = true))

/-- What every scheduler of the runtime satisfies in every run. -/
structure NodeInvariant (node : Node Q) : Prop where
  wellStacked : WellStacked node.scheduler.stack
  registered : Scheduler.Registered node.scheduler

namespace Runtime

variable {r next : Runtime Q k} {action : RuntimeLabel Q k} {who : NodeId k}

theorem NodeStep.nodeInvariant
    (hstep : NodeStep r action next who) (hinv : NodeInvariant (r.node who)) :
    NodeInvariant (next.node who) := by
  have hmoves : ∀ {label : Label (runtimeProgram Q)},
      (r.node who).scheduler.step label = some (next.node who).scheduler →
      NodeInvariant (next.node who) := by
    intro label hmoves
    have hmove := (Scheduler.move_of_step hmoves).2
    exact ⟨hmove.wellStacked hinv.wellStacked, hinv.registered.step hinv.wellStacked hmove⟩
  cases hstep with
  | same hnode => rwa [hnode]
  | moves _ _ _ _ _ hstep | starts _ _ _ hstep | shutdown _ _ _ hstep => exact hmoves hstep
  | ends _ _ hnode | created _ _ hnode | askedEarly _ _ _ _ _ hnode =>
      rw [hnode]
      exact ⟨hinv.wellStacked, hinv.registered⟩

/-- A node stays up until `stop` turns to it. -/
theorem NodeStep.up
    (hstep : NodeStep r action next who) (hinv : NodeInvariant (r.node who))
    (hnormal : (r.node who).scheduler.throwing = false)
    (hkeep : ∀ rest point, r.caller = .stopping (who :: rest) point →
      point = .request ∧ next.caller = r.caller)
    (hup : (r.node who).Up) : (next.node who).Up := by
  cases hstep with
  | same hnode => rwa [hnode]
  | moves label hcall _ hrequest hthread hstep =>
      rcases hup with hcreated | ⟨hrunning, hinside, hstop⟩
      · exact .inl (hthread.trans hcreated)
      · have hmove := (Scheduler.move_of_step hstep).2
        have hlabel : label ≠ .requestStop := by
          intro hlabel
          obtain ⟨rest, hcaller, hnext⟩ := hrequest hlabel
          rw [(hkeep rest _ hcaller).2, hcaller] at hnext
          simp at hnext
        refine .inr ⟨hthread.trans hrunning, ?_, ?_⟩
        · rcases hmove.inRun hinv.registered hinv.wellStacked hcall hinside with
            hkept | ⟨-, hrequested | hthrowing⟩
          · exact hkept
          · simp [hstop] at hrequested
          · simp [hnormal] at hthrowing
        · rw [(hmove.requested_kept hcall).2.2 hlabel, hstop]
  | starts requested hbefore hafter hstep =>
      rcases hup with hcreated | ⟨hrunning, -, -⟩
      · rw [hbefore, ThreadState.created.injEq] at hcreated
        subst hcreated
        obtain ⟨hstack, hstop⟩ := (Scheduler.move_of_step hstep).2.callRun_eq
        exact .inr ⟨hafter, by rw [hstack]; rfl, by rw [hstop]⟩
      · simp [hbefore] at hrunning
  | ends hbefore hstack _ =>
      rcases hup with hcreated | ⟨-, hinside, -⟩
      · simp [hbefore] at hcreated
      · rw [hstack] at hinside
        exact absurd hinside Scheduler.not_inRun_nil
  | created rest _ hnode =>
      left
      rw [hnode]
  | askedEarly rest _ hcaller hnext _ _ =>
      rw [(hkeep rest _ hcaller).2, hcaller] at hnext
      simp at hnext
  | shutdown rest hcaller _ _ => exact absurd (hkeep rest _ hcaller).1 (by simp)

/-- A node which has been asked to stop stays so. -/
theorem NodeStep.asked
    (hstep : NodeStep r action next who) (hinv : NodeInvariant (r.node who))
    {rest : List (NodeId k)} {point : StopPoint}
    (hcaller : r.caller = .stopping (who :: rest) point)
    (hpoint : point = .callback ∨ point = .join)
    (hasked : (r.node who).Asked point) : (next.node who).Asked point := by
  cases hstep with
  | same hnode => rwa [hnode]
  | moves label hcall _ _ hthread hstep =>
      rcases hasked with hcreated | hexited | ⟨hrunning, hleft⟩
      · exact .inl (hthread.trans hcreated)
      · exact .inr (.inl (hthread.trans hexited))
      · refine .inr (.inr ⟨hthread.trans hrunning, ?_⟩)
        have hmove := (Scheduler.move_of_step hstep).2
        rcases hleft with hempty | ⟨hinside, hrequested, hcalled⟩
        · exact .inl (hmove.idle hcall hempty).1
        · obtain ⟨hstop, hcallback, -⟩ := hmove.requested_kept hcall
          rcases hmove.inRun hinv.registered hinv.wellStacked hcall hinside with
            hkept | ⟨hempty, -⟩
          · exact .inr ⟨hkept, hstop hrequested, fun hjoin => hcallback (hcalled hjoin)⟩
          · exact .inl hempty
  | starts requested hbefore hafter hstep =>
      rcases hasked with hcreated | hexited | ⟨hrunning, -⟩
      · rw [hbefore, ThreadState.created.injEq] at hcreated
        subst hcreated
        obtain ⟨hstack, hstop⟩ := (Scheduler.move_of_step hstep).2.callRun_eq
        refine .inr (.inr ⟨hafter, .inr ⟨by rw [hstack]; rfl, by rw [hstop], fun _ => ?_⟩⟩)
        rw [hstop]
      · simp [hbefore] at hexited
      · simp [hbefore] at hrunning
  | ends _ _ hnode =>
      right
      left
      rw [hnode]
  | created rest' hstarting _ => simp [hcaller] at hstarting
  | askedEarly _ _ _ _ _ hnode =>
      left
      rw [hnode]
  | shutdown rest' hshutdown _ _ =>
      rw [hcaller, Caller.stopping.injEq] at hshutdown
      rcases hpoint with rfl | rfl <;> simp at hshutdown

/-- Once `request_stop` has returned, the node has been asked to stop. -/
theorem asked_of_request
    {rest : List (NodeId k)} (hstep : r.step .caller = some next)
    (hcaller : r.caller = .stopping (who :: rest) .request)
    (hregistered : Scheduler.Registered (r.node who).scheduler)
    (hcrash : (r.node who).scheduler.crash = none) (hup : (r.node who).Up) :
    next.caller = .stopping (who :: rest) .callback ∧ (next.node who).Asked .callback := by
  simp only [Runtime.step, callerStep, hcaller] at hstep
  split at hstep
  next => simp at hstep
  next =>
    simp only [Option.some.injEq] at hstep
    subst hstep
    refine ⟨rfl, ?_⟩
    have hnode : ({ r.requestStop who with caller := .stopping (who :: rest) .callback } :
        Runtime Q k).node who = (r.requestStop who).node who := node_congr rfl rfl who
    rw [hnode]
    rcases hup with hcreated | ⟨hrunning, hinside, hstop⟩
    · left
      simp [requestStop, hcreated, setThread]
    · have hrequest : (r.node who).scheduler.step .requestStop =
          some { (r.node who).scheduler with
            stop := { (r.node who).scheduler.stop with requested := true } } := by
        simp [Scheduler.step, hcrash, hregistered.mpr hinside, hstop]
      right
      right
      simp [requestStop, hrunning, schedulerStep, hrequest, setScheduler, hinside]

/-- Once the stop callback has been dealt with, it has been called. -/
theorem asked_of_callback
    {rest : List (NodeId k)} (hstep : r.step .caller = some next)
    (hcaller : r.caller = .stopping (who :: rest) .callback)
    (hregistered : Scheduler.Registered (r.node who).scheduler)
    (hcrash : (r.node who).scheduler.crash = none) (hasked : (r.node who).Asked .callback) :
    next.caller = .stopping (who :: rest) .join ∧ (next.node who).Asked .join := by
  simp only [Runtime.step, callerStep, hcaller] at hstep
  split at hstep
  next => simp at hstep
  next =>
    simp only [Option.some.injEq] at hstep
    subst hstep
    refine ⟨rfl, ?_⟩
    have hnode : ({ r.stopCallback who with caller := .stopping (who :: rest) .join } :
        Runtime Q k).node who = (r.stopCallback who).node who := node_congr rfl rfl who
    rw [hnode]
    have hthread : ((r.stopCallback who).node who).thread = (r.node who).thread := by
      unfold stopCallback schedulerStep
      cases (r.node who).scheduler.step .stopCallback <;> simp [setScheduler]
    rcases hasked with hcreated | hexited | ⟨hrunning, hleft⟩
    · exact .inl (hthread.trans hcreated)
    · exact .inr (.inl (hthread.trans hexited))
    · refine .inr (.inr ⟨hthread.trans hrunning, ?_⟩)
      have hstack : ((r.stopCallback who).node who).scheduler.stack =
          (r.node who).scheduler.stack := by
        unfold stopCallback schedulerStep
        cases hmoves : (r.node who).scheduler.step .stopCallback with
        | none => simp
        | some s =>
            have hmove := (Scheduler.move_of_step hmoves).2
            simp [setScheduler, hmove.stopCallback_eq.1]
      rw [hstack]
      rcases hleft with hempty | ⟨hinside, hrequested, -⟩
      · exact .inl hempty
      · refine .inr ⟨hinside, ?_⟩
        cases hcalled : (r.node who).scheduler.stop.called with
        | true =>
            have hnone : (r.node who).scheduler.step .stopCallback = none := by
              simp [Scheduler.step, hcrash, hcalled]
            simp [stopCallback, schedulerStep, hnone, hrequested, hcalled]
        | false =>
            have hcalls : (r.node who).scheduler.step .stopCallback =
                some { (r.node who).scheduler with
                  eventfd := (r.node who).scheduler.eventfd + 1
                  stop := { (r.node who).scheduler.stop with called := true } } := by
              simp [Scheduler.step, hcrash, hregistered.mpr hinside, hrequested, hcalled]
            simp [stopCallback, schedulerStep, hcalls, setScheduler, hrequested]

end Runtime

/-! ## All nodes -/

/-- Which nodes are up, and which have been asked to stop. -/
structure Phases (r : Runtime Q k) : Prop where
  nodes : ∀ who, NodeInvariant (r.node who)
  starting : ∀ rest, r.caller = .starting rest → ∀ who, who ∉ rest → (r.node who).Up
  running : r.caller = .idle → r.state = .running → ∀ who, (r.node who).Up
  nodup : ∀ rest point, r.caller = .stopping rest point → rest.Nodup
  later : ∀ who rest point, r.caller = .stopping (who :: rest) point →
    ∀ other ∈ rest, (r.node other).Up
  request : ∀ who rest, r.caller = .stopping (who :: rest) .request → (r.node who).Up
  asked : ∀ who rest point, r.caller = .stopping (who :: rest) point →
    point = .callback ∨ point = .join → (r.node who).Asked point

namespace Phases

variable {r next : Runtime Q k} {action : RuntimeLabel Q k}

theorem initial (dispatcherIo : IoState) (workerIo : Fin k → IoState)
    (fd : NodeId k → Int32) (addr : NodeId k → UInt64) :
    Phases (Runtime.initial Q dispatcherIo workerIo fd addr) := by
  constructor
  · intro who
    cases who with
    | none => exact ⟨trivial, by simp [Scheduler.Registered, Scheduler.InRun,
        Runtime.initial, Scheduler.initial]⟩
    | some worker => exact ⟨trivial, by simp [Scheduler.Registered, Scheduler.InRun,
        Runtime.initial, Scheduler.initial]⟩
  all_goals simp [Runtime.initial]

/-- The thread inside `start` or `stop` does not move. -/
theorem keep
    (hphases : Phases r) (hmove : r.Move action next)
    (hnormal : ∀ who, (r.node who).scheduler.throwing = false)
    (hcaller : next.caller = r.caller) (hstate : next.state = r.state) : Phases next := by
  have hstep := fun who => hmove.nodeStep who
  have hup : ∀ who, (∀ rest point, r.caller = .stopping (who :: rest) point →
      point = .request) → (r.node who).Up → (next.node who).Up := by
    intro who hpoint
    exact (hstep who).up (hphases.nodes who) (hnormal who)
      (fun rest point hstopping => ⟨hpoint rest point hstopping, hcaller⟩)
  constructor
  · exact fun who => (hstep who).nodeInvariant (hphases.nodes who)
  · intro rest hstarting who hwho
    rw [hcaller] at hstarting
    exact hup who (by simp [hstarting]) (hphases.starting rest hstarting who hwho)
  · intro hidle hrunning who
    rw [hcaller] at hidle
    rw [hstate] at hrunning
    exact hup who (by simp [hidle]) (hphases.running hidle hrunning who)
  · simpa only [hcaller] using hphases.nodup
  · intro who rest point hstopping other hother
    rw [hcaller] at hstopping
    refine hup other ?_ (hphases.later who rest point hstopping other hother)
    intro rest' point' hstopping'
    rw [hstopping, Caller.stopping.injEq, List.cons.injEq] at hstopping'
    have hnodup := hphases.nodup _ _ hstopping
    rw [hstopping'.1.1] at hnodup
    exact absurd hother (List.nodup_cons.mp hnodup).1
  · intro who rest hstopping
    rw [hcaller] at hstopping
    refine hup who ?_ (hphases.request who rest hstopping)
    intro rest' point' hstopping'
    rw [hstopping, Caller.stopping.injEq] at hstopping'
    exact hstopping'.2.symm
  · intro who rest point hstopping hpoint
    rw [hcaller] at hstopping
    exact (hstep who).asked (hphases.nodes who) hstopping hpoint
      (hphases.asked who rest point hstopping hpoint)

/-- `stop` goes on with the same node, which has been dealt with as `point` says. -/
theorem goOn
    (hphases : Phases r) (hmove : r.Move action next)
    (hnormal : ∀ who, (r.node who).scheduler.throwing = false)
    {who : NodeId k} {rest : List (NodeId k)} {before after : StopPoint}
    (hcaller : r.caller = .stopping (who :: rest) before)
    (hnext : next.caller = .stopping (who :: rest) after) (hafter : after ≠ .request)
    (hasked : after = .callback ∨ after = .join → (next.node who).Asked after) :
    Phases next := by
  have hnodup := hphases.nodup _ _ hcaller
  constructor
  · exact fun other => (hmove.nodeStep other).nodeInvariant (hphases.nodes other)
  · simp [hnext]
  · simp [hnext]
  · intro rest' point hstopping
    rw [hnext, Caller.stopping.injEq] at hstopping
    rw [← hstopping.1]
    exact hnodup
  · intro who' rest' point hstopping other hother
    rw [hnext, Caller.stopping.injEq, List.cons.injEq] at hstopping
    obtain ⟨⟨rfl, rfl⟩, -⟩ := hstopping
    refine (hmove.nodeStep other).up (hphases.nodes other) (hnormal other) ?_
      (hphases.later who rest before hcaller other hother)
    intro rest' point' hstopping'
    rw [hcaller, Caller.stopping.injEq, List.cons.injEq] at hstopping'
    rw [hstopping'.1.1] at hnodup
    exact absurd hother (List.nodup_cons.mp hnodup).1
  · intro who' rest' hstopping
    rw [hnext, Caller.stopping.injEq] at hstopping
    exact absurd hstopping.2 hafter
  · intro who' rest' point hstopping hpoint
    rw [hnext, Caller.stopping.injEq, List.cons.injEq] at hstopping
    obtain ⟨⟨rfl, rfl⟩, rfl⟩ := hstopping
    exact hasked hpoint

theorem createThread
    (hphases : Phases r) (hmove : r.Move action next)
    (hnormal : ∀ who, (r.node who).scheduler.throwing = false)
    {who : NodeId k} {rest : List (NodeId k)} (hcaller : r.caller = .starting (who :: rest))
    (hcreated : (next.node who).thread = .created false)
    (hnext : next.caller = .starting rest) : Phases next := by
  constructor
  · exact fun other => (hmove.nodeStep other).nodeInvariant (hphases.nodes other)
  · intro rest' hstarting other hother
    rw [hnext, Caller.starting.injEq] at hstarting
    subst hstarting
    by_cases hwho : other = who
    · subst hwho
      exact .inl hcreated
    · refine (hmove.nodeStep other).up (hphases.nodes other) (hnormal other)
        (by simp [hcaller]) ?_
      exact hphases.starting _ hcaller other (by simp [hwho, hother])
  all_goals simp [hnext]

/-- All nodes are left alone. -/
theorem turn
    (hphases : Phases r) (hnode : ∀ who, next.node who = r.node who)
    (hstarting : ∀ rest, next.caller = .starting rest → ∀ who, who ∉ rest → (r.node who).Up)
    (hrunning : next.caller = .idle → next.state = .running → ∀ who, (r.node who).Up)
    (hstopping : ∀ rest point, next.caller = .stopping rest point →
      point = .request ∧ rest.Nodup ∧ ∀ who ∈ rest, (r.node who).Up) : Phases next := by
  constructor
  · exact fun who => hnode who ▸ hphases.nodes who
  · simpa only [hnode] using hstarting
  · simpa only [hnode] using hrunning
  · exact fun rest point hnext => (hstopping rest point hnext).2.1
  · intro who rest point hnext other hother
    rw [hnode]
    exact (hstopping _ point hnext).2.2 other (List.mem_cons_of_mem _ hother)
  · intro who rest hnext
    rw [hnode]
    exact (hstopping _ _ hnext).2.2 who (List.mem_cons_self ..)
  · intro who rest point hnext hpoint
    rw [(hstopping _ point hnext).1] at hpoint
    simp at hpoint

theorem mem_startOrder (who : NodeId k) : who ∈ Runtime.startOrder k := by
  cases who <;> simp [Runtime.startOrder]

theorem nodup_stopOrder : (Runtime.stopOrder k).Nodup := by
  rw [Runtime.stopOrder, List.nodup_cons]
  refine ⟨by simp, ?_⟩
  exact (List.nodup_finRange k).map (Option.some_injective _)

theorem step
    (hphases : Phases r) (hstep : r.step action = some next)
    (hnormal : ∀ who, (r.node who).scheduler.throwing = false)
    (hcrash : ∀ who, (r.node who).scheduler.crash = none) : Phases next := by
  have hmove := Runtime.move_of_step hstep
  cases hmove with
  | post _ | posted _ | drives _ _ _ | returns _ _ _ | pushes _ _ _ | writes _ _ _
  | threadStarts _ _ | threadEnds _ _ =>
      refine hphases.keep (Runtime.move_of_step hstep) hnormal ?_ ?_ <;>
        simp [Runtime.setThread, Runtime.setScheduler]
  | terminates _ _ | noWorkers _ _ _ | chooses _ _ _ | callIgnored _ =>
      exact hphases.keep (Runtime.move_of_step hstep) hnormal rfl rfl
  | @leavesStop who _ _ _ hthrows _ _ =>
      have hthrowing := Lifecycle.throwing_of_throwsOther hthrows
      simp [hnormal who] at hthrowing
  | callStart _ _ =>
      refine hphases.turn (Runtime.node_congr rfl rfl) ?_ (by simp) (by simp)
      intro rest hstarting who hwho
      rw [Caller.starting.injEq] at hstarting
      exact absurd (hstarting ▸ mem_startOrder who) hwho
  | callStop hidle hstate =>
      refine hphases.turn (Runtime.node_congr rfl rfl) (by simp) (by simp) ?_
      intro rest point hstopping
      rw [Caller.stopping.injEq] at hstopping
      obtain ⟨rfl, rfl⟩ := hstopping
      exact ⟨rfl, nodup_stopOrder, fun who _ => hphases.running hidle hstate who⟩
  | @createThread who rest hcaller =>
      refine hphases.createThread (Runtime.move_of_step hstep) hnormal hcaller ?_ rfl
      have hnode : ∀ other, ({ r.setThread who (.created false) with caller := .starting rest } :
          Runtime Q k).node other = (r.setThread who (.created false)).node other :=
        Runtime.node_congr rfl rfl
      rw [hnode, Runtime.setThread, Runtime.setNode_node_self]
  | started hcaller =>
      refine hphases.turn (Runtime.node_congr rfl rfl) (by simp) ?_ (by simp)
      exact fun _ _ who => hphases.starting [] hcaller who (by simp)
  | @requestEarly who rest _ hcaller _ | @requestStop who rest _ hcaller _ =>
      obtain ⟨hnext, hasked⟩ := Runtime.asked_of_request hstep hcaller
        (hphases.nodes who).registered (hcrash who) (hphases.request who rest hcaller)
      exact hphases.goOn (Runtime.move_of_step hstep) hnormal hcaller hnext (by simp)
        fun _ => hasked
  | @stopCallback who rest _ hcaller _ =>
      obtain ⟨hnext, hasked⟩ := Runtime.asked_of_callback hstep hcaller
        (hphases.nodes who).registered (hcrash who)
        (hphases.asked who rest _ hcaller (.inl rfl))
      exact hphases.goOn (Runtime.move_of_step hstep) hnormal hcaller hnext (by simp)
        fun _ => hasked
  | @pass who rest point after hcaller hafter =>
      rcases hafter with ⟨rfl, rfl⟩ | ⟨rfl, rfl⟩ | ⟨rfl, rfl, hexited⟩
      · obtain ⟨hnext, hasked⟩ := Runtime.asked_of_request hstep hcaller
          (hphases.nodes who).registered (hcrash who) (hphases.request who rest hcaller)
        exact hphases.goOn (Runtime.move_of_step hstep) hnormal hcaller hnext (by simp)
          fun _ => hasked
      · obtain ⟨hnext, hasked⟩ := Runtime.asked_of_callback hstep hcaller
          (hphases.nodes who).registered (hcrash who)
          (hphases.asked who rest _ hcaller (.inl rfl))
        exact hphases.goOn (Runtime.move_of_step hstep) hnormal hcaller hnext (by simp)
          fun _ => hasked
      · exact hphases.goOn (Runtime.move_of_step hstep) hnormal hcaller rfl (by simp) (by simp)
  | shutdown hcaller _ =>
      exact hphases.goOn (Runtime.move_of_step hstep) hnormal hcaller rfl (by simp) (by simp)
  | @shutDown who rest hcaller _ =>
      refine hphases.turn (Runtime.node_congr rfl rfl) (by simp) (by simp) ?_
      intro rest' point hstopping
      rw [Caller.stopping.injEq] at hstopping
      obtain ⟨rfl, rfl⟩ := hstopping
      exact ⟨rfl, (List.nodup_cons.mp (hphases.nodup _ _ hcaller)).2,
        hphases.later who _ _ hcaller⟩
  | stopped _ => exact hphases.turn (Runtime.node_congr rfl rfl) (by simp) (by simp) (by simp)

end Phases

/-! ## Runs without crashes -/

namespace Runtime

/-- A scheduler which has not crashed at the end of a run had not crashed before. -/
theorem crash_eq_none_of_visit
    {start final : Runtime Q k} {history : List (Runtime Q k × RuntimeLabel Q k)}
    (hrun : Run Runtime.step start history final)
    (hcrash : ∀ who, (final.node who).scheduler.crash = none) :
    ∀ visit ∈ history, ∀ who, (visit.1.node who).scheduler.crash = none := by
  induction hrun with
  | nil => simp
  | @snoc history state next label _ hstep ih =>
      have hstate : ∀ who, (state.node who).scheduler.crash = none := by
        intro who
        have hnext := hcrash who
        cases (move_of_step hstep).nodeStep who with
        | same hnode => rwa [hnode] at hnext
        | moves _ _ _ _ _ hmoves | starts _ _ _ hmoves | shutdown _ _ _ hmoves =>
            exact (Scheduler.move_of_step hmoves).1
        | ends _ _ hnode | created _ _ hnode | askedEarly _ _ _ _ _ hnode =>
            rwa [hnode] at hnext
      intro visit hvisit
      rcases List.mem_append.mp hvisit with hold | hnew
      · exact ih hstate visit hold
      · rw [List.mem_singleton] at hnew
        subst hnew
        exact hstate

end Runtime

end SlimCommonIo
