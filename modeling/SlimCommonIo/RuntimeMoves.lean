import SlimCommonIo.Runtime

/-!
# What a step of the runtime can do

`Runtime.Move` lists the steps of the runtime with the state each leads to; the
invariants of the runtime are proved by cases on it.
-/

namespace SlimCommonIo

variable {Q : Program} {k : ℕ}

namespace Runtime

/-- The steps of the runtime, with who moves. -/
inductive Move (r : Runtime Q k) : RuntimeLabel Q k → Runtime Q k → Prop
  -- client threads
  | post {job : ℕ → Q.Job} {s : Scheduler (runtimeProgram Q)}
      (hstep : r.dispatcher.scheduler.step (.enqueue (.dispatch job)) = some s) :
      Move r (.post job) (r.setScheduler none s)
  | posted {id : ℕ} {s : Scheduler (runtimeProgram Q)}
      (hstep : r.dispatcher.scheduler.step (.notify id) = some s) :
      Move r (.posted id) (r.setScheduler none s)
  -- scheduler threads
  | drives {who : NodeId k} {label : Label (runtimeProgram Q)}
      {s : Scheduler (runtimeProgram Q)} (hinternal : label.isInternal = true)
      (hbusy : who = none → r.dispatching ≠ none → label.isRunner = false)
      (hstep : (r.node who).scheduler.step label = some s) :
      Move r (.drives who label) (r.setScheduler who s)
  | returns {allocated : Bool} {s : Scheduler (runtimeProgram Q)}
      (hdispatching : r.dispatching ≠ none) (hphase : r.phase = .written)
      (hstep : r.dispatcher.scheduler.step (.runner allocated) = some s) :
      Move r (.drives none (.runner allocated)) { r.setScheduler none s with phase := .fresh }
  | terminates {who : NodeId k} {allocated : Bool}
      (hthrows : throwsOther (r.node who).scheduler = true)
      (hthread : (r.node who).thread = .running) :
      Move r (.drives who (.runner allocated)) { r with crash := some .terminated }
  | leavesStop {who : NodeId k} {allocated : Bool} {s : Scheduler (runtimeProgram Q)}
      (hbusy : who = none → r.dispatching = none)
      (hthrows : throwsOther (r.node who).scheduler = true)
      (hthread : (r.node who).thread ≠ .running)
      (hstep : (r.node who).scheduler.step (.runner allocated) = some s) :
      Move r (.drives who (.runner allocated)) { r.setScheduler who s with caller := .idle }
  | threadStarts {who : NodeId k} {requested : Bool} {s : Scheduler (runtimeProgram Q)}
      (hthread : (r.node who).thread = .created requested)
      (hstep : (r.node who).scheduler.step (.callRun requested) = some s) :
      Move r (.threadStarts who) ((r.setScheduler who s).setThread who .running)
  | threadEnds {who : NodeId k} (hthread : (r.node who).thread = .running)
      (hstack : (r.node who).scheduler.stack = []) :
      Move r (.threadEnds who) (r.setThread who .exited)
  -- the callable of `Runtime::post`
  | noWorkers {entry : Posted (runtimeProgram Q)} {job : ℕ → Q.Job}
      (hdispatching : r.dispatching = some (entry, job)) (hphase : r.phase = .fresh)
      (hworkers : k = 0) :
      Move r .dispatch { r with crash := some .undefined }
  | chooses {entry : Posted (runtimeProgram Q)} {job : ℕ → Q.Job}
      (hdispatching : r.dispatching = some (entry, job)) (hphase : r.phase = .fresh)
      (hworkers : 0 < k) :
      Move r .dispatch
        { r with
          nextWorker := r.nextWorker + 1
          phase := .chosen ⟨r.nextWorker.toNat % k, Nat.mod_lt _ hworkers⟩ }
  | pushes {entry : Posted (runtimeProgram Q)} {job : ℕ → Q.Job} {worker : Fin k}
      {s : Scheduler (runtimeProgram Q)}
      (hdispatching : r.dispatching = some (entry, job)) (hphase : r.phase = .chosen worker)
      (hstep : (r.workers worker).scheduler.step (.enqueue (.client (job worker))) = some s) :
      Move r .dispatch
        { r.setScheduler (some worker) s with
          phase := .pushed worker (r.workers worker).scheduler.nextPost
          sent := r.sent ++ [(worker, (r.workers worker).scheduler.nextPost)] }
  | writes {entry : Posted (runtimeProgram Q)} {job : ℕ → Q.Job} {worker : Fin k} {id : ℕ}
      {s : Scheduler (runtimeProgram Q)}
      (hdispatching : r.dispatching = some (entry, job)) (hphase : r.phase = .pushed worker id)
      (hstep : (r.workers worker).scheduler.step (.notify id) = some s) :
      Move r .dispatch { r.setScheduler (some worker) s with phase := .written }
  -- start and stop
  | callIgnored {label : RuntimeLabel Q k}
      (hlabel : label = .callStart ∧ r.state = .running ∨
        label = .callStop ∧ r.state ≠ .running) : Move r label r
  | callStart (hidle : r.caller = .idle) (hstate : r.state ≠ .running) :
      Move r .callStart { r with caller := .starting (startOrder k) }
  | callStop (hidle : r.caller = .idle) (hstate : r.state = .running) :
      Move r .callStop { r with caller := .stopping (stopOrder k) .request }
  | createThread {who : NodeId k} {rest : List (NodeId k)}
      (hcaller : r.caller = .starting (who :: rest)) :
      Move r .caller { r.setThread who (.created false) with caller := .starting rest }
  | started (hcaller : r.caller = .starting []) :
      Move r .caller { r with caller := .idle, state := .running }
  | requestEarly {who : NodeId k} {rest : List (NodeId k)} {requested : Bool}
      (hcaller : r.caller = .stopping (who :: rest) .request)
      (hthread : (r.node who).thread = .created requested) :
      Move r .caller
        { r.setThread who (.created true) with caller := .stopping (who :: rest) .callback }
  | requestStop {who : NodeId k} {rest : List (NodeId k)} {s : Scheduler (runtimeProgram Q)}
      (hcaller : r.caller = .stopping (who :: rest) .request)
      (hstep : (r.node who).scheduler.step .requestStop = some s) :
      Move r .caller
        { r.setScheduler who s with caller := .stopping (who :: rest) .callback }
  | stopCallback {who : NodeId k} {rest : List (NodeId k)} {s : Scheduler (runtimeProgram Q)}
      (hcaller : r.caller = .stopping (who :: rest) .callback)
      (hstep : (r.node who).scheduler.step .stopCallback = some s) :
      Move r .caller { r.setScheduler who s with caller := .stopping (who :: rest) .join }
  | pass {who : NodeId k} {rest : List (NodeId k)} {point after : StopPoint}
      (hcaller : r.caller = .stopping (who :: rest) point)
      (hafter : point = .request ∧ after = .callback ∨ point = .callback ∧ after = .join ∨
        point = .join ∧ after = .shutdown ∧ (r.node who).thread = .exited) :
      Move r .caller { r with caller := .stopping (who :: rest) after }
  | shutdown {who : NodeId k} {rest : List (NodeId k)} {s : Scheduler (runtimeProgram Q)}
      (hcaller : r.caller = .stopping (who :: rest) .shutdown)
      (hstep : (r.node who).scheduler.step .callShutdown = some s) :
      Move r .caller
        { r.setScheduler who s with caller := .stopping (who :: rest) .shuttingDown }
  | shutDown {who : NodeId k} {rest : List (NodeId k)}
      (hcaller : r.caller = .stopping (who :: rest) .shuttingDown)
      (hstack : (r.node who).scheduler.stack = []) :
      Move r .caller { r with caller := .stopping rest .request }
  | stopped {point : StopPoint} (hcaller : r.caller = .stopping [] point) :
      Move r .caller { r with caller := .idle, state := .stopped }

/-! ## Every step is a move -/

theorem schedulerStep_eq_some
    {r next : Runtime Q k} {who : NodeId k} {label : Label (runtimeProgram Q)}
    (hstep : r.schedulerStep who label = some next) :
    ∃ s, (r.node who).scheduler.step label = some s ∧ next = r.setScheduler who s := by
  obtain ⟨s, hs, hnext⟩ := Option.map_eq_some_iff.mp hstep
  exact ⟨s, hs, hnext.symm⟩

theorem move_of_drive
    {r next : Runtime Q k} {who : NodeId k} {label : Label (runtimeProgram Q)}
    (hinternal : label.isInternal = true) (hstep : r.drive who label = some next) :
    Move r (.drives who label) next := by
  unfold drive at hstep
  split at hstep
  next hrunner =>
    obtain ⟨allocated, rfl⟩ : ∃ allocated, label = .runner allocated := by
      cases label with
      | runner allocated => exact ⟨allocated, rfl⟩
      | _ => simp [Label.isRunner] at hrunner
    split at hstep
    next hdispatching =>
      obtain ⟨rfl, hsome⟩ := hdispatching
      split at hstep
      next hphase =>
        obtain ⟨moved, hmoved, rfl⟩ := Option.map_eq_some_iff.mp hstep
        obtain ⟨s, hs, rfl⟩ := schedulerStep_eq_some hmoved
        exact .returns (Option.isSome_iff_ne_none.mp hsome) hphase hs
      next => simp at hstep
    next hidle =>
      have hbusy : who = none → r.dispatching = none := by
        intro hwho
        simpa [hwho] using hidle
      split at hstep
      next hthrows =>
        split at hstep
        next hthread =>
          simp only [Option.some.injEq] at hstep
          subst hstep
          exact .terminates hthrows hthread
        next hthread =>
          obtain ⟨moved, hmoved, rfl⟩ := Option.map_eq_some_iff.mp hstep
          obtain ⟨s, hs, rfl⟩ := schedulerStep_eq_some hmoved
          exact .leavesStop hbusy hthrows hthread hs
      next =>
        obtain ⟨s, hs, rfl⟩ := schedulerStep_eq_some hstep
        exact .drives rfl (fun hwho hsome => absurd (hbusy hwho) hsome) hs
  next hother =>
    obtain ⟨s, hs, rfl⟩ := schedulerStep_eq_some hstep
    exact .drives hinternal (fun _ _ => by simpa using hother) hs

theorem move_of_dispatchStep
    {r next : Runtime Q k} (hstep : r.dispatchStep = some next) : Move r .dispatch next := by
  unfold dispatchStep at hstep
  split at hstep
  next => simp at hstep
  next entry job hdispatching =>
    split at hstep
    next hphase =>
      simp only [Option.some.injEq, fetchAdd] at hstep
      split at hstep
      next hworkers =>
        subst hstep
        exact .chooses hdispatching hphase hworkers
      next hworkers =>
        subst hstep
        exact .noWorkers hdispatching hphase (Nat.eq_zero_of_not_pos hworkers)
    next worker hphase =>
      obtain ⟨moved, hmoved, rfl⟩ := Option.map_eq_some_iff.mp hstep
      obtain ⟨s, hs, rfl⟩ := schedulerStep_eq_some hmoved
      simp only [setScheduler, setNode_sent]
      exact .pushes hdispatching hphase hs
    next worker id hphase =>
      obtain ⟨moved, hmoved, rfl⟩ := Option.map_eq_some_iff.mp hstep
      obtain ⟨s, hs, rfl⟩ := schedulerStep_eq_some hmoved
      exact .writes hdispatching hphase hs
    next => simp at hstep

theorem move_of_callerStep
    {r next : Runtime Q k} (hstep : r.callerStep = some next) : Move r .caller next := by
  unfold callerStep at hstep
  split at hstep
  next => simp at hstep
  next hcaller =>
    simp only [Option.some.injEq] at hstep
    subst hstep
    exact .started hcaller
  next who rest hcaller =>
    simp only [Option.some.injEq] at hstep
    subst hstep
    exact .createThread hcaller
  next point hcaller =>
    simp only [Option.some.injEq] at hstep
    subst hstep
    exact .stopped hcaller
  next who rest hcaller =>
    simp only [Option.some.injEq] at hstep
    subst hstep
    unfold Runtime.requestStop
    split
    next requested hthread => exact .requestEarly hcaller hthread
    next =>
      cases hs : r.schedulerStep who .requestStop with
      | none => exact .pass hcaller (.inl ⟨rfl, rfl⟩)
      | some moved =>
          obtain ⟨s, hmoves, rfl⟩ := schedulerStep_eq_some hs
          exact .requestStop hcaller hmoves
  next who rest hcaller =>
    simp only [Option.some.injEq] at hstep
    subst hstep
    unfold Runtime.stopCallback
    cases hs : r.schedulerStep who .stopCallback with
    | none => exact .pass hcaller (.inr (.inl ⟨rfl, rfl⟩))
    | some moved =>
        obtain ⟨s, hmoves, rfl⟩ := schedulerStep_eq_some hs
        exact .stopCallback hcaller hmoves
  next who rest hcaller =>
    split at hstep
    next hthread =>
      simp only [Option.some.injEq] at hstep
      subst hstep
      exact .pass hcaller (.inr (.inr ⟨rfl, rfl, hthread⟩))
    next => simp at hstep
  next who rest hcaller =>
    obtain ⟨moved, hmoved, rfl⟩ := Option.map_eq_some_iff.mp hstep
    obtain ⟨s, hs, rfl⟩ := schedulerStep_eq_some hmoved
    exact .shutdown hcaller hs
  next who rest hcaller =>
    split at hstep
    next hstack =>
      simp only [Option.some.injEq] at hstep
      subst hstep
      exact .shutDown hcaller (by simpa using hstack)
    next => simp at hstep

theorem move_of_step
    {r next : Runtime Q k} {label : RuntimeLabel Q k} (hstep : r.step label = some next) :
    Move r label next := by
  unfold Runtime.step at hstep
  split at hstep
  · simp at hstep
  cases label with
  | post job =>
      obtain ⟨s, hs, rfl⟩ := schedulerStep_eq_some hstep
      exact .post hs
  | posted id =>
      obtain ⟨s, hs, rfl⟩ := schedulerStep_eq_some hstep
      exact .posted hs
  | drives who label =>
      simp only at hstep
      split at hstep
      next hinternal => exact move_of_drive hinternal hstep
      next => simp at hstep
  | dispatch => exact move_of_dispatchStep hstep
  | threadStarts who =>
      simp only at hstep
      split at hstep
      next requested hthread =>
        obtain ⟨moved, hmoved, rfl⟩ := Option.map_eq_some_iff.mp hstep
        obtain ⟨s, hs, rfl⟩ := schedulerStep_eq_some hmoved
        exact .threadStarts hthread hs
      next => simp at hstep
  | threadEnds who =>
      simp only at hstep
      split at hstep
      next hends =>
        simp only [Option.some.injEq] at hstep
        subst hstep
        exact .threadEnds hends.1 (by simpa using hends.2)
      next => simp at hstep
  | callStart =>
      simp only at hstep
      split at hstep
      next hidle =>
        split at hstep
        next hstate =>
          simp only [Option.some.injEq] at hstep
          subst hstep
          exact .callIgnored (.inl ⟨rfl, hstate⟩)
        next hstate =>
          simp only [Option.some.injEq] at hstep
          subst hstep
          exact .callStart hidle hstate
      next => simp at hstep
  | callStop =>
      simp only at hstep
      split at hstep
      next hidle =>
        split at hstep
        next hstate =>
          simp only [Option.some.injEq] at hstep
          subst hstep
          exact .callStop hidle hstate
        next hstate =>
          simp only [Option.some.injEq] at hstep
          subst hstep
          exact .callIgnored (.inr ⟨rfl, hstate⟩)
      next => simp at hstep
  | caller => exact move_of_callerStep hstep

end Runtime

end SlimCommonIo
