import SlimCommonIo.JobDelivery

/-!
# Runs with any number of dispatches

A batch the dispatcher has taken out of its inbox can be dispatched to its end,
whatever the workers are doing.  Clients can post any number of jobs before the
dispatcher takes them, so that a runtime with workers has runs with any number
of dispatches.
-/

namespace SlimCommonIo

variable {Q : Program} {k : ℕ}

open Transition

/-- Nothing has crashed, every inbox accepts callables, and the dispatcher is at
this point of its thread and of `Runtime::post`, having sent so many jobs. -/
structure DispatcherAt (r : Runtime Q k) (stack : List (Activation (runtimeProgram Q)))
    (phase : DispatchPhase k) (count : ℕ) : Prop where
  crash : r.crash = none
  crashes : ∀ who, (r.node who).scheduler.crash = none
  accepts : ∀ who, (r.node who).scheduler.closed = false
  stack : r.dispatcher.scheduler.stack = stack
  phase : r.phase = phase
  sent : r.sent.length = count

namespace DispatcherAt

variable {r : Runtime Q k} {stack rest : List (Activation (runtimeProgram Q))}
  {phase : DispatchPhase k} {count : ℕ} {entry : Posted (runtimeProgram Q)}
  {batch : List (Posted (runtimeProgram Q))} {job : ℕ → Q.Job} {worker : Fin k} {id : ℕ}

theorem setScheduler
    (hat : DispatcherAt r stack phase count) {who : NodeId k}
    {s : Scheduler (runtimeProgram Q)} (hcrash : s.crash = none) (haccepts : s.closed = false)
    (hstack : who = none → s.stack = rest) (hworker : who ≠ none → rest = stack) :
    DispatcherAt (r.setScheduler who s) rest phase count := by
  have hnodes : ∀ other, ((r.setScheduler who s).node other).scheduler = s ∨
      ((r.setScheduler who s).node other).scheduler = (r.node other).scheduler := by
    intro other
    by_cases hother : other = who
    · subst hother
      exact .inl (by rw [Runtime.setScheduler, Runtime.setNode_node_self])
    · exact .inr (by rw [Runtime.setScheduler, Runtime.setNode_node_of_ne _ hother])
  refine ⟨?_, ?_, ?_, ?_, ?_, ?_⟩
  · cases who <;> exact hat.crash
  · intro other
    rcases hnodes other with hnew | hold
    · rw [hnew, hcrash]
    · rw [hold, hat.crashes]
  · intro other
    rcases hnodes other with hnew | hold
    · rw [hnew, haccepts]
    · rw [hold, hat.accepts]
  · cases who with
    | none => exact hstack rfl
    | some worker =>
        rw [hworker (by simp)]
        exact hat.stack
  · cases who <;> exact hat.phase
  · cases who <;> exact hat.sent

theorem congr
    {next : Runtime Q k} (hat : DispatcherAt r stack phase count) (hcrash : next.crash = none)
    (hnodes : ∀ who, (next.node who).scheduler = (r.node who).scheduler)
    (hsame : Runtime.SameDispatch r next) : DispatcherAt next stack phase count := by
  refine ⟨hcrash, ?_, ?_, ?_, hsame.phase.trans hat.phase, ?_⟩
  · intro who
    rw [hnodes, hat.crashes]
  · intro who
    rw [hnodes, hat.accepts]
  · exact (congrArg Scheduler.stack (hnodes none)).trans hat.stack
  · rw [hsame.sent, hat.sent]

/-! ## One job -/

theorem invoke
    (hat : DispatcherAt r (.drainInbox (entry :: batch) :: rest) .fresh count) :
    ∃ next, r.step (.drives none (.runner true)) = some next ∧
      DispatcherAt next (.job entry entry.fn :: .drainInbox batch :: rest) .fresh count := by
  refine ⟨r.setScheduler none
    { r.dispatcher.scheduler with
      stack := .job entry entry.fn :: .drainInbox batch :: rest
      log := r.dispatcher.scheduler.log ++ [.invoked entry] }, ?_,
    hat.setScheduler (hat.crashes none) (hat.accepts none) (fun _ => rfl) (by simp)⟩
  have hcrash : r.dispatcher.scheduler.crash = none := hat.crashes none
  simp [Runtime.step, Runtime.drive, Runtime.dispatching, Runtime.throwsOther,
    Runtime.schedulerStep, Scheduler.step, Scheduler.runnerStep, Label.isInternal,
    Label.isRunner, hat.crash, hat.stack, hcrash]

theorem choose
    (hat : DispatcherAt r (.job entry (.dispatch job) :: rest) .fresh count)
    (hworkers : 0 < k) :
    ∃ worker next, r.step .dispatch = some next ∧
      DispatcherAt next (.job entry (.dispatch job) :: rest) (.chosen worker) count := by
  refine ⟨⟨r.nextWorker.toNat % k, Nat.mod_lt _ hworkers⟩, r.fetchAdd, ?_, ?_⟩
  · simp [Runtime.step, Runtime.dispatchStep, Runtime.dispatching, hat.crash, hat.stack,
      hat.phase]
  · rw [Runtime.fetchAdd, dif_pos hworkers]
    exact { hat with phase := rfl }

theorem push
    (hat : DispatcherAt r (.job entry (.dispatch job) :: rest) (.chosen worker) count) :
    ∃ id next, r.step .dispatch = some next ∧
      DispatcherAt next (.job entry (.dispatch job) :: rest) (.pushed worker id) (count + 1) ∧
      id ∈ (next.workers worker).scheduler.unnotified := by
  let target := (r.workers worker).scheduler
  let pushed : Scheduler (runtimeProgram Q) :=
    { target.pushInbox target.nextPost (.client (job worker)) with
      unnotified := target.nextPost :: target.unnotified }
  have hcrash : target.crash = none := hat.crashes (some worker)
  have haccepts : target.closed = false := hat.accepts (some worker)
  have hstep : target.step (.enqueue (.client (job worker))) = some pushed := by
    simp [Scheduler.step, hcrash, haccepts, pushed]
  have hmoved : DispatcherAt (r.setScheduler (some worker) pushed) _ _ count :=
    hat.setScheduler hcrash haccepts (by simp) (fun _ => rfl)
  refine ⟨target.nextPost,
    { r.setScheduler (some worker) pushed with
      phase := .pushed worker target.nextPost
      sent := r.sent ++ [(worker, target.nextPost)] }, ?_, ?_, ?_⟩
  · simp [Runtime.step, Runtime.dispatchStep, Runtime.dispatching, Runtime.schedulerStep,
      Runtime.setScheduler, hat.crash, hat.stack, hat.phase, hstep, target]
  · exact
      { hmoved with
        phase := rfl
        sent := by rw [List.length_append, List.length_singleton, hat.sent] }
  · simp [Runtime.setScheduler, Runtime.setNode, pushed]

theorem write
    (hat : DispatcherAt r (.job entry (.dispatch job) :: rest) (.pushed worker id) count)
    (hunnotified : id ∈ (r.workers worker).scheduler.unnotified) :
    ∃ next, r.step .dispatch = some next ∧
      DispatcherAt next (.job entry (.dispatch job) :: rest) .written count := by
  let target := (r.workers worker).scheduler
  let notified : Scheduler (runtimeProgram Q) :=
    { target with
      unnotified := target.unnotified.erase id
      eventfd := target.eventfd + 1 }
  have hcrash : target.crash = none := hat.crashes (some worker)
  have hstep : target.step (.notify id) = some notified := by
    simp [Scheduler.step, hcrash, hunnotified, notified, target]
  have hmoved : DispatcherAt (r.setScheduler (some worker) notified) _ _ count :=
    hat.setScheduler hcrash (hat.accepts (some worker)) (by simp) (fun _ => rfl)
  refine ⟨{ r.setScheduler (some worker) notified with phase := .written }, ?_,
    { hmoved with phase := rfl }⟩
  simp [Runtime.step, Runtime.dispatchStep, Runtime.dispatching, Runtime.schedulerStep,
    hat.crash, hat.stack, hat.phase, hstep, target]

theorem leave
    (hat : DispatcherAt r (.job entry (.dispatch job) :: rest) .written count) :
    ∃ next, r.step (.drives none (.runner true)) = some next ∧
      DispatcherAt next rest .fresh count := by
  let left : Scheduler (runtimeProgram Q) := { r.dispatcher.scheduler with stack := rest }
  have hcrash : r.dispatcher.scheduler.crash = none := hat.crashes none
  have hreturns : (runtimeProgram Q).job (.dispatch job) = .ret := rfl
  have hstep : r.dispatcher.scheduler.step (.runner true) = some left := by
    simp [Scheduler.step, Scheduler.runnerStep, Scheduler.jobStep, hcrash, hat.stack,
      hreturns, left]
  have hmoved : DispatcherAt (r.setScheduler none left) rest _ count :=
    hat.setScheduler hcrash (hat.accepts none) (fun _ => rfl) (by simp)
  refine ⟨{ r.setScheduler none left with phase := .fresh }, ?_, { hmoved with phase := rfl }⟩
  simp [Runtime.step, Runtime.drive, Runtime.dispatching, Runtime.schedulerStep,
    Label.isInternal, Label.isRunner, hat.crash, hat.stack, hat.phase, hstep]

theorem exists_run_job
    (hat : DispatcherAt r (.drainInbox (entry :: batch) :: rest) .fresh count)
    (hentry : entry.IsDispatch) (hworkers : 0 < k) :
    ∃ history next, Run Runtime.step r history next ∧
      DispatcherAt next (.drainInbox batch :: rest) .fresh (count + 1) := by
  obtain ⟨job, hfn⟩ := hentry
  obtain ⟨invoked, hinvoked, hexecuting⟩ := hat.invoke
  rw [hfn] at hexecuting
  obtain ⟨worker, chosen, hchosen, hchoice⟩ := hexecuting.choose hworkers
  obtain ⟨id, pushed, hpushed, hsent, hunnotified⟩ := hchoice.push
  obtain ⟨written, hwritten, hdone⟩ := hsent.write hunnotified
  obtain ⟨next, hleft, hnext⟩ := hdone.leave
  exact ⟨_, next, ((((Run.nil.snoc hinvoked).snoc hchosen).snoc hpushed).snoc hwritten).snoc
    hleft, hnext⟩

/-- The dispatcher can execute the whole batch it has taken. -/
theorem exists_run_batch
    (hat : DispatcherAt r (.drainInbox batch :: rest) .fresh count)
    (hbatch : ∀ entry ∈ batch, entry.IsDispatch) (hworkers : 0 < k) :
    ∃ history final, Run Runtime.step r history final ∧
      DispatcherAt final (.drainInbox [] :: rest) .fresh (count + batch.length) := by
  induction batch generalizing r count with
  | nil => exact ⟨[], r, .nil, hat⟩
  | cons entry batch ih =>
      obtain ⟨hentry, hbatch⟩ := List.forall_mem_cons.mp hbatch
      obtain ⟨first, next, hfirst, hnext⟩ := hat.exists_run_job hentry hworkers
      obtain ⟨more, final, hmore, hfinal⟩ := ih hnext hbatch
      refine ⟨first ++ more, final, hfirst.trans hmore, ?_⟩
      rw [List.length_cons, Nat.add_comm batch.length, ← Nat.add_assoc]
      exact hfinal

/-! ## The inbox of the dispatcher -/

theorem post
    (hat : DispatcherAt r stack phase count) (job : ℕ → Q.Job) :
    ∃ next, r.step (.post job) = some next ∧ DispatcherAt next stack phase count ∧
      next.dispatcher.scheduler.inbox.length = r.dispatcher.scheduler.inbox.length + 1 := by
  let source := r.dispatcher.scheduler
  let posted : Scheduler (runtimeProgram Q) :=
    { source.pushInbox source.nextPost (.dispatch job) with
      unnotified := source.nextPost :: source.unnotified }
  have hcrash : source.crash = none := hat.crashes none
  have haccepts : source.closed = false := hat.accepts none
  have hstep : source.step (.enqueue (.dispatch job)) = some posted := by
    simp [Scheduler.step, hcrash, haccepts, posted]
  refine ⟨r.setScheduler none posted, ?_,
    hat.setScheduler hcrash haccepts (fun _ => hat.stack) (fun _ => rfl), ?_⟩
  · simp [Runtime.step, Runtime.schedulerStep, hat.crash, hstep, source]
  · simp [Runtime.setScheduler, Runtime.setNode, Scheduler.pushInbox, posted, source]

theorem exists_run_post
    (hat : DispatcherAt r stack phase count) (job : ℕ → Q.Job) (n : ℕ) :
    ∃ history next, Run Runtime.step r history next ∧ DispatcherAt next stack phase count ∧
      next.dispatcher.scheduler.inbox.length = r.dispatcher.scheduler.inbox.length + n := by
  induction n with
  | zero => exact ⟨[], r, .nil, hat, rfl⟩
  | succ n ih =>
      obtain ⟨history, before, hrun, hbefore, hlength⟩ := ih
      obtain ⟨next, hstep, hnext, hmore⟩ := hbefore.post job
      exact ⟨_, next, hrun.snoc hstep, hnext, by rw [hmore, hlength, Nat.add_assoc]⟩

theorem swap
    (hat : DispatcherAt r (.swapInbox :: rest) .fresh count) :
    ∃ next, r.step (.drives none (.runner true)) = some next ∧
      DispatcherAt next (.drainInbox r.dispatcher.scheduler.inbox :: rest) .fresh count := by
  let source := r.dispatcher.scheduler
  let swapped : Scheduler (runtimeProgram Q) :=
    { source with inbox := [], stack := .drainInbox source.inbox :: rest }
  have hcrash : source.crash = none := hat.crashes none
  have hstep : source.step (.runner true) = some swapped := by
    simp [Scheduler.step, Scheduler.runnerStep, hcrash, hat.stack, swapped, source]
  refine ⟨r.setScheduler none swapped, ?_,
    hat.setScheduler hcrash (hat.accepts none) (fun _ => rfl) (by simp)⟩
  simp [Runtime.step, Runtime.drive, Runtime.dispatching, Runtime.throwsOther,
    Runtime.schedulerStep, Label.isInternal, Label.isRunner, hat.crash, hat.stack, hstep, source]

end DispatcherAt

/-! ## The way to the inbox -/

namespace Runtime

variable {r : Runtime Q k}

theorem setThread_thread
    (r : Runtime Q k) (who other : NodeId k) (thread : ThreadState) :
    ((r.setThread who thread).node other).thread =
      if other = who then thread else (r.node other).thread := by
  split
  next hother => rw [hother, setThread, setNode_node_self]
  next hother => rw [setThread, setNode_node_of_ne r hother]

theorem exists_run_start
    {rest : List (NodeId k)} (hcrash : r.crash = none) (hcaller : r.caller = .starting rest) :
    ∃ history next, Run Runtime.step r history next ∧ next.crash = none ∧
      SameDispatch r next ∧ (∀ who, (next.node who).scheduler = (r.node who).scheduler) ∧
      ∀ who, who ∈ rest ∨ (r.node who).thread = .created false →
        (next.node who).thread = .created false := by
  induction rest generalizing r with
  | nil => exact ⟨[], r, .nil, hcrash, ⟨rfl, rfl, rfl⟩, fun _ => rfl, by simp⟩
  | cons first rest ih =>
      let created : Runtime Q k :=
        { r.setThread first (.created false) with caller := .starting rest }
      have hnode : ∀ who, created.node who = (r.setThread first (.created false)).node who :=
        node_congr rfl rfl
      have hstep : r.step .caller = some created := by
        simp [Runtime.step, callerStep, hcrash, hcaller, created]
      have hfirst : SameDispatch r created := by
        cases first <;> exact ⟨rfl, rfl, rfl⟩
      obtain ⟨history, next, hrun, hcrash', hsame, hnodes, hthreads⟩ :=
        ih (r := created) (by cases first <;> exact hcrash) rfl
      refine ⟨_, next, (Run.nil.snoc hstep).trans hrun, hcrash', ?_, ?_, ?_⟩
      · exact ⟨hsame.nextWorker.trans hfirst.nextWorker, hsame.sent.trans hfirst.sent,
          hsame.phase.trans hfirst.phase⟩
      · intro who
        rw [hnodes, hnode, setThread_scheduler]
      · intro who hwho
        apply hthreads
        rw [hnode, setThread_thread]
        by_cases heq : who = first
        · exact .inr (if_pos heq)
        · rw [if_neg heq]
          exact hwho.imp_left fun hmem => (List.mem_cons.mp hmem).resolve_left heq

/-- Steps of the dispatcher's thread and its kernel outside of `Runtime::post`. -/
def drivesAlone (s : Scheduler (runtimeProgram Q)) (label : Label (runtimeProgram Q)) : Bool :=
  label.isInternal && s.executing.isNone && !throwsOther s

theorem exists_run_drives
    {labels : List (Label (runtimeProgram Q))} {s : Scheduler (runtimeProgram Q)}
    (hcrash : r.crash = none)
    (hreplay : replay Scheduler.step drivesAlone r.dispatcher.scheduler labels = some s) :
    ∃ history, Run Runtime.step r history (r.setScheduler none s) := by
  induction labels generalizing r with
  | nil =>
      rw [replay, Option.some.injEq] at hreplay
      subst hreplay
      exact ⟨[], .nil⟩
  | cons label labels ih =>
      rw [replay] at hreplay
      split at hreplay
      next hallowed =>
        obtain ⟨next, hstep, hrest⟩ := Option.bind_eq_some_iff.mp hreplay
        simp only [drivesAlone, Bool.and_eq_true, Bool.not_eq_true'] at hallowed
        obtain ⟨⟨hinternal, hidle⟩, hthrows⟩ := hallowed
        obtain ⟨history, hrun⟩ := ih (r := r.setScheduler none next) hcrash hrest
        have hfirst : r.step (.drives none label) = some (r.setScheduler none next) := by
          have hdispatching : r.dispatching.isSome = false :=
            Option.isSome_eq_false_iff.mpr hidle
          simp [Runtime.step, drive, schedulerStep, hcrash, hinternal, hdispatching, hthrows,
            hstep]
        exact ⟨_, (Run.nil.snoc hfirst).trans hrun⟩
      next => simp at hreplay

/-- The dispatcher only ever runs callables of `Runtime::post`. -/
theorem DispatchStep.dispatchOnly
    {r next : Runtime Q k} {label : RuntimeLabel Q k} (hstep : DispatchStep r label next)
    (hplain : DispatchOnly r.dispatcher.scheduler) :
    DispatchOnly next.dispatcher.scheduler := by
  have hsame : next.dispatcher.scheduler = r.dispatcher.scheduler →
      DispatchOnly next.dispatcher.scheduler := by
    intro hscheduler
    rw [hscheduler]
    exact hplain
  cases hstep with
  | control hnodes | chooses _ hnodes => exact hsame (hnodes none)
  | moves who _ hsteps hlabel =>
      cases who with
      | none => exact hplain.step (Scheduler.move_of_step hsteps.step).2 (hlabel rfl)
      | some worker => exact hsame (hsteps.others none (by simp))
  | returns _ hsteps => exact hplain.step (Scheduler.move_of_step hsteps.step).2 trivial
  | pushes _ _ _ hsteps | writes _ _ hsteps => exact hsame (hsteps.others none (by simp))

theorem dispatchOnly_of_run
    {dispatcherIo : IoState} {workerIo : Fin k → IoState} {fd : NodeId k → Int32}
    {addr : NodeId k → UInt64} {history : List (Runtime Q k × RuntimeLabel Q k)}
    {final : Runtime Q k}
    (hrun : Run Runtime.step (Runtime.initial Q dispatcherIo workerIo fd addr) history final) :
    DispatchOnly final.dispatcher.scheduler := by
  refine hrun.invariant (fun r => DispatchOnly r.dispatcher.scheduler) (.initial _ _ _) ?_
  intro r label next hplain hstep
  exact (move_of_step hstep).dispatchStep.dispatchOnly hplain

end Runtime

/-! ## Any number of dispatches -/

/-- The scheduler of the dispatcher once a client has posted a job. -/
def postedScheduler : Scheduler (runtimeProgram awaitScript) :=
  { Scheduler.initial _ (ringOfDepth 2) 3 64 with
    inbox := [{ id := 0, origin := 0, fn := .dispatch fun _ => .returned }]
    nextPost := 1
    eventfd := 1 }

/-- The thread of the dispatcher at the start of `run`. -/
def runningScheduler : Scheduler (runtimeProgram awaitScript) :=
  { postedScheduler with
    stack := [.run]
    stop := { requested := false, registered := true, called := false } }

/-- The thread is about to take one callable out of the inbox. -/
def Scheduler.takesOne (s : Scheduler (runtimeProgram Q)) : Bool :=
  match s.stack with
  | .swapInbox :: _ => s.inbox.length == 1 && s.crash.isNone && !s.closed
  | _ => false

theorem Scheduler.takesOne_spec
    {s : Scheduler (runtimeProgram Q)} (htakes : s.takesOne = true) :
    (∃ rest, s.stack = .swapInbox :: rest) ∧ s.inbox.length = 1 ∧ s.crash = none ∧
      s.closed = false := by
  unfold takesOne at htakes
  split at htakes
  next rest hstack => exact ⟨⟨rest, hstack⟩, by simpa [and_assoc] using htakes⟩
  next => simp at htakes

/-- A job is posted before `start` creates the threads. -/
theorem exists_run_posted (k : ℕ) :
    ∃ history r, Run Runtime.step (smallRuntime k) history r ∧
      DispatcherAt r [] .fresh 0 ∧ r.dispatcher.scheduler = postedScheduler ∧
      r.dispatcher.thread = .created false := by
  let pushed := (smallRuntime k).setScheduler none
    { postedScheduler with unnotified := [0], eventfd := 0 }
  let posted := (smallRuntime k).setScheduler none postedScheduler
  let starting := { posted with caller := .starting (Runtime.startOrder k) }
  have hpushed : (smallRuntime k).step (.post fun _ => .returned) = some pushed := rfl
  have hposted : pushed.step (.posted 0) = some posted := rfl
  have hcall : posted.step .callStart = some starting := rfl
  have hat : DispatcherAt starting [] .fresh 0 := by
    refine ⟨rfl, ?_, ?_, rfl, rfl, rfl⟩ <;> intro who <;> cases who <;> rfl
  obtain ⟨history, r, hrun, hcrash, hsame, hnodes, hthreads⟩ :=
    Runtime.exists_run_start (r := starting) rfl rfl
  exact ⟨_, r, (((Run.nil.snoc hpushed).snoc hposted).snoc hcall).trans hrun,
    hat.congr hcrash hnodes hsame, hnodes none,
    hthreads none (.inl (by simp [Runtime.startOrder]))⟩

/-- The thread of the dispatcher reads the eventfd and is about to take the inbox. -/
theorem exists_run_awake (k : ℕ) :
    ∃ history r rest, Run Runtime.step (smallRuntime k) history r ∧
      DispatcherAt r (.swapInbox :: rest) .fresh 0 ∧
      r.dispatcher.scheduler.inbox.length = 1 := by
  obtain ⟨history, r, hrun, hat, hscheduler, hthread⟩ := exists_run_posted k
  let called := r.setScheduler none runningScheduler
  let running := called.setThread none .running
  have hcall : postedScheduler.step (.callRun false) = some runningScheduler := rfl
  have hstarts : r.step (.threadStarts none) = some running := by
    simp [Runtime.step, Runtime.schedulerStep, hat.crash, hthread, hscheduler, hcall, running,
      called]
  have hcalled : DispatcherAt called [.run] .fresh 0 :=
    hat.setScheduler rfl rfl (fun _ => rfl) (by simp)
  have hrunning : DispatcherAt running [.run] .fresh 0 :=
    hcalled.congr hcalled.crash (fun who => called.setThread_scheduler none who .running)
      ⟨rfl, rfl, rfl⟩
  have hreplay : (replay Scheduler.step Runtime.drivesAlone runningScheduler
      [.runner true, .runner true, .enter 1, .complete 0 8, .runner true, .runner true,
        .runner true]).any Scheduler.takesOne = true := by decide +kernel
  obtain ⟨s, hreplayed, htakes⟩ := (Option.any_eq_true _ _).mp hreplay
  obtain ⟨⟨rest, hstack⟩, hinbox, hcrash, haccepts⟩ := Scheduler.takesOne_spec htakes
  obtain ⟨drives, hdrives⟩ := Runtime.exists_run_drives hrunning.crash hreplayed
  exact ⟨_, running.setScheduler none s, rest, (hrun.snoc hstarts).trans hdrives,
    hrunning.setScheduler hcrash haccepts (fun _ => hstack) (by simp), hinbox⟩

theorem exists_run_dispatching
    (hworkers : 0 < k) (n : ℕ) :
    ∃ history final, Run Runtime.step (smallRuntime k) history final ∧
      final.crash = none ∧ final.phase = .fresh ∧ final.sent.length = n := by
  cases n with
  | zero => exact ⟨[], smallRuntime k, .nil, rfl, rfl, rfl⟩
  | succ n =>
      obtain ⟨_, awake, rest, hawake, hat, hone⟩ := exists_run_awake k
      obtain ⟨_, posted, hposted, hat, hinbox⟩ := hat.exists_run_post (fun _ => .returned) n
      obtain ⟨taken, hswap, hat⟩ := hat.swap
      have hrun := (hawake.trans hposted).snoc hswap
      have hbatch := (Runtime.dispatchOnly_of_run hrun).plain_of_top hat.stack
      obtain ⟨_, final, hfinal, hat⟩ := hat.exists_run_batch hbatch hworkers
      refine ⟨_, final, hrun.trans hfinal, hat.crash, hat.phase, ?_⟩
      rw [hat.sent, hinbox, hone, Nat.zero_add, Nat.add_comm]

end SlimCommonIo
