import SlimCommonIo.FrameSteps
import SlimCommonIo.InboxTrail
import SlimCommonIo.RuntimeMoves

/-!
# Dispatch of jobs to workers

The dispatcher's scheduler runs nothing but the callables of `Runtime::post`,
so its trail is the list of jobs posted to the runtime.  Each of them is pushed
into the inbox of one worker before the next one is invoked, and a worker's
trail keeps the order of the pushes.
-/

namespace SlimCommonIo

variable {Q : Program} {k : ℕ}

/-! ## The dispatcher's scheduler -/

def Posted.IsDispatch (entry : Posted (runtimeProgram Q)) : Prop :=
  ∃ job, entry.fn = .dispatch job

/-- Activations of a scheduler which runs callables of `Runtime::post` only. -/
def Activation.Plain : Activation (runtimeProgram Q) → Prop
  | .run | .shutdown | .reap | .drain _ | .swapInbox => True
  | .drainInbox batch => ∀ entry ∈ batch, entry.IsDispatch
  | .job entry code => entry.IsDispatch ∧ code = entry.fn
  | _ => False

/-- What other threads and the stopping thread may do with the dispatcher. -/
def Label.ForDispatcher : Label (runtimeProgram Q) → Prop
  | .enqueue job => ∃ wrapped, job = .dispatch wrapped
  | .callSpawn _ | .callResume _ | .callDestroy => False
  | _ => True

/-- The callable of `Runtime::post` on top of the stack. -/
def Scheduler.executing (s : Scheduler (runtimeProgram Q)) :
    Option (Posted (runtimeProgram Q) × (ℕ → Q.Job)) :=
  match s.stack with
  | .job entry (.dispatch job) :: _ => some (entry, job)
  | _ => none

/-- No coroutine exists, and every callable is one of `Runtime::post`. -/
structure DispatchOnly (s : Scheduler (runtimeProgram Q)) : Prop where
  frames : ∀ id, s.heap.frames id = none
  inbox : ∀ entry ∈ s.inbox, entry.IsDispatch
  stack : ∀ act ∈ s.stack, act.Plain

namespace DispatchOnly

variable {s next : Scheduler (runtimeProgram Q)} {label : Label (runtimeProgram Q)}

theorem initial (io : IoState) (fd : Int32) (addr : UInt64) :
    DispatchOnly (Scheduler.initial (runtimeProgram Q) io fd addr) := by
  constructor <;> simp [Scheduler.initial, Heap.empty]

theorem job_eq_ret
    (hplain : DispatchOnly s) {entry : Posted (runtimeProgram Q)}
    {code : (runtimeProgram Q).Job} {rest : List (Activation (runtimeProgram Q))}
    (hstack : s.stack = .job entry code :: rest) :
    (∃ job, entry.fn = .dispatch job ∧ code = .dispatch job) ∧
      (runtimeProgram Q).job code = .ret := by
  obtain ⟨⟨job, hfn⟩, hcode⟩ := hplain.stack (.job entry code) (by simp [hstack])
  subst hcode
  exact ⟨⟨job, hfn, hfn⟩, by rw [hfn]; rfl⟩

theorem plain_of_top
    (hplain : DispatchOnly s) {act : Activation (runtimeProgram Q)}
    {rest : List (Activation (runtimeProgram Q))} (hstack : s.stack = act :: rest) :
    act.Plain :=
  hplain.stack act (by simp [hstack])

theorem frames_ne
    (hplain : DispatchOnly s) {id : FrameId} {frame : Frame (runtimeProgram Q)} :
    s.heap.frames id ≠ some frame := by
  simp [hplain.frames]

theorem not_callsSpawn
    (hplain : DispatchOnly s) (hlabel : label.ForDispatcher)
    {body : (runtimeProgram Q).Code} {below : List (Activation (runtimeProgram Q))} :
    ¬ Scheduler.CallsSpawn s label body below := by
  intro hcall
  cases hcall with
  | job hstack hcode => simp [(hplain.job_eq_ret hstack).2] at hcode
  | coroutine _ hframe _ => simp [hplain.frames] at hframe
  | client _ _ => exact hlabel

theorem not_throwing (hplain : DispatchOnly s) : s.throwing = false := by
  unfold Scheduler.throwing
  split
  next entry code rest hstack => simp [(hplain.job_eq_ret hstack).2]
  next => rfl

theorem exchange
    (hplain : DispatchOnly s) {act : Activation (runtimeProgram Q)}
    (top : List (Activation (runtimeProgram Q)))
    {rest : List (Activation (runtimeProgram Q))}
    (hstack : s.stack = act :: rest) (hnext : next.stack = top ++ rest)
    (hheap : s.heap.Remains next.heap) (hinbox : next.inbox = s.inbox)
    (htop : act.Plain → ∀ new ∈ top, new.Plain) : DispatchOnly next := by
  have hold := hplain.stack
  rw [hstack, List.forall_mem_cons] at hold
  refine ⟨?_, by rw [hinbox]; exact hplain.inbox, ?_⟩
  · intro id
    rcases hheap.frames id with hnone | hsame
    · exact hnone
    · rw [hsame, hplain.frames]
  · rw [hnext]
    intro new hnew
    rcases List.mem_append.mp hnew with hin | hin
    · exact htop hold.1 new hin
    · exact hold.2 new hin

/-- Steps which leave frames and inbox alone, from an empty stack or on the same. -/
theorem congr
    (hplain : DispatchOnly s) (hheap : s.heap.Remains next.heap)
    (hinbox : next.inbox = s.inbox) (hstack : ∀ act ∈ next.stack, act.Plain) :
    DispatchOnly next := by
  refine ⟨?_, by rw [hinbox]; exact hplain.inbox, hstack⟩
  intro id
  rcases hheap.frames id with hnone | hsame
  · exact hnone
  · rw [hsame, hplain.frames]

theorem step
    (hplain : DispatchOnly s) (hmove : Scheduler.Move s label next)
    (hlabel : label.ForDispatcher) : DispatchOnly next := by
  cases hmove with
  | leaveRun hstack _ | leaveShutdown hstack _ | endLoop hstack | endInbox hstack
  | endJob hstack _ =>
      exact hplain.exchange [] hstack rfl (.refl _) rfl (by simp)
  | reap hstack =>
      exact hplain.exchange [] hstack rfl (.foldl_erase _ _) rfl (by simp)
  | loopRun hstack _ =>
      exact hplain.exchange [.drain .start, .reap, .run] hstack rfl (.refl _) rfl
        (by simp [Activation.Plain])
  | loopShutdown hstack _ =>
      exact hplain.exchange [.drain .start, .reap, .shutdown] hstack rfl (.refl _) rfl
        (by simp [Activation.Plain])
  | armedStart hstack _ | arm hstack _ | enter hstack _ _ _ | wake hstack _ | scan hstack
  | handleNull hstack _ _ | handleDangling hstack _ _ _ | resumed hstack
  | inboxDone hstack =>
      exact hplain.exchange [.drain _] hstack rfl (.refl _) rfl (by simp [Activation.Plain])
  | handleSentinel hstack _ _ =>
      exact hplain.exchange [.swapInbox, .drain _] hstack rfl (.refl _) rfl
        (by simp [Activation.Plain])
  | swapInbox hstack =>
      have hold := hplain.stack
      rw [hstack, List.forall_mem_cons] at hold
      exact ⟨hplain.frames, by simp, List.forall_mem_cons.mpr ⟨hplain.inbox, hold.2⟩⟩
  | @invoke _ rest entry batch hstack =>
      refine hplain.exchange [.job entry entry.fn, .drainInbox batch] hstack rfl (.refl _) rfl ?_
      intro hbatch
      simp only [List.forall_mem_cons]
      exact ⟨⟨hbatch entry (by simp), rfl⟩, fun other hother => hbatch other (by simp [hother]),
        by simp⟩
  | enqueue _ =>
      refine ⟨hplain.frames, ?_, hplain.stack⟩
      intro entry hentry
      simp only [Scheduler.pushInbox, List.mem_append, List.mem_singleton] at hentry
      rcases hentry with hold | rfl
      · exact hplain.inbox entry hold
      · exact hlabel
  | dropTask _ => exact hplain.congr (.destroyFrom _ _ _) rfl hplain.stack
  | complete _ _ _ | notify _ | requestStop _ _ | stopCallback _ _ _ | foreignRefusal _ =>
      exact hplain.congr (.refl _) rfl hplain.stack
  | callRun _ _ | callShutdown _ _ =>
      exact hplain.congr (.refl _) rfl (by simp [Activation.Plain])
  | callResume _ _ | callDestroy _ _ _ | callDestroyBusy _ _ _ => exact absurd hlabel id
  | handleAwaitable _ _ _ hsome _ _ _ _ _ | effect _ hsome _ | refused _ hsome _ _ _
  | stage _ hsome _ _ _ | awaitTask _ hsome _ => exact absurd hsome hplain.frames_ne
  | endRoot hends _ | endInner hends _ _ | endAstray hends _ _ =>
      exact absurd hends.frame hplain.frames_ne
  | requeue hstack hcode | escape hstack hcode =>
      simp [(hplain.job_eq_ret hstack).2] at hcode
  | post hcall =>
      cases hcall with
      | job hstack hcode => simp [(hplain.job_eq_ret hstack).2] at hcode
      | coroutine _ hsome _ => exact absurd hsome hplain.frames_ne
  | spawnFull hcall _ _ | spawnStart hcall _ => exact absurd hcall (hplain.not_callsSpawn hlabel)
  | destructor hstack | eventfdWrite hstack | spawnRefused hstack _ _
  | spawnAccepted hstack _ _ | spawnBadAlloc hstack _ _ | astray hstack _ =>
      exact absurd (hplain.plain_of_top hstack) id

end DispatchOnly

namespace Scheduler

variable {s next : Scheduler (runtimeProgram Q)} {label : Label (runtimeProgram Q)}

/-- What a step does to the callable being executed. -/
inductive ExecutingStep (s : Scheduler (runtimeProgram Q)) (label : Label (runtimeProgram Q))
    (next : Scheduler (runtimeProgram Q)) : Prop
  | same (hexecuting : next.executing = s.executing) (hinvoked : next.invoked = s.invoked)
      (hrunner : s.executing ≠ none → label.isRunner = false)
  | returns (hbefore : s.executing ≠ none) (hafter : next.executing = none)
      (hinvoked : next.invoked = s.invoked) (hlabel : label.isRunner = true)
  | invokes (entry : Posted (runtimeProgram Q)) (job : ℕ → Q.Job)
      (hbefore : s.executing = none) (hafter : next.executing = some (entry, job))
      (hfn : entry.fn = .dispatch job) (hinvoked : next.invoked = s.invoked ++ [entry])

theorem executing_eq_none
    (htop : ∀ entry code rest, s.stack ≠ .job entry code :: rest) : s.executing = none := by
  unfold executing
  split
  next entry job rest hstack => exact absurd hstack (htop entry _ rest)
  next => rfl

theorem ExecutingStep.of_idle
    (hbefore : ∀ entry code rest, s.stack ≠ .job entry code :: rest)
    (hafter : ∀ entry code rest, next.stack ≠ .job entry code :: rest)
    (hinvoked : next.invoked = s.invoked) : ExecutingStep s label next := by
  have hnone := executing_eq_none hbefore
  refine .same ?_ hinvoked (fun hsome => absurd hnone hsome)
  rw [executing_eq_none hafter, hnone]

theorem Move.executingStep
    (hmove : Move s label next) (hplain : DispatchOnly s) (hlabel : label.ForDispatcher)
    (hwell : WellStacked s.stack) : ExecutingStep s label next := by
  cases hmove with
  | leaveRun hstack _ =>
      rw [hstack] at hwell
      have hnil := hwell.1
      exact .of_idle (by simp [hstack]) (by simp [show _ = [] from hnil]) rfl
  | leaveShutdown hstack _ =>
      rw [hstack] at hwell
      refine .of_idle (by simp [hstack]) ?_ rfl
      rcases hwell.1 with rfl | rfl <;> simp
  | reap hstack =>
      rw [hstack] at hwell
      obtain ⟨below, rfl | rfl⟩ := hwell.1
      · exact .of_idle (by simp [hstack]) (by simp [Scheduler.reap]) rfl
      · exact .of_idle (by simp [hstack]) (by simp [Scheduler.reap]) rfl
  | endLoop hstack =>
      rw [hstack] at hwell
      obtain ⟨below, rfl⟩ := hwell.1
      exact .of_idle (by simp [hstack]) (by simp) rfl
  | endInbox hstack =>
      rw [hstack] at hwell
      obtain ⟨current, tail, below, rfl⟩ := hwell.1
      exact .of_idle (by simp [hstack]) (by simp) rfl
  | loopRun hstack _ | loopShutdown hstack _ | armedStart hstack _ | arm hstack _
  | enter hstack _ _ _ | wake hstack _ | scan hstack | handleNull hstack _ _
  | handleDangling hstack _ _ _ | resumed hstack | inboxDone hstack
  | handleSentinel hstack _ _ | swapInbox hstack =>
      exact .of_idle (by simp [hstack]) (by simp) rfl
  | @endJob _ rest entry code hstack hcode =>
      obtain ⟨⟨job, -, rfl⟩, -⟩ := hplain.job_eq_ret hstack
      rw [hstack] at hwell
      obtain ⟨batch, below, rfl⟩ := hwell.1
      exact .returns (by simp [executing, hstack]) (executing_eq_none (by simp)) rfl
        rfl
  | @invoke _ rest entry batch hstack =>
      obtain ⟨job, hfn⟩ := hplain.plain_of_top hstack entry (by simp)
      refine .invokes entry job (executing_eq_none (by simp [hstack])) ?_ hfn ?_
      · simp [executing, hfn]
      · simp [invoked, Event.invokedEntry]
  | enqueue _ | dropTask _ | complete _ _ _ | notify _ | requestStop _ _ | stopCallback _ _ _
  | foreignRefusal _ => exact .same rfl rfl fun _ => rfl
  | callRun hstack _ | callShutdown hstack _ =>
      exact .of_idle (by simp [hstack]) (by simp) rfl
  | callResume _ _ | callDestroy _ _ _ | callDestroyBusy _ _ _ => exact absurd hlabel id
  | handleAwaitable _ _ _ hsome _ _ _ _ _ | effect _ hsome _ | refused _ hsome _ _ _
  | stage _ hsome _ _ _ | awaitTask _ hsome _ => exact absurd hsome hplain.frames_ne
  | endRoot hends _ | endInner hends _ _ | endAstray hends _ _ =>
      exact absurd hends.frame hplain.frames_ne
  | requeue hstack hcode | escape hstack hcode =>
      simp [(hplain.job_eq_ret hstack).2] at hcode
  | post hcall =>
      cases hcall with
      | job hstack hcode => simp [(hplain.job_eq_ret hstack).2] at hcode
      | coroutine _ hsome _ => exact absurd hsome hplain.frames_ne
  | spawnFull hcall _ _ | spawnStart hcall _ => exact absurd hcall (hplain.not_callsSpawn hlabel)
  | destructor hstack | eventfdWrite hstack | spawnRefused hstack _ _
  | spawnAccepted hstack _ _ | spawnBadAlloc hstack _ _ | astray hstack _ =>
      exact absurd (hplain.plain_of_top hstack) id

end Scheduler

/-! ## Steps of the runtime, as far as jobs are concerned -/

namespace Runtime

/-- The state of the dispatch itself is left alone. -/
structure SameDispatch (r next : Runtime Q k) : Prop where
  nextWorker : next.nextWorker = r.nextWorker
  sent : next.sent = r.sent
  phase : next.phase = r.phase

structure Steps (r next : Runtime Q k) (who : NodeId k)
    (label : Label (runtimeProgram Q)) : Prop where
  step : (r.node who).scheduler.step label = some (next.node who).scheduler
  others : ∀ other, other ≠ who → (next.node other).scheduler = (r.node other).scheduler

/-- The effect of a step on schedulers, counter and the record of sent jobs. -/
inductive DispatchStep (r : Runtime Q k) (action : RuntimeLabel Q k) (next : Runtime Q k) : Prop
  | control (hnodes : ∀ who, (next.node who).scheduler = (r.node who).scheduler)
      (hsame : SameDispatch r next)
  | moves (who : NodeId k) (label : Label (runtimeProgram Q)) (hsteps : Steps r next who label)
      (hlabel : who = none → label.ForDispatcher)
      (hpush : ∀ job, label = .enqueue job → ∃ wrapped, action = .post wrapped)
      (hbusy : who = none → r.dispatching ≠ none → label.isRunner = false)
      (hsame : SameDispatch r next)
  | returns (allocated : Bool) (hsteps : Steps r next none (.runner allocated))
      (hdispatching : r.dispatching ≠ none) (hphase : r.phase = .written)
      (hfresh : next.phase = .fresh) (hcounter : next.nextWorker = r.nextWorker)
      (hsent : next.sent = r.sent)
  | chooses (hworkers : 0 < k)
      (hnodes : ∀ who, (next.node who).scheduler = (r.node who).scheduler)
      (hdispatching : r.dispatching ≠ none) (hphase : r.phase = .fresh)
      (hchosen : next.phase = .chosen ⟨r.nextWorker.toNat % k, Nat.mod_lt _ hworkers⟩)
      (hcounter : next.nextWorker = r.nextWorker + 1) (hsent : next.sent = r.sent)
  | pushes (entry : Posted (runtimeProgram Q)) (job : ℕ → Q.Job) (worker : Fin k)
      (hsteps : Steps r next (some worker) (.enqueue (.client (job worker))))
      (hdispatching : r.dispatching = some (entry, job)) (hphase : r.phase = .chosen worker)
      (hpushed : ∃ id, next.phase = .pushed worker id)
      (hcounter : next.nextWorker = r.nextWorker)
      (hsent : next.sent = r.sent ++ [(worker, (r.workers worker).scheduler.nextPost)])
  | writes (worker : Fin k) (id : ℕ) (hsteps : Steps r next (some worker) (.notify id))
      (hdispatching : r.dispatching ≠ none) (hphase : r.phase = .pushed worker id)
      (hwritten : next.phase = .written) (hcounter : next.nextWorker = r.nextWorker)
      (hsent : next.sent = r.sent)

theorem steps_of_setScheduler
    {r next : Runtime Q k} {who : NodeId k} {label : Label (runtimeProgram Q)}
    {s : Scheduler (runtimeProgram Q)} (hstep : (r.node who).scheduler.step label = some s)
    (hnodes : ∀ other, (next.node other).scheduler =
      ((r.setScheduler who s).node other).scheduler) :
    Steps r next who label := by
  constructor
  · rw [hnodes, setScheduler, setNode_node_self, hstep]
  · intro other hother
    rw [hnodes, setScheduler, setNode_node_of_ne r hother]

theorem setThread_scheduler
    (r : Runtime Q k) (who other : NodeId k) (thread : ThreadState) :
    ((r.setThread who thread).node other).scheduler = (r.node other).scheduler := by
  by_cases hother : other = who
  · rw [hother, setThread, setNode_node_self]
  · rw [setThread, setNode_node_of_ne r hother]

theorem forDispatcher_of_isInternal
    {label : Label (runtimeProgram Q)} (hinternal : label.isInternal = true) :
    label.ForDispatcher ∧ ∀ job, label ≠ .enqueue job := by
  cases label <;> simp_all [Label.isInternal, Label.ForDispatcher]

theorem Move.dispatchStep
    {r next : Runtime Q k} {label : RuntimeLabel Q k} (hmove : Move r label next) :
    DispatchStep r label next := by
  cases hmove with
  | @post job s hstep =>
      exact .moves none (.enqueue (.dispatch job)) (steps_of_setScheduler hstep fun _ => rfl)
        (fun _ => ⟨job, rfl⟩) (fun _ _ => ⟨job, rfl⟩) (by simp [Label.isRunner])
        ⟨setNode_nextWorker r _ _, setNode_sent r _ _, setNode_phase r _ _⟩
  | @posted id s hstep =>
      exact .moves none (.notify id) (steps_of_setScheduler hstep fun _ => rfl)
        (fun _ => trivial) (by simp) (by simp [Label.isRunner])
        ⟨setNode_nextWorker r _ _, setNode_sent r _ _, setNode_phase r _ _⟩
  | drives hinternal hbusy hstep =>
      obtain ⟨hlabel, hpush⟩ := forDispatcher_of_isInternal hinternal
      exact .moves _ _ (steps_of_setScheduler hstep fun _ => rfl) (fun _ => hlabel)
        (fun job heq => absurd heq (hpush job)) hbusy
        ⟨setNode_nextWorker r _ _, setNode_sent r _ _, setNode_phase r _ _⟩
  | @returns allocated s hdispatching hphase hstep =>
      have hsteps : Steps r { r.setScheduler none s with phase := .fresh } none
          (.runner allocated) := steps_of_setScheduler hstep fun who => by cases who <;> rfl
      exact .returns _ hsteps hdispatching hphase rfl rfl rfl
  | leavesStop hbusy _ _ hstep =>
      exact .moves _ _ (steps_of_setScheduler hstep fun who => by cases who <;> rfl)
        (fun _ => trivial) (by simp) (fun hwho hsome => absurd (hbusy hwho) hsome)
        ⟨setNode_nextWorker r _ _, setNode_sent r _ _, setNode_phase r _ _⟩
  | threadStarts _ hstep =>
      refine .moves _ _ (steps_of_setScheduler hstep fun other => setThread_scheduler _ _ other _)
        (fun _ => trivial) (by simp) (by simp [Label.isRunner]) ?_
      constructor <;> simp [setThread, setScheduler]
  | threadEnds _ _ =>
      exact .control (fun other => r.setThread_scheduler _ other _)
        ⟨setNode_nextWorker r _ _, setNode_sent r _ _, setNode_phase r _ _⟩
  | chooses hdispatching hphase hworkers =>
      exact .chooses hworkers (fun who => by cases who <;> rfl) (by simp [hdispatching])
        hphase rfl rfl rfl
  | @pushes entry job worker s hdispatching hphase hstep =>
      have hsteps : Steps r
          { r.setScheduler (some worker) s with
            phase := .pushed worker (r.workers worker).scheduler.nextPost
            sent := r.sent ++ [(worker, (r.workers worker).scheduler.nextPost)] }
          (some worker) (.enqueue (.client (job worker))) :=
        steps_of_setScheduler hstep fun who => by cases who <;> rfl
      exact .pushes entry job worker hsteps hdispatching hphase ⟨_, rfl⟩ rfl rfl
  | @writes entry job worker id s hdispatching hphase hstep =>
      have hsteps : Steps r { r.setScheduler (some worker) s with phase := .written }
          (some worker) (.notify id) :=
        steps_of_setScheduler hstep fun who => by cases who <;> rfl
      exact .writes worker id hsteps (by simp [hdispatching]) hphase rfl rfl rfl
  | createThread _ | requestEarly _ _ =>
      refine .control (fun other => ?_)
        ⟨setNode_nextWorker r _ _, setNode_sent r _ _, setNode_phase r _ _⟩
      rw [← r.setThread_scheduler _ other _]
      cases other <;> rfl
  | requestStop _ hstep | stopCallback _ hstep | shutdown _ hstep =>
      exact .moves _ _ (steps_of_setScheduler hstep fun who => by cases who <;> rfl)
        (fun _ => trivial) (by simp) (by simp [Label.isRunner])
        ⟨setNode_nextWorker r _ _, setNode_sent r _ _, setNode_phase r _ _⟩
  | terminates _ _ | noWorkers _ _ _ | callIgnored _ | callStart _ _ | callStop _ _
  | started _ | pass _ _ | shutDown _ _ | stopped _ =>
      exact .control (fun who => by cases who <;> rfl) ⟨rfl, rfl, rfl⟩

end Runtime

end SlimCommonIo
