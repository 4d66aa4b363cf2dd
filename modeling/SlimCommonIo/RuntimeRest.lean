import SlimCommonIo.RuntimePhases

/-!
# A runtime at rest

When no thread of the runtime and no operation of the kernel can make a step, then no
call of `start` or `stop` is under way; and if the runtime is running, every
thread sleeps in `run`, every job posted has been run and every task is done.
-/

namespace SlimCommonIo

open Transition

variable {Q : Program} {k : ℕ}

/-- A step which a thread inside the runtime takes by itself, or the kernel by
completing an operation it holds. -/
def RuntimeLabel.isProgress : RuntimeLabel Q k → Bool
  | .posted _ | .dispatch | .threadStarts _ | .threadEnds _ | .caller => true
  | .drives _ (.runner _) | .drives _ (.enter _) | .drives _ (.complete _ _) => true
  | _ => false

namespace Scheduler

variable {P : Program} {s next : Scheduler P}

theorem Move.enqueue_eq {job : P.Job} (hmove : Move s (.enqueue job) next) :
    next.unnotified = s.nextPost :: s.unnotified := by
  cases hmove with
  | enqueue _ => rfl
  | wake _ hlabel => simp at hlabel
  | spawnFull hcall _ _ | spawnStart hcall _ => cases hcall

theorem Move.notify_eq {id : ℕ} (hmove : Move s (.notify id) next) :
    next.unnotified = s.unnotified.erase id := by
  cases hmove with
  | notify _ => rfl
  | wake _ hlabel => simp at hlabel
  | spawnFull hcall _ _ | spawnStart hcall _ => cases hcall

/-- The kernel holds nothing it could complete. -/
def KernelIdle (s : Scheduler P) : Prop :=
  ∀ index res, s.step (.complete index res) = none

/-- While the thread sleeps and the kernel can complete nothing, it holds
eventfd reads only and the counter is zero. -/
theorem Blocked.of_kernelIdle
    (hblocked : s.Blocked) (hring : RingInvariant s) (hsentinel : SentinelInvariant s)
    (hcrash : s.crash = none) (hkernel : s.KernelIdle) :
    (∀ sqe ∈ s.io.kernel, sqe.userData = .eventfdBuf) ∧ ¬ s.WakePending := by
  obtain ⟨rest, hstack⟩ := hblocked.waiting
  obtain ⟨hunhandled, hread⟩ :=
    hsentinel.inFlight_of_waiting hring hstack hblocked.cqEmpty
  obtain ⟨n, -, hpow⟩ := hring.completion.geometry.powerOfTwo
  have hpos : 0 < s.io.cq.entries.toNat := hpow ▸ Nat.two_pow_pos n
  have hroom : s.io.cq.hasRoom = true := by
    rw [s.io.cq.hasRoom_iff]
    simpa only [CompletionQueue.unreaped, hblocked.cqEmpty, UInt32.sub_self,
      UInt32.toNat_zero] using hpos
  have hheld : ∀ sqe ∈ s.io.kernel, sqe.userData = .eventfdBuf ∧ s.eventfd = 0 := by
    intro sqe hsqe
    obtain ⟨index, hindex⟩ := List.mem_iff_getElem?.mp hsqe
    have hnone := hkernel index 0
    simp only [step, hcrash, complete, hindex, hroom] at hnone
    by_cases huser : sqe.userData = .eventfdBuf
    · refine ⟨huser, ?_⟩
      by_contra hcounter
      simp [huser, Nat.pos_of_ne_zero hcounter] at hnone
    · simp [huser] at hnone
  refine ⟨fun sqe hsqe => (hheld sqe hsqe).1, ?_⟩
  rintro (hcounter | ⟨cqe, hmem, -⟩)
  · have hzero := (hheld _ hread).2
    omega
  · simp [hunhandled] at hmem

end Scheduler

namespace Runtime

/-- No thread inside the runtime can go on, and no operation can complete. -/
def AtRest (r : Runtime Q k) : Prop :=
  ∀ label, label.isProgress = true → r.step label = none

/-- The numbers a worker's callables have whose push has not been followed by
the eventfd write yet. -/
def unwritten (r : Runtime Q k) (worker : Fin k) : List ℕ :=
  match r.phase with
  | .pushed chosen id => if chosen = worker then [id] else []
  | _ => []

/-- No scheduler is destroyed, and only the dispatcher posts to workers. -/
structure Serving (r : Runtime Q k) : Prop where
  unclosed : ∀ who, (r.node who).scheduler.closed = false
  posting : ∀ worker, (r.workers worker).scheduler.unnotified = r.unwritten worker

variable {r next : Runtime Q k} {action : RuntimeLabel Q k}

theorem steps_of_eq
    {who : NodeId k} {label : Label (runtimeProgram Q)} {s : Scheduler (runtimeProgram Q)}
    (hstep : (r.node who).scheduler.step label = some s)
    (hdispatcher : next.dispatcher = (r.setScheduler who s).dispatcher)
    (hworkers : next.workers = (r.setScheduler who s).workers) : Steps r next who label :=
  steps_of_setScheduler hstep fun other =>
    congrArg Node.scheduler (node_congr hdispatcher hworkers other)

/-- A running thread is inside `run` or has left it. -/
theorem inRun_of_running
    (hlife : Lifecycle r) (hphases : Phases r) {who : NodeId k}
    (hthread : (r.node who).thread = .running) :
    (r.node who).scheduler.stack = [] ∨ Scheduler.InRun (r.node who).scheduler.stack := by
  have hup : (r.node who).Up → Scheduler.InRun (r.node who).scheduler.stack := by
    rintro (hcreated | ⟨-, hinside, -⟩)
    · simp [hthread] at hcreated
    · exact hinside
  have hnotDown : (r.node who).thread.isDown = false := by rw [hthread]; rfl
  have hdown : (r.node who).thread.isDown ≠ true := by simp [hnotDown]
  cases hcaller : r.caller with
  | idle =>
      by_cases hstate : r.state = .running
      · exact .inr (hup (hphases.running hcaller hstate who))
      · exact absurd (hlife.down hcaller hstate who) hdown
  | starting rest =>
      by_cases hwho : who ∈ rest
      · exact absurd ((hlife.starting rest hcaller).2 who hwho) hdown
      · exact .inr (hup (hphases.starting rest hcaller who hwho))
  | stopping rest point =>
      by_cases hwho : who ∈ rest
      · cases rest with
        | nil => simp at hwho
        | cons first rest =>
            rcases List.mem_cons.mp hwho with rfl | hlater
            · have hasked : point = .callback ∨ point = .join →
                  (r.node who).scheduler.stack = [] ∨
                    Scheduler.InRun (r.node who).scheduler.stack := by
                intro hpoint
                rcases hphases.asked who rest point hcaller hpoint with
                  hcreated | hexited | ⟨-, hempty | ⟨hinside, -⟩⟩
                · simp [hthread] at hcreated
                · simp [hthread] at hexited
                · exact .inl hempty
                · exact .inr hinside
              cases point with
              | request => exact .inr (hup (hphases.request who rest hcaller))
              | callback => exact hasked (.inl rfl)
              | join => exact hasked (.inr rfl)
              | shutdown => exact absurd (hlife.joined who rest _ hcaller (.inl rfl)) hdown
              | shuttingDown => exact absurd (hlife.joined who rest _ hcaller (.inr rfl)) hdown
            · exact .inr (hup (hphases.later first rest point hcaller who hlater))
      · exact absurd (hlife.ended rest point hcaller who hwho).1 hdown

/-- No thread is inside a destructor. -/
theorem not_in_destructor
    (hlife : Lifecycle r) (hphases : Phases r) (who : NodeId k)
    (rest : List (Activation (runtimeProgram Q))) :
    (r.node who).scheduler.stack ≠ .destructor :: rest := by
  intro hstack
  have hwell := (hphases.nodes who).wellStacked
  rw [hstack] at hwell
  have hbelow := hwell.1
  simp only [Activation.StandsOn] at hbelow
  subst hbelow
  rcases hlife.active who (by simp [hstack]) with hrunning | ⟨rest, hshutting⟩
  · rcases inRun_of_running hlife hphases hrunning with hempty | hinside
    · simp [hstack] at hempty
    · simp [hstack, Scheduler.InRun] at hinside
  · rcases hlife.shutting who rest hshutting with hbase | ⟨hempty, -⟩
    · simp [hstack, Scheduler.InShutdown] at hbase
    · simp [hstack] at hempty

namespace Serving

theorem initial (dispatcherIo : IoState) (workerIo : Fin k → IoState)
    (fd : NodeId k → Int32) (addr : NodeId k → UInt64) :
    Serving (Runtime.initial Q dispatcherIo workerIo fd addr) := by
  constructor
  · intro who
    cases who <;> rfl
  · intro worker
    rfl

theorem unclosed_step
    (hserving : Serving r) (hlife : Lifecycle r) (hphases : Phases r)
    (hmove : r.Move action next) (who : NodeId k) :
    (next.node who).scheduler.closed = false := by
  have hmoves : ∀ {label : Label (runtimeProgram Q)}, label ≠ .callDestroy →
      (r.node who).scheduler.step label = some (next.node who).scheduler →
      (next.node who).scheduler.closed = false := by
    intro label hlabel hstep
    rcases (Scheduler.move_of_step hstep).2.closed_kept hlabel with hsame | ⟨rest, hstack⟩
    · rw [hsame, hserving.unclosed who]
    · exact absurd hstack (not_in_destructor hlife hphases who rest)
  cases hmove.nodeStep who with
  | same hnode => rw [hnode, hserving.unclosed who]
  | moves label hcall _ _ _ hstep =>
      refine hmoves ?_ hstep
      rintro rfl
      simp [Label.isCall] at hcall
  | starts _ _ _ hstep | shutdown _ _ _ hstep => exact hmoves (by simp) hstep
  | ends _ _ hnode | created _ _ hnode | askedEarly _ _ _ _ _ hnode =>
      rw [hnode]
      exact hserving.unclosed who

theorem posting_of_steps
    (hserving : Serving r) {who : NodeId k} {label : Label (runtimeProgram Q)}
    (hsteps : Steps r next who label)
    (henqueue : ∀ worker, who = some worker → ∀ job, label ≠ .enqueue job)
    (hnotify : ∀ worker, who = some worker → ∀ id, label ≠ .notify id)
    (hphase : ∀ worker, next.unwritten worker = r.unwritten worker) (worker : Fin k) :
    (next.workers worker).scheduler.unnotified = next.unwritten worker := by
  rw [hphase, ← hserving.posting worker]
  by_cases hwho : some worker = who
  · subst hwho
    exact (Scheduler.move_of_step hsteps.step).2.unnotified_kept (henqueue worker rfl)
      (hnotify worker rfl)
  · exact congrArg Scheduler.unnotified (hsteps.others (some worker) hwho)

/-- The push and the write of the dispatcher's callable. -/
theorem posting_of_dispatch
    (hserving : Serving r) {chosen : Fin k} {label : Label (runtimeProgram Q)}
    (hsteps : Steps r next (some chosen) label)
    (hbefore : ∀ worker, worker ≠ chosen → r.unwritten worker = [])
    (hafter : ∀ worker, worker ≠ chosen → next.unwritten worker = [])
    (hchosen : (next.workers chosen).scheduler.unnotified = next.unwritten chosen)
    (worker : Fin k) : (next.workers worker).scheduler.unnotified = next.unwritten worker := by
  by_cases hworker : worker = chosen
  · exact hworker ▸ hchosen
  · rw [hafter worker hworker, ← hbefore worker hworker, ← hserving.posting worker]
    exact congrArg Scheduler.unnotified (hsteps.others (some worker) (by simp [hworker]))

theorem not_posting_of_isInternal
    {label : Label (runtimeProgram Q)} (hinternal : label.isInternal = true) :
    (∀ job, label ≠ .enqueue job) ∧ ∀ id, label ≠ .notify id := by
  cases label <;> simp_all [Label.isInternal]

theorem posting_step
    (hserving : Serving r) (hmove : r.Move action next) (worker : Fin k) :
    (next.workers worker).scheduler.unnotified = next.unwritten worker := by
  have hnodes : (∀ who, (next.node who).scheduler = (r.node who).scheduler) →
      next.unwritten worker = r.unwritten worker →
      (next.workers worker).scheduler.unnotified = next.unwritten worker := by
    intro hsame hphase
    rw [hphase, ← hserving.posting worker]
    exact congrArg Scheduler.unnotified (hsame (some worker))
  cases hmove with
  | @post job s hstep =>
      have hsteps : Steps r (r.setScheduler none s) none (.enqueue (.dispatch job)) :=
        steps_of_eq hstep rfl rfl
      exact hserving.posting_of_steps hsteps (by simp) (by simp)
        (fun _ => by simp [unwritten, setScheduler]) worker
  | @posted id s hstep =>
      have hsteps : Steps r (r.setScheduler none s) none (.notify id) :=
        steps_of_eq hstep rfl rfl
      exact hserving.posting_of_steps hsteps (by simp) (by simp)
        (fun _ => by simp [unwritten, setScheduler]) worker
  | drives hinternal _ hstep =>
      obtain ⟨henqueue, hnotify⟩ := not_posting_of_isInternal hinternal
      exact hserving.posting_of_steps (steps_of_setScheduler hstep fun _ => rfl)
        (fun _ _ => henqueue) (fun _ _ => hnotify)
        (fun _ => by simp [unwritten, setScheduler]) worker
  | @returns allocated s _ hphase hstep =>
      have hsteps : Steps r { r.setScheduler none s with phase := .fresh } none
          (.runner allocated) := steps_of_eq hstep rfl rfl
      exact hserving.posting_of_steps hsteps (by simp) (by simp)
        (fun _ => by simp [unwritten, hphase]) worker
  | @leavesStop who allocated s _ _ _ hstep =>
      have hsteps : Steps r { r.setScheduler who s with caller := .idle } who
          (.runner allocated) := steps_of_eq hstep rfl rfl
      exact hserving.posting_of_steps hsteps (by simp) (by simp)
        (fun _ => by simp [unwritten, setScheduler]) worker
  | threadStarts _ hstep =>
      exact hserving.posting_of_steps
        (steps_of_setScheduler hstep fun other => setThread_scheduler _ _ other _)
        (by simp) (by simp) (fun _ => by simp [unwritten, setThread, setScheduler]) worker
  | @pushes entry job chosen s _ hphase hstep =>
      have hsteps : Steps r
          { r.setScheduler (some chosen) s with
            phase := .pushed chosen (r.workers chosen).scheduler.nextPost
            sent := r.sent ++ [(chosen, (r.workers chosen).scheduler.nextPost)] }
          (some chosen) (.enqueue (.client (job chosen))) := steps_of_eq hstep rfl rfl
      refine hserving.posting_of_dispatch hsteps ?_ ?_ ?_ worker
      · simp [unwritten, hphase]
      · intro other hother
        simp [unwritten, hother.symm]
      · have hbefore := hserving.posting chosen
        simp only [unwritten, hphase] at hbefore
        have hafter := (Scheduler.move_of_step hsteps.step).2.enqueue_eq
        refine hafter.trans ?_
        simp only [node_some, hbefore, unwritten, if_true]
  | @writes entry job chosen id s _ hphase hstep =>
      have hsteps : Steps r { r.setScheduler (some chosen) s with phase := .written }
          (some chosen) (.notify id) := steps_of_eq hstep rfl rfl
      refine hserving.posting_of_dispatch hsteps ?_ ?_ ?_ worker
      · intro other hother
        simp [unwritten, hphase, hother.symm]
      · simp [unwritten]
      · have hbefore := hserving.posting chosen
        simp only [unwritten, hphase, if_true] at hbefore
        have hafter := (Scheduler.move_of_step hsteps.step).2.notify_eq
        refine hafter.trans ?_
        simp [hbefore, unwritten]
  | @requestStop who rest s _ hstep =>
      have hsteps : Steps r
          { r.setScheduler who s with caller := .stopping (who :: rest) .callback } who
          .requestStop := steps_of_eq hstep rfl rfl
      exact hserving.posting_of_steps hsteps (by simp) (by simp)
        (fun _ => by simp [unwritten, setScheduler]) worker
  | @stopCallback who rest s _ hstep =>
      have hsteps : Steps r
          { r.setScheduler who s with caller := .stopping (who :: rest) .join } who
          .stopCallback := steps_of_eq hstep rfl rfl
      exact hserving.posting_of_steps hsteps (by simp) (by simp)
        (fun _ => by simp [unwritten, setScheduler]) worker
  | @shutdown who rest s _ hstep =>
      have hsteps : Steps r
          { r.setScheduler who s with caller := .stopping (who :: rest) .shuttingDown } who
          .callShutdown := steps_of_eq hstep rfl rfl
      exact hserving.posting_of_steps hsteps (by simp) (by simp)
        (fun _ => by simp [unwritten, setScheduler]) worker
  | threadEnds _ _ =>
      exact hnodes (fun other => r.setThread_scheduler _ other _)
        (by simp [unwritten, setThread])
  | @createThread who rest _ =>
      refine hnodes (fun other => ?_) (by simp [unwritten, setThread])
      rw [← r.setThread_scheduler who other (.created false)]
      exact congrArg Node.scheduler (node_congr rfl rfl other)
  | @requestEarly who rest _ _ _ =>
      refine hnodes (fun other => ?_) (by simp [unwritten, setThread])
      rw [← r.setThread_scheduler who other (.created true)]
      exact congrArg Node.scheduler (node_congr rfl rfl other)
  | chooses _ hphase _ =>
      refine hnodes (fun other => congrArg Node.scheduler (node_congr rfl rfl other)) ?_
      simp [unwritten, hphase]
  | terminates _ _ | noWorkers _ _ _ | callIgnored _ | callStart _ _ | callStop _ _
  | started _ | pass _ _ | shutDown _ _ | stopped _ =>
      exact hnodes (fun other => congrArg Node.scheduler (node_congr rfl rfl other)) rfl

end Serving

/-- What the invariants of the runtime say together. -/
structure RuntimeInvariant (r : Runtime Q k) : Prop where
  life : Lifecycle r
  phases : Phases r
  serving : Serving r

theorem RuntimeInvariant.of_run
    {dispatcherIo : IoState} {workerIo : Fin k → IoState} {fd : NodeId k → Int32}
    {addr : NodeId k → UInt64} {history : List (Runtime Q k × RuntimeLabel Q k)}
    {final : Runtime Q k}
    (hrun : Run Runtime.step (Runtime.initial Q dispatcherIo workerIo fd addr) history final)
    (hnormal : ∀ visit ∈ history, ∀ who, (visit.1.node who).scheduler.throwing = false)
    (hcrash : ∀ who, (final.node who).scheduler.crash = none) : RuntimeInvariant final := by
  refine hrun.invariant_of_allowed RuntimeInvariant
    (fun r _ => (∀ who, (r.node who).scheduler.throwing = false) ∧
      ∀ who, (r.node who).scheduler.crash = none) ?_ ?_ ?_
  · exact ⟨.initial _ _ _ _, .initial _ _ _ _, .initial _ _ _ _⟩
  · intro r label next hinv hallowed hstep
    have hmove := move_of_step hstep
    exact
      { life := hinv.life.step hmove hallowed.1
        phases := hinv.phases.step hstep hallowed.1 hallowed.2
        serving :=
          { unclosed := hinv.serving.unclosed_step hinv.life hinv.phases hmove
            posting := hinv.serving.posting_step hmove } }
  · intro visit hvisit
    exact ⟨hnormal visit hvisit, crash_eq_none_of_visit hrun hcrash visit hvisit⟩

/-! ## What can move -/

theorem schedulerStep_isSome
    {who : NodeId k} {label : Label (runtimeProgram Q)} {s : Scheduler (runtimeProgram Q)}
    (hstep : (r.node who).scheduler.step label = some s) :
    r.schedulerStep who label = some (r.setScheduler who s) := by
  rw [schedulerStep, hstep]
  rfl

/-- The next statement of the dispatcher's callable can be executed. -/
theorem dispatchStep_isSome
    (hserving : Serving r) (hcrash : ∀ who, (r.node who).scheduler.crash = none)
    (hdispatching : r.dispatching ≠ none) (hphase : r.phase ≠ .written) :
    r.dispatchStep.isSome = true := by
  obtain ⟨entry, hentry⟩ := Option.ne_none_iff_exists'.mp hdispatching
  unfold dispatchStep
  rw [hentry]
  cases hat : r.phase with
  | fresh => rfl
  | chosen worker =>
      have hopen := hserving.unclosed (some worker)
      have hnone := hcrash (some worker)
      simp only [node_some] at hopen hnone
      simp [schedulerStep, Scheduler.step, hnone, hopen]
  | pushed worker id =>
      have hposting := hserving.posting worker
      have hnone := hcrash (some worker)
      simp only [unwritten, hat, if_true] at hposting
      simp only [node_some] at hnone
      simp [schedulerStep, Scheduler.step, hnone, hposting]
  | written => exact absurd hat hphase

/-- A thread which can go on in its scheduler can go on in the runtime, if need
be after the statements of the dispatcher's callable. -/
theorem drives_or_dispatches
    (hserving : Serving r) (hnone : r.crash = none)
    (hcrash : ∀ who, (r.node who).scheduler.crash = none) {who : NodeId k} {allocated : Bool}
    {s : Scheduler (runtimeProgram Q)}
    (hstep : (r.node who).scheduler.step (.runner allocated) = some s) :
    r.step (.drives who (.runner allocated)) ≠ none ∨ r.step .dispatch ≠ none := by
  have hmoves := schedulerStep_isSome hstep
  by_cases hbusy : who = none ∧ r.dispatching.isSome = true
  · obtain ⟨rfl, hdispatching⟩ := hbusy
    by_cases hphase : r.phase = .written
    · left
      simp [step, hnone, Label.isInternal, drive, Label.isRunner, hdispatching, hphase, hmoves]
    · right
      have hsome := dispatchStep_isSome hserving hcrash
        (Option.isSome_iff_ne_none.mp hdispatching) hphase
      simpa [step, hnone] using Option.isSome_iff_ne_none.mp hsome
  · left
    simp only [step, hnone, Option.isSome_none, Bool.false_eq_true, if_false,
      Label.isInternal, if_true, drive, Label.isRunner, if_neg hbusy]
    split
    · split <;> simp [hmoves]
    · simp [hmoves]

theorem drives_ne_none
    (hnone : r.crash = none) {who : NodeId k} {label : Label (runtimeProgram Q)}
    (hinternal : label.isInternal = true) (hrunner : label.isRunner = false)
    {s : Scheduler (runtimeProgram Q)} (hstep : (r.node who).scheduler.step label = some s) :
    r.step (.drives who label) ≠ none := by
  simp [step, hnone, hinternal, drive, hrunner, schedulerStep_isSome hstep]

/-- A thread which has been created can enter `run`. -/
theorem not_created_of_stuck
    (hinv : RuntimeInvariant r) (hnone : r.crash = none)
    (hcrash : ∀ who, (r.node who).scheduler.crash = none) {who : NodeId k}
    (hstuck : r.step (.threadStarts who) = none) (requested : Bool) :
    (r.node who).thread ≠ .created requested := by
  intro hthread
  have hempty : (r.node who).scheduler.stack = [] := by
    by_contra hactive
    rcases hinv.life.active who hactive with hrunning | ⟨rest, hshutting⟩
    · simp [hthread] at hrunning
    · have hdown := hinv.life.joined who rest _ hshutting (.inr rfl)
      simp [hthread, ThreadState.isDown] at hdown
  simp [step, hnone, hthread, schedulerStep, Scheduler.step, hcrash who, hempty,
    hinv.serving.unclosed who] at hstuck

/-! ## At rest -/

namespace AtRest

variable {who : NodeId k}

/-- At rest every thread is outside of its scheduler or sleeps. -/
theorem blocked
    (hrest : r.AtRest) (hinv : RuntimeInvariant r) (hnone : r.crash = none)
    (hcrash : ∀ who, (r.node who).scheduler.crash = none)
    (hring : RingInvariant (r.node who).scheduler)
    (htop : Scheduler.TopActive (r.node who).scheduler.stack)
    (hstack : (r.node who).scheduler.stack ≠ []) : (r.node who).scheduler.Blocked := by
  rcases Scheduler.canRun_or_canEnter_or_blocked hring htop (hcrash who) hstack with
    ⟨s, hrun⟩ | ⟨accepted, s, henter⟩ | hblocked
  · rcases drives_or_dispatches hinv.serving hnone hcrash hrun with hdrives | hdispatches
    · exact absurd (hrest (.drives who (.runner true)) rfl) hdrives
    · exact absurd (hrest .dispatch rfl) hdispatches
  · exact absurd (hrest (.drives who (.enter accepted)) rfl)
      (drives_ne_none hnone rfl rfl henter)
  · exact hblocked

theorem kernelIdle (hrest : r.AtRest) (hnone : r.crash = none) (who : NodeId k) :
    (r.node who).scheduler.KernelIdle := by
  intro index res
  by_contra hsome
  obtain ⟨s, hstep⟩ := Option.ne_none_iff_exists'.mp hsome
  exact drives_ne_none hnone rfl rfl hstep (hrest (.drives who (.complete index res)) rfl)

/-- No thread has left `run` without ending. -/
theorem stack_ne_nil
    (hrest : r.AtRest) (hnone : r.crash = none) (hthread : (r.node who).thread = .running) :
    (r.node who).scheduler.stack ≠ [] := by
  intro hempty
  have hstep := hrest (.threadEnds who) rfl
  simp [step, hnone, hthread, hempty] at hstep

/-- A thread which `stop` waits for does not sleep. -/
theorem exited_of_asked
    (hrest : r.AtRest) (hinv : RuntimeInvariant r) (hnone : r.crash = none)
    (hcrash : ∀ who, (r.node who).scheduler.crash = none) {fd : Int32} {addr : UInt64}
    (htop : Scheduler.TopActive (r.node who).scheduler.stack)
    (hwake : Scheduler.WakeInvariant fd addr (r.node who).scheduler)
    (hasked : (r.node who).Asked .join) : (r.node who).thread = .exited := by
  rcases hasked with hcreated | hexited | ⟨hrunning, hleft⟩
  · exact absurd hcreated
      (not_created_of_stuck hinv hnone hcrash (hrest (.threadStarts who) rfl) true)
  · exact hexited
  · exfalso
    have hstack := hrest.stack_ne_nil hnone hrunning
    rcases hleft with hempty | ⟨-, -, hcalled⟩
    · exact hstack hempty
    · have hblocked := hrest.blocked hinv hnone hcrash hwake.ring htop hstack
      obtain ⟨below, htopmost⟩ := hblocked.waiting
      have hwaiting : .waiting ∈ drainPoints (r.node who).scheduler.stack := by
        simp [htopmost, drainPoints]
      have hdue := hwake.stop.due (hcalled rfl) (hwake.stop.sleeping hwaiting) .waiting
        hwaiting rfl
      exact (hblocked.of_kernelIdle hwake.ring hwake.sentinel (hcrash who)
        (hrest.kernelIdle hnone who)).2 hdue

/-- A thread inside `shutdown` does not sleep. -/
theorem stack_eq_nil_of_shutting
    (hrest : r.AtRest) (hinv : RuntimeInvariant r) (hnone : r.crash = none)
    (hcrash : ∀ who, (r.node who).scheduler.crash = none) {fd : Int32} {addr : UInt64}
    (htop : Scheduler.TopActive (r.node who).scheduler.stack)
    (hwake : Scheduler.WakeInvariant fd addr (r.node who).scheduler)
    {rest : List (NodeId k)} (hcaller : r.caller = .stopping (who :: rest) .shuttingDown) :
    (r.node who).scheduler.stack = [] := by
  by_contra hstack
  rcases hinv.life.shutting who rest hcaller with hbase | ⟨hempty, -⟩
  · have hblocked := hrest.blocked hinv hnone hcrash hwake.ring htop hstack
    obtain ⟨below, htopmost⟩ := hblocked.waiting
    have hwaiting : .waiting ∈ drainPoints (r.node who).scheduler.stack := by
      simp [htopmost, drainPoints]
    have hup := hwake.stop.sleeping hwaiting
    simp [hwake.stop.shutdown (List.mem_of_getLast? hbase)] at hup
  · exact hstack hempty

theorem caller_eq_idle
    (hrest : r.AtRest) (hinv : RuntimeInvariant r) (hnone : r.crash = none)
    (hcrash : ∀ who, (r.node who).scheduler.crash = none) {fd : NodeId k → Int32}
    {addr : NodeId k → UInt64}
    (htop : ∀ who, Scheduler.TopActive (r.node who).scheduler.stack)
    (hwake : ∀ who, Scheduler.WakeInvariant (fd who) (addr who) (r.node who).scheduler) :
    r.caller = .idle := by
  have hstuck : r.callerStep = none := by
    have hstep := hrest .caller rfl
    simpa [step, hnone] using hstep
  cases hcaller : r.caller with
  | idle => rfl
  | starting rest => cases rest <;> simp [callerStep, hcaller] at hstuck
  | stopping rest point =>
      exfalso
      cases rest with
      | nil => simp [callerStep, hcaller] at hstuck
      | cons who rest =>
          cases point with
          | request => simp [callerStep, hcaller] at hstuck
          | callback => simp [callerStep, hcaller] at hstuck
          | join =>
              have hexited := hrest.exited_of_asked hinv hnone hcrash (htop who) (hwake who)
                (hinv.phases.asked who rest _ hcaller (.inr rfl))
              simp [callerStep, hcaller, hexited] at hstuck
          | shutdown =>
              have hempty := hinv.life.stack_eq_nil
                (Lifecycle.not_running_of_isDown (hinv.life.joined who rest _ hcaller (.inl rfl)))
                (by simp [hcaller])
              simp [callerStep, hcaller, schedulerStep, Scheduler.step, hcrash who, hempty,
                hinv.serving.unclosed who] at hstuck
          | shuttingDown =>
              have hempty := hrest.stack_eq_nil_of_shutting hinv hnone hcrash (htop who)
                (hwake who) hcaller
              simp [callerStep, hcaller, hempty] at hstuck

/-- At rest, while the runtime is running, every thread sleeps in `run`. -/
theorem blocked_of_running
    (hrest : r.AtRest) (hinv : RuntimeInvariant r) (hnone : r.crash = none)
    (hcrash : ∀ who, (r.node who).scheduler.crash = none)
    (hring : RingInvariant (r.node who).scheduler)
    (htop : Scheduler.TopActive (r.node who).scheduler.stack)
    (hidle : r.caller = .idle) (hstate : r.state = .running) :
    (r.node who).thread = .running ∧ (r.node who).scheduler.Blocked := by
  rcases hinv.phases.running hidle hstate who with hcreated | ⟨hrunning, hinside, -⟩
  · exact absurd hcreated
      (not_created_of_stuck hinv hnone hcrash (hrest (.threadStarts who) rfl) false)
  · refine ⟨hrunning, hrest.blocked hinv hnone hcrash hring htop ?_⟩
    rintro hempty
    rw [hempty] at hinside
    exact Scheduler.not_inRun_nil hinside

/-- A thread which sleeps while nothing can move has left no callable in its
inbox and no task undone. -/
theorem inbox_eq_nil
    (hrest : r.AtRest) (hnone : r.crash = none)
    (hcrash : ∀ who, (r.node who).scheduler.crash = none) {fd : Int32} {addr : UInt64}
    (hwake : Scheduler.WakeInvariant fd addr (r.node who).scheduler)
    (hblocked : (r.node who).scheduler.Blocked)
    (hnotified : (r.node who).scheduler.unnotified = []) :
    (r.node who).scheduler.inbox = [] := by
  obtain ⟨below, hstack⟩ := hblocked.waiting
  rw [List.eq_nil_iff_forall_not_mem]
  intro entry hentry
  have hdue := hwake.inbox entry hentry (by simp [hnotified])
  exact (hblocked.of_kernelIdle hwake.ring hwake.sentinel (hcrash who)
    (hrest.kernelIdle hnone who)).2 (hdue.pending (by simp [hstack]) (by simp [hstack]))

theorem done_of_mem_tasks
    (hrest : r.AtRest) (hnone : r.crash = none)
    (hcrash : ∀ who, (r.node who).scheduler.crash = none) {fd : Int32} {addr : UInt64}
    (hwake : Scheduler.WakeInvariant fd addr (r.node who).scheduler)
    (htasks : Scheduler.TaskInvariant (r.node who).scheduler)
    (hblocked : (r.node who).scheduler.Blocked) {task : FrameId}
    (htask : some task ∈ (r.node who).scheduler.tasks) :
    (r.node who).scheduler.heap.done (some task) = true := by
  by_contra hlive
  obtain ⟨id, -, frame, object, stamp, resume, -, -, sqe, hsqe, href⟩ :=
    htasks.leaf_of_blocked hwake.sentinel (hcrash who) hblocked htask (by simpa using hlive)
  have hread := (hblocked.of_kernelIdle hwake.ring hwake.sentinel (hcrash who)
    (hrest.kernelIdle hnone who)).1 sqe hsqe
  have huser := congrArg Ref.userData href
  simp [Sqe.ref, hread] at huser

end AtRest

/-! ## Runs which have come to rest -/

variable {dispatcherIo : IoState} {workerIo : Fin k → IoState} {fd : NodeId k → Int32}
  {addr : NodeId k → UInt64} {history : List (Runtime Q k × RuntimeLabel Q k)}
  {final : Runtime Q k}

theorem schedulers_of_run
    (hrings : FreshRings dispatcherIo workerIo)
    (hrun : Run Runtime.step (Runtime.initial Q dispatcherIo workerIo fd addr) history final)
    (who : NodeId k) :
    Scheduler.TopActive (final.node who).scheduler.stack ∧
      Scheduler.WakeInvariant (fd who) (addr who) (final.node who).scheduler := by
  refine scheduler_of_run hrings hrun who (fun _ _ => True)
    (fun s => Scheduler.TopActive s.stack ∧ Scheduler.WakeInvariant (fd who) (addr who) s)
    (fun _ _ _ _ => trivial) ?_
  intro io hio inner last hinner _
  exact ⟨(Scheduler.ringInvariant_topActive_of_run hio hinner).2, .of_run hio hinner⟩

theorem taskInvariant_of_run
    (hrings : FreshRings dispatcherIo workerIo)
    (hrun : Run Runtime.step (Runtime.initial Q dispatcherIo workerIo fd addr) history final)
    (hroom : ∀ visit ∈ history, visit.1.armsWithRoom visit.2 = true) (who : NodeId k) :
    Scheduler.TaskInvariant (final.node who).scheduler := by
  refine scheduler_of_run hrings hrun who (fun s label => s.armsWithRoom label = true)
    Scheduler.TaskInvariant ?_ ?_
  · exact fun visit hvisit label hacts => armsWithRoom_of_actsOn (hroom visit hvisit) hacts
  · exact fun io hio inner last hinner harms => .of_run hio hinner harms

/-- A dispatcher which sleeps has dispatched its last callable completely. -/
theorem phase_eq_fresh
    (hdispatch : DispatchInvariant r) (hblocked : r.dispatcher.scheduler.Blocked) :
    r.dispatching = none ∧ r.phase = .fresh := by
  obtain ⟨below, hstack⟩ := hblocked.waiting
  have hidle : r.dispatching = none := by simp [dispatching, hstack]
  exact ⟨hidle, hdispatch.dispatcher.idle hidle⟩

theorem unnotified_eq_nil
    (hrest : r.AtRest) (hinv : RuntimeInvariant r) (hnone : r.crash = none)
    (hcrash : ∀ who, (r.node who).scheduler.crash = none) (hphase : r.phase = .fresh)
    (who : NodeId k) : (r.node who).scheduler.unnotified = [] := by
  cases who with
  | none =>
      rw [List.eq_nil_iff_forall_not_mem]
      intro id hid
      have hstep := hrest (.posted id) rfl
      have hup := hcrash none
      simp only [node_none] at hup hid
      simp [step, hnone, schedulerStep, Scheduler.step, hup, hid] at hstep
  | some worker =>
      have hposting := hinv.serving.posting worker
      simpa [unwritten, hphase] using hposting

/-- The stack of a sleeping thread holds no callable. -/
theorem nothing_underway
    {s : Scheduler (runtimeProgram Q)} (hring : RingInvariant s) (hblocked : s.Blocked) :
    underway s.stack = [] ∧ batches s.stack = [] := by
  obtain ⟨below, hstack⟩ := hblocked.waiting
  have hwell := hring.wellStacked
  rw [hstack] at hwell ⊢
  rcases stack_below_drain hwell with rfl | rfl | rfl <;> exact ⟨rfl, rfl⟩

/-- When all threads sleep over empty inboxes, the workers have run all jobs. -/
theorem ranOn_of_blocked
    (hdispatch : DispatchInvariant r) (hbound : r.jobCount < 2 ^ 64)
    (hring : ∀ who, RingInvariant (r.node who).scheduler)
    (hblocked : ∀ who, (r.node who).scheduler.Blocked)
    (hinbox : ∀ who, (r.node who).scheduler.inbox = []) (worker : Fin k) :
    r.ranOn worker = (List.range r.jobCount).filter fun j => j % k = worker := by
  have hnothing : r.undispatched = [] := by
    obtain ⟨-, hbatches⟩ := nothing_underway (hring none) (hblocked none)
    have hempty := hinbox none
    obtain ⟨hidle, hfresh⟩ := phase_eq_fresh hdispatch (hblocked none)
    simp only [node_none] at hbatches hempty
    simp [undispatched, withDispatcher, unpushed, hidle, hfresh, hbatches, hempty]
  have hwaiting : r.waitingAt worker = [] := by
    obtain ⟨hunderway, hbatches⟩ := nothing_underway (hring (some worker))
      (hblocked (some worker))
    have hempty := hinbox (some worker)
    simp only [node_some] at hunderway hbatches hempty
    simp [waitingAt, hunderway, hbatches, hempty]
  have hall := hdispatch.ranOn_append_waitingAt hbound worker
  have hrange := hdispatch.range_jobCount
  rw [hnothing, List.append_nil] at hrange
  rw [hwaiting, List.append_nil, ← hrange] at hall
  exact hall

/-- A running runtime comes to rest only with all its work done: each worker has
run exactly the jobs whose turn was its own, in the order they were posted, every
task its schedulers still hold is done, and every inbox is empty. -/
theorem work_done_at_rest
    {dispatcherIo : IoState} {workerIo : Fin k → IoState} {fd : NodeId k → Int32}
    {addr : NodeId k → UInt64} {history : List (Runtime Q k × RuntimeLabel Q k)}
    {final : Runtime Q k} (hrings : FreshRings dispatcherIo workerIo)
    (hrun : Run Runtime.step (Runtime.initial Q dispatcherIo workerIo fd addr) history final)
    (hnormal : ∀ visit ∈ history, ∀ who, (visit.1.node who).scheduler.throwing = false)
    (hroom : ∀ visit ∈ history, visit.1.armsWithRoom visit.2 = true)
    (hbound : final.jobCount < 2 ^ 64) (hnone : final.crash = none)
    (hcrash : ∀ who, (final.node who).scheduler.crash = none) (hrest : final.AtRest)
    (hstate : final.state = .running) :
    (∀ worker, final.ranOn worker =
      (List.range (jobsPosted history).length).filter fun j => j % k = worker) ∧
    (∀ who task, some task ∈ (final.node who).scheduler.tasks →
      (final.node who).scheduler.heap.done (some task) = true) ∧
    ∀ who, (final.node who).scheduler.inbox = [] := by
  have hinv := RuntimeInvariant.of_run hrun hnormal hcrash
  have hnodes := fun who => schedulers_of_run hrings hrun who
  have hidle := hrest.caller_eq_idle hinv hnone hcrash (fun who => (hnodes who).1)
    (fun who => (hnodes who).2)
  have hblocked : ∀ who, (final.node who).scheduler.Blocked := fun who =>
    (hrest.blocked_of_running hinv hnone hcrash (hnodes who).2.ring (hnodes who).1
      hidle hstate).2
  obtain ⟨hdispatch, hposts⟩ := dispatchInvariant_of_run hrun hnormal
  have hfresh := (phase_eq_fresh hdispatch (hblocked none)).2
  have hinbox : ∀ who, (final.node who).scheduler.inbox = [] := fun who =>
    hrest.inbox_eq_nil hnone hcrash (hnodes who).2 (hblocked who)
      (unnotified_eq_nil hrest hinv hnone hcrash hfresh who)
  refine ⟨?_, ?_, hinbox⟩
  · intro worker
    rw [← (hdispatch.delivered hbound hposts).count]
    exact ranOn_of_blocked hdispatch hbound (fun who => (hnodes who).2.ring) hblocked hinbox
      worker
  · intro who task htask
    exact hrest.done_of_mem_tasks hnone hcrash (hnodes who).2
      (taskInvariant_of_run hrings hrun hroom who) (hblocked who) htask

/-- Sleeping threads over idle rings are at rest. -/
theorem atRest_of_sleeping
    (hcaller : r.caller = .idle) (hnotified : r.dispatcher.scheduler.unnotified = [])
    (hnodes : ∀ who, (r.node who).thread = .running ∧
      .waiting ∈ drainPoints (r.node who).scheduler.stack ∧
      (r.node who).scheduler.io.cq.head = (r.node who).scheduler.io.cq.tail ∧
      (r.node who).scheduler.eventfd = 0 ∧
      ∀ sqe ∈ (r.node who).scheduler.io.kernel, sqe.userData = .eventfdBuf)
    (hwell : ∀ who, WellStacked (r.node who).scheduler.stack) : r.AtRest := by
  have hstack : ∀ who, ∃ rest, (r.node who).scheduler.stack = .drain .waiting :: rest :=
    fun who => waiting_on_top (hwell who) (hnodes who).2.1
  have hidle : r.dispatching = none := by
    obtain ⟨rest, htop⟩ := hstack none
    simp only [node_none] at htop
    simp [dispatching, htop]
  intro label hprogress
  cases label with
  | posted id => simp [step, schedulerStep, Scheduler.step, hnotified]
  | dispatch => simp [step, dispatchStep, hidle]
  | threadStarts who => simp [step, (hnodes who).1]
  | threadEnds who =>
      obtain ⟨rest, htop⟩ := hstack who
      simp [step, htop]
  | caller => simp [step, callerStep, hcaller]
  | drives who label =>
      obtain ⟨rest, htop⟩ := hstack who
      obtain ⟨-, -, hempty, hzero, hreads⟩ := hnodes who
      have hthrows : throwsOther (r.node who).scheduler = false := by simp [throwsOther, htop]
      cases label with
      | runner allocated =>
          simp [step, Label.isInternal, drive, Label.isRunner, hidle, hthrows, schedulerStep,
            Scheduler.step, Scheduler.runnerStep, htop, hempty]
      | enter accepted =>
          simp [step, Label.isInternal, drive, Label.isRunner, schedulerStep, Scheduler.step, htop]
      | complete index res =>
          have hnothing : (r.node who).scheduler.complete index res = none := by
            unfold Scheduler.complete
            cases hindex : (r.node who).scheduler.io.kernel[index]? with
            | none => rfl
            | some sqe =>
                have huser := hreads sqe (List.mem_of_getElem? hindex)
                simp [huser, hzero]
          simp [step, Label.isInternal, drive, Label.isRunner, schedulerStep, Scheduler.step,
            hnothing]
      | _ => simp [RuntimeLabel.isProgress] at hprogress
  | post _ | callStart | callStop => simp [RuntimeLabel.isProgress] at hprogress

end Runtime

/-- The thread of a node, woken by its eventfd read, goes through its inbox; what
happens inside of its callable; then it goes back to sleep. -/
def nodeServes {k : ℕ} (who : NodeId k) (inside : List (RuntimeLabel awaitScript k)) :
    List (RuntimeLabel awaitScript k) :=
  nodeWakes who ++ nodeRuns who 5 ++ inside ++ nodeRuns who 7 ++ [.drives who (.enter 1)]

/-- A job is posted, dispatched and run. -/
def oneJob : List (RuntimeLabel awaitScript 1) :=
  startThenPost ++ nodeServes none [.dispatch, .dispatch, .dispatch] ++
    nodeServes (some ⟨0, Nat.zero_lt_one⟩) []

namespace Runtime

theorem freshRings_small : FreshRings (k := 1) (ringOfDepth 2) fun _ => ringOfDepth 2 :=
  ⟨(ringOfDepth_created 1 (by omega) rfl).toFresh,
    fun _ => (ringOfDepth_created 1 (by omega) rfl).toFresh⟩

theorem oneJob_run :
    ∃ history final, Run Runtime.step (smallRuntime 1) history final ∧
      (∀ visit ∈ history, ∀ who, (visit.1.node who).scheduler.throwing = false) ∧
      (∀ visit ∈ history, visit.1.armsWithRoom visit.2 = true) ∧
      final.AtRest ∧ final.crash = none ∧ (∀ who, (final.node who).scheduler.crash = none) ∧
      final.state = .running ∧ final.jobCount = 1 := by
  have hreplay : (replay Runtime.step
      (fun r l => decide (∀ who, (r.node who).scheduler.throwing = false) && r.armsWithRoom l)
      (smallRuntime 1) oneJob).any
      (fun r => decide (r.crash = none ∧ (∀ who, (r.node who).scheduler.crash = none) ∧
        r.state = .running ∧ r.jobCount = 1 ∧ r.caller = .idle ∧
        r.dispatcher.scheduler.unnotified = [] ∧
        ∀ who, (r.node who).thread = .running ∧
          .waiting ∈ drainPoints (r.node who).scheduler.stack ∧
          (r.node who).scheduler.io.cq.head = (r.node who).scheduler.io.cq.tail ∧
          (r.node who).scheduler.eventfd = 0 ∧
          ∀ sqe ∈ (r.node who).scheduler.io.kernel, sqe.userData = .eventfdBuf)) = true := by
    decide +kernel
  obtain ⟨history, final, hrun, hallowed, hcheck⟩ := exists_run_of_replay hreplay
  obtain ⟨hnone, hcrash, hstate, hcount, hcaller, hnotified, hnodes⟩ := of_decide_eq_true hcheck
  have hboth := fun visit hvisit => Bool.and_eq_true_iff.mp (hallowed visit hvisit)
  refine ⟨history, final, hrun, fun visit hvisit => of_decide_eq_true (hboth visit hvisit).1,
    fun visit hvisit => (hboth visit hvisit).2, ?_, hnone, hcrash, hstate, hcount⟩
  refine atRest_of_sleeping hcaller hnotified hnodes fun who => ?_
  exact (schedulers_of_run freshRings_small hrun who).2.ring.wellStacked

theorem work_done_oneJob :
    ∃ history final, Run Runtime.step (smallRuntime 1) history final ∧
      final.AtRest ∧ final.state = .running ∧ final.ranOn 0 = [0] ∧
      ∀ who, (final.node who).scheduler.inbox = [] := by
  obtain ⟨history, final, hrun, hnormal, hroom, hrest, hnone, hcrash, hstate, hcount⟩ :=
    oneJob_run
  obtain ⟨hran, -, hinbox⟩ := work_done_at_rest freshRings_small hrun hnormal hroom
    (by omega) hnone hcrash hrest hstate
  have hposted : (jobsPosted history).length = 1 := by
    obtain ⟨hdispatch, hposts⟩ := dispatchInvariant_of_run hrun hnormal
    rw [← (hdispatch.delivered (by omega) hposts).count, hcount]
  refine ⟨history, final, hrun, hrest, hstate, ?_, hinbox⟩
  rw [hran 0, hposted]
  rfl

end Runtime

end SlimCommonIo
