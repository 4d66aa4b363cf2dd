import SlimCommonIo.JobDelivery

/-!
# What `stop` leaves behind

`stop` ends each `run` loop at its next look at the stop token and then calls
`shutdown`, whose loop looks at the tasks only.  Callables which no drain has
taken out of an inbox by then stay there for the next `start`.
-/

namespace SlimCommonIo

variable {P : Program}

/-! ## A scheduler nobody drives -/

/-- Labels other than the calls of client code. -/
def Label.isCall : Label P → Bool
  | .callSpawn _ | .callResume _ | .callRun _ | .callShutdown | .callDestroy => true
  | _ => false

namespace Scheduler

variable {s next : Scheduler P} {label : Label P}

theorem Move.idle
    (hmove : Move s label next) (hlabel : label.isCall = false) (hidle : s.stack = []) :
    next.stack = [] ∧ next.tasks = s.tasks := by
  cases hmove with
  | leaveRun hstack _ | loopRun hstack _ | leaveShutdown hstack _ | loopShutdown hstack _
  | destructor hstack | reap hstack | armedStart hstack _ | arm hstack _
  | enter hstack _ _ _ | wake hstack _ | scan hstack | endLoop hstack
  | handleSentinel hstack _ _ | handleNull hstack _ _ | handleAwaitable hstack _ _ _ _ _ _ _ _
  | handleDangling hstack _ _ _ | resumed hstack | inboxDone hstack | swapInbox hstack
  | endInbox hstack | invoke hstack | endJob hstack _ | requeue hstack _ | escape hstack _
  | eventfdWrite hstack | spawnRefused hstack _ _ | spawnAccepted hstack _ _
  | spawnBadAlloc hstack _ _ | effect hstack _ _ | refused hstack _ _ _ _
  | stage hstack _ _ _ _ | awaitTask hstack _ _ | astray hstack _ => simp [hidle] at hstack
  | endRoot hends _ | endInner hends _ _ | endAstray hends _ _ =>
      obtain ⟨code, hstack⟩ := hends.stack
      simp [hidle] at hstack
  | post hcall =>
      cases hcall with
      | job hstack _ | coroutine hstack _ _ => simp [hidle] at hstack
  | spawnFull hcall _ _ | spawnStart hcall _ =>
      cases hcall with
      | job hstack _ | coroutine hstack _ _ => simp [hidle] at hstack
      | client _ _ => simp [Label.isCall] at hlabel
  | complete _ _ _ | enqueue _ | notify _ | requestStop _ _ | stopCallback _ _ _ | dropTask _
  | foreignRefusal _ => exact ⟨hidle, rfl⟩
  | callResume _ _ | callRun _ _ | callShutdown _ _ | callDestroy _ _ _
  | callDestroyBusy _ _ _ => simp [Label.isCall] at hlabel

/-- The stack of a thread which is in `shutdown`. -/
def InShutdown (stack : List (Activation P)) : Prop :=
  stack.getLast? = some .shutdown

theorem InShutdown.exchange
    {act : Activation P} {stack rest : List (Activation P)} (hbase : InShutdown stack)
    (top : List (Activation P)) (hstack : stack = act :: rest)
    (hact : act.isEntry = false ∨ rest ≠ []) : InShutdown (top ++ rest) := by
  subst hstack
  cases rest with
  | nil =>
      have hshutdown : act = .shutdown := by simpa [InShutdown] using hbase
      simp [hshutdown, Activation.isEntry] at hact
  | cons below rest =>
      rw [InShutdown, List.getLast?_cons_cons] at hbase
      rw [InShutdown, List.getLast?_append, hbase]
      rfl

theorem InShutdown.deliver
    {status : Option ErrorStatus} {below stack : List (Activation P)}
    (hbase : InShutdown below) (hdeliver : Scheduler.deliver status below = some stack) :
    InShutdown stack := by
  unfold Scheduler.deliver at hdeliver
  split at hdeliver
  all_goals simp at hdeliver
  all_goals subst hdeliver
  · exact hbase
  · exact hbase.exchange [.job _ _] rfl (.inl rfl)
  · exact hbase.exchange [.coroutine _ _] rfl (.inl rfl)

theorem InShutdown.callsSpawn
    (hbase : InShutdown s.stack) {body : P.Code} {below : List (Activation P)}
    (hcall : CallsSpawn s label body below) : InShutdown below := by
  cases hcall with
  | job hstack _ => exact hbase.exchange [.jobInSpawn _ _] hstack (.inl rfl)
  | coroutine hstack _ _ => exact hbase.exchange [.coroutineInSpawn _ _] hstack (.inl rfl)
  | client hstack _ => simp [InShutdown, hstack] at hbase

theorem InShutdown.afterSpawn
    (hbase : InShutdown s.stack) {task : FrameId} {status : Option ErrorStatus}
    {below stack : List (Activation P)} (hstack : s.stack = .spawn task :: below)
    (hdeliver : Scheduler.deliver status below = some stack) : InShutdown stack := by
  have hbelow : InShutdown below := by
    refine hbase.exchange [] hstack (.inr ?_)
    rintro rfl
    simp [InShutdown, hstack] at hbase
  exact hbelow.deliver hdeliver

/-- A thread leaves `shutdown` only when there are no tasks. -/
theorem Move.inShutdown
    (hmove : Move s label next) (hlabel : label.isCall = false)
    (hnormal : s.throwing = false) (hbase : InShutdown s.stack) :
    InShutdown next.stack ∨ next.stack = [] ∧ next.tasks = [] := by
  cases hmove with
  | leaveShutdown hstack htasks =>
      rename_i rest
      cases rest with
      | nil => exact .inr ⟨rfl, htasks⟩
      | cons below rest =>
          exact .inl (hbase.exchange [] hstack (.inr (by simp)))
  | loopShutdown hstack _ =>
      left
      rw [hstack] at hbase
      rw [InShutdown, List.getLast?_cons_cons, List.getLast?_cons_cons]
      exact hbase
  | leaveRun hstack _ | destructor hstack | reap hstack | endLoop hstack | endInbox hstack
  | endJob hstack _ | eventfdWrite hstack | stage hstack _ _ _ _ =>
      exact .inl (hbase.exchange [] hstack (.inl rfl))
  | loopRun hstack _ =>
      exact .inl (hbase.exchange [.drain .start, .reap, .run] hstack (.inl rfl))
  | armedStart hstack _ | arm hstack _ | enter hstack _ _ _ | wake hstack _ | scan hstack
  | handleNull hstack _ _ | handleDangling hstack _ _ _ | resumed hstack
  | inboxDone hstack => exact .inl (hbase.exchange [.drain _] hstack (.inl rfl))
  | handleSentinel hstack _ _ =>
      exact .inl (hbase.exchange [.swapInbox, .drain _] hstack (.inl rfl))
  | handleAwaitable hstack _ _ _ _ _ _ _ _ =>
      exact .inl (hbase.exchange [.coroutine _ _, .drain _] hstack (.inl rfl))
  | swapInbox hstack => exact .inl (hbase.exchange [.drainInbox _] hstack (.inl rfl))
  | invoke hstack => exact .inl (hbase.exchange [.job _ _, .drainInbox _] hstack (.inl rfl))
  | requeue hstack hcode =>
      simp [throwing_of_job hstack (.inr ⟨_, hcode⟩)] at hnormal
  | escape hstack hcode => simp [throwing_of_job hstack (.inl hcode)] at hnormal
  | post hcall =>
      cases hcall with
      | job hstack _ =>
          exact .inl (hbase.exchange [.eventfdWrite, .job _ _] hstack (.inl rfl))
      | coroutine hstack _ _ =>
          exact .inl (hbase.exchange [.eventfdWrite, .coroutine _ _] hstack (.inl rfl))
  | spawnFull hcall _ hdeliver => exact .inl ((hbase.callsSpawn hcall).deliver hdeliver)
  | spawnStart hcall _ =>
      have hbelow := hbase.callsSpawn hcall
      left
      rw [InShutdown, List.getLast?_cons, List.getLast?_cons, hbelow]
      rfl
  | spawnRefused hstack _ hdeliver | spawnAccepted hstack _ hdeliver
  | spawnBadAlloc hstack _ hdeliver => exact .inl (hbase.afterSpawn hstack hdeliver)
  | effect hstack _ _ | refused hstack _ _ _ _ | awaitTask hstack _ _ =>
      exact .inl (hbase.exchange [.coroutine _ _] hstack (.inl rfl))
  | endRoot hends _ =>
      obtain ⟨code, hstack⟩ := hends.stack
      exact .inl (hbase.exchange [] hstack (.inl rfl))
  | endInner hends _ _ =>
      obtain ⟨code, hstack⟩ := hends.stack
      exact .inl (hbase.exchange [.coroutine _ _] hstack (.inl rfl))
  | endAstray _ _ _ | astray _ _ | complete _ _ _ | enqueue _ | notify _ | requestStop _ _
  | stopCallback _ _ _ | dropTask _ | foreignRefusal _ => exact .inl hbase
  | callResume _ _ | callRun _ _ | callShutdown _ _ | callDestroy _ _ _
  | callDestroyBusy _ _ _ => simp [Label.isCall] at hlabel

theorem Move.callShutdown_stack (hmove : Move s .callShutdown next) :
    next.stack = [.shutdown] := by
  cases hmove with
  | callShutdown _ _ => rfl
  | wake _ hlabel => simp at hlabel
  | spawnFull hcall _ _ | spawnStart hcall _ => cases hcall

end Scheduler

/-! ## Threads, `start` and `stop` -/

variable {Q : Program} {k : ℕ}

def ThreadState.isDown : ThreadState → Bool
  | .absent | .exited => true
  | .created _ | .running => false

/-- Who drives a scheduler when. -/
structure Lifecycle (r : Runtime Q k) : Prop where
  active : ∀ who, (r.node who).scheduler.stack ≠ [] → (r.node who).thread = .running ∨
    ∃ rest, r.caller = .stopping (who :: rest) .shuttingDown
  starting : ∀ rest, r.caller = .starting rest →
    rest.Nodup ∧ ∀ who ∈ rest, (r.node who).thread.isDown = true
  down : r.caller = .idle → r.state ≠ .running → ∀ who, (r.node who).thread.isDown = true
  flushed : r.caller = .idle → r.state = .stopped → ∀ who, (r.node who).scheduler.tasks = []
  ended : ∀ rest point, r.caller = .stopping rest point → ∀ who, who ∉ rest →
    (r.node who).thread.isDown = true ∧ (r.node who).scheduler.tasks = []
  joined : ∀ who rest point, r.caller = .stopping (who :: rest) point →
    point = .shutdown ∨ point = .shuttingDown → (r.node who).thread.isDown = true
  shutting : ∀ who rest, r.caller = .stopping (who :: rest) .shuttingDown →
    Scheduler.InShutdown (r.node who).scheduler.stack ∨
      (r.node who).scheduler.stack = [] ∧ (r.node who).scheduler.tasks = []

namespace Lifecycle

variable {r next : Runtime Q k}

theorem initial (dispatcherIo : IoState) (workerIo : Fin k → IoState)
    (fd : NodeId k → Int32) (addr : NodeId k → UInt64) :
    Lifecycle (Runtime.initial Q dispatcherIo workerIo fd addr) := by
  have hthread : ∀ who, ((Runtime.initial Q dispatcherIo workerIo fd addr).node who).thread =
      .absent := by
    intro who
    cases who <;> rfl
  have hstack : ∀ who, ((Runtime.initial Q dispatcherIo workerIo fd addr).node
      who).scheduler.stack = [] := by
    intro who
    cases who <;> rfl
  constructor
  · intro who hactive
    exact absurd (hstack who) hactive
  · simp [Runtime.initial]
  · intro _ _ who
    rw [hthread]
    rfl
  all_goals simp [Runtime.initial]

theorem stack_eq_nil
    (hinv : Lifecycle r) {who : NodeId k} (hdown : (r.node who).thread ≠ .running)
    (hcaller : ∀ rest, r.caller ≠ .stopping (who :: rest) .shuttingDown) :
    (r.node who).scheduler.stack = [] := by
  by_contra hactive
  rcases hinv.active who hactive with hrunning | ⟨rest, hstopping⟩
  · exact hdown hrunning
  · exact hcaller rest hstopping

theorem not_running_of_isDown {thread : ThreadState} (hdown : thread.isDown = true) :
    thread ≠ .running := by
  rintro rfl
  simp [ThreadState.isDown] at hdown

theorem moves
    (hinv : Lifecycle r) {who : NodeId k} {label : Label (runtimeProgram Q)}
    (hsteps : r.Steps next who label) (hcall : label.isCall = false)
    (hnormal : (r.node who).scheduler.throwing = false)
    (hthread : ∀ other, (next.node other).thread = (r.node other).thread)
    (hcaller : next.caller = r.caller) (hstate : next.state = r.state) : Lifecycle next := by
  have hmove := (Scheduler.move_of_step hsteps.step).2
  -- a scheduler nobody drives keeps its empty stack and its tasks
  have hidle : ∀ other, (r.node other).scheduler.stack = [] →
      (next.node other).scheduler.stack = [] ∧
        (next.node other).scheduler.tasks = (r.node other).scheduler.tasks := by
    intro other hempty
    by_cases hother : other = who
    · subst hother
      exact hmove.idle hcall hempty
    · rw [hsteps.others other hother]
      exact ⟨hempty, rfl⟩
  constructor
  · intro other hactive
    rw [hthread, hcaller]
    exact hinv.active other fun hempty => hactive (hidle other hempty).1
  · simpa only [hcaller, hthread] using hinv.starting
  · simpa only [hcaller, hstate, hthread] using hinv.down
  · intro hcalls hstopped other
    rw [hcaller] at hcalls
    rw [hstate] at hstopped
    have hdown := hinv.down hcalls (by simp [hstopped]) other
    have hempty := hinv.stack_eq_nil (not_running_of_isDown hdown) (by simp [hcalls])
    rw [(hidle other hempty).2]
    exact hinv.flushed hcalls hstopped other
  · intro rest point hcalls other hother
    rw [hcaller] at hcalls
    obtain ⟨hdown, htasks⟩ := hinv.ended rest point hcalls other hother
    have hempty : (r.node other).scheduler.stack = [] := by
      refine hinv.stack_eq_nil (not_running_of_isDown hdown) ?_
      intro rest' hshutting
      rw [hcalls, Caller.stopping.injEq] at hshutting
      simp [hshutting.1] at hother
    rw [hthread, (hidle other hempty).2]
    exact ⟨hdown, htasks⟩
  · simpa only [hcaller, hthread] using hinv.joined
  · intro other rest hcalls
    rw [hcaller] at hcalls
    rcases hinv.shutting other rest hcalls with hbase | ⟨hempty, htasks⟩
    · by_cases hother : other = who
      · subst hother
        exact hmove.inShutdown hcall hnormal hbase
      · rw [hsteps.others other hother]
        exact .inl hbase
    · obtain ⟨hstack, hsame⟩ := hidle other hempty
      exact .inr ⟨hstack, hsame.trans htasks⟩

theorem repoint
    (hinv : Lifecycle r) {who : NodeId k} {rest : List (NodeId k)} {point after : StopPoint}
    (hcaller : r.caller = .stopping (who :: rest) point) (hpoint : point ≠ .shuttingDown)
    (hafter : after ≠ .shuttingDown)
    (hjoin : after = .shutdown → (r.node who).thread.isDown = true)
    (hnode : ∀ other, next.node other = r.node other)
    (hnext : next.caller = .stopping (who :: rest) after) : Lifecycle next := by
  constructor
  · intro other hactive
    rw [hnode] at hactive ⊢
    rcases hinv.active other hactive with hrunning | ⟨rest', hshutting⟩
    · exact .inl hrunning
    · rw [hcaller, Caller.stopping.injEq] at hshutting
      exact absurd hshutting.2 hpoint
  · simp [hnext]
  · simp [hnext]
  · simp [hnext]
  · intro rest' point' hstopping other hother
    rw [hnext] at hstopping
    cases hstopping
    rw [hnode]
    exact hinv.ended _ _ hcaller other hother
  · intro other rest' point' hstopping hpoint'
    rw [hnext] at hstopping
    cases hstopping
    rw [hnode]
    rcases hpoint' with hshutdown | hshutting
    · exact hjoin hshutdown
    · exact absurd hshutting hafter
  · intro other rest' hstopping
    rw [hnext] at hstopping
    cases hstopping
    exact absurd rfl hafter

theorem rethread
    (hinv : Lifecycle r) {who : NodeId k} {thread : ThreadState}
    (hactive : (r.node who).scheduler.stack ≠ [] → thread = .running ∨
      ∃ rest, r.caller = .stopping (who :: rest) .shuttingDown)
    (hdown : (r.node who).thread.isDown = true → thread.isDown = true) :
    Lifecycle (r.setThread who thread) := by
  have hcaller : (r.setThread who thread).caller = r.caller := Runtime.setNode_caller r _ _
  have hstate : (r.setThread who thread).state = r.state := Runtime.setNode_state r _ _
  have hstays : ∀ other, (r.node other).thread.isDown = true →
      ((r.setThread who thread).node other).thread.isDown = true := by
    intro other hother
    by_cases heq : other = who
    · subst heq
      rw [Runtime.setThread, Runtime.setNode_node_self]
      exact hdown hother
    · rw [Runtime.setThread, Runtime.setNode_node_of_ne r heq]
      exact hother
  have hscheduler := fun other => r.setThread_scheduler who other thread
  constructor
  · intro other hother
    rw [hcaller]
    rw [hscheduler] at hother
    by_cases heq : other = who
    · subst heq
      rw [Runtime.setThread, Runtime.setNode_node_self]
      exact hactive hother
    · rw [Runtime.setThread, Runtime.setNode_node_of_ne r heq]
      exact hinv.active other hother
  · intro rest hstarting
    rw [hcaller] at hstarting
    obtain ⟨hnodup, hrest⟩ := hinv.starting rest hstarting
    exact ⟨hnodup, fun other hother => hstays other (hrest other hother)⟩
  · intro hidle hnot other
    rw [hcaller] at hidle
    rw [hstate] at hnot
    exact hstays other (hinv.down hidle hnot other)
  · simpa only [hcaller, hstate, hscheduler] using hinv.flushed
  · intro rest point hstopping other hother
    rw [hcaller] at hstopping
    rw [hscheduler]
    obtain ⟨hended, htasks⟩ := hinv.ended rest point hstopping other hother
    exact ⟨hstays other hended, htasks⟩
  · intro other rest point hstopping hpoint
    rw [hcaller] at hstopping
    exact hstays other (hinv.joined other rest point hstopping hpoint)
  · simpa only [hcaller, hscheduler] using hinv.shutting

theorem threadStarts
    (hinv : Lifecycle r) {who : NodeId k} {requested : Bool}
    (hthread : (r.node who).thread = .created requested) (s : Scheduler (runtimeProgram Q)) :
    Lifecycle ((r.setScheduler who s).setThread who .running) := by
  have hup : (r.node who).thread.isDown = false := by rw [hthread]; rfl
  have hcaller : ((r.setScheduler who s).setThread who .running).caller = r.caller := by
    simp [Runtime.setThread, Runtime.setScheduler]
  have hstate : ((r.setScheduler who s).setThread who .running).state = r.state := by
    simp [Runtime.setThread, Runtime.setScheduler]
  have hself : (((r.setScheduler who s).setThread who .running).node who).thread = .running := by
    simp [Runtime.setThread]
  have hothers : ∀ other, other ≠ who →
      ((r.setScheduler who s).setThread who .running).node other = r.node other := by
    intro other hne
    rw [Runtime.setThread, Runtime.setNode_node_of_ne _ hne, Runtime.setScheduler,
      Runtime.setNode_node_of_ne _ hne]
  -- a node whose thread is down is not the one which starts
  have hdown : ∀ other, (r.node other).thread.isDown = true →
      ((r.setScheduler who s).setThread who .running).node other = r.node other := by
    intro other hother
    apply hothers
    rintro rfl
    simp [hup] at hother
  constructor
  · intro other hactive
    rw [hcaller]
    by_cases hne : other = who
    · exact .inl (hne ▸ hself)
    · rw [hothers other hne] at hactive ⊢
      exact hinv.active other hactive
  · intro rest hstarting
    rw [hcaller] at hstarting
    obtain ⟨hnodup, hrest⟩ := hinv.starting rest hstarting
    refine ⟨hnodup, fun other hother => ?_⟩
    rw [hdown other (hrest other hother)]
    exact hrest other hother
  · intro hidle hnot other
    rw [hcaller] at hidle
    rw [hstate] at hnot
    rw [hdown other (hinv.down hidle hnot other)]
    exact hinv.down hidle hnot other
  · intro hidle hstopped other
    rw [hcaller] at hidle
    rw [hstate] at hstopped
    rw [hdown other (hinv.down hidle (by simp [hstopped]) other)]
    exact hinv.flushed hidle hstopped other
  · intro rest point hstopping other hother
    rw [hcaller] at hstopping
    have hended := hinv.ended rest point hstopping other hother
    rw [hdown other hended.1]
    exact hended
  · intro other rest point hstopping hpoint
    rw [hcaller] at hstopping
    have hjoined := hinv.joined other rest point hstopping hpoint
    rw [hdown other hjoined]
    exact hjoined
  · intro other rest hstopping
    rw [hcaller] at hstopping
    rw [hdown other (hinv.joined other rest _ hstopping (.inr rfl))]
    exact hinv.shutting other rest hstopping

theorem createThread
    (hinv : Lifecycle r) {who : NodeId k} {rest : List (NodeId k)}
    (hcaller : r.caller = .starting (who :: rest)) :
    Lifecycle { r.setThread who (.created false) with caller := .starting rest } := by
  obtain ⟨hnodup, hdown⟩ := hinv.starting _ hcaller
  rw [List.nodup_cons] at hnodup
  have hothers : ∀ other, other ≠ who →
      ({ r.setThread who (.created false) with caller := .starting rest } : Runtime Q k).node
        other = r.node other := by
    intro other hne
    rw [← Runtime.setNode_node_of_ne r hne { r.node who with thread := .created false }]
    cases other <;> rfl
  have hself : ({ r.setThread who (.created false) with caller := .starting rest } :
      Runtime Q k).node who = { r.node who with thread := .created false } := by
    rw [← Runtime.setNode_node_self r who { r.node who with thread := .created false }]
    cases who <;> rfl
  constructor
  · intro other hactive
    by_cases hne : other = who
    · subst hne
      rw [hself] at hactive
      exact absurd (hinv.stack_eq_nil (not_running_of_isDown (hdown other (by simp)))
        (by simp [hcaller])) hactive
    · rw [hothers other hne] at hactive ⊢
      rcases hinv.active other hactive with hrunning | ⟨rest', hstopping⟩
      · exact .inl hrunning
      · simp [hcaller] at hstopping
  · intro rest' hstarting
    cases hstarting
    refine ⟨hnodup.2, fun other hother => ?_⟩
    rw [hothers other (fun heq => hnodup.1 (heq ▸ hother))]
    exact hdown other (List.mem_cons_of_mem _ hother)
  all_goals simp

theorem callShutdown
    (hinv : Lifecycle r) {who : NodeId k} {rest : List (NodeId k)}
    {s : Scheduler (runtimeProgram Q)}
    (hcaller : r.caller = .stopping (who :: rest) .shutdown)
    (hstep : (r.node who).scheduler.step .callShutdown = some s) :
    Lifecycle { r.setScheduler who s with caller := .stopping (who :: rest) .shuttingDown } := by
  have hstack : s.stack = [.shutdown] := (Scheduler.move_of_step hstep).2.callShutdown_stack
  have hothers : ∀ other, other ≠ who →
      ({ r.setScheduler who s with caller := .stopping (who :: rest) .shuttingDown } :
        Runtime Q k).node other = r.node other := by
    intro other hne
    rw [← Runtime.setNode_node_of_ne r hne { r.node who with scheduler := s }]
    cases other <;> rfl
  have hself : ({ r.setScheduler who s with caller := .stopping (who :: rest) .shuttingDown } :
      Runtime Q k).node who = { r.node who with scheduler := s } := by
    rw [← Runtime.setNode_node_self r who { r.node who with scheduler := s }]
    cases who <;> rfl
  constructor
  · intro other hactive
    by_cases hne : other = who
    · exact .inr ⟨rest, by rw [hne]⟩
    · rw [hothers other hne] at hactive ⊢
      rcases hinv.active other hactive with hrunning | ⟨rest', hstopping⟩
      · exact .inl hrunning
      · simp [hcaller] at hstopping
  · simp
  · simp
  · simp
  · intro rest' point hstopping other hother
    cases hstopping
    rw [hothers other (fun heq => hother (by simp [heq]))]
    exact hinv.ended _ _ hcaller other hother
  · intro other rest' point hstopping _
    cases hstopping
    rw [hself]
    exact hinv.joined who rest _ hcaller (.inl rfl)
  · intro other rest' hstopping
    cases hstopping
    left
    rw [hself, Scheduler.InShutdown, hstack]
    rfl

theorem congr
    (hinv : Lifecycle r) (hnode : ∀ who, next.node who = r.node who)
    (hcaller : next.caller = r.caller) (hstate : next.state = r.state) : Lifecycle next := by
  constructor
  · simpa only [hnode, hcaller] using hinv.active
  · simpa only [hnode, hcaller] using hinv.starting
  · simpa only [hnode, hcaller, hstate] using hinv.down
  · simpa only [hnode, hcaller, hstate] using hinv.flushed
  · simpa only [hnode, hcaller] using hinv.ended
  · simpa only [hnode, hcaller] using hinv.joined
  · simpa only [hnode, hcaller] using hinv.shutting

theorem active_of_caller
    (hinv : Lifecycle r)
    (hcaller : ∀ who rest, r.caller ≠ .stopping (who :: rest) .shuttingDown)
    (hnode : ∀ who, next.node who = r.node who) (who : NodeId k)
    (hactive : (next.node who).scheduler.stack ≠ []) : (next.node who).thread = .running := by
  rw [hnode] at hactive ⊢
  rcases hinv.active who hactive with hrunning | ⟨rest, hstopping⟩
  · exact hrunning
  · exact absurd hstopping (hcaller who rest)

theorem callStart
    (hinv : Lifecycle r) (hidle : r.caller = .idle) (hstate : r.state ≠ .running)
    (hnode : ∀ who, next.node who = r.node who)
    (hnext : next.caller = .starting (Runtime.startOrder k)) : Lifecycle next := by
  constructor
  · intro who hactive
    exact .inl (hinv.active_of_caller (by simp [hidle]) hnode who hactive)
  · intro rest hstarting
    rw [hnext] at hstarting
    cases hstarting
    refine ⟨?_, fun who _ => by rw [hnode]; exact hinv.down hidle hstate who⟩
    rw [Runtime.startOrder, List.nodup_append]
    refine ⟨(List.nodup_finRange k).map (Option.some_injective _), by simp, ?_⟩
    simp
  all_goals simp [hnext]

theorem callStop
    (hinv : Lifecycle r) (hidle : r.caller = .idle)
    (hnode : ∀ who, next.node who = r.node who)
    (hnext : next.caller = .stopping (Runtime.stopOrder k) .request) : Lifecycle next := by
  constructor
  · intro who hactive
    exact .inl (hinv.active_of_caller (by simp [hidle]) hnode who hactive)
  · simp [hnext]
  · simp [hnext]
  · simp [hnext]
  · intro rest point hstopping who hwho
    rw [hnext] at hstopping
    cases hstopping
    cases who <;> simp [Runtime.stopOrder] at hwho
  · intro who rest point hstopping hpoint
    rw [hnext, Caller.stopping.injEq] at hstopping
    simp [← hstopping.2] at hpoint
  · simp [hnext]

theorem started
    (hinv : Lifecycle r) (hcaller : r.caller = .starting [])
    (hnode : ∀ who, next.node who = r.node who) (hnext : next.caller = .idle)
    (hstate : next.state = .running) : Lifecycle next := by
  constructor
  · intro who hactive
    exact .inl (hinv.active_of_caller (by simp [hcaller]) hnode who hactive)
  all_goals simp [hnext, hstate]

theorem shutDown
    (hinv : Lifecycle r) {who : NodeId k} {rest : List (NodeId k)}
    (hcaller : r.caller = .stopping (who :: rest) .shuttingDown)
    (hstack : (r.node who).scheduler.stack = [])
    (hnode : ∀ who, next.node who = r.node who)
    (hnext : next.caller = .stopping rest .request) : Lifecycle next := by
  have htasks : (r.node who).scheduler.tasks = [] := by
    rcases hinv.shutting who rest hcaller with hbase | ⟨-, htasks⟩
    · simp [Scheduler.InShutdown, hstack] at hbase
    · exact htasks
  constructor
  · intro other hactive
    rw [hnode] at hactive ⊢
    rcases hinv.active other hactive with hrunning | ⟨rest', hstopping⟩
    · exact .inl hrunning
    · rw [hcaller, Caller.stopping.injEq, List.cons.injEq] at hstopping
      rw [← hstopping.1.1] at hactive
      exact absurd hstack hactive
  · simp [hnext]
  · simp [hnext]
  · simp [hnext]
  · intro rest' point hstopping other hother
    rw [hnext] at hstopping
    cases hstopping
    rw [hnode]
    by_cases hne : other = who
    · rw [hne]
      exact ⟨hinv.joined who rest _ hcaller (.inr rfl), htasks⟩
    · exact hinv.ended _ _ hcaller other (by simp [hne, hother])
  · intro other rest' point hstopping hpoint
    rw [hnext] at hstopping
    cases hstopping
    simp at hpoint
  · simp [hnext]

theorem stopped
    (hinv : Lifecycle r) {point : StopPoint} (hcaller : r.caller = .stopping [] point)
    (hnode : ∀ who, next.node who = r.node who) (hnext : next.caller = .idle) :
    Lifecycle next := by
  have hended := fun who => hinv.ended [] point hcaller who (by simp)
  constructor
  · intro who hactive
    exact .inl (hinv.active_of_caller (by simp [hcaller]) hnode who hactive)
  · simp [hnext]
  · intro _ _ who
    rw [hnode]
    exact (hended who).1
  · intro _ _ who
    rw [hnode]
    exact (hended who).2
  all_goals simp [hnext]

theorem not_isCall_of_isInternal
    {label : Label (runtimeProgram Q)} (hinternal : label.isInternal = true) :
    label.isCall = false := by
  cases label <;> simp_all [Label.isInternal, Label.isCall]

theorem throwing_of_throwsOther
    {s : Scheduler (runtimeProgram Q)} (hthrows : Runtime.throwsOther s = true) :
    s.throwing = true := by
  unfold Runtime.throwsOther at hthrows
  split at hthrows
  next entry code rest hstack =>
    split at hthrows
    next hcode => exact Scheduler.throwing_of_job hstack (.inl hcode)
    next => simp at hthrows
  next => simp at hthrows

theorem setScheduler
    (hinv : Lifecycle r) (who : NodeId k) {label : Label (runtimeProgram Q)}
    {s : Scheduler (runtimeProgram Q)} (hstep : (r.node who).scheduler.step label = some s)
    (hcall : label.isCall = false) (hnormal : (r.node who).scheduler.throwing = false) :
    Lifecycle (r.setScheduler who s) := by
  refine hinv.moves (Runtime.steps_of_setScheduler hstep fun _ => rfl) hcall hnormal ?_
    (Runtime.setNode_caller r _ _) (Runtime.setNode_state r _ _)
  intro other
  by_cases hother : other = who
  · rw [hother, Runtime.setScheduler, Runtime.setNode_node_self]
  · rw [Runtime.setScheduler, Runtime.setNode_node_of_ne r hother]

theorem step
    (hinv : Lifecycle r) {label : RuntimeLabel Q k} (hmove : r.Move label next)
    (hnormal : ∀ who, (r.node who).scheduler.throwing = false) : Lifecycle next := by
  cases hmove with
  | post hstep | posted hstep => exact hinv.setScheduler none hstep rfl (hnormal none)
  | drives hinternal _ hstep =>
      exact hinv.setScheduler _ hstep (not_isCall_of_isInternal hinternal) (hnormal _)
  | returns _ _ hstep =>
      exact (hinv.setScheduler none hstep rfl (hnormal none)).congr
        (Runtime.node_congr rfl rfl) rfl rfl
  | @pushes _ _ worker _ _ _ hstep | @writes _ _ worker _ _ _ _ hstep =>
      exact (hinv.setScheduler (some worker) hstep rfl (hnormal _)).congr
        (Runtime.node_congr rfl rfl) rfl rfl
  | leavesStop _ hthrows _ _ =>
      exact absurd (throwing_of_throwsOther hthrows) (by simp [hnormal])
  | threadStarts hthread _ => exact hinv.threadStarts hthread _
  | threadEnds hthread hstack =>
      exact hinv.rethread (fun hactive => absurd hstack hactive)
        (by simp [hthread, ThreadState.isDown])
  | terminates _ _ | noWorkers _ _ _ | chooses _ _ _ | callIgnored _ =>
      exact hinv.congr (Runtime.node_congr rfl rfl) rfl rfl
  | callStart hidle hstate => exact hinv.callStart hidle hstate (Runtime.node_congr rfl rfl) rfl
  | callStop hidle _ => exact hinv.callStop hidle (Runtime.node_congr rfl rfl) rfl
  | createThread hcaller => exact hinv.createThread hcaller
  | started hcaller => exact hinv.started hcaller (Runtime.node_congr rfl rfl) rfl rfl
  | @requestEarly who _ _ hcaller hthread =>
      have hthreads : Lifecycle (r.setThread who (.created true)) :=
        hinv.rethread
          (fun hactive => .inr ((hinv.active _ hactive).resolve_left (by simp [hthread])))
          (by simp [hthread, ThreadState.isDown])
      exact hthreads.repoint ((Runtime.setNode_caller r _ _).trans hcaller) (by simp) (by simp)
        (by simp) (Runtime.node_congr rfl rfl) rfl
  | requestStop hcaller hstep =>
      exact (hinv.setScheduler _ hstep rfl (hnormal _)).repoint
        ((Runtime.setNode_caller r _ _).trans hcaller) (by simp) (by simp) (by simp)
        (Runtime.node_congr rfl rfl) rfl
  | stopCallback hcaller hstep =>
      exact (hinv.setScheduler _ hstep rfl (hnormal _)).repoint
        ((Runtime.setNode_caller r _ _).trans hcaller) (by simp) (by simp) (by simp)
        (Runtime.node_congr rfl rfl) rfl
  | pass hcaller hafter =>
      refine hinv.repoint hcaller ?_ ?_ ?_ (Runtime.node_congr rfl rfl) rfl
      · rcases hafter with ⟨rfl, -⟩ | ⟨rfl, -⟩ | ⟨rfl, -⟩ <;> simp
      · rcases hafter with ⟨-, rfl⟩ | ⟨-, rfl⟩ | ⟨-, rfl, -⟩ <;> simp
      · rcases hafter with ⟨-, rfl⟩ | ⟨-, rfl⟩ | ⟨-, -, hexited⟩
        · simp
        · simp
        · intro _
          rw [hexited]
          rfl
  | shutdown hcaller hstep => exact hinv.callShutdown hcaller hstep
  | shutDown hcaller hstack =>
      exact hinv.shutDown hcaller hstack (Runtime.node_congr rfl rfl) rfl
  | stopped hcaller => exact hinv.stopped hcaller (Runtime.node_congr rfl rfl) rfl

end Lifecycle

open Transition

/-- A job is posted before the dispatcher's thread has entered `run`. -/
def startThenPost : List (RuntimeLabel awaitScript 1) :=
  [.callStart, .caller, .caller, .caller, .post fun _ => .returned, .posted 0]

end SlimCommonIo
