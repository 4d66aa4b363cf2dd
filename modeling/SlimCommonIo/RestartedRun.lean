import SlimCommonIo.RuntimeStop

/-!
# Waiting in `run` and in `shutdown`

`drain` takes its `min_complete` from `shutting_down_`, which `shutdown` sets
and nothing resets.  Until a runtime is started for the second time, the drains
of `run` are the blocking ones and those of `shutdown` are not; from then on no
drain blocks any more.
-/

namespace SlimCommonIo

variable {P : Program}

namespace Scheduler

variable {s next : Scheduler P} {label : Label P}

theorem run_mem_of_deliver
    {status : Option ErrorStatus} {below stack : List (Activation P)}
    (hdeliver : deliver status below = some stack) :
    .run ∈ stack ↔ .run ∈ below := by
  unfold deliver at hdeliver
  split at hdeliver
  all_goals simp at hdeliver
  all_goals
    subst hdeliver
    simp

theorem CallsSpawn.run_mem
    {body : P.Code} {below : List (Activation P)} (hcall : CallsSpawn s label body below) :
    .run ∈ below ↔ .run ∈ s.stack := by
  cases hcall with
  | job hstack _ | coroutine hstack _ _ | client hstack _ => simp [hstack]

theorem Move.run_mem (hmove : Move s label next) (hmem : .run ∈ next.stack) :
    .run ∈ s.stack ∨ ∃ requested, label = .callRun requested := by
  cases hmove with
  | callRun _ _ => exact .inr ⟨_, rfl⟩
  | leaveRun hstack _ | loopRun hstack _ | leaveShutdown hstack _ | loopShutdown hstack _
  | destructor hstack | reap hstack | armedStart hstack _ | arm hstack _
  | enter hstack _ _ _ | wake hstack _ | scan hstack | endLoop hstack
  | handleSentinel hstack _ _ | handleNull hstack _ _ | handleAwaitable hstack _ _ _ _ _ _ _ _
  | handleDangling hstack _ _ _ | resumed hstack | inboxDone hstack | swapInbox hstack
  | endInbox hstack | invoke hstack | endJob hstack _ | requeue hstack _
  | eventfdWrite hstack | effect hstack _ _ | refused hstack _ _ _ _
  | stage hstack _ _ _ _ | awaitTask hstack _ _ =>
      left
      simp_all [Scheduler.reap, afterResume]
  | spawnRefused hstack _ hdeliver | spawnAccepted hstack _ hdeliver
  | spawnBadAlloc hstack _ hdeliver =>
      left
      rw [hstack]
      exact List.mem_cons_of_mem _ ((run_mem_of_deliver hdeliver).mp hmem)
  | spawnFull hcall _ hdeliver =>
      exact .inl (hcall.run_mem.mp ((run_mem_of_deliver hdeliver).mp hmem))
  | spawnStart hcall _ =>
      left
      apply hcall.run_mem.mp
      simpa using hmem
  | post hcall =>
      left
      cases hcall with
      | job hstack _ | coroutine hstack _ _ => simpa [hstack] using hmem
  | endRoot hends _ | endInner hends _ _ =>
      obtain ⟨code, hstack⟩ := hends.stack
      left
      simp_all
  | escape _ _ | callResume _ _ | callShutdown _ _ | callDestroyBusy _ _ _ => simp at hmem
  | endAstray _ _ _ | astray _ _ | complete _ _ _ | enqueue _ | notify _
  | requestStop _ _ | stopCallback _ _ _ | dropTask _ | foreignRefusal _
  | callDestroy _ _ _ => exact .inl hmem

theorem Move.shuttingDown_cases (hmove : Move s label next) :
    next.shuttingDown = s.shuttingDown ∨
      (label = .callShutdown ∨ label = .callDestroy) ∧ next.shuttingDown = true ∧
        .run ∉ next.stack := by
  cases hmove with
  | callShutdown _ _ => exact .inr ⟨.inl rfl, rfl, by simp⟩
  | callDestroyBusy _ _ _ => exact .inr ⟨.inr rfl, rfl, by simp⟩
  | _ => exact .inl rfl

end Scheduler

/-! ## A node before its second start -/

variable {Q : Program} {k : ℕ}

/-- While the thread of a node lives, its scheduler has not been shut down. -/
structure Node.FirstLife (node : Node Q) : Prop where
  stacked : WellStacked node.scheduler.stack
  shutdown : .shutdown ∈ node.scheduler.stack → node.scheduler.shuttingDown = true
  run : .run ∈ node.scheduler.stack → node.scheduler.shuttingDown = false
  alive : node.thread ≠ .absent → node.thread ≠ .exited →
    node.scheduler.shuttingDown = false

namespace Node.FirstLife

variable {node : Node Q}

theorem initial (io : IoState) (fd : Int32) (addr : UInt64) :
    Node.FirstLife (Q := Q) { scheduler := .initial _ io fd addr } := by
  constructor <;> simp [Scheduler.initial, WellStacked]

theorem step
    (hnode : node.FirstLife) {label : Label (runtimeProgram Q)}
    {s : Scheduler (runtimeProgram Q)} (hstep : node.scheduler.step label = some s)
    (hrun : ∀ requested, label ≠ .callRun requested) (hshutdown : label ≠ .callShutdown)
    (hdestroy : label ≠ .callDestroy) :
    Node.FirstLife { node with scheduler := s } := by
  have hmove := (Scheduler.move_of_step hstep).2
  have hsame : s.shuttingDown = node.scheduler.shuttingDown := by
    rcases hmove.shuttingDown_cases with hsame | ⟨hcall, -⟩
    · exact hsame
    · exact absurd hcall (by simp [hshutdown, hdestroy])
  constructor
  · exact hmove.wellStacked hnode.stacked
  · intro hmem
    rcases hmove.entered rfl hmem with hold | ⟨-, hset⟩ | ⟨task, origin, hact, -⟩
    · exact hsame.trans (hnode.shutdown hold)
    · exact hset
    · cases hact
  · intro hmem
    rcases hmove.run_mem hmem with hold | ⟨requested, hcall⟩
    · exact hsame.trans (hnode.run hold)
    · exact absurd hcall (hrun requested)
  · intro hpresent halive
    exact hsame.trans (hnode.alive hpresent halive)

theorem callRun
    (hnode : node.FirstLife) {requested requested' : Bool} {s : Scheduler (runtimeProgram Q)}
    (hthread : node.thread = .created requested')
    (hstep : node.scheduler.step (.callRun requested) = some s) :
    Node.FirstLife (Q := Q) { scheduler := s, thread := .running } := by
  have hmove := (Scheduler.move_of_step hstep).2
  have hup := hnode.alive (by simp [hthread]) (by simp [hthread])
  have hsame : s.shuttingDown = false := by
    rcases hmove.shuttingDown_cases with hsame | ⟨hcall, -⟩
    · exact hsame.trans hup
    · simp at hcall
  constructor
  · exact hmove.wellStacked hnode.stacked
  · intro hmem
    rcases hmove.entered rfl hmem with hold | ⟨-, hset⟩ | ⟨task, origin, hact, -⟩
    · simp [hnode.shutdown hold] at hup
    · exact hset
    · cases hact
  · intro _
    exact hsame
  · intro _ _
    exact hsame

theorem callShutdown
    (hnode : node.FirstLife) {s : Scheduler (runtimeProgram Q)}
    (hthread : node.thread = .absent ∨ node.thread = .exited)
    (hstep : node.scheduler.step .callShutdown = some s) :
    Node.FirstLife { node with scheduler := s } := by
  have hmove := (Scheduler.move_of_step hstep).2
  have hstack : s.stack = [.shutdown] ∧ s.shuttingDown = true := by
    cases hmove with
    | callShutdown _ _ => exact ⟨rfl, rfl⟩
    | wake _ hlabel => simp at hlabel
    | spawnFull hcall _ _ | spawnStart hcall _ => cases hcall
  constructor
  · exact hmove.wellStacked hnode.stacked
  · intro _
    exact hstack.2
  · simp [hstack.1]
  · rcases hthread with habsent | hexited
    · intro hpresent
      exact absurd habsent hpresent
    · intro _ halive
      exact absurd hexited halive

/-- The thread changes; a living one needs a scheduler which is not shut down. -/
theorem rethread
    (hnode : node.FirstLife) {thread : ThreadState}
    (halive : thread ≠ .absent → thread ≠ .exited →
      node.scheduler.shuttingDown = false) :
    Node.FirstLife { node with thread := thread } :=
  ⟨hnode.stacked, hnode.shutdown, hnode.run, halive⟩

end Node.FirstLife

/-! ## The runtime before its second start -/

/-- No scheduler has been shut down before the first `stop`. -/
structure FirstCycle (r : Runtime Q k) : Prop where
  nodes : ∀ who, (r.node who).FirstLife
  starting : ∀ rest, r.caller = .starting rest →
    ∀ who, (r.node who).scheduler.shuttingDown = false
  fresh : r.state = .idle → ∀ who, (r.node who).scheduler.shuttingDown = false
  stopping : ∀ rest point, r.caller = .stopping rest point → r.state = .running
  joined : ∀ who rest, r.caller = .stopping (who :: rest) .shutdown →
    (r.node who).thread = .absent ∨ (r.node who).thread = .exited

/-- The step does not call `start` on a runtime which has been stopped. -/
def Runtime.startsOnce (r : Runtime Q k) : RuntimeLabel Q k → Bool
  | .callStart => decide (r.state ≠ .stopped)
  | _ => true

namespace FirstCycle

variable {r next : Runtime Q k}

theorem initial (dispatcherIo : IoState) (workerIo : Fin k → IoState)
    (fd : NodeId k → Int32) (addr : NodeId k → UInt64) :
    FirstCycle (Runtime.initial Q dispatcherIo workerIo fd addr) := by
  constructor
  · intro who
    cases who <;> exact Node.FirstLife.initial _ _ _
  · simp [Runtime.initial]
  · intro _ who
    cases who <;> rfl
  · simp [Runtime.initial]
  · simp [Runtime.initial]

/-- One node is replaced.  Before the first `stop` its flag stays, and a thread
which `stop` has joined stays ended. -/
theorem setNode
    (hinv : FirstCycle r) {who : NodeId k} {node : Node Q} (hnode : node.FirstLife)
    (hflag : r.state = .idle ∨ (∃ rest, r.caller = .starting rest) →
      node.scheduler.shuttingDown = (r.node who).scheduler.shuttingDown)
    (hdown : ∀ rest, r.caller = .stopping (who :: rest) .shutdown →
      node.thread = .absent ∨ node.thread = .exited) :
    FirstCycle (r.setNode who node) := by
  have hflags : r.state = .idle ∨ (∃ rest, r.caller = .starting rest) → ∀ other,
      ((r.setNode who node).node other).scheduler.shuttingDown =
        (r.node other).scheduler.shuttingDown := by
    intro hearly other
    by_cases hother : other = who
    · rw [hother, Runtime.setNode_node_self, hflag hearly]
    · rw [Runtime.setNode_node_of_ne r hother]
  constructor
  · intro other
    by_cases hother : other = who
    · rw [hother, Runtime.setNode_node_self]
      exact hnode
    · rw [Runtime.setNode_node_of_ne r hother]
      exact hinv.nodes other
  · intro rest hcaller other
    have hstarting : r.caller = .starting rest := by simpa using hcaller
    rw [hflags (.inr ⟨rest, hstarting⟩)]
    exact hinv.starting rest hstarting other
  · intro hstate other
    have hidle : r.state = .idle := by simpa using hstate
    rw [hflags (.inl hidle)]
    exact hinv.fresh hidle other
  · intro rest point hcaller
    rw [Runtime.setNode_state]
    exact hinv.stopping rest point (by simpa using hcaller)
  · intro other rest hcaller
    have hshutdown : r.caller = .stopping (other :: rest) .shutdown := by simpa using hcaller
    by_cases hother : other = who
    · subst hother
      rw [Runtime.setNode_node_self]
      exact hdown rest hshutdown
    · rw [Runtime.setNode_node_of_ne r hother]
      exact hinv.joined other rest hshutdown

theorem setScheduler
    (hinv : FirstCycle r) (who : NodeId k) {label : Label (runtimeProgram Q)}
    {s : Scheduler (runtimeProgram Q)} (hstep : (r.node who).scheduler.step label = some s)
    (hcall : label.isCall = false) : FirstCycle (r.setScheduler who s) := by
  have hlabel : (∀ requested, label ≠ .callRun requested) ∧ label ≠ .callShutdown ∧
      label ≠ .callDestroy := by
    refine ⟨?_, ?_, ?_⟩
    · rintro requested rfl
      simp [Label.isCall] at hcall
    · rintro rfl
      simp [Label.isCall] at hcall
    · rintro rfl
      simp [Label.isCall] at hcall
  obtain ⟨hrun, hshutdown, hdestroy⟩ := hlabel
  apply hinv.setNode ((hinv.nodes who).step hstep hrun hshutdown hdestroy)
  · intro _
    rcases (Scheduler.move_of_step hstep).2.shuttingDown_cases with hsame | ⟨hlabel, -⟩
    · exact hsame
    · exact absurd hlabel (by simp [hshutdown, hdestroy])
  · intro rest hcaller
    exact hinv.joined who rest hcaller

theorem congr
    (hinv : FirstCycle r) (hnode : ∀ who, next.node who = r.node who)
    (hstarting : ∀ rest, next.caller = .starting rest →
      r.state = .idle ∨ ∃ rest', r.caller = .starting rest')
    (hstate : next.state = .idle → r.state = .idle)
    (hstopping : ∀ rest point, next.caller = .stopping rest point → next.state = .running)
    (hjoined : ∀ who rest, next.caller = .stopping (who :: rest) .shutdown →
      r.caller = .stopping (who :: rest) .shutdown ∨ (r.node who).thread = .exited) :
    FirstCycle next := by
  constructor
  · intro who
    rw [hnode]
    exact hinv.nodes who
  · intro rest hcaller who
    rw [hnode]
    rcases hstarting rest hcaller with hidle | ⟨rest', hstarting⟩
    · exact hinv.fresh hidle who
    · exact hinv.starting rest' hstarting who
  · intro hidle who
    rw [hnode]
    exact hinv.fresh (hstate hidle) who
  · exact hstopping
  · intro who rest hcaller
    rw [hnode]
    rcases hjoined who rest hcaller with hsame | hexited
    · exact hinv.joined who rest hsame
    · exact .inr hexited

theorem proceed
    (hinv : FirstCycle r) {who : NodeId k} {rest : List (NodeId k)} {point after : StopPoint}
    (hcaller : r.caller = .stopping (who :: rest) point)
    (hnode : ∀ other, next.node other = r.node other)
    (hnext : next.caller = .stopping (who :: rest) after) (hstate : next.state = r.state)
    (hjoin : after = .shutdown → (r.node who).thread = .exited) : FirstCycle next := by
  have hrunning := hinv.stopping _ _ hcaller
  refine hinv.congr hnode ?_ ?_ ?_ ?_
  · simp [hnext]
  · simp [hstate, hrunning]
  · intro _ _ _
    rw [hstate]
    exact hrunning
  · intro other rest' hshutdown
    rw [hnext] at hshutdown
    cases hshutdown
    exact .inr (hjoin rfl)

theorem step
    (hinv : FirstCycle r) {label : RuntimeLabel Q k} (hmove : r.Move label next)
    (honce : r.startsOnce label = true) : FirstCycle next := by
  cases hmove with
  | post hstep | posted hstep => exact hinv.setScheduler none hstep rfl
  | drives hinternal _ hstep =>
      exact hinv.setScheduler _ hstep (Lifecycle.not_isCall_of_isInternal hinternal)
  | returns _ _ hstep =>
      have hmoved := hinv.setScheduler none hstep rfl
      exact hmoved.congr (Runtime.node_congr rfl rfl) (fun rest h => .inr ⟨rest, h⟩) id
        hmoved.stopping (fun _ _ => .inl)
  | @pushes _ _ worker _ _ _ hstep | @writes _ _ worker _ _ _ _ hstep =>
      have hmoved := hinv.setScheduler (some worker) hstep rfl
      exact hmoved.congr (Runtime.node_congr rfl rfl) (fun rest h => .inr ⟨rest, h⟩) id
        hmoved.stopping (fun _ _ => .inl)
  | leavesStop _ _ _ hstep =>
      have hmoved := hinv.setScheduler _ hstep rfl
      refine hmoved.congr (Runtime.node_congr rfl rfl) ?_ id ?_ ?_ <;> simp
  | @threadStarts who _ s hthread hstep =>
      have hnode := (hinv.nodes who).callRun hthread hstep
      have hflag : s.shuttingDown = (r.node who).scheduler.shuttingDown := by
        rcases (Scheduler.move_of_step hstep).2.shuttingDown_cases with hsame | ⟨hlabel, -⟩
        · exact hsame
        · simp at hlabel
      have hset : (r.setScheduler who s).setThread who .running =
          r.setNode who { scheduler := s, thread := .running } := by
        cases who <;> simp [Runtime.setThread, Runtime.setScheduler, Runtime.setNode]
      rw [hset]
      apply hinv.setNode hnode (fun _ => hflag)
      intro rest hcaller
      simpa [hthread] using hinv.joined who rest hcaller
  | threadEnds hthread _ =>
      exact hinv.setNode ((hinv.nodes _).rethread (by simp)) (fun _ => rfl)
        (fun _ _ => .inr rfl)
  | terminates _ _ | noWorkers _ _ _ | chooses _ _ _ =>
      exact hinv.congr (Runtime.node_congr rfl rfl) (fun rest h => .inr ⟨rest, h⟩) id
        hinv.stopping (fun _ _ => .inl)
  | callIgnored _ => exact hinv
  | callStart hidle hstate =>
      have hfresh : r.state = .idle := by
        cases hcase : r.state with
        | idle => rfl
        | running => exact absurd hcase hstate
        | stopped => simp [Runtime.startsOnce, hcase] at honce
      refine hinv.congr (Runtime.node_congr rfl rfl) (fun _ _ => .inl hfresh) id ?_ ?_ <;>
        simp
  | callStop hidle hstate =>
      refine hinv.congr (Runtime.node_congr rfl rfl) ?_ id (fun _ _ _ => hstate) ?_ <;> simp
  | @createThread who rest hcaller =>
      have hnode : Node.FirstLife { r.node who with thread := .created false } :=
        (hinv.nodes who).rethread fun _ _ => hinv.starting _ hcaller who
      have hmoved : FirstCycle (r.setThread who (.created false)) :=
        hinv.setNode hnode (fun _ => rfl) (by simp [hcaller])
      refine hmoved.congr (Runtime.node_congr rfl rfl) ?_ id ?_ ?_
      · intro rest' _
        exact .inr ⟨_, (Runtime.setNode_caller r _ _).trans hcaller⟩
      · simp
      · simp
  | started hcaller =>
      refine hinv.congr (Runtime.node_congr rfl rfl) ?_ ?_ ?_ ?_ <;> simp
  | @requestEarly who rest _ hcaller hthread =>
      have hnode : Node.FirstLife { r.node who with thread := .created true } :=
        (hinv.nodes who).rethread fun _ _ =>
          (hinv.nodes who).alive (by simp [hthread]) (by simp [hthread])
      have hmoved : FirstCycle (r.setThread who (.created true)) :=
        hinv.setNode hnode (fun _ => rfl) (by simp [hcaller])
      exact hmoved.proceed ((Runtime.setNode_caller r _ _).trans hcaller)
        (Runtime.node_congr rfl rfl) rfl rfl (by simp)
  | requestStop hcaller hstep | stopCallback hcaller hstep =>
      exact (hinv.setScheduler _ hstep rfl).proceed
        ((Runtime.setNode_caller r _ _).trans hcaller) (Runtime.node_congr rfl rfl) rfl rfl
        (by simp)
  | pass hcaller hafter =>
      refine hinv.proceed hcaller (Runtime.node_congr rfl rfl) rfl rfl ?_
      rcases hafter with ⟨-, rfl⟩ | ⟨-, rfl⟩ | ⟨-, -, hexited⟩
      · simp
      · simp
      · intro _
        exact hexited
  | @shutdown who rest s hcaller hstep =>
      have hrunning := hinv.stopping _ _ hcaller
      have hnode := (hinv.nodes who).callShutdown (hinv.joined who rest hcaller) hstep
      have hmoved : FirstCycle (r.setScheduler who s) :=
        hinv.setNode hnode (by simp [hrunning, hcaller])
          (fun rest' hcaller' => hinv.joined who rest' hcaller')
      exact hmoved.proceed ((Runtime.setNode_caller r _ _).trans hcaller)
        (Runtime.node_congr rfl rfl) rfl rfl (by simp)
  | shutDown hcaller _ =>
      have hrunning := hinv.stopping _ _ hcaller
      refine hinv.congr (Runtime.node_congr rfl rfl) ?_ id (fun _ _ _ => hrunning) ?_ <;> simp
  | stopped hcaller =>
      refine hinv.congr (Runtime.node_congr rfl rfl) ?_ ?_ ?_ ?_ <;> simp

end FirstCycle

open Transition

end SlimCommonIo
