import SlimCommonIo.RunSimulation
import SlimCommonIo.RuntimeStop
import SlimCommonIo.SchedulerProgress

/-!
# One node of the runtime

What a step of the runtime does to one node: nothing, a step of its scheduler,
or a change of its thread.  A run of the runtime is therefore a run of each of
its schedulers, and what holds in every run of a scheduler holds of every node.
-/

namespace SlimCommonIo

open Transition

/-! ## A scheduler inside `run` -/

section Scheduler

variable {P : Program}

namespace Scheduler

/-- The driving thread is inside `run`. -/
def InRun (stack : List (Activation P)) : Prop :=
  stack.getLast? = some .run

/-- The `stop_callback` exists exactly while the driving thread is inside `run`. -/
def Registered (s : Scheduler P) : Prop :=
  s.stop.registered = true ↔ InRun s.stack

theorem not_inRun_nil : ¬ InRun ([] : List (Activation P)) := by
  simp [InRun]

theorem inRun_exchange
    {act : Activation P} {rest : List (Activation P)} (top : List (Activation P))
    (hact : act ≠ .run) (htop : .run ∉ top) : InRun (top ++ rest) ↔ InRun (act :: rest) := by
  cases rest with
  | nil =>
      simp only [InRun, List.append_nil, List.getLast?_singleton, Option.some.injEq, hact,
        iff_false]
      intro hlast
      exact htop (List.mem_of_getLast? hlast)
  | cons below rest =>
      rw [InRun, InRun, List.getLast?_cons_cons, List.getLast?_append]
      simp [List.getLast?_cons]

theorem inRun_deliver
    {status : Option ErrorStatus} {below stack : List (Activation P)}
    (hdeliver : deliver status below = some stack) : InRun stack ↔ InRun below := by
  unfold deliver at hdeliver
  split at hdeliver
  all_goals simp at hdeliver
  all_goals subst hdeliver
  · rfl
  · exact inRun_exchange [.job _ _] (by simp) (by simp)
  · exact inRun_exchange [.coroutine _ _] (by simp) (by simp)

theorem CallsSpawn.inRun
    {s : Scheduler P} {label : Label P} {body : P.Code} {below : List (Activation P)}
    (hcall : CallsSpawn s label body below) : InRun below ↔ InRun s.stack := by
  cases hcall with
  | job hstack _ =>
      rw [hstack]
      exact inRun_exchange [.jobInSpawn _ _] (by simp) (by simp)
  | coroutine hstack _ _ =>
      rw [hstack]
      exact inRun_exchange [.coroutineInSpawn _ _] (by simp) (by simp)
  | client hstack _ => rw [hstack]

/-- A call of the thread which is inside `run` or of another keeps it there. -/
theorem Registered.exchange
    {s next : Scheduler P} (hregistered : Registered s) {act : Activation P}
    {rest : List (Activation P)} (top : List (Activation P)) (hstack : s.stack = act :: rest)
    (hact : act ≠ .run) (htop : .run ∉ top) (hnext : next.stack = top ++ rest)
    (hstop : next.stop = s.stop) : Registered next := by
  rw [Registered, hstop, hnext, inRun_exchange top hact htop, ← hstack]
  exact hregistered

theorem Registered.step
    {s next : Scheduler P} {label : Label P} (hregistered : Registered s)
    (hwell : WellStacked s.stack) (hmove : Move s label next) : Registered next := by
  cases hmove with
  | leaveRun hstack _ =>
      rw [hstack] at hwell
      have hbelow := hwell.1
      simp only [Activation.StandsOn] at hbelow
      subst hbelow
      simp [Registered, not_inRun_nil]
  | loopRun hstack _ =>
      rw [hstack] at hwell
      have hbelow := hwell.1
      simp only [Activation.StandsOn] at hbelow
      subst hbelow
      have hinside : InRun s.stack := by rw [hstack]; rfl
      exact ⟨fun _ => rfl, fun _ => hregistered.mpr hinside⟩
  | escape _ _ => simp [Registered, not_inRun_nil]
  | leaveShutdown hstack _ | destructor hstack | reap hstack | endLoop hstack
  | endInbox hstack | endJob hstack _ | eventfdWrite hstack | stage hstack _ _ _ _ =>
      exact hregistered.exchange [] hstack (by simp) (by simp) rfl rfl
  | loopShutdown hstack _ =>
      exact hregistered.exchange [.drain .start, .reap, .shutdown] hstack (by simp) (by simp)
        rfl rfl
  | armedStart hstack _ | arm hstack _ | enter hstack _ _ _ | wake hstack _ | scan hstack
  | handleNull hstack _ _ | handleDangling hstack _ _ _ | resumed hstack
  | inboxDone hstack =>
      exact hregistered.exchange [.drain _] hstack (by simp) (by simp) rfl rfl
  | handleSentinel hstack _ _ =>
      exact hregistered.exchange [.swapInbox, .drain _] hstack (by simp) (by simp) rfl rfl
  | handleAwaitable hstack _ _ _ _ _ _ _ _ =>
      exact hregistered.exchange [.coroutine _ _, .drain _] hstack (by simp) (by simp) rfl rfl
  | swapInbox hstack =>
      exact hregistered.exchange [.drainInbox _] hstack (by simp) (by simp) rfl rfl
  | invoke hstack =>
      exact hregistered.exchange [.job _ _, .drainInbox _] hstack (by simp) (by simp) rfl rfl
  | requeue hstack _ =>
      exact hregistered.exchange [.eventfdWrite] hstack (by simp) (by simp) rfl rfl
  | post hcall =>
      cases hcall with
      | job hstack _ =>
          exact hregistered.exchange [.eventfdWrite, .job _ _] hstack (by simp) (by simp)
            rfl rfl
      | coroutine hstack _ _ =>
          exact hregistered.exchange [.eventfdWrite, .coroutine _ _] hstack (by simp)
            (by simp) rfl rfl
  | spawnFull hcall _ hdeliver =>
      exact hregistered.trans (hcall.inRun.symm.trans (inRun_deliver hdeliver).symm)
  | @spawnStart _ body below hcall _ =>
      refine hregistered.trans (hcall.inRun.symm.trans ?_)
      cases below with
      | nil => simp [InRun]
      | cons act rest =>
          simp only [InRun, List.getLast?_cons_cons]
  | spawnRefused hstack _ hdeliver | spawnAccepted hstack _ hdeliver
  | spawnBadAlloc hstack _ hdeliver =>
      refine hregistered.trans (Iff.trans ?_ (inRun_deliver hdeliver).symm)
      rw [hstack]
      exact (inRun_exchange [] (by simp) (by simp)).symm
  | effect hstack _ _ | refused hstack _ _ _ _ | awaitTask hstack _ _ =>
      exact hregistered.exchange [.coroutine _ _] hstack (by simp) (by simp) rfl rfl
  | endRoot hends _ =>
      obtain ⟨code, hstack⟩ := hends.stack
      exact hregistered.exchange [] hstack (by simp) (by simp) rfl rfl
  | endInner hends _ _ =>
      obtain ⟨code, hstack⟩ := hends.stack
      exact hregistered.exchange [.coroutine _ _] hstack (by simp) (by simp) rfl rfl
  | callResume hstack _ | callShutdown hstack _ | callDestroyBusy hstack _ _ =>
      refine hregistered.trans ?_
      rw [hstack]
      simp [InRun]
  | callRun _ _ => exact ⟨fun _ => rfl, fun _ => rfl⟩
  | endAstray _ _ _ | astray _ _ | complete _ _ _ | enqueue _ | notify _ | dropTask _
  | foreignRefusal _ | callDestroy _ _ _ | requestStop _ _ | stopCallback _ _ _ =>
      exact hregistered

/-- The driving thread leaves `run` when a stop has been requested, or with an
exception. -/
theorem Move.inRun
    {s next : Scheduler P} {label : Label P} (hmove : Move s label next)
    (hregistered : Registered s) (hwell : WellStacked s.stack)
    (hcall : label.isCall = false) (hrun : InRun s.stack) :
    InRun next.stack ∨ next.stack = [] ∧ (s.stop.requested = true ∨ s.throwing = true) := by
  have hnext := hregistered.step hwell hmove
  have hkept : next.stop.registered = s.stop.registered → InRun next.stack :=
    fun hsame => hnext.mp (hsame.trans (hregistered.mpr hrun))
  cases hmove with
  | leaveRun hstack hstop =>
      rw [hstack] at hwell
      exact .inr ⟨hwell.1, .inl hstop⟩
  | escape hstack hcode => exact .inr ⟨rfl, .inr (throwing_of_job hstack (.inl hcode))⟩
  | callRun _ _ => simp [Label.isCall] at hcall
  | _ => exact .inl (hkept rfl)

theorem Move.requested_kept
    {s next : Scheduler P} {label : Label P} (hmove : Move s label next)
    (hcall : label.isCall = false) :
    (s.stop.requested = true → next.stop.requested = true) ∧
      (s.stop.called = true → next.stop.called = true) ∧
      (label ≠ .requestStop → next.stop.requested = s.stop.requested) := by
  cases hmove with
  | requestStop _ _ => exact ⟨fun _ => rfl, id, fun hlabel => absurd rfl hlabel⟩
  | stopCallback _ _ _ => exact ⟨id, fun _ => rfl, fun _ => rfl⟩
  | callRun _ _ => simp [Label.isCall] at hcall
  | _ => exact ⟨id, id, fun _ => rfl⟩

theorem Move.callRun_eq
    {s next : Scheduler P} {requested : Bool} (hmove : Move s (.callRun requested) next) :
    next.stack = [.run] ∧ next.stop =
      { requested := requested, registered := true, called := requested } := by
  cases hmove with
  | callRun _ _ => exact ⟨rfl, rfl⟩
  | wake _ hlabel => simp at hlabel
  | spawnFull hcall _ _ | spawnStart hcall _ => cases hcall

theorem Move.stopCallback_eq
    {s next : Scheduler P} (hmove : Move s .stopCallback next) :
    next.stack = s.stack ∧ next.stop.called = true := by
  cases hmove with
  | stopCallback _ _ _ => exact ⟨rfl, rfl⟩
  | wake _ hlabel => simp at hlabel
  | spawnFull hcall _ _ | spawnStart hcall _ => cases hcall

theorem Move.closed_kept
    {s next : Scheduler P} {label : Label P} (hmove : Move s label next)
    (hlabel : label ≠ .callDestroy) :
    next.closed = s.closed ∨ ∃ rest, s.stack = .destructor :: rest := by
  cases hmove with
  | destructor hstack => exact .inr ⟨_, hstack⟩
  | callDestroy _ _ _ => exact absurd rfl hlabel
  | _ => exact .inl rfl

theorem Move.unnotified_kept
    {s next : Scheduler P} {label : Label P} (hmove : Move s label next)
    (henqueue : ∀ job, label ≠ .enqueue job) (hnotify : ∀ id, label ≠ .notify id) :
    next.unnotified = s.unnotified := by
  cases hmove with
  | enqueue _ => exact absurd rfl (henqueue _)
  | notify _ => exact absurd rfl (hnotify _)
  | _ => rfl

end Scheduler

end Scheduler

/-! ## One node -/

variable {Q : Program} {k : ℕ}

namespace Runtime

/-- The effect of a step of the runtime on the node `who`. -/
inductive NodeStep (r : Runtime Q k) (action : RuntimeLabel Q k) (next : Runtime Q k)
    (who : NodeId k) : Prop
  | same (hnode : next.node who = r.node who)
  | moves (label : Label (runtimeProgram Q)) (hcall : label.isCall = false)
      (hrunner : ∀ allocated, label = .runner allocated → action = .drives who label)
      (hrequest : label = .requestStop →
        ∃ rest, r.caller = .stopping (who :: rest) .request ∧
          next.caller = .stopping (who :: rest) .callback)
      (hthread : (next.node who).thread = (r.node who).thread)
      (hstep : (r.node who).scheduler.step label = some (next.node who).scheduler)
  | starts (requested : Bool) (hbefore : (r.node who).thread = .created requested)
      (hafter : (next.node who).thread = .running)
      (hstep : (r.node who).scheduler.step (.callRun requested) =
        some (next.node who).scheduler)
  | ends (hbefore : (r.node who).thread = .running)
      (hstack : (r.node who).scheduler.stack = [])
      (hnode : next.node who = { r.node who with thread := .exited })
  | created (rest : List (NodeId k)) (hcaller : r.caller = .starting (who :: rest))
      (hnode : next.node who = { r.node who with thread := .created false })
  | askedEarly (rest : List (NodeId k)) (requested : Bool)
      (hcaller : r.caller = .stopping (who :: rest) .request)
      (hnext : next.caller = .stopping (who :: rest) .callback)
      (hbefore : (r.node who).thread = .created requested)
      (hnode : next.node who = { r.node who with thread := .created true })
  | shutdown (rest : List (NodeId k)) (hcaller : r.caller = .stopping (who :: rest) .shutdown)
      (hthread : (next.node who).thread = (r.node who).thread)
      (hstep : (r.node who).scheduler.step .callShutdown = some (next.node who).scheduler)

variable {r next : Runtime Q k} {action : RuntimeLabel Q k}

/-- One node changes; the others are left alone. -/
theorem NodeStep.of_setNode
    (changed : NodeId k) (node : Node Q)
    (hnodes : ∀ other, next.node other = (r.setNode changed node).node other)
    (hchanged : next.node changed = node → NodeStep r action next changed) (who : NodeId k) :
    NodeStep r action next who := by
  by_cases hwho : who = changed
  · subst hwho
    exact hchanged (by rw [hnodes, setNode_node_self])
  · exact .same (by rw [hnodes, setNode_node_of_ne r hwho])

/-- A scheduler makes a step which is no call. -/
theorem NodeStep.of_moves
    (mover : NodeId k) {label : Label (runtimeProgram Q)} {s : Scheduler (runtimeProgram Q)}
    (hstep : (r.node mover).scheduler.step label = some s) (hcall : label.isCall = false)
    (hrunner : ∀ allocated, label = .runner allocated → action = .drives mover label)
    (hrequest : label = .requestStop →
      ∃ rest, r.caller = .stopping (mover :: rest) .request ∧
        next.caller = .stopping (mover :: rest) .callback)
    (hnodes : ∀ other, next.node other = (r.setScheduler mover s).node other)
    (who : NodeId k) : NodeStep r action next who := by
  refine .of_setNode mover { r.node mover with scheduler := s } hnodes (fun hnode => ?_) who
  exact .moves label hcall hrunner hrequest (by rw [hnode]) (by rw [hnode]; exact hstep)

theorem Move.nodeStep (hmove : r.Move action next) (who : NodeId k) :
    NodeStep r action next who := by
  have hsame : (∀ other, next.node other = r.node other) → NodeStep r action next who :=
    fun hnodes => .same (hnodes who)
  cases hmove with
  | post hstep | posted hstep =>
      refine .of_moves none hstep rfl (by simp) (by simp) ?_ who
      exact fun _ => rfl
  | drives hinternal _ hstep =>
      refine .of_moves _ hstep (Lifecycle.not_isCall_of_isInternal hinternal) ?_ ?_ ?_ who
      · rintro allocated rfl
        rfl
      · rintro rfl
        simp [Label.isInternal] at hinternal
      · exact fun _ => rfl
  | returns _ _ hstep =>
      refine .of_moves none hstep rfl (fun _ _ => rfl) (by simp) ?_ who
      exact node_congr rfl rfl
  | leavesStop _ _ _ hstep =>
      refine .of_moves _ hstep rfl (fun _ _ => rfl) (by simp) ?_ who
      exact node_congr rfl rfl
  | @pushes _ _ worker _ _ _ hstep | @writes _ _ worker _ _ _ _ hstep =>
      refine .of_moves (some worker) hstep rfl (by simp) (by simp) ?_ who
      exact node_congr rfl rfl
  | @threadStarts started requested s hthread hstep =>
      have hnodes : ∀ other, ((r.setScheduler started s).setThread started .running).node
          other = (r.setNode started { scheduler := s, thread := .running }).node other := by
        intro other
        by_cases hother : other = started
        · subst hother
          simp [setThread, setScheduler]
        · simp only [setThread, setScheduler, setNode_node_of_ne _ hother]
      refine .of_setNode started _ hnodes (fun hnode => ?_) who
      exact .starts requested hthread (by rw [hnode]) (by rw [hnode]; exact hstep)
  | threadEnds hthread hstack =>
      exact .of_setNode _ _ (fun _ => rfl) (.ends hthread hstack) who
  | createThread hcaller =>
      refine .of_setNode _ _ ?_ (.created _ hcaller) who
      exact node_congr rfl rfl
  | requestEarly hcaller hthread =>
      refine .of_setNode _ _ ?_ (.askedEarly _ _ hcaller rfl hthread) who
      exact node_congr rfl rfl
  | requestStop hcaller hstep =>
      refine .of_moves _ hstep rfl (by simp) (fun _ => ⟨_, hcaller, rfl⟩) ?_ who
      exact node_congr rfl rfl
  | stopCallback hcaller hstep =>
      refine .of_moves _ hstep rfl (by simp) (by simp) ?_ who
      exact node_congr rfl rfl
  | @shutdown stopped rest s hcaller hstep =>
      refine .of_setNode stopped { r.node stopped with scheduler := s } ?_ (fun hnode => ?_) who
      · exact node_congr rfl rfl
      · exact .shutdown rest hcaller (by rw [hnode]) (by rw [hnode]; exact hstep)
  | terminates _ _ | noWorkers _ _ _ | chooses _ _ _ | callIgnored _ | callStart _ _
  | callStop _ _ | started _ | pass _ _ | shutDown _ _ | stopped _ =>
      exact hsame (node_congr rfl rfl)

/-- Each step of the runtime leaves a scheduler alone or is a step of it; the
driving thread of the scheduler is moved by steps driving this node only. -/
def ActsOn (who : NodeId k) (_ : Runtime Q k) (action : RuntimeLabel Q k)
    (label : Label (runtimeProgram Q)) : Prop :=
  ∀ allocated, label = .runner allocated → action = .drives who label

theorem simulates_scheduler (who : NodeId k) :
    Simulates (Runtime.step (Q := Q) (k := k)) Scheduler.step
      (fun r s => (r.node who).scheduler = s) (ActsOn who) := by
  refine simulates_of_component (fun r : Runtime Q k => (r.node who).scheduler) ?_
  intro r action next hstep
  cases (move_of_step hstep).nodeStep who with
  | same hnode => exact .inl (by rw [hnode])
  | moves label _ hrunner _ _ hmoves => exact .inr ⟨label, hrunner, hmoves⟩
  | starts requested _ _ hcalls => exact .inr ⟨_, by simp [ActsOn], hcalls⟩
  | shutdown _ _ _ hcalls => exact .inr ⟨_, by simp [ActsOn], hcalls⟩
  | ends _ _ hnode | created _ _ hnode | askedEarly _ _ _ _ _ hnode =>
      exact .inl (by rw [hnode])

/-- No drain of the runtime arms its eventfd read on a full ring in this step. -/
def armsWithRoom (r : Runtime Q k) (action : RuntimeLabel Q k) : Bool :=
  match action with
  | .drives who label => (r.node who).scheduler.armsWithRoom label
  | _ => true

/-- The rings of a runtime right after its constructor. -/
structure FreshRings (dispatcherIo : IoState) (workerIo : Fin k → IoState) : Prop where
  dispatcher : dispatcherIo.Fresh
  workers : ∀ worker, (workerIo worker).Fresh

variable {dispatcherIo : IoState} {workerIo : Fin k → IoState} {fd : NodeId k → Int32}
  {addr : NodeId k → UInt64} {history : List (Runtime Q k × RuntimeLabel Q k)}
  {final : Runtime Q k}

/-- What is proved of the final states of a scheduler's own runs holds of every
scheduler of the runtime. -/
theorem scheduler_of_run
    (hrings : FreshRings dispatcherIo workerIo)
    (hrun : Run Runtime.step (Runtime.initial Q dispatcherIo workerIo fd addr) history final)
    (who : NodeId k) (allowed : Scheduler (runtimeProgram Q) → Label (runtimeProgram Q) → Prop)
    (good : Scheduler (runtimeProgram Q) → Prop)
    (hallowed : ∀ visit ∈ history, ∀ label, ActsOn who visit.1 visit.2 label →
      allowed (visit.1.node who).scheduler label)
    (hgood : ∀ io : IoState, io.Fresh → ∀ inner last,
      Run Scheduler.step (Scheduler.initial (runtimeProgram Q) io (fd who) (addr who))
        inner last →
      (∀ visit ∈ inner, allowed visit.1 visit.2) → good last) :
    good (final.node who).scheduler := by
  have hfresh : ∃ io : IoState, io.Fresh ∧
      ((Runtime.initial Q dispatcherIo workerIo fd addr).node who).scheduler =
        Scheduler.initial (runtimeProgram Q) io (fd who) (addr who) := by
    cases who with
    | none => exact ⟨dispatcherIo, hrings.dispatcher, rfl⟩
    | some worker => exact ⟨workerIo worker, hrings.workers worker, rfl⟩
  obtain ⟨io, hio, hinitial⟩ := hfresh
  obtain ⟨last, hsame, hlast⟩ := (simulates_scheduler who).forall_runs hinitial allowed good
    (hgood io hio) hrun (by
      intro visit hvisit s label hscheduler hacts
      exact hscheduler ▸ hallowed visit hvisit label hacts)
  exact hsame ▸ hlast

theorem armsWithRoom_of_actsOn
    {r : Runtime Q k} {action : RuntimeLabel Q k} (hroom : r.armsWithRoom action = true)
    {who : NodeId k} {label : Label (runtimeProgram Q)} (hacts : ActsOn who r action label) :
    (r.node who).scheduler.armsWithRoom label = true := by
  cases label with
  | runner allocated =>
      rw [hacts allocated rfl] at hroom
      exact hroom
  | _ => rfl

end Runtime

end SlimCommonIo
