import SlimCommonIo.BusyThread
import SlimCommonIo.RuntimeRest

/-!
# The threads of the runtime never spin

What holds of one driving thread holds of all threads of a runtime together: the
dispatcher, which hands jobs to the workers between its own steps, the workers,
and the thread inside `start` or `stop` until it calls `shutdown`.  Between two
events from outside they take finitely many steps, in any interleaving.
-/

namespace SlimCommonIo

open Relation Transition

variable {Q : Program} {k : ℕ}

/-! ## Work of client code -/

section MapJob

variable {Code Job Job' Effect Value Exc : Type} {f : Job → Job'}

theorem Instr.mapJob_eq_effect
    {instr : Instr Code Job Effect Value Exc} {visible : Effect} {next : Code} :
    instr.mapJob f = .effect visible next ↔ instr = .effect visible next := by
  cases instr <;> simp [mapJob]

theorem Instr.mapJob_eq_coAwait
    {instr : Instr Code Job Effect Value Exc} {object : ℕ} {construct : Option Awaitable}
    {next : Int32 → Code} :
    instr.mapJob f = .coAwait object construct next ↔ instr = .coAwait object construct next := by
  cases instr <;> simp [mapJob]

theorem Instr.mapJob_eq_coAwaitTask
    {instr : Instr Code Job Effect Value Exc} {type : TaskType} {inner : Code}
    {next : Except Exc (Option Value) → Code} :
    instr.mapJob f = .coAwaitTask type inner next ↔ instr = .coAwaitTask type inner next := by
  cases instr <;> simp [mapJob]

theorem Instr.mapJob_eq_spawn
    {instr : Instr Code Job Effect Value Exc} {body : Code} {next : Option ErrorStatus → Code} :
    instr.mapJob f = .spawn body next ↔ instr = .spawn body next := by
  cases instr <;> simp [mapJob]

theorem Instr.mapJob_eq_post
    {instr : Instr Code Job Effect Value Exc} {job : Job'} {next : Code} :
    instr.mapJob f = .post job next ↔ ∃ inner, instr = .post inner next ∧ f inner = job := by
  cases instr <;> simp [mapJob, and_comm]

theorem JobInstr.mapJob_eq_spawn
    {instr : JobInstr Code Job} {body : Code} {next : Option ErrorStatus → Job'} :
    instr.mapJob f = .spawn body next ↔
      ∃ inner, instr = .spawn body inner ∧ (fun status => f (inner status)) = next := by
  cases instr <;> simp [mapJob, and_comm]

theorem JobInstr.mapJob_eq_post
    {instr : JobInstr Code Job} {job next : Job'} :
    instr.mapJob f = .post job next ↔
      ∃ inner after, instr = .post inner after ∧ f inner = job ∧ f after = next := by
  cases instr <;> simp [mapJob]

end MapJob

namespace Work

/-- Work of the client's program on a scheduler of the runtime. -/
def onRuntime : Work Q → Work (runtimeProgram Q)
  | .code body => .code (P := runtimeProgram Q) body
  | .job fn => .job (P := runtimeProgram Q) (.client fn)
  | .taken fn => .taken (P := runtimeProgram Q) (.client fn)
  | .inTask next => .inTask (P := runtimeProgram Q) next
  | .inSpawn next => .inSpawn (P := runtimeProgram Q) next
  | .jobInSpawn next => .jobInSpawn (P := runtimeProgram Q) fun status => .client (next status)

variable {refusals : Prop}

/-- Nothing but client code follows client code. -/
theorem Follows.of_onRuntime
    {work : Work Q} {after : Work (runtimeProgram Q)}
    (hfollows : Follows refusals after work.onRuntime) :
    ∃ next : Work Q, next.onRuntime = after ∧ Follows refusals next work := by
  cases work with
  | code body =>
      cases hfollows with
      | effect hcode => exact ⟨.code _, rfl, .effect (Instr.mapJob_eq_effect.mp hcode)⟩
      | refused hrefusals hcode value =>
          exact ⟨.code _, rfl, .refused hrefusals (Instr.mapJob_eq_coAwait.mp hcode) value⟩
      | inner hcode => exact ⟨.code _, rfl, .inner (Instr.mapJob_eq_coAwaitTask.mp hcode)⟩
      | inTask hcode => exact ⟨.inTask _, rfl, .inTask (Instr.mapJob_eq_coAwaitTask.mp hcode)⟩
      | body hcode => exact ⟨.code _, rfl, .body (Instr.mapJob_eq_spawn.mp hcode)⟩
      | inSpawn hcode => exact ⟨.inSpawn _, rfl, .inSpawn (Instr.mapJob_eq_spawn.mp hcode)⟩
      | post hcode =>
          obtain ⟨inner, hpost, -⟩ := Instr.mapJob_eq_post.mp hcode
          exact ⟨.code _, rfl, .post hpost⟩
  | job fn =>
      cases hfollows with
      | jobBody hcode =>
          obtain ⟨inner, hspawn, -⟩ := JobInstr.mapJob_eq_spawn.mp hcode
          exact ⟨.code _, rfl, .jobBody hspawn⟩
      | jobInSpawn hcode =>
          obtain ⟨inner, hspawn, rfl⟩ := JobInstr.mapJob_eq_spawn.mp hcode
          exact ⟨.jobInSpawn inner, rfl, .jobInSpawn hspawn⟩
      | jobPost hcode =>
          obtain ⟨inner, next, hpost, -, rfl⟩ := JobInstr.mapJob_eq_post.mp hcode
          exact ⟨.job next, rfl, .jobPost hpost⟩
  | taken fn =>
      cases hfollows
      exact ⟨.job fn, rfl, .invoked⟩
  | inTask next =>
      cases hfollows with
      | joined outcome => exact ⟨.code (next outcome), rfl, @Follows.joined Q _ next outcome⟩
  | inSpawn next =>
      cases hfollows with
      | spawned status => exact ⟨.code (next status), rfl, .spawned status⟩
  | jobInSpawn next =>
      cases hfollows with
      | jobSpawned status => exact ⟨.job (next status), rfl, .jobSpawned status⟩

theorem acc_onRuntime
    {work : Work Q} (hacc : Acc (Follows refusals) work) :
    Acc (Follows refusals) work.onRuntime := by
  induction hacc with
  | intro work _ ih =>
      refine .intro _ fun after hafter => ?_
      obtain ⟨next, rfl, hfollows⟩ := hafter.of_onRuntime
      exact ih next hfollows

end Work

/-- The runtime adds callables which return. -/
theorem Program.Yields.onRuntime
    {refusals : Prop} (hyields : Q.Yields refusals) : (runtimeProgram Q).Yields refusals := by
  refine Program.yields_of_acc (fun body => Work.acc_onRuntime (hyields.apply (.code body)))
    fun fn => ?_
  cases fn with
  | dispatch job => exact Work.acc_of_ends (.inl rfl)
  | client code => exact Work.acc_onRuntime (hyields.apply (.job code))

/-! ## Where the runtime stands -/

def ThreadState.stage : ThreadState → ℕ
  | .created _ => 4
  | .running => 2
  | .absent | .exited => 0

def StopPoint.toGo : StopPoint → ℕ
  | .request => 4
  | .callback => 3
  | .join => 2
  | .shutdown => 1
  | .shuttingDown => 0

def Caller.toGo : Caller k → ℕ
  | .idle => 0
  | .starting rest => rest.length + 1
  | .stopping rest point => 5 * rest.length + point.toGo + 1

def DispatchPhase.toGo : DispatchPhase k → ℕ
  | .fresh => 3
  | .chosen _ => 2
  | .pushed _ _ => 1
  | .written => 0

namespace Scheduler

variable {P : Program} {s next : Scheduler P} {refusals : Prop}

def hasEnded (s : Scheduler P) : Bool :=
  s.stack.isEmpty || s.crash.isSome

theorem hasEnded_iff : s.hasEnded = true ↔ s.stack = [] ∨ s.crash.isSome = true := by
  simp [hasEnded]

theorem effort_of_enqueue
    {job : P.Job} (hstep : s.step (.enqueue job) = some next) :
    next.effort = s.effort ∧ next.hasEnded = s.hasEnded := by
  have hmove := (move_of_step hstep).2
  cases hmove with
  | enqueue => exact ⟨rfl, rfl⟩
  | wake _ hlabel => simp at hlabel
  | spawnFull hcall | spawnStart hcall => cases hcall

theorem effort_of_notify
    {id : ℕ} (hstep : s.step (.notify id) = some next) :
    next.effort = s.effort ∧ next.hasEnded = s.hasEnded := by
  have hmove := (move_of_step hstep).2
  cases hmove with
  | notify => exact ⟨rfl, rfl⟩
  | wake _ hlabel => simp at hlabel
  | spawnFull hcall | spawnStart hcall => cases hcall

end Scheduler

/-- How far the thread of a node is in its life, then what it has to do. -/
abbrev NodeEffort (Q : Program) :=
  ℕ × Effort (Work (runtimeProgram Q)) (ℕ ×ₗ ℕ) (ℕ ×ₗ ℕ ×ₗ ℕ)

def Node.effort (node : Node Q) : NodeEffort Q :=
  (node.thread.stage + if node.scheduler.hasEnded then 0 else 1, node.scheduler.effort)

def Node.Lower (refusals : Prop) : NodeEffort Q → NodeEffort Q → Prop :=
  Prod.Lex (· < ·) (Effort.Lower (Work.Follows refusals))

theorem Node.effort_stage_le (node : Node Q) : node.effort.1 ≤ node.thread.stage + 1 := by
  unfold Node.effort
  split <;> simp

theorem Node.lower_of_goesOn
    {refusals : Prop} {node next : Node Q} (hawake : node.scheduler.Awake)
    (hthread : next.thread = node.thread)
    (hstep : Scheduler.GoesOn refusals node.scheduler next.scheduler) :
    Node.Lower refusals next.effort node.effort := by
  have hbefore : node.scheduler.hasEnded = false := by
    rw [← Bool.not_eq_true, Scheduler.hasEnded_iff]
    exact fun hended => Scheduler.not_goesOn_of_stuck hended _ hstep
  unfold Node.Lower Node.effort
  rw [hthread, hbefore]
  rcases hawake.ended_or_lower hstep with hended | hlower
  · rw [Scheduler.hasEnded_iff.mpr hended]
    exact .left _ _ (by simp)
  · cases next.scheduler.hasEnded with
    | false => exact .right _ hlower
    | true => exact .left _ _ (by simp)

namespace Runtime

variable {refusals : Prop} {r next : Runtime Q k}

/-- The thread inside `stop` is about to call `shutdown` on a scheduler. -/
def callsShutdown (r : Runtime Q k) : Bool :=
  match r.caller with
  | .stopping (_ :: _) .shutdown => true
  | _ => false

/-- Steps of the threads inside the runtime. -/
def goesOn (r : Runtime Q k) : RuntimeLabel Q k → Bool
  | .drives who label => (r.node who).scheduler.goesOn label
  | .dispatch | .threadStarts _ | .threadEnds _ => true
  | .caller => !r.callsShutdown
  | _ => false

def acceptsAwait (r : Runtime Q k) : RuntimeLabel Q k → Bool
  | .drives who label => (r.node who).scheduler.acceptsAwait label
  | _ => true

/-- A step which nothing from outside of the runtime has brought about. -/
def GoesOn (refusals : Prop) (r next : Runtime Q k) : Prop :=
  ∃ label, r.goesOn label = true ∧ (r.acceptsAwait label = true ∨ refusals) ∧
    r.step label = some next

def Awake (r : Runtime Q k) : Prop :=
  ∀ who, (r.node who).scheduler.Awake

theorem Awake.of_nodes
    (hawake : Awake r) (hnodes : ∀ who, (next.node who).scheduler = (r.node who).scheduler) :
    Awake next :=
  fun who => hnodes who ▸ hawake who

theorem Awake.of_scheduler
    (hawake : Awake r) (who : NodeId k) {label : Label (runtimeProgram Q)}
    {s : Scheduler (runtimeProgram Q)} (hstep : (r.node who).scheduler.step label = some s)
    (hshutdown : label ≠ .callShutdown) (hdestroy : label ≠ .callDestroy)
    (hnodes : ∀ other,
      (next.node other).scheduler = ((r.setScheduler who s).node other).scheduler) :
    Awake next := by
  intro other
  rw [hnodes]
  by_cases hother : other = who
  · rw [hother, setScheduler, setNode_node_self]
    exact (hawake who).step hstep hshutdown hdestroy
  · rw [setScheduler, setNode_node_of_ne r hother]
    exact hawake other

theorem Awake.goesOn (hawake : Awake r) (hstep : GoesOn refusals r next) : Awake next := by
  obtain ⟨label, hgoes, -, hstep⟩ := hstep
  have hsame : (∀ other, next.node other = r.node other) → Awake next :=
    fun hnodes => hawake.of_nodes fun other => congrArg Node.scheduler (hnodes other)
  cases move_of_step hstep with
  | @drives who label s hinternal _ hmoves =>
      refine hawake.of_scheduler who hmoves ?_ ?_ fun _ => rfl
      · rintro rfl
        simp [Label.isInternal] at hinternal
      · rintro rfl
        simp [Label.isInternal] at hinternal
  | returns _ _ hmoves =>
      exact hawake.of_scheduler none hmoves (by simp) (by simp)
        fun other => congrArg Node.scheduler (node_congr rfl rfl other)
  | @pushes _ _ worker _ _ _ hmoves | @writes _ _ worker _ _ _ _ hmoves =>
      exact hawake.of_scheduler (some worker) hmoves (by simp) (by simp)
        fun other => congrArg Node.scheduler (node_congr rfl rfl other)
  | @leavesStop who _ _ _ _ _ hmoves | @requestStop who _ _ _ hmoves
  | @stopCallback who _ _ _ hmoves =>
      exact hawake.of_scheduler who hmoves (by simp) (by simp)
        fun other => congrArg Node.scheduler (node_congr rfl rfl other)
  | @threadStarts who _ _ _ hmoves =>
      exact hawake.of_scheduler who hmoves (by simp) (by simp)
        fun other => setThread_scheduler _ _ other _
  | shutdown hcaller _ => simp [Runtime.goesOn, callsShutdown, hcaller] at hgoes
  | post | posted => simp [Runtime.goesOn] at hgoes
  | threadEnds _ _ => exact hawake.of_nodes fun other => setThread_scheduler r _ other _
  | @createThread who rest _ =>
      refine hawake.of_nodes fun other => ?_
      rw [← r.setThread_scheduler who other (.created false)]
      exact congrArg Node.scheduler (node_congr rfl rfl other)
  | @requestEarly who rest _ _ _ =>
      refine hawake.of_nodes fun other => ?_
      rw [← r.setThread_scheduler who other (.created true)]
      exact congrArg Node.scheduler (node_congr rfl rfl other)
  | terminates | noWorkers | chooses | callIgnored | callStart | callStop | started | pass
  | shutDown | stopped => exact hsame (node_congr rfl rfl)

/-! ## What a step takes away -/

/-- What `start` or `stop` has still to do comes first, as it lets threads go on;
what the dispatcher's callable has to do comes last, as it is no work for a
scheduler. -/
abbrev RuntimeEffort (Q : Program) (k : ℕ) :=
  ℕ × (NodeId k → NodeEffort Q) × ℕ

def effort (r : Runtime Q k) : RuntimeEffort Q k :=
  (r.caller.toGo, fun who => (r.node who).effort, r.phase.toGo)

def Lower (refusals : Prop) : RuntimeEffort Q k → RuntimeEffort Q k → Prop :=
  Prod.Lex (· < ·) (Prod.Lex (LowerAt (Node.Lower refusals)) (· < ·))

theorem Lower.wellFounded
    (hyields : Q.Yields refusals) : WellFounded (Lower (Q := Q) (k := k) refusals) := by
  have hnat : WellFounded fun next before : ℕ => next < before := wellFounded_lt
  have hnode : WellFounded (Node.Lower (Q := Q) refusals) :=
    hnat.prod_lex (Effort.Lower.wellFounded hyields.onRuntime)
  exact hnat.prod_lex ((LowerAt.wellFounded hnode).prod_lex hnat)

theorem lower_of_caller (hcaller : next.caller.toGo < r.caller.toGo) :
    Lower refusals next.effort r.effort :=
  .left _ _ hcaller

theorem lower_of_node
    (who : NodeId k) (hlower : Node.Lower refusals (next.node who).effort (r.node who).effort)
    (hothers : ∀ other, other ≠ who → next.node other = r.node other)
    (hcaller : next.caller.toGo ≤ r.caller.toGo) : Lower refusals next.effort r.effort := by
  rcases hcaller.lt_or_eq with hless | heq
  · exact lower_of_caller hless
  · unfold Lower effort
    rw [heq]
    exact .right _ (.left _ _ ⟨who, hlower, fun other hne =>
      congrArg Node.effort (hothers other hne)⟩)

theorem lower_of_phase
    (hnodes : ∀ who, (next.node who).effort = (r.node who).effort)
    (hcaller : next.caller = r.caller) (hphase : next.phase.toGo < r.phase.toGo) :
    Lower refusals next.effort r.effort := by
  unfold Lower effort
  rw [hcaller, funext hnodes]
  exact .right _ (.right _ hphase)

theorem lower_of_scheduler
    (hawake : Awake r) (who : NodeId k) (label : Label (runtimeProgram Q))
    {s : Scheduler (runtimeProgram Q)} (hgoes : (r.node who).scheduler.goesOn label = true)
    (haccepts : (r.node who).scheduler.acceptsAwait label = true ∨ refusals)
    (hstep : (r.node who).scheduler.step label = some s)
    (hnodes : ∀ other, next.node other = (r.setScheduler who s).node other)
    (hcaller : next.caller.toGo ≤ r.caller.toGo) : Lower refusals next.effort r.effort := by
  have hself : next.node who = { r.node who with scheduler := s } := by
    rw [hnodes, setScheduler, setNode_node_self]
  refine lower_of_node who (Node.lower_of_goesOn (hawake who) (by rw [hself]) ?_) ?_ hcaller
  · exact ⟨label, hgoes, haccepts, by rw [hself]; exact hstep⟩
  · intro other hother
    rw [hnodes, setScheduler, setNode_node_of_ne r hother]

/-- The thread of the node gets to a later stage of its life. -/
theorem lower_of_stage
    (who : NodeId k) {node : Node Q} (hstage : node.effort.1 < (r.node who).effort.1)
    (hnodes : ∀ other, next.node other = (r.setNode who node).node other)
    (hcaller : next.caller = r.caller) : Lower refusals next.effort r.effort := by
  refine lower_of_node who ?_ ?_ (by rw [hcaller])
  · rw [hnodes, setNode_node_self]
    exact .left _ _ hstage
  · intro other hother
    rw [hnodes, setNode_node_of_ne r hother]

/-- A push into the inbox of a worker, or its eventfd write, is no work for it yet. -/
theorem lower_of_post
    (worker : Fin k) {s : Scheduler (runtimeProgram Q)}
    (heffort : s.effort = (r.workers worker).scheduler.effort ∧
      s.hasEnded = (r.workers worker).scheduler.hasEnded)
    (hnodes : ∀ other, next.node other = (r.setScheduler (some worker) s).node other)
    (hcaller : next.caller = r.caller) (hphase : next.phase.toGo < r.phase.toGo) :
    Lower refusals next.effort r.effort := by
  refine lower_of_phase (fun who => ?_) hcaller hphase
  rw [hnodes]
  by_cases hwho : who = some worker
  · rw [hwho, setScheduler, setNode_node_self, Node.effort, Node.effort, heffort.1, heffort.2]
    rfl
  · rw [setScheduler, setNode_node_of_ne r hwho]

theorem not_goesOn_of_crash
    (hcrash : r.crash.isSome = true) (next : Runtime Q k) : ¬ GoesOn refusals r next := by
  rintro ⟨label, -, -, hstep⟩
  simp [step, hcrash] at hstep

theorem Awake.lower
    (hawake : Awake r) (hstep : GoesOn refusals r next) :
    (∀ after, ¬ GoesOn refusals next after) ∨ Lower refusals next.effort r.effort := by
  obtain ⟨label, hgoes, haccepts, hstep⟩ := hstep
  cases move_of_step hstep with
  | @drives who label _ _ _ hmoves =>
      exact .inr (lower_of_scheduler hawake who label hgoes haccepts hmoves (fun _ => rfl)
        (by simp [setScheduler]))
  | @returns allocated _ _ _ hmoves =>
      exact .inr (lower_of_scheduler hawake none (.runner allocated) hgoes haccepts hmoves
        (node_congr rfl rfl) (by simp [setScheduler]))
  | @leavesStop who allocated _ _ _ _ hmoves =>
      exact .inr (lower_of_scheduler hawake who (.runner allocated) hgoes haccepts hmoves
        (node_congr rfl rfl) (Nat.zero_le _))
  | terminates | noWorkers => exact .inl (not_goesOn_of_crash rfl)
  | @threadStarts who requested s hthread hmoves =>
      have hbefore : 4 ≤ (r.node who).effort.1 := by
        simp [Node.effort, hthread, ThreadState.stage]
      have hafter := Node.effort_stage_le { scheduler := s, thread := .running }
      refine .inr (lower_of_stage who (hafter.trans_lt hbefore) (fun other => ?_)
        (by simp [setThread, setScheduler]))
      by_cases hother : other = who
      · subst hother
        simp [setThread, setScheduler]
      · simp only [setThread, setScheduler, setNode_node_of_ne _ hother]
  | threadEnds hthread hstack =>
      refine .inr (lower_of_stage _ ?_ (fun _ => rfl) (by simp [setThread]))
      simp [Node.effort, hthread, ThreadState.stage, Scheduler.hasEnded, hstack]
  | chooses _ hphase _ =>
      refine .inr (lower_of_phase (fun who => congrArg Node.effort (node_congr rfl rfl who))
        rfl ?_)
      simp [hphase, DispatchPhase.toGo]
  | pushes _ hphase hmoves =>
      refine .inr (lower_of_post _ (Scheduler.effort_of_enqueue hmoves) (node_congr rfl rfl)
        (by simp [setScheduler]) ?_)
      simp [hphase, DispatchPhase.toGo]
  | writes _ hphase hmoves =>
      refine .inr (lower_of_post _ (Scheduler.effort_of_notify hmoves) (node_congr rfl rfl)
        (by simp [setScheduler]) ?_)
      simp [hphase, DispatchPhase.toGo]
  | pass hcaller hafter =>
      refine .inr (lower_of_caller ?_)
      rw [hcaller]
      obtain ⟨rfl, rfl⟩ | ⟨rfl, rfl⟩ | ⟨rfl, rfl, -⟩ := hafter <;>
        simp [Caller.toGo, StopPoint.toGo]
  | started hcaller | stopped hcaller | createThread hcaller | requestEarly hcaller
  | requestStop hcaller | stopCallback hcaller | shutdown hcaller | shutDown hcaller =>
      refine .inr (lower_of_caller ?_)
      simp only [hcaller, Caller.toGo, StopPoint.toGo, List.length_cons]
      omega
  | post | posted | callStart | callStop => simp [Runtime.goesOn] at hgoes
  | callIgnored hlabel =>
      rcases hlabel with ⟨rfl, -⟩ | ⟨rfl, -⟩ <;> simp [Runtime.goesOn] at hgoes

/-! ## Where the threads stop -/

/-- What a scheduler can go on with, its thread can go on with in the runtime, if
need be after the statements of the dispatcher's callable. -/
theorem exists_goesOn
    (hserving : Serving r) (hnone : r.crash = none)
    (hcrash : ∀ who, (r.node who).scheduler.crash = none) {who : NodeId k}
    {s : Scheduler (runtimeProgram Q)}
    (hgoes : Scheduler.GoesOn refusals (r.node who).scheduler s) :
    ∃ next, GoesOn refusals r next := by
  obtain ⟨label, hlabel, haccepts, hstep⟩ := hgoes
  have hdrives : r.step (.drives who label) ≠ none → ∃ next, GoesOn refusals r next := by
    intro hsome
    obtain ⟨next, hnext⟩ := Option.ne_none_iff_exists'.mp hsome
    exact ⟨next, .drives who label, hlabel, haccepts, hnext⟩
  cases label with
  | runner allocated =>
      rcases drives_or_dispatches hserving hnone hcrash hstep with hsome | hsome
      · exact hdrives hsome
      · obtain ⟨next, hnext⟩ := Option.ne_none_iff_exists'.mp hsome
        exact ⟨next, .dispatch, rfl, .inl rfl, hnext⟩
  | enter accepted => exact hdrives (drives_ne_none hnone rfl rfl hstep)
  | _ => simp [Scheduler.goesOn] at hlabel

/-- No `start` is under way, every thread it has created has entered `run`, and
every scheduler is at rest. -/
structure Settled (refusals : Prop) (r : Runtime Q k) : Prop where
  started : ∀ rest, r.caller ≠ .starting rest
  entered : ∀ who requested, (r.node who).thread ≠ .created requested
  atRest : ∀ who, (r.node who).scheduler.AtRest refusals

theorem Awake.settled
    (hawake : Awake r) (hinv : RuntimeInvariant r) (hnone : r.crash = none)
    (hcrash : ∀ who, (r.node who).scheduler.crash = none)
    (hstuck : ∀ next, ¬ GoesOn refusals r next) : Settled refusals r where
  started := by
    intro rest hcaller
    have hgoes : r.goesOn .caller = true := by simp [Runtime.goesOn, callsShutdown, hcaller]
    have hsome : r.step .caller ≠ none := by
      cases rest <;> simp [step, hnone, callerStep, hcaller]
    obtain ⟨next, hnext⟩ := Option.ne_none_iff_exists'.mp hsome
    exact hstuck next ⟨.caller, hgoes, .inl rfl, hnext⟩
  entered := by
    intro who
    refine not_created_of_stuck hinv hnone hcrash ?_
    by_contra hsome
    obtain ⟨next, hnext⟩ := Option.ne_none_iff_exists'.mp hsome
    exact hstuck next ⟨.threadStarts who, rfl, .inl rfl, hnext⟩
  atRest := by
    intro who
    refine (hawake who).atRest fun s hgoes => ?_
    obtain ⟨next, hnext⟩ := exists_goesOn hinv.serving hnone hcrash hgoes
    exact hstuck next hnext

/-- The threads cannot go on by themselves for ever, and where they stop without
undefined behaviour the runtime has settled. -/
structure ComesToRest (refusals : Prop) (r : Runtime Q k) : Prop where
  finite : ¬ ∃ states : ℕ → Runtime Q k, states 0 = r ∧
    ∀ n, GoesOn refusals (states n) (states (n + 1))
  settles : r.crash = none → (∀ who, (r.node who).scheduler.crash = none) →
    (∀ next, ¬ GoesOn refusals r next) → r.Settled refusals

end Runtime

end SlimCommonIo
