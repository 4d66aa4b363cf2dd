import SlimCommonIo.Scheduler

/-!
# The runtime

A dispatcher and `k` workers, each a scheduler with a thread of its own, the
client threads in `Runtime::post`, and the thread which calls `start` and
`stop`.  The schedulers are those of the scheduler model: a step of the runtime
moves one of them, or runs code of `runtime.cpp` between their calls.
-/

namespace SlimCommonIo

/-! ## Callables -/

def Instr.mapJob {Code Job Job' Effect Value Exc : Type} (f : Job → Job') :
    Instr Code Job Effect Value Exc → Instr Code Job' Effect Value Exc
  | .effect visible next => .effect visible next
  | .coAwait object construct next => .coAwait object construct next
  | .coAwaitTask type inner next => .coAwaitTask type inner next
  | .spawn body next => .spawn body next
  | .post job next => .post (f job) next
  | .coReturn value => .coReturn value
  | .throw exc => .throw exc

def JobInstr.mapJob {Code Job Job' : Type} (f : Job → Job') :
    JobInstr Code Job → JobInstr Code Job'
  | .spawn body next => .spawn body fun status => f (next status)
  | .post job next => .post (f job) (f next)
  | .ret => .ret
  | .throwIoException status => .throwIoException status
  | .throwOther => .throwOther

/-- The callables in the inboxes of a runtime: the one `Runtime::post` wraps
around a job, and client code, either a job bound to its worker or what such
code posts itself. -/
inductive RuntimeJob (Q : Program)
  | dispatch (job : ℕ → Q.Job)
  | client (code : Q.Job)

/-- Client code on the schedulers of a runtime.  What the callable of
`Runtime::post` does happens outside of the dispatcher's scheduler, in the steps
of the runtime; for the scheduler it is a callable which returns. -/
def runtimeProgram (Q : Program) : Program where
  Code := Q.Code
  Job := RuntimeJob Q
  Effect := Q.Effect
  Value := Q.Value
  Exc := Q.Exc
  defaultValue := Q.defaultValue
  instr code := (Q.instr code).mapJob .client
  job
    | .dispatch _ => .ret
    | .client code => (Q.job code).mapJob .client

/-! ## Nodes and threads -/

/-- The `jthread` of a node.  A stop requested before the thread has entered
`run` is found by it there. -/
inductive ThreadState
  | absent
  | created (stopRequested : Bool)
  | running
  | exited
  deriving DecidableEq, Repr

structure Node (Q : Program) where
  scheduler : Scheduler (runtimeProgram Q)
  thread : ThreadState := .absent

/-- The dispatcher is `none`, a worker `some` of its position. -/
abbrev NodeId (k : ℕ) := Option (Fin k)

/-- How far the callable of `Runtime::post` has come which the dispatcher is
executing. -/
inductive DispatchPhase (k : ℕ)
  | fresh
  | chosen (worker : Fin k)
  | pushed (worker : Fin k) (id : ℕ)
  | written
  deriving DecidableEq, Repr

/-- Program points of `stop` for one node; the shutdown of a node runs on the
stopping thread. -/
inductive StopPoint
  | request
  | callback
  | join
  | shutdown
  | shuttingDown
  deriving DecidableEq, Repr

/-- The thread which calls `start` and `stop`, with the nodes still to come. -/
inductive Caller (k : ℕ)
  | idle
  | starting (rest : List (NodeId k))
  | stopping (rest : List (NodeId k)) (point : StopPoint)
  deriving DecidableEq, Repr

/-- `Runtime::State`. -/
inductive RuntimeState
  | idle
  | running
  | stopped
  deriving DecidableEq, Repr

/-- `sent` is history: to whom each job was posted and under which number. -/
structure Runtime (Q : Program) (k : ℕ) where
  dispatcher : Node Q
  workers : Fin k → Node Q
  nextWorker : UInt64 := 0
  state : RuntimeState := .idle
  caller : Caller k := .idle
  phase : DispatchPhase k := .fresh
  sent : List (Fin k × ℕ) := []
  crash : Option Crash := none

inductive RuntimeLabel (Q : Program) (k : ℕ)
  /-- A client thread in `Runtime::post`: the push, then the eventfd write. -/
  | post (job : ℕ → Q.Job)
  | posted (id : ℕ)
  /-- A step of a scheduler which no other thread takes part in. -/
  | drives (who : NodeId k) (label : Label (runtimeProgram Q))
  /-- The next statement of the callable the dispatcher is executing. -/
  | dispatch
  | threadStarts (who : NodeId k)
  | threadEnds (who : NodeId k)
  | callStart
  | callStop
  /-- The thread inside `start` or `stop`. -/
  | caller

variable {Q : Program} {k : ℕ}

/-- The labels of a scheduler which its own thread and its kernel take. -/
def Label.isInternal {P : Program} : Label P → Bool
  | .runner _ | .enter _ | .interrupted | .complete _ _ | .foreignRefusal
  | .dropTask _ => true
  | _ => false

def Label.isRunner {P : Program} : Label P → Bool
  | .runner _ => true
  | _ => false

namespace Runtime

def node (r : Runtime Q k) : NodeId k → Node Q
  | none => r.dispatcher
  | some worker => r.workers worker

def setNode (r : Runtime Q k) (who : NodeId k) (node : Node Q) : Runtime Q k :=
  match who with
  | none => { r with dispatcher := node }
  | some worker => { r with workers := Function.update r.workers worker node }

def setThread (r : Runtime Q k) (who : NodeId k) (thread : ThreadState) : Runtime Q k :=
  r.setNode who { r.node who with thread := thread }

def setScheduler (r : Runtime Q k) (who : NodeId k) (s : Scheduler (runtimeProgram Q)) :
    Runtime Q k :=
  r.setNode who { r.node who with scheduler := s }

def schedulerStep (r : Runtime Q k) (who : NodeId k) (label : Label (runtimeProgram Q)) :
    Option (Runtime Q k) :=
  ((r.node who).scheduler.step label).map (r.setScheduler who)

/-! ## `Runtime::post` -/

/-- The callable of `Runtime::post` the dispatcher is executing. -/
def dispatching (r : Runtime Q k) : Option (Posted (runtimeProgram Q) × (ℕ → Q.Job)) :=
  match r.dispatcher.scheduler.stack with
  | .job entry (.dispatch job) :: _ => some (entry, job)
  | _ => none

/-- `next_worker_.fetch_add(1) % workers_.size()`. -/
def fetchAdd (r : Runtime Q k) : Runtime Q k :=
  if hworkers : 0 < k then
    { r with
      nextWorker := r.nextWorker + 1
      phase := .chosen ⟨r.nextWorker.toNat % k, Nat.mod_lt _ hworkers⟩ }
  else { r with crash := some .undefined }

/-- The body of the callable: choose a worker, then `w.scheduler.post(...)`. -/
def dispatchStep (r : Runtime Q k) : Option (Runtime Q k) :=
  match r.dispatching with
  | none => none
  | some (_, job) =>
      match r.phase with
      | .fresh => some r.fetchAdd
      | .chosen worker =>
          let id := (r.workers worker).scheduler.nextPost
          (r.schedulerStep (some worker) (.enqueue (.client (job worker)))).map fun r =>
            { r with phase := .pushed worker id, sent := r.sent ++ [(worker, id)] }
      | .pushed worker id =>
          (r.schedulerStep (some worker) (.notify id)).map fun r =>
            { r with phase := .written }
      | .written => none

/-! ## Scheduler threads -/

/-- The callable being executed throws something other than `IOException`. -/
def throwsOther (s : Scheduler (runtimeProgram Q)) : Bool :=
  match s.stack with
  | .job _ code :: _ =>
      match (runtimeProgram Q).job code with
      | .throwOther => true
      | _ => false
  | _ => false

/-- A scheduler moves by itself.  The dispatcher leaves the callable of
`Runtime::post` only after its last statement.  An exception which leaves `run`
ends the process, one which leaves `shutdown` leaves `stop` as well. -/
def drive (r : Runtime Q k) (who : NodeId k) (label : Label (runtimeProgram Q)) :
    Option (Runtime Q k) :=
  if label.isRunner then
    if who = none ∧ r.dispatching.isSome then
      if r.phase = .written then
        (r.schedulerStep none label).map fun r => { r with phase := .fresh }
      else none
    else if throwsOther (r.node who).scheduler then
      if (r.node who).thread = .running then some { r with crash := some .terminated }
      else (r.schedulerStep who label).map fun r => { r with caller := .idle }
    else r.schedulerStep who label
  else r.schedulerStep who label

/-! ## `start` and `stop` -/

/-- The order in which `start` creates the threads. -/
def startOrder (k : ℕ) : List (NodeId k) :=
  (List.finRange k).map some ++ [none]

/-- The order in which `stop` ends them. -/
def stopOrder (k : ℕ) : List (NodeId k) :=
  none :: (List.finRange k).map some

/-- `request_stop` on the thread of a node. -/
def requestStop (r : Runtime Q k) (who : NodeId k) : Runtime Q k :=
  match (r.node who).thread with
  | .created _ => r.setThread who (.created true)
  | _ => (r.schedulerStep who .requestStop).getD r

/-- The stop callback, called by the thread which requests the stop; nothing if
it is not registered or has been called before. -/
def stopCallback (r : Runtime Q k) (who : NodeId k) : Runtime Q k :=
  (r.schedulerStep who .stopCallback).getD r

/-- The thread in `start` or `stop` executes its next statement. -/
def callerStep (r : Runtime Q k) : Option (Runtime Q k) :=
  match r.caller with
  | .idle => none
  | .starting [] => some { r with caller := .idle, state := .running }
  | .starting (who :: rest) =>
      some { r.setThread who (.created false) with caller := .starting rest }
  | .stopping [] _ => some { r with caller := .idle, state := .stopped }
  | .stopping (who :: rest) .request =>
      some { r.requestStop who with caller := .stopping (who :: rest) .callback }
  | .stopping (who :: rest) .callback =>
      some { r.stopCallback who with caller := .stopping (who :: rest) .join }
  | .stopping (who :: rest) .join =>
      if (r.node who).thread = .exited then
        some { r with caller := .stopping (who :: rest) .shutdown }
      else none
  | .stopping (who :: rest) .shutdown =>
      (r.schedulerStep who .callShutdown).map fun r =>
        { r with caller := .stopping (who :: rest) .shuttingDown }
  | .stopping (who :: rest) .shuttingDown =>
      if (r.node who).scheduler.stack.isEmpty then
        some { r with caller := .stopping rest .request }
      else none

def step (r : Runtime Q k) (label : RuntimeLabel Q k) : Option (Runtime Q k) :=
  if r.crash.isSome then none
  else
    match label with
    | .post job => r.schedulerStep none (.enqueue (.dispatch job))
    | .posted id => r.schedulerStep none (.notify id)
    | .drives who label => if label.isInternal then r.drive who label else none
    | .dispatch => r.dispatchStep
    | .threadStarts who =>
        match (r.node who).thread with
        | .created requested =>
            (r.schedulerStep who (.callRun requested)).map fun r => r.setThread who .running
        | _ => none
    | .threadEnds who =>
        if (r.node who).thread = .running ∧ (r.node who).scheduler.stack.isEmpty then
          some (r.setThread who .exited)
        else none
    | .callStart =>
        if r.caller = .idle then
          -- throws RuntimeNotIdle
          if r.state = .running then some r
          else some { r with caller := .starting (startOrder k) }
        else none
    | .callStop =>
        if r.caller = .idle then
          if r.state = .running then
            some { r with caller := .stopping (stopOrder k) .request }
          else some r
        else none
    | .caller => r.callerStep

end Runtime

/-! ## Changing one node -/

namespace Runtime

@[simp] theorem node_none (r : Runtime Q k) : r.node none = r.dispatcher := rfl

@[simp] theorem node_some (r : Runtime Q k) (worker : Fin k) :
    r.node (some worker) = r.workers worker := rfl

theorem node_congr
    {r next : Runtime Q k} (hdispatcher : next.dispatcher = r.dispatcher)
    (hworkers : next.workers = r.workers) (who : NodeId k) : next.node who = r.node who := by
  cases who with
  | none => exact hdispatcher
  | some worker => exact congrFun hworkers worker

@[simp] theorem setNode_node_self (r : Runtime Q k) (who : NodeId k) (node : Node Q) :
    (r.setNode who node).node who = node := by
  cases who <;> simp [setNode, Runtime.node]

theorem setNode_node_of_ne
    (r : Runtime Q k) {who other : NodeId k} (hne : other ≠ who) (node : Node Q) :
    (r.setNode who node).node other = r.node other := by
  cases who with
  | none =>
      cases other with
      | none => exact absurd rfl hne
      | some worker => rfl
  | some worker =>
      cases other with
      | none => rfl
      | some worker' =>
          have hworker : worker' ≠ worker := fun heq => hne (by rw [heq])
          simp [setNode, Runtime.node, hworker]

@[simp] theorem setNode_sent (r : Runtime Q k) (who : NodeId k) (node : Node Q) :
    (r.setNode who node).sent = r.sent := by
  cases who <;> rfl

@[simp] theorem setNode_phase (r : Runtime Q k) (who : NodeId k) (node : Node Q) :
    (r.setNode who node).phase = r.phase := by
  cases who <;> rfl

@[simp] theorem setNode_nextWorker (r : Runtime Q k) (who : NodeId k) (node : Node Q) :
    (r.setNode who node).nextWorker = r.nextWorker := by
  cases who <;> rfl

@[simp] theorem setNode_caller (r : Runtime Q k) (who : NodeId k) (node : Node Q) :
    (r.setNode who node).caller = r.caller := by
  cases who <;> rfl

@[simp] theorem setNode_state (r : Runtime Q k) (who : NodeId k) (node : Node Q) :
    (r.setNode who node).state = r.state := by
  cases who <;> rfl

end Runtime

/-- A runtime right after its constructor, on these rings. -/
def Runtime.initial (Q : Program) {k : ℕ} (dispatcherIo : IoState) (workerIo : Fin k → IoState)
    (fd : NodeId k → Int32) (addr : NodeId k → UInt64) : Runtime Q k where
  dispatcher := { scheduler := .initial _ dispatcherIo (fd none) (addr none) }
  workers worker :=
    { scheduler := .initial _ (workerIo worker) (fd (some worker)) (addr (some worker)) }

end SlimCommonIo
