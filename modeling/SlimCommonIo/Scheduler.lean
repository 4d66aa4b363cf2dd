import SlimCommonIo.Task

/-!
# The scheduler as a transition system

One `Scheduler`, the thread which drives it, the kernel side of its ring, and
the other threads which post to it or request a stop.  The driving thread is
its call stack: `run` or `shutdown`, the `drain` they call, the inbox job or
coroutine `drain` is executing, and the `spawn` such code is in.  One step
executes the code up to the next point at which another party can act.

A label says who moves and carries every choice the code does not make: how
many entries `io_uring_enter` accepts, which operation completes with which
result, whether `push_back` can allocate.
-/

namespace SlimCommonIo

/-- The ring of the scheduler with the kernel's side of it.  The last four
fields are history: all entries ever staged and consumed, all completions ever
posted, and how many of these `drain` has handled. -/
structure IoState where
  sq : SubmissionQueue
  cq : CompletionQueue
  kernel : List Sqe
  staged : List Sqe
  consumed : List Sqe
  posted : List Cqe
  handled : ℕ

/-- A callable in the inbox.  A requeued callable gets a new `id` and keeps
the `origin` of the `post` which brought it. -/
structure Posted (P : Program) where
  id : ℕ
  origin : ℕ
  fn : P.Job

/-- Program points of `Scheduler::drain`. -/
inductive DrainPoint
  | start
  | enter
  | waiting
  | scan
  | loop (current tail : UInt32)
  | resumed (current tail : UInt32)
  | inboxDone (current tail : UInt32)
  deriving DecidableEq, Repr

/-- Activations on the driving thread's call stack. -/
inductive Activation (P : Program)
  | run
  | shutdown
  | destructor
  | reap
  | drain (point : DrainPoint)
  | swapInbox
  | drainInbox (batch : List (Posted P))
  | job (entry : Posted P) (code : P.Job)
  | jobInSpawn (entry : Posted P) (next : Option ErrorStatus → P.Job)
  | eventfdWrite
  | spawn (task : FrameId)
  | coroutine (frame : FrameId) (code : P.Code)
  | coroutineInSpawn (frame : FrameId) (next : Option ErrorStatus → P.Code)

/-- The stop token of the current `run` and its `stop_callback`. -/
structure StopToken where
  requested : Bool := false
  registered : Bool := false
  called : Bool := false
  deriving DecidableEq, Repr

/-- Visible history: statements of task bodies, the values handed out by
`await_resume` (with the stamp of the await, absent if it was refused), ends of
coroutines, first resumptions and exits of `spawn`, invocations of callables. -/
inductive Event (P : Program)
  | effect (frame : FrameId) (visible : P.Effect)
  | awaited (task : FrameId) (stamp : Option Stamp) (value : Int32)
  | finished (frame : FrameId) (outcome : P.Outcome)
  | started (task : FrameId) (origin : Option ℕ)
  | spawnExit (task : FrameId) (status : Option ErrorStatus)
  | invoked (entry : Posted P)

inductive Crash
  | undefined
  | terminated
  deriving DecidableEq, Repr

/-- The state of a scheduler.  `held` are the tasks owned by client code: those
whose `spawn` threw, and those it drives by `Task::resume`. -/
structure Scheduler (P : Program) where
  io : IoState
  eventfd : ℕ := 0
  eventfdFd : Int32
  eventfdBufAddr : UInt64
  eventfdArmed : Bool := false
  shuttingDown : Bool := false
  tasks : List (Option FrameId) := []
  inbox : List (Posted P) := []
  tlSqFull : Bool := false
  heap : Heap P := Heap.empty
  stack : List (Activation P) := []
  stop : StopToken := {}
  held : List FrameId := []
  unnotified : List ℕ := []
  nextPost : ℕ := 0
  ordinals : FrameId → ℕ := fun _ => 0
  closed : Bool := false
  crash : Option Crash := none
  log : List (Event P) := []

/-- Who moves next. -/
inductive Label (P : Program)
  /-- The driving thread; `allocated` tells whether `push_back` succeeds. -/
  | runner (allocated : Bool)
  /-- The driving thread in `io_uring_enter`, which accepts so many entries. -/
  | enter (accepted : ℕ)
  /-- `io_uring_enter` returns early from its wait. -/
  | interrupted
  /-- The kernel completes the operation at this position. -/
  | complete (index : ℕ) (res : Int32)
  /-- Another thread in `post`: the push, then the eventfd write. -/
  | enqueue (job : P.Job)
  | notify (id : ℕ)
  | requestStop
  | stopCallback
  /-- Client code destroys a task it holds. -/
  | dropTask (task : FrameId)
  /-- A refusal on another scheduler's ring on this thread. -/
  | foreignRefusal
  | callSpawn (body : P.Code)
  | callResume (body : P.Code)
  | callRun (requested : Bool)
  | callShutdown
  | callDestroy

variable {P : Program}

namespace Scheduler

/-! ## `spawn` -/

/-- Hand the outcome of `spawn` to its caller. -/
def deliver (status : Option ErrorStatus) :
    List (Activation P) → Option (List (Activation P))
  | [] => some []
  | .jobInSpawn entry next :: rest => some (.job entry (next status) :: rest)
  | .coroutineInSpawn frame next :: rest =>
      some (.coroutine frame (next status) :: rest)
  | _ => none

/-- Leave `spawn`.  When it throws, the caller still owns the task. -/
def leaveSpawn (s : Scheduler P) (task : FrameId) (status : Option ErrorStatus)
    (below : List (Activation P)) : Option (Scheduler P) :=
  (deliver status below).map fun stack =>
    { s with
      stack := stack
      held := if status.isSome then task :: s.held else s.held
      log := s.log ++ [.spawnExit task status] }

/-- The post whose callable is calling `spawn`. -/
def callerOrigin : List (Activation P) → Option ℕ
  | .jobInSpawn entry _ :: _ => some entry.origin
  | _ => none

/-- A call of `spawn` on a freshly created task, up to `handle.resume()`. -/
def enterSpawn (s : Scheduler P) (body : P.Code)
    (below : List (Activation P)) : Option (Scheduler P) :=
  let task := s.heap.next
  let s := { s with heap := s.heap.create .void body task }
  if s.io.sq.isFull then s.leaveSpawn task (some .sqFull) below
  else
    some
      { s with
        heap := s.heap.start task
        stack := .coroutine task body :: .spawn task :: below
        log := s.log ++ [.started task (callerOrigin below)] }

/-- `spawn` after `handle.resume()` has returned. -/
def resumeReturned (s : Scheduler P) (task : FrameId) (allocated : Bool)
    (below : List (Activation P)) : Option (Scheduler P) :=
  if s.tlSqFull then
    { s with tlSqFull := false }.leaveSpawn task (some .sqFull) below
  else if allocated then
    { s with tasks := s.tasks ++ [some task] }.leaveSpawn task none below
  else s.leaveSpawn task (some .badAllocation) below

/-! ## `post` and the inbox -/

/-- `inbox_.push` under the lock. -/
def pushInbox (s : Scheduler P) (origin : ℕ) (fn : P.Job) : Scheduler P :=
  { s with
    inbox := s.inbox ++ [{ id := s.nextPost, origin := origin, fn := fn }]
    nextPost := s.nextPost + 1 }

/-- One action of a callable run by `drain_inbox`.  An exception other than
`IOException` leaves `drain_inbox`, `drain` and `run` or `shutdown`: the batch
is destroyed and the completion which triggered it is not consumed. -/
def jobStep (s : Scheduler P) (entry : Posted P) (code : P.Job)
    (rest : List (Activation P)) : Option (Scheduler P) :=
  match P.job code with
  | .spawn body next => s.enterSpawn body (.jobInSpawn entry next :: rest)
  | .post job next =>
      some
        { s.pushInbox s.nextPost job with
          stack := .eventfdWrite :: .job entry next :: rest }
  | .ret => some { s with stack := rest }
  | .throwIoException status =>
      if status = .sqFull then
        some { s.pushInbox entry.origin entry.fn with stack := .eventfdWrite :: rest }
      else some { s with stack := rest }
  | .throwOther =>
      some
        { s with
          stack := []
          io := { s.io with handled := s.io.handled - 1 }
          stop := { s.stop with registered := false }
          crash :=
            if rest.any (fun act => match act with | .destructor => true | _ => false)
            then some .terminated else s.crash }

/-! ## Coroutines -/

/-- The object of a `co_await`: a new one, or one of the frame's. -/
def awaitedObject (frame : Frame P) (object : ℕ) (construct : Option Awaitable) :
    Option Awaitable :=
  match construct with
  | some awt => some { awt with result := 0, handle := none }
  | none => frame.objects object

/-- `co_await` of an operation object in the running frame `id`. -/
def coAwait (s : Scheduler P) (id : FrameId) (frame : Frame P) (object : ℕ)
    (awt : Awaitable) (next : Int32 → P.Code) (rest : List (Activation P)) :
    Scheduler P :=
  let stamp : Stamp := ⟨frame.root, s.ordinals frame.root⟩
  match awt.awaitSuspend (.awaitable id object) stamp s.io.sq with
  | none =>
      { s with
        tlSqFull := true
        heap := s.heap.set id
          { frame with objects := Function.update frame.objects object (some awt) }
        stack := .coroutine id (next awt.awaitResume) :: rest
        log := s.log ++ [.awaited frame.root none awt.awaitResume] }
  | some sq =>
      { s with
        io :=
          { s.io with
            sq := sq
            staged := s.io.staged ++ awt.group (.awaitable id object) stamp }
        ordinals := Function.update s.ordinals frame.root
          (s.ordinals frame.root + 1)
        heap := s.heap.set id
          { frame with
            objects := Function.update frame.objects object
              (some { awt with handle := some id })
            point := .onAwaitable object stamp next }
        stack := rest }

/-- The end of a coroutine body and its final suspend point. -/
def finish (s : Scheduler P) (id : FrameId) (frame : Frame P)
    (outcome : P.Outcome) (rest : List (Activation P)) : Scheduler P :=
  let frame := frame.complete outcome
  let s : Scheduler P :=
    { s with
      heap := s.heap.set id frame
      log := s.log ++ [.finished id outcome] }
  match s.heap.finalAwaitSuspend frame with
  | .noop => { s with stack := rest }
  | .resume heap awaiting code =>
      { s with heap := heap, stack := .coroutine awaiting code :: rest }
  | .undefined => { s with crash := some .undefined }
  | .terminate => { s with crash := some .terminated }

def coroutineStep (s : Scheduler P) (id : FrameId) (code : P.Code)
    (rest : List (Activation P)) : Option (Scheduler P) :=
  match s.heap.frames id with
  | none => some { s with crash := some .undefined }
  | some frame =>
      match P.instr code with
      | .effect visible next =>
          some
            { s with
              stack := .coroutine id next :: rest
              log := s.log ++ [.effect id visible] }
      | .coAwait object construct next =>
          match awaitedObject frame object construct with
          | none => some { s with crash := some .undefined }
          | some awt => some (s.coAwait id frame object awt next rest)
      | .coAwaitTask type inner next =>
          some
            { s with
              heap := s.heap.coAwaitTask id frame type inner next
              stack := .coroutine s.heap.next inner :: rest }
      | .spawn body next => s.enterSpawn body (.coroutineInSpawn id next :: rest)
      | .post job next =>
          some
            { s.pushInbox s.nextPost job with
              stack := .eventfdWrite :: .coroutine id next :: rest }
      | .coReturn value => some (s.finish id frame (.ok value) rest)
      | .throw exc => some (s.finish id frame (.error exc) rest)

/-! ## `drain` -/

/-- The top of `drain`: arm the eventfd read unless it is armed. -/
def drainStart (s : Scheduler P) (rest : List (Activation P)) : Scheduler P :=
  if s.eventfdArmed then { s with stack := .drain .enter :: rest }
  else
    { s with
      io :=
        { s.io with
          sq := s.io.sq.armEventfdRead s.eventfdFd s.eventfdBufAddr
          staged := s.io.staged ++
            [SubmissionQueue.eventfdRead s.eventfdFd s.eventfdBufAddr] }
      eventfdArmed := true
      stack := .drain .enter :: rest }

/-- Half the range of the 32-bit ring counters. -/
def backlogLimit : ℕ := 2 ^ 31

/-- `io_uring_enter` accepts a number of entries, never more than the ring
holds; it waits only if it accepted all it was asked to submit and
`min_complete` is 1.  It may accept none, but it does not refuse for so long
that the entries left behind approach the range of the counters. -/
def ioUringEnter (s : Scheduler P) (accepted : ℕ)
    (rest : List (Activation P)) : Option (Scheduler P) :=
  let toSubmit := s.io.sq.pending.toNat
  if accepted ≤ toSubmit ∧ accepted ≤ s.io.sq.entries.toNat ∧
      toSubmit ≤ accepted + backlogLimit then
    some
      { s with
        io :=
          { s.io with
            sq := s.io.sq.consume accepted
            kernel := s.io.kernel ++ s.io.sq.front accepted
            consumed := s.io.consumed ++ s.io.sq.front accepted }
        stack :=
          .drain (if accepted = toSubmit ∧ s.shuttingDown = false
            then .waiting else .scan) :: rest }
  else none

/-- `handle.resume()` of a coroutine suspended on an operation: it continues
with the value `await_resume` returns. -/
def resumeHandle (s : Scheduler P) (heap : Heap P) (handle : FrameId)
    (below : List (Activation P)) : Scheduler P :=
  match heap.frames handle with
  | none => { s with crash := some .undefined, stack := below }
  | some frame =>
      match frame.point with
      | .onAwaitable object stamp next =>
          match frame.objects object with
          | none => { s with crash := some .undefined, stack := below }
          | some awt =>
              { s with
                heap := heap.set handle { frame with point := .running }
                stack := .coroutine handle (next awt.awaitResume) :: below
                log := s.log ++
                  [.awaited frame.root (some stamp) awt.awaitResume] }
      | _ => { s with crash := some .undefined, stack := below }

/-- `awt->result = cqe.res; awt->handle.resume()`. -/
def resumeAwaitable (s : Scheduler P) (cqe : Cqe) (id : FrameId) (object : ℕ)
    (below : List (Activation P)) : Scheduler P :=
  match s.heap.frames id with
  | none => { s with crash := some .undefined, stack := below }
  | some frame =>
      match frame.objects object with
      | none => { s with crash := some .undefined, stack := below }
      | some awt =>
          match awt.handle with
          | none => { s with crash := some .undefined, stack := below }
          | some handle =>
              s.resumeHandle (s.heap.set id (frame.storeResult object awt cqe.res))
                handle below

/-- `++current; io_.cq.head->store(current)`. -/
def advance (s : Scheduler P) (current tail : UInt32)
    (rest : List (Activation P)) : Scheduler P :=
  { s with
    io := { s.io with cq := { s.io.cq with head := current + 1 } }
    stack := .drain (.loop (current + 1) tail) :: rest }

/-- The loop test and the body of the completion loop. -/
def drainLoop (s : Scheduler P) (current tail : UInt32)
    (rest : List (Activation P)) : Scheduler P :=
  if current = tail then { s with stack := rest }
  else
    let cqe := s.io.cq.read current
    let s := { s with io := { s.io with handled := s.io.handled + 1 } }
    match cqe.userData with
    | .eventfdBuf =>
        { s with
          eventfdArmed := false
          stack := .swapInbox :: .drain (.inboxDone current tail) :: rest }
    | .null => s.advance current tail rest
    | .awaitable id object =>
        s.resumeAwaitable cqe id object (.drain (.resumed current tail) :: rest)

/-! ## `reap`, `run`, `shutdown` and the destructor -/

/-- `Scheduler::reap`. -/
def reap (s : Scheduler P) (rest : List (Activation P)) : Scheduler P :=
  let result := removeIfDone s.heap.done [] [] [] s.tasks
  { s with
    tasks := result.1
    heap := result.2.foldl Heap.erase s.heap
    stack := rest }

/-- The driving thread executes the activation on top of its stack. -/
def runnerStep (s : Scheduler P) (allocated : Bool) : Option (Scheduler P) :=
  match s.stack with
  | [] => none
  | .run :: rest =>
      if s.stop.requested then
        some { s with stack := rest, stop := { s.stop with registered := false } }
      else some { s with stack := .drain .start :: .reap :: .run :: rest }
  | .shutdown :: rest =>
      if s.tasks.isEmpty then some { s with stack := rest }
      else some { s with stack := .drain .start :: .reap :: .shutdown :: rest }
  | .destructor :: rest => some { s with stack := rest, closed := true }
  | .reap :: rest => some (s.reap rest)
  | .drain .start :: rest => some (s.drainStart rest)
  | .drain .enter :: _ => none
  | .drain .waiting :: rest =>
      if s.io.cq.head = s.io.cq.tail then none
      else some { s with stack := .drain .scan :: rest }
  | .drain .scan :: rest =>
      some { s with stack := .drain (.loop s.io.cq.head s.io.cq.tail) :: rest }
  | .drain (.loop current tail) :: rest => some (s.drainLoop current tail rest)
  | .drain (.resumed current tail) :: rest =>
      -- take_pending_sq_error() after every resumption; its result is ignored
      some ({ s with tlSqFull := false }.advance current tail rest)
  | .drain (.inboxDone current tail) :: rest => some (s.advance current tail rest)
  | .swapInbox :: rest =>
      some { s with inbox := [], stack := .drainInbox s.inbox :: rest }
  | .drainInbox [] :: rest => some { s with stack := rest }
  | .drainInbox (entry :: batch) :: rest =>
      some
        { s with
          stack := .job entry entry.fn :: .drainInbox batch :: rest
          log := s.log ++ [.invoked entry] }
  | .job entry code :: rest => s.jobStep entry code rest
  | .jobInSpawn _ _ :: _ => none
  | .eventfdWrite :: rest =>
      some { s with eventfd := s.eventfd + 1, stack := rest }
  | .spawn task :: rest => s.resumeReturned task allocated rest
  | .coroutine id code :: rest => s.coroutineStep id code rest
  | .coroutineInSpawn _ _ :: _ => none

/-- Client code runs on the driving thread: outside of all scheduler calls, in
a callable, or in a coroutine body. -/
def inClientCode (s : Scheduler P) : Bool :=
  match s.stack with
  | [] => true
  | .job _ _ :: _ => true
  | .coroutine _ _ :: _ => true
  | _ => false

/-- The kernel completes one of the operations it holds, if the completion
ring has room.  An eventfd read completes when the counter is not zero, and
resets it. -/
def complete (s : Scheduler P) (index : ℕ) (res : Int32) :
    Option (Scheduler P) :=
  match s.io.kernel[index]? with
  | none => none
  | some sqe =>
      if s.io.cq.hasRoom then
        let finishWith (res : Int32) (eventfd : ℕ) : Scheduler P :=
          let cqe : Cqe := { userData := sqe.userData, res := res, stamp := sqe.stamp }
          { s with
            io :=
              { s.io with
                cq := s.io.cq.append cqe
                kernel := s.io.kernel.eraseIdx index
                posted := s.io.posted ++ [cqe] }
            eventfd := eventfd }
        if sqe.userData = .eventfdBuf then
          if 0 < s.eventfd then some (finishWith 8 0) else none
        else some (finishWith res s.eventfd)
      else none

def step (s : Scheduler P) (label : Label P) : Option (Scheduler P) :=
  if s.crash.isSome then none
  else
    match label with
    | .runner allocated => s.runnerStep allocated
    | .enter accepted =>
        match s.stack with
        | .drain .enter :: rest => s.ioUringEnter accepted rest
        | _ => none
    | .interrupted =>
        match s.stack with
        | .drain .waiting :: rest => some { s with stack := .drain .scan :: rest }
        | _ => none
    | .complete index res => s.complete index res
    | .enqueue job =>
        if s.closed then none
        else
          some
            { s.pushInbox s.nextPost job with
              unnotified := s.nextPost :: s.unnotified }
    | .notify id =>
        if id ∈ s.unnotified then
          some
            { s with
              unnotified := s.unnotified.erase id
              eventfd := s.eventfd + 1 }
        else none
    | .requestStop =>
        if s.stop.registered ∧ s.stop.requested = false then
          some { s with stop := { s.stop with requested := true } }
        else none
    | .stopCallback =>
        if s.stop.registered ∧ s.stop.requested ∧ s.stop.called = false then
          some
            { s with
              eventfd := s.eventfd + 1
              stop := { s.stop with called := true } }
        else none
    | .dropTask task =>
        if task ∈ s.held then
          some { s with heap := s.heap.destroy task, held := s.held.erase task }
        else none
    | .foreignRefusal =>
        if s.inClientCode then some { s with tlSqFull := true } else none
    | .callSpawn body =>
        if s.stack.isEmpty ∧ s.closed = false then s.enterSpawn body [] else none
    | .callResume body =>
        if s.stack.isEmpty ∧ s.closed = false then
          let task := s.heap.next
          some
            { s with
              heap := (s.heap.create .void body task).start task
              stack := [.coroutine task body]
              held := task :: s.held }
        else none
    | .callRun requested =>
        if s.stack.isEmpty ∧ s.closed = false then
          some
            { s with
              stack := [.run]
              -- a token already stopped makes the constructor call back at once
              stop := { requested := requested, registered := true, called := requested }
              eventfd := if requested then s.eventfd + 1 else s.eventfd }
        else none
    | .callShutdown =>
        if s.stack.isEmpty ∧ s.closed = false then
          some { s with shuttingDown := true, stack := [.shutdown] }
        else none
    | .callDestroy =>
        if s.stack.isEmpty ∧ s.closed = false then
          if s.tasks.isEmpty then some { s with closed := true }
          else some { s with shuttingDown := true, stack := [.shutdown, .destructor] }
        else none

end Scheduler

/-! ## Initial states -/

/-- A ring as `io_uring_setup` returns it, possibly used before: both queues
are empty and the kernel holds no operation of it. -/
structure IoState.Fresh (io : IoState) : Prop where
  sqGeometry : MaskedRing.Geometry io.sq.mask io.sq.entries
  cqGeometry : MaskedRing.Geometry io.cq.mask io.cq.entries
  sqEmpty : io.sq.head = io.sq.tail
  cqEmpty : io.cq.head = io.cq.tail
  kernel : io.kernel = []
  staged : io.staged = []
  consumed : io.consumed = []
  posted : io.posted = []
  handled : io.handled = 0

/-- The depths `io_uring_setup` clamps to: 32768 submission entries and twice
as many completions. -/
structure IoState.Created (io : IoState) : Prop extends IoState.Fresh io where
  sqDepth : io.sq.entries.toNat ≤ 32768
  cqDepth : io.cq.entries.toNat ≤ 65536

def Scheduler.initial (P : Program) (io : IoState)
    (eventfdFd : Int32) (eventfdBufAddr : UInt64) : Scheduler P where
  io := io
  eventfdFd := eventfdFd
  eventfdBufAddr := eventfdBufAddr

/-! ## A program for concrete runs -/

/-- Callables which build one task, spawn it and let exceptions through. -/
inductive ScriptJob
  | spawning (body : List Bool)
  | returned
  | failed (status : ErrorStatus)
  deriving DecidableEq, Repr

/-- Bodies which await one operation after the other, ignoring the results;
`true` stands for an operation with a deadline. -/
def awaitScript : Program where
  Code := List Bool
  Job := ScriptJob
  Effect := Unit
  Value := Unit
  Exc := Unit
  defaultValue := some ()
  instr
    | [] => .coReturn none
    | timed :: rest =>
        .coAwait 0
          (some
            { op := .recv 0 0 1 0
              timeoutTs := if timed then some ⟨1, 0⟩ else none })
          fun _ => rest
  job
    | .spawning body =>
        .spawn body fun status =>
          match status with
          | none => .returned
          | some status => .failed status
    | .returned => .ret
    | .failed status => .throwIoException status

/-- A new ring with so many submission entries and twice as many completions. -/
def ringOfDepth (entries : UInt32) : IoState where
  sq :=
    { head := 0, tail := 0, mask := entries - 1, entries := entries
      array := fun _ => 0, sqes := fun _ => Sqe.zero }
  cq :=
    { head := 0, tail := 0, mask := entries * 2 - 1, entries := entries * 2
      cqes := fun _ => { userData := .null, res := 0, stamp := none } }
  kernel := []
  staged := []
  consumed := []
  posted := []
  handled := 0

theorem ringOfDepth_created
    {entries : UInt32} (n : ℕ) (hn : n ≤ 15) (hentries : entries.toNat = 2 ^ n) :
    (ringOfDepth entries).Created := by
  have hle : entries.toNat ≤ 32768 := by
    rw [hentries]
    exact Nat.pow_le_pow_right (by omega) hn
  have hdouble : (entries * 2).toNat = 2 ^ (n + 1) := by
    have htwo : (2 : UInt32).toNat = 2 := rfl
    have hpow : 2 ^ (n + 1) = entries.toNat * 2 := by
      rw [hentries, Nat.pow_succ]
    rw [UInt32.toNat_mul, htwo, hpow]
    exact Nat.mod_eq_of_lt (by omega)
  exact
    { sqGeometry := ⟨⟨n, by omega, hentries⟩, rfl⟩
      cqGeometry := ⟨⟨n + 1, by omega, hdouble⟩, rfl⟩
      sqEmpty := rfl
      cqEmpty := rfl
      kernel := rfl
      staged := rfl
      consumed := rfl
      posted := rfl
      handled := rfl
      sqDepth := hle
      cqDepth := by
        change (entries * 2).toNat ≤ 65536
        rw [hdouble, Nat.pow_succ, ← hentries]
        omega }

end SlimCommonIo
