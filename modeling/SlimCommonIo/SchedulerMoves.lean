import SlimCommonIo.Scheduler

/-!
# What a step can do

`Move` lists every step of the scheduler by the state it starts from and the
state it leads to.  The invariants of the following modules are proved by cases
on it and never unfold the step function.
-/

namespace SlimCommonIo

variable {P : Program}

namespace Scheduler

/-- Client code calls `spawn`; `below` is the stack under the call. -/
inductive CallsSpawn (s : Scheduler P) :
    Label P → P.Code → List (Activation P) → Prop
  | job {allocated : Bool} {entry : Posted P} {code : P.Job}
      {rest : List (Activation P)} {body : P.Code} {next : Option ErrorStatus → P.Job}
      (hstack : s.stack = .job entry code :: rest)
      (hcode : P.job code = .spawn body next) :
      CallsSpawn s (.runner allocated) body (.jobInSpawn entry next :: rest)
  | coroutine {allocated : Bool} {id : FrameId} {code : P.Code}
      {rest : List (Activation P)} {frame : Frame P} {body : P.Code}
      {next : Option ErrorStatus → P.Code}
      (hstack : s.stack = .coroutine id code :: rest)
      (hframe : s.heap.frames id = some frame)
      (hcode : P.instr code = .spawn body next) :
      CallsSpawn s (.runner allocated) body (.coroutineInSpawn id next :: rest)
  | client {body : P.Code}
      (hstack : s.stack = []) (hopen : s.closed = false) :
      CallsSpawn s (.callSpawn body) body []

/-- Code on the driving thread calls `post`; `below` is its stack afterwards. -/
inductive CallsPost (s : Scheduler P) : P.Job → List (Activation P) → Prop
  | job {entry : Posted P} {code job next : P.Job} {rest : List (Activation P)}
      (hstack : s.stack = .job entry code :: rest)
      (hcode : P.job code = .post job next) :
      CallsPost s job (.job entry next :: rest)
  | coroutine {id : FrameId} {code next : P.Code} {job : P.Job}
      {rest : List (Activation P)} {frame : Frame P}
      (hstack : s.stack = .coroutine id code :: rest)
      (hframe : s.heap.frames id = some frame)
      (hcode : P.instr code = .post job next) :
      CallsPost s job (.coroutine id next :: rest)

/-- The running coroutine ends with this outcome. -/
inductive Ends (s : Scheduler P) (id : FrameId) (frame : Frame P)
    (rest : List (Activation P)) : P.Outcome → Prop
  | value {code : P.Code} {value : Option P.Value}
      (hstack : s.stack = .coroutine id code :: rest)
      (hframe : s.heap.frames id = some frame)
      (hcode : P.instr code = .coReturn value) : Ends s id frame rest (.ok value)
  | exception {code : P.Code} {exc : P.Exc}
      (hstack : s.stack = .coroutine id code :: rest)
      (hframe : s.heap.frames id = some frame)
      (hcode : P.instr code = .throw exc) : Ends s id frame rest (.error exc)

/-- The state after a completion has resumed the coroutine `handle`. -/
def afterResume (s : Scheduler P) (heap : Heap P) (handle : FrameId)
    (frame : Frame P) (stamp : Stamp) (next : Int32 → P.Code) (value : Int32)
    (below : List (Activation P)) : Scheduler P :=
  { s with
    io := { s.io with handled := s.io.handled + 1 }
    heap := heap.set handle { frame with point := .running }
    stack := .coroutine handle (next value) :: below
    log := s.log ++ [.awaited frame.root (some stamp) value] }

/-- The ring after `await_suspend` has staged a group of entries. -/
def stagedIo (s : Scheduler P) (sq : SubmissionQueue) (group : List Sqe) : IoState :=
  { s.io with sq := sq, staged := s.io.staged ++ group }

/-- The steps of the system, with who moves. -/
inductive Move (s : Scheduler P) : Label P → Scheduler P → Prop
  -- run, shutdown, the destructor and reap
  | leaveRun {allocated : Bool} {rest : List (Activation P)} (hstack : s.stack = .run :: rest)
      (hstop : s.stop.requested = true) :
      Move s (.runner allocated)
        { s with stack := rest, stop := { s.stop with registered := false } }
  | loopRun {allocated : Bool} {rest : List (Activation P)} (hstack : s.stack = .run :: rest)
      (hstop : s.stop.requested = false) :
      Move s (.runner allocated) { s with stack := .drain .start :: .reap :: .run :: rest }
  | leaveShutdown {allocated : Bool} {rest : List (Activation P)}
      (hstack : s.stack = .shutdown :: rest) (htasks : s.tasks = []) :
      Move s (.runner allocated) { s with stack := rest }
  | loopShutdown {allocated : Bool} {rest : List (Activation P)}
      (hstack : s.stack = .shutdown :: rest) (htasks : s.tasks ≠ []) :
      Move s (.runner allocated) { s with stack := .drain .start :: .reap :: .shutdown :: rest }
  | destructor {allocated : Bool} {rest : List (Activation P)}
      (hstack : s.stack = .destructor :: rest) :
      Move s (.runner allocated) { s with stack := rest, closed := true }
  | reap {allocated : Bool} {rest : List (Activation P)} (hstack : s.stack = .reap :: rest) :
      Move s (.runner allocated) (s.reap rest)
  -- drain
  | armedStart {allocated : Bool} {rest : List (Activation P)}
      (hstack : s.stack = .drain .start :: rest) (harmed : s.eventfdArmed = true) :
      Move s (.runner allocated) { s with stack := .drain .enter :: rest }
  | arm {allocated : Bool} {rest : List (Activation P)}
      (hstack : s.stack = .drain .start :: rest) (harmed : s.eventfdArmed = false) :
      Move s (.runner allocated)
        { s with
          io := s.stagedIo (s.io.sq.armEventfdRead s.eventfdFd s.eventfdBufAddr)
            [SubmissionQueue.eventfdRead s.eventfdFd s.eventfdBufAddr]
          eventfdArmed := true
          stack := .drain .enter :: rest }
  | enter {rest : List (Activation P)} {accepted : ℕ}
      (hstack : s.stack = .drain .enter :: rest)
      (hpending : accepted ≤ s.io.sq.pending.toNat)
      (hentries : accepted ≤ s.io.sq.entries.toNat)
      (hlimit : s.io.sq.pending.toNat ≤ accepted + backlogLimit) :
      Move s (.enter accepted)
        { s with
          io :=
            { s.io with
              sq := s.io.sq.consume accepted
              kernel := s.io.kernel ++ s.io.sq.front accepted
              consumed := s.io.consumed ++ s.io.sq.front accepted }
          stack :=
            .drain (if accepted = s.io.sq.pending.toNat ∧ s.shuttingDown = false
              then .waiting else .scan) :: rest }
  | wake {label : Label P} {rest : List (Activation P)}
      (hstack : s.stack = .drain .waiting :: rest)
      (hlabel : label = .interrupted ∨ ∃ allocated, label = .runner allocated) :
      Move s label { s with stack := .drain .scan :: rest }
  | scan {allocated : Bool} {rest : List (Activation P)}
      (hstack : s.stack = .drain .scan :: rest) :
      Move s (.runner allocated)
        { s with stack := .drain (.loop s.io.cq.head s.io.cq.tail) :: rest }
  | endLoop {allocated : Bool} {rest : List (Activation P)} {current : UInt32}
      (hstack : s.stack = .drain (.loop current current) :: rest) :
      Move s (.runner allocated) { s with stack := rest }
  | handleSentinel {allocated : Bool} {rest : List (Activation P)} {current tail : UInt32}
      (hstack : s.stack = .drain (.loop current tail) :: rest)
      (hmore : current ≠ tail)
      (hcqe : (s.io.cq.read current).userData = .eventfdBuf) :
      Move s (.runner allocated)
        { s with
          io := { s.io with handled := s.io.handled + 1 }
          eventfdArmed := false
          stack := .swapInbox :: .drain (.inboxDone current tail) :: rest }
  | handleNull {allocated : Bool} {rest : List (Activation P)} {current tail : UInt32}
      (hstack : s.stack = .drain (.loop current tail) :: rest)
      (hmore : current ≠ tail)
      (hcqe : (s.io.cq.read current).userData = .null) :
      Move s (.runner allocated)
        { s with
          io :=
            { s.io with
              handled := s.io.handled + 1
              cq := { s.io.cq with head := current + 1 } }
          stack := .drain (.loop (current + 1) tail) :: rest }
  | handleAwaitable {allocated : Bool} {rest : List (Activation P)} {current tail : UInt32}
      {id object : ℕ} {frame : Frame P} {awt awaitedAwt : Awaitable}
      {handle awaited : ℕ} {awaiting : Frame P} {stamp : Stamp}
      {next : Int32 → P.Code}
      (hstack : s.stack = .drain (.loop current tail) :: rest)
      (hmore : current ≠ tail)
      (hcqe : (s.io.cq.read current).userData = .awaitable id object)
      (hframe : s.heap.frames id = some frame)
      (hobject : frame.objects object = some awt)
      (hhandle : awt.handle = some handle)
      (hawaiting : (s.heap.set id (frame.storeResult object awt
        (s.io.cq.read current).res)).frames handle = some awaiting)
      (hpoint : awaiting.point = .onAwaitable awaited stamp next)
      (hawaited : awaiting.objects awaited = some awaitedAwt) :
      Move s (.runner allocated)
        (s.afterResume
          (s.heap.set id (frame.storeResult object awt (s.io.cq.read current).res))
          handle awaiting stamp next awaitedAwt.awaitResume
          (.drain (.resumed current tail) :: rest))
  | handleDangling {allocated : Bool} {rest : List (Activation P)} {current tail : UInt32}
      {id object : ℕ}
      (hstack : s.stack = .drain (.loop current tail) :: rest)
      (hmore : current ≠ tail)
      (hcqe : (s.io.cq.read current).userData = .awaitable id object)
      (hbad : ∀ (frame : Frame P) (awt : Awaitable) (stamp : Stamp)
        (next : Int32 → P.Code), s.heap.frames id = some frame →
        frame.objects object = some awt → awt.handle = some id →
        frame.point ≠ .onAwaitable object stamp next) :
      Move s (.runner allocated)
        { s with
          io := { s.io with handled := s.io.handled + 1 }
          stack := .drain (.resumed current tail) :: rest
          crash := some .undefined }
  | resumed {allocated : Bool} {rest : List (Activation P)} {current tail : UInt32}
      (hstack : s.stack = .drain (.resumed current tail) :: rest) :
      Move s (.runner allocated)
        { s with
          tlSqFull := false
          io := { s.io with cq := { s.io.cq with head := current + 1 } }
          stack := .drain (.loop (current + 1) tail) :: rest }
  | inboxDone {allocated : Bool} {rest : List (Activation P)} {current tail : UInt32}
      (hstack : s.stack = .drain (.inboxDone current tail) :: rest) :
      Move s (.runner allocated)
        { s with
          io := { s.io with cq := { s.io.cq with head := current + 1 } }
          stack := .drain (.loop (current + 1) tail) :: rest }
  -- drain_inbox and its callables
  | swapInbox {allocated : Bool} {rest : List (Activation P)}
      (hstack : s.stack = .swapInbox :: rest) :
      Move s (.runner allocated) { s with inbox := [], stack := .drainInbox s.inbox :: rest }
  | endInbox {allocated : Bool} {rest : List (Activation P)}
      (hstack : s.stack = .drainInbox [] :: rest) :
      Move s (.runner allocated) { s with stack := rest }
  | invoke {allocated : Bool} {rest : List (Activation P)} {entry : Posted P}
      {batch : List (Posted P)}
      (hstack : s.stack = .drainInbox (entry :: batch) :: rest) :
      Move s (.runner allocated)
        { s with
          stack := .job entry entry.fn :: .drainInbox batch :: rest
          log := s.log ++ [.invoked entry] }
  | endJob {allocated : Bool} {rest : List (Activation P)} {entry : Posted P} {code : P.Job}
      (hstack : s.stack = .job entry code :: rest)
      (hcode : P.job code = .ret ∨
        ∃ status, P.job code = .throwIoException status ∧ status ≠ .sqFull) :
      Move s (.runner allocated) { s with stack := rest }
  | requeue {allocated : Bool} {rest : List (Activation P)} {entry : Posted P} {code : P.Job}
      (hstack : s.stack = .job entry code :: rest)
      (hcode : P.job code = .throwIoException .sqFull) :
      Move s (.runner allocated)
        { s.pushInbox entry.origin entry.fn with stack := .eventfdWrite :: rest }
  | escape {allocated : Bool} {rest : List (Activation P)} {entry : Posted P} {code : P.Job}
      {crash : Option Crash}
      (hstack : s.stack = .job entry code :: rest)
      (hcode : P.job code = .throwOther) :
      Move s (.runner allocated)
        { s with
          stack := []
          io := { s.io with handled := s.io.handled - 1 }
          stop := { s.stop with registered := false }
          crash := crash }
  | post {allocated : Bool} {job : P.Job} {below : List (Activation P)}
      (hcall : CallsPost s job below) :
      Move s (.runner allocated)
        { s.pushInbox s.nextPost job with stack := .eventfdWrite :: below }
  | eventfdWrite {allocated : Bool} {rest : List (Activation P)}
      (hstack : s.stack = .eventfdWrite :: rest) :
      Move s (.runner allocated) { s with eventfd := s.eventfd + 1, stack := rest }
  -- spawn
  | spawnFull {label : Label P} {body : P.Code} {below stack : List (Activation P)}
      (hcall : CallsSpawn s label body below) (hfull : s.io.sq.isFull = true)
      (hdeliver : deliver (some .sqFull) below = some stack) :
      Move s label
        { s with
          heap := s.heap.create .void body s.heap.next
          stack := stack
          held := s.heap.next :: s.held
          log := s.log ++ [.spawnExit s.heap.next (some .sqFull)] }
  | spawnStart {label : Label P} {body : P.Code} {below : List (Activation P)}
      (hcall : CallsSpawn s label body below) (hroom : s.io.sq.isFull = false) :
      Move s label
        { s with
          heap := (s.heap.create .void body s.heap.next).start s.heap.next
          stack := .coroutine s.heap.next body :: .spawn s.heap.next :: below
          log := s.log ++ [.started s.heap.next (callerOrigin below)] }
  | spawnRefused {allocated : Bool} {task : FrameId} {below stack : List (Activation P)}
      (hstack : s.stack = .spawn task :: below) (hflag : s.tlSqFull = true)
      (hdeliver : deliver (some .sqFull) below = some stack) :
      Move s (.runner allocated)
        { s with
          tlSqFull := false
          stack := stack
          held := task :: s.held
          log := s.log ++ [.spawnExit task (some .sqFull)] }
  | spawnAccepted {task : FrameId} {below stack : List (Activation P)}
      (hstack : s.stack = .spawn task :: below) (hflag : s.tlSqFull = false)
      (hdeliver : deliver none below = some stack) :
      Move s (.runner true)
        { s with
          tasks := s.tasks ++ [some task]
          stack := stack
          log := s.log ++ [.spawnExit task none] }
  | spawnBadAlloc {task : FrameId} {below stack : List (Activation P)}
      (hstack : s.stack = .spawn task :: below) (hflag : s.tlSqFull = false)
      (hdeliver : deliver (some .badAllocation) below = some stack) :
      Move s (.runner false)
        { s with
          stack := stack
          held := task :: s.held
          log := s.log ++ [.spawnExit task (some .badAllocation)] }
  -- coroutines
  | effect {allocated : Bool} {rest : List (Activation P)} {id : FrameId} {code next : P.Code}
      {frame : Frame P} {visible : P.Effect}
      (hstack : s.stack = .coroutine id code :: rest)
      (hframe : s.heap.frames id = some frame)
      (hcode : P.instr code = .effect visible next) :
      Move s (.runner allocated)
        { s with
          stack := .coroutine id next :: rest
          log := s.log ++ [.effect id visible] }
  | refused {allocated : Bool} {rest : List (Activation P)} {id object : ℕ} {code : P.Code}
      {frame : Frame P} {construct : Option Awaitable} {next : Int32 → P.Code}
      {awt : Awaitable}
      (hstack : s.stack = .coroutine id code :: rest)
      (hframe : s.heap.frames id = some frame)
      (hcode : P.instr code = .coAwait object construct next)
      (hobject : awaitedObject frame object construct = some awt)
      (hrefuse : awt.awaitSuspend (.awaitable id object)
        ⟨frame.root, s.ordinals frame.root⟩ s.io.sq = none) :
      Move s (.runner allocated)
        { s with
          tlSqFull := true
          heap := s.heap.set id
            { frame with objects := Function.update frame.objects object (some awt) }
          stack := .coroutine id (next awt.awaitResume) :: rest
          log := s.log ++ [.awaited frame.root none awt.awaitResume] }
  | stage {allocated : Bool} {rest : List (Activation P)} {id object : ℕ} {code : P.Code}
      {frame : Frame P} {construct : Option Awaitable} {next : Int32 → P.Code}
      {awt : Awaitable} {sq : SubmissionQueue}
      (hstack : s.stack = .coroutine id code :: rest)
      (hframe : s.heap.frames id = some frame)
      (hcode : P.instr code = .coAwait object construct next)
      (hobject : awaitedObject frame object construct = some awt)
      (haccept : awt.awaitSuspend (.awaitable id object)
        ⟨frame.root, s.ordinals frame.root⟩ s.io.sq = some sq) :
      Move s (.runner allocated)
        { s with
          io := s.stagedIo sq (awt.group (.awaitable id object)
            ⟨frame.root, s.ordinals frame.root⟩)
          ordinals := Function.update s.ordinals frame.root
            (s.ordinals frame.root + 1)
          heap := s.heap.set id
            { frame with
              objects := Function.update frame.objects object
                (some { awt with handle := some id })
              point := .onAwaitable object
                ⟨frame.root, s.ordinals frame.root⟩ next }
          stack := rest }
  | awaitTask {allocated : Bool} {rest : List (Activation P)} {id : FrameId} {code inner : P.Code}
      {frame : Frame P} {type : TaskType} {next : P.Outcome → P.Code}
      (hstack : s.stack = .coroutine id code :: rest)
      (hframe : s.heap.frames id = some frame)
      (hcode : P.instr code = .coAwaitTask type inner next) :
      Move s (.runner allocated)
        { s with
          heap := s.heap.coAwaitTask id frame type inner next
          stack := .coroutine s.heap.next inner :: rest }
  | endRoot {allocated : Bool} {rest : List (Activation P)} {id : FrameId} {frame : Frame P}
      {outcome : P.Outcome} (hends : Ends s id frame rest outcome)
      (hroot : frame.promise.continuation = none) :
      Move s (.runner allocated)
        { s with
          heap := s.heap.set id (frame.complete outcome)
          stack := rest
          log := s.log ++ [.finished id outcome] }
  | endInner {allocated : Bool} {rest : List (Activation P)} {id awaiting : FrameId}
      {frame : Frame P} {outcome : P.Outcome} {heap : Heap P} {code : P.Code}
      (hends : Ends s id frame rest outcome)
      (hinner : frame.promise.continuation = some awaiting)
      (hresume : (s.heap.set id (frame.complete outcome)).resumeAwaiting awaiting =
        .resume heap awaiting code) :
      Move s (.runner allocated)
        { s with
          heap := heap
          stack := .coroutine awaiting code :: rest
          log := s.log ++ [.finished id outcome] }
  | endAstray {allocated : Bool} {rest : List (Activation P)} {id awaiting : FrameId}
      {frame : Frame P} {outcome : P.Outcome} {crash : Crash}
      (hends : Ends s id frame rest outcome)
      (hinner : frame.promise.continuation = some awaiting)
      (hresume : ∀ heap code,
        (s.heap.set id (frame.complete outcome)).resumeAwaiting awaiting ≠
          .resume heap awaiting code) :
      Move s (.runner allocated)
        { s with
          heap := s.heap.set id (frame.complete outcome)
          log := s.log ++ [.finished id outcome]
          crash := some crash }
  | astray {allocated : Bool} {rest : List (Activation P)} {id : FrameId} {code : P.Code}
      (hstack : s.stack = .coroutine id code :: rest)
      (hbad : ∀ frame, s.heap.frames id = some frame →
        ∃ object construct next, P.instr code = .coAwait object construct next ∧
          awaitedObject frame object construct = none) :
      Move s (.runner allocated) { s with crash := some .undefined }
  -- the kernel
  | complete {index : ℕ} {sqe : Sqe} {given res : Int32} {eventfd : ℕ}
      (hsqe : s.io.kernel[index]? = some sqe) (hroom : s.io.cq.hasRoom = true)
      (heventfd : sqe.userData = .eventfdBuf ∧ 0 < s.eventfd ∧ eventfd = 0 ∨
        sqe.userData ≠ .eventfdBuf ∧ eventfd = s.eventfd) :
      Move s (.complete index given)
        { s with
          io :=
            { s.io with
              cq := s.io.cq.append
                { userData := sqe.userData, res := res, stamp := sqe.stamp }
              kernel := s.io.kernel.eraseIdx index
              posted := s.io.posted ++
                [{ userData := sqe.userData, res := res, stamp := sqe.stamp }] }
          eventfd := eventfd }
  -- other threads
  | enqueue {job : P.Job} (hopen : s.closed = false) :
      Move s (.enqueue job)
        { s.pushInbox s.nextPost job with
          unnotified := s.nextPost :: s.unnotified }
  | notify {id : ℕ} (hid : id ∈ s.unnotified) :
      Move s (.notify id)
        { s with
          unnotified := s.unnotified.erase id, eventfd := s.eventfd + 1 }
  | requestStop (hregistered : s.stop.registered = true)
      (hrequested : s.stop.requested = false) :
      Move s .requestStop { s with stop := { s.stop with requested := true } }
  | stopCallback (hregistered : s.stop.registered = true)
      (hrequested : s.stop.requested = true) (hcalled : s.stop.called = false) :
      Move s .stopCallback
        { s with
          eventfd := s.eventfd + 1, stop := { s.stop with called := true } }
  -- client code
  | dropTask {task : FrameId} (htask : task ∈ s.held) :
      Move s (.dropTask task) { s with heap := s.heap.destroy task, held := s.held.erase task }
  | foreignRefusal (hclient : s.inClientCode = true) :
      Move s .foreignRefusal { s with tlSqFull := true }
  | callResume {body : P.Code} (hstack : s.stack = []) (hopen : s.closed = false) :
      Move s (.callResume body)
        { s with
          heap := (s.heap.create .void body s.heap.next).start s.heap.next
          stack := [.coroutine s.heap.next body]
          held := s.heap.next :: s.held }
  | callRun {requested : Bool} (hstack : s.stack = []) (hopen : s.closed = false) :
      Move s (.callRun requested)
        { s with
          stack := [.run]
          stop := { requested := requested, registered := true, called := requested }
          eventfd := if requested then s.eventfd + 1 else s.eventfd }
  | callShutdown (hstack : s.stack = []) (hopen : s.closed = false) :
      Move s .callShutdown { s with shuttingDown := true, stack := [.shutdown] }
  | callDestroy (hstack : s.stack = []) (hopen : s.closed = false)
      (htasks : s.tasks = []) :
      Move s .callDestroy { s with closed := true }
  | callDestroyBusy (hstack : s.stack = []) (hopen : s.closed = false)
      (htasks : s.tasks ≠ []) :
      Move s .callDestroy
        { s with shuttingDown := true, stack := [.shutdown, .destructor] }

/-! ## Every step is a move -/

theorem move_of_enterSpawn
    {s next : Scheduler P} {label : Label P} {body : P.Code}
    {below : List (Activation P)} (hcall : CallsSpawn s label body below)
    (hstep : s.enterSpawn body below = some next) : Move s label next := by
  simp only [enterSpawn] at hstep
  split at hstep
  next hfull =>
    simp only [leaveSpawn, Option.map_eq_some_iff] at hstep
    obtain ⟨stack, hdeliver, rfl⟩ := hstep
    exact .spawnFull hcall hfull hdeliver
  next hroom =>
    simp only [Option.some.injEq] at hstep
    subst hstep
    exact .spawnStart hcall (by simpa using hroom)

theorem move_of_resumeReturned
    {s next : Scheduler P} {task : FrameId} {allocated : Bool}
    {below : List (Activation P)} (hstack : s.stack = .spawn task :: below)
    (hstep : s.resumeReturned task allocated below = some next) :
    Move s (.runner allocated) next := by
  simp only [resumeReturned] at hstep
  split at hstep
  next hflag =>
    simp only [leaveSpawn, Option.map_eq_some_iff] at hstep
    obtain ⟨stack, hdeliver, rfl⟩ := hstep
    exact .spawnRefused hstack hflag hdeliver
  next hflag =>
    have hclear : s.tlSqFull = false := by simpa using hflag
    cases allocated with
    | true =>
        simp only [if_true, leaveSpawn, Option.map_eq_some_iff] at hstep
        obtain ⟨stack, hdeliver, rfl⟩ := hstep
        exact .spawnAccepted hstack hclear hdeliver
    | false =>
        simp only [Bool.false_eq_true, if_false, leaveSpawn, Option.map_eq_some_iff]
          at hstep
        obtain ⟨stack, hdeliver, rfl⟩ := hstep
        exact .spawnBadAlloc hstack hclear hdeliver

theorem move_of_jobStep
    {s next : Scheduler P} {allocated : Bool} {entry : Posted P} {code : P.Job}
    {rest : List (Activation P)} (hstack : s.stack = .job entry code :: rest)
    (hstep : s.jobStep entry code rest = some next) :
    Move s (.runner allocated) next := by
  simp only [jobStep] at hstep
  cases hcode : P.job code with
  | spawn body after =>
      simp only [hcode] at hstep
      exact move_of_enterSpawn (.job hstack hcode) hstep
  | post job after =>
      simp only [hcode, Option.some.injEq] at hstep
      subst hstep
      exact .post (.job hstack hcode)
  | ret =>
      simp only [hcode, Option.some.injEq] at hstep
      subst hstep
      exact .endJob hstack (.inl hcode)
  | throwIoException status =>
      simp only [hcode] at hstep
      split at hstep
      next hstatus =>
        simp only [Option.some.injEq] at hstep
        subst hstatus hstep
        exact .requeue hstack hcode
      next hstatus =>
        simp only [Option.some.injEq] at hstep
        subst hstep
        exact .endJob hstack (.inr ⟨status, hcode, hstatus⟩)
  | throwOther =>
      simp only [hcode, Option.some.injEq] at hstep
      subst hstep
      exact .escape hstack hcode

theorem move_of_finish
    {s : Scheduler P} {allocated : Bool} {id : FrameId} {frame : Frame P}
    {outcome : P.Outcome} {rest : List (Activation P)}
    (hends : Ends s id frame rest outcome) :
    Move s (.runner allocated) (s.finish id frame outcome rest) := by
  have hcontinuation : (frame.complete outcome).promise.continuation =
      frame.promise.continuation := by
    unfold Frame.complete
    cases outcome with
    | ok value => cases frame.type <;> rfl
    | error exc => rfl
  simp only [finish, Heap.finalAwaitSuspend, hcontinuation]
  cases hinner : frame.promise.continuation with
  | none => exact .endRoot hends hinner
  | some awaiting =>
      simp only
      cases hresume : (s.heap.set id (frame.complete outcome)).resumeAwaiting
          awaiting with
      | noop =>
          exfalso
          simp only [Heap.resumeAwaiting] at hresume
          repeat' split at hresume
          all_goals simp at hresume
      | resume heap other code =>
          have hother : other = awaiting := by
            simp only [Heap.resumeAwaiting] at hresume
            repeat' split at hresume
            all_goals simp at hresume
            exact hresume.2.1.symm
          subst hother
          exact .endInner hends hinner hresume
      | undefined =>
          refine .endAstray hends hinner ?_
          simp [hresume]
      | terminate =>
          refine .endAstray hends hinner ?_
          simp [hresume]

theorem move_of_coroutineStep
    {s next : Scheduler P} {allocated : Bool} {id : FrameId} {code : P.Code}
    {rest : List (Activation P)} (hstack : s.stack = .coroutine id code :: rest)
    (hstep : s.coroutineStep id code rest = some next) :
    Move s (.runner allocated) next := by
  simp only [coroutineStep] at hstep
  cases hframe : s.heap.frames id with
  | none =>
      simp only [hframe, Option.some.injEq] at hstep
      subst hstep
      exact .astray hstack (by simp [hframe])
  | some frame =>
      cases hcode : P.instr code with
      | effect visible after =>
          simp only [hframe, hcode, Option.some.injEq] at hstep
          subst hstep
          exact .effect hstack hframe hcode
      | coAwait object construct after =>
          simp only [hframe, hcode] at hstep
          cases hobject : awaitedObject frame object construct with
          | none =>
              simp only [hobject, Option.some.injEq] at hstep
              subst hstep
              refine .astray hstack ?_
              intro other hother
              rw [hframe, Option.some.injEq] at hother
              subst hother
              exact ⟨object, construct, after, hcode, hobject⟩
          | some awt =>
              simp only [hobject, Option.some.injEq] at hstep
              subst hstep
              unfold coAwait
              cases haccept : awt.awaitSuspend (.awaitable id object)
                  ⟨frame.root, s.ordinals frame.root⟩ s.io.sq with
              | none =>
                  simp only [haccept]
                  exact .refused hstack hframe hcode hobject haccept
              | some sq =>
                  simp only [haccept]
                  exact .stage hstack hframe hcode hobject haccept
      | coAwaitTask type inner after =>
          simp only [hframe, hcode, Option.some.injEq] at hstep
          subst hstep
          exact .awaitTask hstack hframe hcode
      | spawn body after =>
          simp only [hframe, hcode] at hstep
          exact move_of_enterSpawn (.coroutine hstack hframe hcode) hstep
      | post job after =>
          simp only [hframe, hcode, Option.some.injEq] at hstep
          subst hstep
          exact .post (.coroutine hstack hframe hcode)
      | coReturn value =>
          simp only [hframe, hcode, Option.some.injEq] at hstep
          subst hstep
          exact move_of_finish (.value hstack hframe hcode)
      | throw exc =>
          simp only [hframe, hcode, Option.some.injEq] at hstep
          subst hstep
          exact move_of_finish (.exception hstack hframe hcode)

/-- Resuming the coroutine of a completed operation goes astray only if the
designated frame is not suspended on that very operation. -/
theorem move_of_resumeAwaitable
    {s : Scheduler P} {allocated : Bool} {current tail : UInt32} {id object : ℕ}
    {rest : List (Activation P)}
    (hstack : s.stack = .drain (.loop current tail) :: rest)
    (hmore : current ≠ tail)
    (hcqe : (s.io.cq.read current).userData = .awaitable id object) :
    Move s (.runner allocated)
      (({ s with io := { s.io with handled := s.io.handled + 1 } } :
          Scheduler P).resumeAwaitable (s.io.cq.read current) id object
        (.drain (.resumed current tail) :: rest)) := by
  unfold resumeAwaitable
  cases hframe : s.heap.frames id with
  | none => exact .handleDangling hstack hmore hcqe (by simp [hframe])
  | some frame =>
      cases hobject : frame.objects object with
      | none =>
          simp only [hobject]
          refine .handleDangling hstack hmore hcqe ?_
          intro other awt stamp next hother hawt
          rw [hframe, Option.some.injEq] at hother
          subst hother
          simp [hobject] at hawt
      | some awt =>
          cases hhandle : awt.handle with
          | none =>
              simp only [hobject, hhandle]
              refine .handleDangling hstack hmore hcqe ?_
              intro other otherAwt stamp next hother hawt hself
              rw [hframe, Option.some.injEq] at hother
              subst hother
              rw [hobject, Option.some.injEq] at hawt
              subst hawt
              simp [hhandle] at hself
          | some handle =>
              simp only [hobject, hhandle]
              -- a frame suspended on the operation would have been found
              have hbad : (∀ target awaited stamp next,
                    (s.heap.set id (frame.storeResult object awt
                      (s.io.cq.read current).res)).frames handle = some target →
                    target.point = .onAwaitable awaited stamp next →
                    target.objects awaited = none) →
                  ∀ (other : Frame P) (otherAwt : Awaitable) (stamp : Stamp)
                    (next : Int32 → P.Code), s.heap.frames id = some other →
                    other.objects object = some otherAwt →
                    otherAwt.handle = some id →
                    other.point ≠ .onAwaitable object stamp next := by
                intro hnone other otherAwt stamp next hother hawt hself hpoint
                rw [hframe, Option.some.injEq] at hother
                subst hother
                rw [hobject, Option.some.injEq] at hawt
                subst hawt
                rw [hhandle, Option.some.injEq] at hself
                subst hself
                have hlost := hnone
                  (frame.storeResult object awt (s.io.cq.read current).res)
                  object stamp next (by simp [Heap.set]) hpoint
                simp [Frame.storeResult] at hlost
              unfold resumeHandle
              cases hawaiting : (s.heap.set id (frame.storeResult object awt
                  (s.io.cq.read current).res)).frames handle with
              | none =>
                  refine .handleDangling hstack hmore hcqe (hbad ?_)
                  simp [hawaiting]
              | some awaiting =>
                  cases hpoint : awaiting.point with
                  | onAwaitable awaited stamp next =>
                      cases hawaited : awaiting.objects awaited with
                      | none =>
                          simp only [hpoint, hawaited]
                          refine .handleDangling hstack hmore hcqe (hbad ?_)
                          intro target awaited' stamp' next' htarget hpoint'
                          rw [hawaiting, Option.some.injEq] at htarget
                          subst htarget
                          rw [hpoint] at hpoint'
                          cases hpoint'
                          exact hawaited
                      | some awaitedAwt =>
                          simp only [hpoint, hawaited]
                          exact .handleAwaitable hstack hmore hcqe hframe hobject
                            hhandle hawaiting hpoint hawaited
                  | _ =>
                      simp only [hpoint]
                      refine .handleDangling hstack hmore hcqe (hbad ?_)
                      intro target awaited' stamp' next' htarget hpoint'
                      rw [hawaiting, Option.some.injEq] at htarget
                      subst htarget
                      rw [hpoint] at hpoint'
                      cases hpoint'

theorem move_of_drainLoop
    {s : Scheduler P} {allocated : Bool} {current tail : UInt32}
    {rest : List (Activation P)}
    (hstack : s.stack = .drain (.loop current tail) :: rest) :
    Move s (.runner allocated) (s.drainLoop current tail rest) := by
  unfold drainLoop
  split
  next hend =>
    subst hend
    exact .endLoop hstack
  next hmore =>
    cases hcqe : (s.io.cq.read current).userData with
    | null =>
        simp only [hcqe]
        exact .handleNull hstack hmore hcqe
    | eventfdBuf =>
        simp only [hcqe]
        exact .handleSentinel hstack hmore hcqe
    | awaitable id object =>
        simp only [hcqe]
        exact move_of_resumeAwaitable hstack hmore hcqe

theorem move_of_runnerStep
    {s next : Scheduler P} {allocated : Bool}
    (hstep : s.runnerStep allocated = some next) :
    Move s (.runner allocated) next := by
  unfold runnerStep at hstep
  split at hstep
  case h_1 => simp at hstep
  case h_2 rest hstack =>
      split at hstep
      next hstop =>
        simp only [Option.some.injEq] at hstep
        subst hstep
        exact .leaveRun hstack hstop
      next hstop =>
        simp only [Option.some.injEq] at hstep
        subst hstep
        exact .loopRun hstack (by simpa using hstop)
  case h_3 rest hstack =>
      split at hstep
      next htasks =>
        simp only [Option.some.injEq] at hstep
        subst hstep
        exact .leaveShutdown hstack (by simpa using htasks)
      next htasks =>
        simp only [Option.some.injEq] at hstep
        subst hstep
        exact .loopShutdown hstack (by simpa using htasks)
  case h_4 rest hstack =>
      simp only [Option.some.injEq] at hstep
      subst hstep
      exact .destructor hstack
  case h_5 rest hstack =>
      simp only [Option.some.injEq] at hstep
      subst hstep
      exact .reap hstack
  case h_6 rest hstack =>
      simp only [Option.some.injEq] at hstep
      subst hstep
      unfold drainStart
      split
      next harmed => exact .armedStart hstack harmed
      next harmed => exact .arm hstack (by simpa using harmed)
  case h_7 => simp at hstep
  case h_8 rest hstack =>
      split at hstep
      · simp at hstep
      · simp only [Option.some.injEq] at hstep
        subst hstep
        exact .wake hstack (.inr ⟨allocated, rfl⟩)
  case h_9 rest hstack =>
      simp only [Option.some.injEq] at hstep
      subst hstep
      exact .scan hstack
  case h_10 current tail rest hstack =>
      simp only [Option.some.injEq] at hstep
      subst hstep
      exact move_of_drainLoop hstack
  case h_11 current tail rest hstack =>
      simp only [Option.some.injEq] at hstep
      subst hstep
      exact .resumed hstack
  case h_12 current tail rest hstack =>
      simp only [Option.some.injEq] at hstep
      subst hstep
      exact .inboxDone hstack
  case h_13 rest hstack =>
      simp only [Option.some.injEq] at hstep
      subst hstep
      exact .swapInbox hstack
  case h_14 rest hstack =>
      simp only [Option.some.injEq] at hstep
      subst hstep
      exact .endInbox hstack
  case h_15 entry batch rest hstack =>
      simp only [Option.some.injEq] at hstep
      subst hstep
      exact .invoke hstack
  case h_16 entry code rest hstack => exact move_of_jobStep hstack hstep
  case h_17 => simp at hstep
  case h_18 rest hstack =>
      simp only [Option.some.injEq] at hstep
      subst hstep
      exact .eventfdWrite hstack
  case h_19 task rest hstack => exact move_of_resumeReturned hstack hstep
  case h_20 id code rest hstack => exact move_of_coroutineStep hstack hstep
  case h_21 => simp at hstep

theorem move_of_complete
    {s next : Scheduler P} {index : ℕ} {res : Int32}
    (hstep : s.complete index res = some next) :
    Move s (.complete index res) next := by
  unfold complete at hstep
  cases hsqe : s.io.kernel[index]? with
  | none => simp [hsqe] at hstep
  | some sqe =>
      simp only [hsqe] at hstep
      split at hstep
      next hroom =>
        split at hstep
        next hsentinel =>
          split at hstep
          next hcounter =>
            simp only [Option.some.injEq] at hstep
            subst hstep
            exact .complete hsqe hroom (.inl ⟨hsentinel, hcounter, rfl⟩)
          next => simp at hstep
        next hother =>
          simp only [Option.some.injEq] at hstep
          subst hstep
          exact .complete hsqe hroom (.inr ⟨hother, rfl⟩)
      next => simp at hstep

/-- Every step of the system is one of the moves. -/
theorem move_of_step
    {s next : Scheduler P} {label : Label P}
    (hstep : s.step label = some next) :
    s.crash = none ∧ Move s label next := by
  unfold step at hstep
  split at hstep
  · simp at hstep
  next hcrash =>
    refine ⟨by simpa using hcrash, ?_⟩
    cases label with
    | runner allocated => exact move_of_runnerStep hstep
    | enter accepted =>
        simp only at hstep
        split at hstep
        next rest hstack =>
          simp only [ioUringEnter] at hstep
          split at hstep
          next haccepted =>
            simp only [Option.some.injEq] at hstep
            subst hstep
            exact .enter hstack haccepted.1 haccepted.2.1 haccepted.2.2
          next => simp at hstep
        next => simp at hstep
    | interrupted =>
        simp only at hstep
        split at hstep
        next rest hstack =>
          simp only [Option.some.injEq] at hstep
          subst hstep
          exact .wake hstack (.inl rfl)
        next => simp at hstep
    | complete index res => exact move_of_complete hstep
    | enqueue job =>
        simp only at hstep
        split at hstep
        · simp at hstep
        next hopen =>
          simp only [Option.some.injEq] at hstep
          subst hstep
          exact .enqueue (by simpa using hopen)
    | notify id =>
        simp only at hstep
        split at hstep
        next hid =>
          simp only [Option.some.injEq] at hstep
          subst hstep
          exact .notify hid
        next => simp at hstep
    | requestStop =>
        simp only at hstep
        split at hstep
        next hstop =>
          simp only [Option.some.injEq] at hstep
          subst hstep
          exact .requestStop hstop.1 hstop.2
        next => simp at hstep
    | stopCallback =>
        simp only at hstep
        split at hstep
        next hstop =>
          simp only [Option.some.injEq] at hstep
          subst hstep
          exact .stopCallback hstop.1 hstop.2.1 hstop.2.2
        next => simp at hstep
    | dropTask task =>
        simp only at hstep
        split at hstep
        next htask =>
          simp only [Option.some.injEq] at hstep
          subst hstep
          exact .dropTask htask
        next => simp at hstep
    | foreignRefusal =>
        simp only at hstep
        split at hstep
        next hclient =>
          simp only [Option.some.injEq] at hstep
          subst hstep
          exact .foreignRefusal hclient
        next => simp at hstep
    | callSpawn body =>
        simp only at hstep
        split at hstep
        next hidle =>
          exact move_of_enterSpawn
            (.client (by simpa using hidle.1) hidle.2) hstep
        next => simp at hstep
    | callResume body =>
        simp only at hstep
        split at hstep
        next hidle =>
          simp only [Option.some.injEq] at hstep
          subst hstep
          exact .callResume (by simpa using hidle.1) hidle.2
        next => simp at hstep
    | callRun requested =>
        simp only at hstep
        split at hstep
        next hidle =>
          simp only [Option.some.injEq] at hstep
          subst hstep
          exact .callRun (by simpa using hidle.1) hidle.2
        next => simp at hstep
    | callShutdown =>
        simp only at hstep
        split at hstep
        next hidle =>
          simp only [Option.some.injEq] at hstep
          subst hstep
          exact .callShutdown (by simpa using hidle.1) hidle.2
        next => simp at hstep
    | callDestroy =>
        simp only at hstep
        split at hstep
        next hidle =>
          split at hstep
          next htasks =>
            simp only [Option.some.injEq] at hstep
            subst hstep
            exact .callDestroy (by simpa using hidle.1) hidle.2
              (by simpa using htasks)
          next htasks =>
            simp only [Option.some.injEq] at hstep
            subst hstep
            exact .callDestroyBusy (by simpa using hidle.1) hidle.2
              (by simpa using htasks)
        next => simp at hstep

theorem CallsSpawn.step_eq
    {s : Scheduler P} {label : Label P} {body : P.Code} {below : List (Activation P)}
    (hcall : CallsSpawn s label body below) (hcrash : s.crash = none) :
    s.step label = s.enterSpawn body below := by
  unfold step
  rw [hcrash]
  cases hcall with
  | job hstack hcode => simp [runnerStep, hstack, jobStep, hcode]
  | coroutine hstack hframe hcode =>
      simp [runnerStep, hstack, coroutineStep, hframe, hcode]
  | client hstack hopen => simp [hstack, hopen]

end Scheduler

end SlimCommonIo
