import SlimCommonIo.Operations

/-!
# One thread and all the schedulers it uses

`tl_sq_full` belongs to the thread.  Every scheduler the thread drives, and
every task it resumes by hand, sets and reads the same flag, and their calls
nest: a callable or a coroutine body may call `spawn`, `Task::resume` or `run`
of any scheduler.  This file follows one thread through all of them.

What client code does next is a label.  The rest is the code of `spawn`,
`await_suspend`, `drain` and `Task::resume` as far as it touches the flag or
the submission rings.
-/

namespace SlimCommonIo

abbrev SchedulerId := ℕ

abbrev RingId := ℕ

/-- A task with the inner tasks it is awaiting, the innermost first. -/
structure TaskChain where
  inner : List FrameId := []
  root : FrameId
  deriving DecidableEq, Repr

/-- The frame whose body runs. -/
def TaskChain.current (chain : TaskChain) : FrameId :=
  chain.inner.headD chain.root

/-- Who called `handle.resume()`. -/
inductive Resumer
  | spawn (scheduler : SchedulerId)
  | drain (scheduler : SchedulerId)
  | task
  deriving DecidableEq, Repr

/-- Activations on the call stack of the thread; client code is what runs in a
callable, in a coroutine body, or below all of them. -/
inductive ThreadActivation
  | drain (scheduler : SchedulerId)
  | drainInbox
  | job
  | coroutine (resumer : Resumer) (chain : TaskChain)
  deriving DecidableEq, Repr

/-- What the thread's schedulers need to keep apart here.  Several schedulers
may be built on one ring. -/
structure SchedulerRecord where
  ring : RingId
  eventfdFd : Int32
  eventfdBufAddr : UInt64
  eventfdArmed : Bool := false

/-- History: the capacity test of each `spawn`, the refused awaits with the
frame and the task which made them, and the exits of `spawn`. -/
inductive ThreadEvent
  | spawnCalled (task : FrameId) (full : Bool)
  | refused (frame task : FrameId)
  | spawnExit (task : FrameId) (status : Option ErrorStatus)
  deriving DecidableEq, Repr

structure DrivingThread where
  rings : RingId → SubmissionQueue
  schedulers : SchedulerId → SchedulerRecord
  tlSqFull : Bool := false
  stack : List ThreadActivation := []
  /-- Tasks suspended on an operation, with its ring. -/
  suspended : List (RingId × TaskChain) := []
  nextFrame : FrameId := 0
  log : List ThreadEvent := []

/-- What the code on top of the stack does next. -/
inductive ThreadLabel
  /-- `co_await` of an operation of this scheduler. -/
  | coAwait (scheduler : SchedulerId) (awt : Awaitable) (object ordinal : ℕ)
      (allocated : Bool)
  | coAwaitTask
  | finish (allocated : Bool)
  | callSpawn (scheduler : SchedulerId)
  /-- `Task::resume` of a new task, or of one suspended in its own body. -/
  | callResume
  | callResumeAgain (index : ℕ)
  /-- `drain` up to its loop; `io_uring_enter` accepts so many entries. -/
  | callDrain (scheduler : SchedulerId) (accepted : ℕ)
  | completion (index : ℕ)
  | sentinel
  | invoke
  | endJob
  /-- The callable throws something other than an `IOException`. -/
  | escapeJob
  | endInbox
  | leaveDrain

namespace DrivingThread

/-- `take_pending_sq_error`, which tells whether it returned an error. -/
def takePendingSqError (s : DrivingThread) : DrivingThread × Bool :=
  if s.tlSqFull then ({ s with tlSqFull := false }, true) else (s, false)

/-- `handle.resume()` has returned.  `spawn` throws or keeps the task, `drain`
ignores what it takes, and `Task::resume` takes nothing. -/
def resumeReturned (s : DrivingThread) (resumer : Resumer) (task : FrameId)
    (allocated : Bool) (rest : List ThreadActivation) : DrivingThread :=
  match resumer with
  | .spawn _ =>
      let (s, error) := s.takePendingSqError
      { s with
        stack := rest
        log := s.log ++
          [.spawnExit task
            (if error then some .sqFull
            else if allocated then none
            else some .badAllocation)] }
  | .drain scheduler =>
      { s.takePendingSqError.1 with stack := .drain scheduler :: rest }
  | .task => { s with stack := rest }

/-- `co_await` of an operation.  A refused one does not suspend. -/
def coAwait (s : DrivingThread) (ring : RingId) (awt : Awaitable) (object ordinal : ℕ)
    (allocated : Bool) (resumer : Resumer) (chain : TaskChain)
    (rest : List ThreadActivation) : DrivingThread :=
  match awt.awaitSuspend (.awaitable chain.current object) ⟨chain.root, ordinal⟩
      (s.rings ring) with
  | none =>
      { s with
        tlSqFull := true
        log := s.log ++ [.refused chain.current chain.root] }
  | some sq =>
      { s with
        rings := Function.update s.rings ring sq
        suspended := s.suspended ++ [(ring, chain)] }.resumeReturned
          resumer chain.root allocated rest

/-- The end of the current body: its awaiter continues, or `resume` returns. -/
def finish (s : DrivingThread) (allocated : Bool) (resumer : Resumer) (chain : TaskChain)
    (rest : List ThreadActivation) : DrivingThread :=
  match chain.inner with
  | _ :: inner => { s with stack := .coroutine resumer { chain with inner := inner } :: rest }
  | [] => s.resumeReturned resumer chain.root allocated rest

/-- `spawn` of a new task, up to `handle.resume()`. -/
def callSpawn (s : DrivingThread) (scheduler : SchedulerId) : DrivingThread :=
  let task := s.nextFrame
  let full := (s.rings (s.schedulers scheduler).ring).isFull
  let s := { s with nextFrame := task + 1 }
  if full then
    { s with log := s.log ++ [.spawnCalled task true, .spawnExit task (some .sqFull)] }
  else
    { s with
      stack := .coroutine (.spawn scheduler) { root := task } :: s.stack
      log := s.log ++ [.spawnCalled task false] }

/-- `drain` before its loop: arm the eventfd read, then submit. -/
def callDrain (s : DrivingThread) (scheduler : SchedulerId) (accepted : ℕ) :
    Option DrivingThread :=
  let record := s.schedulers scheduler
  let sq := s.rings record.ring
  let sq :=
    if record.eventfdArmed then sq
    else sq.armEventfdRead record.eventfdFd record.eventfdBufAddr
  if accepted ≤ sq.pending.toNat ∧ accepted ≤ sq.entries.toNat then
    some
      { s with
        rings := Function.update s.rings record.ring (sq.consume accepted)
        schedulers := Function.update s.schedulers scheduler
          { record with eventfdArmed := true }
        stack := .drain scheduler :: s.stack }
  else none

/-- The eventfd read has completed: `eventfd_armed_ = false` and `drain_inbox`. -/
def sentinel (s : DrivingThread) (scheduler : SchedulerId) : DrivingThread :=
  { s with
    schedulers := Function.update s.schedulers scheduler
      { s.schedulers scheduler with eventfdArmed := false }
    stack := .drainInbox :: s.stack }

/-- `handle.resume()` of a suspended coroutine. -/
def resumeSuspended (s : DrivingThread) (resumer : Resumer) (index : ℕ) (chain : TaskChain)
    (rest : List ThreadActivation) : DrivingThread :=
  { s with
    suspended := s.suspended.eraseIdx index
    stack := .coroutine resumer chain :: rest }

def inClientCode (s : DrivingThread) : Bool :=
  match s.stack with
  | [] => true
  | .job :: _ => true
  | .coroutine _ _ :: _ => true
  | _ => false

def step (s : DrivingThread) (label : ThreadLabel) : Option DrivingThread :=
  match label with
  | .coAwait scheduler awt object ordinal allocated =>
      match s.stack with
      | .coroutine resumer chain :: rest =>
          some (s.coAwait (s.schedulers scheduler).ring awt object ordinal allocated
            resumer chain rest)
      | _ => none
  | .coAwaitTask =>
      match s.stack with
      | .coroutine resumer chain :: rest =>
          some
            { s with
              nextFrame := s.nextFrame + 1
              stack :=
                .coroutine resumer { chain with inner := s.nextFrame :: chain.inner } :: rest }
      | _ => none
  | .finish allocated =>
      match s.stack with
      | .coroutine resumer chain :: rest => some (s.finish allocated resumer chain rest)
      | _ => none
  | .callSpawn scheduler => if s.inClientCode then some (s.callSpawn scheduler) else none
  | .callResume =>
      if s.inClientCode then
        some
          { s with
            nextFrame := s.nextFrame + 1
            stack := .coroutine .task { root := s.nextFrame } :: s.stack }
      else none
  | .callResumeAgain index =>
      match s.suspended[index]? with
      | some (_, chain) =>
          if s.inClientCode ∧ chain.inner = [] then
            some (s.resumeSuspended .task index chain s.stack)
          else none
      | none => none
  | .callDrain scheduler accepted =>
      if s.inClientCode then s.callDrain scheduler accepted else none
  | .completion index =>
      match s.stack, s.suspended[index]? with
      | .drain scheduler :: rest, some (ring, chain) =>
          if ring = (s.schedulers scheduler).ring then
            some (s.resumeSuspended (.drain scheduler) index chain rest)
          else none
      | _, _ => none
  | .sentinel =>
      match s.stack with
      | .drain scheduler :: _ => some (s.sentinel scheduler)
      | _ => none
  | .invoke =>
      match s.stack with
      | .drainInbox :: _ => some { s with stack := .job :: s.stack }
      | _ => none
  | .endJob =>
      match s.stack with
      | .job :: rest => some { s with stack := rest }
      | _ => none
  | .escapeJob =>
      match s.stack with
      | .job :: .drainInbox :: .drain _ :: rest => some { s with stack := rest }
      | _ => none
  | .endInbox =>
      match s.stack with
      | .drainInbox :: rest => some { s with stack := rest }
      | _ => none
  | .leaveDrain =>
      match s.stack with
      | .drain _ :: rest => some { s with stack := rest }
      | _ => none

def initial (rings : RingId → SubmissionQueue)
    (schedulers : SchedulerId → SchedulerRecord) : DrivingThread where
  rings := rings
  schedulers := schedulers

end DrivingThread

end SlimCommonIo
