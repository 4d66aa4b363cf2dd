import SlimCommonIo.Operations

/-!
# Coroutine frames and `Task`

Coroutine bodies and posted callables are arbitrary code.  A program gives,
for every local state of a body, the next thing it does: a visible statement,
a `co_await`, a call of `spawn` or `post`, or its end; the continuation of an
action receives what the action returns or throws.

Frames live in a heap and are linked by the continuation handles of their
promises, as `task.h` links them.  `FinalAwaiter` and the awaiter interface of
`Task` are functions on this heap.
-/

namespace SlimCommonIo

/-- Which instance of `Task` a coroutine returns: `Task<T>` or `Task<void>`. -/
inductive TaskType
  | value
  | void
  deriving DecidableEq, Repr

/-- The next action of a coroutine body. -/
inductive Instr (Code Job Effect Value Exc : Type)
  | effect (visible : Effect) (next : Code)
  /-- `co_await` of the operation object at position `object`, which is
  constructed first when `construct` is given. -/
  | coAwait (object : ℕ) (construct : Option Awaitable) (next : Int32 → Code)
  /-- `co_await` of a freshly created inner task. -/
  | coAwaitTask (type : TaskType) (inner : Code)
      (next : Except Exc (Option Value) → Code)
  | spawn (body : Code) (next : Option ErrorStatus → Code)
  | post (job : Job) (next : Code)
  | coReturn (value : Option Value)
  | throw (exc : Exc)

/-- The next action of a posted callable. -/
inductive JobInstr (Code Job : Type)
  | spawn (body : Code) (next : Option ErrorStatus → Job)
  | post (job : Job) (next : Job)
  | ret
  | throwIoException (status : ErrorStatus)
  | throwOther

/-- The code run by a scheduler.  `defaultValue` is `T{}` where `T` is default
constructible. -/
structure Program where
  Code : Type
  Job : Type
  Effect : Type
  Value : Type
  Exc : Type
  defaultValue : Option Value
  instr : Code → Instr Code Job Effect Value Exc
  job : Job → JobInstr Code Job

/-- What a finished coroutine leaves: a value (none for `Task<void>`) or an
exception. -/
abbrev Program.Outcome (P : Program) := Except P.Exc (Option P.Value)

/-- Where a coroutine is suspended. -/
inductive SuspendPoint (P : Program)
  | initial (body : P.Code)
  | running
  | onAwaitable (object : ℕ) (stamp : Stamp) (next : Int32 → P.Code)
  | onTask (inner : FrameId) (next : P.Outcome → P.Code)
  | final

/-- `Task<T>::Promise` and `Task<void>::Promise`; the latter has no value. -/
structure Promise (P : Program) where
  value : Option P.Value := none
  exception : Option P.Exc := none
  continuation : Option FrameId := none

/-- A coroutine frame.  `root` names the outermost frame of its task. -/
structure Frame (P : Program) where
  type : TaskType
  promise : Promise P
  point : SuspendPoint P
  objects : ℕ → Option Awaitable
  root : FrameId

structure Heap (P : Program) where
  frames : FrameId → Option (Frame P)
  next : FrameId

variable {P : Program}

namespace Frame

/-- `return_value`, `return_void` and `unhandled_exception`. -/
def complete (frame : Frame P) (outcome : P.Outcome) : Frame P :=
  match outcome with
  | .ok value =>
      match frame.type with
      | .value =>
          { frame with
            promise := { frame.promise with value := value }, point := .final }
      | .void => { frame with point := .final }
  | .error exc =>
      { frame with
        promise := { frame.promise with exception := some exc }
        point := .final }

/-- `Task<T>::result` and `Task<void>::result`; `none` is `std::terminate`. -/
def result (frame : Frame P) : Option P.Outcome :=
  match frame.promise.exception with
  | some exc => some (.error exc)
  | none =>
      match frame.type with
      | .void => some (.ok none)
      | .value =>
          match frame.promise.value with
          | some value => some (.ok (some value))
          | none => P.defaultValue.map fun value => .ok (some value)

/-- `awt->result = res` for an operation object of the frame. -/
def storeResult (frame : Frame P) (object : ℕ) (awt : Awaitable) (res : Int32) :
    Frame P :=
  { frame with
    objects := Function.update frame.objects object
      (some { awt with result := res }) }

def isFinal (frame : Frame P) : Bool :=
  match frame.point with
  | .final => true
  | _ => false

end Frame

namespace Heap

def empty : Heap P where
  frames := fun _ => none
  next := 0

def set (heap : Heap P) (id : FrameId) (frame : Frame P) : Heap P :=
  { heap with frames := Function.update heap.frames id (some frame) }

/-- `coroutine_handle::destroy` of a frame which holds no inner task. -/
def erase (heap : Heap P) (id : FrameId) : Heap P :=
  { heap with frames := Function.update heap.frames id none }

/-- Calling a coroutine function: a new frame at its initial suspend point. -/
def create (heap : Heap P) (type : TaskType) (body : P.Code)
    (root : FrameId) : Heap P where
  frames := Function.update heap.frames heap.next
    (some
      { type := type, promise := {}, point := .initial body
        objects := fun _ => none, root := root })
  next := heap.next + 1

/-- `handle.resume()` of a coroutine at its initial suspend point. -/
def start (heap : Heap P) (id : FrameId) : Heap P :=
  match heap.frames id with
  | some frame => heap.set id { frame with point := .running }
  | none => heap

/-- `Task::await_suspend`: remember the awaiting coroutine. -/
def taskAwaitSuspend (heap : Heap P) (inner awaiting : FrameId) : Heap P :=
  match heap.frames inner with
  | some frame =>
      heap.set inner
        { frame with promise := { frame.promise with continuation := some awaiting } }
  | none => heap

/-- `co_await inner()` in frame `outer`: create the inner task, suspend the
outer coroutine and transfer control to the inner body. -/
def coAwaitTask (heap : Heap P) (outer : FrameId) (frame : Frame P)
    (type : TaskType) (body : P.Code) (next : P.Outcome → P.Code) : Heap P :=
  let inner := heap.next
  let heap := heap.create type body frame.root
  let heap := heap.set outer { frame with point := .onTask inner next }
  (heap.taskAwaitSuspend inner outer).start inner

/-- Where control goes after a final suspend point. -/
inductive Transfer (P : Program)
  | noop
  | resume (heap : Heap P) (id : FrameId) (code : P.Code)
  | undefined
  | terminate

/-- Resume a coroutine awaiting an inner task: `Task::await_resume` takes the
inner result and the temporary `Task` destroys the inner frame. -/
def resumeAwaiting (heap : Heap P) (id : FrameId) : Transfer P :=
  match heap.frames id with
  | none => .undefined
  | some frame =>
      match frame.point with
      | .onTask inner next =>
          match heap.frames inner with
          | none => .undefined
          | some innerFrame =>
              match innerFrame.result with
              | none => .terminate
              | some outcome =>
                  .resume
                    ((heap.erase inner).set id { frame with point := .running })
                    id (next outcome)
      | _ => .undefined

/-- `FinalAwaiter::await_suspend`: continue the awaiting coroutine if there is
one, else the no-op coroutine, which returns to whoever resumed. -/
def finalAwaitSuspend (heap : Heap P) (frame : Frame P) : Transfer P :=
  match frame.promise.continuation with
  | some continuation => heap.resumeAwaiting continuation
  | none => .noop

/-- `Task::done`. -/
def done (heap : Heap P) (handle : Option FrameId) : Bool :=
  match handle with
  | none => true
  | some id =>
      match heap.frames id with
      | some frame => frame.isFinal
      | none => false

/-- `coroutine_handle::destroy` of a suspended coroutine: destroying a frame
destroys the inner task it is awaiting. -/
def destroyFrom : ℕ → Heap P → FrameId → Heap P
  | 0, heap, _ => heap
  | fuel + 1, heap, id =>
      match heap.frames id with
      | none => heap
      | some frame =>
          match frame.point with
          | .onTask inner _ => destroyFrom fuel (heap.erase id) inner
          | _ => heap.erase id

/-- Inner frames are younger than the frames awaiting them, so a chain is no
longer than the number of frames ever created. -/
def destroy (heap : Heap P) (id : FrameId) : Heap P :=
  destroyFrom (heap.next + 1) heap id

end Heap

/-! ## The vector of tasks -/

/-- `tasks_.erase(std::remove_if(...), end)`.  At each point of the pass the
vector is `kept ++ gap ++ rest`, where `kept` ends at the write position and
the scan is at the head of `rest`.  Moving a live task down destroys what its
new place held and leaves a null handle behind; `erase` destroys the rest. -/
def removeIfDone (done : Option FrameId → Bool)
    (kept gap : List (Option FrameId)) (destroyed : List FrameId) :
    List (Option FrameId) → List (Option FrameId) × List FrameId
  | [] => (kept, destroyed ++ gap.filterMap id)
  | task :: rest =>
      if done task then
        removeIfDone done kept (gap ++ [task]) destroyed rest
      else
        match gap with
        | [] => removeIfDone done (kept ++ [task]) [] destroyed rest
        | place :: gap =>
            removeIfDone done (kept ++ [task]) (gap ++ [none])
              (destroyed ++ place.toList) rest

/-- The pass keeps the tasks which are not done, in order. -/
theorem removeIfDone_kept
    (done : Option FrameId → Bool) (kept gap : List (Option FrameId))
    (destroyed : List FrameId) (rest : List (Option FrameId)) :
    (removeIfDone done kept gap destroyed rest).1 =
      kept ++ rest.filter fun task => !done task := by
  induction rest generalizing kept gap destroyed with
  | nil => simp [removeIfDone]
  | cons task rest ih =>
      by_cases hdone : done task
      · simp [removeIfDone, hdone, ih]
      · cases gap with
        | nil => simp [removeIfDone, hdone, ih]
        | cons place gap => simp [removeIfDone, hdone, ih]

/-- The pass destroys exactly the handles of the done tasks. -/
theorem removeIfDone_destroyed
    (done : Option FrameId → Bool) (kept gap : List (Option FrameId))
    (destroyed : List FrameId) (rest : List (Option FrameId)) :
    (removeIfDone done kept gap destroyed rest).2.Perm
      (destroyed ++ gap.filterMap id ++
        (rest.filter done).filterMap id) := by
  induction rest generalizing kept gap destroyed with
  | nil => simp [removeIfDone]
  | cons task rest ih =>
      by_cases hdone : done task
      · simp only [removeIfDone, hdone, if_true, List.filter_cons_of_pos]
        refine (ih kept (gap ++ [task]) destroyed).trans ?_
        cases task <;> simp
      · cases gap with
        | nil =>
            simp only [removeIfDone, hdone]
            refine (ih (kept ++ [task]) [] destroyed).trans ?_
            simp [hdone]
        | cons place gap =>
            simp only [removeIfDone, hdone]
            refine (ih (kept ++ [task]) (gap ++ [none])
              (destroyed ++ place.toList)).trans ?_
            cases place <;> simp [hdone]

end SlimCommonIo
