import SlimCommonIo.FrameSteps
import SlimCommonIo.Resumptions

/-!
# Driving a task by hand

One root task on a heap of its own: client code calls `handle.resume()` once,
and for every completed operation the innermost awaiting coroutine is resumed.
Control passes between the frames by `Task::await_suspend`, the continuation in
the promise and `FinalAwaiter`, as in the scheduler; the ring is left out, so
an operation is a request for a result.
-/

namespace SlimCommonIo

/-- How control passed between an awaiting coroutine and its inner task. -/
inductive Link
  | suspends (outer inner : FrameId)
  | final (frame : FrameId)
  | continues (outer inner : FrameId)
  deriving DecidableEq, Repr

/-- Where control is: in a body, back in the driver with a coroutine waiting for
an operation, or back after the root's final suspend point. -/
inductive Control (P : Program)
  | running (frame : FrameId) (code : P.Code)
  | waiting (frame : FrameId)
  | returned
  | crashed (reason : Crash)

/-- The last two fields are history. -/
structure Driver (P : Program) where
  heap : Heap P
  root : FrameId
  control : Control P
  seen : List (Observation P.Effect Awaitable Int32) := []
  links : List Link := []

variable {P : Program}

namespace Driver

/-- Create the root task and call `handle.resume()`. -/
def start (type : TaskType) (body : P.Code) : Driver P where
  heap := (Heap.empty.create type body 0).start 0
  root := 0
  control := .running 0 body

/-- The end of a body and its final suspend point. -/
def finish (d : Driver P) (id : FrameId) (frame : Frame P) (outcome : P.Outcome) :
    Driver P :=
  let frame := frame.complete outcome
  let heap := d.heap.set id frame
  match heap.finalAwaitSuspend frame with
  | .noop => { d with heap := heap, control := .returned, links := d.links ++ [.final id] }
  | .resume heap awaiting code =>
      { d with
        heap := heap
        control := .running awaiting code
        links := d.links ++ [.final id, .continues awaiting id] }
  | .undefined => { d with control := .crashed .undefined }
  | .terminate => { d with control := .crashed .terminated }

/-- `co_await` of an operation object: `await_suspend` accepts it and control
returns to whoever resumed. -/
def coAwait (d : Driver P) (id : FrameId) (frame : Frame P) (object : ℕ)
    (awt : Awaitable) (next : Int32 → P.Code) : Driver P :=
  { d with
    heap := d.heap.set id
      { frame with
        objects := Function.update frame.objects object (some { awt with handle := some id })
        point := .onAwaitable object ⟨frame.root, d.seen.length⟩ next }
    control := .waiting id
    seen := d.seen ++ [.asked awt] }

/-- One action of the running coroutine; the bodies here call neither `spawn`
nor `post`. -/
def step (d : Driver P) : Driver P :=
  match d.control with
  | .running id code =>
      match d.heap.frames id with
      | none => { d with control := .crashed .undefined }
      | some frame =>
          match P.instr code with
          | .effect visible next =>
              { d with control := .running id next, seen := d.seen ++ [.did visible] }
          | .coAwait object construct next =>
              match Scheduler.awaitedObject frame object construct with
              | none => { d with control := .crashed .undefined }
              | some awt => d.coAwait id frame object awt next
          | .coAwaitTask type inner next =>
              { d with
                heap := d.heap.coAwaitTask id frame type inner next
                control := .running d.heap.next inner
                links := d.links ++ [.suspends id d.heap.next] }
          | .coReturn value => d.finish id frame (.ok value)
          | .throw exc => d.finish id frame (.error exc)
          | .spawn _ _ | .post _ _ => { d with control := .crashed .undefined }
  | _ => d

/-- A completion for the innermost awaiting coroutine: its result is stored and
its handle resumed. -/
def complete (d : Driver P) (res : Int32) : Driver P :=
  match d.control with
  | .waiting id =>
      match d.heap.frames id with
      | none => { d with control := .crashed .undefined }
      | some frame =>
          match frame.point with
          | .onAwaitable object _ next =>
              match frame.objects object with
              | none => { d with control := .crashed .undefined }
              | some awt =>
                  { d with
                    heap := d.heap.set id
                      { frame.storeResult object awt res with point := .running }
                    control := .running id (next { awt with result := res }.awaitResume)
                    seen := d.seen ++ [.answered { awt with result := res }.awaitResume] }
          | _ => { d with control := .crashed .undefined }
  | _ => d

/-- Run until control is back in the driver, for so many actions at most. -/
def settle (fuel : ℕ) (d : Driver P) : Driver P :=
  step^[fuel] d

/-- Hand one result after the other to the innermost awaiting coroutine. -/
def drive (fuel : ℕ) : Driver P → List Int32 → Driver P
  | d, [] => d.settle fuel
  | d, res :: results => drive fuel ((d.settle fuel).complete res) results

/-- `Task::done` of the root. -/
def done (d : Driver P) : Bool :=
  d.heap.done (some d.root)

/-- `Task::result` of the root. -/
def result (d : Driver P) : Option P.Outcome :=
  (d.heap.frames d.root).bind Frame.result

def isRunning (d : Driver P) : Bool :=
  match d.control with
  | .running _ _ => true
  | _ => false

theorem settle_of_not_running
    {d : Driver P} (hquiet : d.isRunning = false) (fuel : ℕ) : d.settle fuel = d := by
  have hstep : d.step = d := by
    cases hcontrol : d.control with
    | running _ _ => simp [isRunning, hcontrol] at hquiet
    | _ => simp [step, hcontrol]
  exact Function.iterate_fixed hstep fuel

theorem settle_add (first second : ℕ) (d : Driver P) :
    d.settle (first + second) = (d.settle first).settle second := by
  simp only [settle]
  rw [Nat.add_comm, Function.iterate_add_apply]

theorem settle_eq_of_le
    {d : Driver P} {enough fuel : ℕ} (hle : enough ≤ fuel)
    (hquiet : (d.settle enough).isRunning = false) : d.settle fuel = d.settle enough := by
  obtain ⟨more, rfl⟩ := Nat.exists_eq_add_of_le hle
  rw [settle_add, settle_of_not_running hquiet]

end Driver

end SlimCommonIo
