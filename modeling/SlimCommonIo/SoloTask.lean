import SlimCommonIo.Task
import SlimCommonIo.TransitionRuns
import Mathlib.Logic.Relation

/-!
# A task by itself

What a task does when its operations have these results, with nothing else
running: no ring, no scheduler, no other task.  Awaited operations are answered
in the order in which the task awaits them.
-/

namespace SlimCommonIo

variable {P : Program}

/-- What a coroutine of this type hands to the coroutine awaiting it when it
ends so; `none` is `std::terminate`. -/
def settled (type : TaskType) (outcome : P.Outcome) : Option P.Outcome :=
  match outcome, type with
  | .error exc, _ => some (.error exc)
  | .ok _, .void => some (.ok none)
  | .ok (some value), .value => some (.ok (some value))
  | .ok none, .value => P.defaultValue.map fun value => .ok (some value)

theorem settled_eq_result
    {frame : Frame P} {continuation : Option FrameId}
    (hpromise : frame.promise = { continuation := continuation }) (outcome : P.Outcome) :
    (frame.complete outcome).result = settled frame.type outcome := by
  obtain ⟨type, promise, point, objects, root⟩ := frame
  simp only at hpromise
  subst hpromise
  rcases outcome with exc | value
  · rfl
  · cases type with
    | void => rfl
    | value => cases value <;> rfl

/-- A task: the code of its innermost body with the body's type, the bodies
awaiting it with their types, and the results it has received. -/
inductive Solo (P : Program)
  | running (code : P.Code) (type : TaskType)
      (awaiting : List (TaskType × (P.Outcome → P.Code))) (received : List Int32)
  | ended (received : List Int32) (outcome : P.Outcome)
  | stuck

namespace Solo

def start (body : P.Code) : Solo P :=
  .running body .void [] []

/-- The innermost body ends. -/
def finish (type : TaskType) (awaiting : List (TaskType × (P.Outcome → P.Code)))
    (received : List Int32) (outcome : P.Outcome) : Solo P :=
  match awaiting with
  | [] => .ended received outcome
  | (outer, next) :: rest =>
      match settled type outcome with
      | none => .stuck
      | some result => .running (next result) outer rest received

/-- One action, where the operation awaited as `n`-th gets `results n`. -/
def step (results : ℕ → Int32) : Solo P → Solo P
  | .running code type awaiting received =>
      match P.instr code with
      | .effect _ next => .running next type awaiting received
      | .coAwait _ _ next =>
          .running (next (results received.length)) type awaiting
            (received ++ [results received.length])
      | .coAwaitTask inner body next => .running body inner ((type, next) :: awaiting) received
      | .spawn _ _ => .stuck
      | .post _ next => .running next type awaiting received
      | .coReturn value => finish type awaiting received (.ok value)
      | .throw exc => finish type awaiting received (.error exc)
  | .ended received outcome => .ended received outcome
  | .stuck => .stuck

/-- The task comes to this point. -/
def Reaches (results : ℕ → Int32) (body : P.Code) (point : Solo P) : Prop :=
  ∃ steps, (step results)^[steps] (start body) = point

theorem Reaches.start (results : ℕ → Int32) (body : P.Code) :
    Reaches results body (.start body) :=
  ⟨0, rfl⟩

theorem Reaches.step
    {results : ℕ → Int32} {body : P.Code} {point : Solo P}
    (hreaches : Reaches results body point) :
    Reaches results body (point.step results) := by
  obtain ⟨steps, hsteps⟩ := hreaches
  exact ⟨steps + 1, by rw [Function.iterate_succ_apply', hsteps]⟩

/-- A task ends in one way. -/
theorem Reaches.ended_unique
    {results : ℕ → Int32} {body : P.Code} {received received' : List Int32}
    {outcome outcome' : P.Outcome} (hreaches : Reaches results body (.ended received outcome))
    (hreaches' : Reaches results body (.ended received' outcome')) :
    received = received' ∧ outcome = outcome' := by
  obtain ⟨steps, hsteps⟩ := hreaches
  obtain ⟨steps', hsteps'⟩ := hreaches'
  have heq := Transition.eq_of_iterate_fixed hsteps hsteps' rfl rfl
  simpa using heq

end Solo

/-! ## Bodies which call no `spawn` -/

/-- The code a body can go on with after its next action, whatever the action
returns, and the body of the inner task it awaits. -/
inductive Leads : P.Code → P.Code → Prop
  | effect {code next : P.Code} {visible : P.Effect}
      (hcode : P.instr code = .effect visible next) : Leads code next
  | coAwait {code : P.Code} {object : ℕ} {construct : Option Awaitable}
      {next : Int32 → P.Code} (hcode : P.instr code = .coAwait object construct next)
      (value : Int32) : Leads code (next value)
  | inner {code body : P.Code} {type : TaskType} {next : P.Outcome → P.Code}
      (hcode : P.instr code = .coAwaitTask type body next) : Leads code body
  | outer {code body : P.Code} {type : TaskType} {next : P.Outcome → P.Code}
      (hcode : P.instr code = .coAwaitTask type body next) (outcome : P.Outcome) :
      Leads code (next outcome)
  | spawn {code body : P.Code} {next : Option ErrorStatus → P.Code}
      (hcode : P.instr code = .spawn body next) (status : Option ErrorStatus) :
      Leads code (next status)
  | post {code next : P.Code} {job : P.Job} (hcode : P.instr code = .post job next) :
      Leads code next

/-- Nothing the body can come to is a call of `spawn`. -/
def SpawnFree (body : P.Code) : Prop :=
  ∀ code, Relation.ReflTransGen Leads body code →
    ∀ inner next, P.instr code ≠ .spawn inner next

theorem Solo.Reaches.leads
    {results : ℕ → Int32} {body code : P.Code} {type : TaskType}
    {awaiting : List (TaskType × (P.Outcome → P.Code))} {received : List Int32}
    (hreaches : Reaches results body (.running code type awaiting received)) :
    Relation.ReflTransGen Leads body code ∧
      ∀ outer ∈ awaiting, ∀ outcome, Relation.ReflTransGen Leads body (outer.2 outcome) := by
  obtain ⟨steps, hsteps⟩ := hreaches
  induction steps generalizing code type awaiting received with
  | zero =>
      simp only [Function.iterate_zero, id_eq, Solo.start, Solo.running.injEq] at hsteps
      obtain ⟨rfl, rfl, rfl, rfl⟩ := hsteps
      exact ⟨.refl, by simp⟩
  | succ steps ih =>
      rw [Function.iterate_succ_apply'] at hsteps
      cases hbefore : (Solo.step results)^[steps] (Solo.start body) with
      | ended _ _ => simp [hbefore, Solo.step] at hsteps
      | stuck => simp [hbefore, Solo.step] at hsteps
      | running before type' awaiting' received' =>
          obtain ⟨hcode, houter⟩ := ih hbefore
          -- an ending body hands over to the one awaiting it
          have hfinish : ∀ outcome,
              Solo.finish type' awaiting' received' outcome =
                .running code type awaiting received →
              Relation.ReflTransGen Leads body code ∧
                ∀ outer ∈ awaiting, ∀ outcome,
                  Relation.ReflTransGen Leads body (outer.2 outcome) := by
            intro outcome hends
            unfold Solo.finish at hends
            split at hends
            next => simp at hends
            next outer next rest =>
              rw [List.forall_mem_cons] at houter
              split at hends
              next => simp at hends
              next result _ =>
                simp only [Solo.running.injEq] at hends
                obtain ⟨rfl, rfl, rfl, rfl⟩ := hends
                exact ⟨houter.1 result, houter.2⟩
          rw [hbefore, Solo.step] at hsteps
          cases hinstr : P.instr before with
          | effect visible next =>
              simp only [hinstr, Solo.running.injEq] at hsteps
              obtain ⟨rfl, rfl, rfl, rfl⟩ := hsteps
              exact ⟨hcode.tail (.effect hinstr), houter⟩
          | post job next =>
              simp only [hinstr, Solo.running.injEq] at hsteps
              obtain ⟨rfl, rfl, rfl, rfl⟩ := hsteps
              exact ⟨hcode.tail (.post hinstr), houter⟩
          | coAwait object construct next =>
              simp only [hinstr, Solo.running.injEq] at hsteps
              obtain ⟨rfl, rfl, rfl, rfl⟩ := hsteps
              exact ⟨hcode.tail (.coAwait hinstr _), houter⟩
          | coAwaitTask inner body' next =>
              simp only [hinstr, Solo.running.injEq] at hsteps
              obtain ⟨rfl, rfl, rfl, rfl⟩ := hsteps
              refine ⟨hcode.tail (.inner hinstr), ?_⟩
              rw [List.forall_mem_cons]
              exact ⟨fun outcome => hcode.tail (.outer hinstr outcome), houter⟩
          | spawn inner next => simp [hinstr] at hsteps
          | coReturn value => exact hfinish (.ok value) (by simpa only [hinstr] using hsteps)
          | throw exc => exact hfinish (.error exc) (by simpa only [hinstr] using hsteps)

end SlimCommonIo
