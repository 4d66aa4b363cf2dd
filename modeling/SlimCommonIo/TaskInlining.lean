import SlimCommonIo.FrameInvariant
import SlimCommonIo.TaskDriver

/-!
# Awaiting a task is inlining its body

Finite bodies of `Task<T>` and `Task<void>` are translated twice: to a program
of coroutines, where `co_await` of an inner task creates a frame linked to the
awaiting one by its continuation handle, and to a resumption in which the inner
body stands in place of the `co_await`.  A driver of the coroutines and the
inlined program agree on everything that can be observed.
-/

namespace SlimCommonIo

variable {E V X : Type}

/-! ## Finite bodies -/

/-- Bodies of tasks.  An inner task's exception reaches the awaiting body as a
value, so a body which catches it goes on and one which does not throws. -/
inductive Body (E V X : Type) : TaskType → Type
  | step {τ : TaskType} (visible : E) (next : Body E V X τ) : Body E V X τ
  | awaitOp {τ : TaskType} (op : Operation) (deadline : Option KernelTimespec)
      (next : Int32 → Body E V X τ) : Body E V X τ
  | awaitTask {τ : TaskType} (type : TaskType) (inner : Body E V X type)
      (next : Except X (Option V) → Body E V X τ) : Body E V X τ
  | returnValue (value : V) : Body E V X .value
  | returnVoid : Body E V X .void
  | throw {τ : TaskType} (exc : X) : Body E V X τ

/-- The operation object a body constructs for its `co_await`. -/
def Body.operation (op : Operation) (deadline : Option KernelTimespec) : Awaitable :=
  { op := op, timeoutTs := deadline }

/-- Finite bodies as a program of coroutines.  The value type has no default
constructor, so a missing value would be noticed. -/
abbrev taskProgram (E V X : Type) : Program where
  Code := (τ : TaskType) × Body E V X τ
  Job := Unit
  Effect := E
  Value := V
  Exc := X
  defaultValue := none
  instr
    | ⟨_, .step visible next⟩ => .effect visible ⟨_, next⟩
    | ⟨_, .awaitOp op deadline next⟩ =>
        .coAwait 0 (some (Body.operation op deadline)) fun res => ⟨_, next res⟩
    | ⟨_, .awaitTask type inner next⟩ =>
        .coAwaitTask type ⟨type, inner⟩ fun outcome => ⟨_, next outcome⟩
    | ⟨_, .returnValue value⟩ => .coReturn (some value)
    | ⟨_, .returnVoid⟩ => .coReturn none
    | ⟨_, .throw exc⟩ => .throw exc
  job _ := .ret

abbrev Inlined (E V X : Type) := Resumption E Awaitable Int32 (Except X (Option V))

/-- The body with every inner body inlined at its `co_await`. -/
def Body.inline : {τ : TaskType} → Body E V X τ → Inlined E V X
  | _, .step visible next => .step visible next.inline
  | _, .awaitOp op deadline next => .ask (operation op deadline) fun res => (next res).inline
  | _, .awaitTask _ inner next => inner.inline.bind fun outcome => (next outcome).inline
  | _, .returnValue value => .ended (.ok (some value))
  | _, .returnVoid => .ended (.ok none)
  | _, .throw exc => .ended (.error exc)

/-! ## The chain of awaiting coroutines -/

/-- A coroutine suspended on an inner task, with what it does next. -/
structure Awaiting (E V X : Type) where
  outer : FrameId
  type : TaskType
  next : Except X (Option V) → Body E V X type

/-- What is left of the inlined program when the innermost body is at `program`
and these coroutines await it, innermost first. -/
def unwind : List (Awaiting E V X) → Inlined E V X → Inlined E V X
  | [], program => program
  | awaiting :: rest, program =>
      unwind rest (program.bind fun outcome => (awaiting.next outcome).inline)

theorem unwind_step
    (stack : List (Awaiting E V X)) (visible : E) (program : Inlined E V X) :
    unwind stack (.step visible program) = .step visible (unwind stack program) := by
  induction stack generalizing program with
  | nil => rfl
  | cons awaiting rest ih => exact ih _

theorem unwind_ask
    (stack : List (Awaiting E V X)) (request : Awaitable) (next : Int32 → Inlined E V X) :
    unwind stack (.ask request next) = .ask request fun res => unwind stack (next res) := by
  induction stack generalizing next with
  | nil => rfl
  | cons awaiting rest ih => exact ih _

/-- The frame `id` and the frames awaiting it, up to the root: each is linked to
the next one outwards by its continuation, and has neither value nor exception
yet.  Inner frames are younger. -/
inductive Chain (heap : Heap (taskProgram E V X)) (root : FrameId) :
    FrameId → Frame (taskProgram E V X) → List (Awaiting E V X) → Prop
  | base {frame : Frame (taskProgram E V X)} (hframe : heap.frames root = some frame)
      (hpromise : frame.promise = {}) : Chain heap root root frame []
  | link {id : FrameId} {frame outerFrame : Frame (taskProgram E V X)}
      {awaiting : Awaiting E V X} {rest : List (Awaiting E V X)}
      (hframe : heap.frames id = some frame)
      (hpromise : frame.promise = { continuation := some awaiting.outer })
      (htype : outerFrame.type = awaiting.type)
      (hpoint : outerFrame.point =
        .onTask id fun outcome => ⟨awaiting.type, awaiting.next outcome⟩)
      (hlt : awaiting.outer < id)
      (hrest : Chain heap root awaiting.outer outerFrame rest) :
      Chain heap root id frame (awaiting :: rest)

namespace Chain

variable {heap heap' : Heap (taskProgram E V X)} {root id : FrameId}
  {frame frame' : Frame (taskProgram E V X)} {stack : List (Awaiting E V X)}

theorem frame_eq (hchain : Chain heap root id frame stack) :
    heap.frames id = some frame := by
  cases hchain with
  | base hframe _ => exact hframe
  | link hframe _ _ _ _ _ => exact hframe

theorem congr
    (hchain : Chain heap root id frame stack)
    (hsame : ∀ other, other ≤ id → heap'.frames other = heap.frames other) :
    Chain heap' root id frame stack := by
  induction hchain with
  | base hframe hpromise => exact .base (by rw [hsame _ (Nat.le_refl _), hframe]) hpromise
  | link hframe hpromise htype hpoint hlt _ ih =>
      refine .link (by rw [hsame _ (Nat.le_refl _), hframe]) hpromise htype hpoint hlt (ih ?_)
      intro other hother
      exact hsame other (Nat.le_trans hother (Nat.le_of_lt hlt))

theorem set_top
    (hchain : Chain heap root id frame stack) (hpromise : frame'.promise = frame.promise) :
    Chain (heap.set id frame') root id frame' stack := by
  cases hchain with
  | base _ hempty =>
      exact .base (heap.set_frames_self _ _) (by rw [hpromise, hempty])
  | link _ hlinked htype hpoint hlt hrest =>
      refine .link (heap.set_frames_self _ _) (by rw [hpromise, hlinked]) htype hpoint hlt ?_
      refine hrest.congr ?_
      intro other hother
      exact heap.set_frames_of_ne (Nat.ne_of_lt (Nat.lt_of_le_of_lt hother hlt)) _

theorem outer_lt
    (hchain : Chain heap root id frame stack) :
    ∀ awaiting ∈ stack, awaiting.outer < id := by
  induction hchain with
  | base _ _ => simp
  | @link id _ _ awaiting rest _ _ _ _ hlt _ ih =>
      rw [List.forall_mem_cons]
      exact ⟨hlt, fun other hother => Nat.lt_trans (ih other hother) hlt⟩

end Chain

/-! ## Accounts of the links -/

/-- The frame whose task a link is about. -/
def Link.task : Link → FrameId
  | .suspends _ inner => inner
  | .final frame => frame
  | .continues _ inner => inner

/-- Whom the coroutines on the stack await. -/
def awaits : FrameId → List (Awaiting E V X) → List (FrameId × FrameId)
  | _, [] => []
  | id, awaiting :: rest => (awaiting.outer, id) :: awaits awaiting.outer rest

/-- Every suspension on an inner task is followed by one continuation, after the
inner task's final suspend point, or is still in `pending`. -/
structure LinksAccounted (links : List Link) (next : FrameId)
    (active : List FrameId) (pending : List (FrameId × FrameId)) : Prop where
  nodup : links.Nodup
  bounded : ∀ link ∈ links, link.task < next
  ordered : ∀ before after outer inner, links = before ++ .continues outer inner :: after →
    .suspends outer inner ∈ before ∧ .final inner ∈ before
  awaited : ∀ outer inner, .suspends outer inner ∈ links →
    .continues outer inner ∈ links ∨ (outer, inner) ∈ pending
  suspended : ∀ pair ∈ pending, .suspends pair.1 pair.2 ∈ links
  unfinished : ∀ id ∈ active, .final id ∉ links

namespace LinksAccounted

variable {links : List Link} {next id : FrameId} {active : List FrameId}
  {pending : List (FrameId × FrameId)}

theorem initial : LinksAccounted [] 1 [0] [] := by
  constructor <;> simp

theorem eq_of_concat
    {before after : List Link} {link last : Link}
    (hsplit : links ++ [last] = before ++ link :: after) :
    (link = last ∧ before = links) ∨
      ∃ after', links = before ++ link :: after' := by
  rcases List.eq_nil_or_concat after with rfl | ⟨after', other, rfl⟩
  · have heq := List.append_inj' hsplit (by simp)
    simp only [List.cons.injEq, and_true] at heq
    exact .inl ⟨heq.2.symm, heq.1.symm⟩
  · right
    refine ⟨after', ?_⟩
    have hregroup : links ++ [last] = (before ++ link :: after') ++ [other] := by
      rw [hsplit]
      simp
    exact (List.append_inj' hregroup (by simp)).1

theorem continues_final
    (haccount : LinksAccounted links next active pending) {outer inner : FrameId}
    (hmem : .continues outer inner ∈ links) : .final inner ∈ links := by
  obtain ⟨before, after, hsplit⟩ := List.append_of_mem hmem
  rw [hsplit]
  exact List.mem_append_left _ (haccount.ordered before after outer inner hsplit).2

theorem nodup_concat
    (haccount : LinksAccounted links next active pending) {link : Link}
    (hnew : link ∉ links) : (links ++ [link]).Nodup := by
  rw [← List.concat_eq_append]
  exact haccount.nodup.concat hnew

theorem suspends
    (haccount : LinksAccounted links next active pending) :
    LinksAccounted (links ++ [.suspends id next]) (next + 1) (next :: active)
      ((id, next) :: pending) := by
  have hfresh : ∀ link ∈ links, link.task ≠ next :=
    fun link hlink => Nat.ne_of_lt (haccount.bounded link hlink)
  constructor
  · exact haccount.nodup_concat fun hlink => hfresh _ hlink rfl
  · intro link hlink
    rcases List.mem_append.mp hlink with hold | hnew
    · exact Nat.lt_succ_of_lt (haccount.bounded link hold)
    · rw [List.mem_singleton.mp hnew]
      exact Nat.lt_succ_self _
  · intro before after outer inner hsplit
    rcases eq_of_concat hsplit with ⟨hlink, -⟩ | ⟨after', hold⟩
    · simp at hlink
    · exact haccount.ordered before after' outer inner hold
  · intro outer inner hmem
    simp only [List.mem_append, List.mem_singleton, Link.suspends.injEq] at hmem
    rcases hmem with hold | ⟨rfl, rfl⟩
    · rcases haccount.awaited outer inner hold with hdone | hpending
      · exact .inl (List.mem_append_left _ hdone)
      · exact .inr (List.mem_cons_of_mem _ hpending)
    · exact .inr List.mem_cons_self
  · intro pair hpair
    rcases List.mem_cons.mp hpair with rfl | hold
    · simp
    · exact List.mem_append_left _ (haccount.suspended pair hold)
  · intro other hother hmem
    simp only [List.mem_append, List.mem_singleton, reduceCtorEq, or_false] at hmem
    rcases List.mem_cons.mp hother with rfl | hold
    · exact hfresh _ hmem rfl
    · exact haccount.unfinished other hold hmem

theorem final
    (haccount : LinksAccounted links next (id :: active) pending)
    (hbound : id < next) (hid : id ∉ active) :
    LinksAccounted (links ++ [.final id]) next active pending := by
  have hnew : .final id ∉ links := haccount.unfinished id List.mem_cons_self
  constructor
  · exact haccount.nodup_concat hnew
  · intro link hlink
    rcases List.mem_append.mp hlink with hold | hlast
    · exact haccount.bounded link hold
    · rw [List.mem_singleton.mp hlast]
      exact hbound
  · intro before after outer inner hsplit
    rcases eq_of_concat hsplit with ⟨hlink, -⟩ | ⟨after', hold⟩
    · simp at hlink
    · exact haccount.ordered before after' outer inner hold
  · intro outer inner hmem
    simp only [List.mem_append, List.mem_singleton, reduceCtorEq, or_false] at hmem
    exact (haccount.awaited outer inner hmem).imp_left (List.mem_append_left _)
  · intro pair hpair
    exact List.mem_append_left _ (haccount.suspended pair hpair)
  · intro other hother hmem
    simp only [List.mem_append, List.mem_singleton, Link.final.injEq] at hmem
    rcases hmem with hold | rfl
    · exact haccount.unfinished other (List.mem_cons_of_mem _ hother) hold
    · exact hid hother

theorem continues
    {outer : FrameId} (haccount : LinksAccounted links next active ((outer, id) :: pending))
    (hfinal : .final id ∈ links) (hnew : .continues outer id ∉ links) :
    LinksAccounted (links ++ [.continues outer id]) next active pending := by
  constructor
  · exact haccount.nodup_concat hnew
  · intro link hlink
    rcases List.mem_append.mp hlink with hold | hlast
    · exact haccount.bounded link hold
    · rw [List.mem_singleton.mp hlast]
      exact haccount.bounded (.final id) hfinal
  · intro before after outer' inner hsplit
    rcases eq_of_concat hsplit with ⟨hlink, rfl⟩ | ⟨after', hold⟩
    · simp only [Link.continues.injEq] at hlink
      obtain ⟨rfl, rfl⟩ := hlink
      exact ⟨haccount.suspended _ List.mem_cons_self, hfinal⟩
    · exact haccount.ordered before after' outer' inner hold
  · intro outer' inner hmem
    simp only [List.mem_append, List.mem_singleton, reduceCtorEq, or_false] at hmem
    rcases haccount.awaited outer' inner hmem with hdone | hpending
    · exact .inl (List.mem_append_left _ hdone)
    · rcases List.mem_cons.mp hpending with heq | hrest
      · simp only [Prod.mk.injEq] at heq
        rw [heq.1, heq.2]
        simp
      · exact .inr hrest
  · intro pair hpair
    exact List.mem_append_left _ (haccount.suspended pair (List.mem_cons_of_mem _ hpair))
  · intro other hother hmem
    simp only [List.mem_append, List.mem_singleton, reduceCtorEq, or_false] at hmem
    exact haccount.unfinished other hother hmem

end LinksAccounted

/-! ## The driver follows the inlined program -/

/-- The outcome of a body of this type. -/
def TaskType.Admits (type : TaskType) (outcome : Except X (Option V)) : Prop :=
  match type, outcome with
  | _, .error _ => True
  | .value, .ok result => result.isSome
  | .void, .ok result => result = none

theorem Frame.result_complete
    {P : Program} (frame : Frame P) {outcome : P.Outcome}
    (hempty : frame.promise.exception = none) (htype : frame.type.Admits outcome) :
    (frame.complete outcome).result = some outcome := by
  cases outcome with
  | error exc => rfl
  | ok value =>
      cases hframe : frame.type with
      | value =>
          simp only [TaskType.Admits, hframe] at htype
          obtain ⟨value, rfl⟩ := Option.isSome_iff_exists.mp htype
          simp [complete, result, hframe, hempty]
      | void =>
          simp only [TaskType.Admits, hframe] at htype
          simp [complete, result, hframe, hempty, htype]

/-- The frames of a driver: the innermost one is `id`, awaited by the stack. -/
structure Stands (d : Driver (taskProgram E V X)) (id : FrameId)
    (frame : Frame (taskProgram E V X)) (stack : List (Awaiting E V X)) : Prop where
  chain : Chain d.heap d.root id frame stack
  bound : id < d.heap.next
  links : LinksAccounted d.links d.heap.next (id :: stack.map Awaiting.outer) (awaits id stack)

/-- The body `body` is running in the innermost frame. -/
structure Runs {τ : TaskType} (d : Driver (taskProgram E V X)) (id : FrameId)
    (stack : List (Awaiting E V X)) (body : Body E V X τ) : Prop where
  control : d.control = .running id ⟨τ, body⟩
  stands : ∃ frame, Stands d id frame stack ∧ frame.type = τ ∧ frame.point = .running

/-- Control is back in the driver, at this point of the inlined program. -/
inductive Rests (d : Driver (taskProgram E V X)) : Inlined E V X → Prop
  | waiting {τ : TaskType} {id : FrameId} {frame : Frame (taskProgram E V X)}
      {stack : List (Awaiting E V X)} {awt request : Awaitable} {stamp : Stamp}
      {next : Int32 → Body E V X τ}
      (hcontrol : d.control = .waiting id) (hstands : Stands d id frame stack)
      (htype : frame.type = τ)
      (hpoint : frame.point = .onAwaitable 0 stamp fun res => ⟨τ, next res⟩)
      (hobject : frame.objects 0 = some awt) :
      Rests d (.ask request fun res => unwind stack (next res).inline)
  | returned {frame : Frame (taskProgram E V X)} {outcome : Except X (Option V)}
      (hcontrol : d.control = .returned) (hframe : d.heap.frames d.root = some frame)
      (hpoint : frame.point = .final) (hresult : frame.result = some outcome)
      (hlinks : LinksAccounted d.links d.heap.next [] []) :
      Rests d (.ended outcome)

/-- After finitely many actions control is back in the driver, with the
observations the inlined program makes up to there. -/
def Settles (d : Driver (taskProgram E V X)) (program : Inlined E V X) : Prop :=
  ∃ fuel, (d.settle fuel).seen = d.seen ++ (program.observe []).1 ∧
    Rests (d.settle fuel) (program.observe []).2

theorem Rests.not_running
    {d : Driver (taskProgram E V X)} {program : Inlined E V X} (hrests : Rests d program) :
    d.isRunning = false := by
  cases hrests with
  | waiting hcontrol _ _ _ _ => simp [Driver.isRunning, hcontrol]
  | returned hcontrol _ _ _ _ => simp [Driver.isRunning, hcontrol]

theorem Settles.step
    {d : Driver (taskProgram E V X)} {program program' : Inlined E V X}
    (seen : List (Observation E Awaitable Int32))
    (hseen : d.step.seen = d.seen ++ seen)
    (hobserve : program.observe [] =
      (seen ++ (program'.observe []).1, (program'.observe []).2))
    (hsettles : Settles d.step program') : Settles d program := by
  obtain ⟨fuel, hlater, hrests⟩ := hsettles
  refine ⟨fuel + 1, ?_⟩
  have hfuel : d.settle (fuel + 1) = d.step.settle fuel :=
    Function.iterate_succ_apply _ _ _
  rw [hfuel, hobserve, hlater, hseen]
  exact ⟨by simp, hrests⟩

theorem Settles.of_step
    {d : Driver (taskProgram E V X)} {program : Inlined E V X}
    (hseen : d.step.seen = d.seen ++ (program.observe []).1)
    (hrests : Rests d.step (program.observe []).2) : Settles d program :=
  ⟨1, hseen, hrests⟩

/-- The coroutines on the stack settle whatever outcome they are resumed with. -/
def Resumable : List (Awaiting E V X) → Prop
  | [] => True
  | awaiting :: rest => ∀ d outcome, Runs d awaiting.outer rest (awaiting.next outcome) →
      Settles d (unwind rest (awaiting.next outcome).inline)

theorem rests_of_finish
    {d : Driver (taskProgram E V X)} {id : FrameId} {frame : Frame (taskProgram E V X)}
    (hstands : Stands d id frame []) {outcome : Except X (Option V)}
    (htype : frame.type.Admits outcome) :
    (d.finish id frame outcome).seen = d.seen ∧
      Rests (d.finish id frame outcome) (.ended outcome) := by
  cases hstands.chain with
  | base hframe hpromise =>
      have hnone : (frame.complete outcome).promise.continuation = none := by
        rw [Heap.complete_continuation, hpromise]
      have hresult := frame.result_complete (by rw [hpromise]) htype
      have hfinish : d.finish d.root frame outcome =
          { d with
            heap := d.heap.set d.root (frame.complete outcome)
            control := .returned
            links := d.links ++ [.final d.root] } := by
        simp only [Driver.finish, Heap.finalAwaitSuspend, hnone]
      rw [hfinish]
      refine ⟨rfl, .returned rfl (Heap.set_frames_self _ _ _) (Heap.complete_point _ _) hresult ?_⟩
      exact hstands.links.final hstands.bound (by simp)

/-- An inner task reaches its final suspend point: the coroutine awaiting it runs
on with its outcome. -/
theorem runs_of_finish
    {d : Driver (taskProgram E V X)} {id : FrameId} {frame : Frame (taskProgram E V X)}
    {awaiting : Awaiting E V X} {rest : List (Awaiting E V X)}
    (hstands : Stands d id frame (awaiting :: rest)) {outcome : Except X (Option V)}
    (htype : frame.type.Admits outcome) :
    (d.finish id frame outcome).seen = d.seen ∧
      Runs (d.finish id frame outcome) awaiting.outer rest (awaiting.next outcome) := by
  have houterLt := hstands.chain.outer_lt
  cases hstands.chain with
  | @link _ _ outerFrame _ _ hframe hpromise houterType hpoint hlt hrest =>
      have hresult := frame.result_complete (by rw [hpromise]) htype
      have hcontinuation : (frame.complete outcome).promise.continuation =
          some awaiting.outer := by
        rw [Heap.complete_continuation, hpromise]
      have hresume := (d.heap.set id (frame.complete outcome)).resumeAwaiting_of_result
        (by rw [Heap.set_frames_of_ne _ (Nat.ne_of_lt hlt), hrest.frame_eq]) hpoint
        (Heap.set_frames_self _ _ _) hresult
      have hfinish : d.finish id frame outcome =
          { d with
            heap := ((d.heap.set id (frame.complete outcome)).erase id).set awaiting.outer
              { outerFrame with point := .running }
            control := .running awaiting.outer ⟨awaiting.type, awaiting.next outcome⟩
            links := d.links ++ [.final id, .continues awaiting.outer id] } := by
        simp only [Driver.finish, Heap.finalAwaitSuspend, hcontinuation, hresume]
      rw [hfinish]
      refine ⟨rfl, rfl, { outerFrame with point := .running }, ⟨?_, ?_, ?_⟩, houterType, rfl⟩
      · -- the frames further out are untouched
        have hkept : Chain ((d.heap.set id (frame.complete outcome)).erase id) d.root
            awaiting.outer outerFrame rest := by
          refine hrest.congr ?_
          intro other hother
          have hne := Nat.ne_of_lt (Nat.lt_of_le_of_lt hother hlt)
          rw [Heap.erase_frames_of_ne _ hne, Heap.set_frames_of_ne _ hne]
        exact hkept.set_top rfl
      · exact Nat.lt_trans hlt hstands.bound
      · have hlinks := hstands.links
        have hnew : .continues awaiting.outer id ∉ d.links ++ [.final id] := by
          intro hmem
          simp only [List.mem_append, List.mem_singleton, reduceCtorEq, or_false] at hmem
          exact hlinks.unfinished id List.mem_cons_self (hlinks.continues_final hmem)
        have hfinal := hlinks.final hstands.bound (by
          intro hmem
          obtain ⟨other, hother, heq⟩ := List.mem_map.mp hmem
          exact Nat.ne_of_lt (houterLt other hother) heq)
        have hcontinues := hfinal.continues (by simp) hnew
        rw [List.append_assoc] at hcontinues
        exact hcontinues

theorem settles_of_finish
    {d : Driver (taskProgram E V X)} {id : FrameId} {frame : Frame (taskProgram E V X)}
    {stack : List (Awaiting E V X)} (hresumable : Resumable stack)
    (hstands : Stands d id frame stack) {outcome : Except X (Option V)}
    (htype : frame.type.Admits outcome) (hstep : d.step = d.finish id frame outcome) :
    Settles d (unwind stack (.ended outcome)) := by
  cases stack with
  | nil =>
      obtain ⟨hseen, hrests⟩ := rests_of_finish hstands htype
      refine .of_step ?_ ?_
      · rw [hstep, hseen]
        simp [unwind, Resumption.observe]
      · rw [hstep]
        exact hrests
  | cons awaiting rest =>
      obtain ⟨hseen, hruns⟩ := runs_of_finish hstands htype
      refine .step [] ?_ rfl ?_
      · rw [hstep, hseen, List.append_nil]
      · rw [hstep]
        exact hresumable _ outcome hruns

/-- A body running in the innermost frame settles. -/
theorem settles_of_runs
    {τ : TaskType} (body : Body E V X τ) {d : Driver (taskProgram E V X)} {id : FrameId}
    {stack : List (Awaiting E V X)} (hresumable : Resumable stack)
    (hruns : Runs d id stack body) : Settles d (unwind stack body.inline) := by
  induction body generalizing d id stack with
  | step visible next ih =>
      obtain ⟨hcontrol, frame, hstands, htype, hpoint⟩ := hruns
      have hstep : d.step =
          { d with
            control := .running id ⟨_, next⟩
            seen := d.seen ++ [.did visible] } := by
        simp only [Driver.step, hcontrol, hstands.chain.frame_eq]
      have hnext : Runs d.step id stack next := by
        rw [hstep]
        exact ⟨rfl, frame, ⟨hstands.chain, hstands.bound, hstands.links⟩, htype, hpoint⟩
      refine .step [.did visible] (by rw [hstep]) ?_ (ih hresumable hnext)
      rw [Body.inline, unwind_step]
      rfl
  | awaitOp op deadline next _ =>
      obtain ⟨hcontrol, frame, hstands, htype, -⟩ := hruns
      have hstep : d.step = d.coAwait id frame 0 (Body.operation op deadline)
          fun res => ⟨_, next res⟩ := by
        simp only [Driver.step, hcontrol, hstands.chain.frame_eq]
        rfl
      rw [Body.inline, unwind_ask]
      refine .of_step ?_ ?_
      · rw [hstep]
        rfl
      · rw [hstep]
        have hobject : Function.update frame.objects 0
            (some { Body.operation op deadline with handle := some id }) 0 =
            some { Body.operation op deadline with handle := some id } := by simp
        exact .waiting rfl ⟨hstands.chain.set_top rfl, hstands.bound, hstands.links⟩ htype
          rfl hobject
  | @awaitTask τ type inner next ihInner ihNext =>
      obtain ⟨hcontrol, frame, hstands, htype, -⟩ := hruns
      have hstep : d.step =
          { d with
            heap := d.heap.coAwaitTask id frame type ⟨type, inner⟩
              fun outcome => ⟨τ, next outcome⟩
            control := .running d.heap.next ⟨type, inner⟩
            links := d.links ++ [.suspends id d.heap.next] } := by
        simp only [Driver.step, hcontrol, hstands.chain.frame_eq]
      have hinner : Runs d.step d.heap.next (⟨id, τ, next⟩ :: stack) inner := by
        rw [hstep, Heap.coAwaitTask_eq_add _ (Nat.ne_of_lt hstands.bound)]
        refine ⟨rfl, Heap.newFrame type .running (some id) frame.root, ⟨?_, ?_, ?_⟩, rfl, rfl⟩
        · have houter : Chain (d.heap.set id
              { frame with point := .onTask d.heap.next fun outcome => ⟨τ, next outcome⟩ })
              d.root id _ stack := hstands.chain.set_top rfl
          refine .link (Heap.add_frames_next _ _) rfl ?_ ?_ hstands.bound (houter.congr ?_)
          · exact htype
          · rfl
          · intro other hother
            refine Heap.add_frames_of_ne _ ?_ _
            exact Nat.ne_of_lt (Nat.lt_of_le_of_lt hother hstands.bound)
        · exact Nat.lt_succ_self _
        · exact hstands.links.suspends
      refine .step [] (by rw [hstep, List.append_nil]) rfl (ihInner ?_ hinner)
      -- what the inner body hands back to is the rest of this one
      intro d' outcome hruns'
      exact ihNext outcome hresumable hruns'
  | returnValue value =>
      obtain ⟨hcontrol, frame, hstands, htype, -⟩ := hruns
      refine settles_of_finish hresumable hstands ?_ ?_
      · simp [htype, TaskType.Admits]
      · simp only [Driver.step, hcontrol, hstands.chain.frame_eq]
  | returnVoid =>
      obtain ⟨hcontrol, frame, hstands, htype, -⟩ := hruns
      refine settles_of_finish hresumable hstands ?_ ?_
      · simp [htype, TaskType.Admits]
      · simp only [Driver.step, hcontrol, hstands.chain.frame_eq]
  | throw exc =>
      obtain ⟨hcontrol, frame, hstands, htype, -⟩ := hruns
      refine settles_of_finish hresumable hstands ?_ ?_
      · simp [TaskType.Admits]
      · simp only [Driver.step, hcontrol, hstands.chain.frame_eq]

theorem resumable (stack : List (Awaiting E V X)) : Resumable stack := by
  induction stack with
  | nil => trivial
  | cons awaiting rest ih =>
      intro d outcome hruns
      exact settles_of_runs (awaiting.next outcome) ih hruns

/-! ## Driving with a list of results -/

theorem runs_of_complete
    {d : Driver (taskProgram E V X)} {request : Awaitable} {next : Int32 → Inlined E V X}
    (hrests : Rests d (.ask request next)) (res : Int32) :
    ∃ (τ : TaskType) (id : FrameId) (stack : List (Awaiting E V X)) (body : Body E V X τ),
      Runs (d.complete res) id stack body ∧ unwind stack body.inline = next res ∧
        (d.complete res).seen = d.seen ++ [.answered res] := by
  cases hrests with
  | @waiting τ id frame stack awt _ stamp after hcontrol hstands htype hpoint hobject =>
      have hcomplete : d.complete res =
          { d with
            heap := d.heap.set id { frame.storeResult 0 awt res with point := .running }
            control := .running id ⟨τ, after res⟩
            seen := d.seen ++ [.answered res] } := by
        simp only [Driver.complete, hcontrol, hstands.chain.frame_eq, hpoint, hobject]
        rfl
      refine ⟨τ, id, stack, after res, ?_, rfl, by rw [hcomplete]⟩
      rw [hcomplete]
      exact ⟨rfl, _, ⟨hstands.chain.set_top rfl, hstands.bound, hstands.links⟩, htype, rfl⟩

theorem drive_of_returned
    {d : Driver (taskProgram E V X)} (hcontrol : d.control = .returned) (fuel : ℕ)
    (results : List Int32) : d.drive fuel results = d := by
  have hsettle : d.settle fuel = d :=
    Driver.settle_of_not_running (by simp [Driver.isRunning, hcontrol]) fuel
  induction results with
  | nil => exact hsettle
  | cons res results ih =>
      simp only [Driver.drive, hsettle, Driver.complete, hcontrol]
      exact ih

/-- With enough fuel the driver of a running body ends where the inlined program
is after the same results. -/
theorem rests_of_drive
    {τ : TaskType} {d : Driver (taskProgram E V X)} {id : FrameId}
    {stack : List (Awaiting E V X)} {body : Body E V X τ} (hruns : Runs d id stack body)
    (results : List Int32) :
    ∃ enough, ∀ fuel, enough ≤ fuel →
      (d.drive fuel results).seen =
        d.seen ++ ((unwind stack body.inline).observe results).1 ∧
      Rests (d.drive fuel results) ((unwind stack body.inline).observe results).2 := by
  induction results generalizing τ d id stack body with
  | nil =>
      obtain ⟨enough, hseen, hrests⟩ := settles_of_runs body (resumable stack) hruns
      refine ⟨enough, ?_⟩
      intro fuel hfuel
      simp only [Driver.drive, Driver.settle_eq_of_le hfuel hrests.not_running]
      exact ⟨hseen, hrests⟩
  | cons res results ih =>
      obtain ⟨enough, hseen, hrests⟩ := settles_of_runs body (resumable stack) hruns
      rcases (unwind stack body.inline).observe_nil_cases with
        ⟨request, next, hstop⟩ | ⟨outcome, hstop⟩
      · -- a coroutine is waiting and takes the result
        rw [hstop] at hrests
        obtain ⟨τ', id', stack', body', hruns', hprogram, hseen'⟩ := runs_of_complete hrests res
        obtain ⟨more, hlater⟩ := ih hruns'
        refine ⟨max enough more, ?_⟩
        intro fuel hfuel
        rw [Resumption.observe_cons_of_ask hstop, ← hprogram]
        simp only [Driver.drive, Driver.settle_eq_of_le (le_trans (le_max_left _ _) hfuel)
          hrests.not_running]
        obtain ⟨hseen'', hrests''⟩ := hlater fuel (le_trans (le_max_right _ _) hfuel)
        refine ⟨?_, hrests''⟩
        rw [hseen'', hseen', hseen]
        simp
      · -- the root has ended before
        refine ⟨enough, ?_⟩
        intro fuel hfuel
        rw [Resumption.observe_of_ended hstop]
        simp only [Driver.drive, Driver.settle_eq_of_le hfuel hrests.not_running]
        have hreturned : (d.settle enough).control = .returned := by
          rw [hstop] at hrests
          cases hrests with
          | returned hcontrol _ _ _ _ => exact hcontrol
        have hcomplete : (d.settle enough).complete res = d.settle enough := by
          simp only [Driver.complete, hreturned]
        rw [hcomplete, drive_of_returned hreturned]
        exact ⟨hseen, hrests⟩

/-- The driver has come to the point of the inlined program at which `program`
is left, with these observations. -/
structure Driver.Agrees (d : Driver (taskProgram E V X))
    (seen : List (Observation E Awaitable Int32)) (program : Inlined E V X) : Prop where
  /-- Control is back in the driver, for a result or for good. -/
  settled : if program.isEnded then d.control = .returned else ∃ id, d.control = .waiting id
  seen : d.seen = seen
  done : d.done = program.isEnded
  result : ∀ outcome, program = .ended outcome → d.result = some outcome
  /-- A coroutine awaiting a task is resumed once if the task has reached its
  final suspend point, and not at all before. -/
  resumed : ∀ outer inner, .suspends outer inner ∈ d.links →
    d.links.count (.continues outer inner) = if .final inner ∈ d.links then 1 else 0
  afterFinal : ∀ before after outer inner,
    d.links = before ++ .continues outer inner :: after → .final inner ∈ before
  allFinal : d.done = true → ∀ outer inner, .suspends outer inner ∈ d.links →
    .final inner ∈ d.links

theorem mem_awaits
    {id outer inner : FrameId} {stack : List (Awaiting E V X)}
    (hmem : (outer, inner) ∈ awaits id stack) :
    inner ∈ id :: stack.map Awaiting.outer := by
  induction stack generalizing id with
  | nil => simp [awaits] at hmem
  | cons awaiting rest ih =>
      rcases List.mem_cons.mp hmem with heq | hrest
      · simp only [Prod.mk.injEq] at heq
        simp [heq.2]
      · exact List.mem_cons_of_mem _ (ih hrest)

theorem LinksAccounted.count_continues
    {links : List Link} {next : FrameId} {active : List FrameId}
    {pending : List (FrameId × FrameId)}
    (haccount : LinksAccounted links next active pending)
    (hactive : ∀ outer inner, (outer, inner) ∈ pending → inner ∈ active)
    {outer inner : FrameId} (hmem : .suspends outer inner ∈ links) :
    links.count (.continues outer inner) = if .final inner ∈ links then 1 else 0 := by
  rcases haccount.awaited outer inner hmem with hdone | hpending
  · rw [if_pos (haccount.continues_final hdone)]
    exact List.count_eq_one_of_mem haccount.nodup hdone
  · have hopen := haccount.unfinished inner (hactive outer inner hpending)
    rw [if_neg hopen, List.count_eq_zero]
    intro hdone
    exact hopen (haccount.continues_final hdone)

/-- The root of a chain has not reached its final suspend point unless it is the
innermost frame. -/
theorem Chain.root_not_final
    {heap : Heap (taskProgram E V X)} {root id : FrameId}
    {frame : Frame (taskProgram E V X)} {stack : List (Awaiting E V X)}
    (hchain : Chain heap root id frame stack) (hlive : frame.isFinal = false) :
    heap.done (some root) = false := by
  induction hchain with
  | base hframe _ => simp [Heap.done, hframe, hlive]
  | link _ _ _ hpoint _ _ ih =>
      apply ih
      simp [Frame.isFinal, hpoint]

theorem Rests.agrees
    {d : Driver (taskProgram E V X)} {program : Inlined E V X} (hrests : Rests d program) :
    d.Agrees d.seen program := by
  cases hrests with
  | @waiting τ id frame stack awt request stamp next hcontrol hstands htype hpoint hobject =>
      have hlive : d.done = false :=
        hstands.chain.root_not_final (by simp [Frame.isFinal, hpoint])
      exact
        { settled := ⟨id, hcontrol⟩
          seen := rfl
          done := hlive
          result := by simp
          resumed := fun outer inner =>
            hstands.links.count_continues fun _ _ => mem_awaits
          afterFinal := fun before after outer inner hsplit =>
            (hstands.links.ordered before after outer inner hsplit).2
          allFinal := by simp [hlive] }
  | @returned frame outcome hcontrol hframe hpoint hresult hlinks =>
      exact
        { settled := hcontrol
          seen := rfl
          done := by simp [Driver.done, Heap.done, hframe, Frame.isFinal, hpoint,
            Resumption.isEnded]
          result := by
            intro other hother
            rw [Driver.result, hframe, ← (Resumption.ended.inj hother)]
            exact hresult
          resumed := fun outer inner => hlinks.count_continues (by simp)
          afterFinal := fun before after outer inner hsplit =>
            (hlinks.ordered before after outer inner hsplit).2
          allFinal := by
            intro _ outer inner hmem
            rcases hlinks.awaited outer inner hmem with hdone | hpending
            · exact hlinks.continues_final hdone
            · simp at hpending }

/-- For every finite body and every list of results: driven with enough fuel, the
coroutines make the observations of the body with all inner bodies inlined, are
done exactly when it has ended, with the same value or exception, and have
resumed every awaiting coroutine once, after the task it awaited. -/
theorem nested_coAwait_is_inlining
    {τ : TaskType} (body : Body E V X τ) (results : List Int32) :
    ∃ enough, ∀ fuel, enough ≤ fuel →
      ((Driver.start τ ⟨τ, body⟩ : Driver (taskProgram E V X)).drive fuel results).Agrees
        (body.inline.observe results).1 (body.inline.observe results).2 := by
  have hruns : Runs (Driver.start τ ⟨τ, body⟩ : Driver (taskProgram E V X)) 0 [] body := by
    have hheap : (Driver.start τ ⟨τ, body⟩ : Driver (taskProgram E V X)).heap =
        Heap.empty.add (Heap.newFrame τ .running none 0) :=
      Heap.start_create_eq_add (Heap.empty : Heap (taskProgram E V X)) τ ⟨τ, body⟩ 0
    refine ⟨rfl, Heap.newFrame τ .running none 0, ⟨.base ?_ rfl, ?_, ?_⟩, rfl, rfl⟩
    · rw [hheap]
      exact Heap.add_frames_next _ _
    · rw [hheap]
      exact Nat.zero_lt_one
    · rw [hheap]
      exact .initial
  obtain ⟨enough, hdrive⟩ := rests_of_drive hruns results
  refine ⟨enough, ?_⟩
  intro fuel hfuel
  obtain ⟨hseen, hrests⟩ := hdrive fuel hfuel
  have hagrees := hrests.agrees
  rw [hseen] at hagrees
  exact hagrees

end SlimCommonIo
