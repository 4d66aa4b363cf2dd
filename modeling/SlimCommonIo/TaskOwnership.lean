import SlimCommonIo.FrameInvariant
import SlimCommonIo.TaskVector

/-!
# Who owns a coroutine frame

A frame is held by a `Task`: an element of `tasks_`, a task of client code, the
argument of an active `spawn`, or the temporary of a `co_await` in another frame.
-/

namespace SlimCommonIo

open Transition
open scoped List

variable {P : Program}

namespace Heap

/-- The frame held by the temporary task a coroutine is awaiting. -/
def awaitedTask (heap : Heap P) (outer : FrameId) : Option FrameId :=
  match heap.frames outer with
  | none => none
  | some frame =>
      match frame.point with
      | .onTask inner _ => some inner
      | _ => none

def temporaries (heap : Heap P) : List FrameId :=
  (List.range heap.next).filterMap heap.awaitedTask

/-- The frames destroyed with a suspended coroutine. -/
def chainFrom : ℕ → Heap P → FrameId → List FrameId
  | 0, _, _ => []
  | fuel + 1, heap, id =>
      match heap.frames id with
      | none => []
      | some frame =>
          match frame.point with
          | .onTask inner _ => id :: chainFrom fuel (heap.erase id) inner
          | _ => [id]

def chain (heap : Heap P) (id : FrameId) : List FrameId :=
  chainFrom (heap.next + 1) heap id

theorem destroyFrom_eq_foldl (fuel : ℕ) (heap : Heap P) (id : FrameId) :
    destroyFrom fuel heap id = (chainFrom fuel heap id).foldl erase heap := by
  induction fuel generalizing heap id with
  | zero => rfl
  | succ fuel ih =>
      cases hframe : heap.frames id with
      | none => simp [destroyFrom, chainFrom, hframe]
      | some frame =>
          cases hpoint : frame.point with
          | onTask inner resume => simp [destroyFrom, chainFrom, hframe, hpoint, ih]
          | _ => simp [destroyFrom, chainFrom, hframe, hpoint]

theorem isSome_of_mem_chainFrom
    {fuel : ℕ} {heap : Heap P} {id other : FrameId} (hmem : other ∈ chainFrom fuel heap id) :
    (heap.frames other).isSome = true := by
  induction fuel generalizing heap id with
  | zero => simp [chainFrom] at hmem
  | succ fuel ih =>
      unfold chainFrom at hmem
      split at hmem
      next => simp at hmem
      next frame hframe =>
        split at hmem
        next inner resume hpoint =>
          rcases List.mem_cons.mp hmem with rfl | hlater
          · simp [hframe]
          · obtain ⟨later, hsome⟩ := Option.isSome_iff_exists.mp (ih hlater)
            simp [(Remains.erase heap id).some hsome]
        next =>
          rw [List.mem_singleton.mp hmem]
          simp [hframe]

theorem chainFrom_nodup (fuel : ℕ) (heap : Heap P) (id : FrameId) :
    (chainFrom fuel heap id).Nodup := by
  induction fuel generalizing heap id with
  | zero => exact List.nodup_nil
  | succ fuel ih =>
      unfold chainFrom
      split
      · exact List.nodup_nil
      · split
        · refine List.nodup_cons.mpr ⟨?_, ih _ _⟩
          intro hmem
          have hsome := isSome_of_mem_chainFrom hmem
          simp at hsome
        · exact List.nodup_singleton _

theorem awaited_of_mem_chainFrom
    {fuel : ℕ} {heap : Heap P} {id other : FrameId} (hmem : other ∈ chainFrom fuel heap id) :
    other = id ∨ ∃ outer ∈ chainFrom fuel heap id, heap.awaitedTask outer = some other := by
  induction fuel generalizing heap id with
  | zero => simp [chainFrom] at hmem
  | succ fuel ih =>
      unfold chainFrom at hmem ⊢
      split at hmem
      next => simp at hmem
      next frame hframe =>
        split at hmem
        next inner resume hpoint =>
          rcases List.mem_cons.mp hmem with rfl | hlater
          · exact .inl rfl
          right
          rcases ih hlater with rfl | ⟨outer, houter, hawaited⟩
          · exact ⟨id, List.mem_cons_self .., by simp [awaitedTask, hframe, hpoint]⟩
          · refine ⟨outer, List.mem_cons_of_mem _ houter, ?_⟩
            have hne : outer ≠ id := by
              rintro rfl
              simp [awaitedTask] at hawaited
            rw [← hawaited, awaitedTask, awaitedTask, erase_frames_of_ne heap hne]
        next => exact .inl (List.mem_singleton.mp hmem)

/-- A temporary task holds a frame which knows who awaits it. -/
def Nested (heap : Heap P) : Prop :=
  ∀ outer inner, heap.awaitedTask outer = some inner →
    ∃ frame, heap.frames inner = some frame ∧ frame.promise.continuation = some outer

theorem Nested.unique
    {heap : Heap P} (hnested : heap.Nested) {outer outer' inner : FrameId}
    (hfirst : heap.awaitedTask outer = some inner)
    (hsecond : heap.awaitedTask outer' = some inner) : outer = outer' := by
  obtain ⟨frame, hframe, hcontinuation⟩ := hnested outer inner hfirst
  obtain ⟨frame', hframe', hcontinuation'⟩ := hnested outer' inner hsecond
  rw [hframe, Option.some.injEq] at hframe'
  subst hframe'
  rw [hcontinuation, Option.some.injEq] at hcontinuation'
  exact hcontinuation'

/-- Frames keep their continuation, and none begins to await a task. -/
structure Updated (heap heap' : Heap P) : Prop where
  next : heap'.next = heap.next
  frames : ∀ id, (heap.frames id = none ∧ heap'.frames id = none) ∨
    ∃ frame frame', heap.frames id = some frame ∧ heap'.frames id = some frame' ∧
      frame'.promise.continuation = frame.promise.continuation
  awaited : ∀ outer inner, heap'.awaitedTask outer = some inner →
    heap.awaitedTask outer = some inner

theorem Updated.refl (heap : Heap P) : Updated heap heap := by
  refine ⟨rfl, ?_, fun _ _ hawaited => hawaited⟩
  intro id
  cases hframe : heap.frames id with
  | none => exact .inl ⟨rfl, rfl⟩
  | some frame => exact .inr ⟨frame, frame, rfl, rfl, rfl⟩

theorem Updated.set
    {heap : Heap P} {id : FrameId} {frame : Frame P} (hframe : heap.frames id = some frame)
    {frame' : Frame P}
    (hcontinuation : frame'.promise.continuation = frame.promise.continuation)
    (hpoint : ∀ inner resume, frame'.point = .onTask inner resume →
      frame.point = .onTask inner resume) :
    Updated heap (heap.set id frame') := by
  refine ⟨rfl, ?_, ?_⟩
  · intro other
    by_cases hid : other = id
    · subst hid
      exact .inr ⟨frame, frame', hframe, set_frames_self _ _ _, hcontinuation⟩
    · rw [set_frames_of_ne heap hid]
      cases hother : heap.frames other with
      | none => exact .inl ⟨rfl, rfl⟩
      | some kept => exact .inr ⟨kept, kept, rfl, rfl, rfl⟩
  · intro outer inner hawaited
    by_cases hid : outer = id
    · subst hid
      simp only [awaitedTask, set_frames_self, hframe] at hawaited ⊢
      cases hafter : frame'.point with
      | onTask other resume =>
          rw [hafter] at hawaited
          rw [hpoint other resume hafter]
          exact hawaited
      | _ => simp [hafter] at hawaited
    · simpa only [awaitedTask, set_frames_of_ne heap hid] using hawaited

theorem Updated.trans
    {heap heap' heap'' : Heap P} (hfirst : Updated heap heap')
    (hsecond : Updated heap' heap'') : Updated heap heap'' := by
  refine ⟨hsecond.next.trans hfirst.next, ?_, ?_⟩
  · intro id
    rcases hsecond.frames id with ⟨hnone', hnone''⟩ | ⟨frame', frame'', hframe', hframe'', hlater⟩
    · rcases hfirst.frames id with ⟨hnone, -⟩ | ⟨frame, other, -, hother, -⟩
      · exact .inl ⟨hnone, hnone''⟩
      · simp [hnone'] at hother
    · rcases hfirst.frames id with ⟨-, hnone⟩ | ⟨frame, other, hframe, hother, hsame⟩
      · simp [hnone] at hframe'
      · rw [hframe', Option.some.injEq] at hother
        subst hother
        exact .inr ⟨frame, frame'', hframe, hframe'', hlater.trans hsame⟩
  · intro outer inner hawaited
    exact hfirst.awaited outer inner (hsecond.awaited outer inner hawaited)

theorem Nested.updated
    {heap heap' : Heap P} (hnested : heap.Nested) (hupdated : heap.Updated heap') :
    heap'.Nested := by
  intro outer inner hawaited
  obtain ⟨frame, hframe, hcontinuation⟩ :=
    hnested outer inner (hupdated.awaited outer inner hawaited)
  rcases hupdated.frames inner with ⟨hnone, -⟩ | ⟨before, after, hbefore, hafter, hsame⟩
  · simp [hnone] at hframe
  · rw [hframe, Option.some.injEq] at hbefore
    subst hbefore
    exact ⟨after, hafter, hsame.trans hcontinuation⟩

theorem awaitedTask_of_remains
    {heap heap' : Heap P} (hremains : heap.Remains heap') {outer inner : FrameId}
    (hawaited : heap'.awaitedTask outer = some inner) :
    heap.awaitedTask outer = some inner := by
  rcases hremains.frames outer with hnone | hsame
  · simp [awaitedTask, hnone] at hawaited
  · rw [← hawaited, awaitedTask, awaitedTask, hsame]

/-- Destroying frames which nobody awaits, or whose awaiting coroutine goes too. -/
theorem Nested.erased
    {heap : Heap P} (hnested : heap.Nested) (ids : List FrameId)
    (hids : ∀ inner ∈ ids, ∀ outer, heap.awaitedTask outer = some inner → outer ∈ ids) :
    (ids.foldl erase heap).Nested := by
  intro outer inner hawaited
  have hbefore := awaitedTask_of_remains (.foldl_erase ids heap) hawaited
  obtain ⟨frame, hframe, hcontinuation⟩ := hnested outer inner hbefore
  refine ⟨frame, ?_, hcontinuation⟩
  rw [foldl_erase_frames_of_notMem, hframe]
  intro hmem
  have houter := hids inner hmem outer hbefore
  have hgone : (ids.foldl erase heap).frames outer = none :=
    foldl_erase_frames_of_mem ids heap houter
  simp [awaitedTask, hgone] at hawaited

end Heap

/-! ## Owners -/

/-- The tasks held by active calls of `spawn`. -/
def spawning : List (Activation P) → List FrameId
  | [] => []
  | .spawn task :: rest => task :: spawning rest
  | _ :: rest => spawning rest

theorem spawning_deliver
    {status : Option ErrorStatus} {below stack : List (Activation P)}
    (hdeliver : Scheduler.deliver status below = some stack) :
    spawning stack = spawning below := by
  unfold Scheduler.deliver at hdeliver
  split at hdeliver
  all_goals simp at hdeliver
  all_goals subst hdeliver
  all_goals rfl

/-- The task which `spawn` has accepted. -/
def Event.acceptedTask : Event P → Option FrameId
  | .spawnExit task none => some task
  | _ => none

namespace Scheduler

/-- The tasks accepted so far, in the order of the calls. -/
def accepted (s : Scheduler P) : List FrameId :=
  s.log.filterMap Event.acceptedTask

/-- The frames held by tasks of `tasks_`, of client code and of active calls of
`spawn`. -/
def owners (s : Scheduler P) : List FrameId :=
  s.tasks.filterMap id ++ s.held ++ spawning s.stack

/-- Every handle held by a `Task`, once for each task which holds it. -/
def taskHandles (s : Scheduler P) : List FrameId :=
  s.owners ++ s.heap.temporaries

/-- The frames whose `destroy` is called when a coroutine ends: its own, by the
temporary task of the coroutine which awaits it and goes on. -/
def destroyedAtEnd (s : Scheduler P) (id : FrameId) (frame : Frame P)
    (outcome : P.Outcome) : List FrameId :=
  let heap := s.heap.set id (frame.complete outcome)
  match frame.promise.continuation with
  | none => []
  | some awaiting =>
      match heap.resumeAwaiting awaiting with
      | .resume _ _ _ => (heap.awaitedTask awaiting).toList
      | _ => []

/-- The frames whose `destroy` is called in this step, once for each call. -/
def destroyedNow (s : Scheduler P) : Label P → List FrameId
  | .runner _ =>
      match s.stack with
      | .reap :: _ => (removeIfDone s.heap.done [] [] [] s.tasks).2
      | .coroutine id code :: _ =>
          match s.heap.frames id, P.instr code with
          | some frame, .coReturn value => s.destroyedAtEnd id frame (.ok value)
          | some frame, .throw exc => s.destroyedAtEnd id frame (.error exc)
          | _, _ => []
      | _ => []
  | .dropTask task => s.heap.chain task
  | _ => []

/-- What a step does to the tasks and to the frames they hold. -/
inductive OwnerStep (s : Scheduler P) (label : Label P) (next : Scheduler P) : Prop
  | same (hdestroyed : s.destroyedNow label = []) (howners : next.owners <+~ s.owners)
      (hheap : s.heap.Updated next.heap)
      (htasks : next.accepted = s.accepted ∧ next.tasks = s.tasks ∨
        ∃ task ∈ s.owners, next.accepted = s.accepted ++ [task] ∧
          next.tasks = s.tasks ++ [some task])
  | create (hdestroyed : s.destroyedNow label = []) (frame : Frame P)
      (hcontinuation : frame.promise.continuation = none)
      (hpoint : ∀ inner resume, frame.point ≠ .onTask inner resume)
      (howners : next.owners <+~ s.heap.next :: s.owners)
      (hheap : next.heap = s.heap.add frame)
      (haccepted : next.accepted = s.accepted) (htasks : next.tasks = s.tasks)
  | awaitTask (hdestroyed : s.destroyedNow label = []) (id : FrameId) (frame : Frame P)
      (type : TaskType) (inner : P.Code) (resume : P.Outcome → P.Code)
      (hframe : s.heap.frames id = some frame)
      (hheap : next.heap = s.heap.coAwaitTask id frame type inner resume)
      (howners : next.owners = s.owners)
      (haccepted : next.accepted = s.accepted) (htasks : next.tasks = s.tasks)
  | endInner (id awaiting : FrameId) (frame : Frame P) (outcome : P.Outcome) (code : P.Code)
      (hdestroyed : s.destroyedNow label =
        ((s.heap.set id (frame.complete outcome)).awaitedTask awaiting).toList)
      (hframe : s.heap.frames id = some frame)
      (hinner : frame.promise.continuation = some awaiting)
      (hresume : (s.heap.set id (frame.complete outcome)).resumeAwaiting awaiting =
        .resume next.heap awaiting code)
      (howners : next.owners = s.owners)
      (haccepted : next.accepted = s.accepted) (htasks : next.tasks = s.tasks)
  | reap (rest : List (Activation P)) (hstack : s.stack = .reap :: rest)
      (hdestroyed : s.destroyedNow label = (removeIfDone s.heap.done [] [] [] s.tasks).2)
      (hnext : next = s.reap rest)
  | drop (task : FrameId) (htask : task ∈ s.held)
      (hdestroyed : s.destroyedNow label = s.heap.chain task)
      (hnext : next = { s with heap := s.heap.destroy task, held := s.held.erase task })

theorem CallsSpawn.spawning_eq
    {s : Scheduler P} {label : Label P} {body : P.Code} {below : List (Activation P)}
    (hcall : CallsSpawn s label body below) :
    s.destroyedNow label = [] ∧ spawning below = spawning s.stack := by
  cases hcall with
  | job hstack _ => exact ⟨by simp [destroyedNow, hstack], by rw [hstack]; rfl⟩
  | coroutine hstack hframe hcode =>
      exact ⟨by simp [destroyedNow, hstack, hframe, hcode], by rw [hstack]; rfl⟩
  | client hstack _ => exact ⟨rfl, by rw [hstack]⟩

theorem Ends.destroyedNow_eq
    {s : Scheduler P} {allocated : Bool} {id : FrameId} {frame : Frame P}
    {rest : List (Activation P)} {outcome : P.Outcome} (hends : Ends s id frame rest outcome) :
    s.destroyedNow (.runner allocated) = s.destroyedAtEnd id frame outcome := by
  cases hends with
  | value hstack hframe hcode | exception hstack hframe hcode =>
      simp [destroyedNow, hstack, hframe, hcode]

theorem perm_of_held (tasks held spawned : List FrameId) (task : FrameId) :
    tasks ++ task :: held ++ spawned ~ task :: (tasks ++ held ++ spawned) := by
  rw [List.append_assoc, List.append_assoc]
  exact List.perm_middle

theorem owners_subperm
    {s next : Scheduler P} (htasks : next.tasks = s.tasks) (hheld : next.held = s.held)
    (hspawning : spawning next.stack <+ spawning s.stack) : next.owners <+~ s.owners := by
  rw [owners, owners, htasks, hheld]
  exact (List.Sublist.append_left hspawning _).subperm

theorem OwnerStep.quiet
    {s next : Scheduler P} {label : Label P} (hdestroyed : s.destroyedNow label = [])
    (hheap : next.heap = s.heap) (htasks : next.tasks = s.tasks) (hheld : next.held = s.held)
    (hspawning : spawning next.stack <+ spawning s.stack)
    (haccepted : next.accepted = s.accepted) : OwnerStep s label next := by
  exact .same hdestroyed (owners_subperm htasks hheld hspawning) (hheap ▸ .refl _)
    (.inl ⟨haccepted, htasks⟩)

theorem complete_onTask
    {frame : Frame P} {outcome : P.Outcome} {inner : FrameId} {resume : P.Outcome → P.Code} :
    (frame.complete outcome).point ≠ .onTask inner resume := by
  rw [Heap.complete_point]
  simp

theorem Move.ownerStep
    {s next : Scheduler P} {label : Label P} (hmove : Move s label next) :
    OwnerStep s label next := by
  cases hmove with
  | leaveRun hstack _ | loopRun hstack _ | leaveShutdown hstack _ | loopShutdown hstack _
  | destructor hstack | armedStart hstack _ | arm hstack _
  | scan hstack | endLoop hstack | handleSentinel hstack _ _ | handleNull hstack _ _
  | handleDangling hstack _ _ _ | resumed hstack | inboxDone hstack
  | swapInbox hstack | endInbox hstack | endJob hstack _ | requeue hstack _
  | eventfdWrite hstack =>
      exact .quiet (by simp [destroyedNow, hstack]) rfl rfl rfl (by rw [hstack]; rfl) rfl
  | reap hstack => exact .reap _ hstack (by simp [destroyedNow, hstack]) rfl
  | enter hstack _ _ _ => exact .quiet rfl rfl rfl rfl (by rw [hstack]; rfl) rfl
  | wake hstack hlabel =>
      rcases hlabel with rfl | ⟨allocated, rfl⟩
      · exact .quiet rfl rfl rfl rfl (by rw [hstack]; rfl) rfl
      · exact .quiet (by simp [destroyedNow, hstack]) rfl rfl rfl (by rw [hstack]; rfl) rfl
  | invoke hstack =>
      exact .quiet (by simp [destroyedNow, hstack]) rfl rfl rfl (by rw [hstack]; rfl)
        (by simp [accepted, Event.acceptedTask])
  | escape hstack _ =>
      exact .quiet (by simp [destroyedNow, hstack]) rfl rfl rfl (List.nil_sublist _) rfl
  | post hcall =>
      cases hcall with
      | job hstack _ =>
          exact .quiet (by simp [destroyedNow, hstack]) rfl rfl rfl (by rw [hstack]; rfl) rfl
      | coroutine hstack hframe hcode =>
          exact .quiet (by simp [destroyedNow, hstack, hframe, hcode]) rfl rfl rfl
            (by rw [hstack]; rfl) rfl
  | effect hstack hframe hcode =>
      exact .quiet (by simp [destroyedNow, hstack, hframe, hcode]) rfl rfl rfl
        (by rw [hstack]; rfl) (by simp [accepted, Event.acceptedTask])
  | @astray _ _ id code hstack hbad =>
      refine .quiet ?_ rfl rfl rfl (List.Sublist.refl _) rfl
      cases hframe : s.heap.frames id with
      | none => simp [destroyedNow, hstack, hframe]
      | some frame =>
          obtain ⟨object, construct, after, hcode, -⟩ := hbad frame hframe
          simp [destroyedNow, hstack, hframe, hcode]
  | complete _ _ _ | enqueue _ | notify _ | requestStop _ _ | stopCallback _ _ _
  | foreignRefusal _ | callDestroy _ _ _ =>
      exact .quiet rfl rfl rfl rfl (List.Sublist.refl _) rfl
  | callRun hstack _ | callShutdown hstack _ | callDestroyBusy hstack _ _ =>
      exact .quiet rfl rfl rfl rfl (by rw [hstack]; rfl) rfl
  | @handleAwaitable _ rest current tail id object frame awt awaitedAwt handle awaited
      awaiting await resume hstack hmore hcqe hframe hobject hhandle hawaiting hpoint
      hawaited =>
      refine .same (by simp [destroyedNow, hstack])
        (owners_subperm rfl rfl (by rw [hstack]; rfl)) ?_ (.inl ⟨?_, rfl⟩)
      · have hstored : s.heap.Updated
            (s.heap.set id (frame.storeResult object awt (s.io.cq.read current).res)) :=
          .set hframe rfl fun _ _ hpoint => hpoint
        exact hstored.trans (.set hawaiting rfl (by simp))
      · simp [accepted, afterResume, Event.acceptedTask]
  | refused hstack hframe hcode _ _ =>
      exact .same (by simp [destroyedNow, hstack, hframe, hcode])
        (owners_subperm rfl rfl (by rw [hstack]; rfl))
        (.set hframe rfl fun _ _ hpoint => hpoint)
        (.inl ⟨by simp [accepted, Event.acceptedTask], rfl⟩)
  | stage hstack hframe hcode _ _ =>
      exact .same (by simp [destroyedNow, hstack, hframe, hcode])
        (owners_subperm rfl rfl (by rw [hstack]; rfl)) (.set hframe rfl (by simp))
        (.inl ⟨rfl, rfl⟩)
  | awaitTask hstack hframe hcode =>
      exact .awaitTask (by simp [destroyedNow, hstack, hframe, hcode]) _ _ _ _ _ hframe rfl
        (by rw [owners, owners, hstack]; rfl) rfl rfl
  | endRoot hends hroot =>
      obtain ⟨code, hstack⟩ := hends.stack
      refine .same ?_ ?_ (.set hends.frame (Heap.complete_continuation _ _) ?_) (.inl ⟨?_, rfl⟩)
      · rw [hends.destroyedNow_eq, destroyedAtEnd, hroot]
      · exact owners_subperm rfl rfl (by rw [hstack]; rfl)
      · intro inner resume hpoint
        exact absurd hpoint complete_onTask
      · simp [accepted, Event.acceptedTask]
  | endInner hends hinner hresume =>
      obtain ⟨code, hstack⟩ := hends.stack
      refine .endInner _ _ _ _ _ ?_ hends.frame hinner hresume ?_ ?_ rfl
      · rw [hends.destroyedNow_eq]
        simp only [destroyedAtEnd, hinner, hresume]
      · rw [owners, owners, hstack]
        rfl
      · simp [accepted, Event.acceptedTask]
  | endAstray hends hinner hresume =>
      refine .same ?_ ?_ (.set hends.frame (Heap.complete_continuation _ _) ?_) (.inl ⟨?_, rfl⟩)
      · rw [hends.destroyedNow_eq]
        simp only [destroyedAtEnd, hinner]
        split
        next heap other code hagain =>
          obtain ⟨rfl, -⟩ := Heap.resumeAwaiting_eq_resume hagain
          exact absurd hagain (hresume _ _)
        next => rfl
      · exact owners_subperm rfl rfl (List.Sublist.refl _)
      · intro inner resume hpoint
        exact absurd hpoint complete_onTask
      · simp [accepted, Event.acceptedTask]
  | spawnFull hcall _ hdeliver =>
      obtain ⟨hdestroyed, hspawning⟩ := hcall.spawning_eq
      refine .create hdestroyed _ rfl (by simp [Heap.newFrame]) ?_
        (Heap.create_eq_add _ _ _ _) ?_ rfl
      · rw [owners, owners, spawning_deliver hdeliver, hspawning]
        exact (perm_of_held _ _ _ _).subperm
      · simp [accepted, Event.acceptedTask]
  | spawnStart hcall _ =>
      obtain ⟨hdestroyed, hspawning⟩ := hcall.spawning_eq
      refine .create hdestroyed _ rfl (by simp [Heap.newFrame]) ?_
        (Heap.start_create_eq_add _ _ _ _) ?_ rfl
      · rw [owners, owners]
        simp only [spawning, hspawning]
        exact List.perm_middle.subperm
      · simp [accepted, Event.acceptedTask]
  | callResume hstack _ =>
      refine .create rfl _ rfl (by simp [Heap.newFrame]) ?_
        (Heap.start_create_eq_add _ _ _ _) rfl rfl
      rw [owners, owners, hstack]
      exact (perm_of_held _ _ _ _).subperm
  | spawnRefused hstack _ hdeliver | spawnBadAlloc hstack _ hdeliver =>
      refine .same (by simp [destroyedNow, hstack]) ?_ (.refl _) (.inl ⟨?_, rfl⟩)
      · rw [owners, owners, spawning_deliver hdeliver, hstack]
        exact ((perm_of_held _ _ _ _).trans List.perm_middle.symm).subperm
      · simp [accepted, Event.acceptedTask]
  | @spawnAccepted task below stack hstack _ hdeliver =>
      refine .same (by simp [destroyedNow, hstack]) ?_ (.refl _) (.inr ⟨task, ?_, ?_, rfl⟩)
      · rw [owners, owners, spawning_deliver hdeliver, hstack]
        simp only [List.filterMap_append, List.append_assoc, spawning]
        have hmiddle : task :: (s.held ++ spawning below) ~ s.held ++ task :: spawning below :=
          List.perm_middle.symm
        exact (List.Perm.append_left _ hmiddle).subperm
      · simp [owners, hstack, spawning]
      · simp [accepted, Event.acceptedTask]
  | dropTask htask => exact .drop _ htask rfl rfl

end Scheduler

/-! ## Every frame has one owner -/

/-- The tasks which hold top-level frames hold different live ones, and the
temporaries hold frames which know who awaits them. -/
structure Owned (s : Scheduler P) : Prop where
  frames : FrameInvariant s
  distinct : s.owners.Nodup
  alive : ∀ id ∈ s.owners, ∃ frame, s.heap.frames id = some frame ∧
    frame.promise.continuation = none
  nested : s.heap.Nested

namespace Owned

variable {s next : Scheduler P} {label : Label P}

theorem initial {io : IoState} (hfresh : io.Fresh) (fd : Int32) (addr : UInt64) :
    Owned (Scheduler.initial P io fd addr) where
  frames := .initial hfresh fd addr
  distinct := List.nodup_nil
  alive := by simp [Scheduler.initial, Scheduler.owners, spawning]
  nested := by
    intro outer inner hawaited
    simp [Scheduler.initial, Heap.empty, Heap.awaitedTask] at hawaited

theorem not_awaited (howned : Owned s) {id outer : FrameId} (hid : id ∈ s.owners) :
    s.heap.awaitedTask outer ≠ some id := by
  intro hawaited
  obtain ⟨frame, hframe, hnone⟩ := howned.alive id hid
  obtain ⟨frame', hframe', hsome⟩ := howned.nested outer id hawaited
  rw [hframe, Option.some.injEq] at hframe'
  subst hframe'
  simp [hnone] at hsome

theorem lt_next (howned : Owned s) {id : FrameId} (hid : id ∈ s.owners) :
    id < s.heap.next := by
  obtain ⟨frame, hframe, -⟩ := howned.alive id hid
  exact howned.frames.linked.lt hframe

/-- Every coroutine frame is held by at most one task. -/
theorem taskHandles_nodup (howned : Owned s) : s.taskHandles.Nodup := by
  refine List.nodup_append.mpr ⟨howned.distinct, ?_, ?_⟩
  · apply List.Nodup.filterMap _ List.nodup_range
    intro outer outer' inner houter houter'
    exact howned.nested.unique houter houter'
  · intro id hid other hother
    obtain ⟨outer, -, hawaited⟩ := List.mem_filterMap.mp hother
    rintro rfl
    exact howned.not_awaited hid hawaited

/-- A top-level frame is destroyed with those it is awaiting, directly or not. -/
theorem chain_closed (howned : Owned s) {task : FrameId} (htask : task ∈ s.owners) :
    ∀ inner ∈ s.heap.chain task, ∀ outer, s.heap.awaitedTask outer = some inner →
      outer ∈ s.heap.chain task := by
  intro inner hinner outer hawaited
  rcases Heap.awaited_of_mem_chainFrom hinner with rfl | ⟨other, hother, hawaited'⟩
  · exact absurd hawaited (howned.not_awaited htask)
  · rw [howned.nested.unique hawaited hawaited']
    exact hother

theorem notMem_chain (howned : Owned s) {task id : FrameId} (hid : id ∈ s.owners)
    (hne : id ≠ task) : id ∉ s.heap.chain task := by
  intro hmem
  rcases Heap.awaited_of_mem_chainFrom hmem with rfl | ⟨outer, -, hawaited⟩
  · exact hne rfl
  · exact howned.not_awaited hid hawaited

theorem awaitedTask_of_continuation
    (howned : Owned s) {id awaiting : FrameId} {frame : Frame P} {outcome : P.Outcome}
    {heap : Heap P} {code : P.Code} (hframe : s.heap.frames id = some frame)
    (hinner : frame.promise.continuation = some awaiting)
    (hresume : (s.heap.set id (frame.complete outcome)).resumeAwaiting awaiting =
      .resume heap awaiting code) :
    (s.heap.set id (frame.complete outcome)).awaitedTask awaiting = some id ∧
      s.heap.awaitedTask awaiting = some id ∧ ∃ outer resume,
        s.heap.frames awaiting = some outer ∧ outer.point = .onTask id resume ∧
        awaiting ≠ id ∧
        heap = ((s.heap.set id (frame.complete outcome)).erase id).set awaiting
          { outer with point := .running } := by
  obtain ⟨-, outer, inner, resume, innerFrame, outcome', houter, hpoint, -, -, -, rfl⟩ :=
    Heap.resumeAwaiting_eq_resume hresume
  have hne : awaiting ≠ id := by
    rintro rfl
    rw [Heap.set_frames_self, Option.some.injEq] at houter
    rw [← houter] at hpoint
    exact Scheduler.complete_onTask hpoint
  have hbefore : s.heap.frames awaiting = some outer := by
    rw [← houter, Heap.set_frames_of_ne _ hne]
  obtain ⟨resume', hlinked⟩ :=
    (howned.frames.linked.continuation id frame awaiting hframe hinner).2 outer hbefore
  have hid : inner = id := by
    rw [hpoint] at hlinked
    simp only [SuspendPoint.onTask.injEq] at hlinked
    exact hlinked.1
  subst hid
  refine ⟨?_, ?_, outer, resume, hbefore, hpoint, hne, rfl⟩
  · simp [Heap.awaitedTask, houter, hpoint]
  · simp [Heap.awaitedTask, hbefore, hpoint]

theorem mem_destroyed_iff (s : Scheduler P) (id : FrameId) :
    id ∈ (removeIfDone s.heap.done [] [] [] s.tasks).2 ↔
      some id ∈ s.tasks ∧ s.heap.done (some id) = true := by
  rw [(removeIfDone_destroyed s.heap.done [] [] [] s.tasks).mem_iff]
  simp

theorem mem_owners_of_tasks {id : FrameId} (hid : some id ∈ s.tasks) : id ∈ s.owners := by
  simp [Scheduler.owners, hid]

theorem reap_owners (s : Scheduler P) {rest : List (Activation P)}
    (hstack : s.stack = .reap :: rest) : (s.reap rest).owners <+ s.owners := by
  have htasks : (s.reap rest).tasks <+ s.tasks := by
    have hkept := removeIfDone_kept s.heap.done [] [] [] s.tasks
    change (removeIfDone s.heap.done [] [] [] s.tasks).1 <+ _
    rw [hkept]
    exact List.filter_sublist
  have hspawning : spawning (s.reap rest).stack = spawning s.stack := by
    rw [hstack]
    rfl
  rw [Scheduler.owners, Scheduler.owners, hspawning]
  exact ((htasks.filterMap id).append_right _).append_right _

theorem notMem_destroyed (howned : Owned s) {rest : List (Activation P)}
    (hstack : s.stack = .reap :: rest) {handle : FrameId}
    (hhandle : handle ∈ (s.reap rest).owners) :
    handle ∉ (removeIfDone s.heap.done [] [] [] s.tasks).2 := by
  rw [mem_destroyed_iff]
  rintro ⟨htask, hdone⟩
  have hspawning : spawning (s.reap rest).stack = spawning s.stack := by
    rw [hstack]
    rfl
  have hkept : (s.reap rest).tasks = s.tasks.filter fun task => !s.heap.done task :=
    removeIfDone_kept s.heap.done [] [] [] s.tasks
  have hmem : handle ∈ s.tasks.filterMap id := by simpa using htask
  have hdisjoint := howned.distinct
  rw [Scheduler.owners, List.append_assoc, List.nodup_append] at hdisjoint
  rw [Scheduler.owners, hspawning, hkept, List.append_assoc, List.mem_append] at hhandle
  rcases hhandle with hlive | hother
  · simp [hdone] at hlive
  · exact hdisjoint.2.2 handle hmem handle hother rfl

theorem afterUpdate
    (howned : Owned s) (hframes : FrameInvariant next) (howners : next.owners <+~ s.owners)
    (hheap : s.heap.Updated next.heap) : Owned next := by
  refine ⟨hframes, ?_, ?_, howned.nested.updated hheap⟩
  · obtain ⟨between, hperm, hsublist⟩ := howners
    exact hperm.nodup_iff.mp (howned.distinct.sublist hsublist)
  · intro id hid
    obtain ⟨frame, hframe, hnone⟩ := howned.alive id (howners.subset hid)
    rcases hheap.frames id with ⟨hdead, -⟩ | ⟨before, after, hbefore, hafter, hsame⟩
    · simp [hdead] at hframe
    · rw [hframe, Option.some.injEq] at hbefore
      subst hbefore
      exact ⟨after, hafter, hsame.trans hnone⟩

theorem nested_add
    {heap : Heap P} (hnested : ∀ outer inner,
      heap.awaitedTask outer = some inner → inner ≠ heap.next →
        ∃ frame, heap.frames inner = some frame ∧ frame.promise.continuation = some outer)
    {frame : Frame P} (hpoint : ∀ inner resume, frame.point ≠ .onTask inner resume)
    (hnew : ∀ outer, heap.awaitedTask outer = some heap.next →
      frame.promise.continuation = some outer) :
    (heap.add frame).Nested := by
  intro outer inner hawaited
  by_cases houter : outer = heap.next
  · subst houter
    unfold Heap.awaitedTask at hawaited
    rw [Heap.add_frames_next] at hawaited
    cases hat : frame.point with
    | onTask other resume => exact absurd hat (hpoint other resume)
    | _ => simp [hat] at hawaited
  · have hbefore : heap.awaitedTask outer = some inner := by
      simpa only [Heap.awaitedTask, Heap.add_frames_of_ne heap houter] using hawaited
    by_cases hinner : inner = heap.next
    · subst hinner
      exact ⟨frame, Heap.add_frames_next _ _, hnew outer hbefore⟩
    · obtain ⟨kept, hkept, hcontinuation⟩ := hnested outer inner hbefore hinner
      exact ⟨kept, by rw [Heap.add_frames_of_ne heap hinner, hkept], hcontinuation⟩

theorem afterCreate
    (howned : Owned s) (hframes : FrameInvariant next) {frame : Frame P}
    (hcontinuation : frame.promise.continuation = none)
    (hpoint : ∀ inner resume, frame.point ≠ .onTask inner resume)
    (howners : next.owners <+~ s.heap.next :: s.owners)
    (hheap : next.heap = s.heap.add frame) : Owned next := by
  have hlinked := howned.frames.linked
  refine ⟨hframes, ?_, ?_, ?_⟩
  · obtain ⟨between, hperm, hsublist⟩ := howners
    refine hperm.nodup_iff.mp (List.Nodup.sublist hsublist ?_)
    refine List.nodup_cons.mpr ⟨?_, howned.distinct⟩
    intro hmem
    exact Nat.lt_irrefl _ (howned.lt_next hmem)
  · intro id hid
    rw [hheap]
    rcases List.mem_cons.mp (howners.subset hid) with rfl | hold
    · exact ⟨frame, Heap.add_frames_next _ _, hcontinuation⟩
    · rw [Heap.add_frames_of_ne _ (howned.lt_next hold).ne]
      exact howned.alive id hold
  · rw [hheap]
    refine nested_add (fun outer inner hawaited _ => howned.nested outer inner hawaited) hpoint ?_
    intro outer hawaited
    obtain ⟨kept, hkept, -⟩ := howned.nested outer _ hawaited
    exact absurd (hlinked.lt hkept) (Nat.lt_irrefl _)

theorem afterAwaitTask
    (howned : Owned s) (hframes : FrameInvariant next) {id : FrameId} {frame : Frame P}
    {type : TaskType} {inner : P.Code} {resume : P.Outcome → P.Code}
    (hframe : s.heap.frames id = some frame)
    (hheap : next.heap = s.heap.coAwaitTask id frame type inner resume)
    (howners : next.owners = s.owners) : Owned next := by
  have hlt := howned.frames.linked.lt hframe
  rw [Heap.coAwaitTask_eq_add _ hlt.ne] at hheap
  -- the outer frame begins to await the one about to be created
  have hset : ∀ other kept, s.heap.frames other = some kept → ∃ kept',
      (s.heap.set id { frame with point := .onTask s.heap.next resume }).frames other =
        some kept' ∧ kept'.promise.continuation = kept.promise.continuation := by
    intro other kept hkept
    by_cases hid : other = id
    · subst hid
      rw [hframe, Option.some.injEq] at hkept
      subst hkept
      exact ⟨_, Heap.set_frames_self _ _ _, rfl⟩
    · exact ⟨kept, by rw [Heap.set_frames_of_ne _ hid, hkept], rfl⟩
  have hbefore : ∀ outer inner,
      (s.heap.set id { frame with point := .onTask s.heap.next resume }).awaitedTask outer =
        some inner → outer = id ∧ inner = s.heap.next ∨ s.heap.awaitedTask outer = some inner := by
    intro outer inner hawaited
    by_cases hid : outer = id
    · subst hid
      simp only [Heap.awaitedTask, Heap.set_frames_self, Option.some.injEq] at hawaited
      exact .inl ⟨rfl, hawaited.symm⟩
    · right
      simpa only [Heap.awaitedTask, Heap.set_frames_of_ne _ hid] using hawaited
  refine ⟨hframes, by rw [howners]; exact howned.distinct, ?_, ?_⟩
  · intro handle hhandle
    rw [howners] at hhandle
    obtain ⟨kept, hkept, hnone⟩ := howned.alive handle hhandle
    obtain ⟨kept', hkept', hsame⟩ := hset handle kept hkept
    refine ⟨kept', ?_, hsame.trans hnone⟩
    have hold : handle ≠
        (s.heap.set id { frame with point := .onTask s.heap.next resume }).next :=
      (howned.lt_next hhandle).ne
    rw [hheap, Heap.add_frames_of_ne _ hold, hkept']
  · rw [hheap]
    apply nested_add
    · intro outer inner hawaited hinner
      rcases hbefore outer inner hawaited with ⟨-, hnew⟩ | hold
      · exact absurd hnew hinner
      · obtain ⟨kept, hkept, hcontinuation⟩ := howned.nested outer inner hold
        obtain ⟨kept', hkept', hsame⟩ := hset inner kept hkept
        exact ⟨kept', hkept', hsame.trans hcontinuation⟩
    · simp [Heap.newFrame]
    · intro outer hawaited
      rcases hbefore outer _ hawaited with ⟨rfl, -⟩ | hold
      · rfl
      · obtain ⟨kept, hkept, -⟩ := howned.nested outer _ hold
        exact absurd (howned.frames.linked.lt hkept) (Nat.lt_irrefl _)

theorem afterEndInner
    (howned : Owned s) (hframes : FrameInvariant next) {id awaiting : FrameId} {frame : Frame P}
    {outcome : P.Outcome} {code : P.Code} (hframe : s.heap.frames id = some frame)
    (hinner : frame.promise.continuation = some awaiting)
    (hresume : (s.heap.set id (frame.complete outcome)).resumeAwaiting awaiting =
      .resume next.heap awaiting code)
    (howners : next.owners = s.owners) : Owned next := by
  obtain ⟨-, hawaits, outer, resume, houter, -, hne, hheap⟩ :=
    howned.awaitedTask_of_continuation hframe hinner hresume
  have hkept : ∀ other kept, other ≠ id → s.heap.frames other = some kept → ∃ kept',
      next.heap.frames other = some kept' ∧
        kept'.promise.continuation = kept.promise.continuation := by
    intro other kept hother hkept
    rw [hheap]
    by_cases hawaiting : other = awaiting
    · subst hawaiting
      rw [houter, Option.some.injEq] at hkept
      subst hkept
      exact ⟨_, Heap.set_frames_self _ _ _, rfl⟩
    · refine ⟨kept, ?_, rfl⟩
      rw [Heap.set_frames_of_ne _ hawaiting, Heap.erase_frames_of_ne _ hother,
        Heap.set_frames_of_ne _ hother, hkept]
  refine ⟨hframes, by rw [howners]; exact howned.distinct, ?_, ?_⟩
  · intro handle hhandle
    rw [howners] at hhandle
    obtain ⟨kept, hframe', hnone⟩ := howned.alive handle hhandle
    have hother : handle ≠ id := by
      rintro rfl
      rw [hframe, Option.some.injEq] at hframe'
      subst hframe'
      simp [hnone] at hinner
    obtain ⟨kept', hafter, hsame⟩ := hkept handle kept hother hframe'
    exact ⟨kept', hafter, hsame.trans hnone⟩
  · intro outer' inner' hawaited
    have hrunning : outer' ≠ awaiting := by
      rintro rfl
      rw [hheap] at hawaited
      simp [Heap.awaitedTask] at hawaited
    have hgone : outer' ≠ id := by
      rintro rfl
      rw [hheap] at hawaited
      simp [Heap.awaitedTask, Heap.set_frames_of_ne _ hrunning] at hawaited
    have hbefore : s.heap.awaitedTask outer' = some inner' := by
      rw [hheap] at hawaited
      simpa only [Heap.awaitedTask, Heap.set_frames_of_ne _ hrunning,
        Heap.erase_frames_of_ne _ hgone, Heap.set_frames_of_ne _ hgone] using hawaited
    obtain ⟨kept, hframe', hcontinuation⟩ := howned.nested outer' inner' hbefore
    have hother : inner' ≠ id := by
      rintro rfl
      exact hrunning (howned.nested.unique hbefore hawaits)
    obtain ⟨kept', hafter, hsame⟩ := hkept inner' kept hother hframe'
    exact ⟨kept', hafter, hsame.trans hcontinuation⟩

theorem afterErase
    (howned : Owned s) (hframes : FrameInvariant next) (ids : List FrameId)
    (hheap : next.heap = ids.foldl Heap.erase s.heap) (howners : next.owners <+ s.owners)
    (hkept : ∀ id ∈ next.owners, id ∉ ids)
    (hclosed : ∀ inner ∈ ids, ∀ outer, s.heap.awaitedTask outer = some inner → outer ∈ ids) :
    Owned next := by
  refine ⟨hframes, howned.distinct.sublist howners, ?_, ?_⟩
  · intro id hid
    obtain ⟨frame, hframe, hnone⟩ := howned.alive id (howners.subset hid)
    refine ⟨frame, ?_, hnone⟩
    rw [hheap, Heap.foldl_erase_frames_of_notMem _ _ (hkept id hid), hframe]
  · rw [hheap]
    exact howned.nested.erased ids hclosed

theorem owners_drop
    (howned : Owned s) {task : FrameId} (htask : task ∈ s.held) (heap : Heap P) :
    ({ s with heap := heap, held := s.held.erase task } : Scheduler P).owners <+ s.owners ∧
      task ∉ ({ s with heap := heap, held := s.held.erase task } : Scheduler P).owners := by
  constructor
  · exact (List.erase_sublist.append_left _).append_right _
  · have honce := List.nodup_iff_count_le_one.mp howned.distinct task
    have hheld := List.count_pos_iff.mpr htask
    rw [Scheduler.owners, List.count_append, List.count_append] at honce
    rw [← List.count_eq_zero, Scheduler.owners, List.count_append, List.count_append,
      List.count_erase_self]
    change (s.tasks.filterMap id).count task + (s.held.count task - 1) +
      (spawning s.stack).count task = 0
    omega

theorem step (howned : Owned s) (hstep : s.step label = some next) : Owned next := by
  have hframes := howned.frames.of_step hstep
  cases (Scheduler.move_of_step hstep).2.ownerStep with
  | same _ howners hheap _ => exact howned.afterUpdate hframes howners hheap
  | create _ frame hcontinuation hpoint howners hheap _ _ =>
      exact howned.afterCreate hframes hcontinuation hpoint howners hheap
  | awaitTask _ id frame type inner resume hframe hheap howners _ _ =>
      exact howned.afterAwaitTask hframes hframe hheap howners
  | endInner id awaiting frame outcome code _ hframe hinner hresume howners _ _ =>
      exact howned.afterEndInner hframes hframe hinner hresume howners
  | reap rest hstack _ hnext =>
      subst hnext
      apply howned.afterErase hframes _ rfl (reap_owners s hstack)
      · intro id hid
        exact howned.notMem_destroyed hstack hid
      · intro inner hinner outer hawaited
        have htask := (mem_destroyed_iff s inner).mp hinner
        exact absurd hawaited (howned.not_awaited (mem_owners_of_tasks htask.1))
  | drop task htask _ hnext =>
      have howner : task ∈ s.owners := by simp [Scheduler.owners, htask]
      subst hnext
      obtain ⟨hsublist, hgone⟩ := howned.owners_drop htask (s.heap.destroy task)
      apply howned.afterErase hframes _ (Heap.destroyFrom_eq_foldl _ _ _) hsublist
      · intro id hid
        apply howned.notMem_chain (hsublist.subset hid)
        rintro rfl
        exact hgone hid
      · exact howned.chain_closed howner

end Owned

end SlimCommonIo
