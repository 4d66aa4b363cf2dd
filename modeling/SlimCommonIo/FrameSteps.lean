import SlimCommonIo.RingLedger

/-!
# What a step does to the coroutine frames

Every step of the scheduler is projected to the heap of frames, the frames
running on the driving thread and the references to frames held by the ring.
-/

namespace SlimCommonIo

open scoped List

variable {P : Program}

namespace Heap

/-- A new frame under the next free identity. -/
def add (heap : Heap P) (frame : Frame P) : Heap P where
  frames := Function.update heap.frames heap.next (some frame)
  next := heap.next + 1

@[simp] theorem set_frames_self (heap : Heap P) (id : FrameId) (frame : Frame P) :
    (heap.set id frame).frames id = some frame := by
  simp [set]

theorem set_frames_of_ne
    (heap : Heap P) {id other : FrameId} (hne : other ≠ id) (frame : Frame P) :
    (heap.set id frame).frames other = heap.frames other := by
  simp [set, hne]

@[simp] theorem set_next (heap : Heap P) (id : FrameId) (frame : Frame P) :
    (heap.set id frame).next = heap.next := rfl

@[simp] theorem set_set (heap : Heap P) (id : FrameId) (frame frame' : Frame P) :
    (heap.set id frame).set id frame' = heap.set id frame' := by
  simp [set]

@[simp] theorem erase_frames_self (heap : Heap P) (id : FrameId) :
    (heap.erase id).frames id = none := by
  simp [erase]

theorem erase_frames_of_ne
    (heap : Heap P) {id other : FrameId} (hne : other ≠ id) :
    (heap.erase id).frames other = heap.frames other := by
  simp [erase, hne]

@[simp] theorem erase_next (heap : Heap P) (id : FrameId) :
    (heap.erase id).next = heap.next := rfl

@[simp] theorem add_frames_next (heap : Heap P) (frame : Frame P) :
    (heap.add frame).frames heap.next = some frame := by
  simp [add]

theorem add_frames_of_ne
    (heap : Heap P) {other : FrameId} (hne : other ≠ heap.next) (frame : Frame P) :
    (heap.add frame).frames other = heap.frames other := by
  simp [add, hne]

@[simp] theorem add_next (heap : Heap P) (frame : Frame P) :
    (heap.add frame).next = heap.next + 1 := rfl

def newFrame (type : TaskType) (point : SuspendPoint P)
    (continuation : Option FrameId) (root : FrameId) : Frame P where
  type := type
  promise := { continuation := continuation }
  point := point
  objects := fun _ => none
  root := root

theorem create_eq_add (heap : Heap P) (type : TaskType) (body : P.Code) (root : FrameId) :
    heap.create type body root =
      heap.add (newFrame type (.initial body) none root) := rfl

theorem start_create_eq_add
    (heap : Heap P) (type : TaskType) (body : P.Code) (root : FrameId) :
    (heap.create type body root).start heap.next =
      heap.add (newFrame type .running none root) := by
  simp [create, start, add, newFrame, set]

@[simp] theorem start_next (heap : Heap P) (id : FrameId) :
    (heap.start id).next = heap.next := by
  unfold start
  split <;> rfl

@[simp] theorem taskAwaitSuspend_next (heap : Heap P) (inner awaiting : FrameId) :
    (heap.taskAwaitSuspend inner awaiting).next = heap.next := by
  unfold taskAwaitSuspend
  split <;> rfl

@[simp] theorem coAwaitTask_next
    (heap : Heap P) (outer : FrameId) (frame : Frame P) (type : TaskType)
    (body : P.Code) (next : P.Outcome → P.Code) :
    (heap.coAwaitTask outer frame type body next).next = heap.next + 1 := by
  simp [coAwaitTask, create]

theorem coAwaitTask_eq_add
    (heap : Heap P) {outer : FrameId} (houter : outer ≠ heap.next)
    (frame : Frame P) (type : TaskType) (body : P.Code) (next : P.Outcome → P.Code) :
    heap.coAwaitTask outer frame type body next =
      (heap.set outer { frame with point := .onTask heap.next next }).add
        (newFrame type .running (some outer) frame.root) := by
  have hother : heap.next ≠ outer := houter.symm
  simp only [coAwaitTask, create, taskAwaitSuspend, start, set, add, newFrame,
    Function.update_of_ne hother, Function.update_self, Heap.mk.injEq, and_true]
  funext id
  by_cases hid : id = heap.next
  · simp [hid]
  · simp [Function.update, hid]

/-- Part of the frames have been destroyed. -/
structure Remains (heap heap' : Heap P) : Prop where
  next : heap'.next = heap.next
  frames : ∀ id, heap'.frames id = none ∨ heap'.frames id = heap.frames id

theorem Remains.refl (heap : Heap P) : Remains heap heap :=
  ⟨rfl, fun _ => .inr rfl⟩

theorem Remains.trans
    {heap₁ heap₂ heap₃ : Heap P} (h₁₂ : Remains heap₁ heap₂)
    (h₂₃ : Remains heap₂ heap₃) : Remains heap₁ heap₃ := by
  refine ⟨h₂₃.next.trans h₁₂.next, ?_⟩
  intro id
  rcases h₂₃.frames id with hnone | heq
  · exact .inl hnone
  · rw [heq]
    exact h₁₂.frames id

theorem Remains.erase (heap : Heap P) (id : FrameId) : Remains heap (heap.erase id) := by
  refine ⟨rfl, ?_⟩
  intro other
  by_cases hid : other = id
  · left
    rw [hid, erase_frames_self]
  · right
    rw [erase_frames_of_ne heap hid]

theorem Remains.some
    {heap heap' : Heap P} (h : Remains heap heap') {id : FrameId} {frame : Frame P}
    (hframe : heap'.frames id = some frame) : heap.frames id = some frame := by
  rcases h.frames id with hnone | heq
  · rw [hnone] at hframe
    simp at hframe
  · rw [← heq, hframe]

theorem Remains.destroyFrom (fuel : ℕ) (heap : Heap P) (id : FrameId) :
    Remains heap (destroyFrom fuel heap id) := by
  induction fuel generalizing heap id with
  | zero => exact .refl heap
  | succ fuel ih =>
      unfold Heap.destroyFrom
      split
      · exact .refl heap
      · split
        · exact (Remains.erase heap id).trans (ih _ _)
        · exact .erase heap id

theorem Remains.foldl_erase (ids : List FrameId) (heap : Heap P) :
    Remains heap (ids.foldl Heap.erase heap) := by
  induction ids generalizing heap with
  | nil => exact .refl heap
  | cons id ids ih => exact (Remains.erase heap id).trans (ih _)

theorem foldl_erase_frames
    (ids : List FrameId) (heap : Heap P) {id : FrameId} (frame : Option (Frame P))
    (hframe : heap.frames id = frame) (hid : id ∉ ids) :
    (ids.foldl Heap.erase heap).frames id = frame := by
  induction ids generalizing heap with
  | nil => exact hframe
  | cons other ids ih =>
      rw [List.mem_cons, not_or] at hid
      apply ih _ _ hid.2
      rw [erase_frames_of_ne heap hid.1, hframe]

theorem resumeAwaiting_of_result
    (heap : Heap P) {id inner : FrameId} {frame innerFrame : Frame P}
    {next : P.Outcome → P.Code} {outcome : P.Outcome}
    (hframe : heap.frames id = some frame) (hpoint : frame.point = .onTask inner next)
    (hinner : heap.frames inner = some innerFrame)
    (hresult : innerFrame.result = some outcome) :
    heap.resumeAwaiting id =
      .resume ((heap.erase inner).set id { frame with point := .running }) id
        (next outcome) := by
  simp only [resumeAwaiting, hframe, hpoint, hinner, hresult]

/-- When `resumeAwaiting` succeeds, the inner frame is gone and the awaiting
one runs on with its result. -/
theorem resumeAwaiting_eq_resume
    {heap heap' : Heap P} {id id' : FrameId} {code : P.Code}
    (hresume : heap.resumeAwaiting id = .resume heap' id' code) :
    id' = id ∧ ∃ frame inner next innerFrame outcome,
      heap.frames id = some frame ∧ frame.point = .onTask inner next ∧
      heap.frames inner = some innerFrame ∧ innerFrame.result = some outcome ∧
      code = next outcome ∧
      heap' = (heap.erase inner).set id { frame with point := .running } := by
  unfold resumeAwaiting at hresume
  cases hframe : heap.frames id with
  | none => simp [hframe] at hresume
  | some frame =>
      simp only [hframe] at hresume
      cases hpoint : frame.point with
      | onTask inner next =>
          simp only [hpoint] at hresume
          cases hinner : heap.frames inner with
          | none => simp [hinner] at hresume
          | some innerFrame =>
              simp only [hinner] at hresume
              cases hresult : innerFrame.result with
              | none => simp [hresult] at hresume
              | some outcome =>
                  simp only [hresult, Transfer.resume.injEq] at hresume
                  obtain ⟨rfl, rfl, rfl⟩ := hresume
                  exact ⟨rfl, frame, inner, next, innerFrame, outcome, rfl, hpoint,
                    hinner, hresult, rfl, rfl⟩
      | _ => simp [hpoint] at hresume

end Heap

/-! ## References to awaitables -/

def UserData.isAwaitable : UserData → Bool
  | .awaitable _ _ => true
  | _ => false

/-- The outstanding operations of coroutines. -/
def IoState.targets (io : IoState) : List Ref :=
  io.outstanding.filter fun ref => ref.userData.isAwaitable

/-- An accepted operation has one reference to its awaitable; a deadline adds
an entry without one. -/
theorem Awaitable.group_targets
    (awt : Awaitable) (id object : ℕ) (stamp : Stamp) :
    ((awt.group (.awaitable id object) stamp).map Sqe.ref).filter
        (fun ref => ref.userData.isAwaitable) =
      [⟨.awaitable id object, some stamp⟩] := by
  by_cases htimed : awt.timeoutTs.isSome <;>
    simp [group, htimed, primarySqe, timeoutSqe, Sqe.ref, Sqe.zero,
      UserData.isAwaitable]

namespace RingInvariant

theorem targets_stage
    {s : Scheduler P} (hinv : RingInvariant s)
    {awt : Awaitable} {id object : ℕ} {stamp : Stamp} {sq : SubmissionQueue}
    (haccept : awt.awaitSuspend (.awaitable id object) stamp s.io.sq = some sq) :
    (s.stagedIo sq (awt.group (.awaitable id object) stamp)).targets ~
      ⟨.awaitable id object, some stamp⟩ :: s.io.targets := by
  obtain ⟨-, hsqes, -⟩ := hinv.stage haccept
  have hledger := IoState.ledger_append s.io
    (s.stagedIo sq (awt.group (.awaitable id object) stamp)) hsqes rfl rfl s.io.handled
  have hfilter := hledger.filter fun ref => ref.userData.isAwaitable
  rw [List.filter_append, awt.group_targets] at hfilter
  exact hfilter

theorem targets_arm
    {s : Scheduler P} (hinv : RingInvariant s) (fd : Int32) (addr : UInt64) :
    (s.stagedIo (s.io.sq.armEventfdRead fd addr)
      [SubmissionQueue.eventfdRead fd addr]).targets <+~ s.io.targets := by
  have hlt := hinv.pending_lt
  have harm := IoState.ledger_arm s.io (s.stagedIo (s.io.sq.armEventfdRead fd addr)
    [SubmissionQueue.eventfdRead fd addr]) hinv.valid (by omega) rfl rfl rfl s.io.handled
  exact (harm.2 (fun ref => ref.userData.isAwaitable) rfl).subperm

theorem targets_enter
    {s : Scheduler P} {io : IoState} {accepted : ℕ}
    (haccepted : accepted ≤ s.io.sq.pending.toNat)
    (hsq : io.sq = s.io.sq.consume accepted)
    (hkernel : io.kernel = s.io.kernel ++ s.io.sq.front accepted)
    (hposted : io.posted = s.io.posted) (hhandled : io.handled = s.io.handled) :
    io.targets ~ s.io.targets := by
  rw [IoState.targets, IoState.targets, IoState.outstanding, hhandled]
  exact (IoState.ledger_enter _ _ haccepted hsq hkernel hposted _).filter _

theorem targets_complete
    {s : Scheduler P} (hinv : RingInvariant s) {io : IoState}
    {index : ℕ} {sqe : Sqe} {res : Int32} (hsqe : s.io.kernel[index]? = some sqe)
    (hsq : io.sq = s.io.sq) (hkernel : io.kernel = s.io.kernel.eraseIdx index)
    (hposted : io.posted = s.io.posted ++
      [{ userData := sqe.userData, res := res, stamp := sqe.stamp }])
    (hhandled : io.handled = s.io.handled) :
    io.targets ~ s.io.targets := by
  rw [IoState.targets, IoState.targets, IoState.outstanding, hhandled]
  exact (IoState.ledger_complete _ _ hsqe hsq hkernel hposted hinv.handled_le).filter _

theorem targets_handle
    {s : Scheduler P} (hinv : RingInvariant s) (io : IoState) {current tail : UInt32}
    (hloop : drainPoints s.stack = [.loop current tail]) (hmore : current ≠ tail)
    (hsq : io.sq = s.io.sq) (hkernel : io.kernel = s.io.kernel)
    (hposted : io.posted = s.io.posted) (hhandled : io.handled = s.io.handled + 1) :
    s.io.targets ~
      [(s.io.cq.read current).ref].filter (fun ref => ref.userData.isAwaitable) ++
        io.targets := by
  have hfilter := (hinv.outstanding_of_loop hloop hmore).filter
    fun ref => ref.userData.isAwaitable
  have hrest : io.outstanding = s.io.ledger (s.io.handled + 1) := by
    rw [IoState.outstanding, hhandled, IoState.ledger_congr hsq hkernel hposted]
  rw [IoState.targets, IoState.targets, hrest, ← List.filter_append]
  exact hfilter

theorem targets_escape
    {s : Scheduler P} (hinv : RingInvariant s) {io : IoState} {current tail : UInt32}
    (hpoint : drainPoints s.stack = [.inboxDone current tail])
    (hsq : io.sq = s.io.sq) (hkernel : io.kernel = s.io.kernel)
    (hposted : io.posted = s.io.posted) (hhandled : io.handled = s.io.handled - 1) :
    io.targets ~ s.io.targets := by
  obtain ⟨stamp, hperm⟩ := hinv.outstanding_of_escape hpoint
  rw [IoState.targets, IoState.targets, IoState.outstanding, hhandled,
    IoState.ledger_congr hsq hkernel hposted]
  exact hperm.filter _

end RingInvariant

/-! ## Running frames -/

/-- The coroutines active on the driving thread, innermost first. -/
def runningFrames : List (Activation P) → List FrameId
  | [] => []
  | .coroutine id _ :: rest => id :: runningFrames rest
  | .coroutineInSpawn id _ :: rest => id :: runningFrames rest
  | _ :: rest => runningFrames rest

theorem runningFrames_deliver
    {below stack : List (Activation P)} {status : Option ErrorStatus}
    (hdeliver : Scheduler.deliver status below = some stack) :
    runningFrames stack = runningFrames below := by
  unfold Scheduler.deliver at hdeliver
  split at hdeliver
  all_goals simp at hdeliver
  all_goals subst hdeliver
  all_goals rfl

namespace Scheduler

theorem CallsSpawn.runningFrames
    {s : Scheduler P} {label : Label P} {body : P.Code}
    {below : List (Activation P)} (hcall : CallsSpawn s label body below) :
    runningFrames below = runningFrames s.stack := by
  cases hcall with
  | job hstack _ => rw [hstack]; rfl
  | coroutine hstack _ _ => rw [hstack]; rfl
  | client hstack _ => rw [hstack]

/-- The effect of a step on the frames, on the running ones and on the
references held by the ring. -/
inductive FrameStep (s : Scheduler P) (label : Label P) (next : Scheduler P) : Prop
  | same (hheap : s.heap.Remains next.heap)
      (hkept : ∀ id frame, s.heap.frames id = some frame → frame.isFinal = false →
        next.heap.frames id = some frame)
      (hrunning : next.crash = none →
        runningFrames next.stack <+ runningFrames s.stack)
      (htargets : next.io.targets <+~ s.io.targets)
  | drop (task : FrameId) (hlabel : label = .dropTask task)
      (hheap : next.heap = s.heap.destroy task)
      (hrunning : runningFrames next.stack = runningFrames s.stack)
      (hio : next.io = s.io)
  | create (body : P.Code) (root : FrameId)
      (hheap : next.heap = s.heap.add (Heap.newFrame .void (.initial body) none root))
      (hrunning : runningFrames next.stack = runningFrames s.stack)
      (hio : next.io = s.io)
  | start (hheap : next.heap =
        s.heap.add (Heap.newFrame .void .running none s.heap.next))
      (hrunning : runningFrames next.stack = s.heap.next :: runningFrames s.stack)
      (hio : next.io = s.io)
  | refuse (id : FrameId) (frame : Frame P) (objects : ℕ → Option Awaitable)
      (rest : List FrameId)
      (hbefore : runningFrames s.stack = id :: rest)
      (hframe : s.heap.frames id = some frame)
      (hheap : next.heap = s.heap.set id { frame with objects := objects })
      (hrunning : runningFrames next.stack = runningFrames s.stack)
      (hio : next.io = s.io)
  | stage (id object : ℕ) (frame : Frame P) (awt : Awaitable) (stamp : Stamp)
      (resume : Int32 → P.Code) (rest : List FrameId)
      (hbefore : runningFrames s.stack = id :: rest)
      (hframe : s.heap.frames id = some frame)
      (hhandle : awt.handle = some id)
      (hheap : next.heap = s.heap.set id
        { frame with
          objects := Function.update frame.objects object (some awt)
          point := .onAwaitable object stamp resume })
      (hrunning : runningFrames next.stack = rest)
      (htargets : next.io.targets ~
        ⟨.awaitable id object, some stamp⟩ :: s.io.targets)
  | awaitTask (id : FrameId) (frame : Frame P) (type : TaskType) (inner : P.Code)
      (resume : P.Outcome → P.Code) (rest : List FrameId)
      (hbefore : runningFrames s.stack = id :: rest)
      (hframe : s.heap.frames id = some frame)
      (hheap : next.heap = s.heap.coAwaitTask id frame type inner resume)
      (hrunning : runningFrames next.stack = s.heap.next :: rest)
      (hio : next.io = s.io)
  | finish (id : FrameId) (frame : Frame P) (outcome : P.Outcome)
      (rest : List FrameId)
      (hbefore : runningFrames s.stack = id :: rest)
      (hframe : s.heap.frames id = some frame)
      (hheap : next.heap = s.heap.set id (frame.complete outcome))
      (hrunning : next.crash = none → runningFrames next.stack = rest)
      (hio : next.io = s.io)
  | finishInner (id awaiting : FrameId) (frame : Frame P) (outcome : P.Outcome)
      (code : P.Code) (rest : List FrameId)
      (hbefore : runningFrames s.stack = id :: rest)
      (hframe : s.heap.frames id = some frame)
      (hinner : frame.promise.continuation = some awaiting)
      (hresume : (s.heap.set id (frame.complete outcome)).resumeAwaiting awaiting =
        .resume next.heap awaiting code)
      (hrunning : runningFrames next.stack = awaiting :: rest)
      (hio : next.io = s.io)
  | resume (cqe : Cqe) (id object handle awaited : ℕ) (frame awaiting : Frame P)
      (awt awaitedAwt : Awaitable) (stamp : Stamp) (resume : Int32 → P.Code)
      (hcqe : cqe.userData = .awaitable id object)
      (hframe : s.heap.frames id = some frame)
      (hobject : frame.objects object = some awt)
      (hhandle : awt.handle = some handle)
      (hawaiting : (s.heap.set id (frame.storeResult object awt cqe.res)).frames handle =
        some awaiting)
      (hpoint : awaiting.point = .onAwaitable awaited stamp resume)
      (hawaited : awaiting.objects awaited = some awaitedAwt)
      (hheap : next.heap = (s.heap.set id (frame.storeResult object awt cqe.res)).set
        handle { awaiting with point := .running })
      (hrunning : runningFrames next.stack = handle :: runningFrames s.stack)
      (htargets : s.io.targets ~ cqe.ref :: next.io.targets)

/-- `reap` destroys finished frames only. -/
theorem reap_frames
    (s : Scheduler P) (rest : List (Activation P)) {id : FrameId} {frame : Frame P}
    (hframe : s.heap.frames id = some frame) (hlive : frame.isFinal = false) :
    (s.reap rest).heap.frames id = some frame := by
  apply Heap.foldl_erase_frames _ _ _ hframe
  intro hmem
  have hperm := removeIfDone_destroyed s.heap.done [] [] [] s.tasks
  have hdone := hperm.subset hmem
  simp only [List.filterMap_nil, List.append_nil, List.nil_append, List.mem_filterMap,
    List.mem_filter, id_eq] at hdone
  obtain ⟨task, ⟨-, hfinal⟩, rfl⟩ := hdone
  simp [Heap.done, hframe, hlive] at hfinal

/-- Frame names are never given twice. -/
theorem Move.next_le
    {s next : Scheduler P} {label : Label P} (hmove : Move s label next) :
    s.heap.next ≤ next.heap.next := by
  cases hmove with
  | reap _ => exact (Heap.Remains.foldl_erase _ s.heap).next.ge
  | dropTask _ => exact (Heap.Remains.destroyFrom _ s.heap _).next.ge
  | awaitTask _ _ _ => simp
  | endInner _ _ hresume =>
      obtain ⟨-, frame, inner, after, innerFrame, outcome, -, -, -, -, -, rfl⟩ :=
        Heap.resumeAwaiting_eq_resume hresume
      exact Nat.le_refl _
  | spawnFull _ _ _ => exact Nat.le_succ _
  | spawnStart _ _ | callResume _ _ =>
      rw [Heap.start_next]
      exact Nat.le_succ _
  | _ => exact Nat.le_refl _

/-- Every move acts on the frames in one of the ways listed above. -/
theorem Move.frameStep
    {s next : Scheduler P} {label : Label P} (hmove : Move s label next) (hinv : RingInvariant s) :
    FrameStep s label next := by
  cases hmove with
  | leaveRun hstack _ | leaveShutdown hstack _ | loopRun hstack _
  | loopShutdown hstack _ | destructor hstack | armedStart hstack _
  | wake hstack _ | scan hstack | endLoop hstack | swapInbox hstack
  | endInbox hstack | invoke hstack | endJob hstack _ | eventfdWrite hstack
  | requeue hstack _ =>
      refine .same (.refl _) (fun _ _ hframe _ => hframe) (fun _ => ?_) (List.Subperm.refl _)
      rw [hstack]
      exact List.Sublist.refl _
  | resumed hstack | inboxDone hstack =>
      refine .same (.refl _) (fun _ _ hframe _ => hframe) (fun _ => ?_) (List.Subperm.refl _)
      rw [hstack]
      exact List.Sublist.refl _
  | reap hstack =>
      refine .same (.foldl_erase _ _) (fun _ _ => reap_frames s _) (fun _ => ?_)
        (List.Subperm.refl _)
      rw [hstack]
      exact List.Sublist.refl _
  | dropTask _ => exact .drop _ rfl rfl rfl rfl
  | arm hstack _ =>
      refine .same (.refl _) (fun _ _ hframe _ => hframe) (fun _ => ?_) (hinv.targets_arm _ _)
      rw [hstack]
      exact List.Sublist.refl _
  | enter hstack hpending _ _ =>
      refine .same (.refl _) (fun _ _ hframe _ => hframe) (fun _ => ?_) (List.Perm.subperm ?_)
      · rw [hstack]
        exact List.Sublist.refl _
      · exact RingInvariant.targets_enter hpending rfl rfl rfl rfl
  | complete hsqe _ _ =>
      refine .same (.refl _) (fun _ _ hframe _ => hframe) (fun _ => List.Sublist.refl _)
        (List.Perm.subperm ?_)
      exact hinv.targets_complete hsqe rfl rfl rfl rfl
  | handleSentinel hstack hmore hcqe | handleNull hstack hmore hcqe
  | handleDangling hstack hmore hcqe _ =>
      have hpoints := hinv.drainPoints_of_drain hstack
      refine .same (.refl _) (fun _ _ hframe _ => hframe) (fun _ => ?_) ?_
      · rw [hstack]
        exact List.Sublist.refl _
      · have htargets := hinv.targets_handle
          { s.io with handled := s.io.handled + 1 } hpoints hmore rfl rfl rfl rfl
        exact (List.sublist_append_right _ _).subperm.trans htargets.symm.subperm
  | handleAwaitable hstack hmore hcqe hframe hobject hhandle hawaiting hpoint hawaited =>
      have hpoints := hinv.drainPoints_of_drain hstack
      have htargets := hinv.targets_handle
        { s.io with handled := s.io.handled + 1 } hpoints hmore rfl rfl rfl rfl
      refine .resume _ _ _ _ _ _ _ _ _ _ _ hcqe hframe hobject hhandle hawaiting hpoint
        hawaited rfl ?_ ?_
      · simp only [afterResume]
        rw [hstack]
        rfl
      · simpa [afterResume, Cqe.ref, hcqe, UserData.isAwaitable] using htargets
  | escape hstack _ =>
      have hwell := hinv.wellStacked
      rw [hstack] at hwell
      obtain ⟨current, tail, hpoint⟩ := drainPoints_of_job hwell
      rw [← hstack] at hpoint
      refine .same (.refl _) (fun _ _ hframe _ => hframe) (fun _ => List.nil_sublist _)
        (List.Perm.subperm ?_)
      exact hinv.targets_escape hpoint rfl rfl rfl rfl
  | post hcall =>
      refine .same (.refl _) (fun _ _ hframe _ => hframe) (fun _ => ?_) (List.Subperm.refl _)
      cases hcall with
      | job hstack _ | coroutine hstack _ _ =>
          rw [hstack]
          exact List.Sublist.refl _
  | spawnFull hcall _ hdeliver =>
      refine .create _ _ (Heap.create_eq_add _ _ _ _) ?_ rfl
      exact (runningFrames_deliver hdeliver).trans hcall.runningFrames
  | spawnStart hcall _ =>
      refine .start (Heap.start_create_eq_add _ _ _ _) ?_ rfl
      exact congrArg _ hcall.runningFrames
  | spawnRefused hstack _ hdeliver | spawnAccepted hstack _ hdeliver
  | spawnBadAlloc hstack _ hdeliver =>
      refine .same (.refl _) (fun _ _ hframe _ => hframe) (fun _ => ?_) (List.Subperm.refl _)
      rw [runningFrames_deliver hdeliver, hstack]
      exact List.Sublist.refl _
  | effect hstack _ _ =>
      refine .same (.refl _) (fun _ _ hframe _ => hframe) (fun _ => ?_) (List.Subperm.refl _)
      rw [hstack]
      exact List.Sublist.refl _
  | refused hstack hframe _ _ _ =>
      refine .refuse _ _ _ _ (by rw [hstack]; rfl) hframe rfl ?_ rfl
      rw [hstack]
      rfl
  | stage hstack hframe _ _ haccept =>
      exact .stage _ _ _ _ _ _ _ (by rw [hstack]; rfl) hframe rfl rfl rfl
        (hinv.targets_stage haccept)
  | awaitTask hstack hframe _ =>
      exact .awaitTask _ _ _ _ _ _ (by rw [hstack]; rfl) hframe rfl rfl rfl
  | endRoot hends _ =>
      obtain ⟨code, hstack⟩ := hends.stack
      exact .finish _ _ _ _ (by rw [hstack]; rfl) hends.frame rfl (fun _ => rfl) rfl
  | endInner hends hinner hresume =>
      obtain ⟨code, hstack⟩ := hends.stack
      exact .finishInner _ _ _ _ _ _ (by rw [hstack]; rfl) hends.frame hinner hresume
        rfl rfl
  | endAstray hends _ _ =>
      obtain ⟨code, hstack⟩ := hends.stack
      exact .finish _ _ _ _ (by rw [hstack]; rfl) hends.frame rfl
        (fun hcrash => by simp at hcrash) rfl
  | astray _ _ | enqueue _ | notify _ | requestStop _ _ | stopCallback _ _ _
  | foreignRefusal _ | callDestroy _ _ _ =>
      exact .same (.refl _) (fun _ _ hframe _ => hframe) (fun _ => List.Sublist.refl _)
        (List.Subperm.refl _)
  | callResume hstack _ =>
      refine .start (Heap.start_create_eq_add _ _ _ _) ?_ rfl
      rw [hstack]
      rfl
  | callRun hstack _ | callShutdown hstack _ | callDestroyBusy hstack _ _ =>
      refine .same (.refl _) (fun _ _ hframe _ => hframe) (fun _ => ?_) (List.Subperm.refl _)
      rw [hstack]
      exact List.Sublist.refl _

end Scheduler

end SlimCommonIo
