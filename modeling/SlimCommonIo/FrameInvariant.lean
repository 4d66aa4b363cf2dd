import SlimCommonIo.FrameSteps

/-!
# Frames, continuations and outstanding operations

Three facts about the frames hold in every state, whichever tasks their callers
destroy: the continuation of a frame leads to the frame awaiting it, a frame
active on the driving thread is not suspended, and a frame the ring refers to,
if it still exists, is suspended on exactly the operation referring to it.
-/

namespace SlimCommonIo

open scoped List

variable {P : Program}

/-- The frame is suspended on the operation a reference designates. -/
def Frame.SuspendedOn (frame : Frame P) (id object : ℕ) (stamp : Option Stamp) : Prop :=
  ∃ await resume awt, stamp = some await ∧
    frame.point = .onAwaitable object await resume ∧
    frame.objects object = some awt ∧ awt.handle = some id

namespace Heap

/-! ## Continuations -/

/-- Frames have been created in order, and the continuation of a frame, if it
still exists, is awaiting that frame. -/
structure Linked (heap : Heap P) : Prop where
  bounded : ∀ id, heap.next ≤ id → heap.frames id = none
  continuation : ∀ id frame awaiting, heap.frames id = some frame →
    frame.promise.continuation = some awaiting →
    awaiting < heap.next ∧ ∀ outer, heap.frames awaiting = some outer →
      ∃ resume, outer.point = .onTask id resume

theorem Linked.lt
    {heap : Heap P} (hlinked : heap.Linked) {id : FrameId} {frame : Frame P}
    (hframe : heap.frames id = some frame) : id < heap.next := by
  by_contra hge
  rw [hlinked.bounded id (Nat.not_lt.mp hge)] at hframe
  simp at hframe

theorem Linked.remains
    {heap heap' : Heap P} (hlinked : heap.Linked) (hremains : heap.Remains heap') :
    heap'.Linked := by
  constructor
  · intro id hid
    rcases hremains.frames id with hnone | heq
    · exact hnone
    · rw [heq]
      exact hlinked.bounded id (by rwa [hremains.next] at hid)
  · intro id frame awaiting hframe hcont
    obtain ⟨hlt, houter⟩ :=
      hlinked.continuation id frame awaiting (hremains.some hframe) hcont
    refine ⟨by rwa [hremains.next], ?_⟩
    intro outer hawaiting
    exact houter outer (hremains.some hawaiting)

theorem Linked.set
    {heap : Heap P} (hlinked : heap.Linked) {id : FrameId} {old new : Frame P}
    (hold : heap.frames id = some old)
    (hpoint : ∀ inner resume, old.point ≠ .onTask inner resume)
    (hcont : new.promise.continuation = old.promise.continuation) :
    (heap.set id new).Linked := by
  constructor
  · intro other hother
    have hne : other ≠ id := by
      rintro rfl
      exact absurd (hlinked.lt hold) (Nat.not_lt.mpr hother)
    rw [set_frames_of_ne heap hne]
    exact hlinked.bounded other hother
  · intro other frame awaiting hframe hawaiting
    have hbefore : ∃ before, heap.frames other = some before ∧
        before.promise.continuation = some awaiting := by
      by_cases hid : other = id
      · subst hid
        rw [set_frames_self] at hframe
        simp only [Option.some.injEq] at hframe
        subst hframe
        exact ⟨old, hold, by rw [← hcont, hawaiting]⟩
      · rw [set_frames_of_ne heap hid] at hframe
        exact ⟨frame, hframe, hawaiting⟩
    obtain ⟨before, hother, hcontinuation⟩ := hbefore
    obtain ⟨hlt, houter⟩ := hlinked.continuation other before awaiting hother hcontinuation
    refine ⟨hlt, ?_⟩
    intro outer hframe
    by_cases hid : awaiting = id
    · subst hid
      obtain ⟨resume, hresume⟩ := houter old hold
      exact absurd hresume (hpoint _ _)
    · rw [set_frames_of_ne heap hid] at hframe
      exact houter outer hframe

theorem Linked.add
    {heap : Heap P} (hlinked : heap.Linked) {frame : Frame P}
    (hcont : ∀ awaiting, frame.promise.continuation = some awaiting →
      awaiting < heap.next ∧ ∀ outer, heap.frames awaiting = some outer →
        ∃ resume, outer.point = .onTask heap.next resume) :
    (heap.add frame).Linked := by
  constructor
  · intro id hid
    have hlt : heap.next < id := hid
    rw [add_frames_of_ne heap (Nat.ne_of_gt hlt)]
    exact hlinked.bounded id (Nat.le_of_lt hlt)
  · intro id other awaiting hother hawaiting
    have hlink : awaiting < heap.next ∧ ∀ outer, heap.frames awaiting = some outer →
        ∃ resume, outer.point = .onTask id resume := by
      by_cases hid : id = heap.next
      · subst hid
        rw [add_frames_next] at hother
        simp only [Option.some.injEq] at hother
        subst hother
        exact hcont awaiting hawaiting
      · rw [add_frames_of_ne heap hid] at hother
        exact hlinked.continuation id other awaiting hother hawaiting
    refine ⟨Nat.lt_succ_of_lt hlink.1, ?_⟩
    intro outer houter
    rw [add_frames_of_ne heap (Nat.ne_of_lt hlink.1)] at houter
    exact hlink.2 outer houter

theorem Linked.coAwaitTask
    {heap : Heap P} (hlinked : heap.Linked) {id : FrameId} {frame : Frame P}
    (hframe : heap.frames id = some frame)
    (hpoint : ∀ inner resume, frame.point ≠ .onTask inner resume)
    (type : TaskType) (body : P.Code) (resume : P.Outcome → P.Code) :
    (heap.coAwaitTask id frame type body resume).Linked := by
  have hlt := hlinked.lt hframe
  rw [coAwaitTask_eq_add heap (Nat.ne_of_lt hlt)]
  have hset : (heap.set id { frame with point := .onTask heap.next resume }).Linked :=
    hlinked.set hframe hpoint rfl
  apply hset.add
  intro awaiting hawaiting
  simp only [newFrame, Option.some.injEq] at hawaiting
  subst hawaiting
  refine ⟨hlt, ?_⟩
  intro outer houter
  rw [set_frames_self] at houter
  simp only [Option.some.injEq] at houter
  subst houter
  exact ⟨resume, rfl⟩

theorem complete_continuation (frame : Frame P) (outcome : P.Outcome) :
    (frame.complete outcome).promise.continuation = frame.promise.continuation := by
  unfold Frame.complete
  split
  · split <;> rfl
  · rfl

theorem complete_point (frame : Frame P) (outcome : P.Outcome) :
    (frame.complete outcome).point = .final := by
  unfold Frame.complete
  split
  · split <;> rfl
  · rfl

theorem complete_root (frame : Frame P) (outcome : P.Outcome) :
    (frame.complete outcome).root = frame.root := by
  unfold Frame.complete
  split
  · split <;> rfl
  · rfl

/-- When a finished frame hands over to the frame awaiting it, that frame was
suspended on it, and the finished one disappears. -/
theorem Linked.resumeAwaiting
    {heap heap' : Heap P} (hlinked : heap.Linked) {id awaiting : FrameId}
    {frame : Frame P} {code : P.Code}
    (hframe : heap.frames id = some frame)
    (hcont : frame.promise.continuation = some awaiting)
    (hresume : heap.resumeAwaiting awaiting = .resume heap' awaiting code) :
    ∃ outer resume outcome, heap.frames awaiting = some outer ∧
      outer.point = .onTask id resume ∧ frame.result = some outcome ∧
      code = resume outcome ∧
      heap' = (heap.erase id).set awaiting { outer with point := .running } := by
  obtain ⟨-, outer, inner, resume, innerFrame, outcome, houter, hpoint, hinner, hresult,
    hcode, hheap⟩ := resumeAwaiting_eq_resume hresume
  obtain ⟨-, hlink⟩ := hlinked.continuation id frame awaiting hframe hcont
  obtain ⟨resume', hpoint'⟩ := hlink outer houter
  rw [hpoint] at hpoint'
  simp only [SuspendPoint.onTask.injEq] at hpoint'
  obtain ⟨rfl, rfl⟩ := hpoint'
  rw [hframe] at hinner
  simp only [Option.some.injEq] at hinner
  subst hinner
  exact ⟨outer, resume, outcome, houter, hpoint, hresult, hcode, hheap⟩

theorem Linked.handOver
    {heap : Heap P} (hlinked : heap.Linked) {id awaiting : FrameId}
    {outer : Frame P} {resume : P.Outcome → P.Code} (hne : id ≠ awaiting)
    (houter : heap.frames awaiting = some outer)
    (hpoint : outer.point = .onTask id resume) :
    ((heap.erase id).set awaiting { outer with point := .running }).Linked := by
  constructor
  · intro other hother
    have hge : heap.next ≤ other := hother
    have hawait : other ≠ awaiting := by
      rintro rfl
      exact absurd (hlinked.lt houter) (Nat.not_lt.mpr hge)
    rw [set_frames_of_ne _ hawait]
    rcases (Remains.erase heap id).frames other with hnone | heq
    · exact hnone
    · rw [heq]
      exact hlinked.bounded other hge
  · intro other frame next hframe hnext
    have hbefore : other ≠ id ∧ ∃ before, heap.frames other = some before ∧
        before.promise.continuation = some next := by
      by_cases hawait : other = awaiting
      · subst hawait
        rw [set_frames_self] at hframe
        simp only [Option.some.injEq] at hframe
        subst hframe
        exact ⟨hne.symm, outer, houter, hnext⟩
      · rw [set_frames_of_ne _ hawait] at hframe
        by_cases hid : other = id
        · rw [hid, erase_frames_self] at hframe
          simp at hframe
        · rw [erase_frames_of_ne heap hid] at hframe
          exact ⟨hid, frame, hframe, hnext⟩
    obtain ⟨hother, before, hbeforeFrame, hcont⟩ := hbefore
    obtain ⟨hlt, hlink⟩ := hlinked.continuation other before next hbeforeFrame hcont
    refine ⟨hlt, ?_⟩
    intro found hfound
    by_cases hawait : next = awaiting
    · -- the frame now running awaited the erased one and no other
      subst hawait
      obtain ⟨resume', hpoint'⟩ := hlink outer houter
      rw [hpoint] at hpoint'
      simp only [SuspendPoint.onTask.injEq] at hpoint'
      exact absurd hpoint'.1.symm hother
    · rw [set_frames_of_ne _ hawait] at hfound
      exact hlink found ((Remains.erase heap id).some hfound)

/-! ## Frames the ring refers to -/

/-- Every reference is to a frame created before, which if it still exists is
suspended on the operation, and no two references are to the same awaitable. -/
structure Serves (heap : Heap P) (targets : List Ref) : Prop where
  suspended : ∀ id object stamp, ⟨.awaitable id object, stamp⟩ ∈ targets →
    id < heap.next ∧ ∀ frame, heap.frames id = some frame →
      frame.SuspendedOn id object stamp
  distinct : (targets.map Ref.userData).Nodup

theorem Serves.subperm
    {heap : Heap P} {targets targets' : List Ref} (hserves : heap.Serves targets)
    (hsub : targets' <+~ targets) : heap.Serves targets' := by
  constructor
  · intro id object stamp hmem
    exact hserves.suspended id object stamp (hsub.subset hmem)
  · obtain ⟨between, hperm, hsublist⟩ := hsub
    exact (hperm.map _).nodup_iff.mp (hserves.distinct.sublist (hsublist.map _))

theorem Serves.remains
    {heap heap' : Heap P} {targets : List Ref} (hserves : heap.Serves targets)
    (hremains : heap.Remains heap') : heap'.Serves targets := by
  refine ⟨?_, hserves.distinct⟩
  intro id object stamp hmem
  obtain ⟨hlt, hframe⟩ := hserves.suspended id object stamp hmem
  refine ⟨by rwa [hremains.next], ?_⟩
  intro frame hsome
  exact hframe frame (hremains.some hsome)

theorem Serves.add
    {heap : Heap P} {targets : List Ref} (hserves : heap.Serves targets)
    (frame : Frame P) : (heap.add frame).Serves targets := by
  refine ⟨?_, hserves.distinct⟩
  intro id object stamp hmem
  obtain ⟨hlt, hframe⟩ := hserves.suspended id object stamp hmem
  refine ⟨Nat.lt_succ_of_lt hlt, ?_⟩
  intro found hsome
  rw [add_frames_of_ne heap (Nat.ne_of_lt hlt)] at hsome
  exact hframe found hsome

theorem Serves.set
    {heap : Heap P} {targets : List Ref} (hserves : heap.Serves targets)
    {id : FrameId} {old : Frame P} (hold : heap.frames id = some old)
    (hpoint : ∀ object stamp resume, old.point ≠ .onAwaitable object stamp resume)
    (new : Frame P) : (heap.set id new).Serves targets := by
  refine ⟨?_, hserves.distinct⟩
  intro other object stamp hmem
  obtain ⟨hlt, hframe⟩ := hserves.suspended other object stamp hmem
  refine ⟨hlt, ?_⟩
  intro found hfound
  by_cases hid : other = id
  · subst hid
    obtain ⟨await, resume, awt, -, hsuspended, -⟩ := hframe old hold
    exact absurd hsuspended (hpoint _ _ _)
  · rw [set_frames_of_ne heap hid] at hfound
    exact hframe found hfound

theorem Serves.stage
    {heap : Heap P} {targets targets' : List Ref} (hserves : heap.Serves targets)
    (hlinked : heap.Linked) {id object : ℕ} {old new : Frame P} {stamp : Stamp}
    (hold : heap.frames id = some old) (hrunning : old.point = .running)
    (hnew : new.SuspendedOn id object (some stamp))
    (htargets : targets' ~ ⟨.awaitable id object, some stamp⟩ :: targets) :
    (heap.set id new).Serves targets' := by
  have hset := hserves.set hold (by simp [hrunning]) new
  -- the running frame is the target of no operation
  have hfresh : ∀ object' stamp', ⟨.awaitable id object', stamp'⟩ ∉ targets := by
    intro object' stamp' hmem
    obtain ⟨await, resume, awt, -, hsuspended, -⟩ :=
      (hserves.suspended id object' stamp' hmem).2 old hold
    rw [hrunning] at hsuspended
    simp at hsuspended
  constructor
  · intro other object' stamp' hmem
    rcases List.mem_cons.mp (htargets.subset hmem) with heq | hmem
    · simp only [Ref.mk.injEq, UserData.awaitable.injEq] at heq
      obtain ⟨⟨rfl, rfl⟩, rfl⟩ := heq
      refine ⟨hlinked.lt hold, ?_⟩
      intro found hfound
      rw [set_frames_self] at hfound
      simp only [Option.some.injEq] at hfound
      subst hfound
      exact hnew
    · exact hset.suspended other object' stamp' hmem
  · rw [(htargets.map Ref.userData).nodup_iff, List.map_cons, List.nodup_cons]
    refine ⟨?_, hserves.distinct⟩
    intro hmem
    obtain ⟨⟨userData, stamp'⟩, href, huserData⟩ := List.mem_map.mp hmem
    simp only at huserData
    subst huserData
    exact hfresh object stamp' href

theorem Serves.resume
    {heap : Heap P} {targets targets' : List Ref} (hserves : heap.Serves targets)
    {id object : ℕ} {stamp : Option Stamp} {old : Frame P}
    (hold : heap.frames id = some old)
    (htargets : targets ~ ⟨.awaitable id object, stamp⟩ :: targets')
    (new : Frame P) : (heap.set id new).Serves targets' := by
  have hdistinct := hserves.distinct
  rw [(htargets.map Ref.userData).nodup_iff, List.map_cons, List.nodup_cons]
    at hdistinct
  refine ⟨?_, hdistinct.2⟩
  intro other object' stamp' hmem
  obtain ⟨hlt, hframe⟩ := hserves.suspended other object' stamp'
    (htargets.symm.subset (List.mem_cons_of_mem _ hmem))
  refine ⟨hlt, ?_⟩
  intro found hfound
  by_cases hid : other = id
  · -- both references would be to the object the frame was suspended on
    subst hid
    obtain ⟨hown, howned⟩ := hserves.suspended other object stamp
      (htargets.symm.subset (List.mem_cons_self ..))
    obtain ⟨_, _, _, -, hpoint, -⟩ := hframe old hold
    obtain ⟨_, _, _, -, hpoint', -⟩ := howned old hold
    rw [hpoint] at hpoint'
    simp only [SuspendPoint.onAwaitable.injEq] at hpoint'
    obtain ⟨rfl, -, -⟩ := hpoint'
    exact absurd (List.mem_map.mpr ⟨_, hmem, rfl⟩) hdistinct.1
  · rw [set_frames_of_ne heap hid] at hfound
    exact hframe found hfound

/-! ## Frames on the driving thread -/

/-- These frames, each once, are neither suspended nor finished. -/
structure Runs (heap : Heap P) (running : List FrameId) : Prop where
  active : ∀ id ∈ running, id < heap.next ∧ ∀ frame, heap.frames id = some frame →
    frame.point = .running
  once : running.Nodup

theorem Runs.sublist
    {heap : Heap P} {running running' : List FrameId} (hruns : heap.Runs running)
    (hsub : running' <+ running) : heap.Runs running' :=
  ⟨fun id hid => hruns.active id (hsub.subset hid), hruns.once.sublist hsub⟩

theorem Runs.remains
    {heap heap' : Heap P} {running : List FrameId} (hruns : heap.Runs running)
    (hremains : heap.Remains heap') : heap'.Runs running := by
  refine ⟨?_, hruns.once⟩
  intro id hid
  obtain ⟨hlt, hactive⟩ := hruns.active id hid
  refine ⟨by rwa [hremains.next], ?_⟩
  intro frame hframe
  exact hactive frame (hremains.some hframe)

theorem Runs.add
    {heap : Heap P} {running : List FrameId} (hruns : heap.Runs running)
    (frame : Frame P) : (heap.add frame).Runs running := by
  refine ⟨?_, hruns.once⟩
  intro id hid
  obtain ⟨hlt, hactive⟩ := hruns.active id hid
  refine ⟨Nat.lt_succ_of_lt hlt, ?_⟩
  intro found hfound
  rw [add_frames_of_ne heap (Nat.ne_of_lt hlt)] at hfound
  exact hactive found hfound

theorem Runs.push
    {heap : Heap P} {running : List FrameId} (hruns : heap.Runs running)
    {frame : Frame P} (hframe : frame.point = .running) :
    (heap.add frame).Runs (heap.next :: running) := by
  constructor
  · intro id hid
    rcases List.mem_cons.mp hid with rfl | hid
    · refine ⟨Nat.lt_succ_self _, ?_⟩
      intro found hfound
      rw [add_frames_next] at hfound
      simp only [Option.some.injEq] at hfound
      subst hfound
      exact hframe
    · exact (hruns.add frame).active id hid
  · refine List.nodup_cons.mpr ⟨?_, hruns.once⟩
    intro hmem
    exact absurd (hruns.active _ hmem).1 (Nat.lt_irrefl _)

theorem Runs.set
    {heap : Heap P} {running : List FrameId} (hruns : heap.Runs running)
    {id : FrameId} (hid : id ∉ running) (new : Frame P) :
    (heap.set id new).Runs running := by
  refine ⟨?_, hruns.once⟩
  intro other hother
  obtain ⟨hlt, hactive⟩ := hruns.active other hother
  refine ⟨hlt, ?_⟩
  intro frame hframe
  have hne : other ≠ id := fun heq => hid (heq ▸ hother)
  rw [set_frames_of_ne heap hne] at hframe
  exact hactive frame hframe

theorem Runs.setRunning
    {heap : Heap P} {running : List FrameId} (hruns : heap.Runs running)
    {id : FrameId} (hid : id ∉ running) (hlt : id < heap.next) {new : Frame P}
    (hnew : new.point = .running) : (heap.set id new).Runs (id :: running) := by
  constructor
  · intro other hother
    rcases List.mem_cons.mp hother with rfl | hother
    · refine ⟨hlt, ?_⟩
      intro frame hframe
      rw [set_frames_self] at hframe
      simp only [Option.some.injEq] at hframe
      subst hframe
      exact hnew
    · exact (hruns.set hid new).active other hother
  · exact List.nodup_cons.mpr ⟨hid, hruns.once⟩

theorem Runs.not_mem
    {heap : Heap P} {running : List FrameId} (hruns : heap.Runs running)
    {id : FrameId} {frame : Frame P} (hframe : heap.frames id = some frame)
    (hpoint : frame.point ≠ .running) : id ∉ running :=
  fun hmem => hpoint ((hruns.active id hmem).2 frame hframe)

theorem Runs.tail
    {heap : Heap P} {id : FrameId} {rest : List FrameId}
    (hruns : heap.Runs (id :: rest)) : heap.Runs rest ∧ id ∉ rest :=
  ⟨hruns.sublist (List.sublist_cons_self _ _), (List.nodup_cons.mp hruns.once).1⟩

end Heap

/-! ## The invariant -/

/-- What every reachable state satisfies about its frames. -/
structure FrameInvariant (s : Scheduler P) : Prop where
  ring : RingInvariant s
  linked : s.heap.Linked
  serves : s.heap.Serves s.io.targets
  runs : s.crash = none → s.heap.Runs (runningFrames s.stack)

namespace FrameInvariant

theorem initial
    {io : IoState} (hfresh : io.Fresh) (fd : Int32) (addr : UInt64) :
    FrameInvariant (Scheduler.initial P io fd addr) := by
  have hnone : (Scheduler.initial P io fd addr).io.targets = [] := by
    simp [Scheduler.initial, IoState.targets, IoState.outstanding, IoState.ledger,
      SubmissionQueue.pendingSqes, SubmissionQueue.pending, hfresh.sqEmpty,
      hfresh.kernel, hfresh.posted]
  constructor
  · exact .initial hfresh fd addr
  · exact ⟨fun _ _ => rfl, by simp [Scheduler.initial, Heap.empty]⟩
  · rw [hnone]
    exact ⟨by simp, List.nodup_nil⟩
  · intro _
    exact ⟨by simp [Scheduler.initial, runningFrames], List.nodup_nil⟩

theorem point_of_running
    {s : Scheduler P} (hinv : FrameInvariant s) (hcrash : s.crash = none)
    {id : FrameId} {rest : List FrameId} {frame : Frame P}
    (hrunning : runningFrames s.stack = id :: rest)
    (hframe : s.heap.frames id = some frame) : frame.point = .running :=
  ((hinv.runs hcrash).active id (by simp [hrunning])).2 frame hframe

theorem target_of_loop
    {s : Scheduler P} (hinv : FrameInvariant s) {current tail : UInt32}
    {rest : List (Activation P)} {id object : ℕ}
    (hstack : s.stack = .drain (.loop current tail) :: rest) (hmore : current ≠ tail)
    (hcqe : (s.io.cq.read current).userData = .awaitable id object) :
    ∃ targets, s.io.targets ~ (s.io.cq.read current).ref :: targets := by
  have hloop := hinv.ring.drainPoints_of_drain hstack
  have htargets := hinv.ring.targets_handle
    { s.io with handled := s.io.handled + 1 } hloop hmore rfl rfl rfl rfl
  have htarget : [(s.io.cq.read current).ref].filter
      (fun ref => ref.userData.isAwaitable) = [(s.io.cq.read current).ref] := by
    simp [Cqe.ref, hcqe, UserData.isAwaitable]
  rw [htarget, List.singleton_append] at htargets
  exact ⟨_, htargets⟩

/-- The frame a completion is for is resumed with the result it carries. -/
theorem resumed_frame
    {s : Scheduler P} (hinv : FrameInvariant s) {ref : Ref} {targets : List Ref}
    (htargets : s.io.targets ~ ref :: targets)
    {id object handle awaited : ℕ} {frame awaiting : Frame P}
    {awt awaitedAwt : Awaitable} {stamp : Stamp} {resume : Int32 → P.Code} {res : Int32}
    (href : ref.userData = .awaitable id object)
    (hframe : s.heap.frames id = some frame)
    (hobject : frame.objects object = some awt) (hhandle : awt.handle = some handle)
    (hawaiting : (s.heap.set id (frame.storeResult object awt res)).frames handle =
      some awaiting)
    (hpoint : awaiting.point = .onAwaitable awaited stamp resume)
    (hawaited : awaiting.objects awaited = some awaitedAwt) :
    handle = id ∧ awaited = object ∧ awaiting = frame.storeResult object awt res ∧
      frame.point = .onAwaitable object stamp resume ∧ ref.stamp = some stamp ∧
      awaitedAwt.awaitResume = res := by
  obtain ⟨userData, refStamp⟩ := ref
  simp only at href
  subst href
  obtain ⟨-, hsuspended⟩ := hinv.serves.suspended id object refStamp
    (htargets.symm.subset (List.mem_cons_self ..))
  obtain ⟨await, resume', awt', hstamp, hpoint', hobject', hhandle'⟩ :=
    hsuspended frame hframe
  rw [hobject] at hobject'
  simp only [Option.some.injEq] at hobject'
  subst hobject'
  rw [hhandle] at hhandle'
  simp only [Option.some.injEq] at hhandle'
  subst hhandle'
  rw [Heap.set_frames_self] at hawaiting
  simp only [Option.some.injEq] at hawaiting
  subst hawaiting
  have hsame : (frame.storeResult object awt res).point = frame.point := rfl
  rw [hsame, hpoint'] at hpoint
  simp only [SuspendPoint.onAwaitable.injEq] at hpoint
  obtain ⟨rfl, rfl, rfl⟩ := hpoint
  refine ⟨rfl, rfl, rfl, hpoint', hstamp, ?_⟩
  simp only [Frame.storeResult, Function.update_self, Option.some.injEq] at hawaited
  subst hawaited
  rfl

theorem step
    {s next : Scheduler P} (hinv : FrameInvariant s) (hcrash : s.crash = none)
    {label : Label P} (hmove : Scheduler.Move s label next) : FrameInvariant next := by
  have hring := hinv.ring.step hmove
  have hruns := hinv.runs hcrash
  cases hmove.frameStep hinv.ring with
  | same hheap _ hrunning htargets =>
      refine ⟨hring, hinv.linked.remains hheap, ?_, ?_⟩
      · exact (hinv.serves.subperm htargets).remains hheap
      · intro hnone
        exact (hruns.sublist (hrunning hnone)).remains hheap
  | drop task _ hheap hrunning hio =>
      have hremains : s.heap.Remains next.heap := by
        rw [hheap]
        exact .destroyFrom _ _ _
      refine ⟨hring, hinv.linked.remains hremains, ?_, ?_⟩
      · rw [hio]
        exact hinv.serves.remains hremains
      · intro _
        rw [hrunning]
        exact hruns.remains hremains
  | create body root hheap hrunning hio =>
      refine ⟨hring, ?_, ?_, ?_⟩
      · rw [hheap]
        exact hinv.linked.add (by simp [Heap.newFrame])
      · rw [hheap, hio]
        exact hinv.serves.add _
      · intro _
        rw [hheap, hrunning]
        exact hruns.add _
  | start hheap hrunning hio =>
      refine ⟨hring, ?_, ?_, ?_⟩
      · rw [hheap]
        exact hinv.linked.add (by simp [Heap.newFrame])
      · rw [hheap, hio]
        exact hinv.serves.add _
      · intro _
        rw [hheap, hrunning]
        exact hruns.push rfl
  | refuse id frame objects rest hbefore hframe hheap hrunning hio =>
      have hpoint := hinv.point_of_running hcrash hbefore hframe
      rw [hbefore] at hruns
      refine ⟨hring, ?_, ?_, ?_⟩
      · rw [hheap]
        exact hinv.linked.set hframe (by simp [hpoint]) rfl
      · rw [hheap, hio]
        exact hinv.serves.set hframe (by simp [hpoint]) _
      · intro _
        rw [hheap, hrunning, hbefore]
        exact hruns.tail.1.setRunning hruns.tail.2 (hinv.linked.lt hframe) hpoint
  | stage id object frame awt stamp resume rest hbefore hframe hhandle hheap hrunning
      htargets =>
      have hpoint := hinv.point_of_running hcrash hbefore hframe
      rw [hbefore] at hruns
      refine ⟨hring, ?_, ?_, ?_⟩
      · rw [hheap]
        exact hinv.linked.set hframe (by simp [hpoint]) rfl
      · rw [hheap]
        refine hinv.serves.stage hinv.linked hframe hpoint ?_ htargets
        exact ⟨stamp, resume, awt, rfl, rfl, by simp, hhandle⟩
      · intro _
        rw [hheap, hrunning]
        exact hruns.tail.1.set hruns.tail.2 _
  | awaitTask id frame type inner resume rest hbefore hframe hheap hrunning hio =>
      have hpoint := hinv.point_of_running hcrash hbefore hframe
      have hlt := hinv.linked.lt hframe
      rw [hbefore] at hruns
      refine ⟨hring, ?_, ?_, ?_⟩
      · rw [hheap]
        exact hinv.linked.coAwaitTask hframe (by simp [hpoint]) _ _ _
      · rw [hheap, hio, Heap.coAwaitTask_eq_add _ (Nat.ne_of_lt hlt)]
        exact (hinv.serves.set hframe (by simp [hpoint]) _).add _
      · intro _
        rw [hheap, hrunning, Heap.coAwaitTask_eq_add _ (Nat.ne_of_lt hlt)]
        exact (hruns.tail.1.set hruns.tail.2 _).push rfl
  | finish id frame outcome rest hbefore hframe hheap hrunning hio =>
      have hpoint := hinv.point_of_running hcrash hbefore hframe
      rw [hbefore] at hruns
      refine ⟨hring, ?_, ?_, ?_⟩
      · rw [hheap]
        exact hinv.linked.set hframe (by simp [hpoint])
          (Heap.complete_continuation frame outcome)
      · rw [hheap, hio]
        exact hinv.serves.set hframe (by simp [hpoint]) _
      · intro hnone
        rw [hheap, hrunning hnone]
        exact hruns.tail.1.set hruns.tail.2 _
  | finishInner id awaiting frame outcome code rest hbefore hframe hinner hresume hrunning
      hio =>
      have hpoint := hinv.point_of_running hcrash hbefore hframe
      rw [hbefore] at hruns
      have hlinked := hinv.linked.set hframe (by simp [hpoint])
        (Heap.complete_continuation frame outcome)
      have hserves := hinv.serves.set hframe (by simp [hpoint]) (frame.complete outcome)
      have hothers := hruns.tail.1.set hruns.tail.2 (frame.complete outcome)
      obtain ⟨outer, resume, result, houter, hawaits, -, -, hheap⟩ :=
        hlinked.resumeAwaiting (Heap.set_frames_self _ _ _)
          ((Heap.complete_continuation frame outcome).trans hinner) hresume
      have hne : id ≠ awaiting := by
        rintro rfl
        rw [Heap.set_frames_self] at houter
        simp only [Option.some.injEq] at houter
        rw [← houter, Heap.complete_point] at hawaits
        simp at hawaits
      have herased := Heap.Remains.erase (s.heap.set id (frame.complete outcome)) id
      have hkept : ((s.heap.set id (frame.complete outcome)).erase id).frames awaiting =
          some outer := by
        rw [Heap.erase_frames_of_ne _ hne.symm, houter]
      refine ⟨hring, ?_, ?_, ?_⟩
      · rw [hheap]
        exact hlinked.handOver hne houter hawaits
      · rw [hheap, hio]
        exact (hserves.remains herased).set hkept (by simp [hawaits]) _
      · intro _
        rw [hheap, hrunning]
        refine (hothers.remains herased).setRunning ?_ ?_ rfl
        · exact (hothers.remains herased).not_mem hkept (by simp [hawaits])
        · exact hlinked.lt houter
  | resume cqe id object handle awaited frame awaiting awt awaitedAwt stamp resume hcqe
      hframe hobject hhandle hawaiting hpoint hawaited hheap hrunning htargets =>
      obtain ⟨rfl, rfl, rfl, hsuspended, hstamp, -⟩ := hinv.resumed_frame htargets hcqe
        hframe hobject hhandle hawaiting hpoint hawaited
      rw [Heap.set_set] at hheap
      have href : cqe.ref = ⟨.awaitable handle awaited, some stamp⟩ := by
        rw [← hstamp, ← hcqe]
        rfl
      rw [href] at htargets
      refine ⟨hring, ?_, ?_, ?_⟩
      · rw [hheap]
        exact hinv.linked.set hframe (by simp [hsuspended]) rfl
      · rw [hheap]
        exact hinv.serves.resume hframe htargets _
      · intro _
        rw [hheap, hrunning]
        refine hruns.setRunning ?_ (hinv.linked.lt hframe) rfl
        exact hruns.not_mem hframe (by simp [hsuspended])

theorem of_step
    {s next : Scheduler P} {label : Label P} (hinv : FrameInvariant s)
    (hstep : s.step label = some next) : FrameInvariant next := by
  obtain ⟨hcrash, hmove⟩ := Scheduler.move_of_step hstep
  exact hinv.step hcrash hmove

end FrameInvariant

end SlimCommonIo
