import SlimCommonIo.FrameInvariant

/-!
# The steps of one task

Whatever else runs on a scheduler, the frames of a task are changed by steps of
its own coroutines and by completions of its own operations only.  Every other
step leaves the task alone.
-/

namespace SlimCommonIo

variable {P : Program}

/-! ## The frames of a task -/

namespace Heap

/-- The frame, if it still exists, is a frame of the task with this type and
continuation, and has no outcome. -/
def Member (heap : Heap P) (task id : FrameId) (type : TaskType)
    (continuation : Option FrameId) : Prop :=
  ∀ frame, heap.frames id = some frame →
    frame.root = task ∧ frame.type = type ∧ frame.promise = { continuation := continuation }

/-- `AwaitedBy heap task id type awaiting ids`: the frame `id` of the task is
awaited by frames which go on with the continuations in `awaiting`; `ids` are
these frames, beginning with `id` and ending with the task's own. -/
inductive AwaitedBy (heap : Heap P) (task : FrameId) : FrameId → TaskType →
    List (TaskType × (P.Outcome → P.Code)) → List FrameId → Prop
  | outermost {type : TaskType} (hmember : heap.Member task task type none) :
      AwaitedBy heap task task type [] [task]
  | inner {id outer : FrameId} {type outerType : TaskType} {resume : P.Outcome → P.Code}
      {awaiting : List (TaskType × (P.Outcome → P.Code))} {ids : List FrameId}
      (hlt : outer < id) (hmember : heap.Member task id type (some outer))
      (hpoint : ∀ frame, heap.frames outer = some frame → frame.point = .onTask id resume)
      (houter : AwaitedBy heap task outer outerType awaiting ids) :
      AwaitedBy heap task id type ((outerType, resume) :: awaiting) (id :: ids)

variable {heap heap' : Heap P} {task id : FrameId} {type : TaskType}
  {awaiting : List (TaskType × (P.Outcome → P.Code))} {ids : List FrameId}

theorem AwaitedBy.mem_self
    (hchain : heap.AwaitedBy task id type awaiting ids) : id ∈ ids := by
  cases hchain with
  | outermost _ => exact List.mem_singleton_self _
  | inner _ _ _ _ => exact List.mem_cons_self ..

theorem AwaitedBy.mem_outermost
    (hchain : heap.AwaitedBy task id type awaiting ids) : task ∈ ids := by
  induction hchain with
  | outermost _ => exact List.mem_singleton_self _
  | inner _ _ _ _ ih => exact List.mem_cons_of_mem _ ih

theorem AwaitedBy.le
    (hchain : heap.AwaitedBy task id type awaiting ids) :
    ∀ other ∈ ids, task ≤ other ∧ other ≤ id := by
  induction hchain with
  | outermost _ =>
      intro other hother
      rw [List.mem_singleton.mp hother]
      exact ⟨Nat.le_refl _, Nat.le_refl _⟩
  | inner hlt _ _ houter ih =>
      intro other hother
      rcases List.mem_cons.mp hother with rfl | hother
      · have hself := ih _ houter.mem_self
        exact ⟨Nat.le_trans hself.1 (Nat.le_of_lt hlt), Nat.le_refl _⟩
      · obtain ⟨hroot, hle⟩ := ih other hother
        exact ⟨hroot, Nat.le_trans hle (Nat.le_of_lt hlt)⟩

theorem AwaitedBy.root
    (hchain : heap.AwaitedBy task id type awaiting ids) {other : FrameId}
    (hother : other ∈ ids) {frame : Frame P} (hframe : heap.frames other = some frame) :
    frame.root = task := by
  induction hchain with
  | outermost hmember =>
      rw [List.mem_singleton.mp hother] at hframe
      exact (hmember frame hframe).1
  | inner _ hmember _ _ ih =>
      rcases List.mem_cons.mp hother with rfl | hother
      · exact (hmember frame hframe).1
      · exact ih hother

theorem AwaitedBy.eq_of_point
    (hchain : heap.AwaitedBy task id type awaiting ids) {other : FrameId}
    (hother : other ∈ ids) {frame : Frame P} (hframe : heap.frames other = some frame)
    (hpoint : ∀ inner resume, frame.point ≠ .onTask inner resume) : other = id := by
  induction hchain with
  | outermost _ => exact List.mem_singleton.mp hother
  | inner _ _ houterPoint _ ih =>
      rcases List.mem_cons.mp hother with rfl | hother
      · rfl
      · have heq := ih hother
        subst heq
        exact absurd (houterPoint frame hframe) (hpoint _ _)

theorem AwaitedBy.mem_inner
    (hchain : heap.AwaitedBy task id type awaiting ids) {other inner : FrameId}
    (hother : other ∈ ids) {frame : Frame P} (hframe : heap.frames other = some frame)
    {resume : P.Outcome → P.Code} (hpoint : frame.point = .onTask inner resume) :
    other = id ∨ inner ∈ ids := by
  induction hchain with
  | outermost _ => exact .inl (List.mem_singleton.mp hother)
  | inner _ _ houterPoint _ ih =>
      rcases List.mem_cons.mp hother with rfl | hother
      · exact .inl rfl
      · rcases ih hother with rfl | hmem
        · rw [houterPoint frame hframe, SuspendPoint.onTask.injEq] at hpoint
          exact .inr (by simp [hpoint.1])
        · exact .inr (List.mem_cons_of_mem _ hmem)

theorem AwaitedBy.kept
    (hchain : heap.AwaitedBy task id type awaiting ids)
    (hkept : ∀ other ∈ ids, heap'.frames other = none ∨
      heap'.frames other = heap.frames other) :
    heap'.AwaitedBy task id type awaiting ids := by
  have hsome : ∀ other ∈ ids, ∀ frame, heap'.frames other = some frame →
      heap.frames other = some frame := by
    intro other hother frame hframe
    rcases hkept other hother with hnone | heq
    · simp [hnone] at hframe
    · rw [← heq, hframe]
  clear hkept
  induction hchain with
  | outermost hmember =>
      exact .outermost fun frame hframe =>
        hmember frame (hsome _ (List.mem_singleton_self _) frame hframe)
  | @inner id outer type outerType resume awaiting ids hlt hmember hpoint houter ih =>
      refine .inner hlt ?_ ?_ (ih fun other hother => hsome other (List.mem_cons_of_mem _ hother))
      · exact fun frame hframe => hmember frame (hsome _ (List.mem_cons_self ..) frame hframe)
      · intro frame hframe
        exact hpoint frame (hsome _ (List.mem_cons_of_mem _ houter.mem_self) frame hframe)

theorem AwaitedBy.set
    (hchain : heap.AwaitedBy task id type awaiting ids) {old new : Frame P}
    (hold : heap.frames id = some old) (hroot : new.root = old.root)
    (htype : new.type = old.type) (hpromise : new.promise = old.promise) :
    (heap.set id new).AwaitedBy task id type awaiting ids := by
  have hmember : ∀ {continuation}, heap.Member task id type continuation →
      (heap.set id new).Member task id type continuation := by
    intro continuation hmember frame hframe
    rw [set_frames_self, Option.some.injEq] at hframe
    rw [← hframe, hroot, htype, hpromise]
    exact hmember old hold
  cases hchain with
  | outermost hself => exact .outermost (hmember hself)
  | @inner _ outer _ outerType resume awaiting ids hlt hself hpoint houter =>
      have hne : ∀ other ∈ ids, other ≠ id := by
        intro other hother
        exact Nat.ne_of_lt (Nat.lt_of_le_of_lt (houter.le other hother).2 hlt)
      refine .inner hlt (hmember hself) ?_ (houter.kept ?_)
      · intro frame hframe
        rw [set_frames_of_ne heap (hne _ houter.mem_self)] at hframe
        exact hpoint frame hframe
      · intro other hother
        exact .inr (set_frames_of_ne heap (hne other hother) new)

/-- A younger frame ends and disappears, and the innermost frame runs on. -/
theorem AwaitedBy.handOver
    (hchain : heap.AwaitedBy task id type awaiting ids) {ended : FrameId} (hlt : id < ended)
    {outer : Frame P} (houter : heap.frames id = some outer) (last : Frame P) :
    (((heap.set ended last).erase ended).set id { outer with point := .running }).AwaitedBy
      task id type awaiting ids := by
  have hkept : ∀ other ∈ ids,
      ((heap.set ended last).erase ended).frames other = heap.frames other := by
    intro other hother
    have hne : other ≠ ended :=
      Nat.ne_of_lt (Nat.lt_of_le_of_lt (hchain.le other hother).2 hlt)
    rw [erase_frames_of_ne _ hne, set_frames_of_ne _ hne]
  have hbefore : ((heap.set ended last).erase ended).AwaitedBy task id type awaiting ids :=
    hchain.kept fun other hother => .inr (hkept other hother)
  exact hbefore.set ((hkept id hchain.mem_self).trans houter) rfl rfl rfl

end Heap

/-! ## What the history says of a task -/

def receivedBy (task : FrameId) (log : List (Event P)) : List Int32 :=
  log.filterMap fun event =>
    match event with
    | .awaited other (some _) value => if other = task then some value else none
    | _ => none

/-- The outcomes with which the outermost body of the task has ended. -/
def outcomesOf (task : FrameId) (log : List (Event P)) : List P.Outcome :=
  log.filterMap fun event =>
    match event with
    | .finished frame outcome => if frame = task then some outcome else none
    | _ => none

theorem mem_outcomesOf
    {task : FrameId} {log : List (Event P)} {outcome : P.Outcome} :
    outcome ∈ outcomesOf task log ↔ .finished task outcome ∈ log := by
  unfold outcomesOf
  rw [List.mem_filterMap]
  constructor
  · rintro ⟨event, hevent, heq⟩
    split at heq
    next frame other =>
      split at heq
      next hframe =>
        rw [Option.some.injEq] at heq
        rw [← hframe, ← heq]
        exact hevent
      next => simp at heq
    next => simp at heq
  · intro hmem
    exact ⟨_, hmem, by simp⟩

/-- The event is neither a result handed to the task nor its end. -/
def Event.foreign (task : FrameId) : Event P → Prop
  | .awaited other _ _ => other ≠ task
  | .finished frame _ => frame ≠ task
  | _ => True

theorem receivedBy_append_foreign
    {task : FrameId} (log : List (Event P)) {events : List (Event P)}
    (hforeign : ∀ event ∈ events, event.foreign task) :
    receivedBy task (log ++ events) = receivedBy task log := by
  have hnone : receivedBy task events = [] := by
    refine List.filterMap_eq_nil_iff.mpr ?_
    intro event hevent
    have hother := hforeign event hevent
    cases event with
    | awaited other stamp value =>
        cases stamp <;> simp [show other ≠ task from hother]
    | _ => rfl
  have happend : receivedBy task (log ++ events) =
      receivedBy task log ++ receivedBy task events := List.filterMap_append
  rw [happend, hnone, List.append_nil]

theorem outcomesOf_append_foreign
    {task : FrameId} (log : List (Event P)) {events : List (Event P)}
    (hforeign : ∀ event ∈ events, event.foreign task) :
    outcomesOf task (log ++ events) = outcomesOf task log := by
  have hnone : outcomesOf task events = [] := by
    refine List.filterMap_eq_nil_iff.mpr ?_
    intro event hevent
    have hother := hforeign event hevent
    cases event with
    | finished frame outcome => simp [show frame ≠ task from hother]
    | _ => rfl
  have happend : outcomesOf task (log ++ events) =
      outcomesOf task log ++ outcomesOf task events := List.filterMap_append
  rw [happend, hnone, List.append_nil]

theorem receivedBy_append_awaited
    (task : FrameId) (log : List (Event P)) (stamp : Stamp) (value : Int32) :
    receivedBy task (log ++ [.awaited task (some stamp) value]) =
      receivedBy task log ++ [value] := by
  simp [receivedBy]

theorem receivedBy_append_finished
    (task frame : FrameId) (log : List (Event P)) (outcome : P.Outcome) :
    receivedBy task (log ++ [.finished frame outcome]) = receivedBy task log := by
  simp [receivedBy]

theorem outcomesOf_append_finished
    (task : FrameId) (log : List (Event P)) (outcome : P.Outcome) :
    outcomesOf task (log ++ [.finished task outcome]) = outcomesOf task log ++ [outcome] := by
  simp [outcomesOf]

theorem outcomesOf_append_awaited
    (task other : FrameId) (log : List (Event P)) (stamp : Option Stamp) (value : Int32) :
    outcomesOf task (log ++ [.awaited other stamp value]) = outcomesOf task log := by
  simp [outcomesOf]

/-! ## Steps which do not concern a task -/

namespace Heap

variable {task : FrameId} {heap heap' heap'' : Heap P}

/-- The frame, if it still exists, belongs to the task. -/
def BelongsTo (heap : Heap P) (task id : FrameId) : Prop :=
  id < heap.next ∧ ∀ frame, heap.frames id = some frame → frame.root = task

theorem not_belongsTo
    {id : FrameId} {frame : Frame P} (hframe : heap.frames id = some frame)
    (hother : frame.root ≠ task) : ¬ heap.BelongsTo task id :=
  fun hbelongs => hother (hbelongs.2 frame hframe)

structure LeavesFrames (task : FrameId) (heap heap' : Heap P) : Prop where
  kept : ∀ id, heap.BelongsTo task id →
    heap'.frames id = none ∨ heap'.frames id = heap.frames id
  fresh : ∀ id frame, heap'.frames id = some frame → frame.root = task →
    heap.frames id = some frame
  bound : heap.next ≤ heap'.next

theorem LeavesFrames.trans
    (hfirst : LeavesFrames task heap heap') (hsecond : LeavesFrames task heap' heap'') :
    LeavesFrames task heap heap'' := by
  refine ⟨?_, ?_, Nat.le_trans hfirst.bound hsecond.bound⟩
  · intro id hbelongs
    have hbelongs' : heap'.BelongsTo task id := by
      refine ⟨Nat.lt_of_lt_of_le hbelongs.1 hfirst.bound, ?_⟩
      intro frame hframe
      rcases hfirst.kept id hbelongs with hnone | heq
      · simp [hnone] at hframe
      · exact hbelongs.2 frame (by rw [← heq, hframe])
    rcases hsecond.kept id hbelongs' with hnone | heq
    · exact .inl hnone
    · rw [heq]
      exact hfirst.kept id hbelongs
  · intro id frame hframe hroot
    exact hfirst.fresh id frame (hsecond.fresh id frame hframe hroot) hroot

theorem LeavesFrames.remains (hremains : heap.Remains heap') :
    LeavesFrames task heap heap' :=
  ⟨fun id _ => hremains.frames id, fun _ _ hframe _ => hremains.some hframe,
    hremains.next.ge⟩

theorem LeavesFrames.set
    {id : FrameId} {old new : Frame P} (hold : heap.frames id = some old)
    (hother : old.root ≠ task) (hroot : new.root = old.root) :
    LeavesFrames task heap (heap.set id new) := by
  refine ⟨?_, ?_, Nat.le_refl _⟩
  · intro other hbelongs
    have hne : other ≠ id := by
      rintro rfl
      exact not_belongsTo hold hother hbelongs
    exact .inr (set_frames_of_ne heap hne new)
  · intro other frame hframe hown
    have hne : other ≠ id := by
      rintro rfl
      rw [set_frames_self, Option.some.injEq] at hframe
      exact hother (by rw [← hroot, hframe, hown])
    rwa [set_frames_of_ne heap hne] at hframe

theorem LeavesFrames.add
    {new : Frame P} (hother : new.root ≠ task) : LeavesFrames task heap (heap.add new) := by
  refine ⟨?_, ?_, Nat.le_succ _⟩
  · intro id hbelongs
    exact .inr (add_frames_of_ne heap (Nat.ne_of_lt hbelongs.1) new)
  · intro id frame hframe hown
    have hne : id ≠ heap.next := by
      rintro rfl
      rw [add_frames_next, Option.some.injEq] at hframe
      exact hother (hframe ▸ hown)
    rwa [add_frames_of_ne heap hne] at hframe

/-- The outermost frame of the task belongs to it, and its frames await only
frames of the task. -/
structure AwaitsOwn (heap : Heap P) (task : FrameId) : Prop where
  outermost : ∀ frame, heap.frames task = some frame → frame.root = task
  inner : ∀ id outer inner frame resume, heap.frames id = some outer → outer.root = task →
    outer.point = .onTask inner resume → heap.frames inner = some frame → frame.root = task

theorem AwaitsOwn.ne
    {id : FrameId} {frame : Frame P} (hown : heap.AwaitsOwn task)
    (hframe : heap.frames id = some frame) (hother : frame.root ≠ task) : id ≠ task := by
  rintro rfl
  exact hother (hown.outermost frame hframe)

end Heap

/-- The activations of the task's coroutines come from those before. -/
def CodesFrom (task : FrameId) (s : Scheduler P) (stack : List (Activation P)) : Prop :=
  (∀ id code, s.heap.BelongsTo task id → .coroutine id code ∈ stack →
    .coroutine id code ∈ s.stack ∨ ∃ resume, .coroutineInSpawn id resume ∈ s.stack) ∧
  ∀ id resume, s.heap.BelongsTo task id → .coroutineInSpawn id resume ∈ stack →
    .coroutineInSpawn id resume ∈ s.stack

/-- The step neither changes a frame of the task, nor creates one, nor lets one
run, and adds nothing to its history. -/
structure LeavesAlone (task : FrameId) (s next : Scheduler P) : Prop where
  frames : Heap.LeavesFrames task s.heap next.heap
  codes : CodesFrom task s next.stack
  ordinals : next.ordinals task = s.ordinals task
  events : ∃ events, next.log = s.log ++ events ∧ ∀ event ∈ events, event.foreign task

namespace LeavesAlone

variable {task : FrameId} {s next : Scheduler P}

theorem received (hleaves : LeavesAlone task s next) :
    receivedBy task next.log = receivedBy task s.log := by
  obtain ⟨events, hlog, hforeign⟩ := hleaves.events
  rw [hlog, receivedBy_append_foreign _ hforeign]

theorem outcomes (hleaves : LeavesAlone task s next) :
    outcomesOf task next.log = outcomesOf task s.log := by
  obtain ⟨events, hlog, hforeign⟩ := hleaves.events
  rw [hlog, outcomesOf_append_foreign _ hforeign]

end LeavesAlone

theorem CodesFrom.of_subset
    {task : FrameId} {s : Scheduler P} {stack : List (Activation P)}
    (hstack : ∀ act ∈ stack, act ∈ s.stack ∨ runningFrames [act] = []) :
    CodesFrom task s stack := by
  constructor
  · intro id code _ hmem
    rcases hstack _ hmem with hold | hnone
    · exact .inl hold
    · simp [runningFrames] at hnone
  · intro id resume _ hmem
    rcases hstack _ hmem with hold | hnone
    · exact hold
    · simp [runningFrames] at hnone

theorem CodesFrom.push
    {task : FrameId} {s : Scheduler P} {act : Activation P} {stack : List (Activation P)}
    (hact : ∀ id ∈ runningFrames [act], ¬ s.heap.BelongsTo task id)
    (hstack : CodesFrom task s stack) : CodesFrom task s (act :: stack) := by
  constructor
  · intro id code hbelongs hmem
    rcases List.mem_cons.mp hmem with heq | hrest
    · rw [← heq] at hact
      exact absurd hbelongs (hact id (by simp [runningFrames]))
    · exact hstack.1 id code hbelongs hrest
  · intro id resume hbelongs hmem
    rcases List.mem_cons.mp hmem with heq | hrest
    · rw [← heq] at hact
      exact absurd hbelongs (hact id (by simp [runningFrames]))
    · exact hstack.2 id resume hbelongs hrest

theorem CodesFrom.deliver
    {task : FrameId} {s : Scheduler P} {below stack : List (Activation P)}
    {status : Option ErrorStatus} (hdeliver : Scheduler.deliver status below = some stack)
    (hbelow : CodesFrom task s below) : CodesFrom task s stack := by
  unfold Scheduler.deliver at hdeliver
  split at hdeliver
  next =>
    rw [Option.some.injEq] at hdeliver
    subst hdeliver
    exact hbelow
  next entry resume rest =>
    rw [Option.some.injEq] at hdeliver
    subst hdeliver
    constructor
    · intro id code hbelongs hmem
      exact hbelow.1 id code hbelongs (by simpa using hmem)
    · intro id resume hbelongs hmem
      exact hbelow.2 id resume hbelongs (by simpa using hmem)
  next frame resume rest =>
    rw [Option.some.injEq] at hdeliver
    subst hdeliver
    constructor
    · intro id code hbelongs hmem
      rcases List.mem_cons.mp hmem with heq | hrest
      · obtain ⟨rfl, -⟩ := Activation.coroutine.inj heq
        exact .inr ⟨resume, hbelow.2 id resume hbelongs (List.mem_cons_self ..)⟩
      · exact hbelow.1 id code hbelongs (List.mem_cons_of_mem _ hrest)
    · intro id resume hbelongs hmem
      exact hbelow.2 id resume hbelongs
        (List.mem_cons_of_mem _ (by simpa using hmem))
  next => simp at hdeliver

theorem CodesFrom.rest
    {task : FrameId} {s : Scheduler P} {act : Activation P} {rest : List (Activation P)}
    (hstack : s.stack = act :: rest) : CodesFrom task s rest := by
  apply CodesFrom.of_subset
  intro other hother
  rw [hstack]
  exact .inl (List.mem_cons_of_mem _ hother)

namespace LeavesAlone

variable {task : FrameId} {s next : Scheduler P}

theorem exchange
    {act : Activation P} (top : List (Activation P)) {rest : List (Activation P)}
    (hstack : s.stack = act :: rest) (hnext : next.stack = top ++ rest)
    (htop : ∀ new ∈ top, runningFrames [new] = []) (hheap : s.heap.Remains next.heap)
    (hordinals : next.ordinals = s.ordinals)
    (hlog : ∃ events, next.log = s.log ++ events ∧ ∀ event ∈ events, event.foreign task) :
    LeavesAlone task s next := by
  refine ⟨.remains hheap, ?_, by rw [hordinals], hlog⟩
  rw [hnext]
  apply CodesFrom.of_subset
  intro new hnew
  rcases List.mem_append.mp hnew with hin | hrest
  · exact .inr (htop new hin)
  · rw [hstack]
    exact .inl (List.mem_cons_of_mem _ hrest)

theorem aside
    (hstack : ∀ act ∈ next.stack, act ∈ s.stack ∨ runningFrames [act] = [])
    (hheap : s.heap.Remains next.heap) (hordinals : next.ordinals = s.ordinals)
    (hlog : next.log = s.log) : LeavesAlone task s next :=
  ⟨.remains hheap, .of_subset hstack, by rw [hordinals], [], by simp [hlog], by simp⟩

theorem elsewhere
    {id : FrameId} {code : P.Code} {rest : List (Activation P)}
    (hstack : s.stack = .coroutine id code :: rest) (top : List (Activation P))
    (hnext : next.stack = top ++ rest)
    (htop : ∀ new ∈ top, ∀ other ∈ runningFrames [new], ¬ s.heap.BelongsTo task other)
    (hheap : Heap.LeavesFrames task s.heap next.heap)
    (hordinals : next.ordinals task = s.ordinals task)
    (hlog : ∃ events, next.log = s.log ++ events ∧ ∀ event ∈ events, event.foreign task) :
    LeavesAlone task s next := by
  refine ⟨hheap, ?_, hordinals, hlog⟩
  rw [hnext]
  clear hnext
  induction top with
  | nil => exact .rest hstack
  | cons new top ih =>
      rw [List.forall_mem_cons] at htop
      exact .push htop.1 (ih htop.2)

end LeavesAlone

/-- The steps of a task: of the coroutine of its on top of the stack, and the
completion of the operation it is suspended on. -/
inductive OwnMove (task : FrameId) (s next : Scheduler P) : Prop
  | goOn {id : FrameId} {code after : P.Code} {frame : Frame P}
      {rest : List (Activation P)} (hstack : s.stack = .coroutine id code :: rest)
      (hframe : s.heap.frames id = some frame) (hroot : frame.root = task)
      (hcode : (∃ visible, P.instr code = .effect visible after) ∨
        ∃ job, P.instr code = .post job after)
      (hheap : next.heap = s.heap) (top : List (Activation P))
      (hnext : next.stack = top ++ .coroutine id after :: rest)
      (htop : ∀ new ∈ top, runningFrames [new] = [])
      (hordinals : next.ordinals = s.ordinals)
      (hlog : ∃ events, next.log = s.log ++ events ∧ ∀ event ∈ events, event.foreign task)
  | refused {id : FrameId} {frame : Frame P} {value : Int32}
      (hframe : s.heap.frames id = some frame) (hroot : frame.root = task)
      (hmem : .awaited task none value ∈ next.log)
  | spawn {id : FrameId} {code body : P.Code} {frame : Frame P}
      {rest : List (Activation P)} {resume : Option ErrorStatus → P.Code}
      (hstack : s.stack = .coroutine id code :: rest)
      (hframe : s.heap.frames id = some frame) (hroot : frame.root = task)
      (hcode : P.instr code = .spawn body resume)
  | stage {id object : FrameId} {code : P.Code} {frame : Frame P}
      {rest : List (Activation P)} {construct : Option Awaitable}
      {resume : Int32 → P.Code} {objects : ℕ → Option Awaitable}
      (hstack : s.stack = .coroutine id code :: rest)
      (hframe : s.heap.frames id = some frame) (hroot : frame.root = task)
      (hcode : P.instr code = .coAwait object construct resume)
      (hheap : next.heap = s.heap.set id
        { frame with
          objects := objects
          point := .onAwaitable object ⟨task, s.ordinals task⟩ resume })
      (hnext : next.stack = rest)
      (hordinals : next.ordinals task = s.ordinals task + 1) (hlog : next.log = s.log)
  | awaitTask {id : FrameId} {code inner : P.Code} {frame : Frame P}
      {rest : List (Activation P)} {type : TaskType} {resume : P.Outcome → P.Code}
      (hstack : s.stack = .coroutine id code :: rest)
      (hframe : s.heap.frames id = some frame) (hroot : frame.root = task)
      (hcode : P.instr code = .coAwaitTask type inner resume)
      (hheap : next.heap = s.heap.coAwaitTask id frame type inner resume)
      (hnext : next.stack = .coroutine s.heap.next inner :: rest)
      (hordinals : next.ordinals = s.ordinals) (hlog : next.log = s.log)
  | endRoot {id : FrameId} {frame : Frame P} {outcome : P.Outcome}
      {rest : List (Activation P)} (hends : Scheduler.Ends s id frame rest outcome)
      (hroot : frame.root = task) (houtermost : frame.promise.continuation = none)
      (hheap : next.heap = s.heap.set id (frame.complete outcome))
      (hlog : next.log = s.log ++ [.finished id outcome])
  | endInner {id awaiting : FrameId} {frame : Frame P} {outcome : P.Outcome}
      {code : P.Code} {rest : List (Activation P)}
      (hends : Scheduler.Ends s id frame rest outcome) (hroot : frame.root = task)
      (hinner : frame.promise.continuation = some awaiting)
      (hresume : (s.heap.set id (frame.complete outcome)).resumeAwaiting awaiting =
        .resume next.heap awaiting code)
      (hnext : next.stack = .coroutine awaiting code :: rest)
      (hordinals : next.ordinals = s.ordinals)
      (hlog : next.log = s.log ++ [.finished id outcome])
  | endAstray {id awaiting : FrameId} {frame : Frame P} {outcome : P.Outcome}
      {rest : List (Activation P)} (hends : Scheduler.Ends s id frame rest outcome)
      (hroot : frame.root = task) (hinner : frame.promise.continuation = some awaiting)
      (hcrash : next.crash.isSome = true) (hlog : next.log = s.log ++ [.finished id outcome])
  | resume {id object : FrameId} {frame : Frame P} {stamp : Stamp} {cqe : Cqe}
      {resume : Int32 → P.Code} {objects : ℕ → Option Awaitable}
      {below : List (Activation P)}
      (hframe : s.heap.frames id = some frame) (hroot : frame.root = task)
      (hpoint : frame.point = .onAwaitable object stamp resume)
      (hposted : cqe ∈ s.io.posted) (hstamp : cqe.stamp = some stamp)
      (hheap : next.heap = s.heap.set id { frame with objects := objects, point := .running })
      (hnext : next.stack = .coroutine id (resume cqe.res) :: below)
      (hbelow : ∀ act ∈ below, act ∈ s.stack ∨ runningFrames [act] = [])
      (hordinals : next.ordinals = s.ordinals)
      (hlog : next.log = s.log ++ [.awaited task (some stamp) cqe.res])

theorem OwnMove.frame
    {task : FrameId} {s next : Scheduler P} (hmove : OwnMove task s next) :
    ∃ id frame, s.heap.frames id = some frame ∧ frame.root = task := by
  cases hmove with
  | refused hframe hroot _ | resume hframe hroot => exact ⟨_, _, hframe, hroot⟩
  | goOn _ hframe hroot | spawn _ hframe hroot | stage _ hframe hroot
  | awaitTask _ hframe hroot => exact ⟨_, _, hframe, hroot⟩
  | endRoot hends hroot | endInner hends hroot | endAstray hends hroot =>
      exact ⟨_, _, hends.frame, hroot⟩

namespace Scheduler

variable {task : FrameId} {s next : Scheduler P} {label : Label P}

/-- The coroutine calling `spawn` belongs to the task, or the call leaves the
stack of the task's coroutines alone. -/
theorem CallsSpawn.concerns
    {body : P.Code} {below : List (Activation P)} (hcall : CallsSpawn s label body below)
    (next : Scheduler P) : CodesFrom task s below ∨ OwnMove task s next := by
  cases hcall with
  | job hstack _ =>
      refine .inl (.push ?_ (.rest hstack))
      simp [SlimCommonIo.runningFrames]
  | @coroutine _ id _ _ frame _ _ hstack hframe hcode =>
      by_cases hroot : frame.root = task
      · exact .inr (.spawn hstack hframe hroot hcode)
      · refine .inl (.push ?_ (.rest hstack))
        intro other hother
        rw [List.mem_singleton.mp hother]
        exact Heap.not_belongsTo hframe hroot
  | client _ _ => exact .inl (.of_subset (by simp))

theorem Move.resumed_concerns
    {rest : List (Activation P)} {current tail : UInt32}
    {id object : ℕ} {frame : Frame P} {awt awaitedAwt : Awaitable} {handle awaited : ℕ}
    {awaiting : Frame P} {stamp : Stamp} {resume : Int32 → P.Code}
    (hinv : FrameInvariant s) (hstack : s.stack = .drain (.loop current tail) :: rest)
    (hmore : current ≠ tail)
    (hcqe : (s.io.cq.read current).userData = .awaitable id object)
    (hframe : s.heap.frames id = some frame) (hobject : frame.objects object = some awt)
    (hhandle : awt.handle = some handle)
    (hawaiting : (s.heap.set id (frame.storeResult object awt
      (s.io.cq.read current).res)).frames handle = some awaiting)
    (hpoint : awaiting.point = .onAwaitable awaited stamp resume)
    (hawaited : awaiting.objects awaited = some awaitedAwt)
    (hnext : next = s.afterResume
      (s.heap.set id (frame.storeResult object awt (s.io.cq.read current).res))
      handle awaiting stamp resume awaitedAwt.awaitResume
      (.drain (.resumed current tail) :: rest)) :
    LeavesAlone task s next ∨ OwnMove task s next := by
  have hloop := hinv.ring.drainPoints_of_drain hstack
  have hhead := hinv.ring.completion.drop_handled_of_loop hloop hmore
  obtain ⟨targets, htargets⟩ := hinv.target_of_loop hstack hmore hcqe
  obtain ⟨rfl, rfl, rfl, hsuspended, hstamp, hvalue⟩ := hinv.resumed_frame htargets hcqe
    hframe hobject hhandle hawaiting hpoint hawaited
  have hposted : s.io.cq.read current ∈ s.io.posted := by
    have hmem : s.io.cq.read current ∈ s.io.posted.drop s.io.handled := by
      rw [hhead]
      exact List.mem_cons_self ..
    exact List.mem_of_mem_drop hmem
  subst hnext
  by_cases hroot : frame.root = task
  · right
    have hbelow : ∀ act ∈ Activation.drain (.resumed current tail) :: rest,
        act ∈ s.stack ∨ runningFrames [act] = [] := by
      intro act hact
      rcases List.mem_cons.mp hact with rfl | hrest
      · exact .inr rfl
      · rw [hstack]
        exact .inl (List.mem_cons_of_mem _ hrest)
    subst hroot
    exact .resume hframe rfl hsuspended hposted hstamp (Heap.set_set ..)
      (by rw [← hvalue]; rfl) hbelow rfl (by rw [← hvalue]; rfl)
  · left
    refine ⟨?_, ?_, rfl, _, rfl, ?_⟩
    · simp only [afterResume, Heap.set_set]
      exact .set hframe hroot rfl
    · refine .push ?_ (.push (by simp [runningFrames]) (.rest hstack))
      intro other hother
      rw [List.mem_singleton.mp hother]
      exact Heap.not_belongsTo hframe hroot
    · intro event hevent
      rw [List.mem_singleton.mp hevent]
      exact hroot

theorem Ends.resumeAwaiting_leavesFrames
    {id awaiting : FrameId} {frame : Frame P} {outcome : P.Outcome} {heap : Heap P}
    {code : P.Code} (hinv : FrameInvariant s) (hpoint : frame.point = .running)
    (hown : s.heap.AwaitsOwn task) (hframe : s.heap.frames id = some frame)
    (hother : frame.root ≠ task) (hinner : frame.promise.continuation = some awaiting)
    (hresume : (s.heap.set id (frame.complete outcome)).resumeAwaiting awaiting =
      .resume heap awaiting code) :
    Heap.LeavesFrames task s.heap heap ∧ ¬ s.heap.BelongsTo task awaiting := by
  have hlinked := hinv.linked.set hframe (by simp [hpoint])
    (Heap.complete_continuation frame outcome)
  obtain ⟨outer, resume, result, houter, hawaits, -, -, rfl⟩ :=
    hlinked.resumeAwaiting (Heap.set_frames_self _ _ _)
      ((Heap.complete_continuation frame outcome).trans hinner) hresume
  have hne : awaiting ≠ id := by
    rintro rfl
    rw [Heap.set_frames_self, Option.some.injEq] at houter
    rw [← houter, Heap.complete_point] at hawaits
    simp at hawaits
  have hkept : ((s.heap.set id (frame.complete outcome)).erase id).frames awaiting =
      some outer := by
    rw [Heap.erase_frames_of_ne _ hne, houter]
  rw [Heap.set_frames_of_ne _ hne] at houter
  have houterRoot : outer.root ≠ task := fun hroot =>
    hother (hown.inner awaiting outer id frame resume houter hroot hawaits hframe)
  have hset : Heap.LeavesFrames task s.heap (s.heap.set id (frame.complete outcome)) :=
    .set hframe hother (Heap.complete_root frame outcome)
  refine ⟨(hset.trans (.remains (.erase _ id))).trans ?_, ?_⟩
  · exact .set hkept houterRoot rfl
  · exact Heap.not_belongsTo houter houterRoot

/-- A step is one of the task's own, or leaves the task alone. -/
theorem Move.concerns
    (hmove : Move s label next) (hinv : FrameInvariant s) (hcrash : s.crash = none)
    (hown : s.heap.AwaitsOwn task)
    (hborn : s.heap.next < next.heap.next → s.heap.next ≠ task) :
    LeavesAlone task s next ∨ OwnMove task s next := by
  have hquiet : ∃ events, s.log = s.log ++ events ∧
      ∀ event ∈ events, event.foreign task := ⟨[], by simp, by simp⟩
  have hadds : ∀ event : Event P, event.foreign task →
      ∃ events, s.log ++ [event] = s.log ++ events ∧
        ∀ event ∈ events, event.foreign task := by
    intro event hevent
    exact ⟨[event], rfl, by simpa using hevent⟩
  cases hmove with
  | leaveRun hstack _ | leaveShutdown hstack _ | destructor hstack | endLoop hstack
  | endInbox hstack | endJob hstack _ | eventfdWrite hstack =>
      exact .inl (.exchange [] hstack rfl (by simp) (.refl _) rfl hquiet)
  | reap hstack =>
      exact .inl (.exchange [] hstack rfl (by simp) (.foldl_erase _ _) rfl hquiet)
  | armedStart hstack _ | arm hstack _ | enter hstack _ _ _ | wake hstack _ | scan hstack
  | handleNull hstack _ _ | handleDangling hstack _ _ _ | resumed hstack | inboxDone hstack
  | swapInbox hstack | requeue hstack _ =>
      exact .inl (.exchange [_] hstack rfl (by simp [runningFrames]) (.refl _) rfl hquiet)
  | loopRun hstack _ | loopShutdown hstack _ =>
      exact .inl (.exchange [_, _, _] hstack rfl (by simp [runningFrames]) (.refl _) rfl
        hquiet)
  | handleSentinel hstack _ _ =>
      exact .inl (.exchange [_, _] hstack rfl (by simp [runningFrames]) (.refl _) rfl hquiet)
  | invoke hstack =>
      exact .inl (.exchange [_, _] hstack rfl (by simp [runningFrames]) (.refl _) rfl
        (hadds _ trivial))
  | escape _ _ => exact .inl (.aside (by simp) (.refl _) rfl rfl)
  | complete _ _ _ | enqueue _ | notify _ | requestStop _ _ | stopCallback _ _ _
  | foreignRefusal _ | callDestroy _ _ _ | astray _ _ =>
      exact .inl (.aside (fun _ hact => .inl hact) (.refl _) rfl rfl)
  | dropTask _ =>
      exact .inl (.aside (fun _ hact => .inl hact) (.destroyFrom _ _ _) rfl rfl)
  | callRun _ _ | callShutdown _ _ | callDestroyBusy _ _ _ =>
      exact .inl (.aside (by simp [runningFrames]) (.refl _) rfl rfl)
  | callResume _ _ =>
      have hother : s.heap.next ≠ task := hborn (by simp [Heap.create])
      left
      refine ⟨?_, ?_, rfl, hquiet⟩
      · rw [Heap.start_create_eq_add]
        exact .add hother
      · refine .push ?_ (.of_subset (by simp))
        intro id hid
        rw [List.mem_singleton.mp hid]
        exact fun hbelongs => absurd hbelongs.1 (Nat.lt_irrefl _)
  | handleAwaitable hstack hmore hcqe hframe hobject hhandle hawaiting hpoint hawaited =>
      exact resumed_concerns hinv hstack hmore hcqe hframe hobject hhandle hawaiting hpoint
        hawaited rfl
  | post hcall =>
      cases hcall with
      | job hstack _ =>
          exact .inl (.exchange [_, _] hstack rfl (by simp [runningFrames]) (.refl _) rfl
            hquiet)
      | @coroutine id _ _ _ _ frame hstack hframe hcode =>
          by_cases hroot : frame.root = task
          · exact .inr (.goOn hstack hframe hroot (.inr ⟨_, hcode⟩) rfl [.eventfdWrite] rfl
              (by simp [runningFrames]) rfl hquiet)
          · refine .inl (.elsewhere hstack [_, _] rfl ?_ (.remains (.refl _)) rfl hquiet)
            simpa [runningFrames] using Heap.not_belongsTo hframe hroot
  | spawnFull hcall _ hdeliver =>
      have hother : s.heap.next ≠ task := hborn (by simp [Heap.create])
      rcases hcall.concerns _ with hcodes | hspawn
      · exact .inl ⟨.add hother, hcodes.deliver hdeliver, rfl, hadds _ trivial⟩
      · exact .inr hspawn
  | spawnStart hcall _ =>
      have hother : s.heap.next ≠ task := hborn (by simp [Heap.create])
      rcases hcall.concerns _ with hcodes | hspawn
      · left
        refine ⟨?_, ?_, rfl, hadds _ trivial⟩
        · rw [Heap.start_create_eq_add]
          exact .add hother
        · refine .push ?_ (.push (by simp [runningFrames]) hcodes)
          intro id hid
          rw [List.mem_singleton.mp hid]
          exact fun hbelongs => absurd hbelongs.1 (Nat.lt_irrefl _)
      · exact .inr hspawn
  | spawnRefused hstack _ hdeliver | spawnAccepted hstack _ hdeliver
  | spawnBadAlloc hstack _ hdeliver =>
      have hrest : CodesFrom task s _ := .rest hstack
      exact .inl ⟨.remains (.refl _), hrest.deliver hdeliver, rfl, hadds _ trivial⟩
  | @effect _ _ id _ _ frame _ hstack hframe hcode =>
      by_cases hroot : frame.root = task
      · exact .inr (.goOn hstack hframe hroot (.inl ⟨_, hcode⟩) rfl [] rfl (by simp) rfl
          (hadds _ trivial))
      · refine .inl (.elsewhere hstack [_] rfl ?_ (.remains (.refl _)) rfl (hadds _ trivial))
        simpa [runningFrames] using Heap.not_belongsTo hframe hroot
  | @refused _ _ id _ _ frame _ _ awt hstack hframe _ _ _ =>
      by_cases hroot : frame.root = task
      · subst hroot
        exact .inr (.refused hframe rfl (List.mem_append_right _ (List.mem_singleton_self _)))
      · refine .inl (.elsewhere hstack [_] rfl ?_ (.set hframe hroot rfl) rfl (hadds _ hroot))
        simpa [runningFrames] using Heap.not_belongsTo hframe hroot
  | @stage _ _ id _ _ frame _ _ awt _ hstack hframe hcode _ _ =>
      by_cases hroot : frame.root = task
      · subst hroot
        exact .inr (.stage hstack hframe rfl hcode rfl rfl (by simp) rfl)
      · have hordinals : Function.update s.ordinals frame.root
            (s.ordinals frame.root + 1) task = s.ordinals task :=
          Function.update_of_ne (Ne.symm hroot) _ _
        exact .inl (.elsewhere hstack [] rfl (by simp) (.set hframe hroot rfl) hordinals hquiet)
  | @awaitTask _ _ id _ _ frame _ resume hstack hframe hcode =>
      by_cases hroot : frame.root = task
      · exact .inr (.awaitTask hstack hframe hroot hcode rfl rfl rfl rfl)
      · refine .inl (.elsewhere hstack [_] rfl ?_ ?_ rfl hquiet)
        · simp only [List.mem_singleton, forall_eq, runningFrames]
          exact fun hbelongs => absurd hbelongs.1 (Nat.lt_irrefl _)
        · simp only
          rw [Heap.coAwaitTask_eq_add _ (Nat.ne_of_lt (hinv.linked.lt hframe))]
          have hset : Heap.LeavesFrames task s.heap
              (s.heap.set id { frame with point := .onTask s.heap.next resume }) :=
            .set hframe hroot rfl
          exact hset.trans (.add hroot)
  | @endRoot _ _ id frame _ hends houtermost =>
      obtain ⟨code, hstack⟩ := hends.stack
      by_cases hroot : frame.root = task
      · exact .inr (.endRoot hends hroot houtermost rfl rfl)
      · exact .inl (.elsewhere hstack [] rfl (by simp)
          (.set hends.frame hroot (Heap.complete_root _ _)) rfl
          (hadds _ (hown.ne hends.frame hroot)))
  | @endInner _ _ id awaiting frame _ _ _ hends hinner hresume =>
      obtain ⟨code, hstack⟩ := hends.stack
      have hpoint := hinv.point_of_running hcrash (by rw [hstack]; rfl) hends.frame
      by_cases hroot : frame.root = task
      · exact .inr (.endInner hends hroot hinner hresume rfl rfl rfl)
      · obtain ⟨hheap, hawaiting⟩ := Ends.resumeAwaiting_leavesFrames hinv hpoint hown
          hends.frame hroot hinner hresume
        refine .inl (.elsewhere hstack [_] rfl ?_ hheap rfl
          (hadds _ (hown.ne hends.frame hroot)))
        simpa [runningFrames] using hawaiting
  | @endAstray _ _ id awaiting frame _ _ hends hinner _ =>
      by_cases hroot : frame.root = task
      · exact .inr (.endAstray hends hroot hinner rfl rfl)
      · exact .inl ⟨.set hends.frame hroot (Heap.complete_root _ _),
          .of_subset fun _ hact => .inl hact, rfl, hadds _ (hown.ne hends.frame hroot)⟩

end Scheduler

end SlimCommonIo
