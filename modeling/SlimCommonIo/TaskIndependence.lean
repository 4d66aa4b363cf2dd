import SlimCommonIo.AwaitedResults
import SlimCommonIo.SoloTask
import SlimCommonIo.TaskSteps

/-!
# Independent tasks

A task which calls no `spawn` goes through the same states on a scheduler as by
itself: whatever else runs there, in whichever order completions arrive and are
drained.  So two runs which give its operations the same results hand it the
same results in the same order, and it ends with the same outcome.
-/

namespace SlimCommonIo

open Transition

variable {P : Program}

/-! ## A task of the scheduler and the task by itself -/

/-- The task is underway: `id` is its innermost frame, which is running `code`
or suspended on the operation `code` awaits. -/
structure Underway (task : FrameId) (s : Scheduler P) (id : FrameId) (ids : List FrameId)
    (code : P.Code) (type : TaskType) (awaiting : List (TaskType × (P.Outcome → P.Code)))
    (received : List Int32) : Prop where
  chain : s.heap.AwaitedBy task id type awaiting ids
  whole : ∀ other frame, s.heap.frames other = some frame → frame.root = task → other ∈ ids
  bound : id < s.heap.next
  runs : ∀ after, .coroutine id after ∈ s.stack → after = code
  calm : ∀ resume, .coroutineInSpawn id resume ∉ s.stack
  point : ∀ frame, s.heap.frames id = some frame →
    (frame.point = .running ∧ s.ordinals task = received.length) ∨
    ∃ object construct resume, P.instr code = .coAwait object construct resume ∧
      frame.point = .onAwaitable object ⟨task, received.length⟩ resume ∧
      s.ordinals task = received.length + 1
  received : receivedBy task s.log = received
  outcomes : outcomesOf task s.log = []

structure Ended (task : FrameId) (s : Scheduler P) (received : List Int32)
    (outcome : P.Outcome) : Prop where
  bound : task < s.heap.next
  outermost : ∀ frame, s.heap.frames task = some frame → frame.root = task
  final : ∀ id frame, s.heap.frames id = some frame → frame.root = task →
    frame.point = .final
  received : receivedBy task s.log = received
  outcomes : outcomesOf task s.log = [outcome]

/-- The task stands where, by itself, it comes to this point; or the program has
crashed before the task ended. -/
inductive Matches (task : FrameId) (s : Scheduler P) : Solo P → Prop
  | underway {id : FrameId} {ids : List FrameId} {code : P.Code} {type : TaskType}
      {awaiting : List (TaskType × (P.Outcome → P.Code))} {received : List Int32}
      (hunderway : Underway task s id ids code type awaiting received) :
      Matches task s (.running code type awaiting received)
  | ended {received : List Int32} {outcome : P.Outcome}
      (hended : Ended task s received outcome) : Matches task s (.ended received outcome)
  | crashed (point : Solo P) (hcrash : s.crash.isSome = true)
      (houtcomes : outcomesOf task s.log = []) : Matches task s point

variable {task id : FrameId} {s next : Scheduler P} {ids : List FrameId} {code : P.Code}
  {type : TaskType} {awaiting : List (TaskType × (P.Outcome → P.Code))}
  {received : List Int32} {outcome : P.Outcome}

/-! ## The stack -/

theorem runningFrames_cons (act : Activation P) (stack : List (Activation P)) :
    runningFrames (act :: stack) = runningFrames [act] ++ runningFrames stack := by
  cases act <;> rfl

theorem mem_runningFrames
    {id : FrameId} {stack : List (Activation P)} :
    id ∈ runningFrames stack ↔ ∃ act ∈ stack, id ∈ runningFrames [act] := by
  induction stack with
  | nil => simp [runningFrames]
  | cons act stack ih =>
      rw [runningFrames_cons, List.mem_append, ih]
      simp

/-- A coroutine put on the stack is found there with the code it was put there
with, if it was not on the stack before. -/
theorem runs_of_not_mem
    (top : List (Activation P)) {below : List (Activation P)} (code : P.Code)
    (htop : ∀ act ∈ top, runningFrames [act] = []) (hbelow : id ∉ runningFrames below) :
    (∀ after, .coroutine id after ∈ top ++ .coroutine id code :: below → after = code) ∧
      ∀ resume, .coroutineInSpawn id resume ∉ top ++ .coroutine id code :: below := by
  constructor
  · intro after hmem
    rcases List.mem_append.mp hmem with hin | hmem
    · exact absurd (htop _ hin) (by simp [runningFrames])
    · rcases List.mem_cons.mp hmem with heq | hrest
      · exact (Activation.coroutine.inj heq).2
      · exact absurd (mem_runningFrames.mpr ⟨_, hrest, by simp [runningFrames]⟩) hbelow
  · intro resume hmem
    rcases List.mem_append.mp hmem with hin | hmem
    · exact absurd (htop _ hin) (by simp [runningFrames])
    · have hrest : .coroutineInSpawn id resume ∈ below := by simpa using hmem
      exact absurd (mem_runningFrames.mpr ⟨_, hrest, by simp [runningFrames]⟩) hbelow

namespace Underway

theorem belongsTo (hunderway : Underway task s id ids code type awaiting received) :
    s.heap.BelongsTo task id :=
  ⟨hunderway.bound, fun _ hframe => hunderway.chain.root hunderway.chain.mem_self hframe⟩

theorem eq_innermost
    (hunderway : Underway task s id ids code type awaiting received) {other : FrameId}
    {frame : Frame P} (hframe : s.heap.frames other = some frame) (hroot : frame.root = task)
    (hpoint : ∀ inner resume, frame.point ≠ .onTask inner resume) : other = id :=
  hunderway.chain.eq_of_point (hunderway.whole other frame hframe hroot) hframe hpoint

theorem innermost_of_top
    (hunderway : Underway task s id ids code type awaiting received)
    (hinv : FrameInvariant s) (hcrash : s.crash = none) {other : FrameId} {after : P.Code}
    {rest : List (Activation P)} {frame : Frame P}
    (hstack : s.stack = .coroutine other after :: rest)
    (hframe : s.heap.frames other = some frame) (hroot : frame.root = task) :
    other = id ∧ after = code ∧ frame.point = .running ∧
      s.ordinals task = received.length := by
  have hpoint := hinv.point_of_running hcrash (by rw [hstack]; rfl) hframe
  have heq := hunderway.eq_innermost hframe hroot (by simp [hpoint])
  subst heq
  refine ⟨rfl, hunderway.runs after (by simp [hstack]), hpoint, ?_⟩
  rcases hunderway.point frame hframe with ⟨-, hordinals⟩ | ⟨_, _, _, -, hsuspended, -⟩
  · exact hordinals
  · rw [hpoint] at hsuspended
    simp at hsuspended

theorem finished_foreign
    (hunderway : Underway task s id ids code type awaiting received) {frame : Frame P}
    (hframe : s.heap.frames id = some frame) {outer : FrameId}
    (hinner : frame.promise.continuation = some outer) (outcome : P.Outcome) :
    ∀ event ∈ [Event.finished id outcome], event.foreign task := by
  intro event hevent
  rw [List.mem_singleton.mp hevent]
  cases hunderway.chain with
  | outermost hmember =>
      rw [(hmember frame hframe).2.2] at hinner
      simp at hinner
  | inner hlt _ _ houter =>
      have hle := (houter.le _ houter.mem_self).1
      exact Nat.ne_of_gt (Nat.lt_of_le_of_lt hle hlt)

theorem awaitsOwn
    (hunderway : Underway task s id ids code type awaiting received) :
    s.heap.AwaitsOwn task := by
  refine ⟨fun _ => hunderway.chain.root hunderway.chain.mem_outermost, ?_⟩
  intro other outer inner frame resume houter hroot hpoint hframe
  have hother := hunderway.whole other outer houter hroot
  rcases hunderway.chain.mem_inner hother houter hpoint with rfl | hinner
  · rcases hunderway.point outer houter with ⟨hrunning, -⟩ | ⟨_, _, _, -, hsuspended, -⟩
    · simp [hrunning] at hpoint
    · simp [hsuspended] at hpoint
  · exact hunderway.chain.root hinner hframe

/-- A step which leaves the task alone keeps it where it is. -/
theorem leavesAlone
    (hunderway : Underway task s id ids code type awaiting received)
    (hleaves : LeavesAlone task s next) :
    Underway task next id ids code type awaiting received := by
  have hkept : ∀ other ∈ ids, next.heap.frames other = none ∨
      next.heap.frames other = s.heap.frames other := by
    intro other hother
    have hle := (hunderway.chain.le other hother).2
    exact hleaves.frames.kept other ⟨Nat.lt_of_le_of_lt hle hunderway.bound,
      fun _ hframe => hunderway.chain.root hother hframe⟩
  refine
    { chain := hunderway.chain.kept hkept
      whole := ?_
      bound := Nat.lt_of_lt_of_le hunderway.bound hleaves.frames.bound
      runs := ?_
      calm := ?_
      point := ?_
      received := hleaves.received.trans hunderway.received
      outcomes := hleaves.outcomes.trans hunderway.outcomes }
  · intro other frame hframe hroot
    exact hunderway.whole other frame (hleaves.frames.fresh other frame hframe hroot) hroot
  · intro after hmem
    rcases hleaves.codes.1 id after hunderway.belongsTo hmem with hold | ⟨resume, hold⟩
    · exact hunderway.runs after hold
    · exact absurd hold (hunderway.calm resume)
  · intro resume hmem
    exact hunderway.calm resume (hleaves.codes.2 id resume hunderway.belongsTo hmem)
  · intro frame hframe
    rw [hleaves.ordinals]
    rcases hkept id hunderway.chain.mem_self with hnone | heq
    · simp [hnone] at hframe
    · exact hunderway.point frame (by rw [← heq, hframe])

theorem whole_set
    (hunderway : Underway task s id ids code type awaiting received) (new : Frame P) :
    ∀ other frame, (s.heap.set id new).frames other = some frame → frame.root = task →
      other ∈ ids := by
  intro other frame hframe hroot
  by_cases hid : other = id
  · rw [hid]
    exact hunderway.chain.mem_self
  · rw [Heap.set_frames_of_ne _ hid] at hframe
    exact hunderway.whole other frame hframe hroot

variable {frame : Frame P} {rest : List (Activation P)}

theorem goOn
    (hunderway : Underway task s id ids code type awaiting received)
    (hinv : FrameInvariant s) (hcrash : s.crash = none)
    (hstack : s.stack = .coroutine id code :: rest)
    (hframe : s.heap.frames id = some frame) (hroot : frame.root = task)
    {after : P.Code} {top : List (Activation P)} (hheap : next.heap = s.heap)
    (hnext : next.stack = top ++ .coroutine id after :: rest)
    (htop : ∀ new ∈ top, runningFrames [new] = []) (hordinals : next.ordinals = s.ordinals)
    (hlog : ∃ events, next.log = s.log ++ events ∧ ∀ event ∈ events, event.foreign task) :
    Underway task next id ids after type awaiting received := by
  obtain ⟨-, -, hpoint, hcount⟩ :=
    hunderway.innermost_of_top hinv hcrash hstack hframe hroot
  have honce := (hinv.runs hcrash).once
  rw [hstack, runningFrames, List.nodup_cons] at honce
  obtain ⟨hruns, hcalm⟩ := runs_of_not_mem top after htop honce.1
  obtain ⟨events, hevents, hforeign⟩ := hlog
  rw [← hnext] at hruns hcalm
  exact
    { chain := by
        rw [hheap]
        exact hunderway.chain
      whole := by
        rw [hheap]
        exact hunderway.whole
      bound := by
        rw [hheap]
        exact hunderway.bound
      runs := hruns
      calm := hcalm
      point := by
        intro other hother
        rw [hheap, hframe, Option.some.injEq] at hother
        rw [← hother, hordinals]
        exact .inl ⟨hpoint, hcount⟩
      received := by
        rw [hevents, receivedBy_append_foreign _ hforeign, hunderway.received]
      outcomes := by
        rw [hevents, outcomesOf_append_foreign _ hforeign, hunderway.outcomes] }

theorem stage
    (hunderway : Underway task s id ids code type awaiting received)
    (hinv : FrameInvariant s) (hcrash : s.crash = none)
    (hstack : s.stack = .coroutine id code :: rest)
    (hframe : s.heap.frames id = some frame) (hroot : frame.root = task)
    {object : ℕ} {construct : Option Awaitable} {resume : Int32 → P.Code}
    {objects : ℕ → Option Awaitable} (hcode : P.instr code = .coAwait object construct resume)
    (hheap : next.heap = s.heap.set id
      { frame with
        objects := objects
        point := .onAwaitable object ⟨task, s.ordinals task⟩ resume })
    (hnext : next.stack = rest) (hordinals : next.ordinals task = s.ordinals task + 1)
    (hlog : next.log = s.log) :
    Underway task next id ids code type awaiting received := by
  obtain ⟨-, -, -, hcount⟩ := hunderway.innermost_of_top hinv hcrash hstack hframe hroot
  have hsub : ∀ act ∈ next.stack, act ∈ s.stack := by
    intro act hact
    rw [hnext] at hact
    rw [hstack]
    exact List.mem_cons_of_mem _ hact
  exact
    { chain := by
        rw [hheap]
        exact hunderway.chain.set hframe rfl rfl rfl
      whole := by
        rw [hheap]
        exact hunderway.whole_set _
      bound := by
        rw [hheap]
        exact hunderway.bound
      runs := fun after hmem => hunderway.runs after (hsub _ hmem)
      calm := fun resume hmem => hunderway.calm resume (hsub _ hmem)
      point := by
        intro other hother
        rw [hheap, Heap.set_frames_self, Option.some.injEq] at hother
        rw [← hother, hordinals, hcount]
        exact .inr ⟨object, construct, resume, hcode, rfl, rfl⟩
      received := by rw [hlog, hunderway.received]
      outcomes := by rw [hlog, hunderway.outcomes] }

theorem resume
    (hunderway : Underway task s id ids code type awaiting received)
    (hinv : FrameInvariant s) (hcrash : s.crash = none) {object : ℕ} {stamp : Stamp}
    {resume : Int32 → P.Code} {objects : ℕ → Option Awaitable} {value : Int32}
    {below : List (Activation P)} (hframe : s.heap.frames id = some frame)
    (hpoint : frame.point = .onAwaitable object stamp resume)
    (hheap : next.heap = s.heap.set id { frame with objects := objects, point := .running })
    (hnext : next.stack = .coroutine id (resume value) :: below)
    (hbelow : ∀ act ∈ below, act ∈ s.stack ∨ runningFrames [act] = [])
    (hordinals : next.ordinals = s.ordinals)
    (hlog : next.log = s.log ++ [.awaited task (some stamp) value]) :
    stamp = ⟨task, received.length⟩ ∧
      (∃ construct, P.instr code = .coAwait object construct resume) ∧
      Underway task next id ids (resume value) type awaiting (received ++ [value]) := by
  have hsuspended : ∃ construct, P.instr code = .coAwait object construct resume ∧
      stamp = ⟨task, received.length⟩ ∧ s.ordinals task = received.length + 1 := by
    rcases hunderway.point frame hframe with ⟨hrunning, -⟩ |
      ⟨object', construct, resume', hcode, hpoint', hcount⟩
    · simp [hpoint] at hrunning
    · rw [hpoint, SuspendPoint.onAwaitable.injEq] at hpoint'
      obtain ⟨rfl, hstamp, rfl⟩ := hpoint'
      exact ⟨construct, hcode, hstamp, hcount⟩
  obtain ⟨construct, hcode, hstamp, hcount⟩ := hsuspended
  refine ⟨hstamp, ⟨construct, hcode⟩, ?_⟩
  have hidle : id ∉ runningFrames below := by
    intro hmem
    obtain ⟨act, hact, hin⟩ := mem_runningFrames.mp hmem
    rcases hbelow act hact with hold | hnone
    · exact (hinv.runs hcrash).not_mem hframe (by simp [hpoint])
        (mem_runningFrames.mpr ⟨act, hold, hin⟩)
    · simp [hnone] at hin
  obtain ⟨hruns, hcalm⟩ := runs_of_not_mem [] (resume value) (by simp) hidle
  rw [List.nil_append, ← hnext] at hruns hcalm
  exact
    { chain := by
        rw [hheap]
        exact hunderway.chain.set hframe rfl rfl rfl
      whole := by
        rw [hheap]
        exact hunderway.whole_set _
      bound := by
        rw [hheap]
        exact hunderway.bound
      runs := hruns
      calm := hcalm
      point := by
        intro other hother
        rw [hheap, Heap.set_frames_self, Option.some.injEq] at hother
        rw [← hother, hordinals, hcount, List.length_append]
        exact .inl ⟨rfl, rfl⟩
      received := by
        rw [hlog, receivedBy_append_awaited, hunderway.received]
      outcomes := by
        rw [hlog, outcomesOf_append_awaited, hunderway.outcomes] }

theorem awaitTask
    (hunderway : Underway task s id ids code type awaiting received)
    (hinv : FrameInvariant s) (hcrash : s.crash = none)
    (hstack : s.stack = .coroutine id code :: rest)
    (hframe : s.heap.frames id = some frame) (hroot : frame.root = task)
    {inner : TaskType} {body : P.Code} {resume : P.Outcome → P.Code}
    (hheap : next.heap = s.heap.coAwaitTask id frame inner body resume)
    (hnext : next.stack = .coroutine s.heap.next body :: rest)
    (hordinals : next.ordinals = s.ordinals) (hlog : next.log = s.log) :
    Underway task next s.heap.next (s.heap.next :: ids) body inner
      ((type, resume) :: awaiting) received := by
  obtain ⟨-, -, -, hcount⟩ := hunderway.innermost_of_top hinv hcrash hstack hframe hroot
  have hne : id ≠ s.heap.next := Nat.ne_of_lt hunderway.bound
  rw [Heap.coAwaitTask_eq_add _ hne] at hheap
  have hnew : next.heap.frames s.heap.next =
      some (Heap.newFrame inner .running (some id) frame.root) := by
    rw [hheap]
    exact Heap.add_frames_next _ _
  have hold : ∀ other, other ≠ s.heap.next → next.heap.frames other =
      (s.heap.set id { frame with point := .onTask s.heap.next resume }).frames other := by
    intro other hother
    rw [hheap]
    rw [← Heap.set_next s.heap id { frame with point := .onTask s.heap.next resume }] at hother
    exact Heap.add_frames_of_ne _ hother _
  have hidle : s.heap.next ∉ runningFrames rest := by
    intro hmem
    have hall : s.heap.next ∈ runningFrames s.stack := by
      rw [hstack]
      exact List.mem_cons_of_mem _ hmem
    exact absurd ((hinv.runs hcrash).active _ hall).1 (Nat.lt_irrefl _)
  obtain ⟨hruns, hcalm⟩ := runs_of_not_mem [] body (by simp) hidle
  rw [List.nil_append, ← hnext] at hruns hcalm
  have hchain : (s.heap.set id { frame with point := .onTask s.heap.next resume }).AwaitedBy
      task id type awaiting ids := hunderway.chain.set hframe rfl rfl rfl
  exact
    { chain := by
        refine .inner hunderway.bound ?_ ?_ (hchain.kept ?_)
        · intro other hother
          rw [hnew, Option.some.injEq] at hother
          rw [← hother]
          exact ⟨hroot, rfl, rfl⟩
        · intro other hother
          rw [hold id hne, Heap.set_frames_self, Option.some.injEq] at hother
          rw [← hother]
        · intro other hother
          have hle := (hunderway.chain.le other hother).2
          exact .inr (hold other (Nat.ne_of_lt (Nat.lt_of_le_of_lt hle hunderway.bound)))
      whole := by
        intro other found hfound hown
        by_cases hother : other = s.heap.next
        · rw [hother]
          exact List.mem_cons_self ..
        · rw [hold other hother] at hfound
          exact List.mem_cons_of_mem _ (hunderway.whole_set _ other found hfound hown)
      bound := by
        rw [hheap]
        exact Nat.lt_succ_self _
      runs := hruns
      calm := hcalm
      point := by
        intro other hother
        rw [hnew, Option.some.injEq] at hother
        rw [← hother, hordinals]
        exact .inl ⟨rfl, hcount⟩
      received := by rw [hlog, hunderway.received]
      outcomes := by rw [hlog, hunderway.outcomes] }

theorem endRoot
    (hunderway : Underway task s id ids code type awaiting received)
    (hframe : s.heap.frames id = some frame) (houtermost : frame.promise.continuation = none)
    (hheap : next.heap = s.heap.set id (frame.complete outcome))
    (hlog : next.log = s.log ++ [.finished id outcome]) :
    awaiting = [] ∧ Ended task next received outcome := by
  obtain ⟨chain, whole, bound, -, -, -, hreceived, houtcomes⟩ := hunderway
  cases chain with
  | inner _ hmember _ _ =>
      rw [(hmember frame hframe).2.2] at houtermost
      simp at houtermost
  | outermost hmember =>
      have hself : next.heap.frames task = some (frame.complete outcome) := by
        rw [hheap, Heap.set_frames_self]
      refine ⟨rfl, ?_⟩
      exact
        { bound := by
            rw [hheap]
            exact bound
          outermost := by
            intro found hfound
            rw [hself, Option.some.injEq] at hfound
            rw [← hfound, Heap.complete_root]
            exact (hmember frame hframe).1
          final := by
            intro other found hfound hroot
            have hother : other = task := by
              by_contra hne
              rw [hheap, Heap.set_frames_of_ne _ hne] at hfound
              exact hne (List.mem_singleton.mp (whole other found hfound hroot))
            rw [hother, hself, Option.some.injEq] at hfound
            rw [← hfound, Heap.complete_point]
          received := by
            rw [hlog, receivedBy_append_finished, hreceived]
          outcomes := by
            rw [hlog, outcomesOf_append_finished, houtcomes, List.nil_append] }

theorem endInner
    (hunderway : Underway task s id ids code type awaiting received)
    (hinv : FrameInvariant s) (hcrash : s.crash = none)
    (hstack : s.stack = .coroutine id code :: rest)
    (hframe : s.heap.frames id = some frame) (hroot : frame.root = task)
    {outer : FrameId} {after : P.Code} (hinner : frame.promise.continuation = some outer)
    (hresume : (s.heap.set id (frame.complete outcome)).resumeAwaiting outer =
      .resume next.heap outer after)
    (hnext : next.stack = .coroutine outer after :: rest)
    (hordinals : next.ordinals = s.ordinals)
    (hlog : next.log = s.log ++ [.finished id outcome]) :
    ∃ outerType resume awaiting' ids' result, awaiting = (outerType, resume) :: awaiting' ∧
      settled type outcome = some result ∧ after = resume result ∧
      Underway task next outer ids' after outerType awaiting' received := by
  obtain ⟨-, -, hpoint, hcount⟩ :=
    hunderway.innermost_of_top hinv hcrash hstack hframe hroot
  have hforeign := hunderway.finished_foreign hframe hinner outcome
  obtain ⟨chain, whole, bound, -, -, -, hreceived, houtcomes⟩ := hunderway
  cases chain with
  | outermost hmember =>
      rw [(hmember frame hframe).2.2] at hinner
      simp at hinner
  | @inner _ outer' _ outerType resume awaiting ids hlt hmember houterPoint houter =>
      obtain ⟨-, htype, hpromise⟩ := hmember frame hframe
      have heq : outer' = outer := by
        rw [hpromise] at hinner
        exact Option.some.inj hinner
      subst heq
      have hlinked := hinv.linked.set hframe (by simp [hpoint])
        (Heap.complete_continuation frame outcome)
      obtain ⟨outerFrame, resume', result, houterFrame, hawaits, hresult, hafter, hheap⟩ :=
        hlinked.resumeAwaiting (Heap.set_frames_self _ _ _)
          ((Heap.complete_continuation frame outcome).trans hinner) hresume
      have hne : outer' ≠ id := Nat.ne_of_lt hlt
      rw [Heap.set_frames_of_ne _ hne] at houterFrame
      rw [houterPoint outerFrame houterFrame, SuspendPoint.onTask.injEq] at hawaits
      obtain ⟨-, rfl⟩ := hawaits
      rw [settled_eq_result hpromise, htype] at hresult
      have hidle : outer' ∉ runningFrames rest := by
        intro hmem
        refine (hinv.runs hcrash).not_mem houterFrame ?_ ?_
        · simp [houterPoint outerFrame houterFrame]
        · rw [hstack]
          exact List.mem_cons_of_mem _ hmem
      obtain ⟨hruns, hcalm⟩ := runs_of_not_mem [] after (by simp) hidle
      rw [List.nil_append, ← hnext] at hruns hcalm
      refine ⟨outerType, resume, awaiting, ids, result, rfl, hresult, hafter, ?_⟩
      exact
        { chain := by
            rw [hheap]
            exact houter.handOver hlt houterFrame _
          whole := by
            intro other found hother hown
            by_cases houterId : other = outer'
            · rw [houterId]
              exact houter.mem_self
            · rw [hheap, Heap.set_frames_of_ne _ houterId] at hother
              have hid : other ≠ id := by
                rintro rfl
                simp at hother
              rw [Heap.erase_frames_of_ne _ hid, Heap.set_frames_of_ne _ hid] at hother
              exact (List.mem_cons.mp (whole other found hother hown)).resolve_left hid
          bound := by
            rw [hheap]
            exact Nat.lt_trans hlt bound
          runs := hruns
          calm := hcalm
          point := by
            intro other hother
            rw [hheap, Heap.set_frames_self, Option.some.injEq] at hother
            rw [← hother, hordinals]
            exact .inl ⟨rfl, hcount⟩
          received := by
            rw [hlog, receivedBy_append_finished, hreceived]
          outcomes := by
            rw [hlog, outcomesOf_append_foreign _ hforeign, houtcomes] }

end Underway

namespace Ended

/-- A task which has ended makes no step. -/
theorem not_ownMove
    (hended : Ended task s received outcome) (hinv : FrameInvariant s)
    (hcrash : s.crash = none) (hmove : OwnMove task s next) :
    ∃ value, .awaited task none value ∈ next.log := by
  -- none of its frames is on top of the stack
  have htop : ∀ {id code rest frame}, s.stack = .coroutine id code :: rest →
      s.heap.frames id = some frame → frame.root ≠ task := by
    intro id code rest frame hstack hframe hroot
    have hrunning := hinv.point_of_running hcrash (by rw [hstack]; rfl) hframe
    simp [hended.final id frame hframe hroot] at hrunning
  cases hmove with
  | refused _ _ hmem => exact ⟨_, hmem⟩
  | goOn hstack hframe hroot | spawn hstack hframe hroot | stage hstack hframe hroot
  | awaitTask hstack hframe hroot => exact absurd hroot (htop hstack hframe)
  | endRoot hends hroot | endInner hends hroot | endAstray hends hroot =>
      obtain ⟨code, hstack⟩ := hends.stack
      exact absurd hroot (htop hstack hends.frame)
  | resume hframe hroot hpoint =>
      simp [hended.final _ _ hframe hroot] at hpoint

theorem leavesAlone
    (hended : Ended task s received outcome) (hleaves : LeavesAlone task s next) :
    Ended task next received outcome where
  bound := Nat.lt_of_lt_of_le hended.bound hleaves.frames.bound
  outermost := by
    intro frame hframe
    rcases hleaves.frames.kept task ⟨hended.bound, hended.outermost⟩ with hnone | heq
    · simp [hnone] at hframe
    · exact hended.outermost frame (by rw [← heq, hframe])
  final := by
    intro id frame hframe hroot
    exact hended.final id frame (hleaves.frames.fresh id frame hframe hroot) hroot
  received := hleaves.received.trans hended.received
  outcomes := hleaves.outcomes.trans hended.outcomes

theorem awaitsOwn (hended : Ended task s received outcome) : s.heap.AwaitsOwn task := by
  refine ⟨hended.outermost, ?_⟩
  intro id outer inner frame resume houter hroot hpoint
  simp [hended.final id outer houter hroot] at hpoint

end Ended

/-! ## The task keeps to what it does by itself -/

/-- The kernel answers the `n`-th operation of the task with `results n`. -/
def Answers (task : FrameId) (results : ℕ → Int32) (posted : List Cqe) : Prop :=
  ∀ cqe ∈ posted, ∀ n, cqe.stamp = some ⟨task, n⟩ → cqe.res = results n

theorem Scheduler.Ends.solo_step
    {frame : Frame P} {rest : List (Activation P)} (hends : Scheduler.Ends s id frame rest outcome)
    (hruns : ∀ after, .coroutine id after ∈ s.stack → after = code) (results : ℕ → Int32)
    (type : TaskType) (awaiting : List (TaskType × (P.Outcome → P.Code)))
    (received : List Int32) :
    Solo.step results (.running code type awaiting received) =
      Solo.finish type awaiting received outcome := by
  cases hends with
  | value hstack _ hcode | exception hstack _ hcode =>
      have heq := hruns _ (by rw [hstack]; exact List.mem_cons_self ..)
      rw [heq] at hcode
      simp [Solo.step, hcode]

/-- A step of the task is a step of the task by itself, or part of one. -/
theorem Underway.ownMove
    (hunderway : Underway task s id ids code type awaiting received)
    (hinv : FrameInvariant s) (hcrash : s.crash = none) (hmove : OwnMove task s next)
    {results : ℕ → Int32} (hanswers : Answers task results s.io.posted)
    (hspawn : ∀ inner resume, P.instr code ≠ .spawn inner resume)
    (haccepted : ∀ value, .awaited task none value ∉ next.log) :
    Matches task next (.running code type awaiting received) ∨
      Matches task next (Solo.step results (.running code type awaiting received)) := by
  cases hmove with
  | refused _ _ hmem => exact absurd hmem (haccepted _)
  | spawn hstack hframe hroot hcode =>
      obtain ⟨rfl, rfl, -, -⟩ := hunderway.innermost_of_top hinv hcrash hstack hframe hroot
      exact absurd hcode (hspawn _ _)
  | goOn hstack hframe hroot hcode hheap top hnext htop hordinals hlog =>
      obtain ⟨rfl, rfl, -, -⟩ := hunderway.innermost_of_top hinv hcrash hstack hframe hroot
      have hafter := hunderway.goOn hinv hcrash hstack hframe hroot hheap hnext htop hordinals
        hlog
      right
      rcases hcode with ⟨visible, hcode⟩ | ⟨job, hcode⟩ <;>
        simpa [Solo.step, hcode] using Matches.underway hafter
  | stage hstack hframe hroot hcode hheap hnext hordinals hlog =>
      obtain ⟨rfl, rfl, -, -⟩ := hunderway.innermost_of_top hinv hcrash hstack hframe hroot
      exact .inl (.underway (hunderway.stage hinv hcrash hstack hframe hroot hcode hheap hnext
        hordinals hlog))
  | awaitTask hstack hframe hroot hcode hheap hnext hordinals hlog =>
      obtain ⟨rfl, rfl, -, -⟩ := hunderway.innermost_of_top hinv hcrash hstack hframe hroot
      have hafter := hunderway.awaitTask hinv hcrash hstack hframe hroot hheap hnext hordinals
        hlog
      right
      simpa [Solo.step, hcode] using Matches.underway hafter
  | resume hframe hroot hpoint hposted hstamp hheap hnext hbelow hordinals hlog =>
      have heq := hunderway.eq_innermost hframe hroot (by simp [hpoint])
      subst heq
      obtain ⟨rfl, ⟨construct, hcode⟩, hafter⟩ := hunderway.resume hinv hcrash hframe hpoint
        hheap hnext hbelow hordinals hlog
      have hres := hanswers _ hposted _ hstamp
      right
      rw [hres] at hafter
      simpa [Solo.step, hcode] using Matches.underway hafter
  | endRoot hends hroot houtermost hheap hlog =>
      obtain ⟨after, hstack⟩ := hends.stack
      obtain ⟨rfl, rfl, -, -⟩ :=
        hunderway.innermost_of_top hinv hcrash hstack hends.frame hroot
      obtain ⟨rfl, hended⟩ := hunderway.endRoot hends.frame houtermost hheap hlog
      right
      rw [hends.solo_step hunderway.runs]
      exact .ended hended
  | endInner hends hroot hinner hresume hnext hordinals hlog =>
      obtain ⟨after, hstack⟩ := hends.stack
      obtain ⟨rfl, rfl, -, -⟩ :=
        hunderway.innermost_of_top hinv hcrash hstack hends.frame hroot
      obtain ⟨outerType, resume, awaiting', ids', result, rfl, hsettled, rfl, hafter⟩ :=
        hunderway.endInner hinv hcrash hstack hends.frame hroot hinner hresume hnext hordinals
          hlog
      right
      rw [hends.solo_step hunderway.runs]
      simpa [Solo.finish, hsettled] using Matches.underway hafter
  | endAstray hends hroot hinner hcrashed hlog =>
      obtain ⟨after, hstack⟩ := hends.stack
      obtain ⟨rfl, rfl, -, -⟩ :=
        hunderway.innermost_of_top hinv hcrash hstack hends.frame hroot
      have hforeign := hunderway.finished_foreign hends.frame hinner
      refine .inl (.crashed _ hcrashed ?_)
      rw [hlog, outcomesOf_append_foreign _ (hforeign _), hunderway.outcomes]

/-- The task does on the scheduler what it does by itself. -/
def Follows (task : FrameId) (results : ℕ → Int32) (body : P.Code) (s : Scheduler P) : Prop :=
  ∃ point, Solo.Reaches results body point ∧ Matches task s point

theorem Follows.step
    {results : ℕ → Int32} {body : P.Code} {label : Label P}
    (hfollows : Follows task results body s) (hinv : FrameInvariant s)
    (hcrash : s.crash = none) (hmove : Scheduler.Move s label next)
    (hfree : SpawnFree body) (hanswers : Answers task results s.io.posted)
    (haccepted : ∀ value, .awaited task none value ∉ next.log) :
    Follows task results body next := by
  obtain ⟨point, hreaches, hmatches⟩ := hfollows
  cases hmatches with
  | crashed _ hcrashed _ => simp [hcrash] at hcrashed
  | ended hended =>
      rcases hmove.concerns hinv hcrash hended.awaitsOwn
        (fun _ => Nat.ne_of_gt hended.bound) with hleaves | hown
      · exact ⟨_, hreaches, .ended (hended.leavesAlone hleaves)⟩
      · obtain ⟨value, hmem⟩ := hended.not_ownMove hinv hcrash hown
        exact absurd hmem (haccepted value)
  | underway hunderway =>
      have hborn : task < s.heap.next :=
        Nat.lt_of_le_of_lt (hunderway.chain.le _ hunderway.chain.mem_self).1 hunderway.bound
      rcases hmove.concerns hinv hcrash hunderway.awaitsOwn
        (fun _ => Nat.ne_of_gt hborn) with hleaves | hown
      · exact ⟨_, hreaches, .underway (hunderway.leavesAlone hleaves)⟩
      · rcases hunderway.ownMove hinv hcrash hown hanswers
          (hfree _ hreaches.leads.1) haccepted with hstays | hsteps
        · exact ⟨_, hreaches, hstays⟩
        · exact ⟨_, hreaches.step, hsteps⟩

/-! ## Before a task is created -/

/-- Nothing has happened for the task. -/
structure Unborn (task : FrameId) (s : Scheduler P) : Prop where
  frames : ∀ id frame, s.heap.frames id = some frame → frame.root ≠ task
  ordinals : s.ordinals task = 0
  received : receivedBy task s.log = []
  outcomes : outcomesOf task s.log = []

theorem Unborn.leavesAlone
    (hunborn : Unborn task s) (hleaves : LeavesAlone task s next) : Unborn task next where
  frames := by
    intro id frame hframe hroot
    exact hunborn.frames id frame (hleaves.frames.fresh id frame hframe hroot) hroot
  ordinals := hleaves.ordinals.trans hunborn.ordinals
  received := hleaves.received.trans hunborn.received
  outcomes := hleaves.outcomes.trans hunborn.outcomes

theorem unborn_step
    {label : Label P} (hinv : FrameInvariant s) (hcrash : s.crash = none)
    (hmove : Scheduler.Move s label next)
    (hunborn : ∀ task, s.heap.next ≤ task → Unborn task s) :
    ∀ task, next.heap.next ≤ task → Unborn task next := by
  intro task htask
  have hbefore := hunborn task (Nat.le_trans hmove.next_le htask)
  have hown : s.heap.AwaitsOwn task := by
    constructor
    · intro frame hframe
      have hnone := hinv.linked.bounded task (Nat.le_trans hmove.next_le htask)
      simp [hnone] at hframe
    · intro id outer _ _ _ houter hroot
      exact absurd hroot (hbefore.frames id outer houter)
  have hborn : s.heap.next < next.heap.next → s.heap.next ≠ task :=
    fun hlt => Nat.ne_of_lt (Nat.lt_of_lt_of_le hlt htask)
  rcases hmove.concerns hinv hcrash hown hborn with hleaves | hmoves
  · exact hbefore.leavesAlone hleaves
  · obtain ⟨id, frame, hframe, hroot⟩ := hmoves.frame
    exact absurd hroot (hbefore.frames id frame hframe)

theorem Unborn.spawnStart
    {label : Label P} {body : P.Code} {below : List (Activation P)}
    (hunborn : Unborn s.heap.next s) (hinv : FrameInvariant s) (hcrash : s.crash = none)
    (hcall : Scheduler.CallsSpawn s label body below)
    (hheap : next.heap = (s.heap.create .void body s.heap.next).start s.heap.next)
    (hstack : next.stack = .coroutine s.heap.next body :: .spawn s.heap.next :: below)
    (hordinals : next.ordinals = s.ordinals)
    (hlog : next.log = s.log ++ [.started s.heap.next (Scheduler.callerOrigin below)]) :
    Underway s.heap.next next s.heap.next [s.heap.next] body .void [] [] := by
  rw [Heap.start_create_eq_add] at hheap
  have hidle : s.heap.next ∉ runningFrames (.spawn s.heap.next :: below) := by
    intro hmem
    have hold : s.heap.next ∈ runningFrames s.stack := by
      rw [← hcall.runningFrames]
      exact hmem
    exact absurd ((hinv.runs hcrash).active _ hold).1 (Nat.lt_irrefl _)
  obtain ⟨hruns, hcalm⟩ := runs_of_not_mem [] body (by simp) hidle
  rw [List.nil_append, ← hstack] at hruns hcalm
  have hself : next.heap.frames s.heap.next =
      some (Heap.newFrame .void .running none s.heap.next) := by
    rw [hheap, Heap.add_frames_next]
  exact
    { chain := by
        refine .outermost ?_
        intro frame hframe
        rw [hself, Option.some.injEq] at hframe
        rw [← hframe]
        exact ⟨rfl, rfl, rfl⟩
      whole := by
        intro other frame hframe hroot
        by_contra hne
        rw [List.mem_singleton] at hne
        rw [hheap, Heap.add_frames_of_ne _ hne] at hframe
        exact hunborn.frames other frame hframe hroot
      bound := by
        rw [hheap]
        exact Nat.lt_succ_self _
      runs := hruns
      calm := hcalm
      point := by
        intro frame hframe
        rw [hself, Option.some.injEq] at hframe
        rw [← hframe, hordinals, hunborn.ordinals]
        exact .inl ⟨rfl, rfl⟩
      received := by
        rw [hlog]
        simpa [receivedBy] using hunborn.received
      outcomes := by
        rw [hlog]
        simpa [outcomesOf] using hunborn.outcomes }

/-! ## Whole runs -/

/-- In these steps `spawn` is called with the body and starts it as `task`. -/
def SpawnedIn (history : List (Scheduler P × Label P)) (task : FrameId) (body : P.Code) :
    Prop :=
  ∃ visit ∈ history, visit.1.heap.next = task ∧ visit.1.io.sq.isFull = false ∧
    ∃ below, Scheduler.CallsSpawn visit.1 visit.2 body below

/-- What a run keeps as long as no await is refused. -/
structure Accepting (s : Scheduler P) : Prop where
  frames : FrameInvariant s
  values : s.ValuesPosted
  unborn : ∀ task, s.heap.next ≤ task → Unborn task s

theorem Accepting.initial
    {io : IoState} (hfresh : io.Fresh) (fd : Int32) (addr : UInt64) :
    Accepting (Scheduler.initial P io fd addr) where
  frames := .initial hfresh fd addr
  values := by
    intro task stamp value hmem
    simp [Scheduler.initial] at hmem
  unborn := by
    intro task _
    exact ⟨by simp [Scheduler.initial, Heap.empty], rfl, rfl, rfl⟩

theorem Accepting.step
    {label : Label P} (hinv : Accepting s) (hstep : s.step label = some next)
    (haccepts : s.acceptsAwait label = true) : Accepting next := by
  obtain ⟨hcrash, hmove⟩ := Scheduler.move_of_step hstep
  exact ⟨hinv.frames.step hcrash hmove, hinv.values.step hinv.frames hmove haccepts,
    unborn_step hinv.frames hcrash hmove hinv.unborn⟩

theorem Accepting.not_refused (hinv : Accepting s) (task : FrameId) (value : Int32) :
    .awaited task none value ∉ s.log := by
  intro hmem
  obtain ⟨cqe, -, hsome, hstamp, -⟩ := hinv.values task none value hmem
  simp [hstamp] at hsome

theorem Accepting.spawnStart
    {label : Label P} {body : P.Code} {below : List (Activation P)} (hinv : Accepting s)
    (hcall : Scheduler.CallsSpawn s label body below) (hroom : s.io.sq.isFull = false)
    (hstep : s.step label = some next) (results : ℕ → Int32) :
    Follows s.heap.next results body next := by
  obtain ⟨hcrash, -⟩ := Scheduler.move_of_step hstep
  rw [hcall.step_eq hcrash] at hstep
  simp only [Scheduler.enterSpawn, hroom, Bool.false_eq_true, if_false,
    Option.some.injEq] at hstep
  subst hstep
  exact ⟨_, .start results body, .underway ((hinv.unborn _ (Nat.le_refl _)).spawnStart
    hinv.frames hcrash hcall rfl rfl rfl rfl)⟩

/-- In a run which refuses no await and gives the task these results, the task
ends, if it does, as it does by itself. -/
theorem reaches_ended
    {io : IoState} (hfresh : io.Fresh) {fd : Int32} {addr : UInt64}
    {history : List (Scheduler P × Label P)} {final : Scheduler P}
    (hrun : Run Scheduler.step (Scheduler.initial P io fd addr) history final)
    (haccepts : ∀ visit ∈ history, visit.1.acceptsAwait visit.2 = true)
    {body : P.Code} (hfree : SpawnFree body) (hspawned : SpawnedIn history task body)
    {results : ℕ → Int32} (hanswers : Answers task results final.io.posted)
    (hfinished : ∃ outcome, .finished task outcome ∈ final.log) :
    ∃ outcome, Solo.Reaches results body (.ended (receivedBy task final.log) outcome) ∧
      outcomesOf task final.log = [outcome] := by
  obtain ⟨visit, hvisit, rfl, hroom, below, hcall⟩ := hspawned
  obtain ⟨before, after, -, rfl, -⟩ := hrun.visit hvisit
  obtain ⟨middle, hbefore, hrest⟩ := hrun.split
  obtain ⟨hmiddle, start, hstart, hafter⟩ := hrest.first
  subst hmiddle
  have hinv : Accepting visit.1 := by
    refine hbefore.invariant_of_allowed Accepting (fun s label => s.acceptsAwait label = true)
      (.initial hfresh fd addr) ?_ ?_
    · exact fun s label next hgood haccept hstep => hgood.step hstep haccept
    · exact fun earlier hearlier => haccepts earlier (List.mem_append_left _ hearlier)
  have hinvStart := hinv.step hstart (haccepts visit (by simp))
  -- from the start of the task on, it follows the task by itself
  have hfollows : Accepting final ∧ (Answers visit.1.heap.next results final.io.posted →
      Follows visit.1.heap.next results body final) := by
    refine hafter.invariant_of_allowed
      (fun s => Accepting s ∧ (Answers visit.1.heap.next results s.io.posted →
        Follows visit.1.heap.next results body s))
      (fun s label => s.acceptsAwait label = true)
      ⟨hinvStart, fun _ => hinv.spawnStart hcall hroom hstart results⟩ ?_ ?_
    · rintro s label next ⟨hgood, hfollow⟩ haccept hstep
      obtain ⟨hcrash, hmove⟩ := Scheduler.move_of_step hstep
      have hnext := hgood.step hstep haccept
      refine ⟨hnext, fun hposted => ?_⟩
      have hposted' : Answers visit.1.heap.next results s.io.posted := fun cqe hcqe =>
        hposted cqe (hmove.posted_subset hgood.frames.ring.wellStacked hcqe)
      exact (hfollow hposted').step hgood.frames hcrash hmove hfree hposted'
        (hnext.not_refused _)
    · exact fun later hlater => haccepts later (by simp [hlater])
  obtain ⟨point, hreaches, hmatches⟩ := hfollows.2 hanswers
  obtain ⟨outcome, hmem⟩ := hfinished
  have hsome := mem_outcomesOf.mpr hmem
  cases hmatches with
  | underway hunderway => simp [hunderway.outcomes] at hsome
  | crashed _ _ houtcomes => simp [houtcomes] at hsome
  | ended hended =>
      rw [← hended.received] at hreaches
      exact ⟨_, hreaches, hended.outcomes⟩

/-- A run on a new ring in which tasks with these bodies are spawned and finish,
the kernel gives their operations these results, and no `await_suspend` returns
false. -/
structure FinishedRun {ι : Type} (bodies : ι → P.Code) (results : ι → ℕ → Int32) where
  io : IoState
  fd : Int32
  addr : UInt64
  history : List (Scheduler P × Label P)
  final : Scheduler P
  task : ι → FrameId
  fresh : io.Fresh
  run : Run Scheduler.step (Scheduler.initial P io fd addr) history final
  accepts : ∀ visit ∈ history, visit.1.acceptsAwait visit.2 = true
  spawned : ∀ i, SpawnedIn history (task i) (bodies i)
  answers : ∀ i, Answers (task i) (results i) final.io.posted
  finished : ∀ i, ∃ outcome, .finished (task i) outcome ∈ final.log

/-- Tasks which call no `spawn` and share no state (what a body does next
depends on what its own awaits have returned): any two runs which give their
operations the same results hand every task the same sequence of results, and
it ends with the same outcome in both. -/
theorem received_and_outcome_eq_of_same_results
    {ι : Type} {bodies : ι → P.Code} (hfree : ∀ i, SpawnFree (bodies i))
    {results : ι → ℕ → Int32} (first second : FinishedRun bodies results) (i : ι) :
    receivedBy (first.task i) first.final.log = receivedBy (second.task i) second.final.log ∧
      ∃ outcome, outcomesOf (first.task i) first.final.log = [outcome] ∧
        outcomesOf (second.task i) second.final.log = [outcome] := by
  obtain ⟨outcome, hreaches, houtcomes⟩ := reaches_ended first.fresh first.run first.accepts
    (hfree i) (first.spawned i) (first.answers i) (first.finished i)
  obtain ⟨outcome', hreaches', houtcomes'⟩ := reaches_ended second.fresh second.run
    second.accepts (hfree i) (second.spawned i) (second.answers i) (second.finished i)
  obtain ⟨hreceived, rfl⟩ := hreaches.ended_unique hreaches'
  exact ⟨hreceived, outcome, houtcomes, houtcomes'⟩

/-- Two scripts: one receive, and a receive with a deadline before another one. -/
def twoScripts : Bool → awaitScript.Code
  | false => [false]
  | true => [true, false]

def twoResults : Bool → ℕ → Int32
  | false, _ => 5
  | true, 0 => 7
  | true, _ => 9

theorem awaitScript_spawnFree (body : awaitScript.Code) : SpawnFree body := by
  intro code _ inner next hcode
  cases code with
  | nil => simp [awaitScript] at hcode
  | cons timed rest => simp [awaitScript] at hcode

instance : DecidableEq awaitScript.Code :=
  inferInstanceAs (DecidableEq (List Bool))

/-- Client code spawns the script as `task`. -/
def spawnsScript (task : FrameId) (script : awaitScript.Code)
    (visit : Scheduler awaitScript × Label awaitScript) : Bool :=
  visit.1.stack.isEmpty && !visit.1.closed && !visit.1.io.sq.isFull &&
    decide (visit.1.heap.next = task) &&
    match visit.2 with
    | .callSpawn body => decide (body = script)
    | _ => false

theorem SpawnedIn.of_spawnsScript
    {history : List (Scheduler awaitScript × Label awaitScript)} {task : FrameId}
    {script : awaitScript.Code} (hspawns : history.any (spawnsScript task script) = true) :
    SpawnedIn history task script := by
  obtain ⟨⟨s, label⟩, hvisit, hcheck⟩ := List.any_eq_true.mp hspawns
  cases label with
  | callSpawn body =>
      simp only [spawnsScript, Bool.and_eq_true, List.isEmpty_iff, Bool.not_eq_true',
        decide_eq_true_eq] at hcheck
      obtain ⟨⟨⟨⟨hstack, hopen⟩, hroom⟩, hnext⟩, rfl⟩ := hcheck
      exact ⟨_, hvisit, hnext, hroom, [], .client hstack hopen⟩
  | _ => simp [spawnsScript] at hcheck

/-- Both scripts are spawned, as tasks 0 and 1, and submitted. -/
def submitScripts : List (Label awaitScript) :=
  [.callSpawn [false], .runner true, .runner true, .callSpawn [true, false], .runner true,
    .runner true, .callRun false, .runner true, .runner true, .enter 4]

theorem exists_finishedRun_of_replay
    (labels : List (Label awaitScript)) (answers : List (Option Stamp × Int32))
    (hreplay : (replay Scheduler.step Scheduler.acceptsAwait
      (Scheduler.initial awaitScript (ringOfDepth 4) 3 64) labels).any
      (fun s => decide (s.io.posted.map (fun cqe => (cqe.stamp, cqe.res)) = answers ∧
        ∀ i : Bool, (outcomesOf i.toNat s.log).length = 1)) = true)
    (hspawns : ∀ i : Bool, (visits Scheduler.step
      (Scheduler.initial awaitScript (ringOfDepth 4) 3 64) labels).any
      (spawnsScript i.toNat (twoScripts i)) = true)
    (hanswers : ∀ answer ∈ answers, ∀ (i : Bool) n, answer.1 = some ⟨i.toNat, n⟩ →
      answer.2 = twoResults i n) :
    ∃ run : FinishedRun twoScripts twoResults, run.task = Bool.toNat ∧
      run.final.io.posted.map (fun cqe => (cqe.stamp, cqe.res)) = answers := by
  obtain ⟨final, hrun, haccepts, hcheck⟩ := run_visits_of_replay hreplay
  obtain ⟨hposted, houtcomes⟩ := of_decide_eq_true hcheck
  refine ⟨⟨_, 3, 64, _, final, Bool.toNat, (ringOfDepth_created 2 (by omega) rfl).toFresh, hrun,
    haccepts, fun i => .of_spawnsScript (hspawns i), ?_, ?_⟩, rfl, hposted⟩
  · intro i cqe hcqe n hstamp
    refine hanswers (cqe.stamp, cqe.res) ?_ i n hstamp
    rw [← hposted]
    exact List.mem_map.mpr ⟨cqe, hcqe, rfl⟩
  · intro i
    obtain ⟨outcome, hsingle⟩ := List.length_eq_one_iff.mp (houtcomes i)
    exact ⟨outcome, mem_outcomesOf.mp (by simp [hsingle])⟩

/-- The receives complete together, the first task's before the second's. -/
def completedTogether : List (Label awaitScript) :=
  submitScripts ++ [Label.complete 0 5, Label.complete 0 7, Label.complete 0 (-125)] ++
    List.replicate 13 (Label.runner true) ++ [Label.enter 1, Label.complete 1 9] ++
    List.replicate 4 (Label.runner true)

/-- The second task's receives complete before the first's, in another drain. -/
def completedReversed : List (Label awaitScript) :=
  submitScripts ++ [Label.complete 1 7] ++ List.replicate 9 (Label.runner true) ++
    [Label.enter 1, Label.complete 3 9, Label.complete 1 (-125), Label.complete 0 5] ++
    List.replicate 8 (Label.runner true)

theorem received_eq_reversedCompletions :
    ∃ first second : FinishedRun twoScripts twoResults,
      first.final.io.posted.map (fun cqe => (cqe.stamp, cqe.res)) =
        [(some ⟨0, 0⟩, 5), (some ⟨1, 0⟩, 7), (none, -125), (some ⟨1, 1⟩, 9)] ∧
      second.final.io.posted.map (fun cqe => (cqe.stamp, cqe.res)) =
        [(some ⟨1, 0⟩, 7), (some ⟨1, 1⟩, 9), (none, -125), (some ⟨0, 0⟩, 5)] ∧
      ∀ i, receivedBy (first.task i) first.final.log =
          receivedBy (second.task i) second.final.log ∧
        ∃ outcome, outcomesOf (first.task i) first.final.log = [outcome] ∧
          outcomesOf (second.task i) second.final.log = [outcome] := by
  obtain ⟨first, -, hfirst⟩ := exists_finishedRun_of_replay completedTogether
    [(some ⟨0, 0⟩, 5), (some ⟨1, 0⟩, 7), (none, -125), (some ⟨1, 1⟩, 9)]
    (by decide +kernel) (by decide +kernel) (by simp [twoResults])
  obtain ⟨second, -, hsecond⟩ := exists_finishedRun_of_replay completedReversed
    [(some ⟨1, 0⟩, 7), (some ⟨1, 1⟩, 9), (none, -125), (some ⟨0, 0⟩, 5)]
    (by decide +kernel) (by decide +kernel) (by simp [twoResults])
  exact ⟨first, second, hfirst, hsecond, received_and_outcome_eq_of_same_results
    (fun i => awaitScript_spawnFree (twoScripts i)) first second⟩

end SlimCommonIo
