import SlimCommonIo.DrivingThread
import SlimCommonIo.Scheduler
import SlimCommonIo.SubmissionRing
import SlimCommonIo.TransitionRuns
import Mathlib.Data.List.Perm.Subperm

/-!
# Whom `spawn` blames for a full ring

A refused await leaves its error in `tl_sq_full`, and the next `spawn` or
`drain` whose `handle.resume()` returns takes it.  That is the `spawn` of the
refused task only if the flag was clear when the resumption began, and if no
coroutine resumed by hand is refused in between.
-/

namespace SlimCommonIo

open Transition

/-- One of the task's awaits, or one of the inner tasks it awaits, was refused. -/
def Refused (log : List ThreadEvent) (task : FrameId) : Prop :=
  ∃ frame, .refused frame task ∈ log

/-- Every exit of `spawn` so far is an `SQFull` exactly if the ring was full at
the call or an await of the task had been refused.  A task is created by the
call, so all that is recorded of it happened during this call. -/
def BlamesOwn (log : List ThreadEvent) : Prop :=
  ∀ before task status after, log = before ++ .spawnExit task status :: after →
    (status = some .sqFull ↔
      .spawnCalled task true ∈ before ∨ Refused before task)

/-- Who takes the flag when the running resumption returns. -/
inductive Reader
  | spawn (task : FrameId)
  | drain
  deriving DecidableEq, Repr

namespace ThreadActivation

def reader : ThreadActivation → Option Reader
  | .coroutine (.spawn _) chain => some (.spawn chain.root)
  | .coroutine (.drain _) _ => some .drain
  | _ => none

def task : ThreadActivation → Option FrameId
  | .coroutine _ chain => some chain.root
  | _ => none

end ThreadActivation

namespace ThreadEvent

def task : ThreadEvent → FrameId
  | .spawnCalled task _ => task
  | .refused _ task => task
  | .spawnExit task _ => task

end ThreadEvent

namespace DrivingThread

/-- The readers of the flag on the stack, the next one first. -/
def readers (s : DrivingThread) : List Reader :=
  s.stack.filterMap ThreadActivation.reader

/-- The tasks which run or are suspended on an operation. -/
def alive (s : DrivingThread) : List FrameId :=
  s.stack.filterMap ThreadActivation.task ++ s.suspended.map fun entry => entry.2.root

/-- `spawn` resumes its task with the flag clear, and so does `drain` if the
flag would be read by a `spawn` otherwise; and an await is refused only where
the next reader is not the `spawn` of another task. -/
def readsOwnRefusal (s : DrivingThread) (label : ThreadLabel) : Bool :=
  match label, s.stack with
  | .callSpawn scheduler, _ =>
      (s.rings (s.schedulers scheduler).ring).isFull || !s.tlSqFull
  | .completion _, _ =>
      match s.readers with
      | .spawn _ :: _ => !s.tlSqFull
      | _ => true
  | .coAwait scheduler awt _ _ _, .coroutine _ chain :: _ =>
      match s.readers with
      | .spawn task :: _ =>
          (s.rings (s.schedulers scheduler).ring).hasCapacity awt.needed || chain.root == task
      | _ => true
  | _, _ => true

end DrivingThread

/-! ## What a step does to the flag -/

namespace DrivingThread

/-- The steps of a thread by what they do to the flag, its readers and the
history.  A resumption ends in `spawnReturned` or `drainReturned`; one made by
`Task::resume` ends quietly. -/
inductive FlagMove (s : DrivingThread) : ThreadLabel → DrivingThread → Prop
  | quiet {label : ThreadLabel} {next : DrivingThread}
      (hreaders : next.readers = s.readers) (halive : next.alive.Subperm s.alive)
      (hflag : next.tlSqFull = s.tlSqFull) (hlog : next.log = s.log)
      (hnext : s.nextFrame ≤ next.nextFrame) : FlagMove s label next
  | resumeNew {label : ThreadLabel} {next : DrivingThread}
      (hreaders : next.readers = s.readers)
      (halive : next.alive.Subperm (s.nextFrame :: s.alive))
      (hflag : next.tlSqFull = s.tlSqFull) (hlog : next.log = s.log)
      (hnext : next.nextFrame = s.nextFrame + 1) : FlagMove s label next
  | refuse {scheduler : SchedulerId} {awt : Awaitable} {object ordinal : ℕ}
      {allocated : Bool} {resumer : Resumer} {chain : TaskChain}
      {rest : List ThreadActivation} (hstack : s.stack = .coroutine resumer chain :: rest)
      (hroom : (s.rings (s.schedulers scheduler).ring).hasCapacity awt.needed = false) :
      FlagMove s (.coAwait scheduler awt object ordinal allocated)
        { s with
          tlSqFull := true
          log := s.log ++ [.refused chain.current chain.root] }
  | spawnFull {scheduler : SchedulerId} {next : DrivingThread}
      (hreaders : next.readers = s.readers) (halive : next.alive = s.alive)
      (hflag : next.tlSqFull = s.tlSqFull)
      (hlog : next.log = s.log ++
        [.spawnCalled s.nextFrame true] ++ [.spawnExit s.nextFrame (some .sqFull)])
      (hnext : next.nextFrame = s.nextFrame + 1) :
      FlagMove s (.callSpawn scheduler) next
  | spawnStart {scheduler : SchedulerId} {next : DrivingThread}
      (hroom : (s.rings (s.schedulers scheduler).ring).isFull = false)
      (hreaders : next.readers = .spawn s.nextFrame :: s.readers)
      (halive : next.alive = s.nextFrame :: s.alive)
      (hflag : next.tlSqFull = s.tlSqFull)
      (hlog : next.log = s.log ++ [.spawnCalled s.nextFrame false])
      (hnext : next.nextFrame = s.nextFrame + 1) :
      FlagMove s (.callSpawn scheduler) next
  | completion {index : ℕ} {next : DrivingThread}
      (hreaders : next.readers = .drain :: s.readers)
      (halive : next.alive.Subperm s.alive)
      (hflag : next.tlSqFull = s.tlSqFull) (hlog : next.log = s.log)
      (hnext : next.nextFrame = s.nextFrame) : FlagMove s (.completion index) next
  | spawnReturned {label : ThreadLabel} {next : DrivingThread} {task : FrameId}
      {status : Option ErrorStatus} (hstatus : status = some .sqFull ↔ s.tlSqFull = true)
      (hreaders : s.readers = .spawn task :: next.readers)
      (halive : next.alive.Subperm s.alive)
      (hflag : next.tlSqFull = false) (hlog : next.log = s.log ++ [.spawnExit task status])
      (hnext : next.nextFrame = s.nextFrame) : FlagMove s label next
  | drainReturned {label : ThreadLabel} {next : DrivingThread}
      (hreaders : s.readers = .drain :: next.readers)
      (halive : next.alive.Subperm s.alive)
      (hflag : next.tlSqFull = false) (hlog : next.log = s.log)
      (hnext : next.nextFrame = s.nextFrame) : FlagMove s label next

@[simp]
theorem takePendingSqError_fst (s : DrivingThread) :
    s.takePendingSqError.1 = { s with tlSqFull := false } := by
  unfold takePendingSqError
  split
  next => rfl
  next hclear =>
    cases s
    simp_all

@[simp]
theorem takePendingSqError_snd (s : DrivingThread) :
    s.takePendingSqError.2 = s.tlSqFull := by
  unfold takePendingSqError
  split <;> simp_all

theorem FlagMove.of_resumeReturned
    {s : DrivingThread} {label : ThreadLabel} {resumer : Resumer} {chain : TaskChain}
    {rest : List ThreadActivation} (hstack : s.stack = .coroutine resumer chain :: rest)
    (allocated : Bool) {middle : DrivingThread} (hflag : middle.tlSqFull = s.tlSqFull)
    (hlog : middle.log = s.log) (hnext : middle.nextFrame = s.nextFrame)
    (halive : (rest.filterMap ThreadActivation.task ++
      middle.suspended.map fun entry => entry.2.root).Subperm s.alive) :
    FlagMove s label (middle.resumeReturned resumer chain.root allocated rest) := by
  cases resumer with
  | spawn scheduler =>
      have hexit : (middle.resumeReturned (.spawn scheduler) chain.root allocated rest).log =
          s.log ++ [.spawnExit chain.root
            (if s.tlSqFull then some .sqFull
            else if allocated then none else some .badAllocation)] := by
        simp [resumeReturned, hlog, hflag]
      refine .spawnReturned ?_ ?_ ?_ ?_ hexit ?_
      · cases s.tlSqFull <;> cases allocated <;> simp
      · simp [readers, resumeReturned, hstack, ThreadActivation.reader]
      · simpa [alive, resumeReturned] using halive
      · simp [resumeReturned]
      · simp [resumeReturned, hnext]
  | drain scheduler =>
      apply FlagMove.drainReturned
      · simp [readers, resumeReturned, hstack, ThreadActivation.reader, List.filterMap_cons]
      · simpa [alive, resumeReturned, ThreadActivation.task, List.filterMap_cons] using halive
      · simp [resumeReturned]
      · simp [resumeReturned, hlog]
      · simp [resumeReturned, hnext]
  | task =>
      apply FlagMove.quiet
      · simp [readers, resumeReturned, hstack, ThreadActivation.reader, List.filterMap_cons]
      · simpa [alive, resumeReturned] using halive
      · simp [resumeReturned, hflag]
      · simp [resumeReturned, hlog]
      · simp [resumeReturned, hnext]

theorem FlagMove.of_coAwait
    {s : DrivingThread} {scheduler : SchedulerId} {awt : Awaitable} {object ordinal : ℕ}
    {allocated : Bool} {resumer : Resumer} {chain : TaskChain}
    {rest : List ThreadActivation} (hstack : s.stack = .coroutine resumer chain :: rest) :
    FlagMove s (.coAwait scheduler awt object ordinal allocated)
      (s.coAwait (s.schedulers scheduler).ring awt object ordinal allocated
        resumer chain rest) := by
  unfold DrivingThread.coAwait
  split
  next hnone =>
    rw [Awaitable.awaitSuspend_eq] at hnone
    apply FlagMove.refuse hstack
    split at hnone
    next => simp at hnone
    next hroom => simpa using hroom
  next sq _ =>
    apply FlagMove.of_resumeReturned hstack
    · rfl
    · rfl
    · rfl
    · -- the task moves from the stack to the suspended ones
      apply List.Perm.subperm
      simp only [alive, hstack, ThreadActivation.task, List.map_append, List.map_cons,
        List.map_nil, ← List.append_assoc]
      exact List.perm_append_singleton _ _

theorem FlagMove.of_finish
    {s : DrivingThread} {allocated : Bool} {resumer : Resumer} {chain : TaskChain}
    {rest : List ThreadActivation} (hstack : s.stack = .coroutine resumer chain :: rest) :
    FlagMove s (.finish allocated) (s.finish allocated resumer chain rest) := by
  unfold DrivingThread.finish
  split
  next =>
    apply FlagMove.quiet
    · cases resumer <;>
        simp [readers, hstack, ThreadActivation.reader, List.filterMap_cons]
    · simp [alive, hstack, ThreadActivation.task, List.Subperm.refl]
    · rfl
    · rfl
    · exact le_rfl
  next =>
    apply FlagMove.of_resumeReturned hstack
    · rfl
    · rfl
    · rfl
    · apply List.Sublist.subperm
      simp [alive, hstack, ThreadActivation.task]

theorem FlagMove.of_callSpawn {s : DrivingThread} (scheduler : SchedulerId) :
    FlagMove s (.callSpawn scheduler) (s.callSpawn scheduler) := by
  unfold DrivingThread.callSpawn
  dsimp only
  split
  next =>
    apply FlagMove.spawnFull
    · rfl
    · rfl
    · rfl
    · simp
    · rfl
  next hroom =>
    apply FlagMove.spawnStart
    · simpa using hroom
    · simp [readers, ThreadActivation.reader]
    · simp [alive, ThreadActivation.task]
    · rfl
    · rfl
    · rfl

theorem FlagMove.of_callDrain
    {s next : DrivingThread} {scheduler : SchedulerId} {accepted : ℕ}
    (hcall : s.callDrain scheduler accepted = some next) :
    FlagMove s (.callDrain scheduler accepted) next := by
  unfold DrivingThread.callDrain at hcall
  dsimp only at hcall
  generalize (if (s.schedulers scheduler).eventfdArmed = true then _ else _) = sq at hcall
  split at hcall
  next =>
    rw [Option.some.injEq] at hcall
    subst hcall
    apply FlagMove.quiet
    · simp [readers, ThreadActivation.reader, List.filterMap_cons]
    · simp [alive, ThreadActivation.task, List.filterMap_cons, List.Subperm.refl]
    · rfl
    · rfl
    · exact le_rfl
  next => simp at hcall

theorem alive_resumeSuspended
    {s : DrivingThread} {index : ℕ} {ring : RingId} {chain : TaskChain}
    (hentry : s.suspended[index]? = some (ring, chain)) (resumer : Resumer)
    {rest : List ThreadActivation}
    (hrest : rest.filterMap ThreadActivation.task = s.stack.filterMap ThreadActivation.task) :
    (s.resumeSuspended resumer index chain rest).alive.Subperm s.alive := by
  apply List.Perm.subperm
  obtain ⟨hindex, hget⟩ := List.getElem?_eq_some_iff.mp hentry
  have herase := (List.getElem_cons_eraseIdx_perm hindex).map
    fun entry : RingId × TaskChain => entry.2.root
  rw [hget, List.map_cons] at herase
  have hstack : (s.resumeSuspended resumer index chain rest).alive =
      chain.root :: (s.stack.filterMap ThreadActivation.task ++
        (s.suspended.eraseIdx index).map fun entry => entry.2.root) := by
    simp [alive, resumeSuspended, ThreadActivation.task, hrest]
  rw [hstack]
  exact List.perm_middle.symm.trans (herase.append_left _)

theorem FlagMove.of_step
    {s next : DrivingThread} {label : ThreadLabel} (hstep : s.step label = some next) :
    FlagMove s label next := by
  unfold DrivingThread.step at hstep
  cases label with
  | coAwait scheduler awt object ordinal allocated =>
      dsimp only at hstep
      split at hstep
      next hstack =>
        rw [Option.some.injEq] at hstep
        subst hstep
        exact .of_coAwait hstack
      next => simp at hstep
  | coAwaitTask =>
      dsimp only at hstep
      split at hstep
      next resumer chain rest hstack =>
        rw [Option.some.injEq] at hstep
        subst hstep
        apply FlagMove.quiet
        · cases resumer <;>
            simp [readers, hstack, ThreadActivation.reader, List.filterMap_cons]
        · simp [alive, hstack, ThreadActivation.task, List.Subperm.refl]
        · rfl
        · rfl
        · exact Nat.le_succ _
      next => simp at hstep
  | finish allocated =>
      dsimp only at hstep
      split at hstep
      next hstack =>
        rw [Option.some.injEq] at hstep
        subst hstep
        exact .of_finish hstack
      next => simp at hstep
  | callSpawn scheduler =>
      dsimp only at hstep
      split at hstep
      next =>
        rw [Option.some.injEq] at hstep
        subst hstep
        exact .of_callSpawn scheduler
      next => simp at hstep
  | callResume =>
      dsimp only at hstep
      split at hstep
      next =>
        rw [Option.some.injEq] at hstep
        subst hstep
        apply FlagMove.resumeNew
        · simp [readers, ThreadActivation.reader, List.filterMap_cons]
        · simp [alive, ThreadActivation.task, List.Subperm.refl]
        · rfl
        · rfl
        · rfl
      next => simp at hstep
  | callResumeAgain index =>
      dsimp only at hstep
      split at hstep
      next ring chain hentry =>
        split at hstep
        next =>
          rw [Option.some.injEq] at hstep
          subst hstep
          apply FlagMove.quiet
          · simp [readers, resumeSuspended, ThreadActivation.reader, List.filterMap_cons]
          · exact alive_resumeSuspended hentry .task rfl
          · rfl
          · rfl
          · exact le_rfl
        next => simp at hstep
      next => simp at hstep
  | callDrain scheduler accepted =>
      dsimp only at hstep
      split at hstep
      next => exact .of_callDrain hstep
      next => simp at hstep
  | completion index =>
      dsimp only at hstep
      split at hstep
      next scheduler rest ring chain hstack hentry =>
        split at hstep
        next =>
          rw [Option.some.injEq] at hstep
          subst hstep
          apply FlagMove.completion
          · simp [readers, resumeSuspended, hstack, ThreadActivation.reader,
              List.filterMap_cons]
          · apply alive_resumeSuspended hentry
            simp [hstack, ThreadActivation.task, List.filterMap_cons]
          · rfl
          · rfl
          · rfl
        next => simp at hstep
      next => simp at hstep
  | sentinel | invoke | endJob | escapeJob | endInbox | leaveDrain =>
      dsimp only at hstep
      split at hstep
      next hstack =>
        rw [Option.some.injEq] at hstep
        subst hstep
        apply FlagMove.quiet
        · simp [readers, sentinel, hstack, ThreadActivation.reader, List.filterMap_cons]
        · simp [alive, sentinel, hstack, ThreadActivation.task, List.filterMap_cons,
            List.Subperm.refl]
        · rfl
        · rfl
        · exact le_rfl
      next => simp at hstep

end DrivingThread

/-! ## Tasks on the thread -/

/-- Every task is in one place. -/
structure DistinctTasks (s : DrivingThread) : Prop where
  nodup : s.alive.Nodup
  older : ∀ task ∈ s.alive, task < s.nextFrame

namespace DistinctTasks

theorem initial (rings : RingId → SubmissionQueue)
    (schedulers : SchedulerId → SchedulerRecord) :
    DistinctTasks (DrivingThread.initial rings schedulers) := by
  constructor <;> simp [DrivingThread.initial, DrivingThread.alive]

theorem move
    {s next : DrivingThread} (hinv : DistinctTasks s) (halive : next.alive.Subperm s.alive)
    (hnext : s.nextFrame ≤ next.nextFrame) : DistinctTasks next := by
  constructor
  · obtain ⟨middle, hperm, hsub⟩ := halive
    exact hperm.nodup_iff.mp (hsub.nodup hinv.nodup)
  · intro task htask
    exact Nat.lt_of_lt_of_le (hinv.older task (halive.subset htask)) hnext

theorem create
    {s next : DrivingThread} (hinv : DistinctTasks s)
    (halive : next.alive.Subperm (s.nextFrame :: s.alive))
    (hnext : next.nextFrame = s.nextFrame + 1) : DistinctTasks next := by
  constructor
  · have hnodup : (s.nextFrame :: s.alive).Nodup := by
      rw [List.nodup_cons]
      refine ⟨?_, hinv.nodup⟩
      intro hmem
      exact Nat.lt_irrefl _ (hinv.older _ hmem)
    obtain ⟨middle, hperm, hsub⟩ := halive
    exact hperm.nodup_iff.mp (hsub.nodup hnodup)
  · intro task htask
    rw [hnext]
    rcases List.mem_cons.mp (halive.subset htask) with heq | hold
    · rw [heq]
      exact Nat.lt_succ_self _
    · exact Nat.lt_succ_of_lt (hinv.older task hold)

theorem step
    {s next : DrivingThread} {label : ThreadLabel} (hinv : DistinctTasks s)
    (hmove : s.FlagMove label next) : DistinctTasks next := by
  cases hmove with
  | quiet _ halive _ _ hnext => exact hinv.move halive hnext
  | resumeNew _ halive _ _ hnext => exact hinv.create halive hnext
  | refuse _ _ => exact hinv.move (List.Subperm.refl _) le_rfl
  | spawnFull _ halive _ _ hnext =>
      apply hinv.move
      · rw [halive]
      · rw [hnext]
        exact Nat.le_succ _
  | spawnStart _ _ halive _ _ hnext =>
      apply hinv.create _ hnext
      rw [halive]
  | completion _ halive _ _ hnext => exact hinv.move halive hnext.ge
  | spawnReturned _ _ halive _ _ hnext => exact hinv.move halive hnext.ge
  | drainReturned _ halive _ _ hnext => exact hinv.move halive hnext.ge

end DistinctTasks

theorem mem_task_of_mem_reader
    {stack : List ThreadActivation} {task : FrameId}
    (hreader : .spawn task ∈ stack.filterMap ThreadActivation.reader) :
    task ∈ stack.filterMap ThreadActivation.task := by
  obtain ⟨act, hact, hreads⟩ := List.mem_filterMap.mp hreader
  refine List.mem_filterMap.mpr ⟨act, hact, ?_⟩
  unfold ThreadActivation.reader at hreads
  split at hreads
  next => simpa [ThreadActivation.task] using hreads
  next => simp at hreads
  next => simp at hreads

theorem DistinctTasks.reader_lt
    {s : DrivingThread} (hinv : DistinctTasks s) {task : FrameId}
    (hreader : .spawn task ∈ s.readers) : task < s.nextFrame :=
  hinv.older task (List.mem_append_left _ (mem_task_of_mem_reader hreader))

theorem DistinctTasks.ne_outer
    {s : DrivingThread} (hinv : DistinctTasks s) {resumer : Resumer} {chain : TaskChain}
    {rest : List ThreadActivation} (hstack : s.stack = .coroutine resumer chain :: rest)
    {task : FrameId} (houter : .spawn task ∈ s.readers.tail) : chain.root ≠ task := by
  have hrest : .spawn task ∈ rest.filterMap ThreadActivation.reader := by
    cases resumer with
    | task =>
        apply List.mem_of_mem_tail
        simpa [DrivingThread.readers, hstack, ThreadActivation.reader, List.filterMap_cons]
          using houter
    | spawn _ | drain _ =>
        simpa [DrivingThread.readers, hstack, ThreadActivation.reader] using houter
  have hnodup := hinv.nodup
  simp only [DrivingThread.alive, hstack, ThreadActivation.task, List.filterMap_cons,
    List.cons_append, List.nodup_cons, List.mem_append, not_or] at hnodup
  intro heq
  apply hnodup.1.1
  rw [heq]
  exact mem_task_of_mem_reader hrest

/-! ## The flag and its readers -/

theorem Refused.append
    {log : List ThreadEvent} {task : FrameId} (more : List ThreadEvent)
    (hrefused : Refused log task) : Refused (log ++ more) task := by
  obtain ⟨frame, hmem⟩ := hrefused
  exact ⟨frame, List.mem_append_left _ hmem⟩

theorem refused_append_iff
    {log : List ThreadEvent} {event : ThreadEvent} {task : FrameId}
    (hevent : ∀ frame, event ≠ .refused frame task) :
    Refused (log ++ [event]) task ↔ Refused log task := by
  constructor
  · rintro ⟨frame, hmem⟩
    rcases List.mem_append.mp hmem with hold | hnew
    · exact ⟨frame, hold⟩
    · exact absurd (List.mem_singleton.mp hnew).symm (hevent frame)
  · exact Refused.append [event]

theorem BlamesOwn.snoc
    {log : List ThreadEvent} (hblames : BlamesOwn log) (event : ThreadEvent)
    (hexit : ∀ task status, event = .spawnExit task status →
      (status = some .sqFull ↔ .spawnCalled task true ∈ log ∨ Refused log task)) :
    BlamesOwn (log ++ [event]) := by
  intro before task status after hsplit
  induction after using List.reverseRecOn with
  | nil =>
      obtain ⟨hlog, hevent⟩ := List.append_inj' hsplit rfl
      rw [List.singleton_inj] at hevent
      rw [← hlog]
      exact hexit task status hevent
  | append_singleton after last _ =>
      rw [← List.cons_append, ← List.append_assoc] at hsplit
      obtain ⟨hlog, -⟩ := List.append_inj' hsplit rfl
      exact hblames before task status after hlog

/-- The next reader of the flag is a `spawn` only if the flag says whether its
task has been refused; the tasks of the other waiting `spawn`s have not been. -/
structure FlagInvariant (s : DrivingThread) : Prop where
  tasks : DistinctTasks s
  logged : ∀ event ∈ s.log, event.task < s.nextFrame
  roomy : ∀ task, .spawn task ∈ s.readers → .spawnCalled task true ∉ s.log
  next : ∀ task, s.readers.head? = some (.spawn task) →
    (s.tlSqFull = true ↔ Refused s.log task)
  outer : ∀ task, .spawn task ∈ s.readers.tail → ¬ Refused s.log task
  blames : BlamesOwn s.log

namespace FlagInvariant

theorem initial (rings : RingId → SubmissionQueue)
    (schedulers : SchedulerId → SchedulerRecord) :
    FlagInvariant (DrivingThread.initial rings schedulers) where
  tasks := .initial rings schedulers
  logged := by simp [DrivingThread.initial]
  roomy := by simp [DrivingThread.initial]
  next := by simp [DrivingThread.initial, DrivingThread.readers]
  outer := by simp [DrivingThread.initial, DrivingThread.readers]
  blames := by simp [DrivingThread.initial, BlamesOwn]

theorem not_refused_new
    {s : DrivingThread} (hinv : FlagInvariant s) : ¬ Refused s.log s.nextFrame := by
  rintro ⟨frame, hmem⟩
  exact Nat.lt_irrefl _ (hinv.logged _ hmem)

/-- Where the flag is clear, or the next reader is a `drain`, no waiting
`spawn` has a refused task. -/
theorem unrefused
    {s : DrivingThread} (hinv : FlagInvariant s)
    (hclear : ∀ task, s.readers.head? = some (.spawn task) → s.tlSqFull = false)
    {task : FrameId} (hreader : .spawn task ∈ s.readers) : ¬ Refused s.log task := by
  cases hreaders : s.readers with
  | nil => simp [hreaders] at hreader
  | cons first more =>
      rw [hreaders, List.mem_cons] at hreader
      rcases hreader with heq | hmore
      · have hhead : s.readers.head? = some (.spawn task) := by simp [hreaders, heq]
        rw [← hinv.next task hhead, hclear task hhead]
        simp
      · apply hinv.outer task
        rw [hreaders]
        exact hmore

theorem kept
    {s next : DrivingThread} (hinv : FlagInvariant s) (htasks : DistinctTasks next)
    (hreaders : next.readers = s.readers) (hflag : next.tlSqFull = s.tlSqFull)
    (hlog : next.log = s.log) (hnext : s.nextFrame ≤ next.nextFrame) :
    FlagInvariant next where
  tasks := htasks
  logged := by
    intro event hevent
    rw [hlog] at hevent
    exact Nat.lt_of_lt_of_le (hinv.logged event hevent) hnext
  roomy := by
    rw [hreaders, hlog]
    exact hinv.roomy
  next := by
    rw [hreaders, hlog, hflag]
    exact hinv.next
  outer := by
    rw [hreaders, hlog]
    exact hinv.outer
  blames := by
    rw [hlog]
    exact hinv.blames

theorem afterRefusal
    {s : DrivingThread} (hinv : FlagInvariant s) {resumer : Resumer} {chain : TaskChain}
    {rest : List ThreadActivation} (hstack : s.stack = .coroutine resumer chain :: rest)
    (hown : ∀ task, s.readers.head? = some (.spawn task) → chain.root = task) :
    FlagInvariant
      { s with
        tlSqFull := true
        log := s.log ++ [.refused chain.current chain.root] } where
  tasks := hinv.tasks.move (List.Subperm.refl _) le_rfl
  logged := by
    have hroot : chain.root < s.nextFrame := by
      apply hinv.tasks.older
      simp [DrivingThread.alive, hstack, ThreadActivation.task]
    intro event hevent
    rcases List.mem_append.mp hevent with hold | hnew
    · exact hinv.logged event hold
    · rw [List.mem_singleton.mp hnew]
      exact hroot
  roomy := by
    intro task hreader hcalled
    rcases List.mem_append.mp hcalled with hold | hnew
    · exact hinv.roomy task hreader hold
    · simp at hnew
  next := by
    intro task hhead
    have heq : chain.root = task := hown task hhead
    constructor
    · intro _
      exact ⟨chain.current, by simp [heq]⟩
    · intro _
      rfl
  outer := by
    intro task houter
    have hne := hinv.tasks.ne_outer hstack houter
    rw [refused_append_iff]
    · exact hinv.outer task houter
    · intro frame heq
      exact hne (ThreadEvent.refused.inj heq).2
  blames := hinv.blames.snoc _ (by simp)

theorem afterSpawnFull
    {s next : DrivingThread} (hinv : FlagInvariant s) (htasks : DistinctTasks next)
    (hreaders : next.readers = s.readers) (hflag : next.tlSqFull = s.tlSqFull)
    (hlog : next.log = s.log ++
      [.spawnCalled s.nextFrame true] ++ [.spawnExit s.nextFrame (some .sqFull)])
    (hnext : next.nextFrame = s.nextFrame + 1) : FlagInvariant next where
  tasks := htasks
  logged := by
    intro event hevent
    rw [hlog, List.append_assoc] at hevent
    rw [hnext]
    rcases List.mem_append.mp hevent with hold | hnew
    · exact Nat.lt_succ_of_lt (hinv.logged event hold)
    · simp only [List.cons_append, List.nil_append, List.mem_cons, List.not_mem_nil,
        or_false] at hnew
      rcases hnew with rfl | rfl <;> exact Nat.lt_succ_self _
  roomy := by
    intro task hreader hcalled
    rw [hreaders] at hreader
    have hlt := hinv.tasks.reader_lt hreader
    rw [hlog, List.append_assoc] at hcalled
    rcases List.mem_append.mp hcalled with hold | hnew
    · exact hinv.roomy task hreader hold
    · have heq : task = s.nextFrame := by simpa using hnew
      exact Nat.lt_irrefl _ (heq ▸ hlt)
  next := by
    rw [hreaders, hflag, hlog]
    intro task hhead
    rw [refused_append_iff (by simp), refused_append_iff (by simp)]
    exact hinv.next task hhead
  outer := by
    rw [hreaders, hlog]
    intro task houter
    rw [refused_append_iff (by simp), refused_append_iff (by simp)]
    exact hinv.outer task houter
  blames := by
    rw [hlog]
    apply (hinv.blames.snoc (.spawnCalled s.nextFrame true) (by simp)).snoc
    intro task status hexit
    obtain ⟨rfl, rfl⟩ := ThreadEvent.spawnExit.inj hexit
    simp

theorem afterSpawnStart
    {s next : DrivingThread} (hinv : FlagInvariant s) (htasks : DistinctTasks next)
    (hclear : s.tlSqFull = false)
    (hreaders : next.readers = .spawn s.nextFrame :: s.readers)
    (hflag : next.tlSqFull = s.tlSqFull)
    (hlog : next.log = s.log ++ [.spawnCalled s.nextFrame false])
    (hnext : next.nextFrame = s.nextFrame + 1) : FlagInvariant next where
  tasks := htasks
  logged := by
    intro event hevent
    rw [hlog] at hevent
    rw [hnext]
    rcases List.mem_append.mp hevent with hold | hnew
    · exact Nat.lt_succ_of_lt (hinv.logged event hold)
    · rw [List.mem_singleton.mp hnew]
      exact Nat.lt_succ_self _
  roomy := by
    intro task hreader hcalled
    rw [hlog] at hcalled
    have hold : .spawnCalled task true ∈ s.log := by simpa using hcalled
    rw [hreaders, List.mem_cons, Reader.spawn.injEq] at hreader
    rcases hreader with rfl | hreader
    · exact Nat.lt_irrefl _ (hinv.logged _ hold)
    · exact hinv.roomy task hreader hold
  next := by
    intro task hhead
    rw [hreaders] at hhead
    have heq : s.nextFrame = task := by simpa using hhead
    rw [hflag, hclear, hlog, refused_append_iff (by simp), ← heq]
    simpa using hinv.not_refused_new
  outer := by
    intro task houter
    rw [hreaders] at houter
    rw [hlog, refused_append_iff (by simp)]
    exact hinv.unrefused (fun _ _ => hclear) houter
  blames := by
    rw [hlog]
    exact hinv.blames.snoc _ (by simp)

theorem afterCompletion
    {s next : DrivingThread} (hinv : FlagInvariant s) (htasks : DistinctTasks next)
    (hclear : ∀ task, s.readers.head? = some (.spawn task) → s.tlSqFull = false)
    (hreaders : next.readers = .drain :: s.readers) (hlog : next.log = s.log)
    (hnext : next.nextFrame = s.nextFrame) : FlagInvariant next where
  tasks := htasks
  logged := by
    rw [hlog, hnext]
    exact hinv.logged
  roomy := by
    rw [hreaders, hlog]
    simpa using hinv.roomy
  next := by simp [hreaders]
  outer := by
    rw [hreaders, hlog]
    intro task houter
    exact hinv.unrefused hclear houter
  blames := by
    rw [hlog]
    exact hinv.blames

/-- The next reader has taken the flag; what it appends to the history is no
refusal and no call of a waiting `spawn`. -/
theorem afterTake
    {s next : DrivingThread} (hinv : FlagInvariant s) (htasks : DistinctTasks next)
    {reader : Reader} (hreaders : s.readers = reader :: next.readers)
    (hflag : next.tlSqFull = false) (hnext : next.nextFrame = s.nextFrame)
    (hlogged : ∀ event ∈ next.log, event.task < s.nextFrame)
    (hcalled : ∀ task, .spawnCalled task true ∈ next.log → .spawnCalled task true ∈ s.log)
    (hrefused : ∀ task, Refused next.log task ↔ Refused s.log task)
    (hblames : BlamesOwn next.log) : FlagInvariant next where
  tasks := htasks
  logged := by
    rw [hnext]
    exact hlogged
  roomy := by
    intro task hreader hnew
    apply hinv.roomy task _ (hcalled task hnew)
    rw [hreaders]
    exact List.mem_cons_of_mem _ hreader
  next := by
    intro task hhead
    have houter : .spawn task ∈ s.readers.tail := by
      rw [hreaders]
      exact List.mem_of_mem_head? hhead
    rw [hflag, hrefused]
    simpa using hinv.outer task houter
  outer := by
    intro task houter
    rw [hrefused]
    apply hinv.outer task
    rw [hreaders]
    exact List.mem_of_mem_tail houter
  blames := hblames

theorem afterSpawnReturned
    {s next : DrivingThread} (hinv : FlagInvariant s) (htasks : DistinctTasks next)
    {task : FrameId} {status : Option ErrorStatus}
    (hstatus : status = some .sqFull ↔ s.tlSqFull = true)
    (hreaders : s.readers = .spawn task :: next.readers) (hflag : next.tlSqFull = false)
    (hlog : next.log = s.log ++ [.spawnExit task status])
    (hnext : next.nextFrame = s.nextFrame) : FlagInvariant next := by
  have hreader : .spawn task ∈ s.readers := by simp [hreaders]
  apply hinv.afterTake htasks hreaders hflag hnext
  · intro event hevent
    rw [hlog] at hevent
    rcases List.mem_append.mp hevent with hold | hnew
    · exact hinv.logged event hold
    · rw [List.mem_singleton.mp hnew]
      exact hinv.tasks.reader_lt hreader
  · intro other hcalled
    rw [hlog] at hcalled
    simpa using hcalled
  · intro other
    rw [hlog, refused_append_iff (by simp)]
  · rw [hlog]
    apply hinv.blames.snoc
    intro other other' hexit
    obtain ⟨rfl, rfl⟩ := ThreadEvent.spawnExit.inj hexit
    rw [hstatus, hinv.next task (by simp [hreaders])]
    have hroomy := hinv.roomy task hreader
    simp [hroomy]

theorem step
    {s next : DrivingThread} {label : ThreadLabel} (hinv : FlagInvariant s)
    (hstep : s.step label = some next) (hreads : s.readsOwnRefusal label = true) :
    FlagInvariant next := by
  have hmove := DrivingThread.FlagMove.of_step hstep
  have htasks := hinv.tasks.step hmove
  cases hmove with
  | quiet hreaders _ hflag hlog hnext => exact hinv.kept htasks hreaders hflag hlog hnext
  | resumeNew hreaders _ hflag hlog hnext =>
      exact hinv.kept htasks hreaders hflag hlog (by rw [hnext]; exact Nat.le_succ _)
  | refuse hstack hroom =>
      apply hinv.afterRefusal hstack
      intro task hhead
      obtain ⟨more, hreaders⟩ := List.head?_eq_some_iff.mp hhead
      simpa [DrivingThread.readsOwnRefusal, hstack, hreaders, hroom] using hreads
  | spawnFull hreaders _ hflag hlog hnext =>
      exact hinv.afterSpawnFull htasks hreaders hflag hlog hnext
  | spawnStart hroom hreaders _ hflag hlog hnext =>
      have hclear : s.tlSqFull = false := by
        simpa [DrivingThread.readsOwnRefusal, hroom] using hreads
      exact hinv.afterSpawnStart htasks hclear hreaders hflag hlog hnext
  | completion hreaders _ hflag hlog hnext =>
      apply hinv.afterCompletion htasks _ hreaders hlog hnext
      intro task hhead
      obtain ⟨more, hold⟩ := List.head?_eq_some_iff.mp hhead
      simpa [DrivingThread.readsOwnRefusal, hold] using hreads
  | spawnReturned hstatus hreaders _ hflag hlog hnext =>
      exact hinv.afterSpawnReturned htasks hstatus hreaders hflag hlog hnext
  | drainReturned hreaders _ hflag hlog hnext =>
      apply hinv.afterTake htasks hreaders hflag hnext
      · rw [hlog]
        exact hinv.logged
      · rw [hlog]
        exact fun _ hcalled => hcalled
      · rw [hlog]
        exact fun _ => Iff.rfl
      · rw [hlog]
        exact hinv.blames

end FlagInvariant

/-- On every thread, with any schedulers and rings: if every step meets
`readsOwnRefusal`, then in every state of the run `spawn` has thrown `SQFull`
exactly for the tasks whose ring was full at the call or which were refused an
await themselves. -/
theorem spawn_blames_own_of_readsOwnRefusal
    {rings : RingId → SubmissionQueue} {schedulers : SchedulerId → SchedulerRecord}
    {history : List (DrivingThread × ThreadLabel)} {final : DrivingThread}
    (hrun : Run DrivingThread.step (DrivingThread.initial rings schedulers) history final)
    (hreads : ∀ visit ∈ history, visit.1.readsOwnRefusal visit.2 = true) :
    (∀ visit ∈ history, BlamesOwn visit.1.log) ∧ BlamesOwn final.log := by
  apply hrun.forall_good_of_allowed FlagInvariant (fun s => BlamesOwn s.log)
    (fun s label => s.readsOwnRefusal label = true) (.initial rings schedulers)
  · intro s hinv
    exact hinv.blames
  · intro s label next hinv hstep hallowed
    exact hinv.step hstep hallowed
  · exact hreads

/-- Two schedulers on rings of their own with one and two entries. -/
def twoSchedulers : DrivingThread :=
  DrivingThread.initial
    (fun ring => if ring = 0 then (ringOfDepth 1).sq else (ringOfDepth 2).sq)
    (fun scheduler => { ring := scheduler, eventfdFd := 3, eventfdBufAddr := 64 })

def untimedRecv : Awaitable := { op := .recv 0 0 1 0 }

def timedRecv : Awaitable := { untimedRecv with timeoutTs := some ⟨1, 0⟩ }

/-- A task's inner task is refused; then a task is spawned from the body of
another one, on another ring. -/
def refusedThenNested : List ThreadLabel :=
  [.callSpawn 0, .coAwaitTask, .coAwait 0 timedRecv 0 0 true, .finish true, .finish true,
    .callSpawn 0, .callSpawn 1, .coAwait 1 timedRecv 0 0 true,
    .coAwait 0 untimedRecv 0 0 true, .callSpawn 0]

theorem spawn_blames_own_refusedThenNested :
    ∃ history final, Run DrivingThread.step twoSchedulers history final ∧
      (∀ visit ∈ history, visit.1.readsOwnRefusal visit.2 = true) ∧
      final.log =
        [.spawnCalled 0 false, .refused 1 0, .spawnExit 0 (some .sqFull),
          .spawnCalled 2 false, .spawnCalled 3 false, .spawnExit 3 none, .spawnExit 2 none,
          .spawnCalled 4 true, .spawnExit 4 (some .sqFull)] ∧
      BlamesOwn final.log := by
  have hreplay : (replay DrivingThread.step DrivingThread.readsOwnRefusal twoSchedulers
      refusedThenNested).any (fun s => s.log ==
        [.spawnCalled 0 false, .refused 1 0, .spawnExit 0 (some .sqFull),
          .spawnCalled 2 false, .spawnCalled 3 false, .spawnExit 3 none, .spawnExit 2 none,
          .spawnCalled 4 true, .spawnExit 4 (some .sqFull)]) = true := by
    decide +kernel
  obtain ⟨history, final, hrun, hreads, hcheck⟩ := exists_run_of_replay hreplay
  exact ⟨history, final, hrun, hreads, beq_iff_eq.mp hcheck,
    (spawn_blames_own_of_readsOwnRefusal hrun hreads).2⟩

/-- A task resumed by hand is refused and leaves the flag set; the next task is
spawned on a ring with room, awaits nothing, and its `spawn` throws. -/
theorem innocent_blamed_afterTaskResume :
    ∃ history final, Run DrivingThread.step twoSchedulers history final ∧
      final.log =
        [.refused 0 0, .spawnCalled 1 false, .spawnExit 1 (some .sqFull)] ∧
      ¬ BlamesOwn final.log := by
  have hreplay : (replay DrivingThread.step (fun _ _ => true) twoSchedulers
      [.callResume, .coAwait 0 timedRecv 0 0 true, .finish true, .callSpawn 1,
        .finish true]).any (fun s => s.log ==
        [.refused 0 0, .spawnCalled 1 false, .spawnExit 1 (some .sqFull)]) = true := by
    decide +kernel
  obtain ⟨history, final, hrun, -, hcheck⟩ := exists_run_of_replay hreplay
  have hlog := beq_iff_eq.mp hcheck
  refine ⟨history, final, hrun, hlog, ?_⟩
  intro hblames
  have hexit := (hblames [.refused 0 0, .spawnCalled 1 false] 1 (some .sqFull) [] hlog).mp rfl
  simp [Refused] at hexit

end SlimCommonIo
