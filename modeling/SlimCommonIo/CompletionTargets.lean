import SlimCommonIo.FrameInvariant

/-!
# Completions and the coroutines they resume

The ring refers to coroutine frames by address.  `spawn` may throw after the
task has staged an operation, and then leaves the task to a caller who may
destroy it.  No reference dangles in a run whose callers destroy only tasks
that have not been started or are done.
-/

namespace SlimCommonIo

open scoped List

variable {P : Program}

namespace Scheduler

/-- The step does not destroy a task which has been started and is not done. -/
def dropsIdle (s : Scheduler P) (label : Label P) : Bool :=
  match label with
  | .dropTask task =>
      match (s.heap.frames task).map Frame.point with
      | none | some (.initial _) | some .final => true
      | _ => false
  | _ => true

def TargetsExist (s : Scheduler P) : Prop :=
  ∀ id object stamp, ⟨.awaitable id object, stamp⟩ ∈ s.io.targets →
    (s.heap.frames id).isSome = true

theorem destroy_of_dropsIdle
    {s : Scheduler P} {task id : FrameId} {frame : Frame P}
    (hidle : s.dropsIdle (.dropTask task) = true)
    (hframe : s.heap.frames id = some frame)
    {object : ℕ} {stamp : Stamp} {resume : Int32 → P.Code}
    (hpoint : frame.point = .onAwaitable object stamp resume) :
    (s.heap.destroy task).frames id = some frame := by
  unfold Heap.destroy Heap.destroyFrom
  cases htask : s.heap.frames task with
  | none => exact hframe
  | some found =>
      have hne : id ≠ task := by
        rintro rfl
        rw [hframe, Option.some.injEq] at htask
        subst htask
        simp [dropsIdle, hframe, hpoint] at hidle
      cases hfound : found.point with
      | initial body =>
          simp only [hfound]
          rw [Heap.erase_frames_of_ne _ hne, hframe]
      | final =>
          simp only [hfound]
          rw [Heap.erase_frames_of_ne _ hne, hframe]
      | _ => simp [dropsIdle, htask, hfound] at hidle

/-- A frame waiting for a completion survives every step which destroys no
started task. -/
theorem isSome_of_waiting
    {s next : Scheduler P} {label : Label P} (hinv : FrameInvariant s)
    (hcrash : s.crash = none) (hmove : Move s label next)
    (hidle : s.dropsIdle label = true)
    {id : FrameId} {frame : Frame P} (hframe : s.heap.frames id = some frame)
    {object : ℕ} {stamp : Stamp} {resume : Int32 → P.Code}
    (hpoint : frame.point = .onAwaitable object stamp resume) :
    (next.heap.frames id).isSome = true := by
  have hset : ∀ (heap : Heap P) (other : FrameId) (new : Frame P),
      (heap.frames id).isSome = true → ((heap.set other new).frames id).isSome = true := by
    intro heap other new hsome
    by_cases hid : id = other
    · simp [hid]
    · rwa [Heap.set_frames_of_ne heap hid]
  have hadd : ∀ (heap : Heap P) (new : Frame P),
      (heap.frames id).isSome = true → ((heap.add new).frames id).isSome = true := by
    intro heap new hsome
    by_cases hid : id = heap.next
    · simp [hid]
    · rwa [Heap.add_frames_of_ne heap hid]
  have hsome : (s.heap.frames id).isSome = true := by simp [hframe]
  cases hmove.frameStep hinv.ring with
  | same _ hkept _ _ =>
      rw [hkept id frame hframe (by simp [Frame.isFinal, hpoint])]
      rfl
  | drop task hlabel hheap _ _ =>
      subst hlabel
      rw [hheap, destroy_of_dropsIdle hidle hframe hpoint]
      rfl
  | create _ _ hheap _ _ | start hheap _ _ =>
      rw [hheap]
      exact hadd _ _ hsome
  | refuse _ _ _ _ _ _ hheap _ _ | stage _ _ _ _ _ _ _ _ _ _ hheap _ _
  | finish _ _ _ _ _ _ hheap _ _ =>
      rw [hheap]
      exact hset _ _ _ hsome
  | awaitTask other outer _ _ _ _ _ houter hheap _ _ =>
      have hlt := hinv.linked.lt houter
      rw [hheap, Heap.coAwaitTask_eq_add _ (Nat.ne_of_lt hlt)]
      exact hadd _ _ (hset _ _ _ hsome)
  | finishInner other awaiting inner outcome code rest hbefore hinnerFrame hinner hresume
      _ _ =>
      have hrunning := hinv.point_of_running hcrash hbefore hinnerFrame
      have hlinked := hinv.linked.set hinnerFrame (by simp [hrunning])
        (Heap.complete_continuation inner outcome)
      obtain ⟨outer, after, result, -, -, -, -, hheap⟩ :=
        hlinked.resumeAwaiting (Heap.set_frames_self _ _ _)
          ((Heap.complete_continuation inner outcome).trans hinner) hresume
      have hne : id ≠ other := by
        rintro rfl
        rw [hframe, Option.some.injEq] at hinnerFrame
        rw [← hinnerFrame, hpoint] at hrunning
        simp at hrunning
      rw [hheap]
      apply hset
      rw [Heap.erase_frames_of_ne _ hne]
      exact hset _ _ _ hsome
  | resume _ _ _ _ _ _ _ _ _ _ _ _ _ _ _ _ _ _ hheap _ _ =>
      rw [hheap]
      exact hset _ _ _ (hset _ _ _ hsome)

theorem mem_targets_of_step
    {s next : Scheduler P} {label : Label P} (hinv : FrameInvariant s)
    (hmove : Move s label next) {id object : ℕ} {stamp : Option Stamp}
    (hmem : ⟨.awaitable id object, stamp⟩ ∈ next.io.targets) :
    ⟨.awaitable id object, stamp⟩ ∈ s.io.targets ∨
      (next.heap.frames id).isSome = true := by
  cases hmove.frameStep hinv.ring with
  | same _ _ _ htargets => exact .inl (htargets.subset hmem)
  | drop _ _ _ _ hio | create _ _ _ _ hio | start _ _ hio
  | refuse _ _ _ _ _ _ _ _ hio | awaitTask _ _ _ _ _ _ _ _ _ _ hio
  | finish _ _ _ _ _ _ _ _ hio | finishInner _ _ _ _ _ _ _ _ _ _ _ hio =>
      left
      rwa [hio] at hmem
  | stage _ _ _ _ _ _ _ _ _ _ hheap _ htargets =>
      rcases List.mem_cons.mp (htargets.subset hmem) with heq | hold
      · right
        simp only [Ref.mk.injEq, UserData.awaitable.injEq] at heq
        rw [heq.1.1, hheap]
        simp
      · exact .inl hold
  | resume _ _ _ _ _ _ _ _ _ _ _ _ _ _ _ _ _ _ _ _ htargets =>
      exact .inl (htargets.symm.subset (List.mem_cons_of_mem _ hmem))

theorem TargetsExist.step
    {s next : Scheduler P} {label : Label P} (hexist : s.TargetsExist)
    (hinv : FrameInvariant s) (hidle : s.dropsIdle label = true)
    (hstep : s.step label = some next) : next.TargetsExist := by
  obtain ⟨hcrash, hmove⟩ := move_of_step hstep
  intro id object stamp hmem
  rcases mem_targets_of_step hinv hmove hmem with hold | hnew
  · obtain ⟨frame, hframe⟩ := Option.isSome_iff_exists.mp (hexist id object stamp hold)
    obtain ⟨await, resume, awt, -, hpoint, -⟩ :=
      (hinv.serves.suspended id object stamp hold).2 frame hframe
    exact isSome_of_waiting hinv hcrash hmove hidle hframe hpoint
  · exact hnew

end Scheduler

open Scheduler Transition

end SlimCommonIo
