import SlimCommonIo.SubmissionSafety
import SlimCommonIo.TaskLifetimes
import SlimCommonIo.Wakeup

/-!
# No suspended coroutine is forgotten

While every eventfd read is armed with room in the ring, a coroutine suspended
on an operation has exactly one reference to it among the pending entries, in
the kernel or among the completions; and every task of `tasks_` which is not
done either runs on the driving thread or waits, at the innermost frame of its
chain of awaited tasks, for such an operation.
-/

namespace SlimCommonIo

open Transition
open scoped List

variable {P : Program}

namespace Scheduler

/-! ## Where a frame comes from -/

/-- Where a frame found after a step comes from. -/
inductive Origin (s next : Scheduler P) (id : FrameId) (frame : Frame P) : Prop
  | kept (old : Frame P) (hold : s.heap.frames id = some old)
      (hpoint : frame.point = old.point)
      (hcontinuation : frame.promise.continuation = old.promise.continuation)
  | created (body : P.Code) (hpoint : frame.point = .initial body) (hheld : id ∈ next.held)
  | running (hpoint : frame.point = .running) (hrunning : id ∈ runningFrames next.stack)
  | staged (object : ℕ) (stamp : Stamp) (resume : Int32 → P.Code)
      (hpoint : frame.point = .onAwaitable object stamp resume)
      (htarget : ⟨.awaitable id object, some stamp⟩ ∈ next.io.targets)
  | awaits (resume : P.Outcome → P.Code) (hid : id < s.heap.next)
      (hpoint : frame.point = .onTask s.heap.next resume)
  | ended (hpoint : frame.point = .final) (hroot : frame.promise.continuation = none)

namespace Origin

variable {s next : Scheduler P} {id : FrameId} {frame : Frame P}

theorem of_remains
    {heap : Heap P} (hremains : s.heap.Remains heap) (hframe : heap.frames id = some frame) :
    Origin s next id frame :=
  .kept frame (hremains.some hframe) rfl rfl

theorem of_set
    {heap : Heap P} {changed : FrameId} {new : Frame P} (hnew : Origin s next changed new)
    (hkept : ∀ frame, heap.frames id = some frame → Origin s next id frame)
    (hframe : (heap.set changed new).frames id = some frame) : Origin s next id frame := by
  by_cases hid : id = changed
  · subst hid
    rw [Heap.set_frames_self, Option.some.injEq] at hframe
    exact hframe ▸ hnew
  · rw [Heap.set_frames_of_ne heap hid] at hframe
    exact hkept frame hframe

theorem of_add
    {heap : Heap P} {new : Frame P} (hnew : Origin s next heap.next new)
    (hkept : ∀ frame, heap.frames id = some frame → Origin s next id frame)
    (hframe : (heap.add new).frames id = some frame) : Origin s next id frame := by
  by_cases hid : id = heap.next
  · subst hid
    rw [Heap.add_frames_next, Option.some.injEq] at hframe
    exact hframe ▸ hnew
  · rw [Heap.add_frames_of_ne heap hid] at hframe
    exact hkept frame hframe

end Origin

/-- Every frame found after a step was there before, was created by it, or was
running on the driving thread before or is running there now. -/
theorem Move.origin
    {s next : Scheduler P} {label : Label P} (hmove : Move s label next)
    (howned : Owned s) (hnext : next.crash = none)
    {id : FrameId} {frame : Frame P} (hframe : next.heap.frames id = some frame) :
    Origin s next id frame := by
  have hinv := howned.frames
  have hsame : ∀ frame, s.heap.frames id = some frame → Origin s next id frame :=
    fun _ hframe => .of_remains (.refl _) hframe
  cases hmove with
  | reap _ => exact .of_remains (.foldl_erase _ _) hframe
  | dropTask _ => exact .of_remains (.destroyFrom _ _ _) hframe
  | spawnFull hcall _ hdeliver =>
      refine .of_add ?_ hsame hframe
      exact .created _ rfl (List.mem_cons_self ..)
  | spawnStart hcall _ =>
      rw [Heap.start_create_eq_add] at hframe
      refine .of_add ?_ hsame hframe
      exact .running rfl (List.mem_cons_self ..)
  | callResume _ _ =>
      rw [Heap.start_create_eq_add] at hframe
      refine .of_add ?_ hsame hframe
      exact .running rfl (List.mem_cons_self ..)
  | handleAwaitable hstack hmore hcqe hold hobject hhandle hawaiting hpoint hawaited =>
      obtain ⟨targets, htargets⟩ := hinv.target_of_loop hstack hmore hcqe
      obtain ⟨rfl, rfl, rfl, -, -, -⟩ := hinv.resumed_frame htargets hcqe
        hold hobject hhandle hawaiting hpoint hawaited
      simp only [afterResume, Heap.set_set] at hframe
      refine .of_set ?_ hsame hframe
      exact .running rfl (List.mem_cons_self ..)
  | refused hstack hold _ _ _ =>
      refine .of_set ?_ hsame hframe
      exact .kept _ hold rfl rfl
  | stage hstack hold _ _ haccept =>
      refine .of_set ?_ hsame hframe
      refine .staged _ _ _ rfl ?_
      exact (hinv.ring.targets_stage haccept).symm.subset (List.mem_cons_self ..)
  | awaitTask hstack hold _ =>
      have hlt := hinv.linked.lt hold
      simp only [Heap.coAwaitTask_eq_add _ hlt.ne] at hframe
      refine .of_add ?_ ?_ hframe
      · exact .running rfl (List.mem_cons_self ..)
      · exact fun _ => .of_set (.awaits _ hlt rfl) hsame
  | endRoot hends hroot =>
      refine .of_set ?_ hsame hframe
      exact .ended (Heap.complete_point _ _) ((Heap.complete_continuation _ _).trans hroot)
  | endInner hends hinner hresume =>
      obtain ⟨-, -, outer, resume, -, -, -, hheap⟩ :=
        howned.awaitedTask_of_continuation hends.frame hinner hresume
      subst hheap
      refine .of_set ?_ ?_ hframe
      · exact .running rfl (List.mem_cons_self ..)
      · intro other hother
        have hne : id ≠ _ := fun heq => by
          rw [heq, Heap.erase_frames_self] at hother
          simp at hother
        rw [Heap.erase_frames_of_ne _ hne, Heap.set_frames_of_ne _ hne] at hother
        exact hsame other hother
  | endAstray _ _ _ => simp at hnext
  | _ => exact hsame _ hframe

/-! ## What a step keeps -/

/-- Each reference to a suspended frame is kept until the frame is resumed. -/
theorem Move.target_kept
    {s next : Scheduler P} {label : Label P} (hmove : Move s label next)
    (hinv : FrameInvariant s) (hsubmission : SubmissionInvariant s.io)
    (hroom : s.armsWithRoom label = true) (hnext : next.crash = none) {ref : Ref}
    (hmem : ref ∈ s.io.targets) :
    ref ∈ next.io.targets ∨
      ∃ id object, ref.userData = .awaitable id object ∧ id ∈ runningFrames next.stack := by
  have hring := hinv.ring
  cases hmove with
  | arm hstack harmed =>
      left
      have hfull : s.io.sq.isFull = false := by
        simpa [armsWithRoom, aboutToArm, hstack, harmed] using hroom
      obtain ⟨-, hsqes, -⟩ := hsubmission.valid.armEventfdRead_appends hfull
        s.eventfdFd s.eventfdBufAddr
      have hledger := IoState.ledger_append s.io
        (s.stagedIo (s.io.sq.armEventfdRead s.eventfdFd s.eventfdBufAddr)
          [SubmissionQueue.eventfdRead s.eventfdFd s.eventfdBufAddr]) hsqes rfl rfl s.io.handled
      obtain ⟨hout, hawaitable⟩ := List.mem_filter.mp hmem
      exact List.mem_filter.mpr
        ⟨hledger.symm.subset (List.mem_append_right _ hout), hawaitable⟩
  | enter _ hpending _ _ =>
      refine .inl ((List.Perm.symm ?_).subset hmem)
      exact RingInvariant.targets_enter hpending rfl rfl rfl rfl
  | complete hsqe _ _ =>
      refine .inl ((List.Perm.symm ?_).subset hmem)
      exact hring.targets_complete hsqe rfl rfl rfl rfl
  | stage _ _ _ _ haccept =>
      exact .inl ((hring.targets_stage haccept).symm.subset (List.mem_cons_of_mem _ hmem))
  | handleSentinel hstack hmore hcqe | handleNull hstack hmore hcqe =>
      left
      have htargets := hring.targets_handle
        { s.io with handled := s.io.handled + 1 } (hring.drainPoints_of_drain hstack) hmore
        rfl rfl rfl rfl
      rw [List.filter_singleton, Cqe.ref, hcqe] at htargets
      exact htargets.subset hmem
  | handleAwaitable hstack hmore hcqe hframe hobject hhandle hawaiting hpoint hawaited =>
      have htargets := hring.targets_handle
        { s.io with handled := s.io.handled + 1 } (hring.drainPoints_of_drain hstack) hmore
        rfl rfl rfl rfl
      obtain ⟨targets, hhead⟩ := hinv.target_of_loop hstack hmore hcqe
      obtain ⟨rfl, -, -, -, -, -⟩ := hinv.resumed_frame hhead hcqe hframe hobject hhandle
        hawaiting hpoint hawaited
      rcases List.mem_append.mp (htargets.subset hmem) with hcompleted | hlater
      · right
        have href := List.mem_singleton.mp (List.mem_of_mem_filter hcompleted)
        exact ⟨_, _, by rw [href]; exact hcqe, List.mem_cons_self ..⟩
      · exact .inl hlater
  | handleDangling _ _ _ _ => simp at hnext
  | escape hstack _ =>
      have hwell := hring.wellStacked
      rw [hstack] at hwell
      obtain ⟨current, tail, hpoint⟩ := drainPoints_of_job hwell
      rw [← hstack] at hpoint
      refine .inl ((List.Perm.symm ?_).subset hmem)
      exact hring.targets_escape hpoint rfl rfl rfl rfl
  | _ => exact .inl hmem

theorem runningFrames_of_job
    {entry : Posted P} {code : P.Job} {rest : List (Activation P)}
    (hwell : WellStacked (.job entry code :: rest)) :
    runningFrames (.job entry code :: rest) = [] := by
  obtain ⟨⟨batch, below, rfl⟩, ⟨current, tail, drain, rfl⟩, hdrain⟩ := hwell
  rcases stack_below_drain hdrain with rfl | rfl | rfl <;> rfl

/-- A coroutine active on the driving thread stays there until it is suspended,
ends or is destroyed. -/
theorem Move.running_kept
    {s next : Scheduler P} {label : Label P} (hmove : Move s label next)
    (howned : Owned s) (hnext : next.crash = none) {id : FrameId}
    (hmem : id ∈ runningFrames s.stack) :
    id ∈ runningFrames next.stack ∨
      ∀ frame, next.heap.frames id = some frame → frame.point ≠ .running := by
  cases hmove with
  | leaveRun hstack _ | leaveShutdown hstack _ | loopRun hstack _
  | loopShutdown hstack _ | destructor hstack | armedStart hstack _ | arm hstack _
  | wake hstack _ | scan hstack | endLoop hstack | swapInbox hstack
  | endInbox hstack | invoke hstack | endJob hstack _ | eventfdWrite hstack
  | requeue hstack _ | resumed hstack | inboxDone hstack | reap hstack | enter hstack _ _ _
  | handleSentinel hstack _ _ | handleNull hstack _ _ | handleDangling hstack _ _ _
  | effect hstack _ _ | refused hstack _ _ _ _ =>
      rw [hstack] at hmem
      exact .inl hmem
  | callRun hstack _ | callShutdown hstack _ | callDestroyBusy hstack _ _
  | callResume hstack _ =>
      rw [hstack] at hmem
      simp [runningFrames] at hmem
  | handleAwaitable hstack _ _ _ _ _ _ _ _ =>
      rw [hstack] at hmem
      exact .inl (List.mem_cons_of_mem _ hmem)
  | escape hstack _ =>
      have hwell := howned.frames.ring.wellStacked
      rw [hstack] at hwell
      rw [hstack, runningFrames_of_job hwell] at hmem
      simp at hmem
  | post hcall =>
      cases hcall with
      | job hstack _ | coroutine hstack _ _ =>
          rw [hstack] at hmem
          exact .inl hmem
  | spawnFull hcall _ hdeliver =>
      left
      rw [runningFrames_deliver hdeliver, hcall.runningFrames]
      exact hmem
  | spawnStart hcall _ =>
      left
      rw [← hcall.runningFrames] at hmem
      exact List.mem_cons_of_mem _ hmem
  | spawnRefused hstack _ hdeliver | spawnAccepted hstack _ hdeliver
  | spawnBadAlloc hstack _ hdeliver =>
      left
      rw [hstack] at hmem
      rw [runningFrames_deliver hdeliver]
      exact hmem
  | stage hstack hframe _ _ _ =>
      rw [hstack] at hmem
      rcases List.mem_cons.mp hmem with rfl | hbelow
      · right
        simp
      · exact .inl hbelow
  | awaitTask hstack hframe _ =>
      have hlt := howned.frames.linked.lt hframe
      rw [hstack] at hmem
      rcases List.mem_cons.mp hmem with rfl | hbelow
      · right
        simp only [Heap.coAwaitTask_eq_add _ hlt.ne]
        intro frame hafter
        rw [Heap.add_frames_of_ne _ (by exact hlt.ne)] at hafter
        simp only [Heap.set_frames_self, Option.some.injEq] at hafter
        simp [← hafter]
      · exact .inl (List.mem_cons_of_mem _ hbelow)
  | endRoot hends _ =>
      obtain ⟨code, hstack⟩ := hends.stack
      rw [hstack] at hmem
      rcases List.mem_cons.mp hmem with rfl | hbelow
      · right
        simp [Heap.complete_point]
      · exact .inl hbelow
  | endInner hends hinner hresume =>
      obtain ⟨code, hstack⟩ := hends.stack
      obtain ⟨-, -, outer, resume, -, -, hne, hheap⟩ :=
        howned.awaitedTask_of_continuation hends.frame hinner hresume
      rw [hstack] at hmem
      rcases List.mem_cons.mp hmem with rfl | hbelow
      · right
        simp [hheap, Heap.set_frames_of_ne _ hne.symm]
      · exact .inl (List.mem_cons_of_mem _ hbelow)
  | endAstray _ _ _ => simp at hnext
  | _ => exact .inl hmem

theorem Move.held_kept
    {s next : Scheduler P} {label : Label P} (hmove : Move s label next) {id : FrameId}
    (hmem : id ∈ s.held) :
    id ∈ next.held ∨ (next.heap = s.heap.destroy id ∧ label = .dropTask id) := by
  cases hmove with
  | spawnFull _ _ _ | spawnRefused _ _ _ | spawnBadAlloc _ _ _ | callResume _ _ =>
      exact .inl (List.mem_cons_of_mem _ hmem)
  | @dropTask task _ =>
      by_cases hid : id = task
      · exact .inr ⟨by rw [hid], by rw [hid]⟩
      · exact .inl ((List.mem_erase_of_ne hid).mpr hmem)
  | _ => exact .inl hmem

end Scheduler

/-! ## Every frame is accounted for -/

namespace Heap

/-- Every frame suspended on an operation is referred to. -/
def Served (heap : Heap P) (targets : List Ref) : Prop :=
  ∀ id frame object stamp resume, heap.frames id = some frame →
    frame.point = .onAwaitable object stamp resume →
    ⟨.awaitable id object, some stamp⟩ ∈ targets

theorem awaitedTask_eq_some_iff
    {heap : Heap P} {outer inner : FrameId} :
    heap.awaitedTask outer = some inner ↔
      ∃ frame resume, heap.frames outer = some frame ∧ frame.point = .onTask inner resume := by
  unfold awaitedTask
  constructor
  · intro hawaited
    split at hawaited
    next => simp at hawaited
    next frame hframe =>
      split at hawaited
      next other resume hpoint =>
        rw [Option.some.injEq] at hawaited
        exact ⟨frame, resume, hframe, hawaited ▸ hpoint⟩
      next => simp at hawaited
  · rintro ⟨frame, resume, hframe, hpoint⟩
    simp only [hframe, hpoint]

theorem destroy_frames_self (heap : Heap P) (id : FrameId) :
    (heap.destroy id).frames id = none := by
  unfold destroy destroyFrom
  split
  next hnone => exact hnone
  next frame hframe =>
    split
    next inner resume hpoint =>
      rcases (Remains.destroyFrom heap.next (heap.erase id) inner).frames id with hnone | hsame
      · exact hnone
      · rw [hsame, erase_frames_self]
    next => exact erase_frames_self _ _

/-- Where awaited frames are younger, following them from a frame ends at one
which awaits no other. -/
theorem exists_leaf_mem_chainFrom
    {heap : Heap P} (hlinked : heap.Linked) (hnested : heap.Nested)
    (hyounger : ∀ outer inner, heap.awaitedTask outer = some inner → outer < inner)
    {fuel : ℕ} {heap' : Heap P} {id : FrameId} {frame : Frame P}
    (hfuel : heap.next ≤ fuel + id) (hframe : heap.frames id = some frame)
    (hsame : ∀ other, id ≤ other → heap'.frames other = heap.frames other) :
    ∃ leaf ∈ chainFrom fuel heap' id, ∃ found, heap.frames leaf = some found ∧
      (∀ inner resume, found.point ≠ .onTask inner resume) ∧
      (leaf = id ∨ ∃ outer, heap.awaitedTask outer = some leaf) := by
  induction fuel generalizing heap' id frame with
  | zero =>
      exact absurd (hlinked.lt hframe) (Nat.not_lt.mpr (by simpa using hfuel))
  | succ fuel ih =>
      have hhere : heap'.frames id = some frame := by rw [hsame id le_rfl, hframe]
      cases hpoint : frame.point with
      | onTask inner resume =>
          have hawaited : heap.awaitedTask id = some inner :=
            awaitedTask_eq_some_iff.mpr ⟨frame, resume, hframe, hpoint⟩
          have hlt := hyounger id inner hawaited
          obtain ⟨innerFrame, hinner, -⟩ := hnested id inner hawaited
          have hmore : heap.next ≤ fuel + inner :=
            calc heap.next ≤ fuel + 1 + id := hfuel
              _ = fuel + (id + 1) := by rw [Nat.add_assoc, Nat.add_comm 1 id]
              _ ≤ fuel + inner := Nat.add_le_add_left hlt fuel
          have hrest : ∀ other, inner ≤ other →
              (heap'.erase id).frames other = heap.frames other := by
            intro other hother
            have hafter : id < other := Nat.lt_of_lt_of_le hlt hother
            rw [erase_frames_of_ne _ hafter.ne', hsame other hafter.le]
          obtain ⟨leaf, hleaf, found, hfound, hlast, hplace⟩ := ih hmore hinner hrest
          refine ⟨leaf, ?_, found, hfound, hlast, ?_⟩
          · simp only [chainFrom, hhere, hpoint]
            exact List.mem_cons_of_mem _ hleaf
          · rcases hplace with rfl | houter
            · exact .inr ⟨id, hawaited⟩
            · exact .inr houter
      | _ =>
          refine ⟨id, ?_, frame, hframe, by simp [hpoint], .inl rfl⟩
          simp [chainFrom, hhere, hpoint]

end Heap

namespace Scheduler

/-- A frame not started is held by client code, a running one is on the driving
thread's stack, a suspended one is referred to, a finished one is awaited by
nobody, and an awaited one is younger than the one awaiting it. -/
structure Accounted (s : Scheduler P) : Prop where
  initial : ∀ id frame body, s.heap.frames id = some frame →
    frame.point = .initial body → id ∈ s.held
  running : ∀ id frame, s.heap.frames id = some frame → frame.point = .running →
    id ∈ runningFrames s.stack
  served : s.heap.Served s.io.targets
  ended : ∀ id frame, s.heap.frames id = some frame → frame.point = .final →
    frame.promise.continuation = none
  younger : ∀ outer inner, s.heap.awaitedTask outer = some inner → outer < inner

namespace Accounted

theorem empty (io : IoState) (fd : Int32) (addr : UInt64) :
    Accounted (Scheduler.initial P io fd addr) := by
  constructor
  · simp [Scheduler.initial, Heap.empty]
  · simp [Scheduler.initial, Heap.empty]
  · intro id frame object stamp resume hframe
    simp [Scheduler.initial, Heap.empty] at hframe
  · simp [Scheduler.initial, Heap.empty]
  · simp [Scheduler.initial, Heap.empty, Heap.awaitedTask]

variable {s next : Scheduler P} {label : Label P}

theorem initial_step
    (haccounted : Accounted s) (howned : Owned s) (hmove : Move s label next)
    (hnext : next.crash = none) :
    ∀ id frame body, next.heap.frames id = some frame → frame.point = .initial body →
      id ∈ next.held := by
  intro id frame body hframe hpoint
  cases hmove.origin howned hnext hframe with
  | kept old hold hsame _ =>
      have hheld := haccounted.initial id old body hold (hsame ▸ hpoint)
      rcases hmove.held_kept hheld with hkept | ⟨hdestroyed, -⟩
      · exact hkept
      · rw [hdestroyed, Heap.destroy_frames_self] at hframe
        simp at hframe
  | created _ _ hheld => exact hheld
  | running hother _ | staged _ _ _ hother _ | awaits _ _ hother | ended hother _ =>
      simp [hother] at hpoint

theorem running_step
    (haccounted : Accounted s) (howned : Owned s) (hmove : Move s label next)
    (hnext : next.crash = none) :
    ∀ id frame, next.heap.frames id = some frame → frame.point = .running →
      id ∈ runningFrames next.stack := by
  intro id frame hframe hpoint
  cases hmove.origin howned hnext hframe with
  | kept old hold hsame _ =>
      have hbefore := haccounted.running id old hold (hsame ▸ hpoint)
      rcases hmove.running_kept howned hnext hbefore with hkept | hstopped
      · exact hkept
      · exact absurd hpoint (hstopped frame hframe)
  | running _ hrunning => exact hrunning
  | created _ hother _ | staged _ _ _ hother _ | awaits _ _ hother | ended hother _ =>
      simp [hother] at hpoint

theorem served_step
    (haccounted : Accounted s) (howned : Owned s) (hframes : FrameInvariant next)
    (hsubmission : SubmissionInvariant s.io) (hroom : s.armsWithRoom label = true)
    (hmove : Move s label next) (hnext : next.crash = none) :
    next.heap.Served next.io.targets := by
  intro id frame object stamp resume hframe hpoint
  cases hmove.origin howned hnext hframe with
  | kept old hold hsame _ =>
      have hbefore := haccounted.served id old object stamp resume hold (hsame ▸ hpoint)
      rcases hmove.target_kept howned.frames hsubmission hroom hnext hbefore with
        hkept | ⟨other, object', href, hrunning⟩
      · exact hkept
      · simp only [UserData.awaitable.injEq] at href
        rw [← href.1] at hrunning
        have hactive := ((hframes.runs hnext).active id hrunning).2 frame hframe
        simp [hpoint] at hactive
  | staged object' stamp' resume' hsame htarget =>
      rw [hpoint, SuspendPoint.onAwaitable.injEq] at hsame
      rw [hsame.1, hsame.2.1]
      exact htarget
  | created _ hother _ | running hother _ | awaits _ _ hother | ended hother _ =>
      simp [hother] at hpoint

theorem ended_step
    (haccounted : Accounted s) (howned : Owned s) (hmove : Move s label next)
    (hnext : next.crash = none) :
    ∀ id frame, next.heap.frames id = some frame → frame.point = .final →
      frame.promise.continuation = none := by
  intro id frame hframe hpoint
  cases hmove.origin howned hnext hframe with
  | kept old hold hsame hcontinuation =>
      rw [hcontinuation]
      exact haccounted.ended id old hold (hsame ▸ hpoint)
  | ended _ hroot => exact hroot
  | created _ hother _ | running hother _ | staged _ _ _ hother _ | awaits _ _ hother =>
      simp [hother] at hpoint

theorem younger_step
    (haccounted : Accounted s) (howned : Owned s) (hmove : Move s label next)
    (hnext : next.crash = none) :
    ∀ outer inner, next.heap.awaitedTask outer = some inner → outer < inner := by
  intro outer inner hawaited
  obtain ⟨frame, resume, hframe, hpoint⟩ := Heap.awaitedTask_eq_some_iff.mp hawaited
  cases hmove.origin howned hnext hframe with
  | kept old hold hsame _ =>
      apply haccounted.younger outer inner
      exact Heap.awaitedTask_eq_some_iff.mpr ⟨old, resume, hold, hsame ▸ hpoint⟩
  | awaits resume' hlt hsame =>
      rw [hpoint, SuspendPoint.onTask.injEq] at hsame
      rw [hsame.1]
      exact hlt
  | created _ hother _ | running hother _ | staged _ _ _ hother _ | ended hother _ =>
      simp [hother] at hpoint

end Accounted

/-- What the invariants of a run whose reads are armed with room say together. -/
structure TaskInvariant (s : Scheduler P) : Prop where
  owned : Owned s
  submission : SubmissionInvariant s.io
  accounted : s.crash = none → Accounted s

theorem TaskInvariant.step
    {s next : Scheduler P} {label : Label P} (hinv : TaskInvariant s)
    (hroom : s.armsWithRoom label = true) (hstep : s.step label = some next) :
    TaskInvariant next := by
  obtain ⟨hcrash, hmove⟩ := move_of_step hstep
  have haccounted := hinv.accounted hcrash
  have hframes := hinv.owned.frames.step hcrash hmove
  refine ⟨hinv.owned.step hstep, ?_, ?_⟩
  · exact hinv.submission.step hinv.owned.frames.ring.wellStacked hroom hstep
  · intro hnext
    exact
      { initial := haccounted.initial_step hinv.owned hmove hnext
        running := haccounted.running_step hinv.owned hmove hnext
        served := haccounted.served_step hinv.owned hframes hinv.submission hroom hmove hnext
        ended := haccounted.ended_step hinv.owned hmove hnext
        younger := haccounted.younger_step hinv.owned hmove hnext }

theorem TaskInvariant.of_run
    {io : IoState} (hfresh : io.Fresh) {fd : Int32} {addr : UInt64}
    {history : List (Scheduler P × Label P)} {final : Scheduler P}
    (hrun : Run Scheduler.step (Scheduler.initial P io fd addr) history final)
    (hroom : ∀ visit ∈ history, visit.1.armsWithRoom visit.2 = true) : TaskInvariant final := by
  refine hrun.invariant_of_allowed TaskInvariant
    (fun s label => s.armsWithRoom label = true) ?_ ?_ hroom
  · exact ⟨.initial hfresh fd addr, submissionInvariant_of_fresh hfresh,
      fun _ => .empty io fd addr⟩
  · intro s label next hinv hlabel hstep
    exact hinv.step hlabel hstep

/-! ## Suspended tasks -/

/-- The frame `id` is suspended on an operation which has not been handled. -/
def AwaitsOutstanding (s : Scheduler P) (id : FrameId) : Prop :=
  ∃ frame object stamp resume, s.heap.frames id = some frame ∧
    frame.point = .onAwaitable object stamp resume ∧
    ⟨.awaitable id object, some stamp⟩ ∈ s.io.outstanding

/-- The frame `id` is suspended on an operation the kernel holds. -/
def AwaitsKernel (s : Scheduler P) (id : FrameId) : Prop :=
  ∃ frame object stamp resume, s.heap.frames id = some frame ∧
    frame.point = .onAwaitable object stamp resume ∧
    ∃ sqe ∈ s.io.kernel, sqe.ref = ⟨.awaitable id object, some stamp⟩

theorem TaskInvariant.leaf
    {s : Scheduler P} (hinv : TaskInvariant s) (hcrash : s.crash = none) {task : FrameId}
    (htask : some task ∈ s.tasks) (hlive : s.heap.done (some task) = false) :
    ∃ id ∈ s.heap.chain task, id ∈ runningFrames s.stack ∨ s.AwaitsOutstanding id := by
  have haccounted := hinv.accounted hcrash
  have howner := Owned.mem_owners_of_tasks htask
  obtain ⟨frame, hframe, -⟩ := hinv.owned.alive task howner
  have hfuel : s.heap.next ≤ s.heap.next + 1 + task :=
    Nat.le_add_right_of_le (Nat.le_succ _)
  obtain ⟨id, hid, found, hfound, hlast, hplace⟩ := Heap.exists_leaf_mem_chainFrom
    hinv.owned.frames.linked hinv.owned.nested haccounted.younger hfuel hframe
    (fun _ _ => rfl)
  refine ⟨id, hid, ?_⟩
  -- a frame of the chain other than the first has a continuation
  have hinner : id ≠ task → found.promise.continuation ≠ none := by
    intro hne hnone
    rcases hplace with rfl | ⟨outer, hawaited⟩
    · exact hne rfl
    · obtain ⟨other, hother, hcontinuation⟩ := hinv.owned.nested outer id hawaited
      rw [hfound, Option.some.injEq] at hother
      subst hother
      simp [hnone] at hcontinuation
  cases hpoint : found.point with
  | initial body =>
      have hheld := haccounted.initial id found body hfound hpoint
      have howners : id ∈ s.owners := by simp [owners, hheld]
      by_cases hid : id = task
      · subst hid
        have hdistinct := hinv.owned.distinct
        rw [owners, List.append_assoc, List.nodup_append] at hdistinct
        have hmem : id ∈ s.tasks.filterMap fun task => task := by simpa using htask
        exact absurd rfl (hdistinct.2.2 id hmem id (by simp [hheld]))
      · obtain ⟨other, hother, hnone⟩ := hinv.owned.alive id howners
        rw [hfound, Option.some.injEq] at hother
        subst hother
        exact absurd hnone (hinner hid)
  | running => exact .inl (haccounted.running id found hfound hpoint)
  | onAwaitable object stamp resume =>
      refine .inr ⟨found, object, stamp, resume, hfound, hpoint, ?_⟩
      exact List.mem_of_mem_filter (haccounted.served id found object stamp resume hfound hpoint)
  | onTask inner resume => exact absurd hpoint (hlast inner resume)
  | final =>
      by_cases hid : id = task
      · subst hid
        simp [Heap.done, hfound, Frame.isFinal, hpoint] at hlive
      · exact absurd (haccounted.ended id found hfound hpoint) (hinner hid)

end Scheduler

open Scheduler

/-- While the driving thread sleeps and nothing has completed, the outstanding
operations are those the kernel holds. -/
theorem Scheduler.Blocked.outstanding_eq
    {s : Scheduler P} (hblocked : s.Blocked) (hring : RingInvariant s)
    (hsentinel : SentinelInvariant s) :
    s.io.outstanding = s.io.kernel.map Sqe.ref ∧ runningFrames s.stack = [] := by
  obtain ⟨rest, hstack⟩ := hblocked.waiting
  have hwell := hring.wellStacked
  obtain ⟨hunhandled, -⟩ := hsentinel.inFlight_of_waiting hring hstack hblocked.cqEmpty
  have hwaiting : .waiting ∈ drainPoints s.stack := by simp [hstack, drainPoints]
  have hpending : s.io.sq.pendingSqes = [] := by
    simp [SubmissionQueue.pendingSqes, hsentinel.submitted hwaiting]
  constructor
  · simp [IoState.outstanding, IoState.ledger, hunhandled, hpending]
  · rw [hstack] at hwell ⊢
    rcases stack_below_drain hwell with rfl | rfl | rfl <;> rfl

/-- While the driving thread sleeps and nothing has completed, a task which is
not done waits for an operation the kernel holds. -/
theorem Scheduler.TaskInvariant.leaf_of_blocked
    {s : Scheduler P} (hinv : TaskInvariant s) (hsentinel : SentinelInvariant s)
    (hcrash : s.crash = none) (hblocked : s.Blocked) {task : FrameId}
    (htask : some task ∈ s.tasks) (hlive : s.heap.done (some task) = false) :
    ∃ id ∈ s.heap.chain task, s.AwaitsKernel id := by
  obtain ⟨hout, hidle⟩ := hblocked.outstanding_eq hinv.owned.frames.ring hsentinel
  obtain ⟨id, hid, hrunning | ⟨frame, object, stamp, resume, hframe, hpoint, htarget⟩⟩ :=
    hinv.leaf hcrash htask hlive
  · simp [hidle] at hrunning
  · rw [hout] at htarget
    obtain ⟨sqe, hsqe, href⟩ := List.mem_map.mp htarget
    exact ⟨id, hid, frame, object, stamp, resume, hframe, hpoint, sqe, hsqe, href⟩

/-- A task which waits for a receive while the driving thread sleeps. -/
def spawnThenSleep : List (Label awaitScript) :=
  [.callSpawn [false], .runner true, .runner true,
    .callRun false, .runner true, .runner true, .enter 2]

theorem spawnThenSleep_run :
    ∃ history final,
      Run Scheduler.step (Scheduler.initial awaitScript (ringOfDepth 2) 3 64)
        history final ∧
      (∀ visit ∈ history, visit.1.armsWithRoom visit.2 = true) ∧
      final.crash = none ∧ .waiting ∈ drainPoints final.stack ∧
      final.io.cq.head = final.io.cq.tail ∧ final.tasks = [some 0] ∧
      final.heap.done (some 0) = false ∧ (final.heap.frames 0).isSome = true ∧
      ⟨.awaitable 0 0, some ⟨0, 0⟩⟩ ∈ final.io.outstanding := by
  have hreplay : (replay Scheduler.step Scheduler.armsWithRoom
      (Scheduler.initial awaitScript (ringOfDepth 2) 3 64) spawnThenSleep).any
      (fun s => decide (s.crash = none ∧ .waiting ∈ drainPoints s.stack ∧
        s.io.cq.head = s.io.cq.tail ∧ s.tasks = [some 0] ∧
        s.heap.done (some 0) = false ∧ (s.heap.frames 0).isSome = true ∧
        ⟨.awaitable 0 0, some ⟨0, 0⟩⟩ ∈ s.io.outstanding)) = true := by
    decide +kernel
  obtain ⟨history, final, hrun, hroom, hcheck⟩ := exists_run_of_replay hreplay
  exact ⟨history, final, hrun, hroom, of_decide_eq_true hcheck⟩

end SlimCommonIo
