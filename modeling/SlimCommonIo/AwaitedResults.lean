import SlimCommonIo.FrameInvariant

/-!
# Where awaited results come from

The value `await_resume` hands to a coroutine should be the result the kernel
posted for the operation staged by that same await.  It is in every run in
which no `await_suspend` is refused; a refused one lets the coroutine continue
at once with whatever its awaitable holds.
-/

namespace SlimCommonIo

open scoped List

variable {P : Program}

theorem Awaitable.group_stamps
    (awt : Awaitable) (self : UserData) (stamp : Stamp) :
    (awt.group self stamp).filterMap Sqe.stamp = [stamp] := by
  by_cases htimed : awt.timeoutTs.isSome <;>
    simp [group, htimed, primarySqe, timeoutSqe, Sqe.zero]

namespace Scheduler

/-- An `await_suspend` in this step finds the slots it needs. -/
def acceptsAwait (s : Scheduler P) (label : Label P) : Bool :=
  match label with
  | .runner _ => s.awaitedNow.all fun awt => s.io.sq.hasCapacity awt.needed
  | _ => true

/-! ## Stamps -/

/-- No two awaits have the same stamp, and the ring knows only stamps of staged
entries. -/
structure StampInvariant (s : Scheduler P) : Prop where
  known : (s.io.ledger 0).filterMap Ref.stamp <+~ s.io.staged.filterMap Sqe.stamp
  nodup : (s.io.staged.filterMap Sqe.stamp).Nodup
  past : ∀ stamp ∈ s.io.staged.filterMap Sqe.stamp,
    stamp.ordinal < s.ordinals stamp.task

theorem StampInvariant.initial
    {io : IoState} (hfresh : io.Fresh) (fd : Int32) (addr : UInt64) :
    StampInvariant (Scheduler.initial P io fd addr) := by
  have hledger : (Scheduler.initial P io fd addr).io.ledger 0 = [] := by
    simp [Scheduler.initial, IoState.ledger, SubmissionQueue.pendingSqes,
      SubmissionQueue.pending, hfresh.sqEmpty, hfresh.kernel, hfresh.posted]
  have hstaged : (Scheduler.initial P io fd addr).io.staged = [] := hfresh.staged
  constructor
  · rw [hledger]
    exact List.nil_subperm
  · simp [hstaged]
  · simp [hstaged]

theorem StampInvariant.afterStage
    {s next : Scheduler P} (hstamps : StampInvariant s) (hring : RingInvariant s)
    {awt : Awaitable} {id object : ℕ} {root : FrameId} {sq : SubmissionQueue}
    (haccept : awt.awaitSuspend (.awaitable id object) ⟨root, s.ordinals root⟩ s.io.sq =
      some sq)
    (hio : next.io = s.stagedIo sq
      (awt.group (.awaitable id object) ⟨root, s.ordinals root⟩))
    (hordinals : next.ordinals =
      Function.update s.ordinals root (s.ordinals root + 1)) :
    StampInvariant next := by
  obtain ⟨-, hsqes, -⟩ := hring.stage haccept
  have hledger := IoState.ledger_append s.io next.io (by rw [hio]; exact hsqes)
    (by rw [hio]; rfl) (by rw [hio]; rfl) 0
  have hgroup : ((awt.group (.awaitable id object) ⟨root, s.ordinals root⟩).map
      Sqe.ref).filterMap Ref.stamp = [⟨root, s.ordinals root⟩] := by
    rw [List.filterMap_map]
    exact awt.group_stamps _ _
  have hstaged : next.io.staged.filterMap Sqe.stamp =
      s.io.staged.filterMap Sqe.stamp ++ [⟨root, s.ordinals root⟩] := by
    rw [hio, stagedIo, List.filterMap_append, awt.group_stamps]
  have hnew : (⟨root, s.ordinals root⟩ : Stamp) ∉ s.io.staged.filterMap Sqe.stamp :=
    fun hmem => Nat.lt_irrefl _ (hstamps.past _ hmem)
  constructor
  · have hperm := hledger.filterMap Ref.stamp
    rw [List.filterMap_append, hgroup] at hperm
    rw [hstaged]
    refine hperm.subperm.trans (List.Subperm.trans ?_ List.perm_append_comm.subperm)
    exact (List.subperm_append_left _).mpr hstamps.known
  · rw [hstaged, List.nodup_append]
    exact ⟨hstamps.nodup, List.nodup_singleton _, by
      intro stamp hstamp other hother
      rw [List.mem_singleton] at hother
      rintro rfl
      exact hnew (hother ▸ hstamp)⟩
  · intro stamp hmem
    rw [hstaged, List.mem_append, List.mem_singleton] at hmem
    rw [hordinals]
    rcases hmem with hold | rfl
    · have hpast := hstamps.past stamp hold
      by_cases htask : stamp.task = root
      · rw [htask, Function.update_self]
        rw [htask] at hpast
        omega
      · rw [Function.update_of_ne htask]
        exact hpast
    · rw [Function.update_self]
      exact Nat.lt_succ_self _

theorem StampInvariant.congr
    {s next : Scheduler P} (hstamps : StampInvariant s)
    (hledger : (next.io.ledger 0).filterMap Ref.stamp <+~
      (s.io.ledger 0).filterMap Ref.stamp)
    (hstaged : next.io.staged.filterMap Sqe.stamp = s.io.staged.filterMap Sqe.stamp)
    (hordinals : next.ordinals = s.ordinals) : StampInvariant next := by
  constructor
  · rw [hstaged]
    exact hledger.trans hstamps.known
  · rw [hstaged]
    exact hstamps.nodup
  · rw [hstaged, hordinals]
    exact hstamps.past

theorem StampInvariant.step
    {s next : Scheduler P} {label : Label P} (hstamps : StampInvariant s)
    (hring : RingInvariant s) (hmove : Move s label next) : StampInvariant next := by
  cases hmove with
  | stage _ _ _ _ haccept => exact hstamps.afterStage hring haccept rfl rfl
  | arm hstack _ =>
      have hlt := hring.pending_lt
      have harm := IoState.ledger_arm s.io
        (s.stagedIo (s.io.sq.armEventfdRead s.eventfdFd s.eventfdBufAddr)
          [SubmissionQueue.eventfdRead s.eventfdFd s.eventfdBufAddr])
        hring.valid (by omega) rfl rfl rfl 0
      have hsub := (harm.2 (fun ref => ref.stamp.isSome) rfl).filterMap Ref.stamp
      have hstamp : (fun ref : Ref => if ref.stamp.isSome = true then ref.stamp else none) =
          Ref.stamp := by
        funext ref
        cases ref.stamp <;> rfl
      refine hstamps.congr ?_ ?_ rfl
      · rw [List.filterMap_filter, List.filterMap_filter, hstamp] at hsub
        exact hsub.subperm
      · simp [stagedIo, SubmissionQueue.eventfdRead, Sqe.zero]
  | @enter _ accepted _ hpending _ _ =>
      have hperm := IoState.ledger_enter s.io
        { s.io with
          sq := s.io.sq.consume accepted
          kernel := s.io.kernel ++ s.io.sq.front accepted
          consumed := s.io.consumed ++ s.io.sq.front accepted }
        hpending rfl rfl rfl 0
      exact hstamps.congr (hperm.filterMap _).subperm rfl rfl
  | @complete index sqe _ res _ hsqe _ _ =>
      have hperm := IoState.ledger_complete s.io
        { s.io with
          cq := s.io.cq.append
            { userData := sqe.userData, res := res, stamp := sqe.stamp }
          kernel := s.io.kernel.eraseIdx index
          posted := s.io.posted ++
            [{ userData := sqe.userData, res := res, stamp := sqe.stamp }] }
        hsqe rfl rfl rfl (Nat.zero_le _)
      exact hstamps.congr (hperm.filterMap _).subperm rfl rfl
  | _ => exact ⟨hstamps.known, hstamps.nodup, hstamps.past⟩

/-- Every logged value is the result of a posted completion. -/
def ValuesPosted (s : Scheduler P) : Prop :=
  ∀ task stamp value, .awaited task stamp value ∈ s.log →
    ∃ cqe ∈ s.io.posted, cqe.stamp.isSome = true ∧ cqe.stamp = stamp ∧ cqe.res = value

theorem Move.awaited_mem
    {s next : Scheduler P} {label : Label P} (hmove : Move s label next)
    (hinv : FrameInvariant s) {task : FrameId} {stamp : Option Stamp} {value : Int32}
    (hmem : .awaited task stamp value ∈ next.log) :
    .awaited task stamp value ∈ s.log ∨ s.acceptsAwait label = false ∨
      ∃ cqe ∈ s.io.posted, cqe.stamp.isSome = true ∧ cqe.stamp = stamp ∧
        cqe.res = value := by
  cases hmove with
  | refused hstack hframe hcode hobject hrefuse =>
      rw [Awaitable.awaitSuspend_eq] at hrefuse
      split at hrefuse
      next => simp at hrefuse
      next hfull =>
        right
        left
        simpa [acceptsAwait, awaitedNow, hstack, hframe, hcode, hobject] using hfull
  | @handleAwaitable _ rest current tail id object frame awt awaitedAwt handle awaited
      awaiting await resume hstack hmore hcqe hframe hobject hhandle hawaiting hpoint
      hawaited =>
      rcases List.mem_append.mp hmem with hold | hnew
      · exact .inl hold
      right
      right
      have hloop := hinv.ring.drainPoints_of_drain hstack
      have hnext := hinv.ring.completion.drop_handled_of_loop hloop hmore
      obtain ⟨targets, htargets⟩ := hinv.target_of_loop hstack hmore hcqe
      obtain ⟨-, -, -, -, hstamp, hvalue⟩ := hinv.resumed_frame htargets hcqe hframe
        hobject hhandle hawaiting hpoint hawaited
      have hcqeStamp : (s.io.cq.read current).stamp = some await := hstamp
      simp only [List.mem_singleton, Event.awaited.injEq] at hnew
      refine ⟨s.io.cq.read current, ?_, ?_, ?_, ?_⟩
      · apply List.mem_of_mem_drop (i := s.io.handled)
        rw [hnext]
        exact List.mem_cons_self ..
      · simp [hcqeStamp]
      · rw [hcqeStamp, hnew.2.1]
      · rw [hnew.2.2, hvalue]
  | invoke _ | spawnFull _ _ _ | spawnStart _ _ | spawnRefused _ _ _
  | spawnAccepted _ _ _ | spawnBadAlloc _ _ _ | effect _ _ _ | endRoot _ _
  | endInner _ _ _ | endAstray _ _ _ =>
      left
      simpa using hmem
  | _ => exact .inl hmem

theorem Move.posted_subset
    {s next : Scheduler P} {label : Label P} (hmove : Move s label next)
    (hwell : WellStacked s.stack) : s.io.posted ⊆ next.io.posted := by
  cases hmove.ringStep hwell with
  | complete _ _ _ _ _ hio =>
      rw [hio]
      exact List.subset_append_left _ _
  | same hio | begin hio | ready hio | wake hio | scan hio | endLoop _ hio | stage _ _ _ _ _ _ _ hio
  | arm _ _ _ hio | enter _ _ _ _ hio | handle _ _ _ _ hio | skip _ _ _ _ hio
  | advance _ _ hio | escape _ _ hio =>
      rw [hio]
      exact List.Subset.refl _

/-- As long as awaits are accepted, only results of completions are handed out. -/
theorem ValuesPosted.step
    {s next : Scheduler P} {label : Label P} (hvalues : s.ValuesPosted)
    (hinv : FrameInvariant s) (hmove : Move s label next)
    (haccepts : s.acceptsAwait label = true) : next.ValuesPosted := by
  intro task stamp value hmem
  have hposted := hmove.posted_subset hinv.ring.wellStacked
  rcases hmove.awaited_mem hinv hmem with hold | hrefused | hnew
  · obtain ⟨cqe, hcqe, hrest⟩ := hvalues task stamp value hold
    exact ⟨cqe, hposted hcqe, hrest⟩
  · rw [haccepts] at hrefused
    simp at hrefused
  · obtain ⟨cqe, hcqe, hrest⟩ := hnew
    exact ⟨cqe, hposted hcqe, hrest⟩

end Scheduler

open Scheduler Transition

end SlimCommonIo
