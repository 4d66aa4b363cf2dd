import SlimCommonIo.RingLedger

/-!
# No lost wakeup

A thread in `run` sleeps in `io_uring_enter` until a completion arrives; posts
and stop requests reach it through the eventfd.  Pushing a callable and writing
the eventfd are separate steps, the kernel may take the counter at any moment
in between, and the eventfd read is armed again one drain after it fired.  The
invariants below follow a wakeup from the write to the counter, from there to
the completion of the eventfd read, and on to the inbox.
-/

namespace SlimCommonIo

open scoped List

variable {P : Program}

/-! ## The eventfd read -/

/-- An eventfd read is pending, held by the kernel, or complete and not yet
handled. -/
def IoState.SentinelOut (io : IoState) : Prop :=
  ∃ ref ∈ io.outstanding, ref.userData = .eventfdBuf

theorem Awaitable.group_userData
    (awt : Awaitable) (id object : ℕ) (stamp : Stamp) :
    ∀ sqe ∈ awt.group (.awaitable id object) stamp, sqe.userData ≠ .eventfdBuf := by
  by_cases htimed : awt.timeoutTs.isSome <;>
    simp [group, htimed, primarySqe, timeoutSqe, Sqe.zero]

theorem Scheduler.Move.eventfd_eq
    {s next : Scheduler P} {label : Label P} (hmove : Scheduler.Move s label next) :
    next.eventfdFd = s.eventfdFd ∧ next.eventfdBufAddr = s.eventfdBufAddr := by
  cases hmove <;> exact ⟨rfl, rfl⟩

/-- An armed eventfd read is somewhere on its way, and a `drain` which has
passed its first step has it armed. -/
structure SentinelInvariant (s : Scheduler P) : Prop where
  out : s.eventfdArmed = true → s.io.SentinelOut
  armed : ∀ point ∈ drainPoints s.stack,
    point = .enter ∨ point = .waiting ∨ point = .scan → s.eventfdArmed = true
  submitted : .waiting ∈ drainPoints s.stack → s.io.sq.pending.toNat = 0
  reads : ∀ sqe ∈ s.io.sq.pendingSqes ++ s.io.kernel, sqe.userData = .eventfdBuf →
    sqe = SubmissionQueue.eventfdRead s.eventfdFd s.eventfdBufAddr

/-- A `drain` which sleeps after the step slept before, or it has submitted
everything and no shutdown is under way. -/
theorem Scheduler.RingStep.waiting_cases
    {s next : Scheduler P} {label : Label P} (hstep : Scheduler.RingStep s label next)
    (hwaiting : .waiting ∈ drainPoints next.stack) :
    (.waiting ∈ drainPoints s.stack ∧ next.io.sq = s.io.sq) ∨
      ∃ accepted, accepted = s.io.sq.pending.toNat ∧ s.shuttingDown = false ∧
        next.io.sq = s.io.sq.consume accepted := by
  cases hstep with
  | same hio _ hpoints | complete _ _ _ _ _ hio _ hpoints =>
      rw [hpoints] at hwaiting
      exact .inl ⟨hwaiting, by rw [hio]⟩
  | stage _ _ _ _ _ _ hawake _ _ hpoints =>
      rw [hpoints] at hwaiting
      exact absurd hwaiting hawake
  | enter accepted _ _ _ hio _ _ hafter =>
      rw [hafter, List.mem_singleton] at hwaiting
      split at hwaiting
      next hwaits => exact .inr ⟨accepted, hwaits.1, hwaits.2, by rw [hio]⟩
      next => simp at hwaiting
  | handle _ _ _ _ _ _ _ hafter =>
      rw [hafter, List.mem_singleton] at hwaiting
      split at hwaiting <;> simp at hwaiting
  | begin _ _ _ hafter | ready _ _ _ _ hafter | wake _ _ _ hafter | scan _ _ _ hafter
  | endLoop _ _ _ _ hafter | arm _ _ _ _ _ _ hafter | skip _ _ _ _ _ _ _ hafter
  | advance _ _ _ _ _ hafter | escape _ _ _ _ _ hafter =>
      simp [hafter] at hwaiting

namespace SentinelInvariant

theorem initial
    {io : IoState} (hfresh : io.Fresh) (fd : Int32) (addr : UInt64) :
    SentinelInvariant (Scheduler.initial P io fd addr) := by
  constructor
  · intro harmed
    simp [Scheduler.initial] at harmed
  · intro point hpoint
    simp [Scheduler.initial, drainPoints] at hpoint
  · intro hpoint
    simp [Scheduler.initial, drainPoints] at hpoint
  · intro sqe hsqe
    simp [Scheduler.initial, SubmissionQueue.pendingSqes, SubmissionQueue.pending,
      hfresh.sqEmpty, hfresh.kernel] at hsqe

theorem out_of_perm
    {io io' : IoState} (hperm : io'.outstanding ~ io.outstanding)
    (hout : io.SentinelOut) : io'.SentinelOut := by
  obtain ⟨ref, hmem, href⟩ := hout
  exact ⟨ref, hperm.symm.subset hmem, href⟩

theorem out_step
    {s next : Scheduler P} {label : Label P} (hinv : SentinelInvariant s)
    (hring : RingInvariant s) (hstep : Scheduler.RingStep s label next) :
    next.eventfdArmed = true → next.io.SentinelOut := by
  intro harmed
  cases hstep with
  | same hio harm | begin hio harm | ready hio harm | wake hio harm | scan hio harm
  | endLoop _ hio harm =>
      rw [harm] at harmed
      rw [hio]
      exact hinv.out harmed
  | stage awt id object stamp sq haccept _ hio harm =>
      obtain ⟨-, hsqes, -⟩ := hring.stage haccept
      rw [harm] at harmed
      obtain ⟨ref, hmem, href⟩ := hinv.out harmed
      have hledger := IoState.ledger_append s.io next.io (by rw [hio]; exact hsqes)
        (by rw [hio]; rfl) (by rw [hio]; rfl) next.io.handled
      refine ⟨ref, hledger.symm.subset (List.mem_append_right _ ?_), href⟩
      rw [hio]
      exact hmem
  | arm _ _ _ hio _ =>
      have hlt := hring.pending_lt
      have harm := IoState.ledger_arm s.io next.io hring.valid (by omega)
        (by rw [hio]; rfl) (by rw [hio]; rfl) (by rw [hio]; rfl) next.io.handled
      exact ⟨_, harm.1, rfl⟩
  | enter accepted hpending _ _ hio harm =>
      rw [harm] at harmed
      apply out_of_perm _ (hinv.out harmed)
      have hperm := IoState.ledger_enter s.io next.io hpending (by rw [hio])
        (by rw [hio]) (by rw [hio]) s.io.handled
      rw [IoState.outstanding, IoState.outstanding, hio]
      rw [hio] at hperm
      exact hperm
  | complete index sqe res hsqe _ hio harm =>
      rw [harm] at harmed
      apply out_of_perm _ (hinv.out harmed)
      have hperm := IoState.ledger_complete s.io next.io hsqe (by rw [hio])
        (by rw [hio]) (by rw [hio]) hring.handled_le
      rw [IoState.outstanding, IoState.outstanding, hio]
      rw [hio] at hperm
      exact hperm
  | handle current tail hmore _ hio harm hbefore _ =>
      rw [harm] at harmed
      split at harmed
      next => simp at harmed
      next hother =>
        obtain ⟨ref, hmem, href⟩ := hinv.out harmed
        have hperm := hring.outstanding_of_loop hbefore hmore
        rcases List.mem_cons.mp (hperm.subset hmem) with heq | hrest
        · rw [heq] at href
          exact absurd href hother
        · refine ⟨ref, ?_, href⟩
          rw [hio]
          exact hrest
  | skip current tail hmore hcqe hio harm hbefore _ =>
      rw [harm] at harmed
      obtain ⟨ref, hmem, href⟩ := hinv.out harmed
      have hperm := hring.outstanding_of_loop hbefore hmore
      rcases List.mem_cons.mp (hperm.subset hmem) with heq | hrest
      · rw [heq] at href
        simp [Cqe.ref, hcqe] at href
      · refine ⟨ref, ?_, href⟩
        rw [hio]
        exact hrest
  | advance _ _ hio harm =>
      rw [harm] at harmed
      rw [hio]
      exact hinv.out harmed
  | escape current tail hio harm hbefore _ =>
      rw [harm] at harmed
      obtain ⟨ref, hmem, href⟩ := hinv.out harmed
      obtain ⟨stamp, hperm⟩ := hring.outstanding_of_escape hbefore
      refine ⟨ref, ?_, href⟩
      rw [hio]
      exact hperm.symm.subset (List.mem_cons_of_mem _ hmem)

theorem armed_step
    {s next : Scheduler P} {label : Label P} (hinv : SentinelInvariant s)
    (hstep : Scheduler.RingStep s label next) :
    (∀ point ∈ drainPoints next.stack,
      point = .enter ∨ point = .waiting ∨ point = .scan → next.eventfdArmed = true) := by
  intro point hpoint hready
  cases hstep with
  | same _ harm hpoints | stage _ _ _ _ _ _ _ _ harm hpoints
  | complete _ _ _ _ _ _ harm hpoints =>
      rw [hpoints] at hpoint
      rw [harm]
      exact hinv.armed point hpoint hready
  | ready _ harm harmed _ _ =>
      rw [harm]
      exact harmed
  | wake _ harm hbefore _ =>
      rw [harm]
      exact hinv.armed .waiting (by simp [hbefore]) (by simp)
  | arm _ _ _ _ harm _ _ => exact harm
  | enter _ _ _ _ _ harm hbefore _ =>
      rw [harm]
      exact hinv.armed .enter (by simp [hbefore]) (by simp)
  | handle _ _ _ _ _ _ _ hafter =>
      rw [hafter, List.mem_singleton] at hpoint
      subst hpoint
      split at hready <;> simp at hready
  | endLoop _ _ _ _ hafter | escape _ _ _ _ _ hafter => simp [hafter] at hpoint
  | begin _ _ _ hafter | scan _ _ _ hafter | skip _ _ _ _ _ _ _ hafter
  | advance _ _ _ _ _ hafter =>
      simp only [hafter, List.mem_singleton] at hpoint
      subst hpoint
      simp at hready

theorem submitted_step
    {s next : Scheduler P} {label : Label P} (hinv : SentinelInvariant s)
    (hstep : Scheduler.RingStep s label next) :
    .waiting ∈ drainPoints next.stack → next.io.sq.pending.toNat = 0 := by
  intro hwaiting
  rcases hstep.waiting_cases hwaiting with ⟨hold, hsq⟩ | ⟨accepted, hall, -, hsq⟩
  · rw [hsq]
    exact hinv.submitted hold
  · rw [hsq, SubmissionQueue.consume_pending_toNat hall.le]
    omega

theorem reads_step
    {s next : Scheduler P} {label : Label P} (hinv : SentinelInvariant s)
    (hring : RingInvariant s) (hmove : Scheduler.Move s label next) :
    ∀ sqe ∈ next.io.sq.pendingSqes ++ next.io.kernel, sqe.userData = .eventfdBuf →
      sqe = SubmissionQueue.eventfdRead next.eventfdFd next.eventfdBufAddr := by
  rw [hmove.eventfd_eq.1, hmove.eventfd_eq.2]
  intro sqe hmem hsentinel
  have hold : sqe ∈ s.io.sq.pendingSqes ++ s.io.kernel →
      sqe = SubmissionQueue.eventfdRead s.eventfdFd s.eventfdBufAddr :=
    fun hsqe => hinv.reads sqe hsqe hsentinel
  cases hmove.ringStep hring.wellStacked with
  | stage awt id object stamp sq haccept _ hio =>
      obtain ⟨-, hsqes, -⟩ := hring.stage haccept
      rw [hio] at hmem
      simp only [Scheduler.stagedIo, hsqes, List.mem_append] at hmem
      rcases hmem with (hpending | hgroup) | hkernel
      · exact hold (by simp [hpending])
      · have := awt.group_userData id object stamp sqe hgroup
        simp [hsentinel] at this
      · exact hold (by simp [hkernel])
  | arm _ _ _ hio =>
      have hlt := hring.pending_lt
      rw [hio] at hmem
      simp only [Scheduler.stagedIo, SubmissionQueue.armEventfdRead_eq_publish,
        List.mem_append] at hmem
      rcases hmem with hpending | hkernel
      · rcases SubmissionQueue.mem_pendingSqes_publish hring.valid (by omega) hpending with
          hnew | hpending
        · exact hnew
        · exact hold (by simp [hpending])
      · exact hold (by simp [hkernel])
  | enter accepted hpending _ _ hio =>
      apply hold
      have hsplit := SubmissionQueue.pendingSqes_consume hpending
      rw [hio] at hmem
      simp only [List.mem_append] at hmem ⊢
      rw [← hsplit, List.mem_append]
      tauto
  | complete index _ _ _ _ hio =>
      apply hold
      rw [hio] at hmem
      simp only [List.mem_append] at hmem ⊢
      exact hmem.imp_right List.mem_of_mem_eraseIdx
  | same hio | begin hio | ready hio | wake hio | scan hio | endLoop _ hio
  | handle _ _ _ _ hio | skip _ _ _ _ hio | advance _ _ hio | escape _ _ hio =>
      apply hold
      rw [hio] at hmem
      exact hmem

theorem step
    {s next : Scheduler P} {label : Label P} (hinv : SentinelInvariant s)
    (hring : RingInvariant s) (hmove : Scheduler.Move s label next) :
    SentinelInvariant next :=
  have hstep := hmove.ringStep hring.wellStacked
  { out := hinv.out_step hring hstep
    armed := hinv.armed_step hstep
    submitted := hinv.submitted_step hstep
    reads := hinv.reads_step hring hmove }

/-- In a sleeping `drain` with an empty completion ring the read is in flight. -/
theorem inFlight_of_waiting
    {s : Scheduler P} (hinv : SentinelInvariant s) (hring : RingInvariant s)
    {rest : List (Activation P)} (hstack : s.stack = .drain .waiting :: rest)
    (hempty : s.io.cq.head = s.io.cq.tail) :
    s.io.posted.drop s.io.handled = [] ∧
      SubmissionQueue.eventfdRead s.eventfdFd s.eventfdBufAddr ∈ s.io.kernel := by
  have hpoints := hring.drainPoints_of_drain hstack
  have hunhandled : s.io.posted.drop s.io.handled = [] := by
    obtain ⟨reaped, hhistory, hlength⟩ := hring.completion.history
    rw [hpoints] at hlength
    have hnone : s.io.cq.unreapedCqes = [] := by
      simp [CompletionQueue.unreapedCqes, CompletionQueue.unreaped, hempty]
    rw [hhistory, hlength, hnone]
    simp [DrainPoint.handling]
  refine ⟨hunhandled, ?_⟩
  have hpending : s.io.sq.pendingSqes = [] := by
    have hzero := hinv.submitted (by simp [hpoints])
    simp [SubmissionQueue.pendingSqes, hzero]
  obtain ⟨ref, hmem, href⟩ := hinv.out (hinv.armed .waiting (by simp [hpoints]) (by simp))
  simp only [IoState.outstanding, IoState.ledger, hunhandled, hpending, List.map_nil,
    List.nil_append, List.append_nil] at hmem
  obtain ⟨sqe, hsqe, rfl⟩ := List.mem_map.mp hmem
  rw [← hinv.reads sqe (List.mem_append_right _ hsqe) href]
  exact hsqe

end SentinelInvariant

/-! ## Wakeups under way -/

namespace Scheduler

/-- A write to the eventfd is still to be noticed: the counter is not zero, or
the read has completed and its completion is not handled yet. -/
def WakePending (s : Scheduler P) : Prop :=
  0 < s.eventfd ∨ ∃ cqe ∈ s.io.posted.drop s.io.handled, cqe.userData = .eventfdBuf

theorem WakePending.afterHandle
    {s next : Scheduler P} (hpending : s.WakePending) (hring : RingInvariant s)
    {current tail : UInt32} (hloop : drainPoints s.stack = [.loop current tail])
    (hmore : current ≠ tail) (hcqe : (s.io.cq.read current).userData ≠ .eventfdBuf)
    (heventfd : next.eventfd = s.eventfd) (hposted : next.io.posted = s.io.posted)
    (hhandled : next.io.handled = s.io.handled + 1) : next.WakePending := by
  rcases hpending with hcounter | ⟨cqe, hmem, hsentinel⟩
  · exact .inl (by rwa [heventfd])
  · rw [hring.completion.drop_handled_of_loop hloop hmore] at hmem
    rcases List.mem_cons.mp hmem with rfl | hmem
    · exact absurd hsentinel hcqe
    · exact .inr ⟨cqe, by rwa [hposted, hhandled], hsentinel⟩

/-- A wakeup stays under way until `drain` turns to the inbox. -/
theorem Move.wakePending
    {s next : Scheduler P} {label : Label P} (hmove : Move s label next)
    (hring : RingInvariant s) (hpending : s.WakePending) :
    next.WakePending ∨ ∃ rest, next.stack = .swapInbox :: rest := by
  cases hmove with
  | handleSentinel _ _ _ => exact .inr ⟨_, rfl⟩
  | handleNull hstack hmore hcqe | handleDangling hstack hmore hcqe _
  | handleAwaitable hstack hmore hcqe _ _ _ _ _ _ =>
      left
      exact hpending.afterHandle hring (hring.drainPoints_of_drain hstack)
        hmore (by simp [hcqe]) rfl rfl rfl
  | escape hstack _ =>
      left
      have hwell := hring.wellStacked
      rw [hstack] at hwell
      obtain ⟨current, tail, hpoint⟩ := drainPoints_of_job hwell
      rw [← hstack] at hpoint
      obtain ⟨hdrop, -⟩ := hring.completion.drop_handled_of_escape hpoint
      rcases hpending with hcounter | ⟨cqe, hmem, hsentinel⟩
      · exact .inl hcounter
      · refine .inr ⟨cqe, ?_, hsentinel⟩
        change cqe ∈ s.io.posted.drop (s.io.handled - 1)
        rw [hdrop]
        exact List.mem_cons_of_mem _ hmem
  | @complete index sqe _ res eventfd _ _ heventfd =>
      left
      rcases heventfd with ⟨hsentinel, -, -⟩ | ⟨-, hcounter⟩
      · -- the kernel has taken the counter into a completion
        refine .inr ⟨{ userData := sqe.userData, res := res, stamp := sqe.stamp }, ?_,
          hsentinel⟩
        change _ ∈ (s.io.posted ++ [_]).drop s.io.handled
        rw [List.drop_append_of_le_length hring.handled_le]
        exact List.mem_append_right _ (List.mem_singleton_self _)
      · rcases hpending with hold | ⟨cqe, hmem, hsentinel⟩
        · exact .inl (by rwa [hcounter])
        · refine .inr ⟨cqe, ?_, hsentinel⟩
          change _ ∈ (s.io.posted ++ [_]).drop s.io.handled
          rw [List.drop_append_of_le_length hring.handled_le]
          exact List.mem_append_left _ hmem
  | eventfdWrite _ | notify _ | stopCallback _ _ _ => exact .inl (.inl (Nat.succ_pos _))
  | @callRun requested _ _ =>
      left
      rcases hpending with hcounter | hcqe
      · refine .inl ?_
        change 0 < if requested = true then s.eventfd + 1 else s.eventfd
        split <;> omega
      · exact .inr hcqe
  | _ => exact .inl hpending

end Scheduler

/-! ## Callables in the inbox -/

namespace Scheduler

/-- A wakeup is under way, or the driving thread is about to swap the inbox or
to write the eventfd itself. -/
def WakeDue (s : Scheduler P) : Prop :=
  s.WakePending ∨ (∃ rest, s.stack = .swapInbox :: rest) ∨
    ∃ rest, s.stack = .eventfdWrite :: rest

/-- For every callable in the inbox whose `post` is complete, or which was
requeued, a wakeup is due. -/
def InboxNoticed (s : Scheduler P) : Prop :=
  ∀ entry ∈ s.inbox, entry.id ∉ s.unnotified → s.WakeDue

theorem WakeDue.of_pending
    {s next : Scheduler P} {label : Label P} (hmove : Move s label next)
    (hring : RingInvariant s) (hpending : s.WakePending) : next.WakeDue :=
  (hmove.wakePending hring hpending).imp_right .inl

theorem WakeDue.pending
    {s : Scheduler P} (hdue : s.WakeDue)
    (hswap : ∀ rest, s.stack ≠ .swapInbox :: rest)
    (hwrite : ∀ rest, s.stack ≠ .eventfdWrite :: rest) : s.WakePending := by
  rcases hdue with hpending | ⟨rest, hstack⟩ | ⟨rest, hstack⟩
  · exact hpending
  · exact absurd hstack (hswap rest)
  · exact absurd hstack (hwrite rest)

theorem CallsSpawn.stack_ne
    {s : Scheduler P} {label : Label P} {body : P.Code}
    {below : List (Activation P)} (hcall : CallsSpawn s label body below) :
    (∀ rest, s.stack ≠ .swapInbox :: rest) ∧
      ∀ rest, s.stack ≠ .eventfdWrite :: rest := by
  cases hcall with
  | job hstack _ | coroutine hstack _ _ | client hstack _ => simp [hstack]

theorem InboxNoticed.step
    {s next : Scheduler P} {label : Label P} (hnoticed : s.InboxNoticed)
    (hring : RingInvariant s) (hmove : Move s label next) : next.InboxNoticed := by
  intro entry hentry hid
  -- a callable that was there before, while neither of the two steps is next
  have hkept : entry ∈ s.inbox → entry.id ∉ s.unnotified →
      (∀ rest, s.stack ≠ .swapInbox :: rest) →
      (∀ rest, s.stack ≠ .eventfdWrite :: rest) → next.WakeDue :=
    fun hold hnotified hswap hwrite =>
      .of_pending hmove hring ((hnoticed entry hold hnotified).pending hswap hwrite)
  have hdue : s.WakePending → next.WakeDue := .of_pending hmove hring
  cases hmove with
  | swapInbox _ => simp at hentry
  | eventfdWrite _ | notify _ | stopCallback _ _ _ => exact .inl (.inl (Nat.succ_pos _))
  | requeue _ _ | post _ => exact .inr (.inr ⟨_, rfl⟩)
  | leaveRun hstack _ | loopRun hstack _ | leaveShutdown hstack _
  | loopShutdown hstack _ | destructor hstack | reap hstack | armedStart hstack _
  | arm hstack _ | enter hstack _ _ _ | wake hstack _ | scan hstack | endLoop hstack
  | handleSentinel hstack _ _ | handleNull hstack _ _ | handleDangling hstack _ _ _
  | handleAwaitable hstack _ _ _ _ _ _ _ _ | resumed hstack | inboxDone hstack
  | endInbox hstack | invoke hstack | endJob hstack _ | escape hstack _
  | spawnRefused hstack _ _ | spawnAccepted hstack _ _ | spawnBadAlloc hstack _ _
  | effect hstack _ _ | refused hstack _ _ _ _ | stage hstack _ _ _ _
  | awaitTask hstack _ _ | astray hstack _ | callResume hstack _ | callRun hstack _
  | callShutdown hstack _ | callDestroy hstack _ _ | callDestroyBusy hstack _ _ =>
      exact hkept hentry hid (by simp [hstack]) (by simp [hstack])
  | spawnFull hcall _ _ | spawnStart hcall _ =>
      exact hkept hentry hid hcall.stack_ne.1 hcall.stack_ne.2
  | endRoot hends _ | endInner hends _ _ | endAstray hends _ _ =>
      obtain ⟨code, hstack⟩ := hends.stack
      exact hkept hentry hid (by simp [hstack]) (by simp [hstack])
  | enqueue _ =>
      -- the new callable's post has not written yet
      simp only [List.mem_cons, not_or] at hid
      simp only [pushInbox, List.mem_append, List.mem_singleton] at hentry
      rcases hentry with hold | rfl
      · exact hnoticed entry hold hid.2
      · simp at hid
  | requestStop _ _ | dropTask _ | foreignRefusal _ => exact hnoticed entry hentry hid
  | complete _ _ _ =>
      rcases hnoticed entry hentry hid with hpending | hstack
      · exact hdue hpending
      · exact .inr hstack

end Scheduler

/-! ## Stop requests -/

/-- `drain` has not looked at the completion ring yet. -/
def DrainPoint.beforeLoop : DrainPoint → Bool
  | .start | .enter | .waiting | .scan => true
  | .loop _ _ | .resumed _ _ | .inboxDone _ _ => false

/-- A stop request which has called back is under way to every `drain` of `run`
that has not yet looked at the completion ring. -/
structure StopInvariant (s : Scheduler P) : Prop where
  requested : s.stop.called = true → s.stop.requested = true
  shutdown : .shutdown ∈ s.stack → s.shuttingDown = true
  sleeping : .waiting ∈ drainPoints s.stack → s.shuttingDown = false
  due : s.stop.called = true → s.shuttingDown = false →
    ∀ point ∈ drainPoints s.stack, point.beforeLoop = true → s.WakePending

namespace StopInvariant

theorem initial
    (io : IoState) (fd : Int32) (addr : UInt64) :
    StopInvariant (Scheduler.initial P io fd addr) := by
  constructor <;> simp [Scheduler.initial, drainPoints]

theorem shuttingDown_step
    {s next : Scheduler P} {label : Label P} (hmove : Scheduler.Move s label next) :
    next.shuttingDown = s.shuttingDown ∨
      drainPoints next.stack = [] ∧ next.shuttingDown = true := by
  cases hmove with
  | callShutdown _ _ | callDestroyBusy _ _ _ => exact .inr ⟨rfl, rfl⟩
  | _ => exact .inl rfl

theorem sleeping_step
    {s next : Scheduler P} {label : Label P} (hinv : StopInvariant s)
    (hring : RingInvariant s) (hmove : Scheduler.Move s label next) :
    .waiting ∈ drainPoints next.stack → next.shuttingDown = false := by
  intro hwaiting
  rcases shuttingDown_step hmove with hsame | ⟨hnone, -⟩
  · rw [hsame]
    rcases (hmove.ringStep hring.wellStacked).waiting_cases hwaiting with
      ⟨hold, -⟩ | ⟨-, -, hflag, -⟩
    · exact hinv.sleeping hold
    · exact hflag
  · simp [hnone] at hwaiting

/-- A `drain` before its loop was there before the step, or it starts now
because no stop was requested or in `shutdown`. -/
theorem beforeLoop_step
    {s next : Scheduler P} {label : Label P}
    (hstep : Scheduler.RingStep s label next) {point : DrainPoint}
    (hpoint : point ∈ drainPoints next.stack) (hbefore : point.beforeLoop = true) :
    (∃ earlier ∈ drainPoints s.stack, earlier.beforeLoop = true) ∨
      s.stop.requested = false ∨ .shutdown ∈ s.stack := by
  cases hstep with
  | same _ _ hpoints | stage _ _ _ _ _ _ _ _ _ hpoints
  | complete _ _ _ _ _ _ _ hpoints =>
      rw [hpoints] at hpoint
      exact .inl ⟨point, hpoint, hbefore⟩
  | begin _ _ _ _ hloop => exact .inr hloop
  | ready _ _ _ hstart _ | arm _ _ _ _ _ hstart _ =>
      exact .inl ⟨.start, by simp [hstart], rfl⟩
  | enter _ _ _ _ _ _ henter _ => exact .inl ⟨.enter, by simp [henter], rfl⟩
  | wake _ _ hwaiting _ => exact .inl ⟨.waiting, by simp [hwaiting], rfl⟩
  | handle _ _ _ _ _ _ _ hafter =>
      rw [hafter, List.mem_singleton] at hpoint
      subst hpoint
      split at hbefore <;> simp [DrainPoint.beforeLoop] at hbefore
  | endLoop _ _ _ _ hafter | escape _ _ _ _ _ hafter => simp [hafter] at hpoint
  | scan _ _ _ hafter | skip _ _ _ _ _ _ _ hafter | advance _ _ _ _ _ hafter =>
      rw [hafter, List.mem_singleton] at hpoint
      subst hpoint
      simp [DrainPoint.beforeLoop] at hbefore

theorem not_beforeLoop_of_swapInbox
    {stack rest : List (Activation P)} (hwell : WellStacked stack)
    (hstack : stack = .swapInbox :: rest) :
    ∀ point ∈ drainPoints stack, point.beforeLoop = false := by
  subst hstack
  obtain ⟨⟨current, tail, below, rfl⟩, hdrain⟩ := hwell
  simp [drainPoints, drainPoints_below hdrain, DrainPoint.beforeLoop]

theorem due_step
    {s next : Scheduler P} {label : Label P} (hinv : StopInvariant s)
    (hring : RingInvariant s) (hmove : Scheduler.Move s label next) :
    next.stop.called = true → next.shuttingDown = false →
      ∀ point ∈ drainPoints next.stack, point.beforeLoop = true → next.WakePending := by
  intro hcalled hup point hpoint hbefore
  have hup' : s.shuttingDown = false := by
    rcases shuttingDown_step hmove with hsame | ⟨hnone, -⟩
    · rw [← hsame, hup]
    · simp [hnone] at hpoint
  -- a callback already made was waiting to be noticed before the step
  have hkept : s.stop.called = true → next.WakePending := by
    intro hcalled
    rcases beforeLoop_step (hmove.ringStep hring.wellStacked) hpoint hbefore with
      ⟨earlier, hmem, hearlier⟩ | hstop | hdown
    · rcases hmove.wakePending hring (hinv.due hcalled hup' earlier hmem hearlier) with
        hpending | ⟨rest, hstack⟩
      · exact hpending
      · have hswap := not_beforeLoop_of_swapInbox (hmove.wellStacked hring.wellStacked)
          hstack point hpoint
        simp [hbefore] at hswap
    · simp [hinv.requested hcalled] at hstop
    · simp [hinv.shutdown hdown] at hup'
  cases hmove with
  | stopCallback _ _ _ => exact .inl (Nat.succ_pos _)
  | callRun _ _ => simp [drainPoints] at hpoint
  | _ => exact hkept hcalled

theorem step
    {s next : Scheduler P} {label : Label P} (hinv : StopInvariant s)
    (hring : RingInvariant s) (hmove : Scheduler.Move s label next) :
    StopInvariant next where
  requested := by
    cases hmove with
    | requestStop _ _ => exact fun _ => rfl
    | stopCallback _ hrequested _ => exact fun _ => hrequested
    | callRun _ _ => exact id
    | _ => exact hinv.requested
  shutdown := by
    intro hmem
    rcases hmove.entered rfl hmem with hold | ⟨-, hnew⟩ | ⟨task, origin, hspawn, -⟩
    · rcases shuttingDown_step hmove with hsame | ⟨-, hdown⟩
      · rw [hsame, hinv.shutdown hold]
      · exact hdown
    · exact hnew
    · simp at hspawn
  sleeping := hinv.sleeping_step hring hmove
  due := hinv.due_step hring hmove

end StopInvariant

/-! ## The sleeping runner -/

namespace Scheduler

/-- The driving thread sleeps in `io_uring_enter` and nothing has completed. -/
structure Blocked (s : Scheduler P) : Prop where
  waiting : ∃ rest, s.stack = .drain .waiting :: rest
  cqEmpty : s.io.cq.head = s.io.cq.tail

/-- A callable is in the inbox whose `post` has written the eventfd or which
`drain_inbox` has requeued. -/
def HasNoticedCallable (s : Scheduler P) : Prop :=
  ∃ entry ∈ s.inbox, entry.id ∉ s.unnotified

/-- A stop has been requested and its callback has written the eventfd. -/
def HasCalledStop (s : Scheduler P) : Prop :=
  s.stop.requested = true ∧ s.stop.called = true

/-- What the invariants of this module say together. -/
structure WakeInvariant (fd : Int32) (addr : UInt64) (s : Scheduler P) : Prop where
  eventfd : s.eventfdFd = fd ∧ s.eventfdBufAddr = addr
  ring : RingInvariant s
  sentinel : SentinelInvariant s
  inbox : s.InboxNoticed
  stop : StopInvariant s

theorem WakeInvariant.of_run
    {io : IoState} (hfresh : io.Fresh) {fd : Int32} {addr : UInt64}
    {history : List (Scheduler P × Label P)} {final : Scheduler P}
    (hrun : Transition.Run Scheduler.step (Scheduler.initial P io fd addr) history final) :
    WakeInvariant fd addr final := by
  refine hrun.invariant (WakeInvariant fd addr) ?_ ?_
  · exact
      { eventfd := ⟨rfl, rfl⟩
        ring := .initial hfresh fd addr
        sentinel := .initial hfresh fd addr
        inbox := by intro entry hentry; simp [Scheduler.initial] at hentry
        stop := .initial io fd addr }
  · intro s label next hinv hstep
    have hmove := (move_of_step hstep).2
    exact
      { eventfd := by rw [hmove.eventfd_eq.1, hmove.eventfd_eq.2]; exact hinv.eventfd
        ring := hinv.ring.step hmove
        sentinel := hinv.sentinel.step hinv.ring hmove
        inbox := hinv.inbox.step hinv.ring hmove
        stop := hinv.stop.step hinv.ring hmove }

end Scheduler

open Scheduler Transition

/-- Whenever the thread in `run` sleeps with an empty completion ring, the
eventfd read is in flight, and while the counter is zero no callable waits
whose `post` is complete and no stop request has called back. -/
theorem no_lost_wakeup
    (P : Program) {io : IoState} (hfresh : io.Fresh) (fd : Int32) (addr : UInt64)
    {history : List (Scheduler P × Label P)} {final : Scheduler P}
    (hrun : Run Scheduler.step (Scheduler.initial P io fd addr) history final)
    (hblocked : final.Blocked) :
    (final.eventfd = 0 → ¬ final.HasNoticedCallable ∧ ¬ final.HasCalledStop) ∧
      SubmissionQueue.eventfdRead fd addr ∈ final.io.kernel := by
  have hinv := WakeInvariant.of_run hfresh hrun
  obtain ⟨rest, hstack⟩ := hblocked.waiting
  obtain ⟨hhandled, hread⟩ :=
    hinv.sentinel.inFlight_of_waiting hinv.ring hstack hblocked.cqEmpty
  rw [hinv.eventfd.1, hinv.eventfd.2] at hread
  refine ⟨?_, hread⟩
  intro hzero
  have hidle : ¬ final.WakePending := by
    rintro (hcounter | ⟨cqe, hmem, -⟩)
    · omega
    · simp [hhandled] at hmem
  have hwaiting : .waiting ∈ drainPoints final.stack := by simp [hstack, drainPoints]
  constructor
  · rintro ⟨entry, hentry, hnotified⟩
    have hdue := hinv.inbox entry hentry hnotified
    exact hidle (hdue.pending (by simp [hstack]) (by simp [hstack]))
  · rintro ⟨-, hcalled⟩
    exact hidle (hinv.stop.due hcalled (hinv.stop.sleeping hwaiting) .waiting hwaiting rfl)

/-- A thread asleep in `run`, with another thread between the push and the
write of its `post`. -/
theorem no_lost_wakeup_halfPosted :
    ∃ history final,
      Run Scheduler.step (Scheduler.initial awaitScript (ringOfDepth 2) 3 64)
        history final ∧
      final.Blocked ∧ final.eventfd = 0 ∧ final.inbox.length = 1 ∧
      ¬ final.HasNoticedCallable ∧ ¬ final.HasCalledStop ∧
      SubmissionQueue.eventfdRead 3 64 ∈ final.io.kernel := by
  have hreplay : (replay Scheduler.step (fun _ _ => true)
      (Scheduler.initial awaitScript (ringOfDepth 2) 3 64)
      [.callRun false, .runner true, .runner true, .enter 1,
        .enqueue (.spawning [false])]).any
      (fun s => decide (.waiting ∈ drainPoints s.stack ∧ s.io.cq.head = s.io.cq.tail ∧
        s.eventfd = 0 ∧ s.inbox.length = 1)) = true := by decide +kernel
  obtain ⟨history, final, hrun, -, hcheck⟩ := exists_run_of_replay hreplay
  obtain ⟨hwaiting, hempty, hzero, hlength⟩ := of_decide_eq_true hcheck
  have hfresh : (ringOfDepth 2).Fresh := (ringOfDepth_created 1 (by omega) rfl).toFresh
  have hwell := (WakeInvariant.of_run hfresh hrun).ring.wellStacked
  have hblocked : final.Blocked := ⟨waiting_on_top hwell hwaiting, hempty⟩
  obtain ⟨hquiet, hread⟩ := no_lost_wakeup awaitScript hfresh 3 64 hrun hblocked
  exact ⟨history, final, hrun, hblocked, hzero, hlength, (hquiet hzero).1,
    (hquiet hzero).2, hread⟩

end SlimCommonIo
