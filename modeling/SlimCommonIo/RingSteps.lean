import SlimCommonIo.SchedulerStack
import SlimCommonIo.SubmissionRing

/-!
# What a step does to the ring

Every step of the scheduler is projected to the ring, the armed flag and the
program point of the active `drain`.  Most steps change none of them; the ring
invariants are proved by cases on the few that do.
-/

namespace SlimCommonIo

variable {P : Program}

namespace Scheduler

/-- The next action of the driving thread is `arm_eventfd_read`. -/
def aboutToArm (s : Scheduler P) : Bool :=
  match s.stack with
  | .drain .start :: _ => !s.eventfdArmed
  | _ => false

/-- The object whose `await_suspend` the driving thread calls in its next step. -/
def awaitedNow (s : Scheduler P) : Option Awaitable :=
  match s.stack with
  | .coroutine id code :: _ =>
      match s.heap.frames id, P.instr code with
      | some frame, .coAwait object construct _ => awaitedObject frame object construct
      | _, _ => none
  | _ => none

/-- The effect of a step on the ring, the armed flag and the active `drain`. -/
inductive RingStep (s : Scheduler P) (label : Label P) (next : Scheduler P) : Prop
  | same (hio : next.io = s.io) (harmed : next.eventfdArmed = s.eventfdArmed)
      (hpoints : drainPoints next.stack = drainPoints s.stack)
  | begin (hio : next.io = s.io) (harmed : next.eventfdArmed = s.eventfdArmed)
      (hbefore : drainPoints s.stack = [])
      (hafter : drainPoints next.stack = [.start])
      (hloop : s.stop.requested = false ∨ .shutdown ∈ s.stack)
  | ready (hio : next.io = s.io) (harmed : next.eventfdArmed = s.eventfdArmed)
      (hready : s.eventfdArmed = true)
      (hbefore : drainPoints s.stack = [.start])
      (hafter : drainPoints next.stack = [.enter])
  | wake (hio : next.io = s.io) (harmed : next.eventfdArmed = s.eventfdArmed)
      (hbefore : drainPoints s.stack = [.waiting])
      (hafter : drainPoints next.stack = [.scan])
  | scan (hio : next.io = s.io) (harmed : next.eventfdArmed = s.eventfdArmed)
      (hbefore : drainPoints s.stack = [.scan])
      (hafter : drainPoints next.stack = [.loop s.io.cq.head s.io.cq.tail])
  | endLoop (current : UInt32)
      (hio : next.io = s.io) (harmed : next.eventfdArmed = s.eventfdArmed)
      (hbefore : drainPoints s.stack = [.loop current current])
      (hafter : drainPoints next.stack = [])
  | stage (awt : Awaitable) (id object : ℕ) (stamp : Stamp) (sq : SubmissionQueue)
      (haccept : awt.awaitSuspend (.awaitable id object) stamp s.io.sq = some sq)
      (hawake : .waiting ∉ drainPoints s.stack)
      (hio : next.io = s.stagedIo sq (awt.group (.awaitable id object) stamp))
      (harmed : next.eventfdArmed = s.eventfdArmed)
      (hpoints : drainPoints next.stack = drainPoints s.stack)
  | arm (hlabel : ∃ allocated, label = .runner allocated)
      (hunarmed : s.eventfdArmed = false) (habout : s.aboutToArm = true)
      (hio : next.io =
        s.stagedIo (s.io.sq.armEventfdRead s.eventfdFd s.eventfdBufAddr)
          [SubmissionQueue.eventfdRead s.eventfdFd s.eventfdBufAddr])
      (harmed : next.eventfdArmed = true)
      (hbefore : drainPoints s.stack = [.start])
      (hafter : drainPoints next.stack = [.enter])
  | enter (accepted : ℕ)
      (hpending : accepted ≤ s.io.sq.pending.toNat)
      (hentries : accepted ≤ s.io.sq.entries.toNat)
      (hlimit : s.io.sq.pending.toNat ≤ accepted + backlogLimit)
      (hio : next.io =
        { s.io with
          sq := s.io.sq.consume accepted
          kernel := s.io.kernel ++ s.io.sq.front accepted
          consumed := s.io.consumed ++ s.io.sq.front accepted })
      (harmed : next.eventfdArmed = s.eventfdArmed)
      (hbefore : drainPoints s.stack = [.enter])
      (hafter : drainPoints next.stack =
        [if accepted = s.io.sq.pending.toNat ∧ s.shuttingDown = false
          then .waiting else .scan])
  | complete (index : ℕ) (sqe : Sqe) (res : Int32)
      (hsqe : s.io.kernel[index]? = some sqe) (hroom : s.io.cq.hasRoom = true)
      (hio : next.io =
        { s.io with
          cq := s.io.cq.append
            { userData := sqe.userData, res := res, stamp := sqe.stamp }
          kernel := s.io.kernel.eraseIdx index
          posted := s.io.posted ++
            [{ userData := sqe.userData, res := res, stamp := sqe.stamp }] })
      (harmed : next.eventfdArmed = s.eventfdArmed)
      (hpoints : drainPoints next.stack = drainPoints s.stack)
  | handle (current tail : UInt32) (hmore : current ≠ tail)
      (hcqe : (s.io.cq.read current).userData ≠ .null)
      (hio : next.io = { s.io with handled := s.io.handled + 1 })
      (harmed : next.eventfdArmed =
        if (s.io.cq.read current).userData = .eventfdBuf then false
        else s.eventfdArmed)
      (hbefore : drainPoints s.stack = [.loop current tail])
      (hafter : drainPoints next.stack =
        [if (s.io.cq.read current).userData = .eventfdBuf
          then .inboxDone current tail else .resumed current tail])
  | skip (current tail : UInt32) (hmore : current ≠ tail)
      (hcqe : (s.io.cq.read current).userData = .null)
      (hio : next.io =
        { s.io with
          handled := s.io.handled + 1
          cq := { s.io.cq with head := current + 1 } })
      (harmed : next.eventfdArmed = s.eventfdArmed)
      (hbefore : drainPoints s.stack = [.loop current tail])
      (hafter : drainPoints next.stack = [.loop (current + 1) tail])
  | advance (current tail : UInt32)
      (hio : next.io = { s.io with cq := { s.io.cq with head := current + 1 } })
      (harmed : next.eventfdArmed = s.eventfdArmed)
      (hbefore : drainPoints s.stack = [.resumed current tail] ∨
        drainPoints s.stack = [.inboxDone current tail])
      (hafter : drainPoints next.stack = [.loop (current + 1) tail])
  | escape (current tail : UInt32)
      (hio : next.io = { s.io with handled := s.io.handled - 1 })
      (harmed : next.eventfdArmed = s.eventfdArmed)
      (hbefore : drainPoints s.stack = [.inboxDone current tail])
      (hafter : drainPoints next.stack = [])

theorem drainPoints_deliver
    {below stack : List (Activation P)} {status : Option ErrorStatus}
    (hdeliver : deliver status below = some stack) :
    drainPoints stack = drainPoints below := by
  unfold deliver at hdeliver
  split at hdeliver
  all_goals simp at hdeliver
  all_goals subst hdeliver
  all_goals rfl

theorem CallsSpawn.drainPoints
    {s : Scheduler P} {label : Label P} {body : P.Code}
    {below : List (Activation P)} (hcall : CallsSpawn s label body below) :
    drainPoints below = drainPoints s.stack := by
  cases hcall with
  | job hstack _ => rw [hstack]; rfl
  | coroutine hstack _ _ => rw [hstack]; rfl
  | client hstack _ => rw [hstack]

theorem drainPoints_of_job
    {entry : Posted P} {code : P.Job} {rest : List (Activation P)}
    (hwell : WellStacked (.job entry code :: rest)) :
    ∃ current tail, drainPoints (.job entry code :: rest) =
      [.inboxDone current tail] := by
  obtain ⟨⟨batch, below, rfl⟩, ⟨current, tail, base, rfl⟩, hdrain⟩ := hwell
  refine ⟨current, tail, ?_⟩
  simp [SlimCommonIo.drainPoints, drainPoints_below hdrain]

theorem drainPoints_loop_below
    {rest : List (Activation P)}
    (hwell : WellStacked (.run :: rest) ∨ WellStacked (.shutdown :: rest)) :
    drainPoints rest = [] := by
  rcases hwell with hwell | hwell
  · have hnil : rest = [] := hwell.1
    rw [hnil]
    rfl
  · have hnil : rest = [] ∨ rest = [.destructor] := hwell.1
    rcases hnil with rfl | rfl <;> rfl

/-- Every move acts on the ring in one of the ways listed above. -/
theorem Move.ringStep
    {s next : Scheduler P} {label : Label P} (hmove : Move s label next)
    (hwell : WellStacked s.stack) : RingStep s label next := by
  cases hmove with
  | leaveRun hstack _ | leaveShutdown hstack _ | destructor hstack | reap hstack
  | swapInbox hstack | endInbox hstack | invoke hstack | endJob hstack _
  | eventfdWrite hstack | requeue hstack _ =>
      refine .same rfl rfl ?_
      rw [hstack]
      rfl
  | loopRun hstack hstop =>
      rw [hstack] at hwell
      have hrest := drainPoints_loop_below (.inl hwell)
      refine .begin rfl rfl ?_ ?_ (.inl hstop) <;> simp [hstack, drainPoints, hrest]
  | loopShutdown hstack _ =>
      rw [hstack] at hwell
      have hrest := drainPoints_loop_below (.inr hwell)
      refine .begin rfl rfl ?_ ?_ (.inr ?_) <;> simp [hstack, drainPoints, hrest]
  | armedStart hstack harmed =>
      rw [hstack] at hwell
      have hrest := drainPoints_below hwell
      refine .ready rfl rfl harmed ?_ ?_ <;> simp [hstack, drainPoints, hrest]
  | arm hstack harmed =>
      rw [hstack] at hwell
      have hrest := drainPoints_below hwell
      have habout : s.aboutToArm = true := by simp [aboutToArm, hstack, harmed]
      refine .arm ⟨_, rfl⟩ harmed habout rfl rfl ?_ ?_ <;>
        simp [hstack, drainPoints, hrest]
  | enter hstack hpending hentries hlimit =>
      rw [hstack] at hwell
      have hrest := drainPoints_below hwell
      refine .enter _ hpending hentries hlimit rfl rfl ?_ ?_
      · simp [hstack, drainPoints, hrest]
      · simp only [drainPoints, hrest]
  | wake hstack _ =>
      rw [hstack] at hwell
      have hrest := drainPoints_below hwell
      refine .wake rfl rfl ?_ ?_ <;> simp [hstack, drainPoints, hrest]
  | scan hstack =>
      rw [hstack] at hwell
      have hrest := drainPoints_below hwell
      refine .scan rfl rfl ?_ ?_ <;> simp [hstack, drainPoints, hrest]
  | @endLoop _ rest current hstack =>
      rw [hstack] at hwell
      have hrest := drainPoints_below hwell
      refine .endLoop current rfl rfl ?_ hrest
      simp [hstack, drainPoints, hrest]
  | handleSentinel hstack hmore hcqe | handleDangling hstack hmore hcqe _ =>
      rw [hstack] at hwell
      have hrest := drainPoints_below hwell
      refine .handle _ _ hmore (by simp [hcqe]) rfl ?_ ?_ ?_
      · simp [hcqe]
      · simp [hstack, drainPoints, hrest]
      · simp [drainPoints, hrest, hcqe]
  | handleNull hstack hmore hcqe =>
      rw [hstack] at hwell
      have hrest := drainPoints_below hwell
      refine .skip _ _ hmore hcqe rfl rfl ?_ ?_
      · simp [hstack, drainPoints, hrest]
      · simp [drainPoints, hrest]
  | handleAwaitable hstack hmore hcqe _ _ _ _ _ _ =>
      rw [hstack] at hwell
      have hrest := drainPoints_below hwell
      refine .handle _ _ hmore (by simp [hcqe]) rfl ?_ ?_ ?_
      · simp [hcqe, afterResume]
      · simp [hstack, drainPoints, hrest]
      · simp [afterResume, drainPoints, hrest, hcqe]
  | @resumed _ rest current tail hstack =>
      rw [hstack] at hwell
      have hrest := drainPoints_below hwell
      refine .advance current tail rfl rfl (.inl ?_) ?_ <;>
        simp [hstack, drainPoints, hrest]
  | @inboxDone _ rest current tail hstack =>
      rw [hstack] at hwell
      have hrest := drainPoints_below hwell
      refine .advance current tail rfl rfl (.inr ?_) ?_ <;>
        simp [hstack, drainPoints, hrest]
  | escape hstack _ =>
      rw [hstack] at hwell
      obtain ⟨current, tail, hpoints⟩ := drainPoints_of_job hwell
      refine .escape current tail rfl rfl ?_ rfl
      rw [hstack, hpoints]
  | post hcall =>
      refine .same rfl rfl ?_
      cases hcall with
      | job hstack _ => rw [hstack]; rfl
      | coroutine hstack _ _ => rw [hstack]; rfl
  | spawnFull hcall _ hdeliver =>
      refine .same rfl rfl ?_
      exact (drainPoints_deliver hdeliver).trans hcall.drainPoints
  | spawnStart hcall _ => exact .same rfl rfl hcall.drainPoints
  | spawnRefused hstack _ hdeliver | spawnAccepted hstack _ hdeliver
  | spawnBadAlloc hstack _ hdeliver =>
      refine .same rfl rfl ((drainPoints_deliver hdeliver).trans ?_)
      rw [hstack]
      rfl
  | effect hstack _ _ | refused hstack _ _ _ _ | awaitTask hstack _ _ =>
      refine .same rfl rfl ?_
      rw [hstack]
      rfl
  | stage hstack _ _ _ haccept =>
      refine .stage _ _ _ _ _ haccept ?_ rfl rfl ?_
      · intro hwaiting
        obtain ⟨below, hbelow⟩ := waiting_on_top hwell hwaiting
        rw [hstack] at hbelow
        simp at hbelow
      · rw [hstack]
        rfl
  | endRoot hends _ =>
      obtain ⟨code, hstack⟩ := hends.stack
      refine .same rfl rfl ?_
      rw [hstack]
      rfl
  | endInner hends _ _ =>
      obtain ⟨code, hstack⟩ := hends.stack
      refine .same rfl rfl ?_
      rw [hstack]
      rfl
  | endAstray _ _ _ | astray _ _ | enqueue _ | notify _ | requestStop _ _
  | stopCallback _ _ _ | dropTask _ | foreignRefusal _ | callDestroy _ _ _ =>
      exact .same rfl rfl rfl
  | complete hsqe hroom _ => exact .complete _ _ _ hsqe hroom rfl rfl rfl
  | callResume hstack _ | callRun hstack _ | callShutdown hstack _
  | callDestroyBusy hstack _ _ =>
      refine .same rfl rfl ?_
      rw [hstack]
      rfl

end Scheduler

end SlimCommonIo
