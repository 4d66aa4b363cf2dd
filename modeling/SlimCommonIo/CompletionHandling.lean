import SlimCommonIo.FrameInvariant
import SlimCommonIo.InboxDrain

/-!
# The completions a scheduler handles

`drain` takes one completion after the other from the ring.  This module reads
off a run which completions were taken and what was done with each of them, and
compares both with what the kernel has posted.
-/

namespace SlimCommonIo

open Transition

variable {P : Program}

/-- The await and the value which the completion of an awaited operation has. -/
def Cqe.resumption (cqe : Cqe) : Option (Stamp × Int32) :=
  match cqe.userData, cqe.stamp with
  | .awaitable _ _, some stamp => some (stamp, cqe.res)
  | _, _ => none

def Cqe.isSentinel (cqe : Cqe) : Bool :=
  decide (cqe.userData = .eventfdBuf)

/-- The await which a resumption by `drain` continues, with the value it hands out. -/
def Event.resumption : Event P → Option (Stamp × Int32)
  | .awaited _ (some stamp) value => some (stamp, value)
  | _ => none

/-- The calls of `drain_inbox` which have not swapped the inbox yet. -/
def swapsPending : List (Activation P) → ℕ
  | [] => 0
  | .swapInbox :: rest => swapsPending rest + 1
  | _ :: rest => swapsPending rest

namespace Scheduler

/-- The completion which the driving thread takes from the ring in this step. -/
def handledNow (s : Scheduler P) : Label P → Option Cqe
  | .runner _ =>
      match s.stack with
      | .drain (.loop current tail) :: _ =>
          if current = tail then none else some (s.io.cq.read current)
      | _ => none
  | _ => none

/-- The driving thread begins to drain the inbox in this step. -/
def swapsNow (s : Scheduler P) : Label P → Bool
  | .runner _ =>
      match s.stack with
      | .swapInbox :: _ => true
      | _ => false
  | _ => false

def resumptions (s : Scheduler P) : List (Stamp × Int32) :=
  s.log.filterMap Event.resumption

/-- What `drain` does with a completion.  If the frame of its object is gone, the
behaviour is undefined. -/
inductive Handles (s : Scheduler P) (current tail : UInt32) (rest : List (Activation P))
    (cqe : Cqe) (next : Scheduler P) : Prop
  | awaitable (id object : ℕ) (frame : Frame P) (awt : Awaitable) (stamp : Stamp)
      (resume : Int32 → P.Code)
      (hcqe : cqe.userData = .awaitable id object)
      (hframe : s.heap.frames id = some frame)
      (hobject : frame.objects object = some awt) (hhandle : awt.handle = some id)
      (hpoint : frame.point = .onAwaitable object stamp resume)
      (hresumed : next.heap.frames id =
        some { frame.storeResult object awt cqe.res with point := .running })
      (hothers : ∀ other, other ≠ id → next.heap.frames other = s.heap.frames other)
      (hstack : next.stack =
        .coroutine id (resume cqe.res) :: .drain (.resumed current tail) :: rest)
  | gone (id object : ℕ) (hcqe : cqe.userData = .awaitable id object)
      (hframe : s.heap.frames id = none) (hcrash : next.crash = some .undefined)
  | sentinel (hcqe : cqe.userData = .eventfdBuf)
      (hstack : next.stack = .swapInbox :: .drain (.inboxDone current tail) :: rest)
  | null (hcqe : cqe.userData = .null)
      (hnext : next =
        { s with
          io :=
            { s.io with
              handled := s.io.handled + 1
              cq := { s.io.cq with head := current + 1 } }
          stack := .drain (.loop (current + 1) tail) :: rest })

/-- A step as far as completions and inbox drains are concerned. -/
inductive HandlingStep (s : Scheduler P) (label : Label P) (next : Scheduler P) : Prop
  | other (hnow : s.handledNow label = none) (hswaps : s.swapsNow label = false)
      (hhandled : next.io.handled = s.io.handled)
      (hposted : s.io.posted <+: next.io.posted)
      (hpending : swapsPending next.stack = swapsPending s.stack)
      (hlog : next.resumptions = s.resumptions)
  | swap (hnow : s.handledNow label = none) (hswaps : s.swapsNow label = true)
      (hio : next.io = s.io)
      (hpending : swapsPending next.stack + 1 = swapsPending s.stack)
      (hlog : next.resumptions = s.resumptions)
  | handle (current tail : UInt32) (rest : List (Activation P))
      (hstack : s.stack = .drain (.loop current tail) :: rest) (hmore : current ≠ tail)
      (hnow : s.handledNow label = some (s.io.cq.read current))
      (hswaps : s.swapsNow label = false)
      (haction : Handles s current tail rest (s.io.cq.read current) next)
      (hhandled : next.io.handled = s.io.handled + 1)
      (hposted : next.io.posted = s.io.posted)
      (hpending : swapsPending next.stack =
        swapsPending s.stack + if (s.io.cq.read current).isSentinel then 1 else 0)
      (hlog : next.crash = none →
        next.resumptions = s.resumptions ++ (s.io.cq.read current).resumption.toList)
  | escape (entry : Posted P) (hends : s.callEnds label = some (entry, .other))

theorem swapsPending_deliver
    {status : Option ErrorStatus} {below stack : List (Activation P)}
    (hdeliver : deliver status below = some stack) :
    swapsPending stack = swapsPending below := by
  unfold deliver at hdeliver
  split at hdeliver
  all_goals simp at hdeliver
  all_goals subst hdeliver
  all_goals rfl

theorem CallsSpawn.handlesNothing
    {s : Scheduler P} {label : Label P} {body : P.Code} {below : List (Activation P)}
    (hcall : CallsSpawn s label body below) :
    s.handledNow label = none ∧ s.swapsNow label = false ∧
      swapsPending below = swapsPending s.stack := by
  cases hcall with
  | job hstack _ | coroutine hstack _ _ =>
      exact ⟨by simp [handledNow, hstack], by simp [swapsNow, hstack], by rw [hstack]; rfl⟩
  | client hstack _ => exact ⟨rfl, rfl, by rw [hstack]⟩

/-- A live frame which a completion designates is suspended on that operation. -/
theorem suspendedOn_of_cqe
    {s : Scheduler P} (hinv : FrameInvariant s) {current tail : UInt32}
    {rest : List (Activation P)} {id object : ℕ} {frame : Frame P}
    (hstack : s.stack = .drain (.loop current tail) :: rest) (hmore : current ≠ tail)
    (hcqe : (s.io.cq.read current).userData = .awaitable id object)
    (hframe : s.heap.frames id = some frame) :
    frame.SuspendedOn id object (s.io.cq.read current).stamp := by
  obtain ⟨targets, htargets⟩ := hinv.target_of_loop hstack hmore hcqe
  have htarget := htargets.symm.subset (List.mem_cons_self ..)
  rw [Cqe.ref, hcqe] at htarget
  exact (hinv.serves.suspended id object _ htarget).2 frame hframe

theorem Move.handlingStep
    {s next : Scheduler P} {label : Label P} (hmove : Move s label next)
    (hinv : FrameInvariant s) : HandlingStep s label next := by
  cases hmove with
  | leaveRun hstack _ | loopRun hstack _ | leaveShutdown hstack _ | loopShutdown hstack _
  | destructor hstack | reap hstack | armedStart hstack _ | arm hstack _
  | scan hstack | resumed hstack | inboxDone hstack | endInbox hstack
  | endJob hstack _ | requeue hstack _ | eventfdWrite hstack =>
      exact .other (by simp [handledNow, hstack]) (by simp [swapsNow, hstack]) rfl
        (List.prefix_refl _) (by rw [hstack]; rfl) rfl
  | endLoop hstack =>
      exact .other (by simp [handledNow, hstack]) (by simp [swapsNow, hstack]) rfl
        (List.prefix_refl _) (by rw [hstack]; rfl) rfl
  | enter hstack _ _ _ =>
      exact .other rfl rfl rfl (List.prefix_refl _) (by rw [hstack]; rfl) rfl
  | wake hstack hlabel =>
      rcases hlabel with rfl | ⟨allocated, rfl⟩
      · exact .other rfl rfl rfl (List.prefix_refl _) (by rw [hstack]; rfl) rfl
      · exact .other (by simp [handledNow, hstack]) (by simp [swapsNow, hstack]) rfl
          (List.prefix_refl _) (by rw [hstack]; rfl) rfl
  | @handleSentinel _ rest current tail hstack hmore hcqe =>
      refine .handle current tail rest hstack hmore (by simp [handledNow, hstack, hmore])
        (by simp [swapsNow, hstack]) (.sentinel hcqe rfl) rfl rfl ?_ ?_
      · rw [hstack]
        simp [swapsPending, Cqe.isSentinel, hcqe]
      · intro _
        simp [resumptions, Cqe.resumption, hcqe]
  | @handleNull _ rest current tail hstack hmore hcqe =>
      refine .handle current tail rest hstack hmore (by simp [handledNow, hstack, hmore])
        (by simp [swapsNow, hstack]) (.null hcqe rfl) rfl rfl ?_ ?_
      · rw [hstack]
        simp [swapsPending, Cqe.isSentinel, hcqe]
      · intro _
        simp [resumptions, Cqe.resumption, hcqe]
  | @handleAwaitable _ rest current tail id object frame awt awaitedAwt handle awaited
      awaiting await resume hstack hmore hcqe hframe hobject hhandle hawaiting hpoint
      hawaited =>
      obtain ⟨targets, htargets⟩ := hinv.target_of_loop hstack hmore hcqe
      obtain ⟨rfl, rfl, rfl, hpoint', hstamp, hvalue⟩ := hinv.resumed_frame htargets hcqe
        hframe hobject hhandle hawaiting hpoint hawaited
      have hcqeStamp : (s.io.cq.read current).stamp = some await := hstamp
      refine .handle current tail rest hstack hmore (by simp [handledNow, hstack, hmore])
        (by simp [swapsNow, hstack]) ?_ rfl rfl ?_ ?_
      · refine .awaitable handle awaited frame awt await resume hcqe hframe hobject hhandle
          hpoint' (Heap.set_frames_self _ _ _) ?_ ?_
        · intro other hother
          exact (Heap.set_frames_of_ne _ hother _).trans (Heap.set_frames_of_ne _ hother _)
        · rw [← hvalue]
          rfl
      · rw [hstack]
        simp [afterResume, swapsPending, Cqe.isSentinel, hcqe]
      · intro _
        simp [resumptions, afterResume, Event.resumption, Cqe.resumption, hcqe, hcqeStamp,
          hvalue]
  | @handleDangling _ rest current tail id object hstack hmore hcqe hbad =>
      refine .handle current tail rest hstack hmore (by simp [handledNow, hstack, hmore])
        (by simp [swapsNow, hstack]) (.gone id object hcqe ?_ rfl) rfl rfl ?_ ?_
      · cases hframe : s.heap.frames id with
        | none => rfl
        | some frame =>
            obtain ⟨await, resume, awt, -, hpoint, hobject, hhandle⟩ :=
              suspendedOn_of_cqe hinv hstack hmore hcqe hframe
            exact absurd hpoint (hbad frame awt await resume hframe hobject hhandle)
      · rw [hstack]
        simp [swapsPending, Cqe.isSentinel, hcqe]
      · intro hcrash
        simp at hcrash
  | swapInbox hstack =>
      exact .swap (by simp [handledNow, hstack]) (by simp [swapsNow, hstack]) rfl
        (by rw [hstack]; rfl) rfl
  | invoke hstack | effect hstack _ _ | refused hstack _ _ _ _ =>
      exact .other (by simp [handledNow, hstack]) (by simp [swapsNow, hstack]) rfl
        (List.prefix_refl _) (by rw [hstack]; rfl) (by simp [resumptions, Event.resumption])
  | stage hstack _ _ _ _ | awaitTask hstack _ _ =>
      exact .other (by simp [handledNow, hstack]) (by simp [swapsNow, hstack]) rfl
        (List.prefix_refl _) (by rw [hstack]; rfl) rfl
  | @escape _ rest entry code _ hstack hcode =>
      exact .escape entry (by simp [callEnds, hstack, hcode])
  | @post _ job below hcall =>
      cases hcall with
      | job hstack _ | coroutine hstack _ _ =>
          exact .other (by simp [handledNow, hstack]) (by simp [swapsNow, hstack]) rfl
            (List.prefix_refl _) (by rw [hstack]; rfl) rfl
  | spawnFull hcall _ hdeliver =>
      obtain ⟨hnow, hswaps, hpending⟩ := hcall.handlesNothing
      exact .other hnow hswaps rfl (List.prefix_refl _)
        ((swapsPending_deliver hdeliver).trans hpending)
        (by simp [resumptions, Event.resumption])
  | spawnStart hcall _ =>
      obtain ⟨hnow, hswaps, hpending⟩ := hcall.handlesNothing
      exact .other hnow hswaps rfl (List.prefix_refl _) hpending
        (by simp [resumptions, Event.resumption])
  | spawnRefused hstack _ hdeliver | spawnAccepted hstack _ hdeliver
  | spawnBadAlloc hstack _ hdeliver =>
      exact .other (by simp [handledNow, hstack]) (by simp [swapsNow, hstack]) rfl
        (List.prefix_refl _) ((swapsPending_deliver hdeliver).trans (by rw [hstack]; rfl))
        (by simp [resumptions, Event.resumption])
  | endRoot hends _ | endInner hends _ _ =>
      obtain ⟨code, hstack⟩ := hends.stack
      exact .other (by simp [handledNow, hstack]) (by simp [swapsNow, hstack]) rfl
        (List.prefix_refl _) (by rw [hstack]; rfl) (by simp [resumptions, Event.resumption])
  | endAstray hends _ _ =>
      obtain ⟨code, hstack⟩ := hends.stack
      exact .other (by simp [handledNow, hstack]) (by simp [swapsNow, hstack]) rfl
        (List.prefix_refl _) rfl (by simp [resumptions, Event.resumption])
  | astray hstack _ =>
      exact .other (by simp [handledNow, hstack]) (by simp [swapsNow, hstack]) rfl
        (List.prefix_refl _) rfl rfl
  | complete _ _ _ => exact .other rfl rfl rfl (List.prefix_append _ _) rfl rfl
  | enqueue _ | notify _ | requestStop _ _ | stopCallback _ _ _
  | dropTask _ | foreignRefusal _ | callDestroy _ _ _ =>
      exact .other rfl rfl rfl (List.prefix_refl _) rfl rfl
  | callResume hstack _ | callRun hstack _ | callShutdown hstack _
  | callDestroyBusy hstack _ _ =>
      exact .other rfl rfl rfl (List.prefix_refl _) (by rw [hstack]; rfl) rfl

theorem HandlingStep.handled_le
    {s next : Scheduler P} {label : Label P} (hhandling : HandlingStep s label next)
    (hcaught : ∀ entry, s.callEnds label ≠ some (entry, .other)) :
    s.io.handled ≤ next.io.handled := by
  cases hhandling with
  | other _ _ hhandled _ _ _ => exact hhandled.ge
  | swap _ _ hio _ _ => rw [hio]
  | handle _ _ _ _ _ _ _ _ hhandled _ _ _ =>
      rw [hhandled]
      exact Nat.le_succ _
  | escape entry hends => exact absurd hends (hcaught entry)

theorem HandlingStep.of_handledNow
    {s next : Scheduler P} {label : Label P} {cqe : Cqe}
    (hhandling : HandlingStep s label next)
    (hcaught : ∀ entry, s.callEnds label ≠ some (entry, .other))
    (hnow : s.handledNow label = some cqe) :
    ∃ current tail rest, s.stack = .drain (.loop current tail) :: rest ∧ current ≠ tail ∧
      cqe = s.io.cq.read current ∧ Handles s current tail rest cqe next := by
  cases hhandling with
  | other hnone _ _ _ _ _ | swap hnone _ _ _ _ => simp [hnone] at hnow
  | handle current tail rest hstack hmore hread _ haction _ _ _ _ =>
      rw [hread, Option.some.injEq] at hnow
      subst hnow
      exact ⟨current, tail, rest, hstack, hmore, rfl, haction⟩
  | escape entry hends => exact absurd hends (hcaught entry)

end Scheduler

/-! ## Order -/

/-- The completions taken from the ring in a piece of history, in order. -/
def handledCqes (history : List (Scheduler P × Label P)) : List Cqe :=
  history.filterMap fun visit => visit.1.handledNow visit.2

/-- How often a piece of history began to drain the inbox. -/
def inboxDrains (history : List (Scheduler P × Label P)) : ℕ :=
  history.countP fun visit => visit.1.swapsNow visit.2

/-- The bookkeeping of the completions handled in a run. -/
structure HandlingProgress (history : List (Scheduler P × Label P)) (s : Scheduler P) :
    Prop where
  frames : FrameInvariant s
  order : handledCqes history = s.io.posted.take s.io.handled
  swaps : inboxDrains history + swapsPending s.stack =
    (handledCqes history).countP Cqe.isSentinel
  resumed : s.crash = none →
    s.resumptions = (handledCqes history).filterMap Cqe.resumption

namespace HandlingProgress

variable {s next : Scheduler P} {history : List (Scheduler P × Label P)} {label : Label P}

theorem initial
    {io : IoState} (hfresh : io.Fresh) (fd : Int32) (addr : UInt64) :
    HandlingProgress [] (Scheduler.initial P io fd addr) := by
  constructor
  · exact .initial hfresh fd addr
  · simp [handledCqes, Scheduler.initial, hfresh.handled]
  · rfl
  · intro _
    rfl

theorem step
    (hprogress : HandlingProgress history s) (hstep : s.step label = some next)
    (hcaught : ∀ entry, s.callEnds label ≠ some (entry, .other)) :
    HandlingProgress (history ++ [(s, label)]) next := by
  obtain ⟨hframes, horder, hswaps, hresumed⟩ := hprogress
  obtain ⟨hcrash, hmove⟩ := Scheduler.move_of_step hstep
  have hle := hframes.ring.handled_le
  have hnext := hframes.step hcrash hmove
  cases hmove.handlingStep hframes with
  | other hnow hswap hhandled hposted hpending hlog =>
      have hsame : handledCqes (history ++ [(s, label)]) = handledCqes history := by
        simp [handledCqes, hnow]
      have hdrains : inboxDrains (history ++ [(s, label)]) = inboxDrains history := by
        simp [inboxDrains, hswap]
      refine ⟨hnext, ?_, ?_, ?_⟩
      · obtain ⟨more, hmore⟩ := hposted
        rw [hsame, horder, hhandled, ← hmore, List.take_append_of_le_length hle]
      · rw [hsame, hdrains, hpending]
        exact hswaps
      · intro _
        rw [hsame, hlog]
        exact hresumed hcrash
  | swap hnow hswap hio hpending hlog =>
      have hsame : handledCqes (history ++ [(s, label)]) = handledCqes history := by
        simp [handledCqes, hnow]
      have hdrains : inboxDrains (history ++ [(s, label)]) = inboxDrains history + 1 := by
        simp [inboxDrains, hswap]
      refine ⟨hnext, ?_, ?_, ?_⟩
      · rw [hsame, hio]
        exact horder
      · rw [hsame, hdrains, ← hswaps]
        omega
      · intro _
        rw [hsame, hlog]
        exact hresumed hcrash
  | handle current tail rest hstack hmore hnow hswap haction hhandled hposted hpending hlog =>
      have hmore' : handledCqes (history ++ [(s, label)]) =
          handledCqes history ++ [s.io.cq.read current] := by
        simp [handledCqes, hnow]
      have hdrains : inboxDrains (history ++ [(s, label)]) = inboxDrains history := by
        simp [inboxDrains, hswap]
      have hfront := hframes.ring.completion.drop_handled_of_loop
        (hframes.ring.drainPoints_of_drain hstack) hmore
      refine ⟨hnext, ?_, ?_, ?_⟩
      · rw [hmore', horder, hhandled, hposted, List.take_add, hfront]
        simp
      · rw [hmore', hdrains, List.countP_append, ← hswaps, hpending, List.countP_singleton]
        omega
      · intro hnone
        rw [hmore', hlog hnone, hresumed hcrash, List.filterMap_append]
        cases hresumption : (s.io.cq.read current).resumption <;> simp [hresumption]
  | escape entry hends => exact absurd hends (hcaught entry)

theorem of_run
    {io : IoState} (hfresh : io.Fresh) {fd : Int32} {addr : UInt64}
    (hrun : Run Scheduler.step (Scheduler.initial P io fd addr) history s)
    (hcaught : ∀ visit ∈ history, ∀ entry,
      visit.1.callEnds visit.2 ≠ some (entry, .other)) :
    HandlingProgress history s := by
  induction hrun with
  | nil => exact .initial hfresh fd addr
  | @snoc history s next label _ hstep ih =>
      have hprogress := ih fun visit hvisit =>
        hcaught visit (List.mem_append_left _ hvisit)
      exact hprogress.step hstep (hcaught (s, label) (by simp))

/-- The completions posted are those handled and those in the ring which `drain`
is not working on. -/
theorem posted_eq (hprogress : HandlingProgress history s) :
    s.io.posted = handledCqes history ++
      s.io.cq.unreapedCqes.drop ((drainPoints s.stack).countP DrainPoint.handling) := by
  obtain ⟨reaped, hhistory, hlength⟩ := hprogress.frames.ring.completion.history
  have hdrop : s.io.posted.drop s.io.handled = s.io.cq.unreapedCqes.drop
      ((drainPoints s.stack).countP DrainPoint.handling) := by
    rw [hhistory, hlength, ← List.drop_drop, List.drop_left]
  rw [hprogress.order, ← hdrop, List.take_append_drop]

end HandlingProgress

/-! ## The head after a drain -/

/-- The tail which `drain` has read before its loop. -/
def DrainPoint.lastTail : DrainPoint → Option UInt32
  | .loop _ tail | .resumed _ tail | .inboxDone _ tail => some tail
  | _ => none

/-- A `drain` which has read the tail is still in its loop, or has emptied the
ring up to that tail. -/
def LoopUpTo (tail : UInt32) (s : Scheduler P) : Prop :=
  (∃ point, drainPoints s.stack = [point] ∧ point.lastTail = some tail) ∨
    drainPoints s.stack = [] ∧ s.io.cq.head = tail

theorem LoopUpTo.step
    {s next : Scheduler P} {label : Label P} {tail : UInt32} (hloop : LoopUpTo tail s)
    (hinv : CompletionInvariant s) (hactive : drainPoints s.stack ≠ [])
    (hring : Scheduler.RingStep s label next)
    (hle : s.io.handled ≤ next.io.handled) : LoopUpTo tail next := by
  rcases hloop with ⟨point, hpoint, htail⟩ | ⟨hnone, -⟩
  swap
  · exact absurd hnone hactive
  cases hring with
  | same _ _ hpoints | stage _ _ _ _ _ _ _ _ _ hpoints | complete _ _ _ _ _ _ _ hpoints =>
      exact .inl ⟨point, hpoints.trans hpoint, htail⟩
  | begin _ _ hbefore _ _ => exact absurd hbefore hactive
  | ready _ _ _ hbefore _ | wake _ _ hbefore _ | scan _ _ hbefore _
  | arm _ _ _ _ _ hbefore _ | enter _ _ _ _ _ _ hbefore _ =>
      rw [hpoint, List.singleton_inj] at hbefore
      simp [hbefore, DrainPoint.lastTail] at htail
  | endLoop current hio _ hbefore hafter =>
      have htracks := hinv.tracks (.loop current current) (by simp [hbefore])
      rw [hpoint, List.singleton_inj] at hbefore
      simp only [hbefore, DrainPoint.lastTail, Option.some.injEq] at htail
      exact .inr ⟨hafter, by rw [hio, ← htracks.1, htail]⟩
  | handle current last _ _ _ _ hbefore hafter =>
      rw [hpoint, List.singleton_inj] at hbefore
      refine .inl ⟨_, hafter, ?_⟩
      rw [← htail, hbefore]
      split <;> rfl
  | skip current last _ _ _ _ hbefore hafter =>
      rw [hpoint, List.singleton_inj] at hbefore
      exact .inl ⟨_, hafter, by rw [← htail, hbefore]; rfl⟩
  | advance current last _ _ hbefore hafter =>
      refine .inl ⟨_, hafter, ?_⟩
      rcases hbefore with hbefore | hbefore
      all_goals
        rw [hpoint, List.singleton_inj] at hbefore
        rw [← htail, hbefore]
        rfl
  | escape current last hio _ hbefore _ =>
      exact absurd hle (hinv.not_le_of_escape hbefore hio)

/-! ## Whole runs -/

/-- What a run has done with the completions: they are handled in the order they
were posted, each once and from the slot at the head; every await continues once
with the result of its completion; the inbox is drained once for each sentinel;
and a drain empties the ring up to the tail it has read. -/
structure CompletionsHandled (history : List (Scheduler P × Label P)) (s : Scheduler P) :
    Prop where
  order : s.io.posted = handledCqes history ++
    s.io.cq.unreapedCqes.drop ((drainPoints s.stack).countP DrainPoint.handling)
  front : ∀ visit ∈ history, ∀ cqe, visit.1.handledNow visit.2 = some cqe →
    0 < visit.1.io.cq.unreaped.toNat ∧ cqe = visit.1.io.cq.read visit.1.io.cq.head
  handles : ∀ visit ∈ history, ∀ cqe next, visit.1.handledNow visit.2 = some cqe →
    visit.1.step visit.2 = some next → ∃ current tail rest,
      visit.1.stack = .drain (.loop current tail) :: rest ∧
      Scheduler.Handles visit.1 current tail rest cqe next
  resumed : s.crash = none →
    s.resumptions = (handledCqes history).filterMap Cqe.resumption
  drained : inboxDrains history + swapsPending s.stack =
    (handledCqes history).countP Cqe.isSentinel
  head : ∀ before start allocated middle rest,
    history = before ++ (start, .runner allocated) :: middle →
    start.stack = .drain .scan :: rest →
    (∀ visit ∈ middle, drainPoints visit.1.stack ≠ []) → drainPoints s.stack = [] →
    s.io.cq.head = start.io.cq.tail

theorem head_after_drain
    {start first s : Scheduler P} {middle : List (Scheduler P × Label P)} {allocated : Bool}
    {rest : List (Activation P)} (hinv : FrameInvariant start)
    (hscan : start.stack = .drain .scan :: rest)
    (hstep : start.step (.runner allocated) = some first)
    (hrun : Run Scheduler.step first middle s)
    (hinside : ∀ visit ∈ middle, drainPoints visit.1.stack ≠ [])
    (hcaught : ∀ visit ∈ middle, ∀ entry, visit.1.callEnds visit.2 ≠ some (entry, .other))
    (hleft : drainPoints s.stack = []) : s.io.cq.head = start.io.cq.tail := by
  have hfirst : drainPoints first.stack = [.loop start.io.cq.head start.io.cq.tail] := by
    have hbelow := drainPoints_below (hscan ▸ hinv.ring.wellStacked)
    simp only [Scheduler.step, Scheduler.runnerStep, hscan] at hstep
    split at hstep
    · simp at hstep
    · rw [← Option.some.inj hstep]
      simp [drainPoints, hbelow]
  have hboth : FrameInvariant s ∧ LoopUpTo start.io.cq.tail s := by
    apply hrun.invariant_of_allowed
      (fun s : Scheduler P => FrameInvariant s ∧ LoopUpTo start.io.cq.tail s)
      (fun s label => drainPoints s.stack ≠ [] ∧
        ∀ entry, s.callEnds label ≠ some (entry, .other))
    · exact ⟨hinv.of_step hstep, .inl ⟨_, hfirst, rfl⟩⟩
    · rintro s label next ⟨hframes, hloop⟩ ⟨hactive, hcaught⟩ hstep
      have hmove := (Scheduler.move_of_step hstep).2
      exact ⟨hframes.of_step hstep, hloop.step hframes.ring.completion hactive
        (hmove.ringStep hframes.ring.wellStacked)
        ((hmove.handlingStep hframes).handled_le hcaught)⟩
    · intro visit hvisit
      exact ⟨hinside visit hvisit, hcaught visit hvisit⟩
  rcases hboth.2 with ⟨point, hpoint, -⟩ | ⟨-, hhead⟩
  · simp [hleft] at hpoint
  · exact hhead

/-- For every ring, from any value of its counters, whatever tasks and callables
do and whenever the kernel posts completions, as long as callables throw nothing
but `IOException`. -/
theorem completions_handled_once_in_order
    {io : IoState} (hfresh : io.Fresh) {fd : Int32} {addr : UInt64}
    {history : List (Scheduler P × Label P)} {s : Scheduler P}
    (hrun : Run Scheduler.step (Scheduler.initial P io fd addr) history s)
    (hcaught : ∀ visit ∈ history, ∀ entry,
      visit.1.callEnds visit.2 ≠ some (entry, .other)) :
    CompletionsHandled history s := by
  have hprogress := HandlingProgress.of_run hfresh hrun hcaught
  have hframes : ∀ {history : List (Scheduler P × Label P)} {s : Scheduler P},
      Run Scheduler.step (Scheduler.initial P io fd addr) history s → FrameInvariant s := by
    intro history s hrun
    apply hrun.invariant FrameInvariant (.initial hfresh fd addr)
    intro s label next hinv hstep
    exact hinv.of_step hstep
  refine ⟨hprogress.posted_eq, ?_, ?_, hprogress.resumed, hprogress.swaps, ?_⟩
  · intro visit hmem cqe hnow
    obtain ⟨before, after, next, -, hbefore, hstep⟩ := hrun.visit hmem
    have hinv := hframes hbefore
    obtain ⟨current, tail, rest, hstack, hmore, hread, -⟩ :=
      ((Scheduler.move_of_step hstep).2.handlingStep hinv).of_handledNow
        (hcaught visit hmem) hnow
    obtain ⟨hcurrent, hle⟩ := hinv.ring.completion.tracks (.loop current tail)
      (by simp [hinv.ring.drainPoints_of_drain hstack])
    have hpos := sub_toNat_pos hmore
    exact ⟨by omega, by rw [hread, hcurrent]⟩
  · intro visit hmem cqe next hnow hstep
    obtain ⟨before, -, -, -, hbefore, -⟩ := hrun.visit hmem
    obtain ⟨current, tail, rest, hstack, -, -, haction⟩ :=
      ((Scheduler.move_of_step hstep).2.handlingStep (hframes hbefore)).of_handledNow
        (hcaught visit hmem) hnow
    exact ⟨current, tail, rest, hstack, haction⟩
  · intro before start allocated middle rest hsplit hscan hinside hleft
    subst hsplit
    obtain ⟨reached, hbefore, hlater⟩ := hrun.split
    obtain ⟨hreached, first, hstep, hmiddle⟩ := hlater.first
    simp only at hreached hstep
    subst hreached
    apply head_after_drain (hframes hbefore) hscan hstep hmiddle hinside _ hleft
    intro visit hvisit
    exact hcaught visit (by simp [hvisit])

/-- A ring whose completion counters are about to wrap. -/
def wrappingCompletions : IoState :=
  { ringOfDepth 4 with
    cq := { (ringOfDepth 4).cq with head := 0xFFFFFFFF, tail := 0xFFFFFFFF } }

theorem wrappingCompletions_fresh : wrappingCompletions.Fresh := by
  have hfresh : (ringOfDepth 4).Fresh := (ringOfDepth_created 2 (by omega) rfl).toFresh
  exact
    { sqGeometry := hfresh.sqGeometry
      cqGeometry := hfresh.cqGeometry
      sqEmpty := hfresh.sqEmpty
      cqEmpty := rfl
      kernel := rfl
      staged := rfl
      consumed := rfl
      posted := rfl
      handled := rfl }

/-- A receive with a deadline and a posted callable: the completions of the
receive, of its timeout and of the eventfd read arrive in this order, and
`shutdown` drains them. -/
def timedReceiveAndPost : List (Label awaitScript) :=
  [.callSpawn [true], .runner true, .runner true, .enqueue .returned, .notify 0,
    .callShutdown, .runner true, .runner true, .enter 3, .complete 0 5, .complete 0 (-125),
    .complete 0 8] ++ List.replicate 12 (.runner true)

/-- No callable throws anything but an `IOException` in this step. -/
def Scheduler.catches (s : Scheduler P) (label : Label P) : Bool :=
  match s.callEnds label with
  | some (_, .other) => false
  | _ => true

theorem Scheduler.callEnds_of_catches
    {s : Scheduler P} {label : Label P} (hcatches : s.catches label = true)
    (entry : Posted P) : s.callEnds label ≠ some (entry, .other) := by
  intro hends
  simp [catches, hends] at hcatches

theorem completions_handled_wrapping :
    ∃ history s, Run Scheduler.step
        (Scheduler.initial awaitScript wrappingCompletions 3 64) history s ∧
      CompletionsHandled history s ∧ s.io.handled = 3 ∧ s.io.cq.head = 2 ∧
      s.resumptions = [(⟨0, 0⟩, 5)] := by
  have hreplay : (replay Scheduler.step Scheduler.catches
      (Scheduler.initial awaitScript wrappingCompletions 3 64) timedReceiveAndPost).any
      (fun s => s.io.handled == 3 && s.io.cq.head == 2 && s.resumptions == [(⟨0, 0⟩, 5)]) =
      true := by
    decide +kernel
  obtain ⟨history, s, hrun, hcatches, hcheck⟩ := exists_run_of_replay hreplay
  simp only [Bool.and_eq_true, beq_iff_eq] at hcheck
  obtain ⟨⟨hhandled, hhead⟩, hresumed⟩ := hcheck
  refine ⟨history, s, hrun, ?_, hhandled, hhead, hresumed⟩
  apply completions_handled_once_in_order wrappingCompletions_fresh hrun
  intro visit hvisit
  exact Scheduler.callEnds_of_catches (hcatches visit hvisit)

end SlimCommonIo
