import SlimCommonIo.CompletionRing
import SlimCommonIo.InboxTrail

/-!
# One call of `drain_inbox`

From the swap of the inbox to the moment control is back in `drain`, or an
exception takes it further up.  The steps in between are read off the run: which
callable ended how, and what was pushed into the inbox by whom.
-/

namespace SlimCommonIo

variable {P : Program}

/-- How a callable ends. -/
inductive JobEnd
  | returned
  | ioException (status : ErrorStatus)
  | other
  deriving DecidableEq, Repr

/-- What is pushed into the inbox: a callable by `post`, or one which has thrown
`SQFull` by `drain_inbox` itself. -/
inductive Push (P : Program)
  | posted (fn : P.Job)
  | requeued (entry : Posted P)

def Push.fn : Push P → P.Job
  | .posted fn => fn
  | .requeued entry => entry.fn

def Push.requeuedEntry : Push P → Option (Posted P)
  | .posted _ => none
  | .requeued entry => some entry

namespace Scheduler

/-- The callable which ends in this step, and how. -/
def callEnds (s : Scheduler P) : Label P → Option (Posted P × JobEnd)
  | .runner _ =>
      match s.stack with
      | .job entry code :: _ =>
          match P.job code with
          | .ret => some (entry, .returned)
          | .throwIoException status => some (entry, .ioException status)
          | .throwOther => some (entry, .other)
          | _ => none
      | _ => none
  | _ => none

/-- What this step pushes into the inbox. -/
def pushes (s : Scheduler P) : Label P → Option (Push P)
  | .enqueue job => some (.posted job)
  | .runner _ =>
      match s.stack with
      | .job entry code :: _ =>
          match P.job code with
          | .post job _ => some (.posted job)
          | .throwIoException status =>
              if status = .sqFull then some (.requeued entry) else none
          | _ => none
      | .coroutine id code :: _ =>
          match s.heap.frames id, P.instr code with
          | some _, .post job _ => some (.posted job)
          | _, _ => none
      | _ => none
  | _ => none

/-- What a step does to the inbox, the batch being drained and the callable
being executed. -/
inductive InboxStep (s : Scheduler P) (label : Label P) (next : Scheduler P) : Prop
  | same (hends : s.callEnds label = none) (hpushes : s.pushes label = none)
      (hinvoked : next.invoked = s.invoked)
      (hbatches : batches next.stack = batches s.stack)
      (hunderway : underway next.stack = underway s.stack)
      (hinbox : next.inbox = s.inbox)
  | swap (rest : List (Activation P)) (hstack : s.stack = .swapInbox :: rest)
      (hpushes : s.pushes label = none) (hnext : next.stack = .drainInbox s.inbox :: rest)
  | post (fn : P.Job) (hends : s.callEnds label = none)
      (hpushes : s.pushes label = some (.posted fn))
      (hinvoked : next.invoked = s.invoked)
      (hbatches : batches next.stack = batches s.stack)
      (hunderway : underway next.stack = underway s.stack)
      (hinbox : next.inbox = s.inbox ++ [⟨s.nextPost, s.nextPost, fn⟩])
  | invoke (entry : Posted P) (rest : List (Posted P))
      (hends : s.callEnds label = none) (hpushes : s.pushes label = none)
      (hbefore : batches s.stack = entry :: rest) (hafter : batches next.stack = rest)
      (hidle : underway s.stack = []) (hunderway : underway next.stack = [entry])
      (hinvoked : next.invoked = s.invoked ++ [entry]) (hinbox : next.inbox = s.inbox)
  | ends (entry : Posted P) (how : JobEnd) (hends : s.callEnds label = some (entry, how))
      (hhow : how ≠ .other ∧ how ≠ .ioException .sqFull) (hpushes : s.pushes label = none)
      (hinvoked : next.invoked = s.invoked)
      (hbatches : batches next.stack = batches s.stack)
      (hunderway : underway s.stack = [entry]) (hidle : underway next.stack = [])
      (hinbox : next.inbox = s.inbox)
  | requeue (entry : Posted P)
      (hends : s.callEnds label = some (entry, .ioException .sqFull))
      (hpushes : s.pushes label = some (.requeued entry))
      (hinvoked : next.invoked = s.invoked)
      (hbatches : batches next.stack = batches s.stack)
      (hunderway : underway s.stack = [entry]) (hidle : underway next.stack = [])
      (hinbox : next.inbox = s.inbox ++ [⟨s.nextPost, entry.origin, entry.fn⟩])
      (hwrite : ∃ rest, next.stack = .eventfdWrite :: rest)
  | escape (entry : Posted P) (hends : s.callEnds label = some (entry, .other))
      (hpushes : s.pushes label = none)
      (hunderway : underway s.stack = [entry]) (hnext : next.stack = [])

theorem underway_of_job
    {entry : Posted P} {code : P.Job} {rest : List (Activation P)}
    (hwell : WellStacked (.job entry code :: rest)) :
    underway (.job entry code :: rest) = [entry] ∧ underway rest = [] := by
  obtain ⟨⟨batch, below, rfl⟩, hinbox⟩ := hwell
  have hnone : underway (.drainInbox batch :: below) = [] := by
    simpa [underway] using underway_below_drainInbox hinbox
  exact ⟨by rw [underway, hnone], hnone⟩

theorem CallsSpawn.quiet
    {s : Scheduler P} {label : Label P} {body : P.Code} {below : List (Activation P)}
    (hcall : CallsSpawn s label body below) :
    s.callEnds label = none ∧ s.pushes label = none := by
  cases hcall with
  | job hstack hcode => simp [callEnds, pushes, hstack, hcode]
  | coroutine hstack hframe hcode => simp [callEnds, pushes, hstack, hframe, hcode]
  | client _ _ => exact ⟨rfl, rfl⟩

theorem Ends.quiet
    {s : Scheduler P} {allocated : Bool} {id : FrameId} {frame : Frame P}
    {rest : List (Activation P)} {outcome : P.Outcome} (hends : Ends s id frame rest outcome) :
    s.callEnds (.runner allocated) = none ∧ s.pushes (.runner allocated) = none := by
  cases hends with
  | value hstack hframe hcode | exception hstack hframe hcode =>
      simp [callEnds, pushes, hstack, hframe, hcode]

theorem Move.inboxStep
    {s next : Scheduler P} {label : Label P} (hmove : Move s label next)
    (hwell : WellStacked s.stack) : InboxStep s label next := by
  cases hmove with
  | leaveRun hstack _ | loopRun hstack _ | leaveShutdown hstack _ | loopShutdown hstack _
  | destructor hstack | reap hstack | armedStart hstack _ | arm hstack _
  | scan hstack | endLoop hstack | handleSentinel hstack _ _
  | handleNull hstack _ _ | handleDangling hstack _ _ _ | resumed hstack
  | inboxDone hstack | endInbox hstack | eventfdWrite hstack =>
      exact .same (by simp [callEnds, hstack]) (by simp [pushes, hstack]) rfl
        (by rw [hstack]; rfl) (by rw [hstack]; rfl) rfl
  | enter hstack _ _ _ =>
      exact .same rfl rfl rfl (by rw [hstack]; rfl) (by rw [hstack]; rfl) rfl
  | wake hstack hlabel =>
      rcases hlabel with rfl | ⟨allocated, rfl⟩
      · exact .same rfl rfl rfl (by rw [hstack]; rfl) (by rw [hstack]; rfl) rfl
      · exact .same (by simp [callEnds, hstack]) (by simp [pushes, hstack]) rfl
          (by rw [hstack]; rfl) (by rw [hstack]; rfl) rfl
  | handleAwaitable hstack _ _ _ _ _ _ _ _ =>
      exact .same (by simp [callEnds, hstack]) (by simp [pushes, hstack])
        (by simp [invoked, afterResume, Event.invokedEntry])
        (by rw [hstack]; rfl) (by rw [hstack]; rfl) rfl
  | effect hstack hframe hcode | refused hstack hframe hcode _ _ =>
      exact .same (by simp [callEnds, hstack]) (by simp [pushes, hstack, hframe, hcode])
        (by simp [invoked, Event.invokedEntry]) (by rw [hstack]; rfl) (by rw [hstack]; rfl)
        rfl
  | stage hstack hframe hcode _ _ | awaitTask hstack hframe hcode =>
      exact .same (by simp [callEnds, hstack]) (by simp [pushes, hstack, hframe, hcode])
        rfl (by rw [hstack]; rfl) (by rw [hstack]; rfl) rfl
  | swapInbox hstack => exact .swap _ hstack (by simp [pushes, hstack]) rfl
  | @invoke _ rest entry batch hstack =>
      rw [hstack] at hwell
      have hidle := underway_below_drainInbox hwell
      refine .invoke entry (batch ++ batches rest) (by simp [callEnds, hstack])
        (by simp [pushes, hstack]) ?_ rfl ?_ ?_ ?_ rfl
      · rw [hstack]
        rfl
      · rw [hstack]
        exact hidle
      · simp [underway, hidle]
      · simp [invoked, Event.invokedEntry]
  | @endJob _ rest entry code hstack hcode =>
      rw [hstack] at hwell
      obtain ⟨hunderway, hidle⟩ := underway_of_job hwell
      have hbatches : batches rest = batches s.stack := by
        rw [hstack]
        rfl
      rcases hcode with hret | ⟨status, hthrow, hstatus⟩
      · exact .ends entry .returned (by simp [callEnds, hstack, hret]) (by simp)
          (by simp [pushes, hstack, hret]) rfl hbatches (by rw [hstack]; exact hunderway)
          hidle rfl
      · exact .ends entry (.ioException status) (by simp [callEnds, hstack, hthrow])
          (by simp [hstatus]) (by simp [pushes, hstack, hthrow, hstatus]) rfl hbatches
          (by rw [hstack]; exact hunderway) hidle rfl
  | @requeue _ rest entry code hstack hcode =>
      rw [hstack] at hwell
      obtain ⟨hunderway, hidle⟩ := underway_of_job hwell
      exact .requeue entry (by simp [callEnds, hstack, hcode])
        (by simp [pushes, hstack, hcode]) rfl (by rw [hstack]; rfl)
        (by rw [hstack]; exact hunderway) hidle rfl ⟨rest, rfl⟩
  | @escape _ rest entry code _ hstack hcode =>
      rw [hstack] at hwell
      exact .escape entry (by simp [callEnds, hstack, hcode]) (by simp [pushes, hstack, hcode])
        (by rw [hstack]; exact (underway_of_job hwell).1) rfl
  | @post _ job below hcall =>
      cases hcall with
      | job hstack hcode =>
          exact .post job (by simp [callEnds, hstack, hcode])
            (by simp [pushes, hstack, hcode]) rfl (by rw [hstack]; rfl) (by rw [hstack]; rfl)
            rfl
      | coroutine hstack hframe hcode =>
          exact .post job (by simp [callEnds, hstack])
            (by simp [pushes, hstack, hframe, hcode]) rfl (by rw [hstack]; rfl)
            (by rw [hstack]; rfl) rfl
  | spawnFull hcall _ hdeliver =>
      obtain ⟨hbatches, hunderway⟩ := pending_deliver hdeliver
      obtain ⟨hends, hpushes⟩ := hcall.quiet
      exact .same hends hpushes (by simp [invoked, Event.invokedEntry])
        (hbatches.trans hcall.pending_eq.1) (hunderway.trans hcall.pending_eq.2) rfl
  | spawnStart hcall _ =>
      obtain ⟨hends, hpushes⟩ := hcall.quiet
      exact .same hends hpushes (by simp [invoked, Event.invokedEntry])
        hcall.pending_eq.1 hcall.pending_eq.2 rfl
  | spawnRefused hstack _ hdeliver | spawnAccepted hstack _ hdeliver
  | spawnBadAlloc hstack _ hdeliver =>
      obtain ⟨hbatches, hunderway⟩ := pending_deliver hdeliver
      exact .same (by simp [callEnds, hstack]) (by simp [pushes, hstack])
        (by simp [invoked, Event.invokedEntry]) (hbatches.trans (by rw [hstack]; rfl))
        (hunderway.trans (by rw [hstack]; rfl)) rfl
  | endRoot hends _ | endInner hends _ _ =>
      obtain ⟨hnone, hpushes⟩ := hends.quiet
      obtain ⟨code, hstack⟩ := hends.stack
      exact .same hnone hpushes (by simp [invoked, Event.invokedEntry])
        (by rw [hstack]; rfl) (by rw [hstack]; rfl) rfl
  | endAstray hends _ _ =>
      obtain ⟨hnone, hpushes⟩ := hends.quiet
      exact .same hnone hpushes (by simp [invoked, Event.invokedEntry]) rfl rfl rfl
  | @astray _ _ id code hstack hbad =>
      refine .same (by simp [callEnds, hstack]) ?_ rfl rfl rfl rfl
      cases hframe : s.heap.frames id with
      | none => simp [pushes, hstack, hframe]
      | some frame =>
          obtain ⟨object, construct, after, hcode, -⟩ := hbad frame hframe
          simp [pushes, hstack, hframe, hcode]
  | complete _ _ _ | notify _ | requestStop _ _ | stopCallback _ _ _
  | dropTask _ | foreignRefusal _ | callDestroy _ _ _ => exact .same rfl rfl rfl rfl rfl rfl
  | enqueue _ => exact .post _ rfl rfl rfl rfl rfl rfl
  | callResume hstack _ | callRun hstack _ | callShutdown hstack _
  | callDestroyBusy hstack _ _ =>
      exact .same rfl rfl rfl (by rw [hstack]; rfl) (by rw [hstack]; rfl) rfl

end Scheduler

/-! ## The call as a segment of a run -/

open Transition

/-- The callables which ended in a piece of history, with how they ended. -/
def endings (history : List (Scheduler P × Label P)) : List (Posted P × JobEnd) :=
  history.filterMap fun visit => visit.1.callEnds visit.2

/-- What a piece of history pushed into the inbox, in order. -/
def pushed (history : List (Scheduler P × Label P)) : List (Push P) :=
  history.filterMap fun visit => visit.1.pushes visit.2

/-- Control is in the call of `drain_inbox` made from the stack `below`. -/
def Scheduler.InDrainInbox (below : List (Activation P)) (s : Scheduler P) : Prop :=
  ∃ top batch, s.stack = top ++ .drainInbox batch :: below

/-- A call of `drain_inbox` in a run of a scheduler: it swaps the inbox in state
`start` and has not been left before `final`. -/
structure InboxDrain (start : Scheduler P) (below : List (Activation P))
    (history : List (Scheduler P × Label P)) (final : Scheduler P) : Prop where
  reached : ∃ io fd addr before, io.Fresh ∧
    Run Scheduler.step (Scheduler.initial P io fd addr) before start
  called : start.stack = .swapInbox :: below
  swapped : ∃ allocated first, start.step (.runner allocated) = some first ∧
    Run Scheduler.step first history final
  inside : ∀ visit ∈ history, visit.1.InDrainInbox below

/-- The driving thread takes a turn of the loop of `drain_inbox`. -/
def Scheduler.isLoopTurn (visit : Scheduler P × Label P) : Bool :=
  match visit.1.stack, visit.2 with
  | .drainInbox _ :: _, .runner _ => true
  | _, _ => false

def loopTurns (history : List (Scheduler P × Label P)) : ℕ :=
  history.countP Scheduler.isLoopTurn

theorem Scheduler.stack_of_isLoopTurn
    {s : Scheduler P} {label : Label P} (hturn : isLoopTurn (s, label) = true) :
    ∃ allocated batch rest, label = .runner allocated ∧ s.stack = .drainInbox batch :: rest := by
  unfold isLoopTurn at hturn
  split at hturn
  next batch rest allocated hstack hlabel => exact ⟨allocated, batch, rest, hlabel, hstack⟩
  next => simp at hturn

theorem no_drainInbox_below_drain
    {point : DrainPoint} {rest : List (Activation P)}
    (hwell : WellStacked (.drain point :: rest)) (batch : List (Posted P)) :
    .drainInbox batch ∉ rest := by
  rcases stack_below_drain hwell with rfl | rfl | rfl <;> simp

/-- `drain_inbox` is not called while it is active. -/
theorem no_drainInbox_below
    {outer : List (Posted P)} {rest : List (Activation P)}
    (hwell : WellStacked (.drainInbox outer :: rest)) (top : List (Activation P))
    (batch : List (Posted P)) (below : List (Activation P)) :
    rest ≠ top ++ .drainInbox batch :: below := by
  obtain ⟨⟨current, tail, base, rfl⟩, hdrain⟩ := hwell
  intro hsplit
  have hmem : Activation.drainInbox batch ∈
      Activation.drain (.inboxDone current tail) :: base := by
    simp [hsplit]
  exact no_drainInbox_below_drain hdrain batch (by simpa using hmem)

theorem no_drainInbox_below_swap
    {rest : List (Activation P)} (hwell : WellStacked (.swapInbox :: rest))
    (top : List (Activation P)) (batch : List (Posted P)) (below : List (Activation P)) :
    .swapInbox :: rest ≠ top ++ .drainInbox batch :: below := by
  obtain ⟨⟨current, tail, base, rfl⟩, hdrain⟩ := hwell
  intro hsplit
  have hmem : Activation.drainInbox batch ∈
      Activation.swapInbox :: .drain (.inboxDone current tail) :: base := by
    simp [hsplit]
  exact no_drainInbox_below_drain hdrain batch (by simpa using hmem)

/-- How far a call of `drain_inbox` has come. -/
structure DrainProgress (start : Scheduler P) (history : List (Scheduler P × Label P))
    (s : Scheduler P) : Prop where
  wellStacked : WellStacked s.stack
  snapshot : start.inbox =
    (endings history).map Prod.fst ++ (underway s.stack ++ batches s.stack)
  invoked : s.invoked = start.invoked ++ ((endings history).map Prod.fst ++ underway s.stack)
  inbox : s.inbox.map Posted.fn = (pushed history).map Push.fn
  requeued : (pushed history).filterMap Push.requeuedEntry =
    ((endings history).filter fun ending =>
      decide (ending.2 = .ioException .sqFull)).map Prod.fst

theorem wellStacked_of_run
    {io : IoState} {fd : Int32} {addr : UInt64} {history : List (Scheduler P × Label P)}
    {s : Scheduler P} (hrun : Run Scheduler.step (Scheduler.initial P io fd addr) history s) :
    WellStacked s.stack := by
  apply hrun.invariant (fun s : Scheduler P => WellStacked s.stack)
  · exact (trivial : WellStacked ([] : List (Activation P)))
  intro s label next hwell hstep
  exact (Scheduler.move_of_step hstep).2.wellStacked hwell

namespace DrainProgress

variable {start s next : Scheduler P} {below : List (Activation P)}
  {history : List (Scheduler P × Label P)} {label : Label P}

theorem begin
    (hwell : WellStacked start.stack) (hcalled : start.stack = .swapInbox :: below)
    {allocated : Bool} (hstep : start.step (.runner allocated) = some s) :
    DrainProgress start [] s := by
  have hmove := (Scheduler.move_of_step hstep).2
  have hnext := hmove.wellStacked hwell
  rw [hcalled] at hwell
  obtain ⟨⟨current, tail, rest, rfl⟩, hdrain⟩ := hwell
  obtain ⟨hbatches, hunderway⟩ := nothing_below_drain hdrain
  have hswap : s = { start with
      inbox := []
      stack := .drainInbox start.inbox :: .drain (.inboxDone current tail) :: rest } := by
    simp only [Scheduler.step, Scheduler.runnerStep, hcalled] at hstep
    split at hstep
    · simp at hstep
    · exact (Option.some.inj hstep).symm
  constructor
  · exact hnext
  · simp [hswap, endings, underway, batches, hbatches, hunderway]
  · simp [hswap, Scheduler.invoked, endings, underway, hunderway]
  · simp [hswap, pushed]
  · simp [pushed, endings]

theorem step
    (hprogress : DrainProgress start history s) (hinside : s.InDrainInbox below)
    (hstep : s.step label = some next)
    (hcaught : ∀ entry, s.callEnds label ≠ some (entry, .other)) :
    DrainProgress start (history ++ [(s, label)]) next := by
  have hmove := (Scheduler.move_of_step hstep).2
  have hwell := hmove.wellStacked hprogress.wellStacked
  obtain ⟨hbefore, hsnapshot, hinvoked, hinbox, hrequeued⟩ := hprogress
  cases hmove.inboxStep hbefore with
  | same hends hpushes hsame hbatches hunderway hinbox' =>
      have hended : endings (history ++ [(s, label)]) = endings history := by
        simp [endings, hends]
      have hpushed : pushed (history ++ [(s, label)]) = pushed history := by
        simp [pushed, hpushes]
      exact ⟨hwell, by rw [hended, hunderway, hbatches]; exact hsnapshot,
        by rw [hended, hsame, hunderway]; exact hinvoked,
        by rw [hpushed, hinbox']; exact hinbox, by rw [hended, hpushed]; exact hrequeued⟩
  | swap rest hstack _ hnext =>
      obtain ⟨top, batch, hsplit⟩ := hinside
      exact absurd (hstack.symm.trans hsplit)
        (no_drainInbox_below_swap (hstack ▸ hbefore) top batch below)
  | post fn hends hpushes hsame hbatches hunderway hinbox' =>
      have hended : endings (history ++ [(s, label)]) = endings history := by
        simp [endings, hends]
      have hpushed : pushed (history ++ [(s, label)]) = pushed history ++ [.posted fn] := by
        simp [pushed, hpushes]
      refine ⟨hwell, by rw [hended, hunderway, hbatches]; exact hsnapshot,
        by rw [hended, hsame, hunderway]; exact hinvoked, ?_, ?_⟩
      · rw [hpushed, hinbox', List.map_append, List.map_append, hinbox]
        rfl
      · rw [hended, hpushed, List.filterMap_append, hrequeued]
        simp [Push.requeuedEntry]
  | invoke entry rest hends hpushes hfirst hafter hidle hunderway hinvoked' hinbox' =>
      have hended : endings (history ++ [(s, label)]) = endings history := by
        simp [endings, hends]
      have hpushed : pushed (history ++ [(s, label)]) = pushed history := by
        simp [pushed, hpushes]
      refine ⟨hwell, ?_, ?_, by rw [hpushed, hinbox']; exact hinbox,
        by rw [hended, hpushed]; exact hrequeued⟩
      · rw [hended, hunderway, hafter, hsnapshot, hidle, hfirst]
        rfl
      · rw [hended, hunderway, hinvoked', hinvoked, hidle]
        simp
  | ends entry how hends hhow hpushes hsame hbatches hunderway hidle hinbox' =>
      have hended : endings (history ++ [(s, label)]) = endings history ++ [(entry, how)] := by
        simp [endings, hends]
      have hpushed : pushed (history ++ [(s, label)]) = pushed history := by
        simp [pushed, hpushes]
      refine ⟨hwell, ?_, ?_, by rw [hpushed, hinbox']; exact hinbox, ?_⟩
      · rw [hended, hidle, hbatches, hsnapshot, hunderway]
        simp
      · rw [hended, hsame, hidle, hinvoked, hunderway]
        simp
      · rw [hended, hpushed, hrequeued]
        simp [hhow.2]
  | requeue entry hends hpushes hsame hbatches hunderway hidle hinbox' _ =>
      have hended : endings (history ++ [(s, label)]) =
          endings history ++ [(entry, .ioException .sqFull)] := by
        simp [endings, hends]
      have hpushed : pushed (history ++ [(s, label)]) =
          pushed history ++ [.requeued entry] := by
        simp [pushed, hpushes]
      refine ⟨hwell, ?_, ?_, ?_, ?_⟩
      · rw [hended, hidle, hbatches, hsnapshot, hunderway]
        simp
      · rw [hended, hsame, hidle, hinvoked, hunderway]
        simp
      · rw [hpushed, hinbox', List.map_append, List.map_append, hinbox]
        rfl
      · rw [hended, hpushed, List.filterMap_append, hrequeued]
        simp [Push.requeuedEntry]
  | escape entry hends _ _ _ => exact absurd hends (hcaught entry)

end DrainProgress

namespace InboxDrain

variable {start final : Scheduler P} {below : List (Activation P)}
  {history : List (Scheduler P × Label P)}

theorem progress
    (hdrain : InboxDrain start below history final)
    (hcaught : ∀ visit ∈ history, ∀ entry, visit.1.callEnds visit.2 ≠ some (entry, .other)) :
    DrainProgress start history final := by
  obtain ⟨⟨io, fd, addr, before, -, hbefore⟩, hcalled, ⟨allocated, first, hswap, hrun⟩,
    hinside⟩ := hdrain
  have hbegin := DrainProgress.begin (wellStacked_of_run hbefore) hcalled hswap
  induction hrun with
  | nil => exact hbegin
  | @snoc history s next label _ hstep ih =>
      have hprogress := ih (fun visit hvisit => hcaught visit (List.mem_append_left _ hvisit))
        (fun visit hvisit => hinside visit (List.mem_append_left _ hvisit))
      exact hprogress.step (hinside (s, label) (by simp)) hstep (hcaught (s, label) (by simp))

theorem caught
    (hdrain : InboxDrain start below history s) (hactive : s.stack ≠ []) :
    ∀ visit ∈ history, ∀ entry, visit.1.callEnds visit.2 ≠ some (entry, .other) := by
  obtain ⟨⟨io, fd, addr, before, -, hbefore⟩, hcalled, ⟨allocated, first, hswap, hrun⟩,
    hinside⟩ := hdrain
  have hwell : ∀ {history : List (Scheduler P × Label P)} {s : Scheduler P},
      Run Scheduler.step first history s → WellStacked s.stack := by
    intro history s hrun
    apply hrun.invariant (fun s : Scheduler P => WellStacked s.stack)
    · exact (Scheduler.move_of_step hswap).2.wellStacked (wellStacked_of_run hbefore)
    · intro s label next hwell hstep
      exact (Scheduler.move_of_step hstep).2.wellStacked hwell
  induction hrun with
  | nil => simp
  | @snoc history s next label hprior hstep ih =>
      intro visit hvisit entry hends
      rcases List.mem_append.mp hvisit with hold | hnew
      · have hbusy : s.stack ≠ [] := by
          obtain ⟨top, batch, hstack⟩ := hinside (s, label) (by simp)
          have hsplit : s.stack = top ++ .drainInbox batch :: below := hstack
          simp [hsplit]
        exact ih hbusy (fun visit hvisit => hinside visit (List.mem_append_left _ hvisit))
          visit hold entry hends
      · rw [List.mem_singleton.mp hnew] at hends
        cases (Scheduler.move_of_step hstep).2.inboxStep (hwell hprior) with
        | escape _ _ _ _ hnext => exact hactive hnext
        | ends other how hother hhow _ _ _ _ _ _ =>
            rw [hother, Option.some.injEq, Prod.mk.injEq] at hends
            exact hhow.1 hends.2
        | requeue other hother _ _ _ _ _ _ _ => simp [hother] at hends
        | swap rest hstack _ _ =>
            unfold Scheduler.callEnds at hends
            split at hends <;> simp [hstack] at hends
        | same hnone _ _ _ _ _ | post _ hnone _ _ _ _ _ | invoke _ _ hnone _ _ _ _ _ _ _ =>
            simp [hnone] at hends

/-- The loop of the call takes at most one turn more than the snapshot has callables. -/
theorem loopTurns_le
    (hdrain : InboxDrain start below history final)
    (hcaught : ∀ visit ∈ history, ∀ entry, visit.1.callEnds visit.2 ≠ some (entry, .other)) :
    loopTurns history + (batches final.stack).length ≤ start.inbox.length + 1 := by
  suffices hboth : loopTurns history + (batches final.stack).length ≤ start.inbox.length + 1 ∧
      (final.InDrainInbox below →
        loopTurns history + (batches final.stack).length ≤ start.inbox.length) from hboth.1
  obtain ⟨⟨io, fd, addr, before, -, hbefore⟩, hcalled, ⟨allocated, first, hswap, hrun⟩,
    hinside⟩ := hdrain
  have hbegin := DrainProgress.begin (wellStacked_of_run hbefore) hcalled hswap
  have hwell := hbegin.wellStacked
  have hlength : (batches first.stack).length ≤ start.inbox.length := by
    rw [hbegin.snapshot, List.length_append, List.length_append]
    omega
  induction hrun with
  | nil => exact ⟨by simp [loopTurns]; omega, fun _ => by simpa [loopTurns] using hlength⟩
  | @snoc history s next label hprior hstep ih =>
      have hin : s.InDrainInbox below := hinside (s, label) (by simp)
      have hle := (ih (fun visit hvisit => hcaught visit (List.mem_append_left _ hvisit))
        (fun visit hvisit => hinside visit (List.mem_append_left _ hvisit))).2 hin
      have hwellS : WellStacked s.stack := by
        apply hprior.invariant (fun s : Scheduler P => WellStacked s.stack) hwell
        intro s label next hwell hstep
        exact (Scheduler.move_of_step hstep).2.wellStacked hwell
      by_cases hturn : Scheduler.isLoopTurn (s, label) = true
      · obtain ⟨allocated, batch, rest, rfl, hstack⟩ := Scheduler.stack_of_isLoopTurn hturn
        have hcount : loopTurns (history ++ [(s, .runner allocated)]) = loopTurns history + 1 := by
          simp [loopTurns, hturn]
        rw [hstack] at hle hwellS
        cases batch with
        | nil =>
            have hnext : next.stack = rest := by
              simp only [Scheduler.step, Scheduler.runnerStep, hstack] at hstep
              split at hstep
              · simp at hstep
              · rw [← Option.some.inj hstep]
            simp only [batches, List.nil_append] at hle
            rw [hcount, hnext]
            refine ⟨by omega, ?_⟩
            rintro ⟨top, batch, hagain⟩
            rw [hnext] at hagain
            exact absurd hagain (no_drainInbox_below hwellS top batch below)
        | cons entry batch =>
            have hnext : next.stack = .job entry entry.fn :: .drainInbox batch :: rest := by
              simp only [Scheduler.step, Scheduler.runnerStep, hstack] at hstep
              split at hstep
              · simp at hstep
              · rw [← Option.some.inj hstep]
            simp only [batches, List.cons_append, List.length_cons] at hle
            rw [hcount, hnext]
            simp only [batches]
            exact ⟨by omega, fun _ => by omega⟩
      · have hcount : loopTurns (history ++ [(s, label)]) = loopTurns history := by
          simp [loopTurns, hturn]
        have hshorter : (batches next.stack).length ≤ (batches s.stack).length := by
          cases (Scheduler.move_of_step hstep).2.inboxStep hwellS with
          | same _ _ _ hbatches _ _ | post _ _ _ _ hbatches _ _
          | ends _ _ _ _ _ _ hbatches _ _ _ | requeue _ _ _ _ hbatches _ _ _ _ =>
              rw [hbatches]
          | swap rest hstack _ _ =>
              obtain ⟨top, batch, hsplit⟩ := hin
              exact absurd (hstack.symm.trans hsplit)
                (no_drainInbox_below_swap (hstack ▸ hwellS) top batch below)
          | invoke entry rest _ _ hfirst hafter _ _ _ _ =>
              rw [hfirst, hafter]
              simp
          | escape entry hends _ _ _ => exact absurd hends (hcaught (s, label) (by simp) entry)
        rw [hcount]
        exact ⟨by omega, fun _ => by omega⟩

end InboxDrain

/-! ## The eventfd write after a requeue -/

namespace Scheduler

variable {s next : Scheduler P} {label : Label P}

/-- While the driving thread is about to write to the eventfd, it either does
that or another party moves. -/
theorem Move.eventfdWrite_cases
    {rest : List (Activation P)} (hmove : Move s label next)
    (htop : s.stack = .eventfdWrite :: rest) :
    (∃ allocated, label = .runner allocated) ∧ next.stack = rest ∧
        next.eventfd = s.eventfd + 1 ∨
      (∀ allocated, label ≠ .runner allocated) ∧ next.stack = s.stack := by
  cases hmove with
  | eventfdWrite hstack =>
      rw [htop, List.cons.injEq] at hstack
      exact .inl ⟨⟨_, rfl⟩, hstack.2.symm, rfl⟩
  | leaveRun hstack _ | loopRun hstack _ | leaveShutdown hstack _ | loopShutdown hstack _
  | destructor hstack | reap hstack | armedStart hstack _ | arm hstack _
  | enter hstack _ _ _ | wake hstack _ | scan hstack | endLoop hstack
  | handleSentinel hstack _ _ | handleNull hstack _ _ | handleAwaitable hstack _ _ _ _ _ _ _ _
  | handleDangling hstack _ _ _ | resumed hstack | inboxDone hstack | swapInbox hstack
  | endInbox hstack | invoke hstack | endJob hstack _ | requeue hstack _ | escape hstack _
  | spawnRefused hstack _ _ | spawnAccepted hstack _ _
  | spawnBadAlloc hstack _ _ | effect hstack _ _ | refused hstack _ _ _ _
  | stage hstack _ _ _ _ | awaitTask hstack _ _ | astray hstack _ | callResume hstack _
  | callRun hstack _ | callShutdown hstack _ | callDestroy hstack _ _
  | callDestroyBusy hstack _ _ => simp [htop] at hstack
  | endRoot hends _ | endInner hends _ _ | endAstray hends _ _ =>
      obtain ⟨code, hstack⟩ := hends.stack
      simp [htop] at hstack
  | post hcall =>
      cases hcall with
      | job hstack _ | coroutine hstack _ _ => simp [htop] at hstack
  | spawnFull hcall _ _ | spawnStart hcall _ =>
      cases hcall with
      | job hstack _ | coroutine hstack _ _ | client hstack _ => simp [htop] at hstack
  | foreignRefusal hclient => simp [inClientCode, htop] at hclient
  | complete _ _ _ | enqueue _ | notify _ | requestStop _ _ | stopCallback _ _ _
  | dropTask _ => exact .inr ⟨by simp, rfl⟩

/-- The visit at which the driving thread writes to the eventfd. -/
def WritesEventfd (visit : Scheduler P × Label P) : Prop :=
  (∃ rest, visit.1.stack = .eventfdWrite :: rest) ∧ ∃ allocated, visit.2 = .runner allocated

theorem eventfdWrite_of_run
    {start final : Scheduler P} {history : List (Scheduler P × Label P)}
    {rest : List (Activation P)} (hrun : Run Scheduler.step start history final)
    (hstart : start.stack = .eventfdWrite :: rest) :
    (final.stack = .eventfdWrite :: rest ∧
        ∀ visit ∈ history, ∀ allocated, visit.2 ≠ .runner allocated) ∨
      ∃ waiting write after, history = waiting ++ write :: after ∧ WritesEventfd write ∧
        ∀ visit ∈ waiting, ∀ allocated, visit.2 ≠ .runner allocated := by
  induction hrun with
  | nil => exact .inl ⟨hstart, by simp⟩
  | @snoc history s next label _ hstep ih =>
      rcases ih with ⟨hstack, hwaiting⟩ | ⟨waiting, write, after, hsplit, hwrite⟩
      · rcases (move_of_step hstep).2.eventfdWrite_cases hstack with
          ⟨hlabel, -⟩ | ⟨hlabel, hsame⟩
        · exact .inr ⟨history, (s, label), [], rfl, ⟨⟨rest, hstack⟩, hlabel⟩, hwaiting⟩
        · refine .inl ⟨hsame.trans hstack, ?_⟩
          intro visit hvisit
          rcases List.mem_append.mp hvisit with hold | hnew
          · exact hwaiting visit hold
          · rw [List.mem_singleton.mp hnew]
            exact hlabel
      · exact .inr ⟨waiting, write, after ++ [(s, label)], by simp [hsplit], hwrite⟩

theorem eventfdWrite_of_requeue
    {entry : Posted P} (hwell : WellStacked s.stack) (hstep : s.step label = some next)
    (hpushes : s.pushes label = some (.requeued entry)) :
    ∃ rest, next.stack = .eventfdWrite :: rest := by
  cases (move_of_step hstep).2.inboxStep hwell with
  | requeue _ _ _ _ _ _ _ _ hwrite => exact hwrite
  | swap _ _ hnone _ | escape _ _ hnone _ _ | same _ hnone _ _ _ _
  | invoke _ _ _ hnone _ _ _ _ _ _ | ends _ _ _ _ hnone _ _ _ _ _ =>
      simp [hnone] at hpushes
  | post _ _ hother _ _ _ _ => simp [hother] at hpushes

end Scheduler

/-! ## The snapshot -/

/-- What a call of `drain_inbox` has done when it is left by a return, and how
it gets there: in its loop the callables not yet invoked are the rest of the
snapshot, the driving thread can always go on, and the turns are bounded. -/
structure SnapshotDrained (start : Scheduler P) (below : List (Activation P))
    (history : List (Scheduler P × Label P)) (final : Scheduler P) : Prop where
  invoked : final.stack = below → final.invoked = start.invoked ++ start.inbox
  ended : final.stack = below → (endings history).map Prod.fst = start.inbox
  loop : ∀ batch, final.stack = .drainInbox batch :: below →
    start.inbox = (endings history).map Prod.fst ++ batch ∧
    (final.crash = none → ∀ allocated, ∃ next, final.step (.runner allocated) = some next ∧
      (batch = [] ∧ next.stack = below ∨ ∃ entry rest, batch = entry :: rest ∧
        next.stack = .job entry entry.fn :: .drainInbox rest :: below))
  turns : loopTurns history ≤ start.inbox.length + 1
  inbox : final.inbox.map Posted.fn = (pushed history).map Push.fn
  requeued : (pushed history).filterMap Push.requeuedEntry =
    ((endings history).filter fun ending =>
      decide (ending.2 = .ioException .sqFull)).map Prod.fst
  written : final.stack = below → ∀ before visit after, history = before ++ visit :: after →
    (∃ entry, visit.1.pushes visit.2 = some (.requeued entry)) →
    ∃ waiting write rest, after = waiting ++ write :: rest ∧ Scheduler.WritesEventfd write ∧
      ∀ other ∈ waiting, ∀ allocated, other.2 ≠ .runner allocated

/-- Whatever the callables do and whoever posts meanwhile, as long as they throw
nothing but `IOException`: `drain_inbox` runs the callables of its snapshot, each
once and in order, and puts back those which threw `SQFull`, among the callables
posted meanwhile, with an eventfd write after each. -/
theorem drain_inbox_runs_its_snapshot
    {start final : Scheduler P} {below : List (Activation P)}
    {history : List (Scheduler P × Label P)}
    (hdrain : InboxDrain start below history final)
    (hcaught : ∀ visit ∈ history, ∀ entry,
      visit.1.callEnds visit.2 ≠ some (entry, .other)) :
    SnapshotDrained start below history final := by
  have hprogress := hdrain.progress hcaught
  have hturns := hdrain.loopTurns_le hcaught
  obtain ⟨⟨io, fd, addr, before, -, hbefore⟩, hcalled, ⟨allocated, first, hswap, hrun⟩, -⟩ :=
    hdrain
  have hwell := wellStacked_of_run hbefore
  rw [hcalled] at hwell
  obtain ⟨⟨current, tail, base, rfl⟩, hbase⟩ := hwell
  obtain ⟨hbatches, hunderway⟩ := nothing_below_drain hbase
  -- nothing is left over once control is back in `drain`
  have hnothing : final.stack = .drain (.inboxDone current tail) :: base →
      underway final.stack = [] ∧ batches final.stack = [] := by
    intro hleft
    rw [hleft]
    exact ⟨hunderway, hbatches⟩
  constructor
  · intro hleft
    obtain ⟨hidle, hempty⟩ := hnothing hleft
    rw [hprogress.invoked, hprogress.snapshot, hidle, hempty]
    simp
  · intro hleft
    obtain ⟨hidle, hempty⟩ := hnothing hleft
    rw [hprogress.snapshot, hidle, hempty]
    simp
  · intro batch hloop
    refine ⟨?_, ?_⟩
    · rw [hprogress.snapshot, hloop]
      simp [underway, batches, hunderway, hbatches]
    · intro hcrash allocated
      cases batch with
      | nil => exact ⟨_, by simp [Scheduler.step, Scheduler.runnerStep, hcrash, hloop]; rfl,
          .inl ⟨rfl, rfl⟩⟩
      | cons entry rest =>
          exact ⟨_, by simp [Scheduler.step, Scheduler.runnerStep, hcrash, hloop]; rfl,
            .inr ⟨entry, rest, rfl, rfl⟩⟩
  · exact Nat.le_of_add_right_le hturns
  · exact hprogress.inbox
  · exact hprogress.requeued
  · intro hleft prior visit after hsplit hrequeue
    rw [hsplit] at hrun
    obtain ⟨middle, hprior, hfrom⟩ := hrun.split
    obtain ⟨hvisit, next, hstep, hafter⟩ := hfrom.first
    obtain ⟨entry, hpushes⟩ := hrequeue
    rw [hvisit] at hpushes
    have hmiddle : WellStacked middle.stack := by
      have hswapped := (Scheduler.move_of_step hswap).2.wellStacked
        (wellStacked_of_run hbefore)
      apply hprior.invariant (fun s : Scheduler P => WellStacked s.stack) hswapped
      intro s label next hwell hstep
      exact (Scheduler.move_of_step hstep).2.wellStacked hwell
    obtain ⟨rest, hwrite⟩ := Scheduler.eventfdWrite_of_requeue hmiddle hstep hpushes
    rcases Scheduler.eventfdWrite_of_run hafter hwrite with ⟨hstill, -⟩ | hwritten
    · rw [hleft] at hstill
      simp at hstill
    · exact hwritten

/-! ## Concrete drains -/

/-- Bodies which await receives, and callables which end in a given way. -/
def endScript : Program where
  Code := ℕ
  Job := JobEnd
  Effect := Unit
  Value := Unit
  Exc := Unit
  defaultValue := some ()
  instr
    | 0 => .coReturn none
    | more + 1 => .coAwait 0 (some { op := .recv 0 0 1 0 }) fun _ => more
  job
    | .returned => .ret
    | .ioException status => .throwIoException status
    | .other => .throwOther

def oneReceive : endScript.Code := (1 : ℕ)

def postOf (job : JobEnd) : Label endScript := .enqueue job

/-- With a task waiting, these callables are posted and `shutdown` is called; its
first drain is about to swap the inbox. -/
def postThenShutdown (jobs : List JobEnd) : List (Label endScript) :=
  [.callSpawn oneReceive, .runner true, .runner true] ++ jobs.map postOf ++
    [.notify 0, .callShutdown, .runner true, .runner true, .enter 2, .complete 1 8,
      .runner true, .runner true]

/-- The stack below the `drain_inbox` of that drain. -/
def shutdownDrain : List (Activation endScript) :=
  [.drain (.inboxDone 0 1), .reap, .shutdown]

def Activation.isDrainInbox {P : Program} : Activation P → Bool
  | .drainInbox _ => true
  | _ => false

namespace Scheduler

def inboxEnds (s : Scheduler endScript) : List JobEnd := s.inbox.map Posted.fn

def atSwap (s : Scheduler endScript) : Bool :=
  match s.stack with
  | [.swapInbox, .drain (.inboxDone 0 1), .reap, .shutdown] => true
  | _ => false

def atShutdownDrain (s : Scheduler endScript) : Bool :=
  match s.stack with
  | [.drain (.inboxDone 0 1), .reap, .shutdown] => true
  | _ => false

def inShutdownDrain (s : Scheduler endScript) : Bool :=
  match s.stack.dropWhile fun act => !act.isDrainInbox with
  | [.drainInbox _, .drain (.inboxDone 0 1), .reap, .shutdown] => true
  | _ => false

theorem stack_of_atSwap {s : Scheduler endScript} (hat : s.atSwap = true) :
    s.stack = .swapInbox :: shutdownDrain := by
  unfold atSwap at hat
  split at hat
  next hstack => exact hstack
  next => simp at hat

theorem stack_of_atShutdownDrain
    {s : Scheduler endScript} (hat : s.atShutdownDrain = true) :
    s.stack = shutdownDrain := by
  unfold atShutdownDrain at hat
  split at hat
  next hstack => exact hstack
  next => simp at hat

theorem inDrainInbox_of_inShutdownDrain
    {s : Scheduler endScript} (hin : s.inShutdownDrain = true) :
    s.InDrainInbox shutdownDrain := by
  unfold inShutdownDrain at hin
  split at hin
  next batch hdrop =>
    refine ⟨s.stack.takeWhile fun act => !act.isDrainInbox, batch, ?_⟩
    rw [shutdownDrain, ← hdrop, List.takeWhile_append_dropWhile]
  next => simp at hin

end Scheduler

/-- Drain these callables and replay further labels inside the call, then check
the state before the swap and the one reached. -/
def drainReplay (jobs : List JobEnd) (labels : List (Label endScript))
    (check : Scheduler endScript → Scheduler endScript → Bool) : Bool :=
  (replay Scheduler.step (fun _ _ => true)
    (Scheduler.initial endScript (ringOfDepth 2) 3 64) (postThenShutdown jobs)).any
    fun start => start.atSwap && (start.step (.runner true)).any fun first =>
      (replay Scheduler.step (fun s _ => s.inShutdownDrain) first labels).any (check start)

theorem inboxDrain_of_drainReplay
    {jobs : List JobEnd} {labels : List (Label endScript)}
    {check : Scheduler endScript → Scheduler endScript → Bool}
    (hreplay : drainReplay jobs labels check = true) :
    ∃ start history s, InboxDrain start shutdownDrain history s ∧ check start s = true := by
  obtain ⟨before, start, hbefore, -, hstart⟩ := exists_run_of_replay hreplay
  obtain ⟨hat, hfirst⟩ := Bool.and_eq_true_iff.mp hstart
  obtain ⟨first, hswap, hlater⟩ := (Option.any_eq_true _ _).mp hfirst
  obtain ⟨history, s, hrun, hinside, hcheck⟩ := exists_run_of_replay hlater
  refine ⟨start, history, s, ⟨?_, ?_, ?_, ?_⟩, hcheck⟩
  · exact ⟨_, _, _, before, (ringOfDepth_created 1 (by omega) rfl).toFresh, hbefore⟩
  · exact Scheduler.stack_of_atSwap hat
  · exact ⟨true, first, hswap, hrun⟩
  · intro visit hvisit
    exact Scheduler.inDrainInbox_of_inShutdownDrain (hinside visit hvisit)

/-- One callable returns, one throws `SQFull`, one another `IOException`; another
thread posts a fourth meanwhile. -/
def mixedJobs : List JobEnd :=
  [.returned, .ioException .sqFull, .ioException .badAllocation]

def mixedDrain : List (Label endScript) :=
  [.runner true, .runner true, .runner true, postOf .returned, .runner true, .runner true,
    .runner true, .runner true, .runner true]

theorem drain_inbox_mixedDrain :
    ∃ start history final, InboxDrain start shutdownDrain history final ∧
      final.stack = shutdownDrain ∧ SnapshotDrained start shutdownDrain history final ∧
      start.inboxEnds = mixedJobs ∧
      final.inboxEnds = [.returned, .ioException .sqFull] := by
  have hreplay : drainReplay mixedJobs mixedDrain (fun start s => s.atShutdownDrain &&
      start.inboxEnds == mixedJobs && s.inboxEnds == [.returned, .ioException .sqFull]) =
      true := by
    decide +kernel
  obtain ⟨start, history, final, hdrain, hcheck⟩ := inboxDrain_of_drainReplay hreplay
  simp only [Bool.and_eq_true, beq_iff_eq] at hcheck
  obtain ⟨⟨hleft, hstart⟩, hfinal⟩ := hcheck
  have hstack := Scheduler.stack_of_atShutdownDrain hleft
  have hcaught := hdrain.caught (by simp [hstack, shutdownDrain])
  exact ⟨start, history, final, hdrain, hstack, drain_inbox_runs_its_snapshot hdrain hcaught,
    hstart, hfinal⟩

end SlimCommonIo
