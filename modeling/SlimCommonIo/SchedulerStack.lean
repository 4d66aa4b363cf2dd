import SlimCommonIo.SchedulerMoves

/-!
# The shape of the driving thread's stack

Which activation can stand on which: `drain` is called by the loops of `run`
and `shutdown` only, `drain_inbox` by `drain`, callables by `drain_inbox`, and
coroutines by `spawn`, by `drain` or by client code.  In particular at most
one `drain` is active at a time.
-/

namespace SlimCommonIo

variable {P : Program}

namespace Activation

/-- The activation may be called from the code on top of the stack. -/
def StandsOn : Activation P → List (Activation P) → Prop
  | .run, below => below = []
  | .shutdown, below => below = [] ∨ below = [.destructor]
  | .destructor, below => below = []
  | .reap, below => ∃ rest, below = .run :: rest ∨ below = .shutdown :: rest
  | .drain _, below => ∃ rest, below = .reap :: rest
  | .swapInbox, below => ∃ current tail rest,
      below = .drain (.inboxDone current tail) :: rest
  | .drainInbox _, below => ∃ current tail rest,
      below = .drain (.inboxDone current tail) :: rest
  | .job _ _, below => ∃ batch rest, below = .drainInbox batch :: rest
  | .jobInSpawn _ _, below => ∃ batch rest, below = .drainInbox batch :: rest
  | .eventfdWrite, below => ∃ rest,
      (∃ entry code, below = .job entry code :: rest) ∨
      (∃ batch, below = .drainInbox batch :: rest) ∨
      (∃ id code, below = .coroutine id code :: rest)
  | .spawn _, below => below = [] ∨
      (∃ entry next rest, below = .jobInSpawn entry next :: rest) ∨
      (∃ id next rest, below = .coroutineInSpawn id next :: rest)
  | .coroutine _ _, below => below = [] ∨
      (∃ task rest, below = .spawn task :: rest) ∨
      (∃ current tail rest, below = .drain (.resumed current tail) :: rest)
  | .coroutineInSpawn _ _, below => below = [] ∨
      (∃ task rest, below = .spawn task :: rest) ∨
      (∃ current tail rest, below = .drain (.resumed current tail) :: rest)

end Activation

/-- Every activation stands on one that can call it. -/
def WellStacked : List (Activation P) → Prop
  | [] => True
  | act :: rest => act.StandsOn rest ∧ WellStacked rest

namespace Scheduler

theorem CallsSpawn.wellStacked
    {s : Scheduler P} {label : Label P} {body : P.Code}
    {below : List (Activation P)} (hcall : CallsSpawn s label body below)
    (hwell : WellStacked s.stack) :
    WellStacked below ∧ (∀ task : FrameId, (Activation.spawn task).StandsOn below) ∧
      ∀ status stack, deliver status below = some stack → WellStacked stack := by
  cases hcall with
  | job hstack hcode =>
      rw [hstack] at hwell
      refine ⟨hwell, fun task => .inr (.inl ⟨_, _, _, rfl⟩), ?_⟩
      intro status stack hdeliver
      simp only [deliver, Option.some.injEq] at hdeliver
      subst hdeliver
      exact hwell
  | coroutine hstack hframe hcode =>
      rw [hstack] at hwell
      refine ⟨hwell, fun task => .inr (.inr ⟨_, _, _, rfl⟩), ?_⟩
      intro status stack hdeliver
      simp only [deliver, Option.some.injEq] at hdeliver
      subst hdeliver
      exact hwell
  | client hstack hopen =>
      refine ⟨trivial, fun task => .inl rfl, ?_⟩
      intro status stack hdeliver
      simp only [deliver, Option.some.injEq] at hdeliver
      subst hdeliver
      trivial

theorem wellStacked_of_deliver
    {task : FrameId} {below stack : List (Activation P)}
    {status : Option ErrorStatus}
    (hwell : WellStacked (.spawn task :: below))
    (hdeliver : deliver status below = some stack) : WellStacked stack := by
  obtain ⟨hstands, hbelow⟩ := hwell
  rcases hstands with rfl | ⟨entry, next, rest, rfl⟩ | ⟨id, next, rest, rfl⟩
  · simp only [deliver, Option.some.injEq] at hdeliver
    subst hdeliver
    trivial
  · simp only [deliver, Option.some.injEq] at hdeliver
    subst hdeliver
    exact hbelow
  · simp only [deliver, Option.some.injEq] at hdeliver
    subst hdeliver
    exact hbelow

theorem Ends.stack
    {s : Scheduler P} {id : FrameId} {frame : Frame P}
    {rest : List (Activation P)} {outcome : P.Outcome}
    (hends : Ends s id frame rest outcome) :
    ∃ code, s.stack = .coroutine id code :: rest := by
  cases hends with
  | value hstack _ _ => exact ⟨_, hstack⟩
  | exception hstack _ _ => exact ⟨_, hstack⟩

theorem Ends.frame
    {s : Scheduler P} {id : FrameId} {frame : Frame P}
    {rest : List (Activation P)} {outcome : P.Outcome}
    (hends : Ends s id frame rest outcome) :
    s.heap.frames id = some frame := by
  cases hends with
  | value _ hframe _ => exact hframe
  | exception _ hframe _ => exact hframe

/-- The stack keeps its shape in every step. -/
theorem Move.wellStacked
    {s next : Scheduler P} {label : Label P} (hmove : Move s label next)
    (hwell : WellStacked s.stack) : WellStacked next.stack := by
  cases hmove with
  | leaveRun hstack _ | leaveShutdown hstack _ | destructor hstack
  | reap hstack | endLoop hstack | endInbox hstack | endJob hstack _
  | eventfdWrite hstack =>
      rw [hstack] at hwell
      exact hwell.2
  | loopRun hstack _ | loopShutdown hstack _ =>
      rw [hstack] at hwell
      exact ⟨⟨_, rfl⟩, ⟨_, by simp; rfl⟩, hwell⟩
  | armedStart hstack _ | arm hstack _ | wake hstack _ | scan hstack
  | enter hstack _ _ _ | handleNull hstack _ _ | handleDangling hstack _ _ _
  | resumed hstack | inboxDone hstack =>
      rw [hstack] at hwell
      exact hwell
  | handleSentinel hstack _ _ =>
      rw [hstack] at hwell
      exact ⟨⟨_, _, _, rfl⟩, hwell⟩
  | handleAwaitable hstack _ _ _ _ _ _ _ _ =>
      rw [hstack] at hwell
      exact ⟨.inr (.inr ⟨_, _, _, rfl⟩), hwell⟩
  | swapInbox hstack =>
      rw [hstack] at hwell
      exact hwell
  | invoke hstack =>
      rw [hstack] at hwell
      exact ⟨⟨_, _, rfl⟩, hwell⟩
  | requeue hstack _ =>
      rw [hstack] at hwell
      obtain ⟨⟨batch, rest, rfl⟩, hrest⟩ := hwell
      exact ⟨⟨_, .inr (.inl ⟨_, rfl⟩)⟩, hrest⟩
  | escape _ _ => trivial
  | post hcall =>
      cases hcall with
      | job hstack _ =>
          rw [hstack] at hwell
          exact ⟨⟨_, .inl ⟨_, _, rfl⟩⟩, hwell⟩
      | coroutine hstack _ _ =>
          rw [hstack] at hwell
          exact ⟨⟨_, .inr (.inr ⟨_, _, rfl⟩)⟩, hwell⟩
  | spawnFull hcall _ hdeliver => exact (hcall.wellStacked hwell).2.2 _ _ hdeliver
  | spawnStart hcall _ =>
      obtain ⟨hbelow, hstands, -⟩ := hcall.wellStacked hwell
      exact ⟨.inr (.inl ⟨_, _, rfl⟩), hstands _, hbelow⟩
  | spawnRefused hstack _ hdeliver | spawnAccepted hstack _ hdeliver
  | spawnBadAlloc hstack _ hdeliver =>
      rw [hstack] at hwell
      exact wellStacked_of_deliver hwell hdeliver
  | effect hstack _ _ | refused hstack _ _ _ _ | awaitTask hstack _ _ =>
      rw [hstack] at hwell
      exact hwell
  | stage hstack _ _ _ _ =>
      rw [hstack] at hwell
      exact hwell.2
  | endRoot hends _ =>
      obtain ⟨code, hstack⟩ := hends.stack
      rw [hstack] at hwell
      exact hwell.2
  | endInner hends _ _ =>
      obtain ⟨code, hstack⟩ := hends.stack
      rw [hstack] at hwell
      exact hwell
  | endAstray _ _ _ | astray _ _ | complete _ _ _
  | enqueue _ | notify _ | requestStop _ _ | stopCallback _ _ _ | dropTask _
  | foreignRefusal _ | callDestroy _ _ _ => exact hwell
  | callResume _ _ => exact ⟨.inl rfl, trivial⟩
  | callRun _ _ => exact ⟨rfl, trivial⟩
  | callShutdown _ _ => exact ⟨.inl rfl, trivial⟩
  | callDestroyBusy _ _ _ => exact ⟨.inr rfl, rfl, trivial⟩

end Scheduler

/-! ## Entries into `shutdown` and `spawn` -/

/-- The calls whose entry leaves a trace in the state. -/
def Activation.isEntry : Activation P → Bool
  | .shutdown | .spawn _ => true
  | _ => false

namespace Scheduler

theorem CallsSpawn.mem_stack
    {s : Scheduler P} {label : Label P} {body : P.Code}
    {below : List (Activation P)} (hcall : CallsSpawn s label body below)
    {act : Activation P} (hact : act.isEntry = true) (hmem : act ∈ below) :
    act ∈ s.stack := by
  cases hcall with
  | job hstack _ | coroutine hstack _ _ =>
      rw [hstack]
      rcases List.mem_cons.mp hmem with rfl | hrest
      · simp [Activation.isEntry] at hact
      · exact List.mem_cons_of_mem _ hrest
  | client _ _ => simp at hmem

theorem mem_of_deliver
    {status : Option ErrorStatus} {below stack : List (Activation P)}
    (hdeliver : deliver status below = some stack) {act : Activation P}
    (hact : act.isEntry = true) (hmem : act ∈ stack) : act ∈ below := by
  unfold deliver at hdeliver
  split at hdeliver
  all_goals simp at hdeliver
  all_goals subst hdeliver
  · exact hmem
  all_goals
    rcases List.mem_cons.mp hmem with rfl | hrest
    · simp [Activation.isEntry] at hact
    · exact List.mem_cons_of_mem _ hrest

/-- `shutdown` is entered with the flag set, `spawn` with a record of the first
resumption; no other step puts one of them on the stack. -/
theorem Move.entered
    {s next : Scheduler P} {label : Label P} (hmove : Move s label next)
    {act : Activation P} (hact : act.isEntry = true) (hmem : act ∈ next.stack) :
    act ∈ s.stack ∨ (act = .shutdown ∧ next.shuttingDown = true) ∨
      ∃ task origin, act = .spawn task ∧ next.log = s.log ++ [.started task origin] := by
  have hkept : ∀ {old : Activation P} {rest : List (Activation P)}
      (top : List (Activation P)), s.stack = old :: rest →
      (∀ new ∈ top, new.isEntry = false) → act ∈ top ++ rest → act ∈ s.stack := by
    intro old rest top hstack htop hact'
    rcases List.mem_append.mp hact' with hnew | hrest
    · simp [htop act hnew] at hact
    · rw [hstack]
      exact List.mem_cons_of_mem _ hrest
  cases hmove with
  | leaveRun hstack _ | leaveShutdown hstack _ | destructor hstack | reap hstack
  | endLoop hstack | endInbox hstack | endJob hstack _ | eventfdWrite hstack
  | stage hstack _ _ _ _ => exact .inl (hkept [] hstack (by simp) hmem)
  | loopRun hstack _ =>
      exact .inl (hkept [.drain .start, .reap, .run] hstack (by simp [Activation.isEntry]) hmem)
  | loopShutdown hstack _ =>
      left
      simp only [List.mem_cons] at hmem
      rcases hmem with rfl | rfl | hold
      · simp [Activation.isEntry] at hact
      · simp [Activation.isEntry] at hact
      · rw [hstack]
        exact List.mem_cons.mpr hold
  | armedStart hstack _ | arm hstack _ | enter hstack _ _ _ | wake hstack _
  | scan hstack | handleNull hstack _ _ | handleDangling hstack _ _ _
  | resumed hstack | inboxDone hstack =>
      exact .inl (hkept [.drain _] hstack (by simp [Activation.isEntry]) hmem)
  | handleSentinel hstack _ _ =>
      exact .inl (hkept [.swapInbox, .drain _] hstack (by simp [Activation.isEntry]) hmem)
  | handleAwaitable hstack _ _ _ _ _ _ _ _ =>
      exact .inl (hkept [.coroutine _ _, .drain _] hstack (by simp [Activation.isEntry]) hmem)
  | swapInbox hstack =>
      exact .inl (hkept [.drainInbox _] hstack (by simp [Activation.isEntry]) hmem)
  | invoke hstack =>
      exact .inl (hkept [.job _ _, .drainInbox _] hstack (by simp [Activation.isEntry]) hmem)
  | requeue hstack _ =>
      exact .inl (hkept [.eventfdWrite] hstack (by simp [Activation.isEntry]) hmem)
  | post hcall =>
      cases hcall with
      | job hstack _ =>
          exact .inl (hkept [.eventfdWrite, .job _ _] hstack
            (by simp [Activation.isEntry]) hmem)
      | coroutine hstack _ _ =>
          exact .inl (hkept [.eventfdWrite, .coroutine _ _] hstack
            (by simp [Activation.isEntry]) hmem)
  | effect hstack _ _ | refused hstack _ _ _ _ | awaitTask hstack _ _ =>
      exact .inl (hkept [.coroutine _ _] hstack (by simp [Activation.isEntry]) hmem)
  | endRoot hends _ =>
      obtain ⟨code, hstack⟩ := hends.stack
      exact .inl (hkept [] hstack (by simp) hmem)
  | endInner hends _ _ =>
      obtain ⟨code, hstack⟩ := hends.stack
      exact .inl (hkept [.coroutine _ _] hstack (by simp [Activation.isEntry]) hmem)
  | spawnFull hcall _ hdeliver =>
      exact .inl (hcall.mem_stack hact (mem_of_deliver hdeliver hact hmem))
  | spawnStart hcall _ =>
      simp only [List.mem_cons] at hmem
      rcases hmem with rfl | rfl | hbelow
      · simp [Activation.isEntry] at hact
      · exact .inr (.inr ⟨_, _, rfl, rfl⟩)
      · exact .inl (hcall.mem_stack hact hbelow)
  | spawnRefused hstack _ hdeliver | spawnAccepted hstack _ hdeliver
  | spawnBadAlloc hstack _ hdeliver =>
      left
      rw [hstack]
      exact List.mem_cons_of_mem _ (mem_of_deliver hdeliver hact hmem)
  | escape _ _ => simp at hmem
  | callResume _ _ | callRun _ _ =>
      rw [List.mem_singleton.mp hmem] at hact
      simp [Activation.isEntry] at hact
  | callShutdown _ _ => exact .inr (.inl ⟨List.mem_singleton.mp hmem, rfl⟩)
  | callDestroyBusy _ _ _ =>
      simp only [List.mem_cons, List.not_mem_nil, or_false] at hmem
      rcases hmem with rfl | rfl
      · exact .inr (.inl ⟨rfl, rfl⟩)
      · simp [Activation.isEntry] at hact
  | endAstray _ _ _ | astray _ _ | complete _ _ _ | enqueue _ | notify _
  | requestStop _ _ | stopCallback _ _ _ | dropTask _ | foreignRefusal _
  | callDestroy _ _ _ => exact .inl hmem

end Scheduler

/-! ## The active `drain` -/

/-- The program points of the active `drain` calls, innermost first. -/
def drainPoints : List (Activation P) → List DrainPoint
  | [] => []
  | .drain point :: rest => point :: drainPoints rest
  | _ :: rest => drainPoints rest

theorem stack_below_drain
    {point : DrainPoint} {rest : List (Activation P)}
    (hwell : WellStacked (.drain point :: rest)) :
    rest = [.reap, .run] ∨ rest = [.reap, .shutdown] ∨
      rest = [.reap, .shutdown, .destructor] := by
  obtain ⟨⟨base, rfl⟩, ⟨loop, hloop⟩, hbase⟩ := hwell
  rcases hloop with rfl | rfl
  · obtain ⟨hnil, -⟩ := hbase
    have : loop = [] := hnil
    exact .inl (by rw [this])
  · obtain ⟨hnil, -⟩ := hbase
    rcases hnil with rfl | rfl
    · exact .inr (.inl rfl)
    · exact .inr (.inr rfl)

theorem drainPoints_below
    {point : DrainPoint} {rest : List (Activation P)}
    (hwell : WellStacked (.drain point :: rest)) : drainPoints rest = [] := by
  rcases stack_below_drain hwell with rfl | rfl | rfl <;> rfl

theorem waiting_on_top
    {stack : List (Activation P)} (hwell : WellStacked stack)
    (hmem : .waiting ∈ drainPoints stack) :
    ∃ rest, stack = .drain .waiting :: rest := by
  induction stack with
  | nil => simp [drainPoints] at hmem
  | cons act rest ih =>
      cases act with
      | drain point =>
          simp only [drainPoints, drainPoints_below hwell, List.mem_singleton] at hmem
          exact ⟨rest, by rw [hmem]⟩
      | _ =>
          obtain ⟨below, rfl⟩ := ih hwell.2 hmem
          simp [WellStacked, Activation.StandsOn] at hwell

end SlimCommonIo
