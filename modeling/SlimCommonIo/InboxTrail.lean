import SlimCommonIo.RingSteps

/-!
# The trail of the inbox

The callables which have been invoked, those of the batch being drained and
those in the inbox, one after the other, are the callables pushed so far in the
order of the pushes: a drain takes the whole inbox, and it takes a new one only
after the batch before is used up.  An exception other than `IOException` is
the one step that breaks this, as it destroys the batch.
-/

namespace SlimCommonIo

variable {P : Program}

/-- The callables which the active `drain_inbox` has still to invoke. -/
def batches : List (Activation P) → List (Posted P)
  | [] => []
  | .drainInbox batch :: rest => batch ++ batches rest
  | _ :: rest => batches rest

/-- The callable which the active `drain_inbox` is executing. -/
def underway : List (Activation P) → List (Posted P)
  | [] => []
  | .job entry _ :: rest => entry :: underway rest
  | .jobInSpawn entry _ :: rest => entry :: underway rest
  | _ :: rest => underway rest

def Event.invokedEntry : Event P → Option (Posted P)
  | .invoked entry => some entry
  | _ => none

theorem nothing_below_drain
    {point : DrainPoint} {rest : List (Activation P)}
    (hwell : WellStacked (.drain point :: rest)) : batches rest = [] ∧ underway rest = [] := by
  rcases stack_below_drain hwell with rfl | rfl | rfl
  all_goals exact ⟨rfl, rfl⟩

theorem underway_below_drainInbox
    {batch : List (Posted P)} {rest : List (Activation P)}
    (hwell : WellStacked (.drainInbox batch :: rest)) : underway rest = [] := by
  obtain ⟨⟨current, tail, below, rfl⟩, hdrain⟩ := hwell
  exact (nothing_below_drain hdrain).2

theorem pending_deliver
    {status : Option ErrorStatus} {below stack : List (Activation P)}
    (hdeliver : Scheduler.deliver status below = some stack) :
    batches stack = batches below ∧ underway stack = underway below := by
  unfold Scheduler.deliver at hdeliver
  split at hdeliver
  all_goals simp at hdeliver
  all_goals subst hdeliver
  all_goals exact ⟨rfl, rfl⟩

namespace Scheduler

def invoked (s : Scheduler P) : List (Posted P) :=
  s.log.filterMap Event.invokedEntry

def returned (s : Scheduler P) : List (Posted P) :=
  s.invoked.take (s.invoked.length - (underway s.stack).length)

/-- All callables ever pushed into the inbox, in order. -/
def trail (s : Scheduler P) : List (Posted P) :=
  s.invoked ++ (batches s.stack ++ s.inbox)

/-- The callable being executed is about to throw. -/
def throwing (s : Scheduler P) : Bool :=
  match s.stack with
  | .job _ code :: _ =>
      match P.job code with
      | .throwIoException _ | .throwOther => true
      | _ => false
  | _ => false

theorem throwing_of_job
    {s : Scheduler P} {entry : Posted P} {code : P.Job} {rest : List (Activation P)}
    (hstack : s.stack = .job entry code :: rest)
    (hcode : P.job code = .throwOther ∨ ∃ status, P.job code = .throwIoException status) :
    s.throwing = true := by
  rcases hcode with hcode | ⟨status, hcode⟩ <;> simp [throwing, hstack, hcode]

theorem CallsSpawn.pending_eq
    {s : Scheduler P} {label : Label P} {body : P.Code}
    {below : List (Activation P)} (hcall : CallsSpawn s label body below) :
    batches below = batches s.stack ∧ underway below = underway s.stack := by
  cases hcall with
  | job hstack _ => rw [hstack]; exact ⟨rfl, rfl⟩
  | coroutine hstack _ _ => rw [hstack]; exact ⟨rfl, rfl⟩
  | client hstack _ => rw [hstack]; exact ⟨rfl, rfl⟩

/-- What a step does to the inbox while no callable throws. -/
inductive TrailStep (s : Scheduler P) (label : Label P) (next : Scheduler P) : Prop
  | same (hlabel : ∀ job, label ≠ .enqueue job)
      (hinvoked : next.invoked = s.invoked)
      (hpending : batches next.stack ++ next.inbox = batches s.stack ++ s.inbox)
      (hunderway : underway next.stack = underway s.stack ∨ underway next.stack = [])
      (hpost : next.nextPost = s.nextPost)
  | push (fn : P.Job)
      (hcause : label = .enqueue fn ∨
        (∃ allocated, label = .runner allocated) ∧ ∃ below, CallsPost s fn below)
      (hinvoked : next.invoked = s.invoked)
      (hbatches : batches next.stack = batches s.stack)
      (hunderway : underway next.stack = underway s.stack)
      (hinbox : next.inbox = s.inbox ++ [⟨s.nextPost, s.nextPost, fn⟩])
      (hpost : next.nextPost = s.nextPost + 1)
  | invoke (entry : Posted P) (rest : List (Posted P))
      (hlabel : ∀ job, label ≠ .enqueue job)
      (hbefore : batches s.stack = entry :: rest)
      (hafter : batches next.stack = rest) (hunderway : underway next.stack = [entry])
      (hinvoked : next.invoked = s.invoked ++ [entry])
      (hinbox : next.inbox = s.inbox) (hpost : next.nextPost = s.nextPost)

theorem Move.trailStep
    {s next : Scheduler P} {label : Label P} (hmove : Move s label next)
    (hwell : WellStacked s.stack) (hnormal : s.throwing = false) :
    TrailStep s label next := by
  cases hmove with
  | leaveRun hstack _ | loopRun hstack _ | leaveShutdown hstack _ | loopShutdown hstack _
  | destructor hstack | reap hstack | armedStart hstack _ | arm hstack _
  | enter hstack _ _ _ | scan hstack | endLoop hstack | handleSentinel hstack _ _
  | handleNull hstack _ _ | handleDangling hstack _ _ _ | resumed hstack
  | inboxDone hstack | endInbox hstack | eventfdWrite hstack
  | awaitTask hstack _ _ | stage hstack _ _ _ _ =>
      exact .same (by simp) rfl (by rw [hstack]; rfl) (.inl (by rw [hstack]; rfl)) rfl
  | endJob hstack _ =>
      rw [hstack] at hwell
      obtain ⟨⟨batch, below, rfl⟩, hinbox⟩ := hwell
      exact .same (by simp) rfl (by rw [hstack]; rfl)
        (.inr (by simpa [underway] using underway_below_drainInbox hinbox)) rfl
  | wake hstack hlabel =>
      refine .same ?_ rfl (by rw [hstack]; rfl) (.inl (by rw [hstack]; rfl)) rfl
      rcases hlabel with rfl | ⟨allocated, rfl⟩ <;> simp
  | handleAwaitable hstack _ _ _ _ _ _ _ _ =>
      exact .same (by simp) (by simp [invoked, afterResume, Event.invokedEntry])
        (by rw [hstack]; rfl) (.inl (by rw [hstack]; rfl)) rfl
  | effect hstack _ _ | refused hstack _ _ _ _ =>
      exact .same (by simp) (by simp [invoked, Event.invokedEntry]) (by rw [hstack]; rfl)
        (.inl (by rw [hstack]; rfl)) rfl
  | swapInbox hstack =>
      -- the batch before is used up when the inbox is swapped
      rw [hstack] at hwell
      obtain ⟨⟨current, tail, below, rfl⟩, hdrain⟩ := hwell
      refine .same (by simp) rfl ?_ (.inl (by rw [hstack]; rfl)) rfl
      simp [hstack, batches, (nothing_below_drain hdrain).1]
  | @invoke _ rest entry batch hstack =>
      rw [hstack] at hwell
      refine .invoke entry (batch ++ batches rest) (by simp) ?_ rfl ?_ ?_ rfl rfl
      · rw [hstack]
        rfl
      · simp [underway, underway_below_drainInbox hwell]
      · simp [invoked, Event.invokedEntry]
  | requeue hstack hcode =>
      simp [throwing_of_job hstack (.inr ⟨_, hcode⟩)] at hnormal
  | escape hstack hcode => simp [throwing_of_job hstack (.inl hcode)] at hnormal
  | @post _ job below hcall =>
      have hcause : ∃ below, CallsPost s job below := ⟨_, hcall⟩
      cases hcall with
      | job hstack _ | coroutine hstack _ _ =>
          exact .push job (.inr ⟨⟨_, rfl⟩, hcause⟩) rfl (by rw [hstack]; rfl)
            (by rw [hstack]; rfl) rfl rfl
  | spawnFull hcall _ hdeliver =>
      obtain ⟨hbatches, hunderway⟩ := pending_deliver hdeliver
      refine .same ?_ (by simp [invoked, Event.invokedEntry]) ?_
        (.inl (hunderway.trans hcall.pending_eq.2)) rfl
      · cases hcall <;> simp
      · exact congrArg (· ++ s.inbox) (hbatches.trans hcall.pending_eq.1)
  | spawnStart hcall _ =>
      refine .same ?_ (by simp [invoked, Event.invokedEntry]) ?_ (.inl hcall.pending_eq.2) rfl
      · cases hcall <;> simp
      · exact congrArg (· ++ s.inbox) hcall.pending_eq.1
  | spawnRefused hstack _ hdeliver | spawnAccepted hstack _ hdeliver
  | spawnBadAlloc hstack _ hdeliver =>
      obtain ⟨hbatches, hunderway⟩ := pending_deliver hdeliver
      refine .same (by simp) (by simp [invoked, Event.invokedEntry]) ?_
        (.inl (hunderway.trans (by rw [hstack]; rfl))) rfl
      refine congrArg (· ++ s.inbox) (hbatches.trans ?_)
      rw [hstack]
      rfl
  | endRoot hends _ | endInner hends _ _ =>
      obtain ⟨code, hstack⟩ := hends.stack
      exact .same (by simp) (by simp [invoked, Event.invokedEntry]) (by rw [hstack]; rfl)
        (.inl (by rw [hstack]; rfl)) rfl
  | endAstray _ _ _ =>
      exact .same (by simp) (by simp [invoked, Event.invokedEntry]) rfl (.inl rfl) rfl
  | astray _ _ | complete _ _ _ | notify _ | requestStop _ _ | stopCallback _ _ _
  | dropTask _ | foreignRefusal _ | callDestroy _ _ _ =>
      exact .same (by simp) rfl rfl (.inl rfl) rfl
  | enqueue _ => exact .push _ (.inl rfl) rfl rfl rfl rfl rfl
  | callResume hstack _ | callRun hstack _ | callShutdown hstack _
  | callDestroyBusy hstack _ _ =>
      exact .same (by simp) rfl (by rw [hstack]; rfl) (.inl (by rw [hstack]; rfl)) rfl

theorem TrailStep.trail_eq
    {s next : Scheduler P} {label : Label P} (hstep : TrailStep s label next) :
    (next.trail = s.trail ∧ next.nextPost = s.nextPost ∧ ∀ job, label ≠ .enqueue job) ∨
      ∃ fn, next.trail = s.trail ++ [⟨s.nextPost, s.nextPost, fn⟩] ∧
        next.nextPost = s.nextPost + 1 ∧ (label = .enqueue fn ∨
          (∃ allocated, label = .runner allocated) ∧ ∃ below, CallsPost s fn below) := by
  cases hstep with
  | same hlabel hinvoked hpending _ hpost =>
      exact .inl ⟨by rw [trail, trail, hinvoked, hpending], hpost, hlabel⟩
  | push fn hcause hinvoked hbatches _ hinbox hpost =>
      refine .inr ⟨fn, ?_, hpost, hcause⟩
      rw [trail, trail, hinvoked, hbatches, hinbox]
      simp
  | invoke entry rest hlabel hbefore hafter _ hinvoked hinbox hpost =>
      refine .inl ⟨?_, hpost, hlabel⟩
      rw [trail, trail, hinvoked, hbefore, hafter, hinbox]
      simp

theorem TrailStep.underway_suffix
    {s next : Scheduler P} {label : Label P} (hstep : TrailStep s label next)
    (hlast : underway s.stack <:+ s.invoked) : underway next.stack <:+ next.invoked := by
  cases hstep with
  | same _ hinvoked _ hunderway _ =>
      rw [hinvoked]
      rcases hunderway with hsame | hnone
      · rw [hsame]
        exact hlast
      · rw [hnone]
        exact List.nil_suffix
  | push _ _ hinvoked _ hunderway _ _ =>
      rw [hinvoked, hunderway]
      exact hlast
  | invoke entry _ _ _ _ hunderway hinvoked _ _ =>
      rw [hinvoked, hunderway]
      exact List.suffix_append _ _

/-- The trail numbers the callables in the order of the pushes. -/
structure Numbered (s : Scheduler P) : Prop where
  ids : s.trail.map Posted.id = List.range s.nextPost
  origins : ∀ entry ∈ s.trail, entry.origin = entry.id
  last : underway s.stack <:+ s.invoked

theorem Numbered.initial
    (io : IoState) (fd : Int32) (addr : UInt64) :
    Numbered (Scheduler.initial P io fd addr) := by
  constructor <;> simp [Scheduler.initial, trail, invoked, batches, underway]

theorem Numbered.step
    {s next : Scheduler P} {label : Label P} (hnumbered : Numbered s)
    (hstep : TrailStep s label next) : Numbered next := by
  have hlast := hstep.underway_suffix hnumbered.last
  rcases hstep.trail_eq with ⟨htrail, hpost, -⟩ | ⟨fn, htrail, hpost, -⟩
  · exact ⟨by rw [htrail, hpost]; exact hnumbered.ids,
      by rw [htrail]; exact hnumbered.origins, hlast⟩
  · refine ⟨?_, ?_, hlast⟩
    · rw [htrail, hpost, List.map_append, hnumbered.ids, List.range_succ]
      rfl
    · rw [htrail]
      intro entry hentry
      rcases List.mem_append.mp hentry with hold | hnew
      · exact hnumbered.origins entry hold
      · rw [List.mem_singleton.mp hnew]

theorem Numbered.returned_append
    {s : Scheduler P} (hnumbered : Numbered s) :
    s.returned ++ underway s.stack = s.invoked := by
  obtain ⟨before, hbefore⟩ := hnumbered.last
  rw [returned, ← hbefore]
  simp

theorem Numbered.lt
    {s : Scheduler P} (hnumbered : Numbered s) {entry : Posted P}
    (hentry : entry ∈ s.trail) : entry.id < s.nextPost := by
  rw [← List.mem_range, ← hnumbered.ids]
  exact List.mem_map_of_mem hentry

/-- A callable's number is its position in the trail. -/
theorem Numbered.getElem?_id
    {s : Scheduler P} (hnumbered : Numbered s) {entry : Posted P}
    (hentry : entry ∈ s.trail) : s.trail[entry.id]? = some entry := by
  obtain ⟨position, hposition⟩ := List.mem_iff_getElem?.mp hentry
  have hid : (s.trail.map Posted.id)[position]? = some entry.id := by
    rw [List.getElem?_map, hposition]
    rfl
  have hlt : position < s.nextPost := by
    rw [hnumbered.ids] at hid
    simpa using (List.getElem?_eq_some_iff.mp hid).1
  rw [hnumbered.ids, List.getElem?_range hlt, Option.some.injEq] at hid
  rw [← hid, hposition]

end Scheduler

end SlimCommonIo
