import SlimCommonIo.FrameSteps

/-!
# Retrying a callable after a full ring

`drain_inbox` invokes a callable again whenever it threw `SQFull`.  `spawn`
throws it at two places: before `handle.resume()`, when nothing of the task has
run, and after it, when the task's body has run up to its first suspension.
Only the first of them makes the retry harmless.
-/

namespace SlimCommonIo

variable {P : Program}

/-! ## Callables which spawn one task -/

/-- The callable lets an exception of `spawn` through and does nothing more
after it returned. -/
def PassesOn (next : Option ErrorStatus → P.Job) : Prop :=
  P.job (next none) = .ret ∧ ∀ status, P.job (next (some status)) = .throwIoException status

def BuildsAndSpawns (fn : P.Job) : Prop :=
  ∃ body next, P.job fn = .spawn body next ∧ PassesOn next

/-- A callable at this point is going to spawn its task, or to be requeued. -/
def JobInstr.mayStart {Code Job : Type} : JobInstr Code Job → ℕ
  | .spawn _ _ => 1
  | .throwIoException .sqFull => 1
  | _ => 0

theorem JobInstr.mayStart_le_one
    {Code Job : Type} (instr : JobInstr Code Job) : instr.mayStart ≤ 1 := by
  unfold mayStart
  split <;> omega

namespace Activation

/-- The starts an activation has in store for the callable of one `post`. -/
def mayStart (origin : ℕ) : Activation P → ℕ
  | .drainInbox batch => batch.countP fun entry => entry.origin == origin
  | .job entry code => if entry.origin = origin then (P.job code).mayStart else 0
  | _ => 0

/-- Where the callable of this `post` stands in the stack, it is one which
builds a task and spawns it. -/
def SpawnsOnly (origin : ℕ) : Activation P → Prop
  | .drainInbox batch => ∀ entry ∈ batch, entry.origin = origin → BuildsAndSpawns entry.fn
  | .job entry code => entry.origin = origin →
      BuildsAndSpawns code ∨ P.job code = .ret ∨
        ∃ status, P.job code = .throwIoException status
  | .jobInSpawn entry next => entry.origin = origin → PassesOn next
  | _ => True

theorem SpawnsOnly.passesOn
    {origin : ℕ} {entry : Posted P} {code : P.Job}
    {body : P.Code} {next : Option ErrorStatus → P.Job}
    (hshape : (Activation.job entry code).SpawnsOnly origin)
    (horigin : entry.origin = origin) (hcode : P.job code = .spawn body next) :
    PassesOn next := by
  rcases hshape horigin with ⟨_, _, hspawn, hpasses⟩ | hret | ⟨status, hthrow⟩
  · rw [hcode, JobInstr.spawn.injEq] at hspawn
    rw [hspawn.2]
    exact hpasses
  · simp [hcode] at hret
  · simp [hcode] at hthrow

end Activation

def stackStarts (origin : ℕ) (stack : List (Activation P)) : ℕ :=
  (stack.map (Activation.mayStart origin)).sum

@[simp]
theorem stackStarts_nil (origin : ℕ) :
    stackStarts (P := P) origin [] = 0 := rfl

@[simp]
theorem stackStarts_cons
    (origin : ℕ) (act : Activation P) (rest : List (Activation P)) :
    stackStarts origin (act :: rest) = act.mayStart origin + stackStarts origin rest := by
  simp [stackStarts]

theorem stackStarts_append
    (origin : ℕ) (top rest : List (Activation P)) :
    stackStarts origin (top ++ rest) = stackStarts origin top + stackStarts origin rest := by
  simp [stackStarts]

def Event.startsFor (origin : ℕ) : Event P → Bool
  | .started _ (some other) => other == origin
  | _ => false

namespace Scheduler

/-- How often a task of the callable of this `post` has been resumed for the
first time. -/
def starts (s : Scheduler P) (origin : ℕ) : ℕ :=
  s.log.countP (Event.startsFor origin)

/-- How often the callable of this `post` is still in the inbox or on the
stack before its start. -/
def unstarted (s : Scheduler P) (origin : ℕ) : ℕ :=
  (s.inbox.countP fun entry => entry.origin == origin) + stackStarts origin s.stack

/-- If `spawn` is about to continue after `handle.resume()`, no refusal is
waiting to be taken. -/
def resumedUnrefused (s : Scheduler P) (label : Label P) : Bool :=
  match label, s.stack with
  | .runner _, .spawn _ :: _ => !s.tlSqFull
  | _, _ => true

end Scheduler

/-- The callable of a `post` has been started or is in store, once at most. -/
structure RetryInvariant (origin : ℕ) (s : Scheduler P) : Prop where
  once : s.starts origin + s.unstarted origin ≤ 1
  fresh : s.nextPost ≤ origin → s.starts origin + s.unstarted origin = 0
  shape : ∀ act ∈ s.stack, act.SpawnsOnly origin

namespace RetryInvariant

theorem initial
    (origin : ℕ) (io : IoState) (fd : Int32) (addr : UInt64) :
    RetryInvariant origin (Scheduler.initial P io fd addr) := by
  constructor <;> simp [Scheduler.initial, Scheduler.starts, Scheduler.unstarted]

theorem congr
    {origin : ℕ} {s next : Scheduler P} (hinv : RetryInvariant origin s)
    (hstarts : next.starts origin = s.starts origin) (hinbox : next.inbox = s.inbox)
    (hpost : next.nextPost = s.nextPost)
    (hsum : stackStarts origin next.stack ≤ stackStarts origin s.stack)
    (hshape : ∀ act ∈ next.stack, act.SpawnsOnly origin) :
    RetryInvariant origin next := by
  have honce := hinv.once
  have hfresh := hinv.fresh
  refine ⟨?_, ?_, hshape⟩ <;> simp only [Scheduler.unstarted] at honce hfresh ⊢ <;>
    rw [hstarts, hinbox]
  · omega
  · rw [hpost]
    omega

theorem push
    {origin : ℕ} {s : Scheduler P} (hinv : RetryInvariant origin s)
    (job : P.Job) (stack : List (Activation P)) (unnotified : List ℕ)
    (hsum : stackStarts origin stack ≤ stackStarts origin s.stack)
    (hshape : ∀ act ∈ stack, act.SpawnsOnly origin) :
    RetryInvariant origin
      { s.pushInbox s.nextPost job with stack := stack, unnotified := unnotified } := by
  have honce := hinv.once
  have hfresh := hinv.fresh
  refine ⟨?_, ?_, hshape⟩ <;>
    simp only [Scheduler.unstarted, Scheduler.starts, Scheduler.pushInbox,
      List.countP_append, List.countP_singleton, beq_iff_eq] at honce hfresh ⊢
  · split <;> omega
  · intro hlater
    rw [if_neg (by omega)]
    omega

theorem exchange
    {origin : ℕ} {s next : Scheduler P} (hinv : RetryInvariant origin s)
    {act : Activation P} (top : List (Activation P)) {rest : List (Activation P)}
    (hstack : s.stack = act :: rest) (hnext : next.stack = top ++ rest)
    (hstarts : next.starts origin = s.starts origin) (hinbox : next.inbox = s.inbox)
    (hpost : next.nextPost = s.nextPost)
    (hsum : stackStarts origin top ≤ act.mayStart origin)
    (hshape : act.SpawnsOnly origin → ∀ new ∈ top, new.SpawnsOnly origin) :
    RetryInvariant origin next := by
  have hold := hinv.shape
  rw [hstack, List.forall_mem_cons] at hold
  refine hinv.congr hstarts hinbox hpost ?_ ?_
  · rw [hstack, hnext]
    simp only [stackStarts_cons, stackStarts_append]
    omega
  · rw [hnext]
    intro new hnew
    rcases List.mem_append.mp hnew with htop | hrest
    · exact hshape hold.1 new htop
    · exact hold.2 new hrest

theorem deliver
    {origin : ℕ} {below stack : List (Activation P)} {status : Option ErrorStatus}
    (hdeliver : Scheduler.deliver status below = some stack)
    (hstatus : status ≠ some .sqFull)
    (hshape : ∀ act ∈ below, act.SpawnsOnly origin) :
    stackStarts origin stack = stackStarts origin below ∧
      ∀ act ∈ stack, act.SpawnsOnly origin := by
  unfold Scheduler.deliver at hdeliver
  split at hdeliver
  next =>
    simp at hdeliver
    subst hdeliver
    simp
  next entry after rest =>
    simp at hdeliver
    subst hdeliver
    rw [List.forall_mem_cons] at hshape ⊢
    have hpasses := hshape.1
    constructor
    · simp only [stackStarts_cons, Activation.mayStart, Nat.add_right_cancel_iff]
      split
      next horigin =>
        obtain ⟨hret, hthrow⟩ := hpasses horigin
        cases status with
        | none => simp [hret, JobInstr.mayStart]
        | some status =>
            cases status <;> simp_all [JobInstr.mayStart]
      next => rfl
    · refine ⟨?_, hshape.2⟩
      intro horigin
      obtain ⟨hret, hthrow⟩ := hpasses horigin
      cases status with
      | none => exact .inr (.inl hret)
      | some status => exact .inr (.inr ⟨status, hthrow status⟩)
  next =>
    simp at hdeliver
    subst hdeliver
    rw [List.forall_mem_cons] at hshape ⊢
    exact ⟨rfl, trivial, hshape.2⟩
  next => simp at hdeliver

theorem requeue
    {origin : ℕ} {s : Scheduler P} (hinv : RetryInvariant origin s)
    {entry : Posted P} {code : P.Job} {rest : List (Activation P)}
    (hstack : s.stack = .job entry code :: rest)
    (hcode : P.job code = .throwIoException .sqFull) :
    RetryInvariant origin
      { s.pushInbox entry.origin entry.fn with stack := .eventfdWrite :: rest } := by
  have honce := hinv.once
  have hfresh := hinv.fresh
  have hshape := hinv.shape
  rw [hstack, List.forall_mem_cons] at hshape
  -- the start in store moves from the stack to the inbox
  have hcount : Scheduler.unstarted
      { s.pushInbox entry.origin entry.fn with stack := .eventfdWrite :: rest } origin =
      s.unstarted origin := by
    simp only [Scheduler.unstarted, Scheduler.pushInbox, hstack, stackStarts_cons,
      Activation.mayStart, hcode, JobInstr.mayStart, List.countP_append,
      List.countP_singleton, beq_iff_eq]
    omega
  refine ⟨?_, ?_, ?_⟩
  · rw [hcount]
    exact honce
  · rw [hcount]
    intro hlater
    exact hfresh (Nat.le_of_succ_le hlater)
  · rw [List.forall_mem_cons]
    exact ⟨trivial, hshape.2⟩

theorem swapInbox
    {origin : ℕ} {s : Scheduler P} (hinv : RetryInvariant origin s)
    {rest : List (Activation P)} (hstack : s.stack = .swapInbox :: rest)
    (hinbox : ∀ entry ∈ s.inbox, entry.origin = origin → BuildsAndSpawns entry.fn) :
    RetryInvariant origin
      { s with inbox := [], stack := .drainInbox s.inbox :: rest } := by
  have hshape := hinv.shape
  rw [hstack, List.forall_mem_cons] at hshape
  have hcount : Scheduler.unstarted
      { s with inbox := [], stack := .drainInbox s.inbox :: rest } origin =
      s.unstarted origin := by
    simp [Scheduler.unstarted, hstack, Activation.mayStart]
  refine ⟨?_, ?_, ?_⟩
  · rw [hcount]
    exact hinv.once
  · rw [hcount]
    exact hinv.fresh
  · rw [List.forall_mem_cons]
    exact ⟨hinbox, hshape.2⟩

theorem spawnFull
    {origin : ℕ} {s next : Scheduler P} (hinv : RetryInvariant origin s)
    {label : Label P} {body : P.Code} {below stack : List (Activation P)}
    (hcall : Scheduler.CallsSpawn s label body below)
    (hdeliver : Scheduler.deliver (some .sqFull) below = some stack)
    (hstack : next.stack = stack) (hstarts : next.starts origin = s.starts origin)
    (hinbox : next.inbox = s.inbox) (hpost : next.nextPost = s.nextPost) :
    RetryInvariant origin next := by
  cases hcall with
  | @job _ entry code rest body after hjob hcode =>
      simp only [Scheduler.deliver, Option.some.injEq] at hdeliver
      subst hdeliver
      refine hinv.exchange [.job entry (after (some .sqFull))] hjob hstack hstarts hinbox
        hpost ?_ ?_
      · have hle := (P.job (after (some .sqFull))).mayStart_le_one
        simp only [stackStarts_cons, stackStarts_nil, Activation.mayStart, hcode]
        split
        · exact hle
        · rfl
      · intro hshape new hnew
        rw [List.mem_singleton.mp hnew]
        intro horigin
        exact .inr (.inr ⟨_, (hshape.passesOn horigin hcode).2 _⟩)
  | @coroutine _ id code rest _ body after hcoroutine _ _ =>
      simp only [Scheduler.deliver, Option.some.injEq] at hdeliver
      subst hdeliver
      refine hinv.exchange [.coroutine id (after (some .sqFull))] hcoroutine hstack hstarts
        hinbox hpost ?_ ?_
      · simp [Activation.mayStart]
      · simp [Activation.SpawnsOnly]
  | client hnone _ =>
      simp only [Scheduler.deliver, Option.some.injEq] at hdeliver
      subst hdeliver
      refine hinv.congr hstarts hinbox hpost ?_ ?_
      · simp [hstack]
      · simp [hstack]

theorem spawnStart
    {origin : ℕ} {s next : Scheduler P} (hinv : RetryInvariant origin s)
    {label : Label P} {body : P.Code} {below : List (Activation P)}
    (hcall : Scheduler.CallsSpawn s label body below) {task : FrameId}
    (hstack : next.stack = .coroutine task body :: .spawn task :: below)
    (hlog : next.log = s.log ++ [.started task (Scheduler.callerOrigin below)])
    (hinbox : next.inbox = s.inbox) (hpost : next.nextPost = s.nextPost) :
    RetryInvariant origin next := by
  have hstarts : next.starts origin =
      s.starts origin + if Scheduler.callerOrigin below = some origin then 1 else 0 := by
    simp only [Scheduler.starts, hlog, List.countP_append, List.countP_singleton,
      Event.startsFor]
    cases Scheduler.callerOrigin below <;> simp
  cases hcall with
  | @job _ entry code rest body after hjob hcode =>
      have hshape := hinv.shape
      rw [hjob, List.forall_mem_cons] at hshape
      -- the start in store moves from the stack to the log
      have hcount : next.starts origin + next.unstarted origin =
          s.starts origin + s.unstarted origin := by
        rw [hstarts]
        simp only [Scheduler.unstarted, hinbox, hstack, hjob, stackStarts_cons,
          Activation.mayStart, hcode, JobInstr.mayStart, Scheduler.callerOrigin,
          Option.some.injEq]
        omega
      refine ⟨?_, ?_, ?_⟩
      · rw [hcount]
        exact hinv.once
      · rw [hcount, hpost]
        exact hinv.fresh
      · rw [hstack]
        simp only [List.forall_mem_cons]
        refine ⟨trivial, trivial, ?_, hshape.2⟩
        intro horigin
        exact hshape.1.passesOn horigin hcode
  | @coroutine _ id code rest _ body after hcoroutine _ _ =>
      refine hinv.exchange [.coroutine task body, .spawn task, .coroutineInSpawn id after]
        hcoroutine hstack hstarts hinbox hpost ?_ ?_
      · simp [Activation.mayStart]
      · simp [Activation.SpawnsOnly]
  | client hnone _ =>
      refine hinv.congr hstarts hinbox hpost ?_ ?_
      · simp [hstack, Activation.mayStart]
      · simp [hstack, Activation.SpawnsOnly]

theorem step
    {origin : ℕ} {s next : Scheduler P} {label : Label P}
    (hinv : RetryInvariant origin s) (hmove : Scheduler.Move s label next)
    (hunrefused : s.resumedUnrefused label = true)
    (hinbox : ∀ entry ∈ s.inbox, entry.origin = origin → BuildsAndSpawns entry.fn) :
    RetryInvariant origin next := by
  cases hmove with
  | leaveRun hstack _ | leaveShutdown hstack _ | destructor hstack | reap hstack
  | endLoop hstack | endInbox hstack | endJob hstack _ | eventfdWrite hstack
  | stage hstack _ _ _ _ =>
      exact hinv.exchange [] hstack rfl rfl rfl rfl (by simp) (by simp)
  | loopRun hstack _ =>
      exact hinv.exchange [.drain .start, .reap, .run] hstack rfl rfl rfl rfl
        (by simp [Activation.mayStart]) (by simp [Activation.SpawnsOnly])
  | loopShutdown hstack _ =>
      exact hinv.exchange [.drain .start, .reap, .shutdown] hstack rfl rfl rfl rfl
        (by simp [Activation.mayStart]) (by simp [Activation.SpawnsOnly])
  | armedStart hstack _ | arm hstack _ | enter hstack _ _ _ | wake hstack _
  | scan hstack | handleNull hstack _ _ | handleDangling hstack _ _ _
  | resumed hstack | inboxDone hstack =>
      exact hinv.exchange [.drain _] hstack rfl rfl rfl rfl
        (by simp [Activation.mayStart]) (by simp [Activation.SpawnsOnly])
  | handleSentinel hstack _ _ =>
      exact hinv.exchange [.swapInbox, .drain _] hstack rfl rfl rfl rfl
        (by simp [Activation.mayStart]) (by simp [Activation.SpawnsOnly])
  | handleAwaitable hstack _ _ _ _ _ _ _ _ =>
      exact hinv.exchange [.coroutine _ _, .drain _] hstack rfl
        (by simp [Scheduler.starts, Scheduler.afterResume, Event.startsFor]) rfl rfl
        (by simp [Activation.mayStart]) (by simp [Activation.SpawnsOnly])
  | effect hstack _ _ | refused hstack _ _ _ _ =>
      exact hinv.exchange [.coroutine _ _] hstack rfl
        (by simp [Scheduler.starts, Event.startsFor]) rfl rfl
        (by simp [Activation.mayStart]) (by simp [Activation.SpawnsOnly])
  | awaitTask hstack _ _ =>
      exact hinv.exchange [.coroutine _ _] hstack rfl rfl rfl rfl
        (by simp [Activation.mayStart]) (by simp [Activation.SpawnsOnly])
  | endRoot hends _ =>
      obtain ⟨code, hstack⟩ := hends.stack
      exact hinv.exchange [] hstack rfl (by simp [Scheduler.starts, Event.startsFor]) rfl rfl
        (by simp) (by simp)
  | endInner hends _ _ =>
      obtain ⟨code, hstack⟩ := hends.stack
      exact hinv.exchange [.coroutine _ _] hstack rfl
        (by simp [Scheduler.starts, Event.startsFor]) rfl rfl
        (by simp [Activation.mayStart]) (by simp [Activation.SpawnsOnly])
  | endAstray _ _ _ =>
      exact hinv.congr (by simp [Scheduler.starts, Event.startsFor]) rfl rfl le_rfl hinv.shape
  | astray _ _ | complete _ _ _ | notify _ | requestStop _ _ | stopCallback _ _ _
  | dropTask _ | foreignRefusal _ | callDestroy _ _ _ =>
      exact hinv.congr rfl rfl rfl le_rfl hinv.shape
  | escape _ _ => exact hinv.congr rfl rfl rfl (by simp) (by simp)
  | callResume _ _ | callRun _ _ | callShutdown _ _ | callDestroyBusy _ _ _ =>
      exact hinv.congr rfl rfl rfl (by simp [Activation.mayStart])
        (by simp [Activation.SpawnsOnly])
  | swapInbox hstack => exact hinv.swapInbox hstack hinbox
  | @invoke _ rest entry batch hstack =>
      refine hinv.exchange [.job entry entry.fn, .drainInbox batch] hstack rfl
        (by simp [Scheduler.starts, Event.startsFor]) rfl rfl ?_ ?_
      · have hle := (P.job entry.fn).mayStart_le_one
        simp only [stackStarts_cons, stackStarts_nil, Activation.mayStart,
          List.countP_cons, beq_iff_eq]
        split <;> omega
      · intro hshape
        simp only [List.forall_mem_cons]
        refine ⟨fun horigin => .inl (hshape entry (by simp) horigin), ?_, by simp⟩
        intro other hother
        exact hshape other (by simp [hother])
  | requeue hstack hcode => exact hinv.requeue hstack hcode
  | post hcall =>
      have hshape := hinv.shape
      cases hcall with
      | @job entry code job after rest hstack hcode =>
          rw [hstack, List.forall_mem_cons] at hshape
          have hother : entry.origin ≠ origin := by
            intro horigin
            rcases hshape.1 horigin with ⟨_, _, hspawn, -⟩ | hret | ⟨status, hthrow⟩
            · simp [hcode] at hspawn
            · simp [hcode] at hret
            · simp [hcode] at hthrow
          refine hinv.push _ _ _ ?_ ?_
          · simp [hstack, Activation.mayStart, hother]
          · simp only [List.forall_mem_cons]
            exact ⟨trivial, fun horigin => absurd horigin hother, hshape.2⟩
      | @coroutine id code after job rest _ hstack _ _ =>
          rw [hstack, List.forall_mem_cons] at hshape
          refine hinv.push _ _ _ ?_ ?_
          · simp [hstack, Activation.mayStart]
          · simp only [List.forall_mem_cons]
            exact ⟨trivial, trivial, hshape.2⟩
  | enqueue _ => exact hinv.push _ _ _ le_rfl hinv.shape
  | spawnFull hcall _ hdeliver =>
      exact hinv.spawnFull hcall hdeliver rfl (by simp [Scheduler.starts, Event.startsFor])
        rfl rfl
  | spawnStart hcall _ => exact hinv.spawnStart hcall rfl rfl rfl rfl
  | spawnRefused hstack hflag _ =>
      simp [Scheduler.resumedUnrefused, hstack, hflag] at hunrefused
  | spawnAccepted hstack _ hdeliver | spawnBadAlloc hstack _ hdeliver =>
      have hshape := hinv.shape
      rw [hstack, List.forall_mem_cons] at hshape
      obtain ⟨hsum, hnew⟩ := RetryInvariant.deliver hdeliver (by simp) hshape.2
      refine hinv.congr (by simp [Scheduler.starts, Event.startsFor]) rfl rfl ?_ hnew
      rw [hstack, stackStarts_cons, hsum]
      exact Nat.le_add_left _ _

end RetryInvariant

/-! ## What a refused `spawn` leaves behind -/

/-- The record of first resumptions: it names frames which exist, and every
`spawn` past its `handle.resume()` is in it. -/
structure StartInvariant (s : Scheduler P) : Prop where
  bounded : ∀ task origin, .started task origin ∈ s.log → task < s.heap.next
  spawning : ∀ task, .spawn task ∈ s.stack → ∃ origin, .started task origin ∈ s.log

theorem Scheduler.Move.started_of_mem
    {s next : Scheduler P} {label : Label P} (hmove : Scheduler.Move s label next)
    {task : FrameId} {origin : Option ℕ} (hmem : .started task origin ∈ next.log) :
    .started task origin ∈ s.log ∨ task = s.heap.next ∧ s.heap.next < next.heap.next := by
  cases hmove with
  | spawnStart _ _ =>
      simp only [List.mem_append, List.mem_singleton, Event.started.injEq] at hmem
      rcases hmem with hold | ⟨rfl, -⟩
      · exact .inl hold
      · right
        rw [Heap.start_next]
        exact ⟨rfl, Nat.lt_succ_self _⟩
  | handleAwaitable _ _ _ _ _ _ _ _ _ | invoke _ | spawnFull _ _ _ | spawnRefused _ _ _
  | spawnAccepted _ _ _ | spawnBadAlloc _ _ _ | effect _ _ _ | refused _ _ _ _ _
  | endRoot _ _ | endInner _ _ _ | endAstray _ _ _ =>
      left
      simpa [Scheduler.afterResume] using hmem
  | _ => exact .inl hmem

theorem Scheduler.Move.log_subset
    {s next : Scheduler P} {label : Label P} (hmove : Scheduler.Move s label next)
    {event : Event P} (hmem : event ∈ s.log) : event ∈ next.log := by
  cases hmove with
  | handleAwaitable _ _ _ _ _ _ _ _ _ | invoke _ | spawnFull _ _ _ | spawnStart _ _
  | spawnRefused _ _ _ | spawnAccepted _ _ _ | spawnBadAlloc _ _ _ | effect _ _ _
  | refused _ _ _ _ _ | endRoot _ _ | endInner _ _ _ | endAstray _ _ _ =>
      exact List.mem_append_left _ hmem
  | _ => exact hmem

namespace StartInvariant

theorem initial
    (io : IoState) (fd : Int32) (addr : UInt64) :
    StartInvariant (Scheduler.initial P io fd addr) := by
  constructor <;> simp [Scheduler.initial]

theorem step
    {s next : Scheduler P} {label : Label P} (hinv : StartInvariant s)
    (hmove : Scheduler.Move s label next) : StartInvariant next := by
  constructor
  · intro task origin hmem
    rcases hmove.started_of_mem hmem with hold | ⟨rfl, hlt⟩
    · exact Nat.lt_of_lt_of_le (hinv.bounded task origin hold) hmove.next_le
    · exact hlt
  · intro task hmem
    rcases hmove.entered rfl hmem with hold | ⟨hact, -⟩ | ⟨other, origin, hact, hlog⟩
    · obtain ⟨origin, horigin⟩ := hinv.spawning task hold
      exact ⟨origin, hmove.log_subset horigin⟩
    · simp at hact
    · cases hact
      exact ⟨origin, by simp [hlog]⟩

end StartInvariant

namespace Scheduler

end Scheduler

open Scheduler Transition

end SlimCommonIo
