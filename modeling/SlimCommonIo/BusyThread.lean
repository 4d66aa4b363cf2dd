import SlimCommonIo.AwaitedResults
import SlimCommonIo.CompletionHandling
import SlimCommonIo.FiniteRuns
import SlimCommonIo.InboxEscape
import SlimCommonIo.SchedulerProgress
import Mathlib.Tactic.Abel

/-!
# The driving thread never spins

A thread in `run` works through the completions which are there and the code
they resume, and then sleeps in `io_uring_enter` until something happens which
it has not done itself.  It needs coroutines and callables which return or wait,
a kernel which takes at least one of the entries it is offered, and a scheduler
on which `shutdown` has not been called: with `min_complete` 0 the kernel never
lets the thread sleep.

A refused `co_await` continues at once with the result 0.  A loop around it spins
while the ring is full, so that either no await is refused or the loops of the
code are bounded whatever their awaits return.
-/

namespace SlimCommonIo

open Relation Transition

variable {P : Program}

/-! ## Work -/

/-- Code on the driving thread or waiting for code there, and callables which
`drain_inbox` has taken out of the inbox. -/
inductive Work (P : Program)
  | code (code : P.Code)
  | job (code : P.Job)
  | taken (fn : P.Job)
  | inTask (next : P.Outcome → P.Code)
  | inSpawn (next : Option ErrorStatus → P.Code)
  | jobInSpawn (next : Option ErrorStatus → P.Job)

/-- What the thread goes on with without a completion.  With `refusals`, the
code behind an await is part of it. -/
inductive Work.Follows (refusals : Prop) : Work P → Work P → Prop
  | effect {code next : P.Code} {visible : P.Effect} (hcode : P.instr code = .effect visible next) :
      Follows refusals (.code next) (.code code)
  | refused {code : P.Code} {object : ℕ} {construct : Option Awaitable} {next : Int32 → P.Code}
      (hrefusals : refusals) (hcode : P.instr code = .coAwait object construct next)
      (value : Int32) : Follows refusals (.code (next value)) (.code code)
  | inner {code inner : P.Code} {type : TaskType} {next : P.Outcome → P.Code}
      (hcode : P.instr code = .coAwaitTask type inner next) :
      Follows refusals (.code inner) (.code code)
  | inTask {code inner : P.Code} {type : TaskType} {next : P.Outcome → P.Code}
      (hcode : P.instr code = .coAwaitTask type inner next) :
      Follows refusals (.inTask next) (.code code)
  | joined {next : P.Outcome → P.Code} (outcome : P.Outcome) :
      Follows refusals (.code (next outcome)) (.inTask next)
  | body {code body : P.Code} {next : Option ErrorStatus → P.Code}
      (hcode : P.instr code = .spawn body next) : Follows refusals (.code body) (.code code)
  | inSpawn {code body : P.Code} {next : Option ErrorStatus → P.Code}
      (hcode : P.instr code = .spawn body next) : Follows refusals (.inSpawn next) (.code code)
  | spawned {next : Option ErrorStatus → P.Code} (status : Option ErrorStatus) :
      Follows refusals (.code (next status)) (.inSpawn next)
  | post {code next : P.Code} {job : P.Job} (hcode : P.instr code = .post job next) :
      Follows refusals (.code next) (.code code)
  | invoked {fn : P.Job} : Follows refusals (.job fn) (.taken fn)
  | jobBody {code : P.Job} {body : P.Code} {next : Option ErrorStatus → P.Job}
      (hcode : P.job code = .spawn body next) : Follows refusals (.code body) (.job code)
  | jobInSpawn {code : P.Job} {body : P.Code} {next : Option ErrorStatus → P.Job}
      (hcode : P.job code = .spawn body next) : Follows refusals (.jobInSpawn next) (.job code)
  | jobSpawned {next : Option ErrorStatus → P.Job} (status : Option ErrorStatus) :
      Follows refusals (.job (next status)) (.jobInSpawn next)
  | jobPost {code next job : P.Job} (hcode : P.job code = .post job next) :
      Follows refusals (.job next) (.job code)

/-- Every coroutine and callable comes to its end or to an await. -/
def Program.Yields (P : Program) (refusals : Prop) : Prop :=
  WellFounded (Work.Follows (P := P) refusals)

/-- Nothing follows the end of a callable. -/
theorem Work.acc_of_ends
    {refusals : Prop} {code : P.Job}
    (hends : P.job code = .ret ∨ ∃ status, P.job code = .throwIoException status) :
    Acc (Work.Follows refusals) (.job code) := by
  refine .intro _ fun work hwork => ?_
  cases hwork with
  | jobBody hcode | jobInSpawn hcode | jobPost hcode =>
      rcases hends with hret | ⟨status, hthrow⟩
      · simp [hcode] at hret
      · simp [hcode] at hthrow

/-- Code which waits for a call goes on with code of the program. -/
theorem Program.yields_of_acc
    {refusals : Prop} (hcode : ∀ code : P.Code, Acc (Work.Follows refusals) (.code code))
    (hjob : ∀ code : P.Job, Acc (Work.Follows refusals) (.job code)) : P.Yields refusals := by
  refine ⟨fun work => ?_⟩
  cases work with
  | code code => exact hcode code
  | job code => exact hjob code
  | taken fn =>
      refine .intro _ fun work hwork => ?_
      cases hwork
      exact hjob fn
  | inTask next | inSpawn next =>
      refine .intro _ fun work hwork => ?_
      cases hwork
      exact hcode _
  | jobInSpawn next =>
      refine .intro _ fun work hwork => ?_
      cases hwork
      exact hjob _

def Activation.work : Activation P → Multiset (Work P)
  | .drainInbox batch => ↑(batch.map fun entry => Work.taken entry.fn)
  | .job _ code => {.job code}
  | .jobInSpawn _ next => {.jobInSpawn next}
  | .coroutine _ code => {.code code}
  | .coroutineInSpawn _ next => {.inSpawn next}
  | _ => 0

def stackWork (stack : List (Activation P)) : Multiset (Work P) :=
  (stack.map Activation.work).sum

/-- A frame which awaits an inner task goes on when that ends; one which awaits
an operation needs a completion. -/
def frameWork : Option (Frame P) → Multiset (Work P)
  | none => 0
  | some frame =>
      match frame.point with
      | .onTask _ next => {.inTask next}
      | _ => 0

def Heap.work (heap : Heap P) : Multiset (Work P) :=
  ∑ id ∈ Finset.range heap.next, frameWork (heap.frames id)

@[simp]
theorem stackWork_nil : stackWork ([] : List (Activation P)) = 0 := rfl

@[simp]
theorem stackWork_cons (act : Activation P) (rest : List (Activation P)) :
    stackWork (act :: rest) = act.work + stackWork rest := by
  simp [stackWork]

namespace Heap

theorem work_congr
    {heap heap' : Heap P} (hnext : heap'.next = heap.next)
    (hframes : ∀ id, frameWork (heap'.frames id) = frameWork (heap.frames id)) :
    heap'.work = heap.work := by
  simp only [work, hnext, hframes]

/-- Only the frame `id` may wait for more than before. -/
theorem work_add_le
    {heap heap' : Heap P} (hnext : heap'.next = heap.next) {id : FrameId} (hlt : id < heap.next)
    (hothers : ∀ other, other ≠ id →
      frameWork (heap'.frames other) ≤ frameWork (heap.frames other)) :
    heap'.work + frameWork (heap.frames id) ≤ heap.work + frameWork (heap'.frames id) := by
  have hsum := sum_update_add (fun other => frameWork (heap.frames other)) hlt
    (frameWork (heap'.frames id))
  rw [work, work, hnext, ← hsum]
  refine add_le_add (Finset.sum_le_sum fun other _ => ?_) le_rfl
  by_cases heq : other = id
  · rw [heq, Function.update_self]
  · rw [Function.update_of_ne heq]
    exact hothers other heq

theorem work_set_le
    {heap : Heap P} {id : FrameId} (hlt : id < heap.next) (frame : Frame P) :
    (heap.set id frame).work ≤ frameWork (some frame) + heap.work := by
  have hothers : ∀ other, other ≠ id →
      frameWork ((heap.set id frame).frames other) ≤ frameWork (heap.frames other) := by
    intro other hne
    rw [set_frames_of_ne heap hne]
  have hadd := work_add_le (heap.set_next id frame) hlt hothers
  rw [set_frames_self, add_comm heap.work] at hadd
  exact (Multiset.le_add_right _ _).trans hadd

theorem work_set_of_point
    {heap : Heap P} {id : FrameId} {old new : Frame P} (hold : heap.frames id = some old)
    (hpoint : new.point = old.point) : (heap.set id new).work = heap.work := by
  refine work_congr (heap.set_next id new) fun other => ?_
  by_cases heq : other = id
  · rw [heq, set_frames_self, hold, frameWork, frameWork, hpoint]
  · rw [set_frames_of_ne heap heq]

theorem Remains.work_le {heap heap' : Heap P} (hremains : heap.Remains heap') :
    heap'.work ≤ heap.work := by
  rw [work, work, hremains.next]
  refine Finset.sum_le_sum fun id _ => ?_
  rcases hremains.frames id with hnone | heq
  · simp [hnone, frameWork]
  · rw [heq]

theorem work_add (heap : Heap P) (frame : Frame P) :
    (heap.add frame).work = heap.work + frameWork (some frame) := by
  rw [work, add_next, Finset.sum_range_succ, add_frames_next, work]
  refine congrArg (· + _) (Finset.sum_congr rfl fun id hid => ?_)
  rw [add_frames_of_ne heap (Nat.ne_of_lt (Finset.mem_range.mp hid))]

/-- The frame which awaits the inner task runs on. -/
theorem work_resumeAwaiting
    {heap heap' : Heap P} {awaiting : FrameId} (hlt : awaiting < heap.next) {code : P.Code}
    (hresume : heap.resumeAwaiting awaiting = .resume heap' awaiting code) :
    ∃ next outcome, code = next outcome ∧ heap'.work + {.inTask next} ≤ heap.work := by
  obtain ⟨-, frame, inner, next, innerFrame, outcome, hframe, hpoint, -, -, hcode, hheap⟩ :=
    resumeAwaiting_eq_resume hresume
  refine ⟨next, outcome, hcode, ?_⟩
  have hnext : heap'.next = heap.next := by rw [hheap, set_next, erase_next]
  have hadd := work_add_le hnext hlt fun other hne => by
    rw [hheap, set_frames_of_ne _ hne]
    rcases (Remains.erase heap inner).frames other with hnone | heq
    · simp [hnone, frameWork]
    · rw [heq]
  rw [hheap, set_frames_self, hframe, ← hheap] at hadd
  simpa [frameWork, hpoint] using hadd

end Heap

/-! ## What the thread has still to do -/

namespace Scheduler

/-- Drains of the inbox which are due, and completions. -/
def due (s : Scheduler P) : ℕ ×ₗ ℕ :=
  let unhandled := s.io.posted.drop s.io.handled
  toLex (swapsPending s.stack + unhandled.countP Cqe.isSentinel, unhandled.length)

def work (s : Scheduler P) : Multiset (Work P) :=
  stackWork s.stack + s.heap.work

/-- How far the top of the stack is from the wait in `io_uring_enter` if nothing
has completed, else from the next completion. -/
def distance (s : Scheduler P) : ℕ :=
  match s.stack with
  | .eventfdWrite :: _ => 12
  | .drain (.resumed _ _) :: _ | .drain (.inboxDone _ _) :: _ => 10
  | .drain (.loop current tail) :: _ => if current = tail then 8 else 1
  | .drain .scan :: _ => if s.io.cq.head = s.io.cq.tail then 9 else 2
  | .reap :: _ => 7
  | .run :: _ | .shutdown :: _ => 6
  | .drain .start :: _ => 5
  | .drain .enter :: _ => 4
  | .drain .waiting :: _ => 3
  | .destructor :: _ => 0
  | _ => 11

def place (s : Scheduler P) : ℕ ×ₗ ℕ ×ₗ ℕ :=
  toLex (if s.eventfdArmed then 0 else 1, toLex (s.io.sq.pending.toNat, s.distance))

def effort (s : Scheduler P) : Effort (Work P) (ℕ ×ₗ ℕ) (ℕ ×ₗ ℕ ×ₗ ℕ) where
  due := s.due
  work := s.work
  place := s.place

/-- The driving thread moves, or the kernel answers its `io_uring_enter` and takes
an entry if there is one. -/
def goesOn (s : Scheduler P) : Label P → Bool
  | .runner _ => true
  | .enter accepted => accepted != 0 || s.io.sq.pending == 0
  | _ => false

/-- A step which nothing from outside of the thread has brought about. -/
def GoesOn (refusals : Prop) (s next : Scheduler P) : Prop :=
  ∃ label, s.goesOn label = true ∧ (s.acceptsAwait label = true ∨ refusals) ∧
    s.step label = some next

theorem place_lt_of_distance
    {s next : Scheduler P} (harmed : next.eventfdArmed = s.eventfdArmed)
    (hpending : next.io.sq.pending = s.io.sq.pending) (hdistance : next.distance < s.distance) :
    next.place < s.place := by
  rw [place, place, harmed, hpending, Prod.Lex.toLex_lt_toLex]
  exact .inr ⟨rfl, Prod.Lex.toLex_lt_toLex.mpr (.inr ⟨rfl, hdistance⟩)⟩

theorem place_lt_of_pending
    {s next : Scheduler P} (harmed : next.eventfdArmed = s.eventfdArmed)
    (hpending : next.io.sq.pending.toNat < s.io.sq.pending.toNat) : next.place < s.place := by
  rw [place, place, harmed, Prod.Lex.toLex_lt_toLex]
  exact .inr ⟨rfl, Prod.Lex.toLex_lt_toLex.mpr (.inl hpending)⟩

theorem place_lt_of_armed
    {s next : Scheduler P} (hbefore : s.eventfdArmed = false)
    (hafter : next.eventfdArmed = true) : next.place < s.place := by
  rw [place, place, hbefore, hafter, Prod.Lex.toLex_lt_toLex]
  exact .inl Nat.zero_lt_one

/-- A completion or a swap of the inbox is one thing less which is due; nothing
else the thread does makes more of them. -/
theorem HandlingStep.due_cases
    {s next : Scheduler P} {label : Label P} (hstep : HandlingStep s label next)
    (hinv : RingInvariant s) (hposted : next.io.posted = s.io.posted) :
    next.due < s.due ∨ (next.due = s.due ∧ s.handledNow label = none ∧
      s.swapsNow label = false) ∨ ∃ entry, s.callEnds label = some (entry, .other) := by
  cases hstep with
  | other hnow hswaps hhandled _ hpending _ =>
      refine .inr (.inl ⟨?_, hnow, hswaps⟩)
      rw [due, due, hposted, hhandled, hpending]
  | swap _ _ hio hpending _ =>
      left
      rw [due, due, hio, Prod.Lex.toLex_lt_toLex]
      left
      dsimp only
      omega
  | handle current tail rest hstack hmore _ _ _ hhandled _ hpending _ =>
      have hdrop := hinv.completion.drop_handled_of_loop
        (hinv.drainPoints_of_drain hstack) hmore
      left
      rw [due, due, hposted, hhandled, hpending, hdrop, Prod.Lex.toLex_lt_toLex]
      right
      dsimp only
      rw [List.countP_cons, List.length_cons]
      exact ⟨by omega, Nat.lt_succ_self _⟩
  | escape entry hends => exact .inr (.inr ⟨entry, hends⟩)

/-! ## What a step takes away -/

variable {refusals : Prop} {s next : Scheduler P}

/-- Why the thread cannot go on like this for ever. -/
inductive Progress (refusals : Prop) (s : Scheduler P) (label : Label P) (next : Scheduler P) : Prop
  | stuck (hstuck : next.stack = [] ∨ next.crash.isSome = true)
  | due (hdue : s.handledNow label ≠ none ∨ s.swapsNow label = true)
  | work (hwork : Spends (Work.Follows refusals) next.work s.work)
  | place (hwork : next.work ≤ s.work) (hplace : next.place < s.place)

theorem CallsSpawn.work
    (refusals : Prop) {label : Label P} {body : P.Code} {below : List (Activation P)}
    (hcall : CallsSpawn s label body below) (hgoes : s.goesOn label = true) :
    ∃ item waiting rest, stackWork s.stack = {item} + rest ∧ stackWork below = {waiting} + rest ∧
      Work.Follows refusals (.code body) item ∧ Work.Follows refusals waiting item := by
  cases hcall with
  | job hstack hcode =>
      rw [hstack]
      exact ⟨_, _, _, stackWork_cons _ _, stackWork_cons _ _, .jobBody hcode, .jobInSpawn hcode⟩
  | coroutine hstack _ hcode =>
      rw [hstack]
      exact ⟨_, _, _, stackWork_cons _ _, stackWork_cons _ _, .body hcode, .inSpawn hcode⟩
  | client => simp [goesOn] at hgoes

/-- The caller of `spawn` goes on. -/
theorem spends_of_deliver
    (refusals : Prop) {status : Option ErrorStatus} {below stack : List (Activation P)}
    (hdeliver : deliver status below = some stack) :
    stack = [] ∨ ∀ others, Spends (Work.Follows refusals) (stackWork stack + others)
      (stackWork below + others) := by
  unfold deliver at hdeliver
  split at hdeliver
  next => exact .inl (Option.some.inj hdeliver).symm
  next =>
    rw [← Option.some.inj hdeliver]
    right
    intro others
    simp only [stackWork_cons, add_assoc]
    exact .replace _ _ _ le_rfl le_rfl fun item hitem =>
      Multiset.mem_singleton.mp hitem ▸ .single (.jobSpawned status)
  next =>
    rw [← Option.some.inj hdeliver]
    right
    intro others
    simp only [stackWork_cons, add_assoc]
    exact .replace _ _ _ le_rfl le_rfl fun item hitem =>
      Multiset.mem_singleton.mp hitem ▸ .single (.spawned status)
  next => simp at hdeliver

theorem progress_of_spawnFull
    {label : Label P} {body : P.Code} {below stack : List (Activation P)}
    (hcall : CallsSpawn s label body below) (hgoes : s.goesOn label = true)
    (hdeliver : deliver (some .sqFull) below = some stack) (hstack : next.stack = stack)
    (hheap : next.heap = s.heap.create .void body s.heap.next) :
    Progress refusals s label next := by
  obtain ⟨item, waiting, rest, hbefore, hbelow, -, hfollows⟩ := hcall.work refusals hgoes
  rcases spends_of_deliver refusals hdeliver with hempty | hspends
  · exact .stuck (.inl (hstack.trans hempty))
  · have hheapWork : next.heap.work = s.heap.work := by
      rw [hheap, Heap.create_eq_add, Heap.work_add]
      exact add_zero _
    have hcalled : Spends (Work.Follows refusals) (stackWork below + s.heap.work) s.work := by
      rw [work, hbefore, hbelow, add_assoc, add_assoc]
      exact .replace _ _ _ le_rfl le_rfl fun item hitem =>
        Multiset.mem_singleton.mp hitem ▸ .single hfollows
    refine .work ?_
    rw [work, hstack, hheapWork]
    exact (hspends s.heap.work).trans hcalled

theorem progress_of_spawnStart
    {label : Label P} {body : P.Code} {below : List (Activation P)}
    (hcall : CallsSpawn s label body below) (hgoes : s.goesOn label = true)
    (hstack : next.stack = .coroutine s.heap.next body :: .spawn s.heap.next :: below)
    (hheap : next.heap = (s.heap.create .void body s.heap.next).start s.heap.next) :
    Progress refusals s label next := by
  obtain ⟨item, waiting, rest, hbefore, hbelow, hbody, hwaiting⟩ := hcall.work refusals hgoes
  have hheapWork : next.heap.work = s.heap.work := by
    rw [hheap, Heap.start_create_eq_add, Heap.work_add]
    exact add_zero _
  refine .work (.replace ({.code body} + {waiting}) (rest + s.heap.work) item (le_of_eq ?_)
    (le_of_eq ?_) ?_)
  · rw [work, hstack, hheapWork, stackWork_cons, stackWork_cons, hbelow]
    simp only [Activation.work]
    abel
  · rw [work, hbefore, add_assoc]
  · intro after hafter
    rcases Multiset.mem_add.mp hafter with hmem | hmem
    · exact Multiset.mem_singleton.mp hmem ▸ .single hbody
    · exact Multiset.mem_singleton.mp hmem ▸ .single hwaiting

/-- `spawn` returns or throws after the new task has been resumed. -/
theorem progress_of_spawnReturned
    {label : Label P} {task : FrameId} {status : Option ErrorStatus}
    {below stack : List (Activation P)} (hbefore : s.stack = .spawn task :: below)
    (hdeliver : deliver status below = some stack) (hstack : next.stack = stack)
    (hheap : next.heap = s.heap) : Progress refusals s label next := by
  rcases spends_of_deliver refusals hdeliver with hempty | hspends
  · exact .stuck (.inl (hstack.trans hempty))
  · refine .work ?_
    rw [work, work, hstack, hheap, hbefore, stackWork_cons]
    simpa [Activation.work] using hspends s.heap.work

/-- The code on top of the stack is replaced by what follows it. -/
theorem progress_of_top
    {label : Label P} {top : Activation P} {rest : List (Activation P)} {item : Work P}
    (items : Multiset (Work P)) (hstack : s.stack = top :: rest) (htop : top.work = {item})
    (hwork : next.work ≤ items + (stackWork rest + s.heap.work))
    (hitems : ∀ after ∈ items, TransGen (Work.Follows refusals) after item) :
    Progress refusals s label next := by
  refine .work (.replace items _ item hwork (le_of_eq ?_) hitems)
  rw [work, hstack, stackWork_cons, htop, add_assoc]

theorem progress_of_post
    {label : Label P} {job : P.Job} {below : List (Activation P)} (hcall : CallsPost s job below)
    (hstack : next.stack = .eventfdWrite :: below) (hheap : next.heap = s.heap) :
    Progress refusals s label next := by
  cases hcall with
  | @job entry code job after rest hbefore hcode =>
      refine progress_of_top {.job after} hbefore rfl (le_of_eq ?_) ?_
      · rw [work, hstack, hheap, stackWork_cons, stackWork_cons]
        simp [Activation.work]
      · simpa using TransGen.single (Work.Follows.jobPost hcode)
  | @coroutine id code after job rest frame hbefore _ hcode =>
      refine progress_of_top {.code after} hbefore rfl (le_of_eq ?_) ?_
      · rw [work, hstack, hheap, stackWork_cons, stackWork_cons]
        simp [Activation.work]
      · simpa using TransGen.single (Work.Follows.post hcode)

theorem progress_of_awaitTask
    {label : Label P} {rest : List (Activation P)} {id : FrameId} {code inner : P.Code}
    {frame : Frame P} {type : TaskType} {after : P.Outcome → P.Code}
    (hbefore : s.stack = .coroutine id code :: rest) (hlt : id < s.heap.next)
    (hcode : P.instr code = .coAwaitTask type inner after)
    (hstack : next.stack = .coroutine s.heap.next inner :: rest)
    (hheap : next.heap = s.heap.coAwaitTask id frame type inner after) :
    Progress refusals s label next := by
  refine progress_of_top ({.code inner} + {.inTask after}) hbefore rfl ?_ ?_
  · have hset := Heap.work_set_le hlt { frame with point := .onTask s.heap.next after }
    rw [work, hstack, hheap, Heap.coAwaitTask_eq_add _ (Nat.ne_of_lt hlt), Heap.work_add,
      stackWork_cons]
    calc ({.code inner} : Multiset (Work P)) + stackWork rest +
          ((s.heap.set id { frame with point := .onTask s.heap.next after }).work + 0)
        ≤ {.code inner} + stackWork rest + ({.inTask after} + s.heap.work + 0) := by
          gcongr
          exact hset
      _ = {.code inner} + {.inTask after} + (stackWork rest + s.heap.work) := by abel
  · intro other hother
    rcases Multiset.mem_add.mp hother with hmem | hmem
    · exact Multiset.mem_singleton.mp hmem ▸ .single (.inner hcode)
    · exact Multiset.mem_singleton.mp hmem ▸ .single (.inTask hcode)

/-- The coroutine awaiting the ended one goes on. -/
theorem progress_of_endInner
    {label : Label P} {rest : List (Activation P)} {id awaiting : FrameId} {frame : Frame P}
    {outcome : P.Outcome} {heap : Heap P} {code : P.Code}
    (hends : Ends s id frame rest outcome) (hlinked : s.heap.Linked)
    (hinner : frame.promise.continuation = some awaiting)
    (hresume : (s.heap.set id (frame.complete outcome)).resumeAwaiting awaiting =
      .resume heap awaiting code)
    (hstack : next.stack = .coroutine awaiting code :: rest) (hheap : next.heap = heap) :
    Progress refusals s label next := by
  have hlt := (hlinked.continuation id frame awaiting hends.frame hinner).1
  obtain ⟨after, result, hcode, hwork⟩ :=
    Heap.work_resumeAwaiting ((s.heap.set_next id (frame.complete outcome)).symm ▸ hlt) hresume
  have hset := Heap.work_set_le (hlinked.lt hends.frame) (frame.complete outcome)
  have hfinal : frameWork (some (frame.complete outcome)) = 0 := by
    rw [frameWork, Heap.complete_point]
  rw [hfinal, zero_add] at hset
  obtain ⟨last, hbefore⟩ := hends.stack
  refine .work (.replace {.code code} (stackWork rest + heap.work) (.inTask after) (le_of_eq ?_)
    ?_ ?_)
  · rw [work, hstack, hheap, stackWork_cons, add_assoc]
    rfl
  · rw [work, hbefore, stackWork_cons]
    calc {.inTask after} + (stackWork rest + heap.work)
        = stackWork rest + (heap.work + {.inTask after}) := by abel
      _ ≤ stackWork rest + s.heap.work := by gcongr; exact hwork.trans hset
      _ ≤ (Activation.coroutine id last).work + stackWork rest + s.heap.work := by
          rw [add_assoc]
          exact Multiset.le_add_left _ _
  · rw [hcode]
    simpa using TransGen.single (Work.Follows.joined result)

/-- Nothing but the position of the thread changes. -/
theorem progress_of_distance
    {label : Label P} (hstack : stackWork next.stack ≤ stackWork s.stack)
    (hheap : next.heap.work ≤ s.heap.work) (harmed : next.eventfdArmed = s.eventfdArmed)
    (hsq : next.io.sq = s.io.sq) (hdistance : next.distance < s.distance) :
    Progress refusals s label next :=
  .place (add_le_add hstack hheap)
    (place_lt_of_distance harmed (by rw [hsq]) hdistance)

/-- `io_uring_enter` takes an entry, or there is none and the thread waits. -/
theorem progress_of_enter
    {rest : List (Activation P)} {accepted : ℕ} (hbefore : s.stack = .drain .enter :: rest)
    (hgoes : s.goesOn (.enter accepted) = true) (hpending : accepted ≤ s.io.sq.pending.toNat)
    (hawake : s.shuttingDown = false) (hheap : next.heap = s.heap)
    (harmed : next.eventfdArmed = s.eventfdArmed) (hsq : next.io.sq = s.io.sq.consume accepted)
    (hstack : next.stack = .drain (if accepted = s.io.sq.pending.toNat ∧ s.shuttingDown = false
      then .waiting else .scan) :: rest) : Progress refusals s (.enter accepted) next := by
  have hwork : next.work ≤ s.work := by
    rw [work, work, hheap, hstack, hbefore, stackWork_cons, stackWork_cons]
    rfl
  have hafter := SubmissionQueue.consume_pending_toNat hpending
  by_cases hzero : s.io.sq.pending.toNat = 0
  · have hnone : next.io.sq.pending = s.io.sq.pending := by
      apply UInt32.toNat_inj.mp
      rw [hsq, hafter]
      omega
    refine .place hwork (place_lt_of_distance harmed hnone ?_)
    rw [if_pos ⟨by omega, hawake⟩] at hstack
    simp [distance, hstack, hbefore]
  · have htaken : accepted ≠ 0 := by
      rintro rfl
      simp only [goesOn, bne_self_eq_false, Bool.false_or, beq_iff_eq] at hgoes
      simp [hgoes] at hzero
    refine .place hwork (place_lt_of_pending harmed ?_)
    rw [hsq, hafter]
    omega

/-- The thread wakes up by itself only when something has completed. -/
theorem cq_of_wake
    {allocated : Bool} {rest : List (Activation P)} (hstack : s.stack = .drain .waiting :: rest)
    (hstep : s.step (.runner allocated) = some next) : s.io.cq.head ≠ s.io.cq.tail := by
  intro hempty
  simp [step, runnerStep, hstack, hempty] at hstep

theorem Move.progress
    {label : Label P} (hmove : Move s label next) (hstep : s.step label = some next)
    (hinv : FrameInvariant s) (hawake : s.shuttingDown = false)
    (hgoes : s.goesOn label = true) (haccepts : s.acceptsAwait label = true ∨ refusals) :
    Progress refusals s label next := by
  have hwell := hinv.ring.wellStacked
  cases hmove with
  | leaveRun hstack _ | destructor hstack =>
      rw [hstack] at hwell
      exact .stuck (.inl hwell.1)
  | leaveShutdown hstack _ =>
      rw [hstack] at hwell
      rcases hwell.1 with rfl | rfl
      · exact .stuck (.inl rfl)
      · exact progress_of_distance (by simp [hstack, Activation.work]) le_rfl rfl rfl
          (by simp [distance, hstack])
  | loopRun hstack _ | loopShutdown hstack _ | armedStart hstack _ | resumed hstack
  | inboxDone hstack =>
      refine progress_of_distance (by simp [hstack, Activation.work]) le_rfl rfl rfl ?_
      simp only [distance, hstack]
      first | omega | split <;> omega
  | reap hstack =>
      rw [hstack] at hwell
      refine progress_of_distance (by simp [Scheduler.reap, hstack, Activation.work])
        (Heap.Remains.foldl_erase _ _).work_le rfl rfl ?_
      obtain ⟨below, rfl | rfl⟩ := hwell.1 <;> simp [distance, hstack, Scheduler.reap]
  | arm hstack harmed =>
      refine .place (add_le_add ?_ le_rfl) (place_lt_of_armed harmed rfl)
      simp [hstack, Activation.work]
  | enter hstack hpending _ _ =>
      exact progress_of_enter hstack hgoes hpending hawake rfl rfl rfl rfl
  | wake hstack hlabel =>
      rcases hlabel with rfl | ⟨allocated, rfl⟩
      · simp [goesOn] at hgoes
      · have hsome := cq_of_wake hstack hstep
        exact progress_of_distance (by simp [hstack, Activation.work]) le_rfl rfl rfl
          (by simp [distance, hstack, hsome])
  | scan hstack =>
      refine progress_of_distance (by simp [hstack, Activation.work]) le_rfl rfl rfl ?_
      simp only [distance, hstack]
      split <;> omega
  | endLoop hstack =>
      rw [hstack] at hwell
      obtain ⟨below, rfl⟩ := hwell.1
      exact progress_of_distance (by simp [hstack, Activation.work]) le_rfl rfl rfl
        (by simp [distance, hstack])
  | handleSentinel hstack hmore _ | handleNull hstack hmore _
  | handleAwaitable hstack hmore _ _ _ _ _ _ _ | handleDangling hstack hmore _ _ =>
      exact .due (.inl (by simp [handledNow, hstack, hmore]))
  | swapInbox hstack => exact .due (.inr (by simp [swapsNow, hstack]))
  | endInbox hstack =>
      rw [hstack] at hwell
      obtain ⟨current, tail, below, rfl⟩ := hwell.1
      exact progress_of_distance (by simp [hstack, Activation.work]) le_rfl rfl rfl
        (by simp [distance, hstack])
  | @invoke _ rest entry batch hstack =>
      refine .work (.replace {.job entry.fn} (stackWork (.drainInbox batch :: rest) + s.heap.work)
        (.taken entry.fn) ?_ ?_ ?_)
      · rw [work, stackWork_cons, add_assoc]
        rfl
      · rw [work, hstack, stackWork_cons, stackWork_cons, ← add_assoc, ← add_assoc]
        rfl
      · simpa using TransGen.single Work.Follows.invoked
  | endJob hstack _ | requeue hstack _ =>
      refine progress_of_top 0 hstack rfl ?_ (by simp)
      simp [work, Activation.work, pushInbox]
  | escape _ _ => exact .stuck (.inl rfl)
  | post hcall => exact progress_of_post hcall rfl rfl
  | eventfdWrite hstack =>
      rw [hstack] at hwell
      refine progress_of_distance (by simp [hstack, Activation.work]) le_rfl rfl rfl ?_
      obtain ⟨below, ⟨entry, code, rfl⟩ | ⟨batch, rfl⟩ | ⟨id, code, rfl⟩⟩ := hwell.1 <;>
        simp [distance, hstack]
  | spawnFull hcall _ hdeliver => exact progress_of_spawnFull hcall hgoes hdeliver rfl rfl
  | spawnStart hcall _ => exact progress_of_spawnStart hcall hgoes rfl rfl
  | spawnRefused hstack _ hdeliver | spawnAccepted hstack _ hdeliver
  | spawnBadAlloc hstack _ hdeliver => exact progress_of_spawnReturned hstack hdeliver rfl rfl
  | @effect _ rest id code after frame visible hstack hframe hcode =>
      refine progress_of_top {.code after} hstack rfl ?_ ?_
      · rw [work, stackWork_cons, add_assoc]
        rfl
      · simpa using TransGen.single (Work.Follows.effect hcode)
  | @refused _ rest id object code frame construct after awt hstack hframe hcode hobject hrefuse =>
      have hrefusals : refusals := by
        rcases haccepts with haccepts | hrefusals
        · rw [Awaitable.awaitSuspend_eq] at hrefuse
          split at hrefuse
          next => simp at hrefuse
          next hfull => simp [acceptsAwait, awaitedNow, hstack, hframe, hcode, hobject, hfull]
            at haccepts
        · exact hrefusals
      refine progress_of_top {.code (after awt.awaitResume)} hstack rfl ?_ ?_
      · have hheap : (s.heap.set id { frame with
            objects := Function.update frame.objects object (some awt) }).work = s.heap.work :=
          Heap.work_set_of_point hframe rfl
        rw [work, stackWork_cons, add_assoc]
        exact add_le_add le_rfl (add_le_add le_rfl hheap.le)
      · simpa using TransGen.single (Work.Follows.refused hrefusals hcode awt.awaitResume)
  | stage hstack hframe _ _ _ =>
      refine progress_of_top 0 hstack rfl ?_ (by simp)
      rw [zero_add]
      exact add_le_add le_rfl ((Heap.work_set_le (hinv.linked.lt hframe) _).trans
        (zero_add _).le)
  | awaitTask hstack hframe hcode =>
      exact progress_of_awaitTask hstack (hinv.linked.lt hframe) hcode rfl rfl
  | endRoot hends _ =>
      obtain ⟨code, hstack⟩ := hends.stack
      refine progress_of_top 0 hstack rfl ?_ (by simp)
      rw [zero_add]
      refine add_le_add le_rfl ((Heap.work_set_le (hinv.linked.lt hends.frame) _).trans ?_)
      rw [frameWork, Heap.complete_point, zero_add]
  | endInner hends hinner hresume =>
      exact progress_of_endInner hends hinv.linked hinner hresume rfl rfl
  | endAstray _ _ _ | astray _ _ => exact .stuck (.inr rfl)
  | complete | enqueue | notify | requestStop | stopCallback | dropTask | foreignRefusal
  | callResume | callRun | callShutdown | callDestroy | callDestroyBusy =>
      simp [goesOn] at hgoes

/-! ## Runs of the thread -/

theorem not_goesOn_of_stuck
    (hstuck : s.stack = [] ∨ s.crash.isSome = true) (next : Scheduler P) :
    ¬ GoesOn refusals s next := by
  rintro ⟨label, hgoes, -, hstep⟩
  obtain ⟨hcrash, hmove⟩ := move_of_step hstep
  rcases hstuck with hempty | hend
  · cases label with
    | runner => simp [step, runnerStep, hempty] at hstep
    | enter => simp [step, hempty] at hstep
    | _ => simp [goesOn] at hgoes
  · simp [hcrash] at hend

theorem Move.posted_eq_of_goesOn
    {label : Label P} (hmove : Move s label next) (hgoes : s.goesOn label = true) :
    next.io.posted = s.io.posted := by
  cases hmove with
  | complete => simp [goesOn] at hgoes
  | _ => rfl

/-- The thread is awake, and its state is one it can be in. -/
structure Awake (s : Scheduler P) : Prop where
  frames : FrameInvariant s
  top : TopActive s.stack
  awake : s.shuttingDown = false

theorem Awake.step
    {label : Label P} (hawake : Awake s) (hstep : s.step label = some next)
    (hshutdown : label ≠ .callShutdown) (hdestroy : label ≠ .callDestroy) : Awake next := by
  have hmove := (move_of_step hstep).2
  refine ⟨hawake.frames.of_step hstep,
    hmove.topActive hawake.frames.ring.wellStacked hawake.top, Eq.trans ?_ hawake.awake⟩
  cases hmove with
  | callShutdown => exact absurd rfl hshutdown
  | callDestroyBusy => exact absurd rfl hdestroy
  | _ => rfl

theorem Awake.goesOn (hawake : Awake s) (hstep : GoesOn refusals s next) : Awake next := by
  obtain ⟨label, hgoes, -, hstep⟩ := hstep
  refine hawake.step hstep ?_ ?_ <;> rintro rfl <;> simp [Scheduler.goesOn] at hgoes

theorem Awake.of_reaches
    (hawake : Awake s) (hreaches : ReflTransGen (GoesOn refusals) s next) : Awake next := by
  induction hreaches with
  | refl => exact hawake
  | tail _ hstep ih => exact ih.goesOn hstep

theorem Awake.ended_or_lower
    (hawake : Awake s) (hstep : GoesOn refusals s next) :
    (next.stack = [] ∨ next.crash.isSome = true) ∨
      Effort.Lower (Work.Follows refusals) next.effort s.effort := by
  obtain ⟨label, hgoes, haccepts, hstep⟩ := hstep
  have hmove := (move_of_step hstep).2
  have hdue := (hmove.handlingStep hawake.frames).due_cases hawake.frames.ring
    (hmove.posted_eq_of_goesOn hgoes)
  rcases hdue with hless | ⟨hsame, hnow, hswaps⟩ | ⟨entry, hends⟩
  · exact .inr (.event hless)
  · cases hmove.progress hstep hawake.frames hawake.awake hgoes haccepts with
    | stuck hstuck => exact .inl hstuck
    | due hdue => simp [hnow, hswaps] at hdue
    | work hwork => exact .inr (.work hsame hwork)
    | place hwork hplace => exact .inr (.move hsame (.of_le hwork) hplace)
  · obtain ⟨code, rest, hstack, hcode⟩ := job_of_callEnds hends
    refine .inl (.inl ?_)
    cases label with
    | runner =>
        simp only [Scheduler.step, runnerStep, hstack, jobStep, hcode] at hstep
        split at hstep
        · simp at hstep
        · rw [← Option.some.inj hstep]
    | _ => simp [callEnds] at hends

/-- The kernel can answer with an entry taken if there is one. -/
theorem goesOn_of_canEnter
    (hring : RingInvariant s) (hcan : s.CanEnter) :
    ∃ next, GoesOn refusals s next := by
  obtain ⟨accepted, next, hstep⟩ := hcan
  by_cases htaken : s.goesOn (.enter accepted) = true
  · exact ⟨next, .enter accepted, htaken, .inl rfl, hstep⟩
  · obtain ⟨hcrash, hmove⟩ := move_of_step hstep
    simp only [goesOn, Bool.or_eq_true, bne_iff_ne, beq_iff_eq, not_or, not_not] at htaken
    obtain ⟨rfl, hsome⟩ := htaken
    cases hmove with
    | @enter rest _ hstack _ _ hlimit =>
        obtain ⟨n, -, hpow⟩ := hring.valid.geometry.powerOfTwo
        have hpos : 0 < s.io.sq.entries.toNat := hpow ▸ Nat.two_pow_pos n
        have hpending : 0 < s.io.sq.pending.toNat := by
          rw [Nat.pos_iff_ne_zero]
          exact fun hzero => hsome (UInt32.toNat_inj.mp hzero)
        have hone : 1 ≤ s.io.sq.pending.toNat ∧ 1 ≤ s.io.sq.entries.toNat ∧
            s.io.sq.pending.toNat ≤ 1 + backlogLimit := ⟨hpending, hpos, by omega⟩
        have hanswer : (s.step (.enter 1)).isSome = true := by
          simp [step, hcrash, hstack, ioUringEnter, hone]
        obtain ⟨after, hafter⟩ := Option.isSome_iff_exists.mp hanswer
        exact ⟨after, .enter 1, rfl, .inl rfl, hafter⟩
    | wake hstack hlabel => simp at hlabel
    | spawnFull hcall | spawnStart hcall => cases hcall

/-- The thread has left the scheduler or sleeps in `io_uring_enter` with nothing
completed; or its next await finds no room. -/
def AtRest (refusals : Prop) (s : Scheduler P) : Prop :=
  s.stack = [] ∨ s.crash.isSome = true ∨ s.Blocked ∨
    ¬ refusals ∧ s.acceptsAwait (.runner true) = false

theorem Awake.atRest
    (hawake : Awake s) (hstuck : ∀ next, ¬ GoesOn refusals s next) : AtRest refusals s := by
  by_cases hempty : s.stack = []
  · exact .inl hempty
  · cases hcrash : s.crash with
    | some crash => exact .inr (.inl (by rw [hcrash]; rfl))
    | none =>
        rcases canRun_or_canEnter_or_blocked hawake.frames.ring hawake.top hcrash hempty with
          ⟨next, hstep⟩ | henter | hblocked
        · refine .inr (.inr (.inr ?_))
          have hrefused : ¬ (s.acceptsAwait (.runner true) = true ∨ refusals) :=
            fun haccepts => hstuck next ⟨.runner true, rfl, haccepts, hstep⟩
          rw [not_or, Bool.not_eq_true] at hrefused
          exact hrefused.symm
        · obtain ⟨next, hnext⟩ := goesOn_of_canEnter hawake.frames.ring henter
          exact absurd hnext (hstuck next)
        · exact .inr (.inr (.inl hblocked))

/-- The thread cannot go on by itself for ever, and it is at rest where it stops. -/
structure ComesToRest (refusals : Prop) (s : Scheduler P) : Prop where
  finite : ¬ ∃ states : ℕ → Scheduler P, states 0 = s ∧
    ∀ n, GoesOn refusals (states n) (states (n + 1))
  rests : ∀ last, ReflTransGen (GoesOn refusals) s last →
    (∀ next, ¬ GoesOn refusals last next) → AtRest refusals last

theorem Awake.comesToRest
    (hyields : P.Yields refusals) (hawake : Awake s) : ComesToRest refusals s where
  finite := by
    have hacc : Acc (fun next s => GoesOn refusals s next) s :=
      acc_of_lower (Effort.Lower.wellFounded hyields) effort Awake
        (fun s next hawake hstep =>
          ⟨hawake.goesOn hstep, (hawake.ended_or_lower hstep).imp_left not_goesOn_of_stuck⟩) hawake
    rintro ⟨states, hstart, hsteps⟩
    exact (acc_iff_isEmpty_descending_chain.mp hacc).false ⟨states, hstart, hsteps⟩
  rests := fun _ hreaches hstuck => (hawake.of_reaches hreaches).atRest hstuck

end Scheduler

open Scheduler

/-- In every reachable state of a scheduler which is not shutting down, for every
program whose code returns or waits: the driving thread takes finitely many steps
between two events from outside, and then sleeps or has returned. -/
theorem driver_never_spins
    (P : Program) (refusals : Prop) (hyields : P.Yields refusals) {io : IoState}
    (hfresh : io.Fresh) (fd : Int32) (addr : UInt64)
    {history : List (Scheduler P × Label P)} {final : Scheduler P}
    (hrun : Run Scheduler.step (Scheduler.initial P io fd addr) history final)
    (hawake : final.shuttingDown = false) : final.ComesToRest refusals := by
  obtain ⟨-, htop⟩ := ringInvariant_topActive_of_run hfresh hrun
  have hframes : FrameInvariant final :=
    hrun.invariant FrameInvariant (.initial hfresh fd addr) fun _ _ _ => FrameInvariant.of_step
  exact Awake.comesToRest hyields ⟨hframes, htop, hawake⟩

/-- A loop around an await which the full ring refuses keeps the thread busy. -/
theorem Scheduler.refused_loop_spins
    {s : Scheduler P} {id : FrameId} {code : P.Code} {rest : List (Activation P)} {object : ℕ}
    {awt : Awaitable}
    (hcode : P.instr code = .coAwait object (some awt) fun _ => code)
    (hstack : s.stack = .coroutine id code :: rest)
    (hframe : (s.heap.frames id).isSome = true) (hcrash : s.crash = none)
    (hfull : s.io.sq.hasCapacity awt.needed = false) :
    ∃ states : ℕ → Scheduler P, states 0 = s ∧ ∀ n, GoesOn True (states n) (states (n + 1)) := by
  refine exists_endless (fun s => s.stack = .coroutine id code :: rest ∧
    (s.heap.frames id).isSome = true ∧ s.crash = none ∧
    s.io.sq.hasCapacity awt.needed = false) ?_ ⟨hstack, hframe, hcrash, hfull⟩
  rintro s ⟨hstack, hframe, hcrash, hfull⟩
  obtain ⟨frame, hframe⟩ := Option.isSome_iff_exists.mp hframe
  have hrefuse : { awt with result := 0, handle := none }.awaitSuspend (.awaitable id object)
      ⟨frame.root, s.ordinals frame.root⟩ s.io.sq = none := by
    rw [Awaitable.awaitSuspend_eq]
    exact if_neg (by rw [Bool.not_eq_true]; exact hfull)
  refine ⟨s.coAwait id frame object { awt with result := 0, handle := none } (fun _ => code) rest,
    ⟨.runner true, rfl, .inr trivial, ?_⟩, ?_⟩
  · simp [step, runnerStep, hcrash, hstack, coroutineStep, hframe, hcode, awaitedObject]
  · simp only [coAwait, hrefuse]
    exact ⟨trivial, by simp, hcrash, hfull⟩

/-- The bodies of `awaitScript` shrink at each await, and its callables end. -/
theorem awaitScript_yields (refusals : Prop) : awaitScript.Yields refusals := by
  have hcode : ∀ code : awaitScript.Code, Acc (Work.Follows refusals) (.code code) := by
    intro code
    induction code with
    | nil =>
        refine .intro _ fun work hwork => ?_
        cases hwork with
        | refused _ hcode | effect hcode | inner hcode | inTask hcode | body hcode
        | inSpawn hcode | post hcode => simp [awaitScript] at hcode
    | cons timed rest ih =>
        refine .intro _ fun work hwork => ?_
        cases hwork with
        | refused _ hcode value =>
            injection hcode with _ _ hnext
            exact hnext ▸ ih
        | effect hcode | inner hcode | inTask hcode | body hcode | inSpawn hcode | post hcode =>
            simp [awaitScript] at hcode
  refine Program.yields_of_acc hcode fun code => ?_
  cases code with
  | returned => exact Work.acc_of_ends (.inl rfl)
  | failed status => exact Work.acc_of_ends (.inr ⟨status, rfl⟩)
  | spawning body =>
      refine .intro _ fun work hwork => ?_
      cases hwork with
      | jobBody hjob => exact hcode _
      | jobPost hjob => simp [awaitScript] at hjob
      | jobInSpawn hjob =>
          injection hjob with _ hnext
          refine .intro _ fun work hwork => ?_
          cases hwork with
          | jobSpawned status =>
              rw [← hnext]
              cases status with
              | none => exact Work.acc_of_ends (.inl rfl)
              | some status => exact Work.acc_of_ends (.inr ⟨status, rfl⟩)

/-- A callable is in the inbox and a task has been spawned when `run` is called. -/
def runWithWork : List (Label awaitScript) :=
  [.callSpawn [false], .runner true, .runner true, .enqueue (.spawning [true]), .notify 0,
    .callRun false]

theorem driver_never_spins_runWithWork :
    ∃ history final,
      Run Scheduler.step (Scheduler.initial awaitScript (ringOfDepth 2) 3 64) history final ∧
      final.stack ≠ [] ∧ final.inbox ≠ [] ∧ final.ComesToRest True := by
  have hreplay : (replay Scheduler.step (fun _ _ => true)
      (Scheduler.initial awaitScript (ringOfDepth 2) 3 64) runWithWork).any
      (fun s => !s.shuttingDown && !s.stack.isEmpty && !s.inbox.isEmpty) = true := by
    decide +kernel
  obtain ⟨history, final, hrun, -, hcheck⟩ := exists_run_of_replay hreplay
  simp only [Bool.and_eq_true, Bool.not_eq_true', List.isEmpty_eq_false_iff] at hcheck
  obtain ⟨⟨hawake, hstack⟩, hinbox⟩ := hcheck
  exact ⟨history, final, hrun, hstack, hinbox,
    driver_never_spins awaitScript True (awaitScript_yields True)
      (ringOfDepth_created 1 (by omega) rfl).toFresh 3 64 hrun hawake⟩

end SlimCommonIo
