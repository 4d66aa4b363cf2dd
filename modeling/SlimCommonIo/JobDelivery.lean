import Mathlib.Data.Fintype.Option
import SlimCommonIo.RuntimeDispatch

/-!
# No job is lost, run twice or reordered

A job is with the dispatcher until it is pushed into the inbox of a worker, and
with that worker afterwards.  The trails of the two schedulers say where it is,
and the counter of the dispatcher who gets it.
-/

namespace SlimCommonIo

variable {Q : Program} {k : ℕ}

namespace Runtime

/-! ## Where a job is -/

/-- The position, among all jobs sent, of the callable a worker has under this
number. -/
def jobNumber (r : Runtime Q k) (worker : Fin k) (entry : Posted (runtimeProgram Q)) :
    Option ℕ :=
  r.sent.idxOf? (worker, entry.origin)

/-- The jobs which have returned on a worker, in the order they were run. -/
def ranOn (r : Runtime Q k) (worker : Fin k) : List ℕ :=
  (r.workers worker).scheduler.returned.filterMap (r.jobNumber worker)

/-- The jobs in a worker's current batch, with the one being executed, and in
its inbox. -/
def waitingAt (r : Runtime Q k) (worker : Fin k) : List ℕ :=
  (underway (r.workers worker).scheduler.stack ++
    (batches (r.workers worker).scheduler.stack ++
      (r.workers worker).scheduler.inbox)).filterMap (r.jobNumber worker)

/-- The job whose callable the dispatcher is executing and has not yet pushed
into a worker's inbox. -/
def unpushed (r : Runtime Q k) : Option (Posted (runtimeProgram Q)) :=
  match r.phase with
  | .fresh | .chosen _ => r.dispatching.map Prod.fst
  | .pushed _ _ | .written => none

/-- The callables which are still with the dispatcher: being executed, in its
batch and in its inbox. -/
def withDispatcher (r : Runtime Q k) : List (Posted (runtimeProgram Q)) :=
  r.unpushed.toList ++ (batches r.dispatcher.scheduler.stack ++ r.dispatcher.scheduler.inbox)

def undispatched (r : Runtime Q k) : List ℕ :=
  r.withDispatcher.map Posted.id

/-- The number of jobs pushed into the dispatcher's inbox. -/
def jobCount (r : Runtime Q k) : ℕ :=
  r.dispatcher.scheduler.nextPost

/-- The job pushed into the dispatcher's inbox at this position. -/
def jobAt (r : Runtime Q k) (j : ℕ) : Option (ℕ → Q.Job) :=
  match r.dispatcher.scheduler.trail[j]? with
  | some { fn := .dispatch job, .. } => some job
  | _ => none

/-- One if a worker has been chosen for a job not yet pushed. -/
def chosenCount (r : Runtime Q k) : ℕ :=
  match r.phase with
  | .chosen _ => 1
  | _ => 0

end Runtime

/-- How far the dispatcher has come, and that its counter agrees. -/
structure DispatcherInvariant (r : Runtime Q k) : Prop where
  plain : DispatchOnly r.dispatcher.scheduler
  invoked : r.dispatcher.scheduler.invoked.length =
    r.sent.length + r.unpushed.toList.length
  current : ∀ entry job, r.dispatching = some (entry, job) → entry.fn = .dispatch job ∧
    ∃ before, r.dispatcher.scheduler.invoked = before ++ [entry]
  idle : r.dispatching = none → r.phase = .fresh
  counter : r.nextWorker.toNat = (r.sent.length + r.chosenCount) % 2 ^ 64
  chosen : ∀ worker, r.phase = .chosen worker → (worker : ℕ) = r.sent.length % 2 ^ 64 % k

/-- The jobs sent are with their workers, in order. -/
structure DeliveryInvariant (r : Runtime Q k) : Prop where
  sentBounded : ∀ worker id, (worker, id) ∈ r.sent →
    id < (r.workers worker).scheduler.nextPost
  sorted : ∀ worker : Fin k, (r.workers worker).scheduler.trail.filterMap (r.jobNumber worker) =
    (List.range r.sent.length).filter fun j => j % 2 ^ 64 % k = worker
  callables : ∀ worker, ∀ entry ∈ (r.workers worker).scheduler.trail,
    ∀ j, r.jobNumber worker entry = some j →
      ∃ job, r.jobAt j = some job ∧ entry.fn = .client (job worker)

structure DispatchInvariant (r : Runtime Q k) : Prop where
  wellStacked : ∀ who, WellStacked (r.node who).scheduler.stack
  numbered : ∀ who, (r.node who).scheduler.Numbered
  dispatcher : DispatcherInvariant r
  delivery : DeliveryInvariant r

/-! ## The dispatcher -/

namespace DispatcherInvariant

variable {r next : Runtime Q k}

theorem dispatching_congr
    (hscheduler : next.dispatcher.scheduler = r.dispatcher.scheduler) :
    next.dispatching = r.dispatching := by
  rw [Runtime.dispatching, Runtime.dispatching, hscheduler]

theorem congr
    (hinv : DispatcherInvariant r) (hplain : DispatchOnly next.dispatcher.scheduler)
    (hdispatching : next.dispatching = r.dispatching)
    (hinvoked : next.dispatcher.scheduler.invoked = r.dispatcher.scheduler.invoked)
    (hsame : r.SameDispatch next) : DispatcherInvariant next := by
  obtain ⟨hcounter, hsent, hphase⟩ := hsame
  have hunpushed : next.unpushed = r.unpushed := by
    rw [Runtime.unpushed, Runtime.unpushed, hphase, hdispatching]
  have hchosen : next.chosenCount = r.chosenCount := by
    rw [Runtime.chosenCount, Runtime.chosenCount, hphase]
  constructor
  · exact hplain
  · rw [hinvoked, hsent, hunpushed]
    exact hinv.invoked
  · rw [hdispatching, hinvoked]
    exact hinv.current
  · rw [hdispatching, hphase]
    exact hinv.idle
  · rw [hcounter, hsent, hchosen]
    exact hinv.counter
  · rw [hphase, hsent]
    exact hinv.chosen

theorem advance
    (hinv : DispatcherInvariant r)
    (hscheduler : next.dispatcher.scheduler = r.dispatcher.scheduler)
    (hbusy : r.dispatching ≠ none)
    (hcount : next.sent.length + next.unpushed.toList.length =
      r.sent.length + r.unpushed.toList.length)
    (hcounter : next.nextWorker.toNat = (next.sent.length + next.chosenCount) % 2 ^ 64)
    (hchosen : ∀ worker, next.phase = .chosen worker →
      (worker : ℕ) = next.sent.length % 2 ^ 64 % k) : DispatcherInvariant next := by
  have hdispatching := dispatching_congr hscheduler
  constructor
  · rw [hscheduler]
    exact hinv.plain
  · rw [hscheduler, hcount]
    exact hinv.invoked
  · rw [hdispatching, hscheduler]
    exact hinv.current
  · rw [hdispatching]
    intro hnone
    exact absurd hnone hbusy
  · exact hcounter
  · exact hchosen

theorem invoke
    (hinv : DispatcherInvariant r) (hplain : DispatchOnly next.dispatcher.scheduler)
    (hsame : r.SameDispatch next) {entry : Posted (runtimeProgram Q)} {job : ℕ → Q.Job}
    (hbefore : r.dispatching = none) (hafter : next.dispatching = some (entry, job))
    (hfn : entry.fn = .dispatch job)
    (hinvoked : next.dispatcher.scheduler.invoked =
      r.dispatcher.scheduler.invoked ++ [entry]) : DispatcherInvariant next := by
  obtain ⟨hcounter, hsent, hphase⟩ := hsame
  have hfresh : r.phase = .fresh := hinv.idle hbefore
  have hold := hinv.invoked
  have hcount := hinv.counter
  simp only [Runtime.unpushed, hfresh, hbefore, Option.map_none, Option.toList_none,
    List.length_nil] at hold
  constructor
  · exact hplain
  · simp [hinvoked, hsent, Runtime.unpushed, hphase, hfresh, hafter, hold]
  · intro entry' job' hsome
    rw [hafter] at hsome
    cases hsome
    exact ⟨hfn, _, hinvoked⟩
  · simp [hafter]
  · rw [hcounter, hcount, hsent, Runtime.chosenCount, Runtime.chosenCount, hphase]
  · simp [hphase, hfresh]

theorem step
    (hinv : DispatcherInvariant r) {label : RuntimeLabel Q k} (hstep : r.DispatchStep label next)
    (hwell : WellStacked r.dispatcher.scheduler.stack) : DispatcherInvariant next := by
  cases hstep with
  | control hnodes hsame =>
      have hscheduler : next.dispatcher.scheduler = r.dispatcher.scheduler := hnodes none
      exact hinv.congr (hscheduler ▸ hinv.plain) (dispatching_congr hscheduler)
        (by rw [hscheduler]) hsame
  | moves who label hsteps hlabel hpush hbusy hsame =>
      cases who with
      | none =>
          have hmove := (Scheduler.move_of_step hsteps.step).2
          have hplain := hinv.plain.step hmove (hlabel rfl)
          cases hmove.executingStep hinv.plain (hlabel rfl) hwell with
          | same hexecuting hinvoked _ => exact hinv.congr hplain hexecuting hinvoked hsame
          | returns hbefore _ _ hrunner =>
              rw [hbusy rfl hbefore] at hrunner
              simp at hrunner
          | invokes entry job hbefore hafter hfn hinvoked =>
              exact hinv.invoke hplain hsame hbefore hafter hfn hinvoked
      | some worker =>
          have hscheduler : next.dispatcher.scheduler = r.dispatcher.scheduler :=
            hsteps.others none (by simp)
          exact hinv.congr (hscheduler ▸ hinv.plain) (dispatching_congr hscheduler)
            (by rw [hscheduler]) hsame
  | returns allocated hsteps hdispatching hphase hfresh hcounter hsent =>
      have hmove := (Scheduler.move_of_step hsteps.step).2
      have hplain := hinv.plain.step hmove trivial
      have hold := hinv.invoked
      have hcount := hinv.counter
      simp only [Runtime.unpushed, hphase, Option.toList_none, List.length_nil] at hold
      simp only [Runtime.chosenCount, hphase] at hcount
      cases hmove.executingStep hinv.plain trivial hwell with
      | same _ _ hrunner => simp [Label.isRunner] at hrunner; exact absurd hrunner hdispatching
      | invokes _ _ hbefore _ _ _ => exact absurd hbefore hdispatching
      | returns _ hafter hinvoked _ =>
          have hnone : next.dispatching = none := hafter
          constructor
          · exact hplain
          · simp only [Runtime.unpushed, hfresh, hnone, hsent]
            exact (congrArg List.length hinvoked).trans hold
          · simp [hnone]
          · simp [hfresh]
          · simp only [hcounter, hcount, hsent, Runtime.chosenCount, hfresh]
          · simp [hfresh]
  | chooses hworkers hnodes hdispatching hphase hchosen hcounter hsent =>
      have hcount := hinv.counter
      simp only [Runtime.chosenCount, hphase, Nat.add_zero] at hcount
      refine hinv.advance (hnodes none) hdispatching ?_ ?_ ?_
      · rw [hsent, Runtime.unpushed, Runtime.unpushed, hphase, hchosen,
          dispatching_congr (hnodes none)]
      · simp only [hcounter, UInt64.toNat_add, hcount, hsent, Runtime.chosenCount, hchosen]
        simp
      · intro worker hworker
        rw [hchosen] at hworker
        cases hworker
        simp only [hcount, hsent]
  | pushes entry job worker hsteps hdispatching hphase hpushed hcounter hsent =>
      obtain ⟨id, hid⟩ := hpushed
      have hcount := hinv.counter
      simp only [Runtime.chosenCount, hphase] at hcount
      refine hinv.advance (hsteps.others none (by simp)) (by simp [hdispatching]) ?_ ?_ ?_
      · simp [hsent, Runtime.unpushed, hphase, hid, hdispatching]
      · simp [hcounter, hcount, hsent, Runtime.chosenCount, hid]
      · simp [hid]
  | writes worker id hsteps hdispatching hphase hwritten hcounter hsent =>
      have hcount := hinv.counter
      simp only [Runtime.chosenCount, hphase] at hcount
      refine hinv.advance (hsteps.others none (by simp)) hdispatching ?_ ?_ ?_
      · simp [hsent, Runtime.unpushed, hphase, hwritten]
      · simp [hcounter, hcount, hsent, Runtime.chosenCount, hwritten]
      · simp [hwritten]

theorem jobAt_pushing
    (hinv : DispatcherInvariant r) {entry : Posted (runtimeProgram Q)} {job : ℕ → Q.Job}
    {worker : Fin k} (hdispatching : r.dispatching = some (entry, job))
    (hphase : r.phase = .chosen worker) : r.jobAt r.sent.length = some job := by
  obtain ⟨hfn, before, hbefore⟩ := hinv.current entry job hdispatching
  have hlength := hinv.invoked
  simp only [hbefore, Runtime.unpushed, hphase, hdispatching, List.length_append,
    List.length_singleton, Option.map_some, Option.toList_some] at hlength
  have hposition : r.dispatcher.scheduler.trail[r.sent.length]? = some entry := by
    rw [Scheduler.trail, hbefore, ← Nat.add_right_cancel hlength]
    simp
  rw [Runtime.jobAt, hposition]
  obtain ⟨id, origin, fn⟩ := entry
  simp only at hfn
  rw [hfn]

end DispatcherInvariant

/-! ## The workers -/

namespace Runtime

variable {r next : Runtime Q k}

/-- A scheduler's trail stays or grows by one new callable. -/
def Extends (s next : Scheduler (runtimeProgram Q)) : Prop :=
  (next.trail = s.trail ∧ next.nextPost = s.nextPost) ∨
    ∃ fn, next.trail = s.trail ++ [⟨s.nextPost, s.nextPost, fn⟩] ∧
      next.nextPost = s.nextPost + 1

theorem Extends.nextPost_le
    {s next : Scheduler (runtimeProgram Q)} (hextends : Extends s next) :
    s.nextPost ≤ next.nextPost := by
  rcases hextends with ⟨-, hpost⟩ | ⟨fn, -, hpost⟩ <;> omega

theorem Extends.jobAt
    (hextends : Extends r.dispatcher.scheduler next.dispatcher.scheduler) {j : ℕ}
    {job : ℕ → Q.Job} (hjob : r.jobAt j = some job) : next.jobAt j = some job := by
  unfold Runtime.jobAt at hjob ⊢
  cases hentry : r.dispatcher.scheduler.trail[j]? with
  | none => simp [hentry] at hjob
  | some entry =>
      have hsame : next.dispatcher.scheduler.trail[j]? = some entry := by
        rcases hextends with ⟨htrail, -⟩ | ⟨fn, htrail, -⟩
        · rw [htrail, hentry]
        · have hlt := (List.getElem?_eq_some_iff.mp hentry).1
          rw [htrail, List.getElem?_append_left hlt, hentry]
      rw [hsame]
      rw [hentry] at hjob
      exact hjob

theorem jobNumber_congr (hsent : next.sent = r.sent) (worker : Fin k) :
    next.jobNumber worker = r.jobNumber worker := by
  funext entry
  rw [Runtime.jobNumber, Runtime.jobNumber, hsent]

theorem jobNumber_push
    {worker : Fin k} {id : ℕ} (hsent : next.sent = r.sent ++ [(worker, id)])
    (other : Fin k) (entry : Posted (runtimeProgram Q)) :
    next.jobNumber other entry = (r.jobNumber other entry).or
      (if (worker, id) = (other, entry.origin) then some r.sent.length else none) := by
  rw [jobNumber, jobNumber, hsent, List.idxOf?, List.findIdx?_append]
  by_cases hnew : (worker, id) = (other, entry.origin)
  · simp [hnew, List.findIdx?_cons]
  · have hne : ((worker, id) == (other, entry.origin)) = false := by simpa using hnew
    rw [if_neg hnew]
    simp [List.findIdx?_cons, hne]

end Runtime

namespace DeliveryInvariant

variable {r next : Runtime Q k}

/-- A callable a worker is given under its next number is no job sent before. -/
theorem jobNumber_fresh
    (hinv : DeliveryInvariant r) (worker : Fin k) (fn : RuntimeJob Q) :
    r.jobNumber worker ⟨(r.workers worker).scheduler.nextPost,
      (r.workers worker).scheduler.nextPost, fn⟩ = none := by
  rw [Runtime.jobNumber, List.idxOf?_eq_none_iff]
  intro hmem
  exact Nat.lt_irrefl _ (hinv.sentBounded worker _ hmem)

theorem extend
    (hinv : DeliveryInvariant r)
    (hextends : ∀ who, Runtime.Extends (r.node who).scheduler (next.node who).scheduler)
    (hsent : next.sent = r.sent) : DeliveryInvariant next := by
  constructor
  · intro worker id hmem
    rw [hsent] at hmem
    exact Nat.lt_of_lt_of_le (hinv.sentBounded worker id hmem)
      (hextends (some worker)).nextPost_le
  · intro worker
    rw [Runtime.jobNumber_congr hsent, hsent, ← hinv.sorted worker]
    rcases hextends (some worker) with ⟨htrail, -⟩ | ⟨fn, htrail, -⟩
    · exact congrArg _ htrail
    · simp only [Runtime.node_some] at htrail
      rw [htrail, List.filterMap_append,
        List.filterMap_cons_none (hinv.jobNumber_fresh worker fn), List.filterMap_nil,
        List.append_nil]
  · intro worker entry hentry j hj
    rw [Runtime.jobNumber_congr hsent] at hj
    have hold : entry ∈ (r.workers worker).scheduler.trail →
        ∃ job, next.jobAt j = some job ∧ entry.fn = .client (job worker) := by
      intro hmem
      obtain ⟨job, hjob, hfn⟩ := hinv.callables worker entry hmem j hj
      exact ⟨job, (hextends none).jobAt hjob, hfn⟩
    rcases hextends (some worker) with ⟨htrail, -⟩ | ⟨fn, htrail, -⟩
    · exact hold (htrail ▸ hentry)
    · have hmem : entry ∈ (r.workers worker).scheduler.trail ++ [_] := htrail ▸ hentry
      rcases List.mem_append.mp hmem with hin | hnew
      · exact hold hin
      · rw [List.mem_singleton.mp hnew] at hj
        exact absurd (hj.symm.trans (hinv.jobNumber_fresh worker fn)) (by simp)

/-- The dispatcher pushes a job into the inbox of the worker whose turn it is. -/
theorem push
    (hinv : DeliveryInvariant r) {worker : Fin k} {job : ℕ → Q.Job}
    (hnumbered : (r.workers worker).scheduler.Numbered)
    (hothers : ∀ other, other ≠ some worker →
      (next.node other).scheduler = (r.node other).scheduler)
    (htrail : (next.workers worker).scheduler.trail = (r.workers worker).scheduler.trail ++
      [⟨(r.workers worker).scheduler.nextPost, (r.workers worker).scheduler.nextPost,
        .client (job worker)⟩])
    (hpost : (next.workers worker).scheduler.nextPost =
      (r.workers worker).scheduler.nextPost + 1)
    (hsent : next.sent = r.sent ++ [(worker, (r.workers worker).scheduler.nextPost)])
    (hworker : (worker : ℕ) = r.sent.length % 2 ^ 64 % k)
    (hjob : r.jobAt r.sent.length = some job) : DeliveryInvariant next := by
  have hdispatcher : next.dispatcher.scheduler = r.dispatcher.scheduler :=
    hothers none (by simp)
  have hjobAt : ∀ j, next.jobAt j = r.jobAt j := by
    intro j
    rw [Runtime.jobAt, Runtime.jobAt, hdispatcher]
  have hother : ∀ other, other ≠ worker →
      (next.workers other).scheduler = (r.workers other).scheduler ∧
        next.jobNumber other = r.jobNumber other := by
    intro other hne
    refine ⟨hothers (some other) (by simpa using hne), ?_⟩
    funext entry
    rw [Runtime.jobNumber_push hsent, if_neg (by simp [hne.symm]), Option.or_none]
  have hold : ∀ entry ∈ (r.workers worker).scheduler.trail,
      next.jobNumber worker entry = r.jobNumber worker entry := by
    intro entry hentry
    have hlt := hnumbered.lt hentry
    rw [← hnumbered.origins entry hentry] at hlt
    have hne : (r.workers worker).scheduler.nextPost ≠ entry.origin := hlt.ne'
    rw [Runtime.jobNumber_push hsent, if_neg (by simp [hne]), Option.or_none]
  have hnew : next.jobNumber worker ⟨(r.workers worker).scheduler.nextPost,
      (r.workers worker).scheduler.nextPost, .client (job worker)⟩ =
        some r.sent.length := by
    rw [Runtime.jobNumber_push hsent, hinv.jobNumber_fresh worker]
    simp
  constructor
  · intro other id hmem
    rw [hsent, List.mem_append, List.mem_singleton] at hmem
    rcases hmem with hin | hlast
    · have hlt := hinv.sentBounded other id hin
      by_cases hne : other = worker
      · subst hne
        omega
      · rw [(hother other hne).1]
        exact hlt
    · cases hlast
      omega
  · intro other
    rw [hsent, List.length_append, List.length_singleton, List.range_succ, List.filter_append]
    by_cases hne : other = worker
    · subst hne
      rw [htrail, List.filterMap_append, List.filterMap_congr hold, hinv.sorted other,
        List.filterMap_cons_some hnew, List.filter_cons, if_pos (decide_eq_true hworker.symm)]
      rfl
    · have hskip : r.sent.length % 2 ^ 64 % k ≠ (other : ℕ) := by
        rw [← hworker]
        exact fun heq => hne (Fin.ext heq.symm)
      rw [(hother other hne).1, (hother other hne).2, hinv.sorted other, List.filter_cons,
        if_neg fun hturn => hskip (of_decide_eq_true hturn), List.filter_nil, List.append_nil]
  · intro other entry hentry j hj
    rw [hjobAt]
    by_cases hne : other = worker
    · subst hne
      rw [htrail, List.mem_append, List.mem_singleton] at hentry
      rcases hentry with hin | rfl
      · rw [hold entry hin] at hj
        exact hinv.callables other entry hin j hj
      · rw [hnew, Option.some.injEq] at hj
        exact ⟨job, hj ▸ hjob, rfl⟩
    · rw [(hother other hne).1] at hentry
      rw [(hother other hne).2] at hj
      exact hinv.callables other entry hentry j hj

end DeliveryInvariant

/-! ## Whole runs -/

namespace DispatchInvariant

variable {r next : Runtime Q k}

theorem schedulers_of_steps
    (hinv : DispatchInvariant r) {who : NodeId k} {label : Label (runtimeProgram Q)}
    (hsteps : r.Steps next who label)
    (hnormal : ∀ who, (r.node who).scheduler.throwing = false) :
    (∀ other, WellStacked (next.node other).scheduler.stack) ∧
      (∀ other, (next.node other).scheduler.Numbered) ∧
      ∀ other, Runtime.Extends (r.node other).scheduler (next.node other).scheduler := by
  have hmove := (Scheduler.move_of_step hsteps.step).2
  have htrail := hmove.trailStep (hinv.wellStacked who) (hnormal who)
  have hall : ∀ other, WellStacked (next.node other).scheduler.stack ∧
      (next.node other).scheduler.Numbered ∧
      Runtime.Extends (r.node other).scheduler (next.node other).scheduler := by
    intro other
    by_cases hother : other = who
    · subst hother
      refine ⟨hmove.wellStacked (hinv.wellStacked other), (hinv.numbered other).step htrail, ?_⟩
      rcases htrail.trail_eq with ⟨hsame, hpost, -⟩ | ⟨fn, happend, hpost, -⟩
      · exact .inl ⟨hsame, hpost⟩
      · exact .inr ⟨fn, happend, hpost⟩
    · rw [hsteps.others other hother]
      exact ⟨hinv.wellStacked other, hinv.numbered other, .inl ⟨rfl, rfl⟩⟩
  exact ⟨fun other => (hall other).1, fun other => (hall other).2.1,
    fun other => (hall other).2.2⟩

theorem sent_le (hinv : DispatchInvariant r) : r.sent.length ≤ r.jobCount := by
  have htrail : r.dispatcher.scheduler.trail.length = r.dispatcher.scheduler.nextPost := by
    simpa using congrArg List.length (hinv.numbered none).ids
  have hinvoked := hinv.dispatcher.invoked
  rw [Scheduler.trail, List.length_append] at htrail
  rw [Runtime.jobCount]
  omega

theorem initial (dispatcherIo : IoState) (workerIo : Fin k → IoState)
    (fd : NodeId k → Int32) (addr : NodeId k → UInt64) :
    DispatchInvariant (Runtime.initial Q dispatcherIo workerIo fd addr) := by
  constructor
  · intro who
    cases who <;> trivial
  · intro who
    cases who <;> exact .initial _ _ _
  · constructor
    · exact .initial _ _ _
    · rfl
    · simp [Runtime.initial, Runtime.dispatching, Scheduler.initial]
    · simp [Runtime.initial]
    · rfl
    · simp [Runtime.initial]
  · constructor <;>
      simp [Runtime.initial, Scheduler.initial, Scheduler.trail, Scheduler.invoked, batches]

theorem step
    (hinv : DispatchInvariant r) {label : RuntimeLabel Q k} (hstep : r.DispatchStep label next)
    (hnormal : ∀ who, (r.node who).scheduler.throwing = false) : DispatchInvariant next := by
  have hdispatcher := hinv.dispatcher.step hstep (hinv.wellStacked none)
  have hnodes : ∀ {next : Runtime Q k},
      (∀ who, (next.node who).scheduler = (r.node who).scheduler) → next.sent = r.sent →
      DispatcherInvariant next → DispatchInvariant next := by
    intro next hsame hsent hdispatcher
    refine ⟨?_, ?_, hdispatcher, ?_⟩
    · intro who
      exact hsame who ▸ hinv.wellStacked who
    · intro who
      exact hsame who ▸ hinv.numbered who
    · exact hinv.delivery.extend (fun who => .inl (by rw [hsame]; exact ⟨rfl, rfl⟩)) hsent
  cases hstep with
  | control hsame hdispatch => exact hnodes hsame hdispatch.sent hdispatcher
  | chooses _ hsame _ _ _ _ hsent => exact hnodes hsame hsent hdispatcher
  | moves _ _ hsteps _ _ _ hdispatch =>
      obtain ⟨hwell, hnumbered, hextends⟩ := hinv.schedulers_of_steps hsteps hnormal
      exact ⟨hwell, hnumbered, hdispatcher, hinv.delivery.extend hextends hdispatch.sent⟩
  | returns _ hsteps _ _ _ _ hsent | writes _ _ hsteps _ _ _ _ hsent =>
      obtain ⟨hwell, hnumbered, hextends⟩ := hinv.schedulers_of_steps hsteps hnormal
      exact ⟨hwell, hnumbered, hdispatcher, hinv.delivery.extend hextends hsent⟩
  | pushes entry job worker hsteps hdispatching hphase _ _ hsent =>
      obtain ⟨hwell, hnumbered, -⟩ := hinv.schedulers_of_steps hsteps hnormal
      have htrail := (Scheduler.move_of_step hsteps.step).2.trailStep
        (hinv.wellStacked (some worker)) (hnormal (some worker))
      rcases htrail.trail_eq with ⟨-, -, hlabel⟩ | ⟨fn, happend, hpost, heq | ⟨⟨_, heq⟩, -⟩⟩
      · exact absurd rfl (hlabel _)
      · rw [← Label.enqueue.inj heq] at happend
        exact ⟨hwell, hnumbered, hdispatcher, hinv.delivery.push (hinv.numbered (some worker))
          hsteps.others happend hpost hsent (hinv.dispatcher.chosen worker hphase)
          (hinv.dispatcher.jobAt_pushing hdispatching hphase)⟩
      · simp at heq

end DispatchInvariant

/-- The callable `Runtime::post` wraps around a job. -/
def wrap (job : ℕ → Q.Job) : (runtimeProgram Q).Job :=
  .dispatch job

/-- The job of a client's call of `Runtime::post`. -/
def RuntimeLabel.postedJob : RuntimeLabel Q k → Option (ℕ → Q.Job)
  | .post job => some job
  | _ => none

/-- The jobs posted in a run, in the order of their pushes into the
dispatcher's inbox. -/
def jobsPosted (history : List (Runtime Q k × RuntimeLabel Q k)) : List (ℕ → Q.Job) :=
  history.filterMap fun visit => visit.2.postedJob

namespace DispatchInvariant

variable {r next : Runtime Q k}

theorem dispatcherTrail
    (hinv : DispatchInvariant r) {label : RuntimeLabel Q k} (hmove : r.Move label next) :
    next.dispatcher.scheduler.trail.map Posted.fn =
      r.dispatcher.scheduler.trail.map Posted.fn ++ label.postedJob.toList.map wrap := by
  have hpush : ∀ {inner : Label (runtimeProgram Q)} {s : Scheduler (runtimeProgram Q)},
      r.dispatcher.scheduler.step inner = some s →
      (s.trail = r.dispatcher.scheduler.trail ∧ ∀ job, inner ≠ .enqueue job) ∨
        ∃ fn, inner = .enqueue fn ∧ s.trail.map Posted.fn =
          r.dispatcher.scheduler.trail.map Posted.fn ++ [fn] := by
    intro inner s hstep
    have htrail := (Scheduler.move_of_step hstep).2.trailStep (hinv.wellStacked none)
      hinv.dispatcher.plain.not_throwing
    rcases htrail.trail_eq with ⟨hsame, -, hlabel⟩ | ⟨fn, happend, -, heq | ⟨-, below, hcall⟩⟩
    · exact .inl ⟨hsame, hlabel⟩
    · exact .inr ⟨fn, heq, by simp [happend]⟩
    · cases hcall with
      | job hstack hcode => simp [(hinv.dispatcher.plain.job_eq_ret hstack).2] at hcode
      | coroutine _ hframe _ => simp [hinv.dispatcher.plain.frames] at hframe
  have hkeep : (∀ job, label ≠ .post job) →
      next.dispatcher.scheduler.trail = r.dispatcher.scheduler.trail := by
    intro hlabel
    cases hmove.dispatchStep with
    | control hnodes _ | chooses _ hnodes _ _ _ _ _ =>
        exact congrArg Scheduler.trail (hnodes none)
    | pushes _ _ _ hsteps _ _ _ _ _ | writes _ _ hsteps _ _ _ _ _ =>
        exact congrArg Scheduler.trail (hsteps.others none (by simp))
    | returns _ hsteps _ _ _ _ _ =>
        rcases hpush hsteps.step with ⟨hsame, -⟩ | ⟨fn, heq, -⟩
        · exact hsame
        · simp at heq
    | moves who inner hsteps _ henqueue _ _ =>
        cases who with
        | some worker => exact congrArg Scheduler.trail (hsteps.others none (by simp))
        | none =>
            rcases hpush hsteps.step with ⟨hsame, -⟩ | ⟨fn, heq, -⟩
            · exact hsame
            · obtain ⟨wrapped, hpost⟩ := henqueue fn heq
              exact absurd hpost (hlabel wrapped)
  cases label with
  | post job =>
      cases hmove with
      | post hstep =>
          rcases hpush hstep with ⟨-, hne⟩ | ⟨fn, heq, happend⟩
          · exact absurd rfl (hne _)
          · rw [← Label.enqueue.inj heq] at happend
            exact happend
      | callIgnored hlabel => simp at hlabel
  | _ =>
      rw [hkeep (by simp)]
      exact (List.append_nil _).symm

end DispatchInvariant

/-- Where each of these jobs is. -/
structure Delivered (jobs : List (ℕ → Q.Job)) (r : Runtime Q k) : Prop where
  count : r.jobCount = jobs.length
  /-- With the dispatcher, waiting at the worker whose turn it is, or run there. -/
  once : ∀ j < jobs.length, ∀ worker : Fin k, (worker : ℕ) = j % k →
    r.undispatched.count j + (r.waitingAt worker).count j + (r.ranOn worker).count j = 1
  elsewhere : ∀ j < jobs.length, ∀ worker : Fin k, (worker : ℕ) ≠ j % k →
    j ∉ r.waitingAt worker ∧ j ∉ r.ranOn worker
  /-- The dispatcher's callables are those posted. -/
  kept : ∀ entry ∈ r.withDispatcher, ∃ job,
    jobs[entry.id]? = some job ∧ entry.fn = .dispatch job
  /-- A worker's callable is the job applied to the worker's own position. -/
  handed : ∀ worker, ∀ entry ∈ (r.workers worker).scheduler.trail,
    ∀ j, r.jobNumber worker entry = some j → ∃ job,
      jobs[j]? = some job ∧ entry.fn = .client (job worker)
  ordered : ∀ worker, (r.ranOn worker ++ r.waitingAt worker).Pairwise (· < ·)

namespace DispatchInvariant

variable {r : Runtime Q k}

theorem invoked_eq_append
    (hinv : DispatchInvariant r) : ∃ before, before.length = r.sent.length ∧
      r.dispatcher.scheduler.invoked = before ++ r.unpushed.toList := by
  have hlength := hinv.dispatcher.invoked
  cases hunpushed : r.unpushed with
  | none =>
      rw [hunpushed] at hlength
      exact ⟨r.dispatcher.scheduler.invoked, hlength, (List.append_nil _).symm⟩
  | some entry =>
      obtain ⟨job, hdispatching⟩ : ∃ job, r.dispatching = some (entry, job) := by
        unfold Runtime.unpushed at hunpushed
        split at hunpushed
        next => simpa using hunpushed
        next => simpa using hunpushed
        next => simp at hunpushed
        next => simp at hunpushed
      obtain ⟨-, before, hbefore⟩ := hinv.dispatcher.current entry job hdispatching
      rw [hunpushed, hbefore] at hlength
      exact ⟨before, by simpa using hlength, hbefore⟩

theorem range_jobCount
    (hinv : DispatchInvariant r) :
    List.range r.jobCount = List.range r.sent.length ++ r.undispatched := by
  obtain ⟨before, hlength, hinvoked⟩ := hinv.invoked_eq_append
  have hids := (hinv.numbered none).ids
  have hle := hinv.sent_le
  rw [Runtime.jobCount] at hle ⊢
  simp only [Runtime.node_none, Scheduler.trail, hinvoked, List.append_assoc,
    List.map_append] at hids
  have hbefore : before.map Posted.id = List.range r.sent.length := by
    have htake := congrArg (List.take r.sent.length) hids
    rw [List.take_left' (by simpa using hlength), List.take_range,
      Nat.min_eq_left hle] at htake
    exact htake
  rw [hbefore] at hids
  simp [← hids, Runtime.undispatched, Runtime.withDispatcher]

/-- The jobs a worker has run and those waiting there are those it was sent. -/
theorem ranOn_append_waitingAt
    (hinv : DispatchInvariant r) (hbound : r.jobCount < 2 ^ 64) (worker : Fin k) :
    r.ranOn worker ++ r.waitingAt worker =
      (List.range r.sent.length).filter fun j => j % k = worker := by
  have hinvoked := (hinv.numbered (some worker)).returned_append
  rw [Runtime.node_some] at hinvoked
  have hturn : (List.range r.sent.length).filter (fun j => j % k = worker) =
      (List.range r.sent.length).filter fun j => j % 2 ^ 64 % k = worker := by
    apply List.filter_congr
    intro j hj
    have hlt : j < 2 ^ 64 :=
      Nat.lt_trans (Nat.lt_of_lt_of_le (List.mem_range.mp hj) hinv.sent_le) hbound
    rw [Nat.mod_eq_of_lt hlt]
  rw [hturn, ← hinv.delivery.sorted worker, Runtime.ranOn, Runtime.waitingAt,
    ← List.filterMap_append, ← List.append_assoc, hinvoked]
  rfl

theorem jobAt_eq
    {jobs : List (ℕ → Q.Job)} (hposts : r.dispatcher.scheduler.trail.map Posted.fn =
      jobs.map wrap) (j : ℕ) : r.jobAt j = jobs[j]? := by
  have hfn : (r.dispatcher.scheduler.trail[j]?).map Posted.fn = jobs[j]?.map wrap := by
    rw [← List.getElem?_map, hposts, List.getElem?_map]
  unfold Runtime.jobAt
  cases htrail : r.dispatcher.scheduler.trail[j]? with
  | none =>
      rw [htrail, Option.map_none, eq_comm, Option.map_eq_none_iff] at hfn
      exact hfn.symm
  | some entry =>
      rw [htrail, Option.map_some, eq_comm, Option.map_eq_some_iff] at hfn
      obtain ⟨job, hjob, hentry⟩ := hfn
      obtain ⟨id, origin, fn⟩ := entry
      simp only at hentry
      rw [hjob, ← hentry]
      rfl

theorem delivered
    (hinv : DispatchInvariant r) (hbound : r.jobCount < 2 ^ 64) {jobs : List (ℕ → Q.Job)}
    (hposts : r.dispatcher.scheduler.trail.map Posted.fn = jobs.map wrap) :
    Delivered jobs r := by
  have hcount : r.jobCount = jobs.length := by
    have hlength := congrArg List.length (hinv.numbered none).ids
    have hjobs := congrArg List.length hposts
    simp only [Runtime.node_none, List.length_map, List.length_range] at hlength hjobs
    rw [Runtime.jobCount, ← hlength, hjobs]
  constructor
  · exact hcount
  · intro j hj worker hworker
    have hone : (List.range r.jobCount).count j = 1 :=
      List.count_eq_one_of_mem List.nodup_range (List.mem_range.mpr (hcount ▸ hj))
    have hworkers := congrArg (List.count j) (hinv.ranOn_append_waitingAt hbound worker)
    rw [List.count_append, List.count_filter (by simp [hworker])] at hworkers
    rw [hinv.range_jobCount, List.count_append] at hone
    omega
  · intro j _ worker hworker
    have hnot : j ∉ r.ranOn worker ++ r.waitingAt worker := by
      rw [hinv.ranOn_append_waitingAt hbound worker, List.mem_filter]
      simp [hworker.symm]
    simp only [List.mem_append, not_or] at hnot
    exact ⟨hnot.2, hnot.1⟩
  · intro entry hentry
    obtain ⟨before, -, hinvoked⟩ := hinv.invoked_eq_append
    have hmem : entry ∈ r.dispatcher.scheduler.trail := by
      rw [Scheduler.trail, hinvoked, List.append_assoc]
      exact List.mem_append_right _ hentry
    have hposition : r.dispatcher.scheduler.trail[entry.id]? = some entry :=
      (hinv.numbered none).getElem?_id hmem
    have hfn : jobs[entry.id]?.map wrap = some entry.fn := by
      rw [← List.getElem?_map, ← hposts, List.getElem?_map, hposition]
      rfl
    obtain ⟨job, hjob, hdispatch⟩ := Option.map_eq_some_iff.mp hfn
    exact ⟨job, hjob, hdispatch.symm⟩
  · intro worker entry hentry j hj
    obtain ⟨job, hjob, hfn⟩ := hinv.delivery.callables worker entry hentry j hj
    exact ⟨job, by rw [← jobAt_eq hposts, hjob], hfn⟩
  · intro worker
    rw [hinv.ranOn_append_waitingAt hbound worker]
    exact List.Pairwise.filter _ List.pairwise_lt_range

end DispatchInvariant

open Transition

theorem dispatchInvariant_of_run
    {dispatcherIo : IoState} {workerIo : Fin k → IoState} {fd : NodeId k → Int32}
    {addr : NodeId k → UInt64} {history : List (Runtime Q k × RuntimeLabel Q k)}
    {final : Runtime Q k}
    (hrun : Run Runtime.step (Runtime.initial Q dispatcherIo workerIo fd addr) history final)
    (hnormal : ∀ visit ∈ history, ∀ who, (visit.1.node who).scheduler.throwing = false) :
    DispatchInvariant final ∧
      final.dispatcher.scheduler.trail.map Posted.fn = (jobsPosted history).map wrap := by
  induction hrun with
  | nil => exact ⟨.initial _ _ _ _, rfl⟩
  | @snoc history state next label _ hstep ih =>
      have hmove := Runtime.move_of_step hstep
      obtain ⟨hinv, hposts⟩ :=
        ih (fun visit hvisit => hnormal visit (List.mem_append_left _ hvisit))
      have hlast := hnormal (state, label) (by simp)
      refine ⟨hinv.step hmove.dispatchStep hlast, ?_⟩
      rw [hinv.dispatcherTrail hmove, hposts, ← List.map_append]
      congr 1
      simp [jobsPosted, List.filterMap_cons]
      cases label.postedJob <;> rfl

/-- Whatever the threads do, and however often the runtime is stopped and
started again: as long as callables return, every job posted is with the
dispatcher, or at the worker whose turn it is, or has been run there, once and
in order. -/
theorem jobs_delivered_once_in_order
    {dispatcherIo : IoState} {workerIo : Fin k → IoState} {fd : NodeId k → Int32}
    {addr : NodeId k → UInt64} {history : List (Runtime Q k × RuntimeLabel Q k)}
    {final : Runtime Q k}
    (hrun : Run Runtime.step (Runtime.initial Q dispatcherIo workerIo fd addr) history final)
    (hnormal : ∀ visit ∈ history, ∀ who, (visit.1.node who).scheduler.throwing = false)
    (hbound : final.jobCount < 2 ^ 64) : Delivered (jobsPosted history) final := by
  obtain ⟨hinv, hposts⟩ := dispatchInvariant_of_run hrun hnormal
  exact hinv.delivered hbound hposts

def smallRuntime (k : ℕ) : Runtime awaitScript k :=
  Runtime.initial awaitScript (ringOfDepth 2) (fun _ => ringOfDepth 2) (fun _ => 3) (fun _ => 64)

/-- The thread of a node takes so many steps. -/
def nodeRuns {k : ℕ} (who : NodeId k) (steps : ℕ) : List (RuntimeLabel awaitScript k) :=
  List.replicate steps (.drives who (.runner true))

/-- The thread of a node enters `run`, sleeps on its eventfd read and is woken. -/
def nodeWakes {k : ℕ} (who : NodeId k) : List (RuntimeLabel awaitScript k) :=
  .threadStarts who :: nodeRuns who 2 ++
    [.drives who (.enter 1), .drives who (.complete 0 8)]

/-- Three jobs are posted; the first is dispatched and run by its worker, the
second is dispatched. -/
def threeJobs : List (RuntimeLabel awaitScript 2) :=
  [.callStart, .caller, .caller, .caller, .caller, .post fun _ => .returned, .posted 0,
    .post fun _ => .returned, .post fun _ => .returned] ++
  nodeWakes none ++ nodeRuns none 5 ++ [.dispatch, .dispatch, .dispatch] ++
  nodeWakes (some 0) ++ nodeRuns (some 0) 6 ++ nodeRuns none 2 ++ [.dispatch, .dispatch]

theorem jobs_delivered_threeJobs :
    ∃ history final, Run Runtime.step (smallRuntime 2) history final ∧
      Delivered (jobsPosted history) final ∧
      final.ranOn 0 = [0] ∧ final.waitingAt 1 = [1] ∧ final.undispatched = [2] := by
  have hreplay : (replay Runtime.step
      (fun r _ => decide (∀ who, (r.node who).scheduler.throwing = false))
      (smallRuntime 2) threeJobs).any
      (fun r => decide (r.jobCount = 3 ∧ r.ranOn 0 = [0] ∧ r.waitingAt 1 = [1] ∧
        r.undispatched = [2])) = true := by decide +kernel
  obtain ⟨history, final, hrun, hnormal, hcheck⟩ := exists_run_of_replay hreplay
  obtain ⟨hcount, hsituations⟩ := of_decide_eq_true hcheck
  refine ⟨history, final, hrun, ?_, hsituations⟩
  refine jobs_delivered_once_in_order hrun (fun visit hvisit => ?_) (by omega)
  exact of_decide_eq_true (hnormal visit hvisit)

end SlimCommonIo
