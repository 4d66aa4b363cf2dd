import SlimCommonIo.InboxDrain

/-!
# Exceptions which leave `drain_inbox`

`drain_inbox` catches `IOException` only.  Any other exception of a callable
destroys the local queue with the callables not yet invoked, and passes the
statement of `drain` which gives the sentinel completion back.
-/

namespace SlimCommonIo

open Transition

variable {P : Program}

namespace Scheduler

theorem Move.inbox_cases
    {s next : Scheduler P} {label : Label P} (hmove : Move s label next) :
    (next.inbox = s.inbox ∨ next.inbox = []) ∧ next.nextPost = s.nextPost ∨
      ∃ origin fn, next.inbox = s.inbox ++ [⟨s.nextPost, origin, fn⟩] ∧
        next.nextPost = s.nextPost + 1 := by
  cases hmove with
  | swapInbox _ => exact .inl ⟨.inr rfl, rfl⟩
  | requeue _ _ | post _ | enqueue _ => exact .inr ⟨_, _, rfl, rfl⟩
  | _ => exact .inl ⟨.inl rfl, rfl⟩

/-- The callables in the inbox have different numbers. -/
structure DistinctPosts (s : Scheduler P) : Prop where
  nodup : (s.inbox.map Posted.id).Nodup
  old : ∀ entry ∈ s.inbox, entry.id < s.nextPost

theorem DistinctPosts.step
    {s next : Scheduler P} {label : Label P} (hposts : DistinctPosts s)
    (hmove : Move s label next) : DistinctPosts next := by
  rcases hmove.inbox_cases with ⟨hsame | hempty, hpost⟩ | ⟨origin, fn, hinbox, hpost⟩
  · exact ⟨by rw [hsame]; exact hposts.nodup, by rw [hsame, hpost]; exact hposts.old⟩
  · exact ⟨by simp [hempty], by simp [hempty]⟩
  · constructor
    · rw [hinbox, List.map_append, List.nodup_append]
      refine ⟨hposts.nodup, by simp, ?_⟩
      intro id hid other hother heq
      obtain ⟨entry, hentry, rfl⟩ := List.mem_map.mp hid
      have hlt := hposts.old entry hentry
      simp only [List.map_cons, List.map_nil, List.mem_singleton] at hother
      omega
    · rw [hinbox, hpost]
      intro entry hentry
      rcases List.mem_append.mp hentry with hold | hnew
      · exact Nat.lt_succ_of_lt (hposts.old entry hold)
      · rw [List.mem_singleton.mp hnew]
        exact Nat.lt_succ_self _

theorem DistinctPosts.of_run
    {io : IoState} {fd : Int32} {addr : UInt64} {history : List (Scheduler P × Label P)}
    {s : Scheduler P} (hrun : Run Scheduler.step (Scheduler.initial P io fd addr) history s) :
    DistinctPosts s := by
  apply hrun.invariant DistinctPosts
  · constructor <;> simp [Scheduler.initial]
  intro s label next hposts hstep
  exact hposts.step (move_of_step hstep).2

end Scheduler

theorem completionInvariant_of_run
    {io : IoState} (hfresh : io.Fresh) {fd : Int32} {addr : UInt64}
    {history : List (Scheduler P × Label P)} {s : Scheduler P}
    (hrun : Run Scheduler.step (Scheduler.initial P io fd addr) history s) :
    CompletionInvariant s := by
  have hboth : WellStacked s.stack ∧ CompletionInvariant s := by
    apply hrun.invariant (fun s : Scheduler P => WellStacked s.stack ∧ CompletionInvariant s)
    · exact ⟨(trivial : WellStacked ([] : List (Activation P))), .initial hfresh _ _⟩
    · intro s label next hinv hstep
      have hmove := (Scheduler.move_of_step hstep).2
      exact ⟨hmove.wellStacked hinv.1, hinv.2.step (hmove.ringStep hinv.1)⟩
  exact hboth.2

/-! ## The callables of a batch after the call -/

/-- The callables invoked between two states of a run. -/
def invokedSince (start final : Scheduler P) : List (Posted P) :=
  final.invoked.drop start.invoked.length

/-- After a call of `drain_inbox` by the `drain` which is handling completion
`current`: every callable of the batch except the one which ended the call has
been invoked once or is in the inbox, and the completion is consumed. -/
structure NeighboursKept (start : Scheduler P) (last : List (Posted P)) (current : UInt32)
    (final : Scheduler P) : Prop where
  others : ∀ entry ∈ start.inbox, entry ∉ last →
    ((invokedSince start final).map Posted.id).count entry.id = 1 ∨ entry ∈ final.inbox
  consumed : final.io.cq.head = current + 1

namespace InboxDrain

variable {start s final : Scheduler P} {below : List (Activation P)}
  {history : List (Scheduler P × Label P)}

theorem run (hdrain : InboxDrain start below history s) :
    ∃ io fd addr before, io.Fresh ∧
      Run Scheduler.step (Scheduler.initial P io fd addr) before s := by
  obtain ⟨⟨io, fd, addr, before, hfresh, hbefore⟩, -, ⟨allocated, first, hswap, hrun⟩, -⟩ :=
    hdrain
  exact ⟨io, fd, addr, _, hfresh, (hbefore.snoc hswap).trans hrun⟩

end InboxDrain

namespace Scheduler

variable {s final : Scheduler P}

theorem job_of_callEnds
    {label : Label P} {entry : Posted P} (hends : s.callEnds label = some (entry, .other)) :
    ∃ code rest, s.stack = .job entry code :: rest ∧ P.job code = .throwOther := by
  unfold callEnds at hends
  split at hends
  next =>
    split at hends
    next other code rest hstack =>
      split at hends
      all_goals simp at hends
      next hcode =>
        subst hends
        exact ⟨code, rest, hstack, hcode⟩
    next => simp at hends
  next => simp at hends

theorem head_of_throwOther
    {allocated : Bool} {entry : Posted P}
    (hends : s.callEnds (.runner allocated) = some (entry, .other))
    (hstep : s.step (.runner allocated) = some final) :
    final.io.cq = s.io.cq := by
  obtain ⟨code, rest, hstack, hcode⟩ := job_of_callEnds hends
  simp only [step, runnerStep, hstack, jobStep, hcode] at hstep
  split at hstep
  · simp at hstep
  · rw [← Option.some.inj hstep]

theorem head_of_inboxDone
    {allocated : Bool} {current tail : UInt32} {base : List (Activation P)}
    (hstack : s.stack = .drain (.inboxDone current tail) :: base)
    (hstep : s.step (.runner allocated) = some final) :
    final.io.cq.head = current + 1 ∧ final.log = s.log := by
  simp only [step, runnerStep, hstack] at hstep
  split at hstep
  · simp at hstep
  · rw [← Option.some.inj hstep]
    exact ⟨rfl, rfl⟩

end Scheduler

theorem mem_drainPoints_append
    (top rest : List (Activation P)) (point : DrainPoint) :
    point ∈ drainPoints (top ++ .drain point :: rest) := by
  induction top with
  | nil => simp [drainPoints]
  | cons act top ih => cases act <;> simp [drainPoints, ih]

/-- Whatever is in the inbox and whatever the callables do: after `drain_inbox`
has been left, by a return or by an exception, the other callables of its batch
and the completion are taken care of exactly if no callable of the batch has
thrown anything but an `IOException`. -/
theorem neighbours_kept_iff_ioExceptions_only
    {start s final : Scheduler P} {current tail : UInt32} {base : List (Activation P)}
    {history : List (Scheduler P × Label P)} {allocated : Bool}
    (hdrain : InboxDrain start (.drain (.inboxDone current tail) :: base) history s)
    (hlast : s.step (.runner allocated) = some final)
    (hleaves : s.stack = .drain (.inboxDone current tail) :: base ∨
      s.InDrainInbox (.drain (.inboxDone current tail) :: base) ∧
        ∃ entry, s.callEnds (.runner allocated) = some (entry, .other)) :
    NeighboursKept start (underway s.stack) current final ↔
      ∀ ending ∈ endings (history ++ [(s, .runner allocated)]), ending.2 ≠ .other := by
  rcases hleaves with hreturned | ⟨⟨top, batch, hstack⟩, entry, hends⟩
  · have hcaught := hdrain.caught (by simp [hreturned])
    have hprogress := hdrain.progress hcaught
    obtain ⟨hbatches, hunderway⟩ : batches base = [] ∧ underway base = [] := by
      have hwell := hprogress.wellStacked
      rw [hreturned] at hwell
      exact nothing_below_drain hwell
    have hlater : endings (history ++ [(s, .runner allocated)]) = endings history := by
      simp [endings, Scheduler.callEnds, hreturned]
    have hnone : ∀ ending ∈ endings history, ending.2 ≠ .other := by
      intro ending hending hother
      obtain ⟨visit, hvisit, hends⟩ := List.mem_filterMap.mp hending
      apply hcaught visit hvisit ending.1
      rw [hends, ← hother]
    obtain ⟨hhead, hlog⟩ := Scheduler.head_of_inboxDone hreturned hlast
    have hinvoked : invokedSince start final = start.inbox := by
      have hsame : final.invoked = s.invoked := by rw [Scheduler.invoked, hlog]; rfl
      rw [invokedSince, hsame, hprogress.invoked, hprogress.snapshot, hreturned]
      simp [underway, batches, hunderway, hbatches]
    have hkept : NeighboursKept start (underway s.stack) current final := by
      refine ⟨?_, hhead⟩
      intro entry hentry _
      left
      rw [hinvoked]
      obtain ⟨⟨io, fd, addr, before, -, hbefore⟩, -, -, -⟩ := hdrain
      exact List.count_eq_one_of_mem (Scheduler.DistinctPosts.of_run hbefore).nodup
        (List.mem_map_of_mem hentry)
    constructor
    · intro _
      rw [hlater]
      exact hnone
    · intro _
      exact hkept
  · constructor
    · intro hkept
      obtain ⟨io, fd, addr, before, hfresh, hrun⟩ := hdrain.run
      have hpoint : DrainPoint.inboxDone current tail ∈ drainPoints s.stack := by
        rw [hstack, List.append_cons]
        exact mem_drainPoints_append _ _ _
      have htracks := (completionInvariant_of_run hfresh hrun).tracks _ hpoint
      have hhead := hkept.consumed
      rw [Scheduler.head_of_throwOther hends hlast, ← htracks.1.1] at hhead
      have hnat := congrArg UInt32.toNat hhead
      have hone : (1 : UInt32).toNat = 1 := rfl
      rw [UInt32.toNat_add, hone] at hnat
      have hlt := current.toNat_lt
      omega
    · intro hall
      exact absurd rfl (hall (entry, .other) (by simp [endings, hends]))

/-- The mixed batch is drained to its end. -/
theorem neighbours_kept_mixedDrain :
    ∃ (start s final : Scheduler endScript) (history : List (Scheduler endScript × Label endScript)),
      InboxDrain start shutdownDrain history s ∧ s.stack = shutdownDrain ∧
      s.step (.runner true) = some final ∧ start.inboxEnds = mixedJobs ∧
      NeighboursKept start (underway s.stack) 0 final := by
  have hreplay : drainReplay mixedJobs mixedDrain (fun start s => s.atShutdownDrain &&
      start.inboxEnds == mixedJobs && (s.step (.runner true)).isSome) = true := by
    decide +kernel
  obtain ⟨start, history, s, hdrain, hcheck⟩ := inboxDrain_of_drainReplay hreplay
  simp only [Bool.and_eq_true, beq_iff_eq] at hcheck
  obtain ⟨⟨hleft, hstart⟩, hsome⟩ := hcheck
  obtain ⟨final, hstep⟩ := Option.isSome_iff_exists.mp hsome
  have hstack := Scheduler.stack_of_atShutdownDrain hleft
  refine ⟨start, s, final, history, hdrain, hstack, hstep, hstart, ?_⟩
  apply (neighbours_kept_iff_ioExceptions_only hdrain hstep (.inl hstack)).mpr
  intro ending hending hother
  obtain ⟨visit, hvisit, hends⟩ := List.mem_filterMap.mp hending
  rcases List.mem_append.mp hvisit with hold | hnew
  · apply hdrain.caught (by simp [hstack, shutdownDrain]) visit hold ending.1
    rw [hends, ← hother]
  · rw [List.mem_singleton.mp hnew] at hends
    simp [Scheduler.callEnds, hstack, shutdownDrain] at hends

/-- The first callable of the batch throws; `shutdown` was called by code which
catches the exception.  The second callable is gone, and the sentinel completion
is still there. -/
theorem neighbour_lost_throwFirst :
    ∃ (start s final : Scheduler endScript) (history : List (Scheduler endScript × Label endScript)),
      InboxDrain start shutdownDrain history s ∧ s.InDrainInbox shutdownDrain ∧
      s.step (.runner true) = some final ∧ final.crash = none ∧ final.stack = [] ∧
      start.inboxEnds = [.other, .returned] ∧ ((invokedSince start final).map Posted.id).length = 1 ∧
      final.inbox = [] ∧ final.io.cq.head = 0 ∧
      ¬ NeighboursKept start (underway s.stack) 0 final := by
  have hreplay : drainReplay [.other, .returned] [.runner true] (fun start s =>
      s.inShutdownDrain && start.inboxEnds == [.other, .returned] &&
        (s.step (.runner true)).any fun final =>
          final.crash.isNone && final.stack.isEmpty && final.inbox.isEmpty &&
          (invokedSince start final).length == 1 && final.io.cq.head == 0) = true := by
    decide +kernel
  obtain ⟨start, history, s, hdrain, hcheck⟩ := inboxDrain_of_drainReplay hreplay
  simp only [Bool.and_eq_true, beq_iff_eq] at hcheck
  obtain ⟨⟨hin, hstart⟩, hany⟩ := hcheck
  obtain ⟨final, hstep, hfinal⟩ := (Option.any_eq_true _ _).mp hany
  simp only [Bool.and_eq_true, beq_iff_eq, Option.isNone_iff_eq_none, List.isEmpty_iff]
    at hfinal
  obtain ⟨⟨⟨⟨hcrash, hstack⟩, hinbox⟩, hinvoked⟩, hhead⟩ := hfinal
  refine ⟨start, s, final, history, hdrain, Scheduler.inDrainInbox_of_inShutdownDrain hin, hstep,
    hcrash, hstack, hstart, by simpa using hinvoked, hinbox, hhead, ?_⟩
  intro hkept
  have hconsumed := hkept.consumed
  rw [hhead] at hconsumed
  exact absurd hconsumed (by decide)

end SlimCommonIo
