import SlimCommonIo.RunSimulation
import SlimCommonIo.SlotReservation
import SlimCommonIo.SubmissionSafety
import SlimCommonIo.Wakeup

/-!
# Calls on the rings

The two rings alone, driven by the calls which a scheduler and the kernel make
on them.  As long as no eventfd read is armed on a full ring, entries and
completions pass through in the order they came, and nothing is lost.  The runs
of a scheduler are runs of its rings.
-/

namespace SlimCommonIo

open Transition

inductive RingCall
  | awaitSuspend (call : AwaitCall)
  | armEventfdRead
  /-- `io_uring_enter`, where the kernel takes so many entries. -/
  | enter (accepted : ℕ)
  /-- The kernel posts a completion. -/
  | complete (cqe : Cqe)
  /-- `drain` moves the head past the completion it has read. -/
  | advance

/-- The rings, with the entries published and taken and the completions posted
and reaped so far. -/
structure RingState where
  sq : SubmissionQueue
  cq : CompletionQueue
  staged : List Sqe := []
  consumed : List Sqe := []
  posted : List Cqe := []
  reaped : List Cqe := []

namespace RingState

/-- The rings of a scheduler with this eventfd and buffer. -/
def step (eventfd : Int32) (addr : UInt64) (s : RingState) : RingCall → Option RingState
  | .awaitSuspend call =>
      match call.awt.awaitSuspend call.self call.stamp s.sq with
      | none => some s
      | some sq => some { s with sq := sq, staged := s.staged ++ call.group }
  | .armEventfdRead =>
      some
        { s with
          sq := s.sq.armEventfdRead eventfd addr
          staged := s.staged ++ [SubmissionQueue.eventfdRead eventfd addr] }
  | .enter accepted =>
      if accepted ≤ s.sq.pending.toNat then
        some
          { s with
            sq := s.sq.consume accepted
            consumed := s.consumed ++ s.sq.front accepted }
      else none
  | .complete cqe =>
      if s.cq.hasRoom then
        some { s with cq := s.cq.append cqe, posted := s.posted ++ [cqe] }
      else none
  | .advance =>
      if s.cq.head = s.cq.tail then none
      else some { s with cq := s.cq.pop, reaped := s.reaped ++ [s.cq.read s.cq.head] }

/-- Completions posted were reaped or are in the ring, in this order. -/
structure Reaps (s : RingState) : Prop where
  cqRing : MaskedRing.Geometry s.cq.mask s.cq.entries
  cqBounded : s.cq.unreaped.toNat ≤ s.cq.entries.toNat
  completions : s.reaped ++ s.cq.unreapedCqes = s.posted

/-- So are entries published taken or in the ring. -/
structure Passed (s : RingState) : Prop extends Reaps s where
  valid : s.sq.Valid
  sqBounded : s.sq.pending.toNat ≤ s.sq.entries.toNat
  entries : s.consumed ++ s.sq.pendingSqes = s.staged

variable {eventfd : Int32} {addr : UInt64} {s next : RingState} {call : RingCall}

theorem Reaps.initial
    (sq : SubmissionQueue) {cq : CompletionQueue} (hring : MaskedRing.Geometry cq.mask cq.entries)
    (hempty : cq.head = cq.tail) : Reaps { sq := sq, cq := cq } := by
  have hunreaped : cq.unreaped = 0 := by rw [CompletionQueue.unreaped, hempty, UInt32.sub_self]
  refine ⟨hring, ?_, ?_⟩
  · simp [hunreaped]
  · simp [CompletionQueue.unreapedCqes, hunreaped]

theorem Passed.initial
    {sq : SubmissionQueue} {cq : CompletionQueue}
    (hsqRing : MaskedRing.Geometry sq.mask sq.entries)
    (hcqRing : MaskedRing.Geometry cq.mask cq.entries)
    (hsq : sq.head = sq.tail) (hcq : cq.head = cq.tail) : Passed { sq := sq, cq := cq } := by
  have hpending : sq.pending = 0 := by rw [SubmissionQueue.pending, hsq, UInt32.sub_self]
  refine ⟨.initial sq hcqRing hcq, SubmissionQueue.valid_of_empty hsqRing hsq, ?_, ?_⟩
  · simp [hpending]
  · simp [SubmissionQueue.pendingSqes, hpending]

theorem unreaped_pos {cq : CompletionQueue} (hsome : cq.head ≠ cq.tail) :
    0 < cq.unreaped.toNat :=
  sub_toNat_pos hsome

/-- No call loses or repeats a completion. -/
theorem Reaps.step (hreaps : Reaps s) (hstep : s.step eventfd addr call = some next) :
    Reaps next := by
  obtain ⟨hring, hbounded, hcompletions⟩ := hreaps
  cases call with
  | awaitSuspend call =>
      simp only [RingState.step] at hstep
      split at hstep
      next => exact Option.some.inj hstep ▸ ⟨hring, hbounded, hcompletions⟩
      next => exact Option.some.inj hstep ▸ ⟨hring, hbounded, hcompletions⟩
  | armEventfdRead => exact Option.some.inj hstep ▸ ⟨hring, hbounded, hcompletions⟩
  | enter accepted =>
      simp only [RingState.step, Option.ite_none_right_eq_some, Option.some.injEq] at hstep
      exact hstep.2 ▸ ⟨hring, hbounded, hcompletions⟩
  | complete cqe =>
      simp only [RingState.step, Option.ite_none_right_eq_some, Option.some.injEq] at hstep
      obtain ⟨hfree, rfl⟩ := hstep
      rw [CompletionQueue.hasRoom_iff] at hfree
      refine ⟨hring, ?_, ?_⟩
      · rw [CompletionQueue.append_unreaped_toNat hfree]
        exact hfree
      · rw [CompletionQueue.unreapedCqes_append hring hfree, ← List.append_assoc, hcompletions]
  | advance =>
      simp only [RingState.step, Option.ite_none_left_eq_some, Option.some.injEq] at hstep
      obtain ⟨hmore, rfl⟩ := hstep
      have hsome := unreaped_pos hmore
      refine ⟨hring, ?_, ?_⟩
      · rw [CompletionQueue.pop_unreaped_toNat _ hsome]
        exact (Nat.sub_le _ _).trans hbounded
      · rw [List.append_assoc, List.singleton_append,
          ← CompletionQueue.unreapedCqes_pop hsome, hcompletions]

/-- No call loses or repeats an entry, if eventfd reads are armed with room. -/
theorem Passed.step
    (hpassed : Passed s) (hstep : s.step eventfd addr call = some next)
    (hroom : call = .armEventfdRead → s.sq.isFull = false) : Passed next := by
  have hreaps := hpassed.toReaps.step hstep
  obtain ⟨-, hvalid, hbounded, hentries⟩ := hpassed
  cases call with
  | awaitSuspend call =>
      simp only [RingState.step] at hstep
      split at hstep
      next => exact Option.some.inj hstep ▸
        ⟨Option.some.inj hstep ▸ hreaps, hvalid, hbounded, hentries⟩
      next sq haccept =>
        obtain ⟨hfits, hvalid', hsqes, hpending, hdepth⟩ :=
          Awaitable.awaitSuspend_appends hvalid (hvalid.wrap hbounded call.awt) haccept
        rw [← Option.some.inj hstep] at hreaps ⊢
        refine ⟨hreaps, hvalid', ?_, ?_⟩
        · rw [hpending, hdepth]
          exact hfits
        · rw [hsqes, ← List.append_assoc, hentries]
          rfl
  | armEventfdRead =>
      obtain ⟨hvalid', hsqes, hbounded'⟩ :=
        hvalid.armEventfdRead_appends (hroom rfl) eventfd addr
      rw [← Option.some.inj hstep] at hreaps ⊢
      refine ⟨hreaps, hvalid', hbounded', ?_⟩
      rw [hsqes, ← List.append_assoc, hentries]
  | enter accepted =>
      simp only [RingState.step, Option.ite_none_right_eq_some, Option.some.injEq] at hstep
      obtain ⟨haccepted, rfl⟩ := hstep
      refine ⟨hreaps, hvalid.consume haccepted, ?_, ?_⟩
      · rw [SubmissionQueue.consume_pending_toNat haccepted]
        exact (Nat.sub_le _ _).trans hbounded
      · rw [List.append_assoc, SubmissionQueue.pendingSqes_consume haccepted, hentries]
  | complete cqe =>
      simp only [RingState.step, Option.ite_none_right_eq_some, Option.some.injEq] at hstep
      obtain ⟨-, rfl⟩ := hstep
      exact ⟨hreaps, hvalid, hbounded, hentries⟩
  | advance =>
      simp only [RingState.step, Option.ite_none_left_eq_some, Option.some.injEq] at hstep
      obtain ⟨-, rfl⟩ := hstep
      exact ⟨hreaps, hvalid, hbounded, hentries⟩

end RingState

/-! ## The rings of a scheduler -/

variable {P : Program}

/-- The rings of a scheduler which is in order, with what has passed them. -/
structure HasRings (eventfd : Int32) (addr : UInt64) (s : Scheduler P) (r : RingState) :
    Prop where
  invariant : RingInvariant s
  eventfdFd : s.eventfdFd = eventfd
  eventfdBufAddr : s.eventfdBufAddr = addr
  sq : r.sq = s.io.sq
  cq : r.cq = s.io.cq
  staged : r.staged = s.io.staged
  consumed : r.consumed = s.io.consumed
  posted : r.posted = s.io.posted

/-- What a call may tell of the step which makes it: an eventfd read is armed
by `arm_eventfd_read` only. -/
def MakesCall (s : Scheduler P) (label : Label P) (call : RingCall) : Prop :=
  call = .armEventfdRead → s.armsWithRoom label = !s.io.sq.isFull

theorem HasRings.pop
    {eventfd : Int32} {addr : UInt64} {s : Scheduler P} {r : RingState}
    (hrings : HasRings eventfd addr s r) {current tail : UInt32}
    (htracks : (DrainPoint.resumed current tail).Tracks s.io.cq) :
    RingState.step eventfd addr r .advance =
      some { r with cq := { s.io.cq with head := current + 1 }
                    reaped := r.reaped ++ [r.cq.read r.cq.head] } := by
  obtain ⟨rfl, hmore, hle⟩ := htracks
  have hsome : s.io.cq.head ≠ s.io.cq.tail := by
    intro hempty
    have hpos := sub_toNat_pos hmore
    have hzero : s.io.cq.unreaped = 0 := by
      rw [CompletionQueue.unreaped, hempty, UInt32.sub_self]
    simp [hzero] at hle
    omega
  rw [RingState.step, hrings.cq, if_neg hsome]
  rfl

/-- Every step of a scheduler makes one call on its rings or none. -/
theorem simulates_rings (eventfd : Int32) (addr : UInt64) :
    Simulates (Scheduler.step (P := P)) (RingState.step eventfd addr)
      (HasRings eventfd addr) MakesCall := by
  intro s r label next hrings hstep
  have hmove := (Scheduler.move_of_step hstep).2
  have hnext := hrings.invariant.step hmove
  obtain ⟨hfd, haddr⟩ := hmove.eventfd_eq
  rw [hrings.eventfdFd] at hfd
  rw [hrings.eventfdBufAddr] at haddr
  have hstutter : next.io.sq = s.io.sq → next.io.cq = s.io.cq →
      next.io.staged = s.io.staged → next.io.consumed = s.io.consumed →
      next.io.posted = s.io.posted → HasRings eventfd addr next r := by
    intro hsq hcq hstaged hconsumed hposted
    exact ⟨hnext, hfd, haddr, hrings.sq.trans hsq.symm, hrings.cq.trans hcq.symm,
      hrings.staged.trans hstaged.symm, hrings.consumed.trans hconsumed.symm,
      hrings.posted.trans hposted.symm⟩
  cases hmove.ringStep hrings.invariant.wellStacked with
  | same hio | begin hio | ready hio | wake hio | scan hio | endLoop _ hio
  | handle _ _ _ _ hio | escape _ _ hio =>
      exact .inl (hstutter (by rw [hio]) (by rw [hio]) (by rw [hio]) (by rw [hio])
        (by rw [hio]))
  | stage awt id object stamp sq haccept _ hio =>
      refine .inr ⟨.awaitSuspend ⟨awt, .awaitable id object, stamp⟩,
        { r with sq := sq
                 staged := r.staged ++ awt.group (.awaitable id object) stamp },
        by simp [MakesCall], ?_, ⟨hnext, hfd, haddr, ?_, ?_, ?_, ?_, ?_⟩⟩
      · simp only [RingState.step, hrings.sq, haccept]
        rfl
      all_goals simp [hio, Scheduler.stagedIo, hrings.cq, hrings.staged, hrings.consumed,
        hrings.posted]
  | arm hlabel _ habout hio =>
      obtain ⟨allocated, rfl⟩ := hlabel
      refine .inr ⟨.armEventfdRead,
        { r with sq := s.io.sq.armEventfdRead eventfd addr
                 staged := r.staged ++ [SubmissionQueue.eventfdRead eventfd addr] },
        fun _ => by simp [Scheduler.armsWithRoom, habout], ?_,
        ⟨hnext, hfd, haddr, ?_, ?_, ?_, ?_, ?_⟩⟩
      · simp only [RingState.step, hrings.sq]
      all_goals simp [hio, Scheduler.stagedIo, hrings.eventfdFd, hrings.eventfdBufAddr,
        hrings.cq, hrings.staged, hrings.consumed, hrings.posted]
  | enter accepted hpending _ _ hio =>
      refine .inr ⟨.enter accepted,
        { r with sq := s.io.sq.consume accepted
                 consumed := r.consumed ++ s.io.sq.front accepted },
        by simp [MakesCall], ?_, ⟨hnext, hfd, haddr, ?_, ?_, ?_, ?_, ?_⟩⟩
      · rw [RingState.step, hrings.sq, if_pos hpending]
      all_goals simp [hio, hrings.cq, hrings.staged, hrings.consumed, hrings.posted]
  | complete index sqe res _ hroom hio =>
      obtain ⟨cqe, hcqe⟩ : ∃ cqe : Cqe,
          cqe = { userData := sqe.userData, res := res, stamp := sqe.stamp } := ⟨_, rfl⟩
      rw [← hcqe] at hio
      refine .inr ⟨.complete cqe,
        { r with cq := s.io.cq.append cqe, posted := r.posted ++ [cqe] },
        by simp [MakesCall], ?_, ⟨hnext, hfd, haddr, ?_, ?_, ?_, ?_, ?_⟩⟩
      · rw [RingState.step, hrings.cq, if_pos hroom]
      all_goals simp [hio, hrings.sq, hrings.staged, hrings.consumed, hrings.posted]
  | skip current tail hmore _ hio _ hbefore =>
      have hloop := hrings.invariant.completion.tracks (.loop current tail) (by simp [hbefore])
      refine .inr ⟨.advance, _, by simp [MakesCall], hrings.pop ⟨hloop.1, hmore, hloop.2⟩,
        ⟨hnext, hfd, haddr, ?_, ?_, ?_, ?_, ?_⟩⟩
      all_goals simp [hio, hrings.sq, hrings.staged, hrings.consumed, hrings.posted]
  | advance current tail hio _ hbefore =>
      refine .inr ⟨.advance, _, by simp [MakesCall],
        hrings.pop (hrings.invariant.completion.tracks_of_advance hbefore),
        ⟨hnext, hfd, haddr, ?_, ?_, ?_, ?_, ?_⟩⟩
      all_goals simp [hio, hrings.sq, hrings.staged, hrings.consumed, hrings.posted]

end SlimCommonIo
