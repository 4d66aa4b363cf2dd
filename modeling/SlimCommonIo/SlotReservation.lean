import SlimCommonIo.SqeLayout
import SlimCommonIo.TransitionRuns

/-!
# Slot reservation

Calls of `await_suspend` on one ring, interleaved with the kernel consuming
entries from its front.  Whatever the counters are when the run begins, and
however often they wrap during it, the ring behaves as a bounded queue onto
which a call pushes its whole group or nothing.
-/

namespace SlimCommonIo

/-- A call of `await_suspend`: the object, its address, and its stamp. -/
structure AwaitCall where
  awt : Awaitable
  self : UserData
  stamp : Stamp

def AwaitCall.group (call : AwaitCall) : List Sqe :=
  call.awt.group call.self call.stamp

def groups (calls : List AwaitCall) : List Sqe :=
  calls.flatMap AwaitCall.group

inductive RingAction
  | awaitSuspend (call : AwaitCall)
  | consume (count : ℕ)

/-- The ring, with the calls it accepted and the entries the kernel took. -/
structure Reservations where
  sq : SubmissionQueue
  accepted : List AwaitCall
  consumed : List Sqe

namespace Reservations

def step (s : Reservations) : RingAction → Option Reservations
  | .awaitSuspend call =>
      match call.awt.awaitSuspend call.self call.stamp s.sq with
      | none => some s
      | some sq => some { s with sq := sq, accepted := s.accepted ++ [call] }
  | .consume count =>
      if count ≤ s.sq.pending.toNat then
        some
          { s with
            sq := s.sq.consume count
            consumed := s.consumed ++ s.sq.front count }
      else none

/-- The ring is in order, and what went in is what came out or is pending. -/
structure Reserved (initial : List Sqe) (s : Reservations) : Prop where
  valid : s.sq.Valid
  bounded : s.sq.pending.toNat ≤ s.sq.entries.toNat
  stream : s.consumed ++ s.sq.pendingSqes = initial ++ groups s.accepted

theorem Reserved.accept
    {initial : List Sqe} {s : Reservations} (hinv : Reserved initial s)
    {call : AwaitCall} {sq : SubmissionQueue}
    (haccept : call.awt.awaitSuspend call.self call.stamp s.sq = some sq) :
    Reserved initial { s with sq := sq, accepted := s.accepted ++ [call] } := by
  obtain ⟨hroom, hvalid, hsqes, hpending, hentries⟩ :=
    Awaitable.awaitSuspend_appends hinv.valid (hinv.valid.wrap hinv.bounded call.awt)
      haccept
  refine ⟨hvalid, ?_, ?_⟩
  · rw [hpending, hentries]
    exact hroom
  · have hgroups : groups (s.accepted ++ [call]) = groups s.accepted ++ call.group := by
      simp [groups]
    rw [hsqes, hgroups, ← List.append_assoc, hinv.stream, List.append_assoc]
    rfl

theorem Reserved.consume
    {initial : List Sqe} {s : Reservations} (hinv : Reserved initial s)
    {count : ℕ} (hcount : count ≤ s.sq.pending.toNat) :
    Reserved initial
      { s with
        sq := s.sq.consume count
        consumed := s.consumed ++ s.sq.front count } := by
  refine ⟨hinv.valid.consume hcount, ?_, ?_⟩
  · have hbounded := hinv.bounded
    rw [SubmissionQueue.consume_pending_toNat hcount]
    exact (Nat.sub_le _ _).trans hbounded
  · rw [List.append_assoc, SubmissionQueue.pendingSqes_consume hcount, hinv.stream]

theorem Reserved.step
    {initial : List Sqe} {s next : Reservations} {action : RingAction}
    (hinv : Reserved initial s) (hstep : s.step action = some next) :
    Reserved initial next := by
  cases action with
  | awaitSuspend call =>
      simp only [Reservations.step] at hstep
      split at hstep
      next =>
        rw [← Option.some.inj hstep]
        exact hinv
      next haccept =>
        rw [← Option.some.inj hstep]
        exact hinv.accept haccept
  | consume count =>
      simp only [Reservations.step] at hstep
      split at hstep
      next hcount =>
        rw [← Option.some.inj hstep]
        exact hinv.consume hcount
      next => simp at hstep

end Reservations

/-- The kernel would take the next entry together with this one. -/
def Sqe.isLinked (sqe : Sqe) : Bool :=
  sqe.flags &&& iosqeIoLink != 0

theorem Awaitable.isLinked_operationSqe
    (awt : Awaitable) (self : UserData) (stamp : Stamp) :
    (awt.operationSqe self stamp).isLinked = awt.timeoutTs.isSome := by
  rw [operationSqe_eq, Sqe.isLinked]
  by_cases htimed : awt.timeoutTs.isSome
  · simp [htimed, iosqeIoLink]
  · simp [htimed]

theorem Awaitable.group_eq
    (awt : Awaitable) (self : UserData) (stamp : Stamp) :
    awt.group self stamp = awt.operationSqe self stamp ::
      if awt.timeoutTs.isSome then [awt.timeoutSqe] else [] := by
  unfold group operationSqe
  by_cases htimed : awt.timeoutTs.isSome
  · simp [htimed]
  · simp [htimed]

/-- In the entries of several calls a linked entry is the operation of a timed
call and its timeout comes right after it. -/
theorem groups_linked
    {calls : List AwaitCall} {before after : List Sqe} {sqe : Sqe}
    (hsplit : groups calls = before ++ sqe :: after) (hlinked : sqe.isLinked = true) :
    ∃ call ∈ calls, call.awt.timeoutTs.isSome = true ∧
      sqe = call.awt.operationSqe call.self call.stamp ∧
      ∃ rest, after = call.awt.timeoutSqe :: rest := by
  induction calls generalizing before with
  | nil => simp [groups] at hsplit
  | cons call calls ih =>
      have hfirst := call.awt.isLinked_operationSqe call.self call.stamp
      have hcons : groups (call :: calls) = call.awt.operationSqe call.self call.stamp ::
          ((if call.awt.timeoutTs.isSome then [call.awt.timeoutSqe] else []) ++
            groups calls) := by
        rw [groups, List.flatMap_cons, AwaitCall.group, Awaitable.group_eq]
        rfl
      have hlater : ∀ {before : List Sqe}, groups calls = before ++ sqe :: after →
          ∃ other ∈ call :: calls, other.awt.timeoutTs.isSome = true ∧
            sqe = other.awt.operationSqe other.self other.stamp ∧
            ∃ rest, after = other.awt.timeoutSqe :: rest := by
        intro before hsplit
        obtain ⟨other, hmem, hother⟩ := ih hsplit
        exact ⟨other, List.mem_cons_of_mem _ hmem, hother⟩
      rw [hcons] at hsplit
      cases before with
      | nil =>
          obtain ⟨hsqe, hafter⟩ := List.cons.inj hsplit
          have htimed : call.awt.timeoutTs.isSome = true := by
            rw [← hfirst, hsqe]
            exact hlinked
          rw [if_pos htimed] at hafter
          exact ⟨call, by simp, htimed, hsqe.symm, groups calls, hafter.symm⟩
      | cons first before =>
          obtain ⟨-, hrest⟩ := List.cons.inj hsplit
          by_cases htimed : call.awt.timeoutTs.isSome
          · rw [if_pos htimed] at hrest
            cases before with
            | nil =>
                -- the companion entry itself is not linked
                obtain ⟨hsqe, -⟩ := List.cons.inj hrest
                rw [← hsqe] at hlinked
                simp [Sqe.isLinked, Awaitable.timeoutSqe, Sqe.zero] at hlinked
            | cons second before => exact hlater (List.cons.inj hrest).2
          · rw [if_neg htimed] at hrest
            exact hlater hrest

namespace Reservations

theorem Reserved.call
    {initial : List Sqe} {s : Reservations} (hinv : Reserved initial s)
    (call : AwaitCall) :
    (call.awt.awaitSuspend call.self call.stamp s.sq = none ∧
      s.step (.awaitSuspend call) = some s ∧
      s.sq.entries.toNat < s.sq.pending.toNat + call.group.length) ∨
    ∃ after, call.awt.awaitSuspend call.self call.stamp s.sq = some after ∧
      s.step (.awaitSuspend call) =
        some { s with sq := after, accepted := s.accepted ++ [call] } ∧
      after.pendingSqes = s.sq.pendingSqes ++ call.group := by
  have hwrap := hinv.valid.wrap hinv.bounded call.awt
  have hlength : call.group.length = call.awt.needed.toNat := call.awt.group_length _ _
  cases hcall : call.awt.awaitSuspend call.self call.stamp s.sq with
  | none =>
      left
      refine ⟨rfl, by simp [Reservations.step, hcall], ?_⟩
      rw [Awaitable.awaitSuspend_eq] at hcall
      split at hcall
      next => simp at hcall
      next hroom =>
        rw [SubmissionQueue.hasCapacity_iff hwrap] at hroom
        omega
  | some after =>
      right
      have happends := Awaitable.awaitSuspend_appends hinv.valid hwrap hcall
      exact ⟨after, rfl, by simp [Reservations.step, hcall], happends.2.2.1⟩

theorem Reserved.isFull_eq
    {initial : List Sqe} {s : Reservations} (hinv : Reserved initial s) :
    s.sq.isFull = !s.sq.hasCapacity 1 := by
  have hone : (1 : UInt32).toNat = 1 := rfl
  have hwrap := hinv.valid.wrap hinv.bounded { op := .close 0 }
  have hneeded : (Awaitable.needed { op := .close 0 }).toNat = 1 := rfl
  have hfull := s.sq.isFull_iff
  have hcapacity : s.sq.hasCapacity 1 = true ↔
      s.sq.pending.toNat + (1 : UInt32).toNat ≤ s.sq.entries.toNat :=
    SubmissionQueue.hasCapacity_iff (by omega)
  rw [Bool.eq_iff_iff, hfull, Bool.not_eq_true', ← Bool.not_eq_true, hcapacity]
  omega

end Reservations

/-- For every ring and position of its counters: a refused call changes nothing
and was refused for lack of room, an accepted one appends its group; the kernel
takes exactly what was pending at the start followed by the accepted groups; a
linked entry is followed by its own timeout; and `spawn` refuses exactly when
`has_capacity(1)` does. -/
theorem slot_reservation_is_bounded_fifo
    {sq : SubmissionQueue} {history : List (Reservations × RingAction)}
    {final : Reservations} (hvalid : sq.Valid)
    (hbounded : sq.pending.toNat ≤ sq.entries.toNat)
    (hrun : Transition.Run Reservations.step ⟨sq, [], []⟩ history final) :
    (∀ visit ∈ history, ∀ call, visit.2 = .awaitSuspend call →
      (call.awt.awaitSuspend call.self call.stamp visit.1.sq = none ∧
        visit.1.step visit.2 = some visit.1 ∧
        visit.1.sq.entries.toNat < visit.1.sq.pending.toNat + call.group.length) ∨
      ∃ after, call.awt.awaitSuspend call.self call.stamp visit.1.sq = some after ∧
        visit.1.step visit.2 =
          some { visit.1 with sq := after, accepted := visit.1.accepted ++ [call] } ∧
        after.pendingSqes = visit.1.sq.pendingSqes ++ call.group) ∧
    final.consumed ++ final.sq.pendingSqes = sq.pendingSqes ++ groups final.accepted ∧
    (∀ before sqe after,
      final.consumed ++ final.sq.pendingSqes = sq.pendingSqes ++ before ++ sqe :: after →
      sqe.isLinked = true →
      ∃ call ∈ final.accepted, call.awt.timeoutTs.isSome = true ∧
        sqe = call.awt.operationSqe call.self call.stamp ∧
        ∃ rest, after = call.awt.timeoutSqe :: rest) ∧
    (∀ visit ∈ history, visit.1.sq.isFull = !visit.1.sq.hasCapacity 1) ∧
    final.sq.isFull = !final.sq.hasCapacity 1 := by
  have hstart : Reservations.Reserved sq.pendingSqes ⟨sq, [], []⟩ :=
    ⟨hvalid, hbounded, by simp [groups]⟩
  have hreach : ∀ {before : List (Reservations × RingAction)} {s : Reservations},
      Transition.Run Reservations.step ⟨sq, [], []⟩ before s →
      s.Reserved sq.pendingSqes := by
    intro before s hbefore
    apply hbefore.invariant (Reservations.Reserved sq.pendingSqes) hstart
    intro s action next hinv hstep
    exact hinv.step hstep
  have hvisited : ∀ visit ∈ history, visit.1.Reserved sq.pendingSqes := by
    intro visit hvisit
    obtain ⟨before, _, _, _, hbefore, _⟩ := hrun.visit hvisit
    exact hreach hbefore
  have hfinal := hreach hrun
  refine ⟨?_, hfinal.stream, ?_, ?_, hfinal.isFull_eq⟩
  · intro visit hvisit call hcall
    rw [hcall]
    exact (hvisited visit hvisit).call call
  · intro before sqe after hsplit hlinked
    rw [hfinal.stream, List.append_assoc, List.append_cancel_left_eq] at hsplit
    exact groups_linked hsplit hlinked
  · intro visit hvisit
    exact (hvisited visit hvisit).isFull_eq

/-- A ring of two entries whose counters are about to wrap. -/
def wrappingRing : SubmissionQueue where
  head := 4294967295
  tail := 4294967295
  mask := 1
  entries := 2
  array := fun _ => 0
  sqes := fun _ => Sqe.zero

def timedClose : AwaitCall :=
  ⟨{ op := .close 0, timeoutTs := some ⟨1, 0⟩ }, .awaitable 0 0, ⟨0, 0⟩⟩

def plainClose : AwaitCall :=
  ⟨{ op := .close 0 }, .awaitable 0 1, ⟨0, 1⟩⟩

/-- A timed call fills the ring across the wrap, and the next call is refused. -/
theorem slot_reservation_wrappingRing :
    ∃ history final,
      Transition.Run Reservations.step ⟨wrappingRing, [], []⟩ history final ∧
      final.sq.tail = 1 ∧ final.accepted.length = 1 ∧
      final.consumed ++ final.sq.pendingSqes =
        wrappingRing.pendingSqes ++ groups final.accepted := by
  have hvalid : wrappingRing.Valid :=
    SubmissionQueue.valid_of_empty ⟨⟨1, by decide, rfl⟩, rfl⟩ rfl
  have hreplay : (Transition.replay Reservations.step (fun _ _ => true)
      ⟨wrappingRing, [], []⟩ [.awaitSuspend timedClose, .awaitSuspend plainClose,
        .consume 1]).any
      (fun s => s.sq.tail == 1 && s.accepted.length == 1) = true := by decide
  obtain ⟨history, final, hrun, -, hcheck⟩ := Transition.exists_run_of_replay hreplay
  simp only [Bool.and_eq_true, beq_iff_eq] at hcheck
  exact ⟨history, final, hrun, hcheck.1, hcheck.2,
    (slot_reservation_is_bounded_fifo hvalid (by decide) hrun).2.1⟩

end SlimCommonIo
