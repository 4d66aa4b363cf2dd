import SlimCommonIo.CompletionRing
import Mathlib.Data.List.Perm.Basic

/-!
# The ledger of outstanding operations

Both rings together with the kernel hold the operations which have been
published and whose completions have not been handled.  Entries move from the
submission ring to the kernel and on to the completion ring, but as a multiset
the ledger changes only when entries are published or completions handled; an
eventfd read armed on a full ring may only remove others from it.
-/

namespace SlimCommonIo

open scoped List

variable {P : Program}

/-- How an operation in flight is recognised. -/
structure Ref where
  userData : UserData
  stamp : Option Stamp
  deriving DecidableEq, Repr

def Sqe.ref (sqe : Sqe) : Ref :=
  ⟨sqe.userData, sqe.stamp⟩

def Cqe.ref (cqe : Cqe) : Ref :=
  ⟨cqe.userData, cqe.stamp⟩

/-- All operations pending or held by the kernel, and the posted completions
from position `first` on. -/
def IoState.ledger (io : IoState) (first : ℕ) : List Ref :=
  io.sq.pendingSqes.map Sqe.ref ++ io.kernel.map Sqe.ref ++
    (io.posted.drop first).map Cqe.ref

/-- The operations whose completions have not been handled. -/
def IoState.outstanding (io : IoState) : List Ref :=
  io.ledger io.handled

/-- The submission ring is linked, its counters are far from wrapping onto
each other, and the completion ring is in order. -/
structure RingInvariant (s : Scheduler P) : Prop where
  wellStacked : WellStacked s.stack
  completion : CompletionInvariant s
  valid : s.io.sq.Valid
  backlog : s.io.sq.pending.toNat ≤
    Scheduler.backlogLimit + (drainPoints s.stack).count .enter

namespace RingInvariant

theorem initial
    {io : IoState} (hfresh : io.Fresh) (fd : Int32) (addr : UInt64) :
    RingInvariant (Scheduler.initial P io fd addr) := by
  constructor
  · trivial
  · exact .initial hfresh fd addr
  · exact SubmissionQueue.valid_of_empty hfresh.sqGeometry hfresh.sqEmpty
  · simp [Scheduler.initial, SubmissionQueue.pending, hfresh.sqEmpty]

theorem drainPoints_length
    {stack : List (Activation P)} (hwell : WellStacked stack) :
    (drainPoints stack).length ≤ 1 := by
  induction stack with
  | nil => simp [drainPoints]
  | cons act rest ih =>
      cases act with
      | drain point => simp [drainPoints, drainPoints_below hwell]
      | _ => exact ih hwell.2

theorem drainPoints_of_drain
    {s : Scheduler P} (hinv : RingInvariant s) {point : DrainPoint}
    {rest : List (Activation P)} (hstack : s.stack = .drain point :: rest) :
    drainPoints s.stack = [point] := by
  have hwell := hinv.wellStacked
  rw [hstack] at hwell ⊢
  simp [drainPoints, drainPoints_below hwell]

theorem pending_lt
    {s : Scheduler P} (hinv : RingInvariant s) :
    s.io.sq.pending.toNat ≤ 2 ^ 31 + 1 := by
  have hbacklog := hinv.backlog
  have hcount := (drainPoints s.stack).count_le_length (a := DrainPoint.enter)
  have hlength := drainPoints_length hinv.wellStacked
  have hlimit : Scheduler.backlogLimit = 2 ^ 31 := rfl
  omega

theorem stage
    {s : Scheduler P} (hinv : RingInvariant s)
    {awt : Awaitable} {self : UserData} {stamp : Stamp} {sq : SubmissionQueue}
    (haccept : awt.awaitSuspend self stamp s.io.sq = some sq) :
    sq.Valid ∧ sq.pendingSqes = s.io.sq.pendingSqes ++ awt.group self stamp ∧
      sq.pending.toNat ≤ Scheduler.backlogLimit := by
  have hpending := hinv.pending_lt
  have hneeded := awt.needed_toNat_le
  obtain ⟨hroom, hvalid, hsqes, hcount, -⟩ :=
    Awaitable.awaitSuspend_appends hinv.valid (by omega) haccept
  refine ⟨hvalid, hsqes, ?_⟩
  obtain ⟨n, hn, hpow⟩ := hinv.valid.geometry.powerOfTwo
  have hle : 2 ^ n ≤ 2 ^ 31 := Nat.pow_le_pow_right (by omega) (by omega)
  have hlimit : Scheduler.backlogLimit = 2 ^ 31 := rfl
  omega

theorem step
    {s next : Scheduler P} (hinv : RingInvariant s)
    {label : Label P} (hmove : Scheduler.Move s label next) : RingInvariant next := by
  have hring := hmove.ringStep hinv.wellStacked
  have hwell := hmove.wellStacked hinv.wellStacked
  have hcompletion := hinv.completion.step hring
  have hbacklog := hinv.backlog
  cases hring with
  | same hio _ hpoints =>
      refine ⟨hwell, hcompletion, ?_, ?_⟩
      · rw [hio]
        exact hinv.valid
      · rw [hio, hpoints]
        exact hbacklog
  | begin hio _ hbefore _ | ready hio _ _ hbefore _ | wake hio _ hbefore _
  | scan hio _ hbefore _ | endLoop _ hio _ hbefore _ =>
      refine ⟨hwell, hcompletion, ?_, ?_⟩
      · rw [hio]
        exact hinv.valid
      · simp [hbefore] at hbacklog
        rw [hio]
        omega
  | stage awt id object stamp sq haccept _ hio _ _ =>
      obtain ⟨hvalid, -, hpending⟩ := hinv.stage haccept
      refine ⟨hwell, hcompletion, ?_, ?_⟩
      · rw [hio]
        exact hvalid
      · rw [hio]
        exact hpending.trans (Nat.le_add_right _ _)
  | arm _ _ _ hio _ hbefore hafter =>
      have hlt := hinv.pending_lt
      refine ⟨hwell, hcompletion, ?_, ?_⟩
      · rw [hio]
        exact hinv.valid.publish (by omega) _
      · simp [hbefore] at hbacklog
        rw [hio, hafter]
        change (s.io.sq.publish _).pending.toNat ≤ _
        rw [SubmissionQueue.publish_pending_toNat _ (by omega)]
        simpa using hbacklog
  | enter accepted hpending _ hlimit hio _ _ _ =>
      refine ⟨hwell, hcompletion, ?_, ?_⟩
      · rw [hio]
        exact hinv.valid.consume hpending
      · rw [hio]
        change (s.io.sq.consume accepted).pending.toNat ≤ _
        rw [SubmissionQueue.consume_pending_toNat hpending]
        omega
  | complete _ _ _ _ _ hio _ hpoints =>
      refine ⟨hwell, hcompletion, ?_, ?_⟩
      · rw [hio]
        exact hinv.valid
      · rw [hio, hpoints]
        exact hbacklog
  | handle _ _ _ _ hio _ hbefore _ | skip _ _ _ _ hio _ hbefore _
  | escape _ _ hio _ hbefore _ =>
      refine ⟨hwell, hcompletion, ?_, ?_⟩
      · rw [hio]
        exact hinv.valid
      · simp [hbefore] at hbacklog
        rw [hio]
        change s.io.sq.pending.toNat ≤ _
        omega
  | advance _ _ hio _ hbefore _ =>
      refine ⟨hwell, hcompletion, ?_, ?_⟩
      · rw [hio]
        exact hinv.valid
      · have hnone : (drainPoints s.stack).count .enter = 0 := by
          rcases hbefore with hbefore | hbefore <;> simp [hbefore]
        rw [hio]
        change s.io.sq.pending.toNat ≤ _
        omega

theorem handled_le
    {s : Scheduler P} (hinv : RingInvariant s) :
    s.io.handled ≤ s.io.posted.length := by
  obtain ⟨reaped, hhistory, hlength⟩ := hinv.completion.history
  have hpoints : (drainPoints s.stack).countP DrainPoint.handling ≤
      s.io.cq.unreapedCqes.length := by
    simp only [CompletionQueue.unreapedCqes, MaskedRing.window_length]
    rcases hlist : drainPoints s.stack with _ | ⟨point, rest⟩
    · simp
    · have hrest : rest = [] := by
        have := drainPoints_length hinv.wellStacked
        simpa [hlist] using this
      have htracks := hinv.completion.tracks point (by simp [hlist])
      subst hrest
      cases point with
      | resumed current tail =>
          have := sub_toNat_pos htracks.2.1
          have := htracks.2.2
          simp [DrainPoint.handling]
          omega
      | inboxDone current tail =>
          have := sub_toNat_pos htracks.1.2.1
          have := htracks.1.2.2
          simp [DrainPoint.handling]
          omega
      | _ => simp [DrainPoint.handling]
  rw [hhistory, hlength, List.length_append]
  omega

end RingInvariant

namespace IoState

theorem ledger_congr
    {io io' : IoState} (hsq : io'.sq = io.sq) (hkernel : io'.kernel = io.kernel)
    (hposted : io'.posted = io.posted) (first : ℕ) :
    io'.ledger first = io.ledger first := by
  rw [ledger, ledger, hsq, hkernel, hposted]

theorem ledger_enter
    (io io' : IoState) {accepted : ℕ} (haccepted : accepted ≤ io.sq.pending.toNat)
    (hsq : io'.sq = io.sq.consume accepted)
    (hkernel : io'.kernel = io.kernel ++ io.sq.front accepted)
    (hposted : io'.posted = io.posted) (first : ℕ) :
    (io'.ledger first).Perm (io.ledger first) := by
  rw [ledger, ledger, hsq, hkernel, hposted,
    ← SubmissionQueue.pendingSqes_consume haccepted]
  apply List.Perm.append_right
  simp only [List.map_append]
  calc (io.sq.consume accepted).pendingSqes.map Sqe.ref ++
          (io.kernel.map Sqe.ref ++ (io.sq.front accepted).map Sqe.ref)
      _ ~ (io.kernel.map Sqe.ref ++ (io.sq.front accepted).map Sqe.ref) ++
          (io.sq.consume accepted).pendingSqes.map Sqe.ref := List.perm_append_comm
      _ ~ ((io.sq.front accepted).map Sqe.ref ++ io.kernel.map Sqe.ref) ++
          (io.sq.consume accepted).pendingSqes.map Sqe.ref :=
        List.perm_append_comm.append_right _
      _ ~ (io.sq.front accepted).map Sqe.ref ++
          (io.sq.consume accepted).pendingSqes.map Sqe.ref ++
          io.kernel.map Sqe.ref := by
        rw [List.append_assoc, List.append_assoc]
        exact List.perm_append_comm.append_left _

theorem ledger_complete
    (io io' : IoState) {index : ℕ} {sqe : Sqe} {res : Int32}
    (hsqe : io.kernel[index]? = some sqe)
    (hsq : io'.sq = io.sq) (hkernel : io'.kernel = io.kernel.eraseIdx index)
    (hposted : io'.posted = io.posted ++
      [{ userData := sqe.userData, res := res, stamp := sqe.stamp }])
    {first : ℕ} (hfirst : first ≤ io.posted.length) :
    (io'.ledger first).Perm (io.ledger first) := by
  obtain ⟨hindex, hget⟩ := List.getElem?_eq_some_iff.mp hsqe
  have hperm : (sqe :: io.kernel.eraseIdx index).Perm io.kernel := by
    rw [← hget]
    exact List.getElem_cons_eraseIdx_perm hindex
  rw [ledger, ledger, hsq, hkernel, hposted, List.drop_append_of_le_length hfirst,
    List.append_assoc, List.append_assoc]
  apply List.Perm.append_left
  calc (io.kernel.eraseIdx index).map Sqe.ref ++
          ((io.posted.drop first) ++ [_]).map Cqe.ref
      _ = ((io.kernel.eraseIdx index).map Sqe.ref ++
          (io.posted.drop first).map Cqe.ref) ++ [sqe.ref] := by
        simp [Cqe.ref, Sqe.ref]
      _ ~ sqe.ref :: ((io.kernel.eraseIdx index).map Sqe.ref ++
          (io.posted.drop first).map Cqe.ref) := List.perm_append_singleton _ _
      _ ~ io.kernel.map Sqe.ref ++ (io.posted.drop first).map Cqe.ref :=
        (hperm.map Sqe.ref).append_right _

theorem ledger_append
    (io io' : IoState) {group : List Sqe}
    (hsq : io'.sq.pendingSqes = io.sq.pendingSqes ++ group)
    (hkernel : io'.kernel = io.kernel) (hposted : io'.posted = io.posted)
    (first : ℕ) :
    (io'.ledger first).Perm (group.map Sqe.ref ++ io.ledger first) := by
  rw [ledger, ledger, hsq, hkernel, hposted, List.map_append, List.append_assoc,
    List.append_assoc, List.append_assoc]
  exact List.perm_append_comm_assoc _ _ _

theorem ledger_arm
    (io io' : IoState) {fd : Int32} {addr : UInt64} (hvalid : io.sq.Valid)
    (hwrap : io.sq.pending.toNat + 1 < 2 ^ 32)
    (hsq : io'.sq = io.sq.armEventfdRead fd addr)
    (hkernel : io'.kernel = io.kernel) (hposted : io'.posted = io.posted)
    (first : ℕ) :
    ⟨.eventfdBuf, none⟩ ∈ io'.ledger first ∧
      ∀ p : Ref → Bool, p ⟨.eventfdBuf, none⟩ = false →
        ((io'.ledger first).filter p).Sublist ((io.ledger first).filter p) := by
  rw [ledger, ledger, hsq, hkernel, hposted,
    SubmissionQueue.armEventfdRead_eq_publish]
  constructor
  · rw [List.append_assoc]
    apply List.mem_append_left
    exact List.mem_map.mpr
      ⟨_, SubmissionQueue.mem_pendingSqes_publish_self hwrap _, rfl⟩
  · intro p hp
    simp only [List.filter_append, List.filter_map]
    apply List.Sublist.append_right
    apply List.Sublist.append_right
    apply List.Sublist.map
    exact SubmissionQueue.pendingSqes_publish_filter hvalid hwrap hp

end IoState

namespace RingInvariant

theorem outstanding_of_loop
    {s : Scheduler P} (hinv : RingInvariant s) {current tail : UInt32}
    (hloop : drainPoints s.stack = [.loop current tail]) (hmore : current ≠ tail) :
    s.io.outstanding.Perm
      ((s.io.cq.read current).ref :: s.io.ledger (s.io.handled + 1)) := by
  rw [IoState.outstanding, IoState.ledger,
    hinv.completion.drop_handled_of_loop hloop hmore, List.map_cons]
  exact List.perm_middle

theorem outstanding_of_escape
    {s : Scheduler P} (hinv : RingInvariant s) {current tail : UInt32}
    (hpoint : drainPoints s.stack = [.inboxDone current tail]) :
    ∃ stamp, (s.io.ledger (s.io.handled - 1)).Perm
      (⟨.eventfdBuf, stamp⟩ :: s.io.outstanding) := by
  obtain ⟨hdrop, hsentinel⟩ := hinv.completion.drop_handled_of_escape hpoint
  refine ⟨(s.io.cq.read current).stamp, ?_⟩
  rw [IoState.outstanding, IoState.ledger, hdrop, List.map_cons, Cqe.ref, hsentinel]
  exact List.perm_middle

end RingInvariant

end SlimCommonIo
