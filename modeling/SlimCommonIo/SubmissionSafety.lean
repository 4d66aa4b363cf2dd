import SlimCommonIo.RingSteps
import SlimCommonIo.TransitionRuns

/-!
# Staged submissions and the eventfd read

`await_suspend` reserves its slots before it commits them;
`arm_eventfd_read` publishes without looking at the head.  A run keeps every
staged entry in place until the kernel consumes it exactly when none of its
drains arms the read on a full ring.
-/

namespace SlimCommonIo

open MaskedRing

variable {P : Program}

/-- No staged entry is lost: the pending ones are at most `entries`, each is in
its slot as it was staged, and the kernel has consumed the ones before them,
each once and in order. -/
structure IoState.NothingOverwritten (io : IoState) : Prop where
  bounded : io.sq.pending ≤ io.sq.entries
  inPlace : ∀ i < io.sq.pending.toNat,
    io.staged[io.consumed.length + i]? =
      some (io.sq.sqes (slot io.sq.mask (io.sq.head + UInt32.ofNat i)))
  consumedOnce : io.consumed <+: io.staged
  accounted : io.staged.length = io.consumed.length + io.sq.pending.toNat

namespace Scheduler

/-- The step is not an `arm_eventfd_read` on a full ring. -/
def armsWithRoom (s : Scheduler P) (label : Label P) : Bool :=
  match label with
  | .runner _ => !(s.aboutToArm && s.io.sq.isFull)
  | _ => true

structure SubmissionInvariant (io : IoState) : Prop where
  valid : io.sq.Valid
  bounded : io.sq.pending.toNat ≤ io.sq.entries.toNat
  history : io.staged = io.consumed ++ io.sq.pendingSqes

theorem submissionInvariant_of_fresh
    {io : IoState} (hfresh : io.Fresh) : SubmissionInvariant io := by
  have hempty : io.sq.pending = 0 := by
    rw [SubmissionQueue.pending, hfresh.sqEmpty, UInt32.sub_self]
  constructor
  · exact SubmissionQueue.valid_of_empty hfresh.sqGeometry hfresh.sqEmpty
  · rw [hempty]
    exact Nat.zero_le _
  · rw [hfresh.staged, hfresh.consumed, SubmissionQueue.pendingSqes, hempty]
    rfl

theorem SubmissionInvariant.nothingOverwritten
    {io : IoState} (hinv : SubmissionInvariant io) : io.NothingOverwritten := by
  have hlength : io.sq.pendingSqes.length = io.sq.pending.toNat := by
    simp [SubmissionQueue.pendingSqes]
  constructor
  · exact UInt32.le_iff_toNat_le.mpr hinv.bounded
  · intro i hi
    rw [hinv.history, List.getElem?_append_right (by omega), Nat.add_sub_cancel_left,
      SubmissionQueue.pendingSqes, window_getElem? _ _ _ _ hi,
      SubmissionQueue.kernelRead, hinv.valid.linked i hi]
  · rw [hinv.history]
    exact List.prefix_append _ _
  · rw [hinv.history, List.length_append, hlength]

theorem SubmissionInvariant.afterStage
    {s : Scheduler P} (hinv : SubmissionInvariant s.io)
    {awt : Awaitable} {self : UserData} {stamp : Stamp} {sq : SubmissionQueue}
    (haccept : awt.awaitSuspend self stamp s.io.sq = some sq) :
    SubmissionInvariant (s.stagedIo sq (awt.group self stamp)) := by
  obtain ⟨hroom, hvalid, hsqes, hpending, hentries⟩ :=
    Awaitable.awaitSuspend_appends hinv.valid (hinv.valid.wrap hinv.bounded awt) haccept
  constructor
  · exact hvalid
  · simp only [stagedIo]
    rw [hpending, hentries]
    exact hroom
  · simp only [stagedIo]
    rw [hsqes, hinv.history, List.append_assoc]

theorem SubmissionInvariant.afterArm
    {s : Scheduler P} (hinv : SubmissionInvariant s.io)
    (hroom : s.io.sq.isFull = false) :
    SubmissionInvariant
      (s.stagedIo (s.io.sq.armEventfdRead s.eventfdFd s.eventfdBufAddr)
        [SubmissionQueue.eventfdRead s.eventfdFd s.eventfdBufAddr]) := by
  obtain ⟨hvalid, hsqes, hpending⟩ :=
    hinv.valid.armEventfdRead_appends hroom s.eventfdFd s.eventfdBufAddr
  constructor
  · exact hvalid
  · exact hpending
  · simp only [stagedIo]
    rw [hsqes, hinv.history, List.append_assoc]

theorem SubmissionInvariant.afterEnter
    {s : Scheduler P} (hinv : SubmissionInvariant s.io)
    {accepted : ℕ} (haccepted : accepted ≤ s.io.sq.pending.toNat) :
    SubmissionInvariant
      { s.io with
        sq := s.io.sq.consume accepted
        kernel := s.io.kernel ++ s.io.sq.front accepted
        consumed := s.io.consumed ++ s.io.sq.front accepted } := by
  constructor
  · exact hinv.valid.consume haccepted
  · have hbounded := hinv.bounded
    change (s.io.sq.consume accepted).pending.toNat ≤ s.io.sq.entries.toNat
    rw [SubmissionQueue.consume_pending_toNat haccepted]
    omega
  · rw [hinv.history]
    change _ = s.io.consumed ++ s.io.sq.front accepted ++
      (s.io.sq.consume accepted).pendingSqes
    rw [List.append_assoc, SubmissionQueue.pendingSqes_consume haccepted]

theorem SubmissionInvariant.congr
    {io io' : IoState} (hinv : SubmissionInvariant io)
    (hsq : io'.sq = io.sq) (hstaged : io'.staged = io.staged)
    (hconsumed : io'.consumed = io.consumed) : SubmissionInvariant io' := by
  constructor
  · rw [hsq]
    exact hinv.valid
  · rw [hsq]
    exact hinv.bounded
  · rw [hsq, hstaged, hconsumed]
    exact hinv.history

theorem SubmissionInvariant.step
    {s next : Scheduler P} {label : Label P}
    (hinv : SubmissionInvariant s.io) (hwell : WellStacked s.stack)
    (hroom : s.armsWithRoom label = true)
    (hstep : s.step label = some next) : SubmissionInvariant next.io := by
  obtain ⟨-, hmove⟩ := move_of_step hstep
  cases hmove.ringStep hwell with
  | same hio | begin hio | ready hio | wake hio | scan hio | endLoop _ hio =>
      rw [hio]
      exact hinv
  | stage awt id object stamp sq haccept _ hio =>
      rw [hio]
      exact hinv.afterStage haccept
  | arm hlabel _ habout hio _ =>
      obtain ⟨allocated, rfl⟩ := hlabel
      rw [hio]
      apply hinv.afterArm
      simpa [armsWithRoom, habout] using hroom
  | enter accepted hpending _ _ hio =>
      rw [hio]
      exact hinv.afterEnter hpending
  | complete _ _ _ _ _ hio | handle _ _ _ _ hio | skip _ _ _ _ hio
  | advance _ _ hio | escape _ _ hio =>
      exact hinv.congr (by rw [hio]) (by rw [hio]) (by rw [hio])

theorem not_nothingOverwritten_of_arm
    {s next : Scheduler P} {label : Label P}
    (hinv : SubmissionInvariant s.io)
    (hfull : s.armsWithRoom label = false)
    (hstep : s.step label = some next) : ¬ next.io.NothingOverwritten := by
  obtain ⟨allocated, rfl⟩ : ∃ allocated, label = .runner allocated := by
    cases label with
    | runner allocated => exact ⟨allocated, rfl⟩
    | _ => simp [armsWithRoom] at hfull
  obtain ⟨habout, hisFull⟩ :
      s.aboutToArm = true ∧ s.io.sq.isFull = true := by
    simpa [armsWithRoom] using hfull
  have hio : next.io.sq =
      s.io.sq.armEventfdRead s.eventfdFd s.eventfdBufAddr := by
    unfold aboutToArm at habout
    split at habout
    next rest hstack =>
      have hunarmed : s.eventfdArmed = false := by simpa using habout
      unfold Scheduler.step at hstep
      split at hstep
      · simp at hstep
      · simp only [runnerStep, hstack, drainStart, hunarmed, Option.some.injEq]
          at hstep
        subst hstep
        rfl
    next => simp at habout
  intro hgood
  have hbounded := UInt32.le_iff_toNat_le.mp hgood.bounded
  have hentries : s.io.sq.entries.toNat ≤ 2 ^ 31 := by
    obtain ⟨n, hn, hpow⟩ := hinv.valid.geometry.powerOfTwo
    rw [hpow]
    exact Nat.pow_le_pow_right (by omega) (by omega)
  have hold := hinv.bounded
  have hlow := (s.io.sq.isFull_iff).mp hisFull
  rw [hio, SubmissionQueue.armEventfdRead_eq_publish,
    SubmissionQueue.publish_pending_toNat _ (by omega)] at hbounded
  simp only [SubmissionQueue.publish_entries] at hbounded
  omega

end Scheduler

open Scheduler Transition

/-- In a run on any ring, no staged entry is ever overwritten exactly when no
step arms the eventfd read on a full ring. -/
theorem nothingOverwritten_iff_armsWithRoom
    (P : Program) {io : IoState} (hfresh : io.Fresh) (fd : Int32) (addr : UInt64)
    {history : List (Scheduler P × Label P)} {final : Scheduler P}
    (hrun : Run Scheduler.step (Scheduler.initial P io fd addr) history final) :
    ((∀ visit ∈ history, visit.1.io.NothingOverwritten) ∧
        final.io.NothingOverwritten) ↔
      ∀ visit ∈ history, visit.1.armsWithRoom visit.2 = true := by
  refine hrun.forall_good_iff
    (fun s => SubmissionInvariant s.io ∧ WellStacked s.stack)
    (fun s => s.io.NothingOverwritten) (fun s label => s.armsWithRoom label = true)
    ?_ ?_ ?_ ?_
  · exact ⟨submissionInvariant_of_fresh hfresh, trivial⟩
  · exact fun s hinv => hinv.1.nothingOverwritten
  · intro s label next hinv hstep hroom
    exact ⟨hinv.1.step hinv.2 hroom hstep,
      (move_of_step hstep).2.wellStacked hinv.2⟩
  · intro s label next hinv hstep hfull
    exact not_nothingOverwritten_of_arm hinv.1 (by simpa using hfull) hstep

/-- A task with one receive, spawned and then driven by `run` up to its first
`io_uring_enter`. -/
def spawnThenRun : List (Label awaitScript) :=
  [.callSpawn [false], .runner true, .runner true,
    .callRun false, .runner true, .runner true]

/-- With two entries the receive and the eventfd read both have a slot. -/
theorem nothingOverwritten_spawnThenRun_two :
    ∃ history final,
      Run Scheduler.step (Scheduler.initial awaitScript (ringOfDepth 2) 3 64)
        history final ∧
      final.io.sq.pending = 2 ∧ final.io.NothingOverwritten := by
  have hreplay : (replay Scheduler.step Scheduler.armsWithRoom
      (Scheduler.initial awaitScript (ringOfDepth 2) 3 64) spawnThenRun).any
      (fun s => s.io.sq.pending == 2) = true := by decide +kernel
  obtain ⟨history, final, hrun, hroom, hpending⟩ := exists_run_of_replay hreplay
  refine ⟨history, final, hrun, by simpa using hpending, ?_⟩
  exact ((nothingOverwritten_iff_armsWithRoom awaitScript
    (ringOfDepth_created 1 (by omega) rfl).toFresh 3 64 hrun).mpr hroom).2

/-- With one entry the eventfd read is written over the receive. -/
theorem overwritten_spawnThenRun_one :
    (ringOfDepth 1).Created ∧ ∃ history final,
      Run Scheduler.step (Scheduler.initial awaitScript (ringOfDepth 1) 3 64)
        history final ∧
      ¬ final.io.NothingOverwritten := by
  have hreplay : (replay Scheduler.step (fun _ _ => true)
      (Scheduler.initial awaitScript (ringOfDepth 1) 3 64) spawnThenRun).any
      (fun s => decide (s.io.sq.entries < s.io.sq.pending)) = true := by
    decide +kernel
  obtain ⟨history, final, hrun, -, hpending⟩ := exists_run_of_replay hreplay
  refine ⟨ringOfDepth_created 0 (by omega) rfl, history, final, hrun, ?_⟩
  intro hgood
  have hover := UInt32.lt_iff_toNat_lt.mp (of_decide_eq_true hpending)
  have hbounded := UInt32.le_iff_toNat_le.mp hgood.bounded
  omega

end SlimCommonIo
