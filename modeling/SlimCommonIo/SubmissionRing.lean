import SlimCommonIo.Operations

/-!
# The submission ring as a queue

Both writers of the submission ring publish one entry at a time into the slot
of the tail.  As long as a slot is free this appends to the queue of pending
entries, and the kernel removes entries at its front.  Publishing into a full
ring overwrites the oldest pending entry instead.
-/

namespace SlimCommonIo
namespace SubmissionQueue

open MaskedRing

/-- Publish one entry in the slot of the tail. -/
def publish (sq : SubmissionQueue) (sqe : Sqe) : SubmissionQueue :=
  { sq with
    array := Function.update sq.array (slot sq.mask sq.tail) (slot sq.mask sq.tail)
    sqes := Function.update sq.sqes (slot sq.mask sq.tail) sqe
    tail := sq.tail + 1 }

/-- The kernel sees each pending entry in the slot of its own index. -/
structure Valid (sq : SubmissionQueue) : Prop where
  geometry : Geometry sq.mask sq.entries
  linked : ∀ i < sq.pending.toNat,
    sq.array (slot sq.mask (sq.head + UInt32.ofNat i)) =
      slot sq.mask (sq.head + UInt32.ofNat i)

theorem valid_of_empty
    {sq : SubmissionQueue} (hgeometry : Geometry sq.mask sq.entries)
    (hempty : sq.head = sq.tail) : sq.Valid := by
  refine ⟨hgeometry, ?_⟩
  intro i hi
  simp [pending, hempty] at hi

theorem tail_eq (sq : SubmissionQueue) :
    sq.tail = sq.head + UInt32.ofNat sq.pending.toNat := by
  rw [UInt32.ofNat_toNat, pending, UInt32.add_comm, UInt32.sub_add_cancel]

@[simp] theorem publish_head (sq : SubmissionQueue) (sqe : Sqe) :
    (sq.publish sqe).head = sq.head := rfl

@[simp] theorem publish_mask (sq : SubmissionQueue) (sqe : Sqe) :
    (sq.publish sqe).mask = sq.mask := rfl

@[simp] theorem publish_entries (sq : SubmissionQueue) (sqe : Sqe) :
    (sq.publish sqe).entries = sq.entries := rfl

theorem publish_pending (sq : SubmissionQueue) (sqe : Sqe) :
    (sq.publish sqe).pending = sq.pending + 1 := by
  simp only [pending, publish]
  rw [UInt32.sub_eq_add_neg, UInt32.sub_eq_add_neg, UInt32.add_assoc,
    UInt32.add_comm 1, UInt32.add_assoc]

theorem publish_pending_toNat
    (sq : SubmissionQueue) (hwrap : sq.pending.toNat + 1 < 2 ^ 32) (sqe : Sqe) :
    (sq.publish sqe).pending.toNat = sq.pending.toNat + 1 := by
  rw [publish_pending, UInt32.toNat_add]
  exact Nat.mod_eq_of_lt hwrap

/-- After a publication the kernel finds the new entry in every pending
position which shares its slot, and the old entry everywhere else. -/
theorem kernelRead_publish
    {sq : SubmissionQueue} (hvalid : sq.Valid) (sqe : Sqe)
    {i : ℕ} (hi : i < sq.pending.toNat) :
    (sq.publish sqe).kernelRead (sq.head + UInt32.ofNat i) =
      if slot sq.mask (sq.head + UInt32.ofNat i) = slot sq.mask sq.tail
      then sqe else sq.kernelRead (sq.head + UInt32.ofNat i) := by
  have hlinked := hvalid.linked i hi
  simp only [kernelRead, publish]
  by_cases hslot :
      slot sq.mask (sq.head + UInt32.ofNat i) = slot sq.mask sq.tail
  · simp [hslot]
  · simp [Function.update, hslot, hlinked]

theorem kernelRead_publish_tail (sq : SubmissionQueue) (sqe : Sqe) :
    (sq.publish sqe).kernelRead sq.tail = sqe := by
  simp [kernelRead, publish]

theorem Valid.publish
    {sq : SubmissionQueue} (hvalid : sq.Valid)
    (hwrap : sq.pending.toNat + 1 < 2 ^ 32) (sqe : Sqe) :
    (sq.publish sqe).Valid := by
  refine ⟨hvalid.geometry, ?_⟩
  intro i hi
  rw [publish_pending_toNat _ hwrap] at hi
  simp only [publish_head, publish_mask]
  simp only [SubmissionQueue.publish]
  by_cases hlast : i = sq.pending.toNat
  · subst hlast
    rw [← sq.tail_eq]
    simp
  · have hlinked := hvalid.linked i (by omega)
    by_cases hslot :
        slot sq.mask (sq.head + UInt32.ofNat i) = slot sq.mask sq.tail
    · simp [hslot]
    · simp [Function.update, hslot, hlinked]

/-- With a free slot, publishing appends to the pending entries. -/
theorem pendingSqes_publish
    {sq : SubmissionQueue} (hvalid : sq.Valid)
    (hfree : sq.pending.toNat < sq.entries.toNat) (sqe : Sqe) :
    (sq.publish sqe).pendingSqes = sq.pendingSqes ++ [sqe] := by
  have hwrap : sq.pending.toNat + 1 < 2 ^ 32 := by
    have := sq.entries.toNat_lt
    omega
  rw [pendingSqes, publish_pending_toNat _ hwrap, publish_head, window_succ,
    ← sq.tail_eq, kernelRead_publish_tail]
  congr 1
  apply window_congr
  intro i hi
  rw [kernelRead_publish hvalid sqe hi, if_neg]
  -- the slot of the tail is none of the pending ones
  rw [sq.tail_eq]
  exact hvalid.geometry.slot_ne sq.head hi (by omega)

/-- Publishing an entry outside a class, free slot or not, adds nothing of the
class to the pending entries and keeps the order of what it leaves. -/
theorem pendingSqes_publish_filter
    {sq : SubmissionQueue} (hvalid : sq.Valid)
    (hwrap : sq.pending.toNat + 1 < 2 ^ 32)
    {p : Sqe → Bool} {sqe : Sqe} (hsqe : p sqe = false) :
    ((sq.publish sqe).pendingSqes.filter p).Sublist
      (sq.pendingSqes.filter p) := by
  have hfront : ∀ n ≤ sq.pending.toNat,
      ((window (sq.publish sqe).kernelRead sq.head n).filter p).Sublist
        ((window sq.kernelRead sq.head n).filter p) := by
    intro n hn
    induction n with
    | zero => simp
    | succ n ih =>
        rw [window_succ, window_succ, List.filter_append, List.filter_append]
        apply (ih (by omega)).append
        rw [kernelRead_publish hvalid sqe (by omega)]
        split
        · simp [hsqe]
        · exact List.Sublist.refl _
  rw [pendingSqes, publish_pending_toNat _ hwrap, publish_head, window_succ,
    ← sq.tail_eq, kernelRead_publish_tail, List.filter_append]
  simpa [hsqe, pendingSqes] using hfront _ le_rfl

theorem mem_pendingSqes_publish
    {sq : SubmissionQueue} (hvalid : sq.Valid)
    (hwrap : sq.pending.toNat + 1 < 2 ^ 32) {sqe other : Sqe}
    (hother : other ∈ (sq.publish sqe).pendingSqes) :
    other = sqe ∨ other ∈ sq.pendingSqes := by
  by_cases hnew : other = sqe
  · exact .inl hnew
  · right
    have hsub := pendingSqes_publish_filter hvalid hwrap
      (p := fun x => decide (x ≠ sqe)) (decide_eq_false (not_not.mpr rfl))
    have hmem := hsub.subset (List.mem_filter.mpr ⟨hother, decide_eq_true hnew⟩)
    exact (List.mem_filter.mp hmem).1

theorem mem_pendingSqes_publish_self
    {sq : SubmissionQueue} (hwrap : sq.pending.toNat + 1 < 2 ^ 32) (sqe : Sqe) :
    sqe ∈ (sq.publish sqe).pendingSqes := by
  rw [pendingSqes, publish_pending_toNat _ hwrap, publish_head, window_succ,
    ← sq.tail_eq, kernelRead_publish_tail]
  simp

/-! ## The kernel's side -/

theorem consume_pending_toNat
    {sq : SubmissionQueue} {count : ℕ} (hcount : count ≤ sq.pending.toNat) :
    (sq.consume count).pending.toNat = sq.pending.toNat - count :=
  sub_add_ofNat_toNat hcount

theorem pendingSqes_consume
    {sq : SubmissionQueue} {count : ℕ} (hcount : count ≤ sq.pending.toNat) :
    sq.front count ++ (sq.consume count).pendingSqes = sq.pendingSqes := by
  rw [pendingSqes, pendingSqes, consume_pending_toNat hcount]
  have hsplit : sq.pending.toNat = count + (sq.pending.toNat - count) := by omega
  conv_rhs => rw [hsplit, window_add]
  rfl

theorem Valid.consume
    {sq : SubmissionQueue} (hvalid : sq.Valid)
    {count : ℕ} (hcount : count ≤ sq.pending.toNat) :
    (sq.consume count).Valid := by
  refine ⟨hvalid.geometry, ?_⟩
  intro i hi
  rw [consume_pending_toNat hcount] at hi
  have hlinked := hvalid.linked (count + i) (by omega)
  rw [add_ofNat_add] at hlinked
  exact hlinked

/-! ## The two writers -/

theorem armEventfdRead_eq_publish
    (sq : SubmissionQueue) (eventfd : Int32) (eventfdBufAddr : UInt64) :
    sq.armEventfdRead eventfd eventfdBufAddr =
      sq.publish (eventfdRead eventfd eventfdBufAddr) := rfl

theorem hasCapacity_iff
    {sq : SubmissionQueue} {count : UInt32}
    (hwrap : sq.pending.toNat + count.toNat < 2 ^ 32) :
    sq.hasCapacity count = true ↔
      sq.pending.toNat + count.toNat ≤ sq.entries.toNat := by
  rw [hasCapacity, decide_eq_true_iff, UInt32.le_iff_toNat_le,
    UInt32.toNat_add, Nat.mod_eq_of_lt hwrap]

theorem isFull_iff (sq : SubmissionQueue) :
    sq.isFull = true ↔ sq.entries.toNat ≤ sq.pending.toNat := by
  rw [isFull, decide_eq_true_iff, UInt32.le_iff_toNat_le]

end SubmissionQueue

namespace Awaitable

open SubmissionQueue

theorem prepare_slot (op : Operation) (slot slot' : Sqe) :
    op.prepare slot = op.prepare slot' := by
  cases op <;> rfl

/-- `await_suspend` publishes its group of entries if it has room for all of
them, and otherwise nothing. -/
theorem awaitSuspend_eq
    (awt : Awaitable) (self : UserData) (stamp : Stamp) (sq : SubmissionQueue) :
    awt.awaitSuspend self stamp sq =
      if sq.hasCapacity awt.needed
      then some ((awt.group self stamp).foldl publish sq) else none := by
  by_cases hroom : sq.hasCapacity awt.needed
  · have hprimary : ∀ slot, awt.primarySqe self stamp slot =
        awt.primarySqe self stamp Sqe.zero := by
      intro slot
      simp only [primarySqe, prepare_slot awt.op slot Sqe.zero]
    by_cases htimed : awt.timeoutTs.isSome
    · simp only [awaitSuspend, hroom, Bool.not_true, Bool.false_eq_true,
        if_false, htimed, if_true, group, List.foldl_cons, List.foldl_nil]
      simp only [commitOne, store, publish, Function.update_self, hprimary,
        Function.update_idem]
    · simp only [awaitSuspend, hroom, Bool.not_true, Bool.false_eq_true,
        if_false, htimed, if_true, group, List.foldl_cons, List.foldl_nil]
      simp only [commitOne, store, publish, hprimary]
  · simp [awaitSuspend, hroom]

theorem group_length
    (awt : Awaitable) (self : UserData) (stamp : Stamp) :
    (awt.group self stamp).length = awt.needed.toNat := by
  by_cases htimed : awt.timeoutTs.isSome <;>
    simp [group, needed, htimed]

theorem needed_toNat_le (awt : Awaitable) : awt.needed.toNat ≤ 2 := by
  unfold needed
  split <;> decide

end Awaitable

namespace SubmissionQueue

theorem foldl_publish_pending_toNat
    (sq : SubmissionQueue) (group : List Sqe)
    (hwrap : sq.pending.toNat + group.length < 2 ^ 32) :
    (group.foldl publish sq).pending.toNat = sq.pending.toNat + group.length := by
  induction group generalizing sq with
  | nil => rfl
  | cons sqe group ih =>
      simp only [List.length_cons] at hwrap ⊢
      have hpending := sq.publish_pending_toNat (by omega) sqe
      rw [List.foldl_cons, ih _ (by omega), hpending]
      omega

theorem publish_all
    {sq : SubmissionQueue} (hvalid : sq.Valid) (group : List Sqe)
    (hfree : sq.pending.toNat + group.length ≤ sq.entries.toNat) :
    (group.foldl publish sq).Valid ∧
      (group.foldl publish sq).pendingSqes = sq.pendingSqes ++ group ∧
      (group.foldl publish sq).pending.toNat = sq.pending.toNat + group.length ∧
      (group.foldl publish sq).entries = sq.entries := by
  induction group generalizing sq with
  | nil => simpa using hvalid
  | cons sqe group ih =>
      simp only [List.length_cons] at hfree
      have hwrap : sq.pending.toNat + 1 < 2 ^ 32 := by
        have := sq.entries.toNat_lt
        omega
      have hpending := publish_pending_toNat _ hwrap sqe
      have hrest := ih (hvalid.publish hwrap sqe)
        (by rw [hpending, publish_entries]; omega)
      rw [pendingSqes_publish hvalid (by omega), publish_entries] at hrest
      obtain ⟨hvalid', hsqes, -, hentries⟩ := hrest
      refine ⟨hvalid', ?_, ?_, hentries⟩
      · rw [List.foldl_cons, hsqes]
        simp
      · apply foldl_publish_pending_toNat
        have := sq.entries.toNat_lt
        simp only [List.length_cons]
        omega

theorem Valid.armEventfdRead_appends
    {sq : SubmissionQueue} (hvalid : sq.Valid) (hroom : sq.isFull = false)
    (fd : Int32) (addr : UInt64) :
    (sq.armEventfdRead fd addr).Valid ∧
      (sq.armEventfdRead fd addr).pendingSqes = sq.pendingSqes ++ [eventfdRead fd addr] ∧
      (sq.armEventfdRead fd addr).pending.toNat ≤ sq.entries.toNat := by
  have hfree : sq.pending.toNat < sq.entries.toNat := by
    by_contra hfull
    rw [(isFull_iff sq).mpr (by omega)] at hroom
    simp at hroom
  obtain ⟨hvalid', hsqes, hpending, -⟩ :=
    publish_all hvalid [eventfdRead fd addr] (by simpa using Nat.succ_le_of_lt hfree)
  simp only [List.foldl_cons, List.foldl_nil, List.length_singleton] at hvalid' hsqes hpending
  rw [armEventfdRead_eq_publish]
  exact ⟨hvalid', hsqes, by omega⟩

theorem Valid.wrap
    {sq : SubmissionQueue} (hvalid : sq.Valid)
    (hbounded : sq.pending.toNat ≤ sq.entries.toNat) (awt : Awaitable) :
    sq.pending.toNat + awt.needed.toNat < 2 ^ 32 := by
  have hentries : sq.entries.toNat ≤ 2 ^ 31 := by
    obtain ⟨n, hn, hpow⟩ := hvalid.geometry.powerOfTwo
    rw [hpow]
    exact Nat.pow_le_pow_right (by omega) (by omega)
  have hneeded := awt.needed_toNat_le
  omega

end SubmissionQueue

theorem SubmissionQueue.foldl_publish_head
    (sq : SubmissionQueue) (group : List Sqe) :
    (group.foldl SubmissionQueue.publish sq).head = sq.head := by
  induction group generalizing sq with
  | nil => rfl
  | cons sqe group ih => exact ih (sq.publish sqe)

theorem Awaitable.awaitSuspend_head
    {awt : Awaitable} {self : UserData} {stamp : Stamp} {sq sq' : SubmissionQueue}
    (haccept : awt.awaitSuspend self stamp sq = some sq') : sq'.head = sq.head := by
  rw [awaitSuspend_eq] at haccept
  split at haccept
  next =>
    simp only [Option.some.injEq] at haccept
    rw [← haccept]
    exact SubmissionQueue.foldl_publish_head sq _
  next => simp at haccept

theorem Awaitable.awaitSuspend_appends
    {awt : Awaitable} {self : UserData} {stamp : Stamp} {sq sq' : SubmissionQueue}
    (hvalid : sq.Valid) (hwrap : sq.pending.toNat + awt.needed.toNat < 2 ^ 32)
    (haccept : awt.awaitSuspend self stamp sq = some sq') :
    sq.pending.toNat + awt.needed.toNat ≤ sq.entries.toNat ∧ sq'.Valid ∧
      sq'.pendingSqes = sq.pendingSqes ++ awt.group self stamp ∧
      sq'.pending.toNat = sq.pending.toNat + awt.needed.toNat ∧
      sq'.entries = sq.entries := by
  rw [awaitSuspend_eq] at haccept
  split at haccept
  next hroom =>
    simp only [Option.some.injEq] at haccept
    subst haccept
    rw [SubmissionQueue.hasCapacity_iff hwrap] at hroom
    have hpublish := SubmissionQueue.publish_all hvalid (awt.group self stamp)
      (by rw [group_length]; exact hroom)
    rw [group_length] at hpublish
    exact ⟨hroom, hpublish⟩
  next => simp at haccept

end SlimCommonIo
