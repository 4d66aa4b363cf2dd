import SlimCommonIo.RingSteps
import SlimCommonIo.TransitionRuns

/-!
# The completion ring as a queue

The kernel appends completions while the ring has room and `drain` removes them
at the front.  `drain` reads head and tail once and then works through its
copies of them; the invariant of this module ties these copies to the ring and
the ring to the history of posted and handled completions.
-/

namespace SlimCommonIo

open MaskedRing

namespace CompletionQueue

theorem tail_eq (cq : CompletionQueue) :
    cq.tail = cq.head + UInt32.ofNat cq.unreaped.toNat := by
  rw [UInt32.ofNat_toNat, unreaped, UInt32.add_comm, UInt32.sub_add_cancel]

@[simp] theorem append_head (cq : CompletionQueue) (cqe : Cqe) :
    (cq.append cqe).head = cq.head := rfl

theorem hasRoom_iff (cq : CompletionQueue) :
    cq.hasRoom = true ↔ cq.unreaped.toNat < cq.entries.toNat := by
  rw [hasRoom, decide_eq_true_iff, UInt32.lt_iff_toNat_lt]

theorem append_unreaped_toNat
    {cq : CompletionQueue} (hroom : cq.unreaped.toNat < cq.entries.toNat)
    (cqe : Cqe) :
    (cq.append cqe).unreaped.toNat = cq.unreaped.toNat + 1 := by
  have hsucc : (cq.append cqe).unreaped = cq.unreaped + 1 := by
    simp only [unreaped, append]
    rw [UInt32.sub_eq_add_neg, UInt32.sub_eq_add_neg, UInt32.add_assoc,
      UInt32.add_comm 1, UInt32.add_assoc]
  have := cq.entries.toNat_lt
  rw [hsucc, UInt32.toNat_add]
  exact Nat.mod_eq_of_lt (by change _ + 1 < _; omega)

theorem read_append
    {cq : CompletionQueue} (hring : Geometry cq.mask cq.entries)
    (hroom : cq.unreaped.toNat < cq.entries.toNat) (cqe : Cqe)
    {i : ℕ} (hi : i < cq.unreaped.toNat) :
    (cq.append cqe).read (cq.head + UInt32.ofNat i) =
      cq.read (cq.head + UInt32.ofNat i) := by
  have hslot : slot cq.mask (cq.head + UInt32.ofNat i) ≠ slot cq.mask cq.tail := by
    rw [cq.tail_eq]
    exact hring.slot_ne cq.head hi (by omega)
  simp [read, append, Function.update, hslot]

theorem unreapedCqes_append
    {cq : CompletionQueue} (hring : Geometry cq.mask cq.entries)
    (hroom : cq.unreaped.toNat < cq.entries.toNat) (cqe : Cqe) :
    (cq.append cqe).unreapedCqes = cq.unreapedCqes ++ [cqe] := by
  have hlast : (cq.append cqe).read cq.tail = cqe := by
    simp [read, append]
  rw [unreapedCqes, append_unreaped_toNat hroom, append_head, window_succ,
    ← cq.tail_eq, hlast]
  congr 1
  apply window_congr
  intro i hi
  exact read_append hring hroom cqe hi

/-- The ring after `drain` has moved the head one further. -/
def pop (cq : CompletionQueue) : CompletionQueue :=
  { cq with head := cq.head + 1 }

theorem pop_unreaped_toNat
    (cq : CompletionQueue) (hsome : 0 < cq.unreaped.toNat) :
    cq.pop.unreaped.toNat = cq.unreaped.toNat - 1 :=
  sub_add_ofNat_toNat hsome

theorem unreapedCqes_pop
    {cq : CompletionQueue} (hsome : 0 < cq.unreaped.toNat) :
    cq.unreapedCqes = cq.read cq.head :: cq.pop.unreapedCqes := by
  obtain ⟨n, hn⟩ : ∃ n, cq.unreaped.toNat = n + 1 :=
    ⟨cq.unreaped.toNat - 1, by omega⟩
  have hpop : cq.pop.unreaped.toNat = n := by
    rw [cq.pop_unreaped_toNat hsome, hn]
    rfl
  rw [unreapedCqes, hn, window_cons, unreapedCqes, hpop]
  rfl

end CompletionQueue

/-- The counters a `drain` holds at this point agree with the ring: its next
entry is the one at the head, and it will not run past the ring's tail. -/
def DrainPoint.Tracks (cq : CompletionQueue) : DrainPoint → Prop
  | .loop current tail =>
      current = cq.head ∧ (tail - current).toNat ≤ cq.unreaped.toNat
  | .resumed current tail =>
      current = cq.head ∧ current ≠ tail ∧
        (tail - current).toNat ≤ cq.unreaped.toNat
  | .inboxDone current tail =>
      (current = cq.head ∧ current ≠ tail ∧
        (tail - current).toNat ≤ cq.unreaped.toNat) ∧
        (cq.read current).userData = .eventfdBuf
  | _ => True

/-- A completion has been handled whose slot is not yet given back. -/
def DrainPoint.handling : DrainPoint → Bool
  | .resumed _ _ | .inboxDone _ _ => true
  | _ => false

variable {P : Program}

structure CompletionInvariant (s : Scheduler P) : Prop where
  geometry : Geometry s.io.cq.mask s.io.cq.entries
  bounded : s.io.cq.unreaped.toNat ≤ s.io.cq.entries.toNat
  tracks : ∀ point ∈ drainPoints s.stack, point.Tracks s.io.cq
  history : ∃ reaped, s.io.posted = reaped ++ s.io.cq.unreapedCqes ∧
    s.io.handled =
      reaped.length + (drainPoints s.stack).countP DrainPoint.handling

theorem sub_toNat_pos
    {current tail : UInt32} (hmore : current ≠ tail) : 0 < (tail - current).toNat := by
  rw [Nat.pos_iff_ne_zero]
  intro hzero
  apply hmore
  have hsub : tail - current = 0 := UInt32.toNat_inj.mp hzero
  rw [← UInt32.sub_add_cancel tail current, hsub, UInt32.zero_add]

theorem DrainPoint.Tracks.append
    {point : DrainPoint} {cq : CompletionQueue} (htracks : point.Tracks cq)
    (hring : Geometry cq.mask cq.entries)
    (hroom : cq.unreaped.toNat < cq.entries.toNat) (cqe : Cqe) :
    point.Tracks (cq.append cqe) := by
  have hgrow := CompletionQueue.append_unreaped_toNat hroom cqe
  cases point with
  | loop current tail =>
      obtain ⟨hcurrent, hle⟩ := htracks
      exact ⟨hcurrent, by omega⟩
  | resumed current tail =>
      obtain ⟨hcurrent, hmore, hle⟩ := htracks
      exact ⟨hcurrent, hmore, by omega⟩
  | inboxDone current tail =>
      obtain ⟨⟨hcurrent, hmore, hle⟩, hsentinel⟩ := htracks
      refine ⟨⟨hcurrent, hmore, by omega⟩, ?_⟩
      subst hcurrent
      have hpos := sub_toNat_pos hmore
      have hread := CompletionQueue.read_append hring hroom cqe (i := 0) (by omega)
      have hzero : cq.head + UInt32.ofNat 0 = cq.head := UInt32.add_zero _
      rw [hzero] at hread
      rw [hread]
      exact hsentinel
  | _ => trivial

theorem tracks_loop_pop
    {cq : CompletionQueue} {tail : UInt32} (hmore : cq.head ≠ tail)
    (hle : (tail - cq.head).toNat ≤ cq.unreaped.toNat) :
    (DrainPoint.loop (cq.head + 1) tail).Tracks cq.pop := by
  have hpos := sub_toNat_pos hmore
  refine ⟨rfl, ?_⟩
  have hsub : (tail - (cq.head + 1)).toNat = (tail - cq.head).toNat - 1 :=
    sub_add_ofNat_toNat hpos
  rw [hsub, CompletionQueue.pop_unreaped_toNat _ (by omega)]
  omega

namespace CompletionInvariant

theorem initial
    {io : IoState} (hfresh : io.Fresh) (fd : Int32) (addr : UInt64) :
    CompletionInvariant (Scheduler.initial P io fd addr) := by
  have hempty : io.cq.unreaped = 0 := by
    rw [CompletionQueue.unreaped, hfresh.cqEmpty, UInt32.sub_self]
  constructor
  · exact hfresh.cqGeometry
  · change io.cq.unreaped.toNat ≤ _
    rw [hempty]
    exact Nat.zero_le _
  · intro point hpoint
    simp [Scheduler.initial, drainPoints] at hpoint
  · refine ⟨[], ?_, ?_⟩
    · change io.posted = io.cq.unreapedCqes
      rw [hfresh.posted, CompletionQueue.unreapedCqes, hempty]
      rfl
    · exact hfresh.handled

/-- Steps which leave the completion side alone keep the invariant, if the
program point they reach fits the ring and is not in the middle of a
completion. -/
theorem congr
    {s next : Scheduler P} (hinv : CompletionInvariant s)
    (hcq : next.io.cq = s.io.cq) (hposted : next.io.posted = s.io.posted)
    (hhandled : next.io.handled = s.io.handled)
    (htracks : ∀ point ∈ drainPoints next.stack, point.Tracks s.io.cq)
    (hcount : (drainPoints next.stack).countP DrainPoint.handling =
      (drainPoints s.stack).countP DrainPoint.handling) :
    CompletionInvariant next := by
  constructor
  · rw [hcq]
    exact hinv.geometry
  · rw [hcq]
    exact hinv.bounded
  · rw [hcq]
    exact htracks
  · obtain ⟨reaped, hhistory, hlength⟩ := hinv.history
    refine ⟨reaped, ?_, ?_⟩
    · rw [hcq, hposted]
      exact hhistory
    · rw [hhandled, hcount]
      exact hlength

theorem afterPop
    {s next : Scheduler P} (hinv : CompletionInvariant s) {current tail : UInt32}
    (htracks : (DrainPoint.resumed current tail).Tracks s.io.cq)
    (hcq : next.io.cq = { s.io.cq with head := current + 1 })
    (hposted : next.io.posted = s.io.posted)
    (hhandled : next.io.handled + (drainPoints s.stack).countP DrainPoint.handling =
      s.io.handled + 1)
    (hafter : drainPoints next.stack = [.loop (current + 1) tail]) :
    CompletionInvariant next := by
  obtain ⟨rfl, hmore, hle⟩ := htracks
  have hpop : next.io.cq = s.io.cq.pop := hcq
  have hsome : 0 < s.io.cq.unreaped.toNat := by
    have := sub_toNat_pos hmore
    omega
  constructor
  · rw [hpop]
    exact hinv.geometry
  · have hbounded := hinv.bounded
    rw [hpop, CompletionQueue.pop_unreaped_toNat _ hsome]
    change _ ≤ s.io.cq.entries.toNat
    omega
  · intro point hpoint
    rw [hafter, List.mem_singleton] at hpoint
    rw [hpoint, hpop]
    exact tracks_loop_pop hmore hle
  · obtain ⟨reaped, hhistory, hlength⟩ := hinv.history
    refine ⟨reaped ++ [s.io.cq.read s.io.cq.head], ?_, ?_⟩
    · rw [hposted, hhistory, hpop, CompletionQueue.unreapedCqes_pop hsome]
      simp
    · rw [hafter]
      simp [DrainPoint.handling]
      omega

theorem afterComplete
    {s next : Scheduler P} (hinv : CompletionInvariant s) {cqe : Cqe}
    (hroom : s.io.cq.hasRoom = true)
    (hcq : next.io.cq = s.io.cq.append cqe)
    (hposted : next.io.posted = s.io.posted ++ [cqe])
    (hhandled : next.io.handled = s.io.handled)
    (hpoints : drainPoints next.stack = drainPoints s.stack) :
    CompletionInvariant next := by
  have hfree := s.io.cq.hasRoom_iff.mp hroom
  constructor
  · rw [hcq]
    exact hinv.geometry
  · rw [hcq, CompletionQueue.append_unreaped_toNat hfree]
    exact hfree
  · intro point hpoint
    rw [hpoints] at hpoint
    rw [hcq]
    exact (hinv.tracks point hpoint).append hinv.geometry hfree cqe
  · obtain ⟨reaped, hhistory, hlength⟩ := hinv.history
    refine ⟨reaped, ?_, ?_⟩
    · rw [hposted, hhistory, hcq,
        CompletionQueue.unreapedCqes_append hinv.geometry hfree, List.append_assoc]
    · rw [hhandled, hpoints]
      exact hlength

theorem tracks_of_advance
    {s : Scheduler P} (hinv : CompletionInvariant s) {current tail : UInt32}
    (hbefore : drainPoints s.stack = [.resumed current tail] ∨
      drainPoints s.stack = [.inboxDone current tail]) :
    (DrainPoint.resumed current tail).Tracks s.io.cq := by
  rcases hbefore with hbefore | hbefore
  · exact hinv.tracks (.resumed current tail) (by simp [hbefore])
  · exact (hinv.tracks (.inboxDone current tail) (by simp [hbefore])).1

theorem step
    {s next : Scheduler P} {label : Label P} (hinv : CompletionInvariant s)
    (hring : Scheduler.RingStep s label next) : CompletionInvariant next := by
  cases hring with
  | same hio _ hpoints =>
      apply hinv.congr (by rw [hio]) (by rw [hio]) (by rw [hio])
      · rw [hpoints]
        exact hinv.tracks
      · rw [hpoints]
  | begin hio _ hbefore hafter | ready hio _ _ hbefore hafter
  | wake hio _ hbefore hafter =>
      apply hinv.congr (by rw [hio]) (by rw [hio]) (by rw [hio])
      · simp [hafter, DrainPoint.Tracks]
      · simp [hbefore, hafter, DrainPoint.handling]
  | scan hio _ hbefore hafter =>
      apply hinv.congr (by rw [hio]) (by rw [hio]) (by rw [hio])
      · intro point hpoint
        rw [hafter, List.mem_singleton] at hpoint
        rw [hpoint]
        exact ⟨rfl, le_rfl⟩
      · rw [hbefore, hafter]
        rfl
  | endLoop current hio _ hbefore hafter =>
      apply hinv.congr (by rw [hio]) (by rw [hio]) (by rw [hio])
      · simp [hafter]
      · rw [hbefore, hafter]
        rfl
  | stage awt id object stamp sq _ _ hio _ hpoints =>
      apply hinv.congr (by rw [hio]; rfl) (by rw [hio]; rfl) (by rw [hio]; rfl)
      · rw [hpoints]
        exact hinv.tracks
      · rw [hpoints]
  | arm _ _ _ hio _ hbefore hafter =>
      apply hinv.congr (by rw [hio]; rfl) (by rw [hio]; rfl) (by rw [hio]; rfl)
      · intro point hpoint
        rw [hafter, List.mem_singleton] at hpoint
        rw [hpoint]
        trivial
      · rw [hbefore, hafter]
        rfl
  | enter accepted _ _ _ hio _ hbefore hafter =>
      apply hinv.congr (by rw [hio]) (by rw [hio]) (by rw [hio])
      · rw [hafter]
        split <;> simp [DrainPoint.Tracks]
      · rw [hbefore, hafter]
        split <;> rfl
  | complete index sqe res _ hroom hio _ hpoints =>
      exact hinv.afterComplete hroom (by rw [hio]) (by rw [hio]) (by rw [hio]) hpoints
  | handle current tail hmore _ hio _ hbefore hafter =>
      have hloop := hinv.tracks (.loop current tail) (by simp [hbefore])
      obtain ⟨reaped, hhistory, hlength⟩ := hinv.history
      rw [hbefore] at hlength
      have htracks : (DrainPoint.resumed current tail).Tracks s.io.cq :=
        ⟨hloop.1, hmore, hloop.2⟩
      constructor
      · rw [hio]
        exact hinv.geometry
      · rw [hio]
        exact hinv.bounded
      · intro point hpoint
        rw [hio]
        rw [hafter, List.mem_singleton] at hpoint
        rw [hpoint]
        split
        next hsentinel => exact ⟨htracks, hsentinel⟩
        next => exact htracks
      · refine ⟨reaped, by rw [hio]; exact hhistory, ?_⟩
        rw [hio, hafter]
        split <;> simpa [DrainPoint.handling] using hlength
  | skip current tail hmore _ hio _ hbefore hafter =>
      have hloop := hinv.tracks (.loop current tail) (by simp [hbefore])
      apply hinv.afterPop ⟨hloop.1, hmore, hloop.2⟩ (by rw [hio]) (by rw [hio]) _ hafter
      rw [hio, hbefore]
      rfl
  | advance current tail hio _ hbefore hafter =>
      apply hinv.afterPop (hinv.tracks_of_advance hbefore) (by rw [hio]) (by rw [hio]) _
        hafter
      rw [hio]
      rcases hbefore with hbefore | hbefore
      · rw [hbefore]
        rfl
      · rw [hbefore]
        rfl
  | escape current tail hio _ hbefore hafter =>
      obtain ⟨reaped, hhistory, hlength⟩ := hinv.history
      rw [hbefore] at hlength
      constructor
      · rw [hio]
        exact hinv.geometry
      · rw [hio]
        exact hinv.bounded
      · simp [hafter]
      · refine ⟨reaped, by rw [hio]; exact hhistory, ?_⟩
        rw [hio, hafter]
        simp [DrainPoint.handling] at hlength ⊢
        omega

/-- What `drain` is about to handle is the oldest completion not yet handled. -/
theorem drop_handled_of_loop
    {s : Scheduler P} (hinv : CompletionInvariant s) {current tail : UInt32}
    (hloop : drainPoints s.stack = [.loop current tail]) (hmore : current ≠ tail) :
    s.io.posted.drop s.io.handled =
      s.io.cq.read current :: s.io.posted.drop (s.io.handled + 1) := by
  obtain ⟨rfl, hle⟩ := hinv.tracks (.loop current tail) (by simp [hloop])
  obtain ⟨reaped, hhistory, hlength⟩ := hinv.history
  have hsome : 0 < s.io.cq.unreaped.toNat := by
    have := sub_toNat_pos hmore
    omega
  have hhandled : s.io.handled = reaped.length := by
    simpa [hloop, DrainPoint.handling] using hlength
  rw [hhistory, hhandled, CompletionQueue.unreapedCqes_pop hsome, List.drop_left,
    ← List.drop_drop, List.drop_left]
  rfl

theorem drop_handled_of_escape
    {s : Scheduler P} (hinv : CompletionInvariant s) {current tail : UInt32}
    (hpoint : drainPoints s.stack = [.inboxDone current tail]) :
    s.io.posted.drop (s.io.handled - 1) =
        s.io.cq.read current :: s.io.posted.drop s.io.handled ∧
      (s.io.cq.read current).userData = .eventfdBuf := by
  obtain ⟨⟨rfl, hmore, hle⟩, hsentinel⟩ :=
    hinv.tracks (.inboxDone current tail) (by simp [hpoint])
  refine ⟨?_, hsentinel⟩
  obtain ⟨reaped, hhistory, hlength⟩ := hinv.history
  have hsome : 0 < s.io.cq.unreaped.toNat := by
    have := sub_toNat_pos hmore
    omega
  have hhandled : s.io.handled = reaped.length + 1 := by
    simpa [hpoint, DrainPoint.handling] using hlength
  rw [hhistory, hhandled, CompletionQueue.unreapedCqes_pop hsome, Nat.add_sub_cancel,
    List.drop_left, ← List.drop_drop, List.drop_left]
  rfl

theorem not_le_of_escape
    {s : Scheduler P} (hinv : CompletionInvariant s) {io : IoState} {current tail : UInt32}
    (hpoint : drainPoints s.stack = [.inboxDone current tail])
    (hio : io = { s.io with handled := s.io.handled - 1 }) :
    ¬ s.io.handled ≤ io.handled := by
  obtain ⟨reaped, -, hlength⟩ := hinv.history
  have hhandled : s.io.handled = reaped.length + 1 := by
    simpa [hpoint, DrainPoint.handling] using hlength
  rw [hio]
  change ¬ s.io.handled ≤ s.io.handled - 1
  omega

end CompletionInvariant

end SlimCommonIo
