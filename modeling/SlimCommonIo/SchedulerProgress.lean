import SlimCommonIo.SuspendedFrames

/-!
# The driving thread is never stuck

In every reachable state the thread which drives a scheduler can take its next
step, or it is in a system call: the entry of `io_uring_enter`, which the kernel
can answer, or its wait for a completion.
-/

namespace SlimCommonIo

open Transition

variable {P : Program}

/-- The activation waits for the `spawn` above it to return. -/
def Activation.inSpawn : Activation P → Bool
  | .jobInSpawn _ _ | .coroutineInSpawn _ _ => true
  | _ => false

namespace Scheduler

/-- The code on top of the stack is not itself waiting for a call to return. -/
def TopActive (stack : List (Activation P)) : Prop :=
  ∀ top rest, stack = top :: rest → top.inSpawn = false

theorem TopActive.nil : TopActive ([] : List (Activation P)) := by
  intro top rest hstack
  simp at hstack

theorem TopActive.cons
    {top : Activation P} (htop : top.inSpawn = false) (rest : List (Activation P)) :
    TopActive (top :: rest) := by
  intro other rest' hstack
  rw [List.cons.injEq] at hstack
  exact hstack.1 ▸ htop

theorem topActive_of_deliver
    {status : Option ErrorStatus} {task : FrameId} {below stack : List (Activation P)}
    (hwell : WellStacked (.spawn task :: below))
    (hdeliver : deliver status below = some stack) : TopActive stack := by
  rcases hwell.1 with rfl | ⟨entry, next, rest, rfl⟩ | ⟨id, next, rest, rfl⟩
  · simp only [deliver, Option.some.injEq] at hdeliver
    subst hdeliver
    exact .nil
  · simp only [deliver, Option.some.injEq] at hdeliver
    subst hdeliver
    exact .cons rfl rest
  · simp only [deliver, Option.some.injEq] at hdeliver
    subst hdeliver
    exact .cons rfl rest

/-- What a coroutine stands on is active once the coroutine has gone. -/
theorem topActive_below_coroutine
    {id : FrameId} {code : P.Code} {rest : List (Activation P)}
    (hwell : WellStacked (.coroutine id code :: rest)) : TopActive rest := by
  rcases hwell.1 with rfl | ⟨task, below, rfl⟩ | ⟨current, tail, below, rfl⟩
  · exact .nil
  · exact .cons rfl below
  · exact .cons rfl below

theorem Move.topActive
    {s next : Scheduler P} {label : Label P} (hmove : Move s label next)
    (hwell : WellStacked s.stack) (htop : TopActive s.stack) : TopActive next.stack := by
  cases hmove with
  | leaveRun hstack _ | destructor hstack =>
      rw [hstack] at hwell
      have hbelow := hwell.1
      simp only [Activation.StandsOn] at hbelow
      subst hbelow
      exact .nil
  | leaveShutdown hstack _ =>
      rw [hstack] at hwell
      rcases hwell.1 with rfl | rfl
      · exact .nil
      · exact .cons rfl _
  | reap hstack =>
      rw [hstack] at hwell
      obtain ⟨below, rfl | rfl⟩ := hwell.1
      · exact .cons rfl below
      · exact .cons rfl below
  | endLoop hstack =>
      rw [hstack] at hwell
      obtain ⟨below, rfl⟩ := hwell.1
      exact .cons rfl below
  | endInbox hstack =>
      rw [hstack] at hwell
      obtain ⟨current, tail, below, rfl⟩ := hwell.1
      exact .cons rfl below
  | endJob hstack _ =>
      rw [hstack] at hwell
      obtain ⟨batch, below, rfl⟩ := hwell.1
      exact .cons rfl below
  | eventfdWrite hstack =>
      rw [hstack] at hwell
      obtain ⟨below, ⟨entry, code, rfl⟩ | ⟨batch, rfl⟩ | ⟨id, code, rfl⟩⟩ := hwell.1
      · exact .cons rfl below
      · exact .cons rfl below
      · exact .cons rfl below
  | stage hstack _ _ _ _ =>
      rw [hstack] at hwell
      exact topActive_below_coroutine hwell
  | endRoot hends _ =>
      obtain ⟨code, hstack⟩ := hends.stack
      rw [hstack] at hwell
      exact topActive_below_coroutine hwell
  | spawnFull hcall _ hdeliver =>
      obtain ⟨hbelow, hstands, -⟩ := hcall.wellStacked hwell
      exact topActive_of_deliver ⟨hstands 0, hbelow⟩ hdeliver
  | spawnRefused hstack _ hdeliver | spawnAccepted hstack _ hdeliver
  | spawnBadAlloc hstack _ hdeliver =>
      rw [hstack] at hwell
      exact topActive_of_deliver hwell hdeliver
  | escape _ _ => exact .nil
  | endAstray _ _ _ | astray _ _ | complete _ _ _ | enqueue _ | notify _ | requestStop _ _
  | stopCallback _ _ _ | dropTask _ | foreignRefusal _ | callDestroy _ _ _ => exact htop
  | _ => exact .cons rfl _

/-- The driving thread can take its next step. -/
def CanRun (s : Scheduler P) : Prop :=
  ∃ next, s.step (.runner true) = some next

/-- The driving thread is at `io_uring_enter`, which can return. -/
def CanEnter (s : Scheduler P) : Prop :=
  ∃ accepted next, s.step (.enter accepted) = some next

theorem enterSpawn_isSome
    (s : Scheduler P) (body : P.Code) {below : List (Activation P)}
    (hbelow : ∀ status, (deliver status below).isSome = true) :
    (s.enterSpawn body below).isSome = true := by
  unfold enterSpawn leaveSpawn
  simp only
  split
  · rw [Option.isSome_map]
    exact hbelow _
  · rfl

theorem resumeReturned_isSome
    (s : Scheduler P) (task : FrameId) (allocated : Bool) {below : List (Activation P)}
    (hbelow : ∀ status, (deliver status below).isSome = true) :
    (s.resumeReturned task allocated below).isSome = true := by
  unfold resumeReturned leaveSpawn
  split
  · rw [Option.isSome_map]
    exact hbelow _
  · split
    · rw [Option.isSome_map]
      exact hbelow _
    · rw [Option.isSome_map]
      exact hbelow _

theorem canEnter_of_enter
    {s : Scheduler P} (hring : RingInvariant s) (hcrash : s.crash = none)
    {rest : List (Activation P)} (hstack : s.stack = .drain .enter :: rest) : s.CanEnter := by
  have hbacklog := hring.backlog
  rw [hring.drainPoints_of_drain hstack] at hbacklog
  obtain ⟨n, -, hpow⟩ := hring.valid.geometry.powerOfTwo
  have hpos : 0 < s.io.sq.entries.toNat := by
    rw [hpow]
    exact Nat.two_pow_pos n
  have hlimit : s.io.sq.pending.toNat ≤
      min s.io.sq.pending.toNat s.io.sq.entries.toNat + backlogLimit := by
    simp only [List.count_singleton_self] at hbacklog
    omega
  have haccept : min s.io.sq.pending.toNat s.io.sq.entries.toNat ≤ s.io.sq.pending.toNat ∧
      min s.io.sq.pending.toNat s.io.sq.entries.toNat ≤ s.io.sq.entries.toNat ∧
      s.io.sq.pending.toNat ≤
        min s.io.sq.pending.toNat s.io.sq.entries.toNat + backlogLimit :=
    ⟨Nat.min_le_left _ _, Nat.min_le_right _ _, hlimit⟩
  refine ⟨min s.io.sq.pending.toNat s.io.sq.entries.toNat, ?_⟩
  simp only [step, hcrash, hstack, ioUringEnter, if_pos haccept, Option.isSome_none,
    Bool.false_eq_true, if_false]
  exact ⟨_, rfl⟩

theorem canRun_of_runnerStep
    {s : Scheduler P} (hcrash : s.crash = none) (hstep : (s.runnerStep true).isSome = true) :
    s.CanRun := by
  obtain ⟨next, hnext⟩ := Option.isSome_iff_exists.mp hstep
  refine ⟨next, ?_⟩
  simp [step, hcrash, hnext]

/-- The driving thread moves on, enters the kernel, or sleeps there. -/
theorem canRun_or_canEnter_or_blocked
    {s : Scheduler P} (hring : RingInvariant s) (htop : TopActive s.stack)
    (hcrash : s.crash = none) (hstack : s.stack ≠ []) :
    s.CanRun ∨ s.CanEnter ∨ s.Blocked := by
  obtain ⟨top, rest, hstack⟩ := List.exists_cons_of_ne_nil hstack
  have hactive := htop top rest hstack
  have hwell := hring.wellStacked
  rw [hstack] at hwell
  have hrun : (s.runnerStep true).isSome = true → s.CanRun ∨ s.CanEnter ∨ s.Blocked :=
    fun hstep => .inl (canRun_of_runnerStep hcrash hstep)
  cases top with
  | run =>
      apply hrun
      simp only [runnerStep, hstack]
      split <;> rfl
  | shutdown =>
      apply hrun
      simp only [runnerStep, hstack]
      split <;> rfl
  | drain point =>
      cases point with
      | enter => exact .inr (.inl (canEnter_of_enter hring hcrash hstack))
      | waiting =>
          by_cases hempty : s.io.cq.head = s.io.cq.tail
          · exact .inr (.inr ⟨⟨rest, hstack⟩, hempty⟩)
          · apply hrun
            simp [runnerStep, hstack, hempty]
      | _ => exact hrun (by simp [runnerStep, hstack])
  | drainInbox batch =>
      apply hrun
      cases batch <;> simp [runnerStep, hstack]
  | job entry code =>
      apply hrun
      simp only [runnerStep, hstack, jobStep]
      split
      · exact s.enterSpawn_isSome _ fun status => rfl
      · rfl
      · rfl
      · split <;> rfl
      · rfl
  | spawn task =>
      apply hrun
      simp only [runnerStep, hstack]
      apply resumeReturned_isSome
      intro status
      rcases hwell.1 with rfl | ⟨entry, next, below, rfl⟩ | ⟨id, next, below, rfl⟩ <;> rfl
  | coroutine id code =>
      apply hrun
      simp only [runnerStep, hstack, coroutineStep]
      split
      · rfl
      · split
        · rfl
        · split <;> rfl
        · rfl
        · exact s.enterSpawn_isSome _ fun status => rfl
        · rfl
        · rfl
        · rfl
  | jobInSpawn entry next => simp [Activation.inSpawn] at hactive
  | coroutineInSpawn id next => simp [Activation.inSpawn] at hactive
  | destructor | reap | swapInbox | eventfdWrite => exact hrun (by simp [runnerStep, hstack])

/-- The ring is in order and the top of the stack is active. -/
theorem ringInvariant_topActive_of_run
    {io : IoState} (hfresh : io.Fresh) {fd : Int32} {addr : UInt64}
    {history : List (Scheduler P × Label P)} {final : Scheduler P}
    (hrun : Run Scheduler.step (Scheduler.initial P io fd addr) history final) :
    RingInvariant final ∧ TopActive final.stack := by
  refine hrun.invariant (fun s => RingInvariant s ∧ TopActive s.stack) ?_ ?_
  · exact ⟨.initial hfresh fd addr, .nil⟩
  · intro s label next hinv hstep
    have hmove := (move_of_step hstep).2
    exact ⟨hinv.1.step hmove, hmove.topActive hinv.1.wellStacked hinv.2⟩

end Scheduler

open Scheduler

/-- In every reachable state without undefined behaviour, a thread inside `run`,
`shutdown`, `spawn` or client code can take its next step, is at an entry of
`io_uring_enter` which the kernel can answer, or sleeps there with nothing
completed. -/
theorem driver_never_stuck
    (P : Program) {io : IoState} (hfresh : io.Fresh) (fd : Int32) (addr : UInt64)
    {history : List (Scheduler P × Label P)} {final : Scheduler P}
    (hrun : Run Scheduler.step (Scheduler.initial P io fd addr) history final)
    (hcrash : final.crash = none) (hstack : final.stack ≠ []) :
    final.CanRun ∨ final.CanEnter ∨ final.Blocked := by
  obtain ⟨hring, htop⟩ := ringInvariant_topActive_of_run hfresh hrun
  exact canRun_or_canEnter_or_blocked hring htop hcrash hstack

theorem driven_spawnThenSleep :
    ∃ history final,
      Run Scheduler.step (Scheduler.initial awaitScript (ringOfDepth 2) 3 64)
        history final ∧
      final.stack ≠ [] ∧ (final.CanRun ∨ final.CanEnter ∨ final.Blocked) := by
  obtain ⟨history, final, hrun, -, hcrash, hwaiting, -⟩ := spawnThenSleep_run
  have hstack : final.stack ≠ [] := by
    rintro hempty
    simp [hempty, drainPoints] at hwaiting
  exact ⟨history, final, hrun, hstack, driver_never_stuck awaitScript
    (ringOfDepth_created 1 (by omega) rfl).toFresh 3 64 hrun hcrash hstack⟩

end SlimCommonIo
