import SlimCommonIo.Runtime
import SlimCommonIo.TransitionRuns

/-!
# The threads of a runtime whose thread creation can fail

`start` creates the runner of each worker and then the dispatcher's, and
records `Running` at its end.  The constructor of a `std::jthread` throws when
the system has no thread to give, and the exception leaves `start` with the
runners created so far alive.  A later `start` assigns new `jthread` objects to
the same members: the new thread is running before the assignment stops and
joins the old one.

Only the threads matter here.  A runner is in `Scheduler::run` until a stop is
requested of it; `shutdown` runs on the thread which called `stop`.
-/

namespace SlimCommonIo

open Transition

/-- A thread in `Scheduler::run`. -/
structure RunnerThread where
  id : ℕ
  stopRequested : Bool := false
  deriving DecidableEq, Repr

/-- The `jthread` member of a node, with the threads which run its scheduler.
`runner` is the thread of the member, absent when it is not joinable. -/
structure RunnerSlot where
  runner : Option ℕ := none
  threads : List RunnerThread := []
  deriving DecidableEq, Repr

namespace RunnerSlot

def hasThread (slot : RunnerSlot) (id : ℕ) : Bool :=
  slot.threads.any fun thread => thread.id == id

def isLive (slot : RunnerSlot) : Bool :=
  slot.runner.any slot.hasThread

/-- The constructor of a `jthread`, when it does not throw. -/
def create (slot : RunnerSlot) (id : ℕ) : RunnerSlot :=
  { slot with threads := slot.threads ++ [{ id := id }] }

/-- `runner.request_stop()`. -/
def requestStop (slot : RunnerSlot) : RunnerSlot :=
  { slot with
    threads := slot.threads.map fun thread =>
      if slot.runner = some thread.id then { thread with stopRequested := true } else thread }

/-- A thread which has been asked to stop leaves `run`. -/
def exit (slot : RunnerSlot) (id : ℕ) : RunnerSlot :=
  { slot with threads := slot.threads.filter fun thread => thread.id != id }

end RunnerSlot

/-- Program points of `start` for one node: the constructor of the new
`jthread`, then its move assignment, which joins the old thread. -/
inductive StartPoint
  | create
  | moveAssign (new : ℕ)
  | joinOld (new : ℕ)
  deriving DecidableEq, Repr

/-- Program points of `stop` for one node. -/
inductive HaltPoint
  | request
  | join
  | shutdown
  deriving DecidableEq, Repr

/-- The thread which calls `start` and `stop`, with the nodes still to come. -/
inductive LifecycleCaller (k : ℕ)
  | idle
  | inStart (rest : List (NodeId k)) (point : StartPoint)
  | inStop (rest : List (NodeId k)) (point : HaltPoint)
  deriving DecidableEq, Repr

structure RunnerThreads (k : ℕ) where
  state : RuntimeState := .idle
  slots : NodeId k → RunnerSlot := fun _ => {}
  caller : LifecycleCaller k := .idle
  nextThread : ℕ := 0

inductive RunnerLabel (k : ℕ)
  | callStart
  | callStop
  /-- The calling thread executes its next statement without an exception. -/
  | caller
  /-- The constructor of the `jthread` throws. -/
  | creationFails
  /-- A callable run by `shutdown` throws something other than `IOException`. -/
  | shutdownThrows
  | threadExits (who : NodeId k) (id : ℕ)
  deriving DecidableEq, Repr

variable {k : ℕ}

namespace RunnerThreads

def setSlot (s : RunnerThreads k) (who : NodeId k) (slot : RunnerSlot) : RunnerThreads k :=
  { s with slots := Function.update s.slots who slot }

/-- The member takes the new thread, and `start` goes on to the next node. -/
def assign (s : RunnerThreads k) (who : NodeId k) (rest : List (NodeId k)) (new : ℕ) :
    RunnerThreads k :=
  { s.setSlot who { s.slots who with runner := some new } with
    caller := .inStart rest .create }

/-- The thread in `start` or `stop` executes its next statement. -/
def callerStep (s : RunnerThreads k) : Option (RunnerThreads k) :=
  match s.caller with
  | .idle => none
  | .inStart [] _ => some { s with state := .running, caller := .idle }
  | .inStart (who :: rest) .create =>
      some
        { s.setSlot who ((s.slots who).create s.nextThread) with
          nextThread := s.nextThread + 1
          caller := .inStart (who :: rest) (.moveAssign s.nextThread) }
  | .inStart (who :: rest) (.moveAssign new) =>
      match (s.slots who).runner with
      | none => some (s.assign who rest new)
      | some _ =>
          some
            { s.setSlot who (s.slots who).requestStop with
              caller := .inStart (who :: rest) (.joinOld new) }
  | .inStart (who :: rest) (.joinOld new) =>
      if (s.slots who).isLive then none else some (s.assign who rest new)
  | .inStop [] _ => some { s with state := .stopped, caller := .idle }
  | .inStop (who :: rest) .request =>
      some
        { s.setSlot who (s.slots who).requestStop with
          caller := .inStop (who :: rest) .join }
  | .inStop (who :: rest) .join =>
      if (s.slots who).isLive then none
      else
        some
          { s.setSlot who { s.slots who with runner := none } with
            caller := .inStop (who :: rest) .shutdown }
  | .inStop (_ :: rest) .shutdown => some { s with caller := .inStop rest .request }

/-- One step of the calling thread or of a runner. -/
def step (s : RunnerThreads k) (label : RunnerLabel k) : Option (RunnerThreads k) :=
  match label with
  | .callStart =>
      if s.caller = .idle then
        -- throws RuntimeNotIdle
        if s.state = .running then some s
        else some { s with caller := .inStart (Runtime.startOrder k) .create }
      else none
  | .callStop =>
      if s.caller = .idle then
        if s.state = .running then
          some { s with caller := .inStop (Runtime.stopOrder k) .request }
        else some s
      else none
  | .caller => s.callerStep
  | .creationFails =>
      match s.caller with
      | .inStart (_ :: _) .create => some { s with caller := .idle }
      | _ => none
  | .shutdownThrows =>
      match s.caller with
      | .inStop (_ :: _) .shutdown => some { s with caller := .idle }
      | _ => none
  | .threadExits who id =>
      if { id := id, stopRequested := true } ∈ (s.slots who).threads then
        some (s.setSlot who ((s.slots who).exit id))
      else none

/-- The calling thread is in the `shutdown` of this node's scheduler. -/
def shutsDown (s : RunnerThreads k) (who : NodeId k) : Bool :=
  match s.caller with
  | .inStop (other :: _) .shutdown => other == who
  | _ => false

/-- How many threads drive the scheduler of a node. -/
def drivers (s : RunnerThreads k) (who : NodeId k) : ℕ :=
  (s.slots who).threads.length + (s.shutsDown who).toNat

/-- A creation fails only as the first of its `start`, and no exception leaves
a `shutdown`. -/
def failsEarly (s : RunnerThreads k) (label : RunnerLabel k) : Bool :=
  match label, s.caller with
  | .creationFails, .inStart rest _ => rest == Runtime.startOrder k
  | .shutdownThrows, _ => false
  | _, _ => true

end RunnerThreads

/-- Between calls `state_` is `Running` exactly if every runner is live, and no
thread is left otherwise; a scheduler never has two drivers. -/
structure MatchesThreads (s : RunnerThreads k) : Prop where
  running : s.caller = .idle →
    (s.state = .running ↔ ∀ who, (s.slots who).isLive = true)
  quiet : s.caller = .idle → s.state ≠ .running → ∀ who, (s.slots who).threads = []
  alone : ∀ who, s.drivers who ≤ 1

/-! ## Phases of a runtime which fails early -/

/-- The member's thread is the only one, and nobody has asked it to stop. -/
def RunnerSlot.Up (slot : RunnerSlot) : Prop :=
  ∃ id, slot = { runner := some id, threads := [{ id := id }] }

def RunnerSlot.Down (slot : RunnerSlot) : Prop :=
  slot = {}

namespace RunnerSlot

@[simp]
theorem Down.isLive {slot : RunnerSlot} (hdown : slot.Down) : slot.isLive = false := by
  rw [hdown]
  rfl

@[simp]
theorem Down.threads {slot : RunnerSlot} (hdown : slot.Down) : slot.threads = [] := by
  rw [hdown]

@[simp]
theorem Up.isLive {slot : RunnerSlot} (hup : slot.Up) : slot.isLive = true := by
  obtain ⟨id, rfl⟩ := hup
  simp [RunnerSlot.isLive, hasThread]

@[simp]
theorem Up.length {slot : RunnerSlot} (hup : slot.Up) : slot.threads.length = 1 := by
  obtain ⟨id, rfl⟩ := hup
  rfl

theorem not_mem_threads_of_settled
    {slot : RunnerSlot} (hslot : slot.Up ∨ slot.Down) (id : ℕ) :
    { id := id, stopRequested := true } ∉ slot.threads := by
  rcases hslot with ⟨other, rfl⟩ | hdown
  · simp
  · simp [hdown.threads]

end RunnerSlot

theorem mem_startOrder (who : NodeId k) : who ∈ Runtime.startOrder k := by
  cases who <;> simp [Runtime.startOrder]

theorem mem_stopOrder (who : NodeId k) : who ∈ Runtime.stopOrder k := by
  cases who <;> simp [Runtime.stopOrder]

theorem nodup_startOrder (k : ℕ) : (Runtime.startOrder k).Nodup := by
  rw [Runtime.startOrder, List.nodup_append]
  refine ⟨(List.nodup_finRange k).map (Option.some_injective _), by simp, ?_⟩
  simp

theorem nodup_stopOrder (k : ℕ) : (Runtime.stopOrder k).Nodup := by
  rw [Runtime.stopOrder, List.nodup_cons]
  refine ⟨by simp, (List.nodup_finRange k).map (Option.some_injective _)⟩

/-- Where the calling thread is, and what the slots are like then: those it is
done with, those still to come, and the one it works on. -/
inductive LifecyclePhase (s : RunnerThreads k) : Prop
  | running (hcaller : s.caller = .idle) (hstate : s.state = .running)
      (hup : ∀ who, (s.slots who).Up)
  | resting (hcaller : s.caller = .idle) (hstate : s.state ≠ .running)
      (hdown : ∀ who, (s.slots who).Down)
  | starting {rest : List (NodeId k)} (hcaller : s.caller = .inStart rest .create)
      (hstate : s.state ≠ .running) (horder : rest <:+ Runtime.startOrder k)
      (hup : ∀ who, who ∉ rest → (s.slots who).Up)
      (hdown : ∀ who ∈ rest, (s.slots who).Down)
  | assigning {who : NodeId k} {rest : List (NodeId k)} {new : ℕ}
      (hcaller : s.caller = .inStart (who :: rest) (.moveAssign new))
      (hstate : s.state ≠ .running) (horder : who :: rest <:+ Runtime.startOrder k)
      (hup : ∀ other, other ∉ who :: rest → (s.slots other).Up)
      (hdown : ∀ other ∈ rest, (s.slots other).Down)
      (hnew : s.slots who = { threads := [{ id := new }] })
  | stopping {rest : List (NodeId k)} (hcaller : s.caller = .inStop rest .request)
      (hstate : s.state = .running) (horder : rest <:+ Runtime.stopOrder k)
      (hup : ∀ who ∈ rest, (s.slots who).Up)
      (hdown : ∀ who, who ∉ rest → (s.slots who).Down)
  | joining {who : NodeId k} {rest : List (NodeId k)} {id : ℕ}
      (hcaller : s.caller = .inStop (who :: rest) .join)
      (hstate : s.state = .running) (horder : who :: rest <:+ Runtime.stopOrder k)
      (hup : ∀ other ∈ rest, (s.slots other).Up)
      (hdown : ∀ other, other ∉ who :: rest → (s.slots other).Down)
      (hold : (s.slots who).runner = some id)
      (hthreads : (s.slots who).threads = [] ∨
        (s.slots who).threads = [{ id := id, stopRequested := true }])
  | shuttingDown {who : NodeId k} {rest : List (NodeId k)}
      (hcaller : s.caller = .inStop (who :: rest) .shutdown)
      (hstate : s.state = .running) (horder : who :: rest <:+ Runtime.stopOrder k)
      (hup : ∀ other ∈ rest, (s.slots other).Up)
      (hdown : ∀ other, other ∉ rest → (s.slots other).Down)

namespace LifecyclePhase

variable {s next : RunnerThreads k}

theorem initial : LifecyclePhase ({} : RunnerThreads k) :=
  .resting rfl (by simp) fun _ => rfl

theorem drivers_le_one_of_slot
    {who : NodeId k} (hshut : s.shutsDown who = false)
    (hslot : (s.slots who).Up ∨ (s.slots who).Down) : s.drivers who ≤ 1 := by
  rw [RunnerThreads.drivers, hshut]
  rcases hslot with hup | hdown
  · simp [hup.length]
  · simp [hdown.threads]

theorem alone (hphase : LifecyclePhase s) (who : NodeId k) : s.drivers who ≤ 1 := by
  cases hphase with
  | running hcaller _ hup =>
      exact drivers_le_one_of_slot (by simp [RunnerThreads.shutsDown, hcaller]) (.inl (hup who))
  | resting hcaller _ hdown =>
      exact drivers_le_one_of_slot (by simp [RunnerThreads.shutsDown, hcaller])
        (.inr (hdown who))
  | @starting rest hcaller _ _ hup hdown =>
      apply drivers_le_one_of_slot
      · simp [RunnerThreads.shutsDown, hcaller]
      · by_cases hmem : who ∈ rest
        · exact .inr (hdown who hmem)
        · exact .inl (hup who hmem)
  | @assigning current rest new hcaller _ _ hup hdown hnew =>
      have hshut : s.shutsDown who = false := by simp [RunnerThreads.shutsDown, hcaller]
      by_cases heq : who = current
      · rw [heq] at hshut ⊢
        rw [RunnerThreads.drivers, hnew, hshut]
        simp
      · apply drivers_le_one_of_slot hshut
        by_cases hmem : who ∈ rest
        · exact .inr (hdown who hmem)
        · exact .inl (hup who (by simp [heq, hmem]))
  | @stopping rest hcaller _ _ hup hdown =>
      apply drivers_le_one_of_slot
      · simp [RunnerThreads.shutsDown, hcaller]
      · by_cases hmem : who ∈ rest
        · exact .inl (hup who hmem)
        · exact .inr (hdown who hmem)
  | @joining current rest id hcaller _ _ hup hdown _ hthreads =>
      have hshut : s.shutsDown who = false := by simp [RunnerThreads.shutsDown, hcaller]
      by_cases heq : who = current
      · rw [heq] at hshut ⊢
        rw [RunnerThreads.drivers, hshut]
        rcases hthreads with hnone | hone
        · simp [hnone]
        · simp [hone]
      · apply drivers_le_one_of_slot hshut
        by_cases hmem : who ∈ rest
        · exact .inl (hup who hmem)
        · exact .inr (hdown who (by simp [heq, hmem]))
  | @shuttingDown current rest hcaller _ horder hup hdown =>
      by_cases hmem : who ∈ rest
      · have hnodup := (nodup_stopOrder k).sublist horder.sublist
        have hne : current ≠ who := fun heq => (List.nodup_cons.mp hnodup).1 (heq ▸ hmem)
        exact drivers_le_one_of_slot (by simp [RunnerThreads.shutsDown, hcaller, hne])
          (.inl (hup who hmem))
      · -- the calling thread is the only one if it is anywhere
        rw [RunnerThreads.drivers, (hdown who hmem).threads]
        simpa using Bool.toNat_le _

theorem matchesThreads (hphase : LifecyclePhase s) : MatchesThreads s where
  running := by
    intro hidle
    cases hphase with
    | running _ hstate hup => simp [hstate, fun who => (hup who).isLive]
    | resting _ hstate hdown => simp [hstate, fun who => (hdown who).isLive]
    | starting hcaller | assigning hcaller | stopping hcaller | joining hcaller
    | shuttingDown hcaller => simp [hcaller] at hidle
  quiet := by
    intro hidle hnot
    cases hphase with
    | running _ hstate _ => exact absurd hstate hnot
    | resting _ _ hdown => exact fun who => (hdown who).threads
    | starting hcaller | assigning hcaller | stopping hcaller | joining hcaller
    | shuttingDown hcaller => simp [hcaller] at hidle
  alone := hphase.alone

/-! ## One step -/

theorem slot_kept
    {prop : RunnerSlot → Prop} {slots : NodeId k → RunnerSlot} {who other : NodeId k}
    {slot : RunnerSlot} (hne : other ≠ who) (hslot : prop (slots other)) :
    prop (Function.update slots who slot other) := by
  rw [Function.update_of_ne hne]
  exact hslot

theorem afterCreate
    {who : NodeId k} {rest : List (NodeId k)} (hstate : s.state ≠ .running)
    (horder : who :: rest <:+ Runtime.startOrder k)
    (hup : ∀ other, other ∉ who :: rest → (s.slots other).Up)
    (hdown : ∀ other ∈ who :: rest, (s.slots other).Down) :
    LifecyclePhase
      { s.setSlot who ((s.slots who).create s.nextThread) with
        nextThread := s.nextThread + 1
        caller := .inStart (who :: rest) (.moveAssign s.nextThread) } := by
  have hnodup := (nodup_startOrder k).sublist horder.sublist
  rw [List.nodup_cons] at hnodup
  refine .assigning rfl hstate horder ?_ ?_ ?_
  · intro other hother
    have hne : other ≠ who := fun heq => hother (by simp [heq])
    exact slot_kept hne (hup other hother)
  · intro other hother
    have hne : other ≠ who := fun heq => hnodup.1 (heq ▸ hother)
    exact slot_kept hne (hdown other (List.mem_cons_of_mem _ hother))
  · have hfresh : s.slots who = {} := hdown who (List.mem_cons_self ..)
    simp [RunnerThreads.setSlot, RunnerSlot.create, hfresh]

theorem afterAssign
    {who : NodeId k} {rest : List (NodeId k)} {new : ℕ} (hstate : s.state ≠ .running)
    (horder : who :: rest <:+ Runtime.startOrder k)
    (hup : ∀ other, other ∉ who :: rest → (s.slots other).Up)
    (hdown : ∀ other ∈ rest, (s.slots other).Down)
    (hnew : s.slots who = { threads := [{ id := new }] }) :
    LifecyclePhase (s.assign who rest new) := by
  have hnodup := (nodup_startOrder k).sublist horder.sublist
  rw [List.nodup_cons] at hnodup
  refine .starting rfl hstate ((List.suffix_cons who rest).trans horder) ?_ ?_
  · intro other hother
    by_cases heq : other = who
    · refine ⟨new, ?_⟩
      simp [RunnerThreads.assign, RunnerThreads.setSlot, heq, hnew]
    · exact slot_kept heq (hup other (by simp [heq, hother]))
  · intro other hother
    have hne : other ≠ who := fun heq => hnodup.1 (heq ▸ hother)
    exact slot_kept hne (hdown other hother)

theorem afterRequest
    {who : NodeId k} {rest : List (NodeId k)} (hstate : s.state = .running)
    (horder : who :: rest <:+ Runtime.stopOrder k)
    (hup : ∀ other ∈ who :: rest, (s.slots other).Up)
    (hdown : ∀ other, other ∉ who :: rest → (s.slots other).Down) :
    LifecyclePhase
      { s.setSlot who (s.slots who).requestStop with
        caller := .inStop (who :: rest) .join } := by
  have hnodup := (nodup_stopOrder k).sublist horder.sublist
  rw [List.nodup_cons] at hnodup
  obtain ⟨id, hslot⟩ := hup who (List.mem_cons_self ..)
  have hrequested : (s.setSlot who (s.slots who).requestStop).slots who =
      { runner := some id, threads := [{ id := id, stopRequested := true }] } := by
    simp [RunnerThreads.setSlot, RunnerSlot.requestStop, hslot]
  refine .joining rfl hstate horder ?_ ?_ (congrArg RunnerSlot.runner hrequested)
    (.inr (congrArg RunnerSlot.threads hrequested))
  · intro other hother
    have hne : other ≠ who := fun heq => hnodup.1 (heq ▸ hother)
    exact slot_kept hne (hup other (List.mem_cons_of_mem _ hother))
  · intro other hother
    have hne : other ≠ who := fun heq => hother (by simp [heq])
    exact slot_kept hne (hdown other hother)

theorem afterJoin
    {who : NodeId k} {rest : List (NodeId k)} (hstate : s.state = .running)
    (horder : who :: rest <:+ Runtime.stopOrder k)
    (hup : ∀ other ∈ rest, (s.slots other).Up)
    (hdown : ∀ other, other ∉ who :: rest → (s.slots other).Down)
    (hthreads : (s.slots who).threads = []) :
    LifecyclePhase
      { s.setSlot who { s.slots who with runner := none } with
        caller := .inStop (who :: rest) .shutdown } := by
  have hnodup := (nodup_stopOrder k).sublist horder.sublist
  rw [List.nodup_cons] at hnodup
  refine .shuttingDown rfl hstate horder ?_ ?_
  · intro other hother
    have hne : other ≠ who := fun heq => hnodup.1 (heq ▸ hother)
    exact slot_kept hne (hup other hother)
  · intro other hother
    by_cases heq : other = who
    · simp [RunnerThreads.setSlot, RunnerSlot.Down, heq, hthreads]
    · exact slot_kept heq (hdown other (by simp [heq, hother]))

theorem callerStep
    (hphase : LifecyclePhase s) (hstep : s.callerStep = some next) : LifecyclePhase next := by
  unfold RunnerThreads.callerStep at hstep
  cases hphase with
  | running hcaller _ _ | resting hcaller _ _ => simp [hcaller] at hstep
  | @starting rest hcaller hstate horder hup hdown =>
      rw [hcaller] at hstep
      cases rest with
      | nil =>
          simp only [Option.some.injEq] at hstep
          subst hstep
          exact .running rfl rfl fun who => hup who (by simp)
      | cons who rest =>
          simp only [Option.some.injEq] at hstep
          subst hstep
          exact afterCreate hstate horder hup hdown
  | assigning hcaller hstate horder hup hdown hnew =>
      simp only [hcaller, hnew, Option.some.injEq] at hstep
      subst hstep
      exact afterAssign hstate horder hup hdown hnew
  | @stopping rest hcaller hstate horder hup hdown =>
      rw [hcaller] at hstep
      cases rest with
      | nil =>
          simp only [Option.some.injEq] at hstep
          subst hstep
          exact .resting rfl (by simp) fun who => hdown who (by simp)
      | cons who rest =>
          simp only [Option.some.injEq] at hstep
          subst hstep
          exact afterRequest hstate horder hup hdown
  | joining hcaller hstate horder hup hdown hold hthreads =>
      simp only [hcaller] at hstep
      split at hstep
      next => simp at hstep
      next hexited =>
        simp only [Option.some.injEq] at hstep
        subst hstep
        apply afterJoin hstate horder hup hdown
        rcases hthreads with hnone | hone
        · exact hnone
        · simp [RunnerSlot.isLive, RunnerSlot.hasThread, hold, hone] at hexited
  | shuttingDown hcaller hstate horder hup hdown =>
      simp only [hcaller, Option.some.injEq] at hstep
      subst hstep
      exact .stopping rfl hstate ((List.suffix_cons _ _).trans horder) hup hdown

theorem afterExit
    (hphase : LifecyclePhase s) {who : NodeId k} {id : ℕ}
    (hthread : { id := id, stopRequested := true } ∈ (s.slots who).threads) :
    LifecyclePhase (s.setSlot who ((s.slots who).exit id)) := by
  have hunsettled : ¬ ((s.slots who).Up ∨ (s.slots who).Down) :=
    fun hslot => RunnerSlot.not_mem_threads_of_settled hslot id hthread
  cases hphase with
  | running _ _ hup => exact absurd (.inl (hup who)) hunsettled
  | resting _ _ hdown => exact absurd (.inr (hdown who)) hunsettled
  | @starting rest _ _ _ hup hdown =>
      by_cases hmem : who ∈ rest
      · exact absurd (.inr (hdown who hmem)) hunsettled
      · exact absurd (.inl (hup who hmem)) hunsettled
  | @assigning current rest new _ _ _ hup hdown hnew =>
      by_cases heq : who = current
      · rw [heq, hnew] at hthread
        simp at hthread
      · by_cases hmem : who ∈ rest
        · exact absurd (.inr (hdown who hmem)) hunsettled
        · exact absurd (.inl (hup who (by simp [heq, hmem]))) hunsettled
  | @stopping rest _ _ _ hup hdown =>
      by_cases hmem : who ∈ rest
      · exact absurd (.inl (hup who hmem)) hunsettled
      · exact absurd (.inr (hdown who hmem)) hunsettled
  | @shuttingDown current rest _ _ _ hup hdown =>
      by_cases hmem : who ∈ rest
      · exact absurd (.inl (hup who hmem)) hunsettled
      · exact absurd (.inr (hdown who hmem)) hunsettled
  | @joining current rest old hcaller hstate horder hup hdown hold hthreads =>
      have hnodup := (nodup_stopOrder k).sublist horder.sublist
      rw [List.nodup_cons] at hnodup
      have heq : who = current := by
        by_contra hne
        by_cases hmem : who ∈ rest
        · exact hunsettled (.inl (hup who hmem))
        · exact hunsettled (.inr (hdown who (by simp [hne, hmem])))
      subst heq
      have hone : (s.slots who).threads = [{ id := old, stopRequested := true }] := by
        rcases hthreads with hnone | hone
        · simp [hnone] at hthread
        · exact hone
      have hid : id = old := by simpa [hone] using hthread
      have hrunner : ((s.setSlot who ((s.slots who).exit id)).slots who).runner = some old := by
        simp [RunnerThreads.setSlot, RunnerSlot.exit, hold]
      refine .joining hcaller hstate horder ?_ ?_ hrunner (.inl ?_)
      · intro other hother
        have hne : other ≠ who := fun heq => hnodup.1 (heq ▸ hother)
        exact slot_kept hne (hup other hother)
      · intro other hother
        have hne : other ≠ who := fun heq => hother (by simp [heq])
        exact slot_kept hne (hdown other hother)
      · simp [RunnerThreads.setSlot, RunnerSlot.exit, hone, hid]

theorem step
    {label : RunnerLabel k} (hphase : LifecyclePhase s) (hstep : s.step label = some next)
    (hearly : s.failsEarly label = true) : LifecyclePhase next := by
  unfold RunnerThreads.step at hstep
  cases label with
  | callStart =>
      dsimp only at hstep
      split at hstep
      next hidle =>
        split at hstep
        next =>
          simp only [Option.some.injEq] at hstep
          subst hstep
          exact hphase
        next hstate =>
          simp only [Option.some.injEq] at hstep
          subst hstep
          have hdown : ∀ who, (s.slots who).Down := by
            cases hphase with
            | running _ hrunning _ => exact absurd hrunning hstate
            | resting _ _ hdown => exact hdown
            | starting hcaller | assigning hcaller | stopping hcaller | joining hcaller
            | shuttingDown hcaller => simp [hcaller] at hidle
          exact .starting rfl hstate List.suffix_rfl
            (fun who hwho => absurd (mem_startOrder who) hwho) fun who _ => hdown who
      next => simp at hstep
  | callStop =>
      dsimp only at hstep
      split at hstep
      next hidle =>
        split at hstep
        next hstate =>
          simp only [Option.some.injEq] at hstep
          subst hstep
          have hup : ∀ who, (s.slots who).Up := by
            cases hphase with
            | running _ _ hup => exact hup
            | resting _ hnot _ => exact absurd hstate hnot
            | starting hcaller | assigning hcaller | stopping hcaller | joining hcaller
            | shuttingDown hcaller => simp [hcaller] at hidle
          exact .stopping rfl hstate List.suffix_rfl (fun who _ => hup who)
            fun who hwho => absurd (mem_stopOrder who) hwho
        next =>
          simp only [Option.some.injEq] at hstep
          subst hstep
          exact hphase
      next => simp at hstep
  | caller => exact hphase.callerStep hstep
  | creationFails =>
      dsimp only at hstep
      split at hstep
      next who rest hcaller =>
        simp only [Option.some.injEq] at hstep
        subst hstep
        have hall : who :: rest = Runtime.startOrder k := by
          simpa [RunnerThreads.failsEarly, hcaller] using hearly
        cases hphase with
        | @starting rest' hcaller' hstate _ _ hdown =>
            have hrest : who :: rest = rest' := by
              rw [hcaller, LifecycleCaller.inStart.injEq] at hcaller'
              exact hcaller'.1
            refine .resting rfl hstate fun other => hdown other ?_
            rw [← hrest, hall]
            exact mem_startOrder other
        | running hcaller' | resting hcaller' | assigning hcaller' | stopping hcaller'
        | joining hcaller' | shuttingDown hcaller' => simp [hcaller] at hcaller'
      next => simp at hstep
  | shutdownThrows => simp [RunnerThreads.failsEarly] at hearly
  | threadExits who id =>
      dsimp only at hstep
      split at hstep
      next hthread =>
        simp only [Option.some.injEq] at hstep
        subst hstep
        exact hphase.afterExit hthread
      next => simp at hstep

/-- A creation which fails after another one leaves a runner behind, and an
exception of `shutdown` leaves `Running` behind. -/
theorem not_matchesThreads
    {label : RunnerLabel k} (hphase : LifecyclePhase s) (hstep : s.step label = some next)
    (hlate : ¬ s.failsEarly label = true) : ¬ MatchesThreads next := by
  unfold RunnerThreads.step at hstep
  intro hmatches
  cases label with
  | creationFails =>
      dsimp only at hstep
      split at hstep
      next who rest hcaller =>
        simp only [Option.some.injEq] at hstep
        subst hstep
        have hsome : who :: rest ≠ Runtime.startOrder k := by
          simpa [RunnerThreads.failsEarly, hcaller] using hlate
        cases hphase with
        | @starting rest' hcaller' hstate horder hup _ =>
            have hrest : who :: rest = rest' := by
              rw [hcaller, LifecycleCaller.inStart.injEq] at hcaller'
              exact hcaller'.1
            subst hrest
            -- the first node of the order has been started in this call
            obtain ⟨started, hsplit⟩ := horder
            cases started with
            | nil => exact hsome hsplit
            | cons first started =>
                have hnodup := nodup_startOrder k
                rw [← hsplit, List.cons_append, List.nodup_cons] at hnodup
                have hfirst : first ∉ who :: rest :=
                  fun hmem => hnodup.1 (List.mem_append_right _ hmem)
                have hempty := hmatches.quiet rfl hstate first
                have hlength := (hup first hfirst).length
                rw [hempty] at hlength
                simp at hlength
        | running hcaller' | resting hcaller' | assigning hcaller' | stopping hcaller'
        | joining hcaller' | shuttingDown hcaller' => simp [hcaller] at hcaller'
      next => simp at hstep
  | shutdownThrows =>
      dsimp only at hstep
      split at hstep
      next who rest hcaller =>
        simp only [Option.some.injEq] at hstep
        subst hstep
        cases hphase with
        | @shuttingDown who' rest' hcaller' hstate horder _ hdown =>
            have hnodup := (nodup_stopOrder k).sublist horder.sublist
            rw [List.nodup_cons] at hnodup
            have hlive := (hmatches.running rfl).mp hstate who'
            have hgone := (hdown who' hnodup.1).isLive
            rw [hgone] at hlive
            simp at hlive
        | running hcaller' | resting hcaller' | starting hcaller' | assigning hcaller'
        | stopping hcaller' | joining hcaller' => simp [hcaller] at hcaller'
      next => simp at hstep
  | callStart | callStop | caller | threadExits _ _ =>
      simp [RunnerThreads.failsEarly] at hlate

end LifecyclePhase

/-- For every number of workers and every sequence of calls: `state_` matches
the threads in every state of the run, and no scheduler ever has two drivers,
if and only if a thread creation fails only as the first of its `start` and no
exception leaves a `shutdown`. -/
theorem state_matches_threads_iff_failsEarly
    {history : List (RunnerThreads k × RunnerLabel k)} {final : RunnerThreads k}
    (hrun : Run RunnerThreads.step ({} : RunnerThreads k) history final) :
    ((∀ visit ∈ history, MatchesThreads visit.1) ∧ MatchesThreads final) ↔
      ∀ visit ∈ history, visit.1.failsEarly visit.2 = true := by
  apply hrun.forall_good_iff LifecyclePhase MatchesThreads
    (fun s label => s.failsEarly label = true) .initial
  · intro s hphase
    exact hphase.matchesThreads
  · intro s label next hphase hstep hearly
    exact hphase.step hstep hearly
  · intro s label next hphase hstep hlate
    exact hphase.not_matchesThreads hstep hlate

/-- The first creation of a `start` fails; the next `start` and a `stop` go
through, and so does another `start`. -/
def failedFirst : List (RunnerLabel 1) :=
  [.callStart, .creationFails,
    .callStart, .caller, .caller, .caller, .caller, .caller,
    .callStop, .caller, .threadExits none 1, .caller, .caller,
    .caller, .threadExits (some 0) 0, .caller, .caller, .caller,
    .callStart, .caller, .caller, .caller, .caller, .caller]

theorem state_matches_threads_failedFirst :
    ∃ history final, Run RunnerThreads.step ({} : RunnerThreads 1) history final ∧
      final.state = .running ∧ (∀ visit ∈ history, MatchesThreads visit.1) ∧
      MatchesThreads final := by
  have hreplay : (replay RunnerThreads.step RunnerThreads.failsEarly
      ({} : RunnerThreads 1) failedFirst).any (fun s => s.state == .running) = true := by
    decide +kernel
  obtain ⟨history, final, hrun, hearly, hcheck⟩ := exists_run_of_replay hreplay
  exact ⟨history, final, hrun, beq_iff_eq.mp hcheck,
    (state_matches_threads_iff_failsEarly hrun).mpr hearly⟩

/-- The dispatcher's thread cannot be created: `start` throws and the worker's
runner stays alive in a runtime which is `Idle`.  When `start` is called again,
the worker's scheduler has two drivers. -/
theorem two_drivers_afterFailedStart :
    ∃ history failed more final,
      Run RunnerThreads.step ({} : RunnerThreads 1) history failed ∧
      failed.caller = .idle ∧ failed.state = .idle ∧
      (failed.slots (some 0)).isLive = true ∧ ¬ MatchesThreads failed ∧
      Run RunnerThreads.step failed more final ∧
      final.drivers (some 0) = 2 ∧ ¬ MatchesThreads final := by
  have hreplay : (replay RunnerThreads.step (fun _ _ => true) ({} : RunnerThreads 1)
      [.callStart, .caller, .caller, .creationFails]).any
      (fun s => s.caller == .idle && s.state == .idle && (s.slots (some 0)).isLive &&
        (replay RunnerThreads.step (fun _ _ => true) s [.callStart, .caller]).any
          fun s => s.drivers (some 0) == 2) = true := by
    decide +kernel
  obtain ⟨history, failed, hrun, -, hcheck⟩ := exists_run_of_replay hreplay
  simp only [Bool.and_eq_true, beq_iff_eq] at hcheck
  obtain ⟨⟨⟨hidle, hstate⟩, hlive⟩, hagain⟩ := hcheck
  obtain ⟨more, final, hmore, -, htwo⟩ := exists_run_of_replay hagain
  have hdrivers : final.drivers (some 0) = 2 := beq_iff_eq.mp htwo
  refine ⟨history, failed, more, final, hrun, hidle, hstate, hlive, ?_, hmore, hdrivers, ?_⟩
  · intro hmatches
    have hempty := hmatches.quiet hidle (by simp [hstate]) (some 0)
    cases hrunner : (failed.slots (some 0)).runner <;>
      simp [RunnerSlot.isLive, RunnerSlot.hasThread, hempty, hrunner] at hlive
  · intro hmatches
    have hone := hmatches.alone (some 0)
    omega

end SlimCommonIo
