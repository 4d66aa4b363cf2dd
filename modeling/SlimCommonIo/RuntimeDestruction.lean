import SlimCommonIo.RunnerThreads

/-!
# The destruction of a runtime

`~Runtime` calls `stop` if the state is `Running`.  Then its members go, the last
declared first: the workers, each with its runner before its scheduler, after
them the runner of the dispatcher and the dispatcher.  The destructor of a
`jthread` which is joinable requests a stop and joins the thread.

`start` and `stop` may have failed before, so that runners are alive in a runtime
which is not `Running`; they are joined all the same before the scheduler they
run is destroyed.
-/

namespace SlimCommonIo

open Transition

variable {k : ℕ}

/-! ## Threads of a runtime whatever fails -/

namespace RunnerThreads

/-- `start` is about to give this thread to the member of the node. -/
def Assigning (s : RunnerThreads k) (who : NodeId k) (id : ℕ) : Prop :=
  ∃ rest, s.caller = .inStart (who :: rest) (.moveAssign id) ∨
    s.caller = .inStart (who :: rest) (.joinOld id)

/-- Where `start` and `stop` are when the dispatcher has no thread: it is the
last to be started and the first to be stopped. -/
def dispatcherEnded (s : RunnerThreads k) : Bool :=
  match s.caller with
  | .idle => s.state != .running
  | .inStart [] _ => false
  | .inStart (none :: _) point => point == .create
  | .inStart (some _ :: _) _ => true
  | .inStop [] _ => true
  | .inStop (none :: _) point => point == .shutdown
  | .inStop (some _ :: _) _ => true

/-- A thread belongs to the member of its node, or will at once; `stop` joins
threads which it has asked to stop; and the dispatcher has no thread unless the
state is `Running` or changing. -/
structure Owned (s : RunnerThreads k) : Prop where
  owned : ∀ who, ∀ thread ∈ (s.slots who).threads,
    (s.slots who).runner = some thread.id ∨ s.Assigning who thread.id
  asked : ∀ who rest, s.caller = .inStop (who :: rest) .join →
    ∀ thread ∈ (s.slots who).threads, thread.stopRequested = true
  startOrder : ∀ rest point, s.caller = .inStart rest point →
    s.state ≠ .running ∧ rest <:+ Runtime.startOrder k
  stopState : ∀ rest point, s.caller = .inStop rest point → s.state = .running
  dispatcher : s.dispatcherEnded = true → (s.slots none).threads = []

end RunnerThreads

namespace RunnerSlot

variable {slot : RunnerSlot}

theorem threads_eq_nil
    (howned : ∀ thread ∈ slot.threads, slot.runner = some thread.id)
    (hlive : slot.isLive = false) : slot.threads = [] := by
  refine List.eq_nil_iff_forall_not_mem.mpr fun thread hmem => ?_
  have hthread : slot.hasThread thread.id = true :=
    List.any_eq_true.mpr ⟨thread, hmem, beq_self_eq_true _⟩
  simp [isLive, howned thread hmem, hthread] at hlive

theorem mem_requestStop
    {thread : RunnerThread} (hmem : thread ∈ slot.requestStop.threads) :
    ∃ before ∈ slot.threads, before.id = thread.id ∧
      (slot.runner = some thread.id → thread.stopRequested = true) := by
  obtain ⟨before, hbefore, rfl⟩ := List.mem_map.mp hmem
  refine ⟨before, hbefore, ?_, ?_⟩
  · split <;> rfl
  · intro hrunner
    have hid : slot.runner = some before.id := by
      split at hrunner <;> exact hrunner
    rw [if_pos hid]

theorem mem_exit {thread : RunnerThread} {id : ℕ} (hmem : thread ∈ (slot.exit id).threads) :
    thread ∈ slot.threads :=
  List.mem_of_mem_filter hmem

end RunnerSlot

theorem RunnerThreads.mem_of_exit
    {s : RunnerThreads k} {who other : NodeId k} {id : ℕ} {thread : RunnerThread}
    (hmem : thread ∈ ((s.setSlot who ((s.slots who).exit id)).slots other).threads) :
    thread ∈ (s.slots other).threads := by
  by_cases heq : other = who
  · subst heq
    simp only [setSlot, Function.update_self] at hmem
    exact RunnerSlot.mem_exit hmem
  · simpa only [setSlot, Function.update_of_ne heq] using hmem

namespace RunnerThreads.Owned

variable {s next : RunnerThreads k}

theorem initial : Owned ({} : RunnerThreads k) := by
  constructor <;> simp

theorem owned_of_not_assigning
    (howned : s.Owned) {who : NodeId k} (hnot : ∀ id, ¬ s.Assigning who id) :
    ∀ thread ∈ (s.slots who).threads, (s.slots who).runner = some thread.id :=
  fun thread hmem => (howned.owned who thread hmem).resolve_right (hnot thread.id)

theorem not_assigning_of_ne
    {who other : NodeId k} {rest : List (NodeId k)} {point : StartPoint}
    (hcaller : s.caller = .inStart (who :: rest) point) (hne : other ≠ who) (id : ℕ) :
    ¬ s.Assigning other id := by
  rintro ⟨rest', hassign | hassign⟩ <;> simp_all

/-- Only the last node of the order is the dispatcher. -/
theorem rest_eq_nil
    {rest : List (NodeId k)} (horder : none :: rest <:+ Runtime.startOrder k) : rest = [] := by
  have hnodup := (nodup_startOrder k).sublist horder.sublist
  obtain ⟨before, hsplit⟩ := horder
  rcases List.eq_nil_or_concat rest with hnil | ⟨front, last, hlast⟩
  · exact hnil
  · have hends : (before ++ none :: front) ++ [last] = (List.finRange k).map some ++ [none] := by
      rw [List.append_assoc, List.cons_append, ← List.concat_eq_append, ← hlast]
      exact hsplit
    have hnone : last = none := List.singleton_inj.mp (List.append_inj_right' hends rfl)
    refine absurd ?_ (List.nodup_cons.mp hnodup).1
    simp [hlast, hnone]

theorem assign
    (howned : s.Owned) {who : NodeId k} {rest : List (NodeId k)} {new : ℕ}
    (hcaller : s.caller = .inStart (who :: rest) (.moveAssign new) ∨
      s.caller = .inStart (who :: rest) (.joinOld new))
    (hnew : ∀ thread ∈ (s.slots who).threads, thread.id = new) :
    (s.assign who rest new).Owned := by
  obtain ⟨hstate, horder⟩ : s.state ≠ .running ∧ who :: rest <:+ Runtime.startOrder k := by
    rcases hcaller with hcaller | hcaller <;> exact howned.startOrder _ _ hcaller
  refine ⟨fun other thread hmem => .inl ?_, by simp [RunnerThreads.assign], ?_, by
    simp [RunnerThreads.assign], fun hended => ?_⟩
  · by_cases heq : other = who
    · subst heq
      simp only [RunnerThreads.assign, setSlot, Function.update_self] at hmem ⊢
      rw [hnew thread hmem]
    · simp only [RunnerThreads.assign, setSlot, Function.update_of_ne heq] at hmem ⊢
      refine howned.owned_of_not_assigning (fun id => ?_) thread hmem
      rcases hcaller with hcaller | hcaller <;> exact not_assigning_of_ne hcaller heq id
  · intro rest' point hnext
    simp only [RunnerThreads.assign, LifecycleCaller.inStart.injEq] at hnext
    exact ⟨hstate, hnext.1 ▸ (List.suffix_cons who rest).trans horder⟩
  · cases who with
    | none =>
        rw [rest_eq_nil horder] at hended
        simp [RunnerThreads.assign, dispatcherEnded] at hended
    | some worker =>
        have hbefore : s.dispatcherEnded = true := by
          rcases hcaller with hcaller | hcaller <;> simp [dispatcherEnded, hcaller]
        simpa [RunnerThreads.assign, setSlot] using howned.dispatcher hbefore

/-- Requesting a stop leaves the threads and their owners. -/
theorem requestStop
    (howned : s.Owned) (who : NodeId k) (caller : LifecycleCaller k)
    (hassign : ∀ other id, s.Assigning other id →
      { s.setSlot who (s.slots who).requestStop with caller := caller }.Assigning other id) :
    ∀ other, ∀ thread ∈ ({ s.setSlot who (s.slots who).requestStop with
        caller := caller }.slots other).threads,
      ({ s.setSlot who (s.slots who).requestStop with caller := caller }.slots other).runner =
          some thread.id ∨
        { s.setSlot who (s.slots who).requestStop with caller := caller }.Assigning other
          thread.id := by
  intro other thread hmem
  by_cases heq : other = who
  · subst heq
    simp only [setSlot, Function.update_self] at hmem ⊢
    obtain ⟨before, hbefore, hid, -⟩ := RunnerSlot.mem_requestStop hmem
    rw [← hid]
    exact (howned.owned other before hbefore).imp_right (hassign other before.id)
  · simp only [setSlot, Function.update_of_ne heq] at hmem ⊢
    exact (howned.owned other thread hmem).imp_right (hassign other thread.id)

theorem asked_requestStop
    (howned : s.Owned) {who : NodeId k} (hnot : ∀ id, ¬ s.Assigning who id) :
    ∀ thread ∈ ((s.slots who).requestStop).threads, thread.stopRequested = true := by
  intro thread hmem
  obtain ⟨before, hbefore, hid, hasked⟩ := RunnerSlot.mem_requestStop hmem
  exact hasked (hid ▸ howned.owned_of_not_assigning hnot before hbefore)

theorem not_assigning
    (hcaller : ∀ rest point, s.caller ≠ .inStart rest point) (who : NodeId k) (id : ℕ) :
    ¬ s.Assigning who id := by
  rintro ⟨rest, hassign | hassign⟩ <;> exact hcaller _ _ hassign

/-- A thread of the node which the caller has joined is gone. -/
theorem threads_eq_nil
    (howned : s.Owned) (hcaller : ∀ rest point, s.caller ≠ .inStart rest point) {who : NodeId k}
    (hlive : ¬ (s.slots who).isLive = true) : (s.slots who).threads = [] :=
  RunnerSlot.threads_eq_nil (howned.owned_of_not_assigning (not_assigning hcaller who))
    (by simpa using hlive)

theorem afterCreate
    (howned : s.Owned) {who : NodeId k} {rest : List (NodeId k)}
    (hcaller : s.caller = .inStart (who :: rest) .create) :
    Owned
      { s.setSlot who ((s.slots who).create s.nextThread) with
        nextThread := s.nextThread + 1
        caller := .inStart (who :: rest) (.moveAssign s.nextThread) } := by
  have hnot : ∀ other id, ¬ s.Assigning other id := by
    rintro other id ⟨rest', hassign | hassign⟩ <;> simp [hcaller] at hassign
  refine ⟨fun other thread hmem => ?_, by simp, ?_, by simp, fun hended => ?_⟩
  · by_cases heq : other = who
    · subst heq
      simp only [setSlot, Function.update_self, RunnerSlot.create, List.mem_append,
        List.mem_singleton] at hmem ⊢
      rcases hmem with hold | rfl
      · exact .inl (howned.owned_of_not_assigning (hnot other) thread hold)
      · exact .inr ⟨rest, .inl rfl⟩
    · simp only [setSlot, Function.update_of_ne heq] at hmem ⊢
      exact .inl (howned.owned_of_not_assigning (hnot other) thread hmem)
  · intro rest' point hnext
    simp only [LifecycleCaller.inStart.injEq] at hnext
    exact hnext.1 ▸ howned.startOrder _ _ hcaller
  · cases who with
    | none => simp [dispatcherEnded] at hended
    | some worker =>
        simpa [setSlot] using howned.dispatcher (by simp [dispatcherEnded, hcaller])

theorem afterMoveAssign
    (howned : s.Owned) {who : NodeId k} {rest : List (NodeId k)} {new : ℕ}
    (hcaller : s.caller = .inStart (who :: rest) (.moveAssign new)) :
    Owned
      { s.setSlot who (s.slots who).requestStop with
        caller := .inStart (who :: rest) (.joinOld new) } := by
  refine ⟨howned.requestStop who _ ?_, by simp, ?_, by simp, fun hended => ?_⟩
  · rintro other id ⟨rest', hassign | hassign⟩
    · rw [hcaller, LifecycleCaller.inStart.injEq, List.cons.injEq, StartPoint.moveAssign.injEq]
        at hassign
      obtain ⟨⟨rfl, rfl⟩, rfl⟩ := hassign
      exact ⟨_, .inr rfl⟩
    · simp [hcaller] at hassign
  · intro rest' point hnext
    simp only [LifecycleCaller.inStart.injEq] at hnext
    exact hnext.1 ▸ howned.startOrder _ _ hcaller
  · cases who with
    | none => simp [dispatcherEnded] at hended
    | some worker =>
        simpa [setSlot] using howned.dispatcher (by simp [dispatcherEnded, hcaller])

theorem afterRequest
    (howned : s.Owned) {who : NodeId k} {rest : List (NodeId k)}
    (hcaller : s.caller = .inStop (who :: rest) .request) :
    Owned
      { s.setSlot who (s.slots who).requestStop with
        caller := .inStop (who :: rest) .join } := by
  have hnot := not_assigning (s := s) (by simp [hcaller])
  refine ⟨howned.requestStop who _ fun other id hassign => absurd hassign (hnot other id), ?_,
    by simp, fun _ _ _ => howned.stopState _ _ hcaller, fun hended => ?_⟩
  · intro other rest' hnext
    simp only [LifecycleCaller.inStop.injEq, List.cons.injEq, and_true] at hnext
    obtain ⟨rfl, -⟩ := hnext
    simpa [setSlot] using howned.asked_requestStop (hnot who)
  · cases who with
    | none => simp [dispatcherEnded] at hended
    | some worker =>
        simpa [setSlot] using howned.dispatcher (by simp [dispatcherEnded, hcaller])

theorem afterJoin
    (howned : s.Owned) {who : NodeId k} {rest : List (NodeId k)}
    (hcaller : s.caller = .inStop (who :: rest) .join)
    (hlive : ¬ (s.slots who).isLive = true) :
    Owned
      { s.setSlot who { s.slots who with runner := none } with
        caller := .inStop (who :: rest) .shutdown } := by
  have hnot := not_assigning (s := s) (by simp [hcaller])
  have hgone := howned.threads_eq_nil (by simp [hcaller]) hlive
  refine ⟨fun other thread hmem => .inl ?_, by simp, by simp,
    fun _ _ _ => howned.stopState _ _ hcaller, fun _ => ?_⟩
  · by_cases heq : other = who
    · subst heq
      simp [setSlot, hgone] at hmem
    · simp only [setSlot, Function.update_of_ne heq] at hmem ⊢
      exact howned.owned_of_not_assigning (hnot other) thread hmem
  · cases who with
    | none => simp [setSlot, hgone]
    | some worker =>
        simpa [setSlot] using howned.dispatcher (by simp [dispatcherEnded, hcaller])

/-- The calling thread moves on without touching the threads. -/
theorem moveOn
    (howned : s.Owned) (hnot : ∀ who id, ¬ s.Assigning who id) {state : RuntimeState}
    {caller : LifecycleCaller k} (hasked : ∀ rest, caller ≠ .inStop rest .join)
    (hstart : ∀ rest point, caller = .inStart rest point →
      state ≠ .running ∧ rest <:+ Runtime.startOrder k)
    (hstop : ∀ rest point, caller = .inStop rest point → state = .running)
    (hended : dispatcherEnded { s with state := state, caller := caller } = true →
      s.dispatcherEnded = true) :
    Owned { s with state := state, caller := caller } where
  owned := fun who thread hmem => .inl (howned.owned_of_not_assigning (hnot who) thread hmem)
  asked := fun _ _ hcaller => absurd hcaller (hasked _)
  startOrder := hstart
  stopState := hstop
  dispatcher := fun hafter => howned.dispatcher (hended hafter)

theorem callerStep (howned : s.Owned) (hstep : s.callerStep = some next) : next.Owned := by
  unfold RunnerThreads.callerStep at hstep
  split at hstep
  next => simp at hstep
  next hcaller =>
    rw [Option.some.injEq] at hstep
    subst hstep
    exact howned.moveOn (by simp [Assigning, hcaller]) (by simp) (by simp) (by simp)
      (by simp [dispatcherEnded])
  next who rest hcaller =>
    rw [Option.some.injEq] at hstep
    exact hstep ▸ howned.afterCreate hcaller
  next who rest new hcaller =>
    split at hstep
    next hrunner =>
      rw [Option.some.injEq] at hstep
      refine hstep ▸ howned.assign (.inl hcaller) fun thread hmem => ?_
      rcases howned.owned who thread hmem with hold | ⟨rest', hassign | hassign⟩
      · simp [hrunner] at hold
      · simp only [hcaller, LifecycleCaller.inStart.injEq, StartPoint.moveAssign.injEq] at hassign
        exact hassign.2.symm
      · simp [hcaller] at hassign
    next =>
      rw [Option.some.injEq] at hstep
      exact hstep ▸ howned.afterMoveAssign hcaller
  next who rest new hcaller =>
    split at hstep
    next => simp at hstep
    next hlive =>
      rw [Option.some.injEq] at hstep
      refine hstep ▸ howned.assign (.inr hcaller) fun thread hmem => ?_
      rcases howned.owned who thread hmem with hold | ⟨rest', hassign | hassign⟩
      · have hthread : (s.slots who).hasThread thread.id = true :=
          List.any_eq_true.mpr ⟨thread, hmem, beq_self_eq_true _⟩
        simp [RunnerSlot.isLive, hold, hthread] at hlive
      · simp [hcaller] at hassign
      · simp only [hcaller, LifecycleCaller.inStart.injEq, StartPoint.joinOld.injEq] at hassign
        exact hassign.2.symm
  next hcaller =>
    rw [Option.some.injEq] at hstep
    subst hstep
    exact howned.moveOn (not_assigning (by simp [hcaller])) (by simp) (by simp) (by simp)
      (by simp [dispatcherEnded, hcaller])
  next who rest hcaller =>
    rw [Option.some.injEq] at hstep
    exact hstep ▸ howned.afterRequest hcaller
  next who rest hcaller =>
    split at hstep
    next => simp at hstep
    next hlive =>
      rw [Option.some.injEq] at hstep
      exact hstep ▸ howned.afterJoin hcaller hlive
  next who rest hcaller =>
    rw [Option.some.injEq] at hstep
    subst hstep
    refine howned.moveOn (not_assigning (by simp [hcaller])) (by simp) (by simp)
      (fun _ _ _ => howned.stopState _ _ hcaller) fun _ => ?_
    cases who <;> simp [dispatcherEnded, hcaller]

theorem exit (howned : s.Owned) (who : NodeId k) (id : ℕ) :
    (s.setSlot who ((s.slots who).exit id)).Owned := by
  have hrunner : ∀ other, ((s.setSlot who ((s.slots who).exit id)).slots other).runner =
      (s.slots other).runner := by
    intro other
    by_cases heq : other = who
    · subst heq
      simp [setSlot, RunnerSlot.exit]
    · simp only [setSlot, Function.update_of_ne heq]
  refine ⟨fun other thread hthread => ?_, fun other rest hcaller thread hthread => ?_,
    howned.startOrder, howned.stopState, fun hended => ?_⟩
  · rw [hrunner]
    exact howned.owned other thread (mem_of_exit hthread)
  · exact howned.asked other rest hcaller thread (mem_of_exit hthread)
  · refine List.eq_nil_iff_forall_not_mem.mpr fun thread hthread => ?_
    have hbefore := mem_of_exit hthread
    rw [howned.dispatcher hended] at hbefore
    simp at hbefore

theorem step
    {label : RunnerLabel k} (howned : s.Owned) (hstep : s.step label = some next) :
    next.Owned := by
  unfold RunnerThreads.step at hstep
  cases label with
  | callStart =>
      simp only [Option.ite_none_right_eq_some] at hstep
      obtain ⟨hidle, hstep⟩ := hstep
      split at hstep
      next => exact Option.some.inj hstep ▸ howned
      next hstate =>
        rw [Option.some.injEq] at hstep
        subst hstep
        exact howned.moveOn (not_assigning (by simp [hidle])) (by simp)
          (fun rest point hcaller => by
            simp only [LifecycleCaller.inStart.injEq] at hcaller
            exact ⟨hstate, hcaller.1 ▸ List.suffix_rfl⟩)
          (by simp) (fun _ => by simp [dispatcherEnded, hidle, hstate])
  | callStop =>
      simp only [Option.ite_none_right_eq_some] at hstep
      obtain ⟨hidle, hstep⟩ := hstep
      split at hstep
      next hstate =>
        rw [Option.some.injEq] at hstep
        subst hstep
        exact howned.moveOn (not_assigning (by simp [hidle])) (by simp) (by simp)
          (fun _ _ _ => hstate) (by simp [dispatcherEnded, Runtime.stopOrder])
      next => exact Option.some.inj hstep ▸ howned
  | caller => exact howned.callerStep hstep
  | creationFails =>
      dsimp only at hstep
      split at hstep
      next who rest hcaller =>
        rw [Option.some.injEq] at hstep
        subst hstep
        refine howned.moveOn ?_ (by simp) (by simp) (by simp) fun _ => ?_
        · rintro other id ⟨rest', hassign | hassign⟩ <;> simp [hcaller] at hassign
        · cases who <;> simp [dispatcherEnded, hcaller]
      next => simp at hstep
  | shutdownThrows =>
      dsimp only at hstep
      split at hstep
      next who rest hcaller =>
        rw [Option.some.injEq] at hstep
        subst hstep
        exact howned.moveOn (not_assigning (by simp [hcaller])) (by simp) (by simp) (by simp)
          (by simp [dispatcherEnded, howned.stopState _ _ hcaller])
      next => simp at hstep
  | threadExits who id =>
      simp only [Option.ite_none_right_eq_some, Option.some.injEq] at hstep
      exact hstep.2 ▸ howned.exit who id

end RunnerThreads.Owned

/-! ## The destructor -/

/-- How far the destructor has come: in its body, where `stop` is running, or at
the members of the nodes still to come. -/
inductive DestructorPoint (k : ℕ)
  | alive
  | body (order : List (Fin k))
  | members (rest : List (NodeId k)) (point : HaltPoint)
  | done
  deriving DecidableEq, Repr

structure RuntimeLifetime (k : ℕ) where
  threads : RunnerThreads k := {}
  destructor : DestructorPoint k := .alive
  /-- The nodes whose schedulers and rings are gone, the last one first. -/
  destroyed : List (NodeId k) := []
  terminated : Bool := false

inductive LifetimeLabel (k : ℕ)
  /-- `start`, `stop` and the threads. -/
  | threads (label : RunnerLabel k)
  /-- The runtime is destroyed; a vector may destroy its elements in any order. -/
  | callDestructor (order : List (Fin k))
  /-- The destructor executes its next statement. -/
  | destructor
  /-- A callable throws out of `~Scheduler`. -/
  | destructorThrows
  deriving DecidableEq, Repr

/-- The order in which the schedulers go. -/
def memberOrder (order : List (Fin k)) : List (NodeId k) :=
  order.map some ++ [none]

namespace RuntimeLifetime

/-- A step of the threads; no client calls `start` or `stop` any more once the
destructor has been called. -/
def threadsStep (s : RuntimeLifetime k) (label : RunnerLabel k) :
    Option (RuntimeLifetime k) :=
  let go := (s.threads.step label).map fun threads => { s with threads := threads }
  match s.destructor, label with
  | .alive, _ => go
  | .body _, .caller => go
  -- an exception which leaves a destructor ends the process
  | .body _, .shutdownThrows => go.map fun s => { s with terminated := true }
  | _, .threadExits _ _ => go
  | _, _ => none

def destructorStep (s : RuntimeLifetime k) : Option (RuntimeLifetime k) :=
  match s.destructor with
  | .alive | .done => none
  | .body order =>
      if s.threads.caller = .idle then
        some { s with destructor := .members (memberOrder order) .request }
      else none
  | .members [] _ => some { s with destructor := .done }
  | .members (who :: rest) .request =>
      some
        { s with
          threads := s.threads.setSlot who (s.threads.slots who).requestStop
          destructor := .members (who :: rest) .join }
  | .members (who :: rest) .join =>
      if (s.threads.slots who).isLive then none
      else
        some
          { s with
            threads := s.threads.setSlot who { s.threads.slots who with runner := none }
            destructor := .members (who :: rest) .shutdown }
  | .members (who :: rest) .shutdown =>
      some { s with destroyed := who :: s.destroyed, destructor := .members rest .request }

def step (s : RuntimeLifetime k) (label : LifetimeLabel k) : Option (RuntimeLifetime k) :=
  if s.terminated then none
  else
    match label with
    | .threads label => s.threadsStep label
    | .callDestructor order =>
        if s.destructor = .alive ∧ s.threads.caller = .idle ∧
            order.Perm (List.finRange k) then
          if s.threads.state = .running then
            (s.threads.step .callStop).map fun threads =>
              { s with threads := threads, destructor := .body order }
          else some { s with destructor := .members (memberOrder order) .request }
        else none
    | .destructor => s.destructorStep
    | .destructorThrows =>
        match s.destructor with
        | .members (_ :: _) .shutdown => some { s with terminated := true }
        | _ => none

end RuntimeLifetime

/-- What is destroyed, and what the calling thread has left to do. -/
inductive DestructorPhase (s : RuntimeLifetime k) : Prop
  | alive (hpoint : s.destructor = .alive) (hnone : s.destroyed = [])
  | body {order : List (Fin k)} (hpoint : s.destructor = .body order)
      (horder : order.Perm (List.finRange k)) (hnone : s.destroyed = [])
      (hcaller : s.terminated = true ∨ (∃ rest point, s.threads.caller = .inStop rest point) ∨
        s.threads.caller = .idle ∧ s.threads.state = .stopped)
  | members {order : List (Fin k)} {rest : List (NodeId k)} {point : HaltPoint}
      (hpoint : s.destructor = .members rest point) (horder : order.Perm (List.finRange k))
      (hcaller : s.threads.caller = .idle) (hstate : s.threads.state ≠ .running)
      (hsplit : s.destroyed.reverse ++ rest = memberOrder order)
      (hasked : point = .join → ∀ who ∈ rest.head?,
        ∀ thread ∈ (s.threads.slots who).threads, thread.stopRequested = true)
      (hjoined : point = .shutdown → ∀ who ∈ rest.head?, (s.threads.slots who).threads = [])
  | done {order : List (Fin k)} (hpoint : s.destructor = .done)
      (horder : order.Perm (List.finRange k)) (hcaller : s.threads.caller = .idle)
      (hstate : s.threads.state ≠ .running) (hsplit : s.destroyed.reverse = memberOrder order)

structure LifetimeInvariant (s : RuntimeLifetime k) : Prop where
  owned : s.threads.Owned
  quiet : ∀ who ∈ s.destroyed, (s.threads.slots who).threads = []
  phase : DestructorPhase s

theorem RunnerThreads.Owned.of_idle
    {s : RunnerThreads k} (hcaller : s.caller = .idle)
    (howned : ∀ who, ∀ thread ∈ (s.slots who).threads, (s.slots who).runner = some thread.id)
    (hdispatcher : s.state ≠ .running → (s.slots none).threads = []) : s.Owned where
  owned := fun who thread hmem => .inl (howned who thread hmem)
  asked := by simp [hcaller]
  startOrder := by simp [hcaller]
  stopState := by simp [hcaller]
  dispatcher := fun hended => hdispatcher (by simpa [dispatcherEnded, hcaller] using hended)

theorem RunnerThreads.callerStep_of_inStop
    {s next : RunnerThreads k} {rest : List (NodeId k)} {point : HaltPoint}
    (hcaller : s.caller = .inStop rest point) (hstep : s.callerStep = some next) :
    (∃ rest point, next.caller = .inStop rest point) ∨
      next.caller = .idle ∧ next.state = .stopped := by
  unfold RunnerThreads.callerStep at hstep
  rw [hcaller] at hstep
  cases rest with
  | nil =>
      rw [Option.some.injEq] at hstep
      exact hstep ▸ .inr ⟨rfl, rfl⟩
  | cons who rest =>
      cases point with
      | request => exact .inl (Option.some.inj hstep ▸ ⟨_, _, rfl⟩)
      | join =>
          simp only [Option.ite_none_left_eq_some] at hstep
          exact .inl (Option.some.inj hstep.2 ▸ ⟨_, _, rfl⟩)
      | shutdown => exact .inl (Option.some.inj hstep ▸ ⟨_, _, rfl⟩)

namespace LifetimeInvariant

variable {s next : RuntimeLifetime k}

theorem initial : LifetimeInvariant ({} : RuntimeLifetime k) :=
  ⟨.initial, by simp, .alive rfl rfl⟩

/-- No thread is left of the dispatcher when the members go. -/
theorem dispatcher_threads
    (hinv : LifetimeInvariant s) (hcaller : s.threads.caller = .idle)
    (hstate : s.threads.state ≠ .running) : (s.threads.slots none).threads = [] :=
  hinv.owned.dispatcher (by simp [RunnerThreads.dispatcherEnded, hcaller, hstate])

theorem afterExit
    (hinv : LifetimeInvariant s) (who : NodeId k) (id : ℕ) :
    LifetimeInvariant
      { s with threads := s.threads.setSlot who ((s.threads.slots who).exit id) } := by
  have hnil : ∀ other, (s.threads.slots other).threads = [] →
      ((s.threads.setSlot who ((s.threads.slots who).exit id)).slots other).threads = [] := by
    intro other hnone
    refine List.eq_nil_iff_forall_not_mem.mpr fun thread hmem => ?_
    have hbefore := RunnerThreads.mem_of_exit hmem
    simp [hnone] at hbefore
  refine ⟨hinv.owned.exit who id, fun other hother => hnil other (hinv.quiet other hother), ?_⟩
  cases hinv.phase with
  | alive hpoint hnone => exact .alive hpoint hnone
  | body hpoint horder hnone hcaller => exact .body hpoint horder hnone hcaller
  | members hpoint horder hcaller hstate hsplit hasked hjoined =>
      refine .members hpoint horder hcaller hstate hsplit ?_ ?_
      · intro hjoin other hother thread hmem
        exact hasked hjoin other hother thread (RunnerThreads.mem_of_exit hmem)
      · exact fun hshut other hother => hnil other (hjoined hshut other hother)
  | done hpoint horder hcaller hstate hsplit => exact .done hpoint horder hcaller hstate hsplit

/-- With nothing destroyed yet, the threads may do what they do. -/
theorem afterThreads
    (hinv : LifetimeInvariant s) (hnone : s.destroyed = []) {label : RunnerLabel k}
    {threads : RunnerThreads k} (hstep : s.threads.step label = some threads)
    (hphase : DestructorPhase { s with threads := threads }) :
    LifetimeInvariant { s with threads := threads } :=
  ⟨hinv.owned.step hstep, by simp [hnone], hphase⟩

theorem threadsStep_cases
    {label : RunnerLabel k} (hstep : s.threadsStep label = some next) :
    ∃ threads, s.threads.step label = some threads ∧
      (next = { s with threads := threads } ∧
          (s.destructor = .alive ∨ (∃ order, s.destructor = .body order ∧ label = .caller) ∨
            ∃ who id, label = .threadExits who id) ∨
        ∃ order, s.destructor = .body order ∧ label = .shutdownThrows ∧
          next = { s with threads := threads, terminated := true }) := by
  unfold RuntimeLifetime.threadsStep at hstep
  dsimp only at hstep
  split at hstep
  next halive =>
    obtain ⟨threads, hthreads, rfl⟩ := Option.map_eq_some_iff.mp hstep
    exact ⟨threads, hthreads, .inl ⟨rfl, .inl halive⟩⟩
  next order hbody =>
    obtain ⟨threads, hthreads, rfl⟩ := Option.map_eq_some_iff.mp hstep
    exact ⟨threads, hthreads, .inl ⟨rfl, .inr (.inl ⟨order, hbody, rfl⟩)⟩⟩
  next order hbody =>
    rw [Option.map_map] at hstep
    obtain ⟨threads, hthreads, rfl⟩ := Option.map_eq_some_iff.mp hstep
    exact ⟨threads, hthreads, .inr ⟨order, hbody, rfl, rfl⟩⟩
  next who id _ =>
    obtain ⟨threads, hthreads, rfl⟩ := Option.map_eq_some_iff.mp hstep
    exact ⟨threads, hthreads, .inl ⟨rfl, .inr (.inr ⟨who, id, rfl⟩)⟩⟩
  next => simp at hstep

theorem threadsStep
    {label : RunnerLabel k} (hinv : LifetimeInvariant s)
    (hstep : s.threadsStep label = some next) : LifetimeInvariant next := by
  obtain ⟨threads, hthreads, ⟨rfl, halive | ⟨order, hbody, rfl⟩ | ⟨who, id, rfl⟩⟩ |
    ⟨order, hbody, rfl, rfl⟩⟩ := threadsStep_cases hstep
  · cases hinv.phase with
    | alive hpoint hnone => exact hinv.afterThreads hnone hthreads (.alive hpoint hnone)
    | body hpoint | members hpoint | done hpoint => simp [hpoint] at halive
  · cases hinv.phase with
    | body hpoint horder hnone hcaller =>
        refine hinv.afterThreads hnone hthreads (.body hpoint horder hnone ?_)
        rcases hcaller with hend | ⟨rest, point, hstop⟩ | ⟨hidle, -⟩
        · exact .inl hend
        · exact .inr (RunnerThreads.callerStep_of_inStop hstop hthreads)
        · simp [RunnerThreads.step, RunnerThreads.callerStep, hidle] at hthreads
    | alive hpoint | members hpoint | done hpoint => simp [hpoint] at hbody
  · simp only [RunnerThreads.step, Option.ite_none_right_eq_some, Option.some.injEq] at hthreads
    exact hthreads.2 ▸ hinv.afterExit who id
  · cases hinv.phase with
    | body hpoint horder hnone _ =>
        exact ⟨hinv.owned.step hthreads, by simp [hnone], .body hpoint horder hnone (.inl rfl)⟩
    | alive hpoint | members hpoint | done hpoint => simp [hpoint] at hbody

theorem toMembers
    (hinv : LifetimeInvariant s) (hnone : s.destroyed = []) (hcaller : s.threads.caller = .idle)
    (hstate : s.threads.state ≠ .running) {order : List (Fin k)}
    (horder : order.Perm (List.finRange k)) :
    LifetimeInvariant { s with destructor := .members (memberOrder order) .request } :=
  ⟨hinv.owned, hinv.quiet,
    .members rfl horder hcaller hstate (by simp [hnone]) (by simp) (by simp)⟩

theorem afterRequest
    (hinv : LifetimeInvariant s) {order : List (Fin k)} {who : NodeId k}
    {rest : List (NodeId k)} (horder : order.Perm (List.finRange k))
    (hcaller : s.threads.caller = .idle) (hstate : s.threads.state ≠ .running)
    (hsplit : s.destroyed.reverse ++ who :: rest = memberOrder order) :
    LifetimeInvariant
      { s with
        threads := s.threads.setSlot who (s.threads.slots who).requestStop
        destructor := .members (who :: rest) .join } := by
  have hnot := RunnerThreads.Owned.not_assigning (s := s.threads) (by simp [hcaller])
  have hnil : ∀ other, (s.threads.slots other).threads = [] →
      ((s.threads.setSlot who (s.threads.slots who).requestStop).slots other).threads = [] := by
    intro other hnone
    by_cases heq : other = who
    · subst heq
      simp [RunnerThreads.setSlot, RunnerSlot.requestStop, hnone]
    · simpa only [RunnerThreads.setSlot, Function.update_of_ne heq] using hnone
  refine ⟨.of_idle hcaller ?_ fun _ => hnil none (hinv.dispatcher_threads hcaller hstate),
    fun other hother => hnil other (hinv.quiet other hother),
    .members rfl horder hcaller hstate hsplit ?_ (by simp)⟩
  · intro other thread hmem
    have howned := hinv.owned.requestStop who .idle
      (fun other id hassign => absurd hassign (hnot other id)) other thread hmem
    exact howned.resolve_right (RunnerThreads.Owned.not_assigning (by simp) other thread.id)
  · rintro - other hother
    obtain rfl : who = other := by simpa using hother
    simpa [RunnerThreads.setSlot] using hinv.owned.asked_requestStop (hnot who)

theorem afterJoin
    (hinv : LifetimeInvariant s) {order : List (Fin k)} {who : NodeId k}
    {rest : List (NodeId k)} (horder : order.Perm (List.finRange k))
    (hcaller : s.threads.caller = .idle) (hstate : s.threads.state ≠ .running)
    (hsplit : s.destroyed.reverse ++ who :: rest = memberOrder order)
    (hlive : ¬ (s.threads.slots who).isLive = true) :
    LifetimeInvariant
      { s with
        threads := s.threads.setSlot who { s.threads.slots who with runner := none }
        destructor := .members (who :: rest) .shutdown } := by
  have hnot := RunnerThreads.Owned.not_assigning (s := s.threads) (by simp [hcaller])
  have hgone := hinv.owned.threads_eq_nil (by simp [hcaller]) hlive
  have hthreads : ∀ other, ((s.threads.setSlot who
      { s.threads.slots who with runner := none }).slots other).threads =
      (s.threads.slots other).threads := by
    intro other
    by_cases heq : other = who
    · subst heq
      simp [RunnerThreads.setSlot]
    · simp only [RunnerThreads.setSlot, Function.update_of_ne heq]
  refine ⟨.of_idle hcaller ?_ fun _ => (hthreads none).trans
    (hinv.dispatcher_threads hcaller hstate),
    fun other hother => (hthreads other).trans (hinv.quiet other hother),
    .members rfl horder hcaller hstate hsplit (by simp) ?_⟩
  · intro other thread hmem
    rw [hthreads] at hmem
    by_cases heq : other = who
    · rw [heq, hgone] at hmem
      simp at hmem
    · simp only [RunnerThreads.setSlot, Function.update_of_ne heq]
      exact hinv.owned.owned_of_not_assigning (hnot other) thread hmem
  · rintro - other hother
    obtain rfl : who = other := by simpa using hother
    exact (hthreads who).trans hgone

theorem destructorStep
    (hinv : LifetimeInvariant s) (hgoes : s.terminated = false)
    (hstep : s.destructorStep = some next) : LifetimeInvariant next := by
  unfold RuntimeLifetime.destructorStep at hstep
  cases hinv.phase with
  | alive hpoint _ | done hpoint => simp [hpoint] at hstep
  | body hpoint horder hnone hcaller =>
      rw [hpoint] at hstep
      simp only [Option.ite_none_right_eq_some, Option.some.injEq] at hstep
      obtain ⟨hidle, rfl⟩ := hstep
      have hstopped : s.threads.state = .stopped := by
        rcases hcaller with hend | ⟨rest, point, hstop⟩ | ⟨-, hstopped⟩
        · simp [hgoes] at hend
        · simp [hidle] at hstop
        · exact hstopped
      exact hinv.toMembers hnone hidle (by simp [hstopped]) horder
  | @members order rest point hpoint horder hcaller hstate hsplit hasked hjoined =>
      rw [hpoint] at hstep
      cases rest with
      | nil =>
          rw [Option.some.injEq] at hstep
          subst hstep
          rw [List.append_nil] at hsplit
          exact ⟨hinv.owned, hinv.quiet, .done rfl horder hcaller hstate hsplit⟩
      | cons who rest =>
          cases point with
          | request =>
              exact Option.some.inj hstep ▸ hinv.afterRequest horder hcaller hstate hsplit
          | join =>
              simp only [Option.ite_none_left_eq_some, Option.some.injEq] at hstep
              exact hstep.2 ▸ hinv.afterJoin horder hcaller hstate hsplit hstep.1
          | shutdown =>
              rw [Option.some.injEq] at hstep
              subst hstep
              refine ⟨hinv.owned, ?_, .members rfl horder hcaller hstate ?_ (by simp) (by simp)⟩
              · simp only [List.mem_cons, forall_eq_or_imp]
                exact ⟨hjoined rfl who (by simp), hinv.quiet⟩
              · rw [List.reverse_cons, List.append_assoc]
                exact hsplit

theorem step
    {label : LifetimeLabel k} (hinv : LifetimeInvariant s) (hstep : s.step label = some next) :
    LifetimeInvariant next := by
  simp only [RuntimeLifetime.step, Option.ite_none_left_eq_some, Bool.not_eq_true] at hstep
  obtain ⟨hgoes, hstep⟩ := hstep
  cases label with
  | threads label => exact hinv.threadsStep hstep
  | callDestructor order =>
      simp only [Option.ite_none_right_eq_some] at hstep
      obtain ⟨⟨halive, hidle, horder⟩, hstep⟩ := hstep
      have hnone : s.destroyed = [] := by
        cases hinv.phase with
        | alive _ hnone => exact hnone
        | body hpoint | members hpoint | done hpoint => simp [hpoint] at halive
      split at hstep
      next hstate =>
        obtain ⟨threads, hthreads, rfl⟩ := Option.map_eq_some_iff.mp hstep
        refine ⟨hinv.owned.step hthreads, by simp [hnone],
          .body rfl horder hnone (.inr (.inl ?_))⟩
        simp only [RunnerThreads.step, hidle, hstate, if_true, Option.some.injEq] at hthreads
        exact hthreads ▸ ⟨_, _, rfl⟩
      next hstate => exact Option.some.inj hstep ▸ hinv.toMembers hnone hidle hstate horder
  | destructor => exact hinv.destructorStep hgoes hstep
  | destructorThrows =>
      dsimp only at hstep
      split at hstep
      next =>
        rw [Option.some.injEq] at hstep
        subst hstep
        refine ⟨hinv.owned, hinv.quiet, ?_⟩
        cases hinv.phase with
        | alive hpoint hnone => exact .alive hpoint hnone
        | body hpoint horder hnone _ => exact .body hpoint horder hnone (.inl rfl)
        | members hpoint horder hcaller hstate hsplit hasked hjoined =>
            exact .members hpoint horder hcaller hstate hsplit hasked hjoined
        | done hpoint horder hcaller hstate hsplit =>
            exact .done hpoint horder hcaller hstate hsplit
      next => simp at hstep

end LifetimeInvariant

/-! ## The results -/

/-- Steps of the destructor, and of the threads it waits for. -/
def LifetimeLabel.continues : LifetimeLabel k → Bool
  | .destructor | .threads .caller | .threads (.threadExits _ _) => true
  | _ => false

/-- The destructor of this node's scheduler is running or has returned. -/
def RuntimeLifetime.destroys (s : RuntimeLifetime k) (who : NodeId k) : Prop :=
  who ∈ s.destroyed ∨ ∃ rest, s.destructor = .members (who :: rest) .shutdown

/-- Schedulers go without their threads, the workers' without the dispatcher's
as well, once each, and all of them; the destructor never waits for a thread
which has not been asked to stop. -/
structure DestroysSafely (s : RuntimeLifetime k) : Prop where
  joined : ∀ who, s.destroys who → (s.threads.slots who).threads = []
  dispatcher : ∀ who, s.destroys who → (s.threads.slots none).threads = []
  once : s.destroyed.Nodup
  all : s.destructor = .done → ∀ who, who ∈ s.destroyed
  goesOn : s.destructor ≠ .alive → s.destructor ≠ .done → s.terminated = false →
    ∃ label next, label.continues = true ∧ s.step label = some next

namespace LifetimeInvariant

variable {s : RuntimeLifetime k}

theorem memberOrder_perm {order : List (Fin k)} (horder : order.Perm (List.finRange k)) :
    (memberOrder order).Nodup ∧ ∀ who, who ∈ memberOrder order := by
  have hperm : (memberOrder order).Perm (Runtime.startOrder k) :=
    (horder.map some).append_right [none]
  exact ⟨hperm.nodup_iff.mpr (nodup_startOrder k),
    fun who => hperm.mem_iff.mpr (mem_startOrder who)⟩

theorem joined (hinv : LifetimeInvariant s) {who : NodeId k} (hwho : s.destroys who) :
    (s.threads.slots who).threads = [] := by
  rcases hwho with hgone | ⟨rest, hpoint⟩
  · exact hinv.quiet who hgone
  · cases hinv.phase with
    | members hpoint' _ _ _ _ _ hjoined =>
        rw [hpoint, DestructorPoint.members.injEq] at hpoint'
        exact hjoined hpoint'.2.symm who (by simp [← hpoint'.1])
    | alive hpoint' | body hpoint' | done hpoint' => simp [hpoint'] at hpoint

theorem dispatcher (hinv : LifetimeInvariant s) {who : NodeId k} (hwho : s.destroys who) :
    (s.threads.slots none).threads = [] := by
  cases hinv.phase with
  | alive hpoint hnone | body hpoint _ hnone _ =>
      simp [RuntimeLifetime.destroys, hpoint, hnone] at hwho
  | members _ _ hcaller hstate | done _ _ hcaller hstate =>
      exact hinv.dispatcher_threads hcaller hstate

theorem once (hinv : LifetimeInvariant s) : s.destroyed.Nodup := by
  cases hinv.phase with
  | alive _ hnone | body _ _ hnone _ => simp [hnone]
  | members _ horder _ _ hsplit _ _ =>
      have hnodup := (memberOrder_perm horder).1
      rw [← hsplit, List.nodup_append] at hnodup
      exact List.nodup_reverse.mp hnodup.1
  | done _ horder _ _ hsplit =>
      exact List.nodup_reverse.mp (hsplit ▸ (memberOrder_perm horder).1)

theorem all (hinv : LifetimeInvariant s) (hdone : s.destructor = .done) (who : NodeId k) :
    who ∈ s.destroyed := by
  cases hinv.phase with
  | done _ horder _ _ hsplit =>
      rw [← List.mem_reverse, hsplit]
      exact (memberOrder_perm horder).2 who
  | alive hpoint | body hpoint | members hpoint => simp [hpoint] at hdone

/-- A thread which is waited for has been asked to stop and may exit. -/
theorem exits
    {who : NodeId k} (hlive : (s.threads.slots who).isLive = true)
    (hasked : ∀ thread ∈ (s.threads.slots who).threads, thread.stopRequested = true) :
    ∃ id threads, s.threads.step (.threadExits who id) = some threads := by
  simp only [RunnerSlot.isLive, RunnerSlot.hasThread, Option.any_eq_true, List.any_eq_true]
    at hlive
  obtain ⟨id, -, ⟨id', stopRequested⟩, hmem, -⟩ := hlive
  obtain rfl : stopRequested = true := hasked _ hmem
  exact ⟨id', _, if_pos hmem⟩

/-- `stop` goes on when the destructor has called it. -/
theorem stop_goesOn
    (hinv : LifetimeInvariant s) {order : List (Fin k)} (hbody : s.destructor = .body order)
    (hgoes : s.terminated = false) {rest : List (NodeId k)} {point : HaltPoint}
    (hcaller : s.threads.caller = .inStop rest point) :
    ∃ label next, label.continues = true ∧ s.step label = some next := by
  have hlift : s.threads.callerStep.isSome = true →
      ∃ label next, label.continues = true ∧ s.step label = some next := by
    intro hsome
    obtain ⟨threads, hstep⟩ := Option.isSome_iff_exists.mp hsome
    refine ⟨.threads .caller, { s with threads := threads }, rfl, ?_⟩
    simp [RuntimeLifetime.step, hgoes, RuntimeLifetime.threadsStep, hbody, RunnerThreads.step,
      hstep]
  cases rest with
  | nil => exact hlift (by simp [RunnerThreads.callerStep, hcaller])
  | cons who rest =>
      cases point with
      | request | shutdown => exact hlift (by simp [RunnerThreads.callerStep, hcaller])
      | join =>
          by_cases hlive : (s.threads.slots who).isLive = true
          · obtain ⟨id, threads, hexit⟩ := exits hlive (hinv.owned.asked who rest hcaller)
            refine ⟨.threads (.threadExits who id), { s with threads := threads }, rfl, ?_⟩
            simp [RuntimeLifetime.step, hgoes, RuntimeLifetime.threadsStep, hbody, hexit]
          · exact hlift (by simp [RunnerThreads.callerStep, hcaller, hlive])

theorem goesOn
    (hinv : LifetimeInvariant s) (halive : s.destructor ≠ .alive) (hdone : s.destructor ≠ .done)
    (hgoes : s.terminated = false) :
    ∃ label next, label.continues = true ∧ s.step label = some next := by
  have hlift : s.destructorStep.isSome = true →
      ∃ label next, label.continues = true ∧ s.step label = some next := by
    intro hsome
    obtain ⟨next, hstep⟩ := Option.isSome_iff_exists.mp hsome
    exact ⟨.destructor, next, rfl, by simp [RuntimeLifetime.step, hgoes, hstep]⟩
  cases hinv.phase with
  | alive hpoint => exact absurd hpoint halive
  | done hpoint => exact absurd hpoint hdone
  | body hpoint horder hnone hcaller =>
      rcases hcaller with hend | ⟨rest, point, hstop⟩ | ⟨hidle, -⟩
      · simp [hgoes] at hend
      · exact hinv.stop_goesOn hpoint hgoes hstop
      · exact hlift (by simp [RuntimeLifetime.destructorStep, hpoint, hidle])
  | @members order rest point hpoint _ _ _ _ hasked _ =>
      cases rest with
      | nil => exact hlift (by simp [RuntimeLifetime.destructorStep, hpoint])
      | cons who rest =>
          cases point with
          | request | shutdown => exact hlift (by simp [RuntimeLifetime.destructorStep, hpoint])
          | join =>
              by_cases hlive : (s.threads.slots who).isLive = true
              · obtain ⟨id, threads, hexit⟩ := exits hlive (hasked rfl who (by simp))
                refine ⟨.threads (.threadExits who id), { s with threads := threads }, rfl, ?_⟩
                simp [RuntimeLifetime.step, hgoes, RuntimeLifetime.threadsStep, hpoint, hexit]
              · exact hlift (by simp [RuntimeLifetime.destructorStep, hpoint, hlive])

theorem destroysSafely (hinv : LifetimeInvariant s) : DestroysSafely s where
  joined := fun _ => hinv.joined
  dispatcher := fun _ => hinv.dispatcher
  once := hinv.once
  all := hinv.all
  goesOn := hinv.goesOn

end LifetimeInvariant

/-- For every number of workers and every run in which `start`s and `stop`s have
failed or not: a runtime which is destroyed joins the threads of a scheduler
before it destroys the scheduler, destroys each once and never waits in vain. -/
theorem destruction_joins_threads
    {history : List (RuntimeLifetime k × LifetimeLabel k)} {final : RuntimeLifetime k}
    (hrun : Run RuntimeLifetime.step ({} : RuntimeLifetime k) history final) :
    DestroysSafely final := by
  have hinv : LifetimeInvariant final :=
    hrun.invariant LifetimeInvariant .initial fun _ _ _ => LifetimeInvariant.step
  exact hinv.destroysSafely

/-- The dispatcher's thread cannot be created, so the worker's runner is alive in
a runtime which is `Idle`; the destructor asks it to stop and waits for it. -/
def destroyedAfterFailure : List (LifetimeLabel 1) :=
  [.threads .callStart, .threads .caller, .threads .caller, .threads .creationFails,
    .callDestructor [⟨0, Nat.zero_lt_one⟩], .destructor,
    .threads (.threadExits (some ⟨0, Nat.zero_lt_one⟩) 0), .destructor, .destructor, .destructor,
    .destructor, .destructor, .destructor]

theorem destruction_joins_threads_afterFailure :
    ∃ history final, Run RuntimeLifetime.step ({} : RuntimeLifetime 1) history final ∧
      final.destroyed = [none, some 0] ∧ DestroysSafely final := by
  have hreplay : (replay RuntimeLifetime.step (fun _ _ => true) ({} : RuntimeLifetime 1)
      destroyedAfterFailure).any (fun s => s.destroyed == [none, some 0]) = true := by
    decide +kernel
  obtain ⟨history, final, hrun, -, hcheck⟩ := exists_run_of_replay hreplay
  exact ⟨history, final, hrun, beq_iff_eq.mp hcheck, destruction_joins_threads hrun⟩

end SlimCommonIo
