import SlimCommonIo.DispatchRuns
import SlimCommonIo.RoundRobin

/-!
# Which worker gets a job

`Runtime::post` chooses by a counter of 64 bits, reduced modulo the number of
workers.  The sequence of choices is that of a small machine of its own, which
every run of the runtime follows; it takes turns until the counter wraps, and
afterwards if the number of workers divides `2^64`.
-/

namespace SlimCommonIo

variable {Q : Program} {k : ℕ}

open RoundRobin

/-- `next_worker_` and the workers chosen so far. -/
structure Selection (k : ℕ) where
  nextWorker : UInt64 := 0
  chosen : List (Fin k) := []
  deriving DecidableEq, Repr

namespace Selection

/-- `next_worker_.fetch_add(1) % workers_.size()`, undefined for no workers. -/
def dispatch (s : Selection k) : Option (Selection k) :=
  if hworkers : 0 < k then
    some
      { nextWorker := s.nextWorker + 1
        chosen := s.chosen ++ [⟨s.nextWorker.toNat % k, Nat.mod_lt _ hworkers⟩] }
  else none

/-- The choices for the first `n` jobs. -/
def dispatchMany (k : ℕ) : ℕ → Option (Selection k)
  | 0 => some {}
  | n + 1 => (dispatchMany k n).bind dispatch

/-- The counter is the number of choices, as far as 64 bits go. -/
structure Counted (s : Selection k) : Prop where
  counter : s.nextWorker.toNat = s.chosen.length % 2 ^ 64
  chosen : CountedBy (2 ^ 64) s.chosen

theorem Counted.dispatch
    {s next : Selection k} (hcounted : s.Counted) (hdispatch : s.dispatch = some next) :
    next.Counted ∧ next.chosen.length = s.chosen.length + 1 := by
  unfold Selection.dispatch at hdispatch
  split at hdispatch
  next hworkers =>
    rw [Option.some.injEq] at hdispatch
    subst hdispatch
    have hone : (1 : UInt64).toNat = 1 := rfl
    have hcounter : (s.nextWorker + 1).toNat = (s.chosen.length + 1) % 2 ^ 64 := by
      rw [UInt64.toNat_add, hone, hcounted.counter, Nat.mod_add_mod]
    refine ⟨⟨?_, hcounted.chosen.concat ?_⟩, by simp⟩
    · rw [hcounter, List.length_append, List.length_singleton]
    · exact congrArg (· % k) hcounted.counter
  next => simp at hdispatch

theorem counted_of_dispatchMany
    {n : ℕ} {s : Selection k} (hmany : dispatchMany k n = some s) :
    s.Counted ∧ s.chosen.length = n := by
  induction n generalizing s with
  | zero =>
      rw [dispatchMany, Option.some.injEq] at hmany
      subst hmany
      exact ⟨⟨rfl, .nil⟩, rfl⟩
  | succ n ih =>
      obtain ⟨before, hbefore, hdispatch⟩ := Option.bind_eq_some_iff.mp hmany
      obtain ⟨hcounted, hlength⟩ := ih hbefore
      obtain ⟨hnext, hmore⟩ := hcounted.dispatch hdispatch
      exact ⟨hnext, by rw [hmore, hlength]⟩

theorem dispatchMany_isSome (hworkers : 0 < k) (n : ℕ) : ∃ s, dispatchMany k n = some s := by
  induction n with
  | zero => exact ⟨_, rfl⟩
  | succ n ih =>
      obtain ⟨s, hs⟩ := ih
      exact ⟨_, by rw [dispatchMany, hs, Option.bind_some, dispatch, dif_pos hworkers]⟩

theorem dispatchMany_noWorkers (n : ℕ) : dispatchMany 0 (n + 1) = none := by
  rw [dispatchMany]
  cases dispatchMany 0 n with
  | none => rfl
  | some s => rfl

end Selection

/-- Each of `n` dispatches chooses a worker, and the workers take turns. -/
def SelectsCyclically (k n : ℕ) : Prop :=
  ∃ s, Selection.dispatchMany k n = some s ∧ Cyclic s.chosen

theorem selectsCyclically_iff_of_pos (hworkers : 0 < k) (n : ℕ) :
    SelectsCyclically k n ↔ k ∣ 2 ^ 64 ∨ n ≤ 2 ^ 64 := by
  obtain ⟨s, hs⟩ := Selection.dispatchMany_isSome hworkers n
  obtain ⟨hcounted, hlength⟩ := Selection.counted_of_dispatchMany hs
  have hcyclic := hcounted.chosen.cyclic_iff (Nat.two_pow_pos 64)
  rw [hlength] at hcyclic
  rw [← hcyclic]
  constructor
  · rintro ⟨s', hs', hturns⟩
    rw [hs, Option.some.injEq] at hs'
    exact hs' ▸ hturns
  · intro hturns
    exact ⟨s, hs, hturns⟩

theorem selectsCyclically_noWorkers_iff (n : ℕ) : SelectsCyclically 0 n ↔ n = 0 := by
  cases n with
  | zero => exact iff_of_true ⟨_, rfl, cyclic_of_turns (by simp)⟩ rfl
  | succ n =>
      refine iff_of_false ?_ (Nat.succ_ne_zero n)
      rintro ⟨s, hs, -⟩
      rw [Selection.dispatchMany_noWorkers] at hs
      cases hs

/-! ## Runs of the runtime -/

def DispatchPhase.choice : DispatchPhase k → Option (Fin k)
  | .chosen worker => some worker
  | _ => none

namespace Runtime

/-- The choices of a runtime: the jobs sent, and the one being sent. -/
def selection (r : Runtime Q k) : Selection k where
  nextWorker := r.nextWorker
  chosen := r.sent.map Prod.fst ++ r.phase.choice.toList

theorem SameDispatch.selection
    {r next : Runtime Q k} (hsame : SameDispatch r next) : next.selection = r.selection := by
  rw [Runtime.selection, Runtime.selection, hsame.nextWorker, hsame.sent, hsame.phase]

theorem DispatchStep.selection
    {r next : Runtime Q k} {label : RuntimeLabel Q k} (hstep : DispatchStep r label next) :
    next.selection = r.selection ∨ r.selection.dispatch = some next.selection := by
  cases hstep with
  | control _ hsame | moves _ _ _ _ _ _ hsame => exact .inl hsame.selection
  | returns _ _ _ hphase hfresh hcounter hsent =>
      left
      rw [Runtime.selection, Runtime.selection, hcounter, hsent, hphase, hfresh]
      rfl
  | chooses hworkers _ _ hphase hchosen hcounter hsent =>
      right
      rw [Selection.dispatch, dif_pos hworkers, Option.some.injEq, Runtime.selection,
        Runtime.selection, hcounter, hsent, hphase, hchosen]
      simp [DispatchPhase.choice]
  | pushes _ _ worker _ _ hphase hpushed hcounter hsent =>
      left
      obtain ⟨id, hpushed⟩ := hpushed
      rw [Runtime.selection, Runtime.selection, hcounter, hsent, hphase, hpushed]
      simp [DispatchPhase.choice]
  | writes _ _ _ _ hphase hwritten hcounter hsent =>
      left
      rw [Runtime.selection, Runtime.selection, hcounter, hsent, hphase, hwritten]
      rfl

@[simp] theorem setNode_crash (r : Runtime Q k) (who : NodeId k) (node : Node Q) :
    (r.setNode who node).crash = r.crash := by
  cases who <;> rfl

theorem crash_of_step
    {r next : Runtime Q k} {label : RuntimeLabel Q k} (hstep : r.step label = some next) :
    r.crash = none := by
  by_contra hcrash
  have hsome : r.crash.isSome = true := Option.isSome_iff_ne_none.mpr hcrash
  simp [Runtime.step, hsome] at hstep

theorem Move.undefined_iff
    {r next : Runtime Q k} {label : RuntimeLabel Q k} (hmove : Move r label next)
    (hcrash : r.crash = none) :
    next.crash = some .undefined ↔ k = 0 ∧ label = .dispatch := by
  cases hmove with
  | noWorkers _ _ hworkers => exact iff_of_true rfl ⟨hworkers, rfl⟩
  | chooses _ _ hworkers => simp [hcrash, hworkers.ne']
  | @pushes _ _ worker _ _ _ _ | @writes _ _ worker _ _ _ _ _ =>
      have hworkers := Fin.pos worker
      simp [setScheduler, hcrash, hworkers.ne']
  | callIgnored hlabel => rcases hlabel with ⟨rfl, -⟩ | ⟨rfl, -⟩ <;> simp [hcrash]
  | _ => simp [setScheduler, setThread, hcrash]

end Runtime

open Transition

/-- Every run makes the choices of the selection machine. -/
theorem dispatchMany_of_run
    {dispatcherIo : IoState} {workerIo : Fin k → IoState} {fd : NodeId k → Int32}
    {addr : NodeId k → UInt64} {history : List (Runtime Q k × RuntimeLabel Q k)}
    {final : Runtime Q k}
    (hrun : Run Runtime.step (Runtime.initial Q dispatcherIo workerIo fd addr) history final) :
    ∃ n, Selection.dispatchMany k n = some final.selection := by
  refine hrun.invariant (fun r => ∃ n, Selection.dispatchMany k n = some r.selection) ?_ ?_
  · exact ⟨0, rfl⟩
  · rintro r label next ⟨n, hmany⟩ hstep
    rcases (Runtime.move_of_step hstep).dispatchStep.selection with hsame | hdispatch
    · exact ⟨n, by rw [hsame, hmany]⟩
    · exact ⟨n + 1, by rw [Selection.dispatchMany, hmany, Option.bind_some, hdispatch]⟩

theorem cyclic_iff_of_run
    {dispatcherIo : IoState} {workerIo : Fin k → IoState} {fd : NodeId k → Int32}
    {addr : NodeId k → UInt64} {history : List (Runtime Q k × RuntimeLabel Q k)}
    {final : Runtime Q k}
    (hrun : Run Runtime.step (Runtime.initial Q dispatcherIo workerIo fd addr) history final) :
    Cyclic final.selection.chosen ↔
      k ∣ 2 ^ 64 ∨ final.selection.chosen.length ≤ 2 ^ 64 := by
  obtain ⟨n, hmany⟩ := dispatchMany_of_run hrun
  have hcounted := (Selection.counted_of_dispatchMany hmany).1
  exact hcounted.chosen.cyclic_iff (Nat.two_pow_pos 64)

theorem undefined_iff_of_run
    {dispatcherIo : IoState} {workerIo : Fin k → IoState} {fd : NodeId k → Int32}
    {addr : NodeId k → UInt64} {history : List (Runtime Q k × RuntimeLabel Q k)}
    {final : Runtime Q k}
    (hrun : Run Runtime.step (Runtime.initial Q dispatcherIo workerIo fd addr) history final) :
    final.crash = some .undefined ↔ k = 0 ∧ ∃ visit ∈ history, visit.2 = .dispatch := by
  induction hrun with
  | nil => simp [Runtime.initial]
  | @snoc history state next label _ hstep ih =>
      have hcrash := Runtime.crash_of_step hstep
      rw [(Runtime.move_of_step hstep).undefined_iff hcrash]
      rw [hcrash] at ih
      constructor
      · rintro ⟨hworkers, hlabel⟩
        exact ⟨hworkers, (state, label), by simp, hlabel⟩
      · rintro ⟨hworkers, visit, hvisit, hlabel⟩
        rcases List.mem_append.mp hvisit with hbefore | hlast
        · exact absurd (ih.mpr ⟨hworkers, visit, hbefore, hlabel⟩) (by simp)
        · rw [List.mem_singleton.mp hlast] at hlabel
          exact ⟨hworkers, hlabel⟩

/-- Any number of dispatches are defined and take turns exactly when there are
workers, whose number divides `2^64` if more than `2^64` jobs are dispatched;
and so it is in every run of the runtime. -/
theorem worker_selection_cyclic_iff (Q : Program) (k : ℕ) :
    (∀ n, SelectsCyclically k n ↔ n = 0 ∨ 0 < k ∧ (k ∣ 2 ^ 64 ∨ n ≤ 2 ^ 64)) ∧
    ∀ (dispatcherIo : IoState) (workerIo : Fin k → IoState) (fd : NodeId k → Int32)
      (addr : NodeId k → UInt64) (history : List (Runtime Q k × RuntimeLabel Q k))
      (final : Runtime Q k),
      Run Runtime.step (Runtime.initial Q dispatcherIo workerIo fd addr) history final →
      (final.crash ≠ some .undefined ∧ Cyclic final.selection.chosen ↔
        (0 < k ∨ ∀ visit ∈ history, visit.2 ≠ .dispatch) ∧
          (k ∣ 2 ^ 64 ∨ final.selection.chosen.length ≤ 2 ^ 64)) := by
  constructor
  · intro n
    rcases Nat.eq_zero_or_pos k with rfl | hworkers
    · rw [selectsCyclically_noWorkers_iff]
      exact ⟨.inl, fun hor => hor.resolve_right fun hpos => Nat.lt_irrefl 0 hpos.1⟩
    · rw [selectsCyclically_iff_of_pos hworkers]
      constructor
      · intro hunnoticed
        exact .inr ⟨hworkers, hunnoticed⟩
      · rintro (rfl | ⟨-, hunnoticed⟩)
        · exact .inr (Nat.zero_le _)
        · exact hunnoticed
  · intro dispatcherIo workerIo fd addr history final hrun
    have hdefined : final.crash ≠ some .undefined ↔
        0 < k ∨ ∀ visit ∈ history, visit.2 ≠ .dispatch := by
      rw [Ne, undefined_iff_of_run hrun, not_and_or, Nat.pos_iff_ne_zero, not_exists]
      simp only [not_and, ne_eq]
    rw [hdefined, cyclic_iff_of_run hrun]

theorem worker_selection_threeJobs :
    ∃ history final, Run Runtime.step (smallRuntime 2) history final ∧
      final.crash ≠ some .undefined ∧ Cyclic final.selection.chosen ∧
      final.selection.chosen = [0, 1] := by
  have hreplay : (replay Runtime.step (fun _ _ => true) (smallRuntime 2) threeJobs).any
      (fun r => decide (r.selection.chosen = [0, 1])) = true := by decide +kernel
  obtain ⟨history, final, hrun, -, hcheck⟩ := exists_run_of_replay hreplay
  obtain ⟨hdefined, hcyclic⟩ :=
    ((worker_selection_cyclic_iff awaitScript 2).2 _ _ _ _ history final hrun).mpr
      ⟨.inl (by decide), .inl (by decide)⟩
  exact ⟨history, final, hrun, hdefined, hcyclic, of_decide_eq_true hcheck⟩

/-- A job is posted to a runtime without workers. -/
def jobWithoutWorkers : List (RuntimeLabel awaitScript 0) :=
  [.callStart, .caller, .caller, .post fun _ => .returned, .posted 0] ++
  nodeWakes none ++ nodeRuns none 5 ++ [.dispatch]

/-- When the counter wraps, the first of three workers is chosen twice in a row;
a runtime without workers divides by zero at its first job. -/
theorem three_workers_out_of_turn :
    ¬ SelectsCyclically 3 (2 ^ 64 + 1) ∧ ¬ SelectsCyclically 0 1 ∧
    (∃ history final, Run Runtime.step (smallRuntime 3) history final ∧
      final.sent.length = 2 ^ 64 + 1 ∧ ¬ Cyclic final.selection.chosen) ∧
    ∃ history final, Run Runtime.step (smallRuntime 0) history final ∧
      final.crash = some .undefined := by
  have hnever : ¬ (3 ∣ 2 ^ 64 ∨ 2 ^ 64 + 1 ≤ 2 ^ 64) := by decide
  refine ⟨?_, ?_, ?_, ?_⟩
  · rw [selectsCyclically_iff_of_pos (by decide)]
    exact hnever
  · rw [selectsCyclically_noWorkers_iff]
    exact Nat.one_ne_zero
  · obtain ⟨history, final, hrun, -, hfresh, hsent⟩ :=
      exists_run_dispatching (k := 3) (by decide) (2 ^ 64 + 1)
    have hchosen : final.selection.chosen.length = 2 ^ 64 + 1 := by
      simp [Runtime.selection, DispatchPhase.choice, hfresh, hsent]
    refine ⟨history, final, hrun, hsent, ?_⟩
    rw [cyclic_iff_of_run hrun, hchosen]
    exact hnever
  · have hreplay : (replay Runtime.step (fun _ _ => true) (smallRuntime 0)
        jobWithoutWorkers).any (fun r => decide (r.crash = some .undefined)) = true := by
      decide +kernel
    obtain ⟨history, final, hrun, -, hcheck⟩ := exists_run_of_replay hreplay
    exact ⟨history, final, hrun, of_decide_eq_true hcheck⟩

end SlimCommonIo
