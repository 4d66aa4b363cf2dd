import SlimCommonIo.CompletionHandling
import SlimCommonIo.SubmissionSafety
import SlimCommonIo.TaskLifetimes
import SlimCommonIo.Wakeup

/-!
# What a destroyed scheduler leaves in the ring

The destructor drains until `tasks_` is empty and closes the eventfd.  The eventfd
read is not cancelled: whether one is left over depends on whether the last drain
has taken its completion.
-/

namespace SlimCommonIo

open Transition
open scoped List

variable {P : Program}

/-! ## Counting the eventfd reads -/

def Ref.isSentinel (ref : Ref) : Bool :=
  decide (ref.userData = .eventfdBuf)

namespace Scheduler

def closesNow (s : Scheduler P) (label : Label P) : Bool :=
  !s.closed && (s.step label).any fun next => next.closed

theorem Move.closed_cases
    {s next : Scheduler P} {label : Label P} (hmove : Move s label next) :
    next.closed = s.closed ∨ next.closed = true ∧ next.eventfdArmed = s.eventfdArmed := by
  cases hmove with
  | destructor _ | callDestroy _ _ _ => exact .inr ⟨rfl, rfl⟩
  | _ => exact .inl rfl

theorem armed_of_closed
    {s next : Scheduler P} {label : Label P} (hmove : Move s label next)
    (hwell : WellStacked s.stack) (hempty : s.stack = []) :
    next.eventfdArmed = s.eventfdArmed := by
  cases hmove.ringStep hwell with
  | arm _ _ _ _ _ hbefore _ | handle _ _ _ _ _ _ hbefore _ =>
      simp [hempty, drainPoints] at hbefore
  | same _ harm _ | begin _ harm _ _ _ | ready _ harm _ _ _ | wake _ harm _ _
  | scan _ harm _ _ | endLoop _ _ harm _ _ | stage _ _ _ _ _ _ _ _ harm _
  | enter _ _ _ _ _ harm _ _ | complete _ _ _ _ _ _ harm _ | skip _ _ _ _ _ harm _ _
  | advance _ _ _ harm _ _ | escape _ _ _ harm _ _ => exact harm

end Scheduler

/-- A piece of history has seen the destructor return exactly if the scheduler is
destroyed, and the armed flag has not changed since. -/
structure ClosedOnce (history : List (Scheduler P × Label P)) (s : Scheduler P) : Prop where
  seen : s.closed = true → ∃ visit ∈ history, visit.1.closesNow visit.2 = true
  armed : ∀ visit ∈ history, visit.1.closesNow visit.2 = true →
    s.closed = true ∧ visit.1.eventfdArmed = s.eventfdArmed

theorem ClosedOnce.step
    {history : List (Scheduler P × Label P)} {s next : Scheduler P} {label : Label P}
    (honce : ClosedOnce history s) (hclosing : Closing s) (hwell : WellStacked s.stack)
    (hstep : s.step label = some next) : ClosedOnce (history ++ [(s, label)]) next := by
  have hmove := (Scheduler.move_of_step hstep).2
  have hnow : s.closesNow label = (!s.closed && next.closed) := by
    simp [Scheduler.closesNow, hstep]
  constructor
  · intro hclosed
    cases hbefore : s.closed with
    | true =>
        obtain ⟨visit, hvisit, hcloses⟩ := honce.seen hbefore
        exact ⟨visit, List.mem_append_left _ hvisit, hcloses⟩
    | false => exact ⟨(s, label), by simp, by simp [hnow, hbefore, hclosed]⟩
  · intro visit hvisit hcloses
    rcases List.mem_append.mp hvisit with hold | hnew
    · obtain ⟨hclosed, harmed⟩ := honce.armed visit hold hcloses
      have hkept := Scheduler.armed_of_closed hmove hwell (hclosing.closed hclosed).1
      refine ⟨?_, harmed.trans hkept.symm⟩
      rcases hmove.closed_cases with hsame | ⟨hnext, -⟩
      · rw [hsame, hclosed]
      · exact hnext
    · rw [List.mem_singleton.mp hnew] at hcloses ⊢
      rw [hnow] at hcloses
      simp only [Bool.and_eq_true, Bool.not_eq_true'] at hcloses
      rcases hmove.closed_cases with hsame | ⟨hnext, harm⟩
      · simp [hsame, hcloses.1] at hcloses
      · exact ⟨hnext, harm.symm⟩

/-- What is known about the eventfd read along a run. -/
structure TeardownInvariant (history : List (Scheduler P × Label P)) (s : Scheduler P) :
    Prop where
  frames : FrameInvariant s
  closing : Closing s
  sentinel : SentinelInvariant s
  once : ClosedOnce history s

theorem TeardownInvariant.of_run
    {io : IoState} (hfresh : io.Fresh) {fd : Int32} {addr : UInt64}
    {history : List (Scheduler P × Label P)} {s : Scheduler P}
    (hrun : Run Scheduler.step (Scheduler.initial P io fd addr) history s) :
    TeardownInvariant history s := by
  induction hrun with
  | nil =>
      refine ⟨.initial hfresh fd addr, ⟨?_, ?_⟩, .initial hfresh fd addr, ⟨?_, ?_⟩⟩
      all_goals simp [Scheduler.initial]
  | snoc _ hstep ih =>
      have hwell := ih.frames.ring.wellStacked
      have hmove := (Scheduler.move_of_step hstep).2
      exact ⟨ih.frames.of_step hstep, ih.closing.step hwell hmove,
        ih.sentinel.step ih.frames.ring hmove, ih.once.step ih.closing hwell hstep⟩

end SlimCommonIo
