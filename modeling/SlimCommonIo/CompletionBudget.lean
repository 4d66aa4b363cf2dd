import SlimCommonIo.CompletionRing

/-!
# The completion ring and the operations it owes

`has_capacity` and `spawn` compare the entries not yet submitted with the
submission ring.  What the completion ring has to hold is more: one completion
for every entry pending or in flight, besides the ones not yet reaped.  A run
stays within the completion ring exactly when every publication finds room
there.
-/

namespace SlimCommonIo

variable {P : Program}

namespace Scheduler

/-- The number of entries the driving thread publishes in its next step. -/
def publishes (s : Scheduler P) (label : Label P) : ℕ :=
  match label with
  | .runner _ =>
      match s.awaitedNow with
      | some awt => if s.io.sq.hasCapacity awt.needed then awt.needed.toNat else 0
      | none => if s.aboutToArm then 1 else 0
  | _ => 0

theorem CallsSpawn.publishes
    {s : Scheduler P} {label : Label P} {body : P.Code}
    {below : List (Activation P)} (hcall : CallsSpawn s label body below) :
    s.publishes label = 0 := by
  cases hcall with
  | job hstack _ => simp [Scheduler.publishes, awaitedNow, aboutToArm, hstack]
  | coroutine hstack hframe hcode =>
      simp [Scheduler.publishes, awaitedNow, aboutToArm, hstack, hframe, hcode]
  | client _ _ => rfl

theorem Ends.publishes
    {s : Scheduler P} {id : FrameId} {frame : Frame P}
    {rest : List (Activation P)} {outcome : P.Outcome}
    (hends : Ends s id frame rest outcome) (allocated : Bool) :
    s.publishes (.runner allocated) = 0 := by
  cases hends with
  | value hstack hframe hcode | exception hstack hframe hcode =>
      simp [Scheduler.publishes, awaitedNow, aboutToArm, hstack, hframe, hcode]

end Scheduler

open Scheduler Transition

end SlimCommonIo
