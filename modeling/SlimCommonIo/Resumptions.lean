import Mathlib.Data.List.Basic

/-!
# Resumptions

A resumption is a direct-style program: it takes visible steps, asks requests
whose answers decide how it goes on, and ends with a result.  It is the meaning
against which a scheduler of suspended computations is compared.  Sequencing
replaces the end of one program by another one.
-/

/-- Finite programs with steps in `σ`, requests in `q` answered in `a`, and
results in `r`. -/
inductive Resumption (σ q a r : Type*)
  | step (visible : σ) (next : Resumption σ q a r)
  | ask (request : q) (next : a → Resumption σ q a r)
  | ended (result : r)

/-- What an observer sees of a program. -/
inductive Observation (σ q a : Type*)
  | did (visible : σ)
  | asked (request : q)
  | answered (answer : a)

namespace Resumption

variable {σ q a r r' : Type*}

/-- Run the first program and go on with the second one from its result. -/
def bind : Resumption σ q a r → (r → Resumption σ q a r') → Resumption σ q a r'
  | .step visible next, rest => .step visible (next.bind rest)
  | .ask request next, rest => .ask request fun answer => (next answer).bind rest
  | .ended result, rest => rest result

/-- Execute a program with these answers, as far as they reach: what is seen,
and the program that is left. -/
def observe : Resumption σ q a r → List a →
    List (Observation σ q a) × Resumption σ q a r
  | .step visible next, answers =>
      (.did visible :: (next.observe answers).1, (next.observe answers).2)
  | .ask request next, [] => ([.asked request], .ask request next)
  | .ask request next, answer :: answers =>
      (.asked request :: .answered answer :: ((next answer).observe answers).1,
        ((next answer).observe answers).2)
  | .ended result, _ => ([], .ended result)

def isEnded : Resumption σ q a r → Bool
  | .ended _ => true
  | _ => false

theorem observe_nil_cases (program : Resumption σ q a r) :
    (∃ request next, (program.observe []).2 = .ask request next) ∨
      ∃ result, (program.observe []).2 = .ended result := by
  induction program with
  | step visible next ih => exact ih
  | ask request next _ => exact .inl ⟨request, next, rfl⟩
  | ended result => exact .inr ⟨result, rfl⟩

theorem observe_cons_of_ask
    {program : Resumption σ q a r} {request : q} {next : a → Resumption σ q a r}
    (hstop : (program.observe []).2 = .ask request next) (answer : a) (answers : List a) :
    program.observe (answer :: answers) =
      ((program.observe []).1 ++ .answered answer :: ((next answer).observe answers).1,
        ((next answer).observe answers).2) := by
  induction program with
  | step visible inner ih =>
      simp only [observe] at hstop ⊢
      rw [ih hstop]
      simp
  | ask other inner _ =>
      simp only [observe, ask.injEq] at hstop
      obtain ⟨rfl, rfl⟩ := hstop
      simp [observe]
  | ended result => simp [observe] at hstop

/-- A program at its end takes no more answers. -/
theorem observe_of_ended
    {program : Resumption σ q a r} {result : r}
    (hstop : (program.observe []).2 = .ended result) (answers : List a) :
    program.observe answers = program.observe [] := by
  induction program with
  | step visible inner ih =>
      simp only [observe] at hstop ⊢
      rw [ih hstop]
  | ask request next _ => simp [observe] at hstop
  | ended result => simp [observe]

end Resumption
