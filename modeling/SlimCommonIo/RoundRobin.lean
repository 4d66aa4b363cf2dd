import Mathlib.Data.Int.CardIntervalMod
import Mathlib.Data.List.Basic
import Mathlib.Tactic.Common

/-!
# Choosing by a counter which wraps

A counter runs through the numbers below its period, over and over, and is
reduced modulo the number of candidates.  As long as the counter has not
wrapped, or wraps where a turn ends, the candidates take turns.
-/

namespace RoundRobin

variable {k : ℕ}

/-- The candidates take turns, and at no time has one been chosen two times
more often than another. -/
structure Cyclic (chosen : List (Fin k)) : Prop where
  consecutive : ∀ j (hj : j + 1 < chosen.length),
    (chosen[j + 1] : ℕ) = ((chosen[j] : ℕ) + 1) % k
  balanced : ∀ m ≤ chosen.length, ∀ a b : Fin k,
    (chosen.take m).count a ≤ (chosen.take m).count b + 1

/-- The choices of a counter which wraps at its period. -/
def CountedBy (period : ℕ) (chosen : List (Fin k)) : Prop :=
  ∀ j (hj : j < chosen.length), (chosen[j] : ℕ) = j % period % k

namespace CountedBy

variable {period : ℕ} {chosen : List (Fin k)}

theorem nil : CountedBy period ([] : List (Fin k)) := by
  intro j hj
  exact absurd hj (Nat.not_lt_zero j)

theorem concat
    (hcounted : CountedBy period chosen) {choice : Fin k}
    (hchoice : (choice : ℕ) = chosen.length % period % k) :
    CountedBy period (chosen ++ [choice]) := by
  intro j hj
  rw [List.length_append, List.length_singleton] at hj
  by_cases hold : j < chosen.length
  · rw [List.getElem_append_left hold]
    exact hcounted j hold
  · have hlast : j = chosen.length := by omega
    subst hlast
    rw [List.getElem_append_right le_rfl]
    simpa using hchoice

theorem turns
    (hcounted : CountedBy period chosen) (hunnoticed : k ∣ period ∨ chosen.length ≤ period)
    (j : ℕ) (hj : j < chosen.length) : (chosen[j] : ℕ) = j % k := by
  rw [hcounted j hj]
  rcases hunnoticed with hdvd | hle
  · exact Nat.mod_mod_of_dvd j hdvd
  · rw [Nat.mod_eq_of_lt (Nat.lt_of_lt_of_le hj hle)]

end CountedBy

theorem count_take_of_turns
    {chosen : List (Fin k)} (hturns : ∀ j (hj : j < chosen.length), (chosen[j] : ℕ) = j % k)
    (candidate : Fin k) {m : ℕ} (hm : m ≤ chosen.length) :
    (chosen.take m).count candidate = m.count (· ≡ candidate [MOD k]) := by
  induction m with
  | zero => simp
  | succ m ih =>
      have hlt : m < chosen.length := hm
      have hturn : (chosen[m] = candidate) ↔ m ≡ candidate [MOD k] := by
        rw [← Fin.val_inj, hturns m hlt, Nat.ModEq, Nat.mod_eq_of_lt candidate.isLt]
      rw [List.take_succ_eq_append_getElem hlt, List.count_append, ih (by omega),
        List.count_singleton, Nat.count_succ]
      simp [hturn]

theorem cyclic_of_turns
    {chosen : List (Fin k)} (hturns : ∀ j (hj : j < chosen.length), (chosen[j] : ℕ) = j % k) :
    Cyclic chosen := by
  constructor
  · intro j hj
    rw [hturns (j + 1) hj, hturns j (by omega), Nat.mod_add_mod]
  · intro m hm a b
    have hpos : 0 < k := Fin.pos a
    rw [count_take_of_turns hturns a hm, count_take_of_turns hturns b hm,
      Nat.count_modEq_card _ hpos, Nat.count_modEq_card _ hpos]
    split <;> split <;> omega

/-- The candidates take turns exactly when the counter has not wrapped, or
wraps where a turn ends. -/
theorem CountedBy.cyclic_iff
    {period : ℕ} {chosen : List (Fin k)} (hperiod : 0 < period)
    (hcounted : CountedBy period chosen) :
    Cyclic chosen ↔ k ∣ period ∨ chosen.length ≤ period := by
  constructor
  · intro hcyclic
    by_contra hwrapped
    rw [not_or, Nat.not_le] at hwrapped
    obtain ⟨hdvd, hlt⟩ := hwrapped
    have hlast : period - 1 + 1 < chosen.length := by omega
    -- the last choice before the wrap and the first one after it
    have hnext := hcyclic.consecutive (period - 1) hlast
    rw [hcounted _ hlast, hcounted _ (by omega), Nat.sub_add_cancel hperiod, Nat.mod_self,
      Nat.zero_mod, Nat.mod_eq_of_lt (Nat.sub_lt hperiod Nat.one_pos), Nat.mod_add_mod,
      Nat.sub_add_cancel hperiod] at hnext
    exact hdvd (Nat.dvd_of_mod_eq_zero hnext.symm)
  · intro hunnoticed
    exact cyclic_of_turns (hcounted.turns hunnoticed)

end RoundRobin
