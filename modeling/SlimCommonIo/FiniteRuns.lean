import Mathlib.Algebra.BigOperators.Group.Finset.Basic
import Mathlib.Data.DFinsupp.WellFounded
import Mathlib.Data.Prod.Lex
import Mathlib.Logic.Function.Iterate
import Mathlib.Logic.Hydra
import Mathlib.Order.WellFounded
import Mathlib.SetTheory.Cardinal.Order

/-!
# Systems which use up their work

A step may be due to an event which happened before, it may replace a piece of
work by pieces which follow it, or it only moves towards a place where nothing
is left to do.  If no piece of work can be followed for ever, such a system goes
through finitely many steps, although no bound on their number need exist.
-/

namespace Transition

open Relation

variable {α β γ σ : Type*}

/-! ## Work -/

/-- Pieces of `more` have been replaced, each by finitely many which follow it. -/
def Spends (follows : α → α → Prop) : Multiset α → Multiset α → Prop :=
  TransGen (CutExpand (TransGen follows))

/-- No work has been added to `more` except what follows it. -/
def Keeps (follows : α → α → Prop) : Multiset α → Multiset α → Prop :=
  ReflTransGen (CutExpand (TransGen follows))

variable {follows : α → α → Prop}

theorem Spends.wellFounded (hfollows : WellFounded follows) : WellFounded (Spends follows) :=
  hfollows.transGen.cutExpand.transGen

theorem Keeps.of_le {less more : Multiset α} (hle : less ≤ more) : Keeps follows less more := by
  obtain ⟨dropped, rfl⟩ := Multiset.le_iff_exists_add.mp hle
  induction dropped using Multiset.induction with
  | empty =>
      rw [add_zero]
      exact .refl
  | cons item dropped ih =>
      refine (ih (Multiset.le_add_right _ _)).tail ?_
      refine ⟨0, item, by simp, ?_⟩
      rw [add_zero, add_assoc, add_comm dropped, Multiset.singleton_add]

/-- One piece is replaced by pieces which follow it, and others may be dropped. -/
theorem Spends.replace
    {less more : Multiset α} (items rest : Multiset α) (item : α)
    (hless : less ≤ items + rest) (hmore : {item} + rest ≤ more)
    (hitems : ∀ next ∈ items, TransGen follows next item) : Spends follows less more := by
  have hcut : CutExpand (TransGen follows) (items + rest) ({item} + rest) :=
    (cutExpand_add_right rest).mpr (cutExpand_singleton hitems)
  have hafter : ReflTransGen (CutExpand (TransGen follows)) less ({item} + rest) :=
    (Keeps.of_le hless).tail hcut
  have hbefore : ReflTransGen (CutExpand (TransGen follows)) ({item} + rest) more :=
    Keeps.of_le hmore
  rcases reflTransGen_iff_eq_or_transGen.mp hbefore with heq | hrest
  · rw [heq]
    exact TransGen.tail' (Keeps.of_le hless) hcut
  · exact (TransGen.tail' (Keeps.of_le hless) hcut).trans hrest

/-! ## Effort -/

/-- What a state still has to go through: events which are due, work, and its
place among the states which have the same of both. -/
structure Effort (α β γ : Type*) where
  due : β
  work : Multiset α
  place : γ

namespace Effort

variable [Preorder β] [Preorder γ]

/-- Events come before work, and work before the place. -/
inductive Lower (follows : α → α → Prop) (next before : Effort α β γ) : Prop
  | event (hdue : next.due < before.due)
  | work (hdue : next.due = before.due) (hwork : Spends follows next.work before.work)
  | move (hdue : next.due = before.due) (hwork : Keeps follows next.work before.work)
      (hplace : next.place < before.place)

theorem Lower.wellFounded [WellFoundedLT β] [WellFoundedLT γ]
    (hfollows : WellFounded follows) :
    WellFounded (Lower follows : Effort α β γ → Effort α β γ → Prop) := by
  have hplace : WellFounded fun next before : γ => next < before := wellFounded_lt
  have hdue : WellFounded fun next before : β => next < before := wellFounded_lt
  have hlex := hdue.prod_lex ((Spends.wellFounded hfollows).prod_lex hplace)
  refine Subrelation.wf ?_
    (InvImage.wf (fun effort : Effort α β γ => (effort.due, effort.work, effort.place)) hlex)
  intro next before hlower
  cases hlower with
  | event hdue => exact .left _ _ hdue
  | work hdue hwork =>
      simp only [InvImage, hdue]
      exact .right _ (.left _ _ hwork)
  | move hdue hwork hplace =>
      simp only [InvImage, hdue]
      rcases reflTransGen_iff_eq_or_transGen.mp hwork with heq | hspent
      · rw [← heq]
        exact .right _ (.right _ hplace)
      · exact .right _ (.left _ _ hspent)

end Effort

/-! ## Families -/

/-- One of several parts gets lower, the others stay as they are. -/
def LowerAt {ι : Type*} (lower : α → α → Prop) (next before : ι → α) : Prop :=
  ∃ i, lower (next i) (before i) ∧ ∀ j, j ≠ i → next j = before j

theorem LowerAt.wellFounded
    {ι : Type*} [Finite ι] {lower : α → α → Prop} (hlower : WellFounded lower) :
    WellFounded (LowerAt lower : (ι → α) → (ι → α) → Prop) := by
  refine Subrelation.wf ?_ (Pi.Lex.wellFounded WellOrderingRel fun _ => hlower)
  rintro next before ⟨i, hlow, hothers⟩
  exact ⟨i, fun j hj => hothers j (ne_of_irrefl hj), hlow⟩

/-! ## Finite and endless runs -/

/-- Steps which lower a rank, unless they lead to where no step is possible, end
after finitely many. -/
theorem acc_of_lower
    {step : σ → σ → Prop} {lower : β → β → Prop} (hlower : WellFounded lower) (rank : σ → β)
    (good : σ → Prop)
    (hstep : ∀ s next, good s → step s next →
      good next ∧ ((∀ after, ¬ step next after) ∨ lower (rank next) (rank s)))
    {s : σ} (hgood : good s) : Acc (fun next s => step s next) s := by
  induction hrank : rank s using hlower.induction generalizing s with
  | _ current ih =>
      subst hrank
      refine Acc.intro _ fun next hnext => ?_
      obtain ⟨hgood', hstuck | hless⟩ := hstep s next hgood hnext
      · exact Acc.intro _ fun after hafter => absurd hafter (hstuck after)
      · exact ih (rank next) hless hgood' rfl

/-- Where a step is always possible, steps go on for ever. -/
theorem exists_endless
    {step : σ → σ → Prop} (good : σ → Prop)
    (hstep : ∀ s, good s → ∃ next, step s next ∧ good next) {s : σ} (hgood : good s) :
    ∃ states : ℕ → σ, states 0 = s ∧ ∀ n, step (states n) (states (n + 1)) := by
  choose! next hnext hkeep using hstep
  have hiterate : ∀ n, good (next^[n] s) := by
    intro n
    induction n with
    | zero => exact hgood
    | succ n ih =>
        rw [Function.iterate_succ_apply']
        exact hkeep _ ih
  refine ⟨fun n => next^[n] s, rfl, fun n => ?_⟩
  simp only [Function.iterate_succ_apply']
  exact hnext _ (hiterate n)

/-! ## Sums with one summand changed -/

theorem sum_update_add
    {M : Type*} [AddCommMonoid M] (f : ℕ → M) {n i : ℕ} (hi : i < n) (value : M) :
    (∑ j ∈ Finset.range n, Function.update f i value j) + f i =
      (∑ j ∈ Finset.range n, f j) + value := by
  have hmem : i ∈ Finset.range n := Finset.mem_range.mpr hi
  rw [Finset.sum_update_of_mem hmem, Finset.sdiff_singleton_eq_erase,
    ← Finset.add_sum_erase _ f hmem]
  rw [add_right_comm, add_assoc, add_comm value]

end Transition
