import Mathlib.Data.Finset.Basic
import Mathlib.Tactic.Common

/-!
# Resources acquired by constructors

A ledger holds the resources which are open and remembers whether one was ever
released which was not.  A constructor returns an object which owns what it
acquired, or throws and leaves the ledger as it found it; both survive the
construction of several members in a row, where an exception destroys those
already constructed, and loops which fill a vector.
-/

namespace ResourceLedger

variable {R : Type*} [DecidableEq R] {ε α β : Type*}

structure Ledger (R : Type*) where
  held : Finset R
  misused : Bool

/-- A call which may throw. -/
abbrev Constructor (R ε α : Type*) := Ledger R → Except ε α × Ledger R

abbrev Destructor (R α : Type*) := α → Ledger R → Ledger R

namespace Ledger

def acquire (l : Ledger R) (r : R) : Ledger R :=
  { l with held := insert r l.held }

def release (l : Ledger R) (r : R) : Ledger R :=
  if r ∈ l.held then { l with held := l.held.erase r } else { l with misused := true }

def releaseAll (l : Ledger R) (rs : List R) : Ledger R :=
  rs.foldl release l

/-- The second ledger has these resources more than the first, each once. -/
structure Gained (before : Ledger R) (owned : List R) (after : Ledger R) : Prop where
  nodup : owned.Nodup
  fresh : ∀ r ∈ owned, r ∉ before.held
  held : after.held = before.held ∪ owned.toFinset
  misused : after.misused = before.misused

omit [DecidableEq R] in
theorem ext_held {l l' : Ledger R} (hheld : l.held = l'.held)
    (hmisused : l.misused = l'.misused) : l = l' := by
  cases l
  cases l'
  simp_all

variable {l before mid after : Ledger R} {r : R} {owned more : List R}

theorem Gained.refl (l : Ledger R) : l.Gained [] l :=
  ⟨List.nodup_nil, by simp, by simp, rfl⟩

theorem Gained.acquire
    (hgained : before.Gained owned l) (hfresh : r ∉ l.held) :
    before.Gained (owned ++ [r]) (l.acquire r) := by
  have hheld := hgained.held
  have hnew : r ∉ before.held ∧ r ∉ owned := by
    rw [hheld] at hfresh
    simpa using hfresh
  refine ⟨?_, ?_, ?_, hgained.misused⟩
  · rw [List.nodup_append]
    refine ⟨hgained.nodup, List.nodup_singleton r, ?_⟩
    intro other hother new hmem
    rw [List.mem_singleton.mp hmem]
    exact fun heq => hnew.2 (heq ▸ hother)
  · intro other hother
    rcases List.mem_append.mp hother with hold | hmem
    · exact hgained.fresh other hold
    · exact List.mem_singleton.mp hmem ▸ hnew.1
  · ext other
    simp only [Ledger.acquire, hheld, Finset.mem_insert, Finset.mem_union, List.mem_toFinset,
      List.mem_append, List.mem_singleton]
    tauto

theorem Gained.trans
    (hfirst : before.Gained owned mid) (hsecond : mid.Gained more after) :
    before.Gained (owned ++ more) after := by
  have hheld := hfirst.held
  have hapart : ∀ r ∈ more, r ∉ before.held ∧ r ∉ owned := by
    intro r hr
    have hfresh := hsecond.fresh r hr
    rw [hheld] at hfresh
    simpa using hfresh
  refine ⟨?_, ?_, ?_, hsecond.misused.trans hfirst.misused⟩
  · rw [List.nodup_append]
    refine ⟨hfirst.nodup, hsecond.nodup, ?_⟩
    intro old hold new hnew heq
    exact (hapart new hnew).2 (heq ▸ hold)
  · intro r hr
    rcases List.mem_append.mp hr with hold | hnew
    · exact hfirst.fresh r hold
    · exact (hapart r hnew).1
  · ext r
    simp only [hsecond.held, hheld, Finset.mem_union, List.mem_toFinset, List.mem_append]
    tauto

/-- Releasing resources which are held, each once, removes exactly these. -/
theorem releaseAll_eq
    {rs : List R} (hnodup : rs.Nodup) (hheld : ∀ r ∈ rs, r ∈ l.held) :
    l.releaseAll rs = { l with held := l.held \ rs.toFinset } := by
  induction rs generalizing l with
  | nil => simp [releaseAll]
  | cons r rs ih =>
      obtain ⟨hnew, hnodup⟩ := List.nodup_cons.mp hnodup
      have hfirst : l.release r = { l with held := l.held.erase r } :=
        if_pos (hheld r List.mem_cons_self)
      have hrest : ∀ other ∈ rs, other ∈ (l.release r).held := by
        intro other hother
        rw [hfirst, Finset.mem_erase]
        exact ⟨fun heq => hnew (heq ▸ hother), hheld other (List.mem_cons_of_mem _ hother)⟩
      rw [releaseAll, List.foldl_cons]
      refine (ih hnodup hrest).trans (ext_held ?_ (by rw [hfirst]))
      ext other
      simp only [hfirst, Finset.mem_sdiff, Finset.mem_erase, List.mem_toFinset, List.mem_cons]
      tauto

/-- What was gained can be released in any order. -/
theorem Gained.releaseAll
    (hgained : before.Gained owned after) {order : List R} (horder : order.Perm owned) :
    after.releaseAll order = before := by
  rw [releaseAll_eq (horder.nodup_iff.mpr hgained.nodup)]
  · refine ext_held ?_ hgained.misused
    ext r
    have hfresh := hgained.fresh r
    simp only [hgained.held, Finset.mem_sdiff, Finset.mem_union, List.mem_toFinset,
      horder.mem_iff]
    tauto
  · intro r hr
    rw [hgained.held, Finset.mem_union, List.mem_toFinset]
    exact .inr (horder.mem_iff.mp hr)

theorem releaseAll_append (rs rs' : List R) :
    l.releaseAll (rs ++ rs') = (l.releaseAll rs).releaseAll rs' :=
  List.foldl_append

end Ledger

open Ledger

/-- The object returned owns what was acquired; nothing is left after an
exception. -/
structure Acquires (construct : Constructor R ε α) (owns : α → List R) : Prop where
  returns : ∀ {l a l'}, construct l = (.ok a, l') → l.Gained (owns a) l'
  throws : ∀ {l err l'}, construct l = (.error err, l') → l' = l

/-- The destructor releases what the object owns, in some order. -/
def Frees (destroy : Destructor R α) (owns : α → List R) : Prop :=
  ∀ a l, ∃ order, order.Perm (owns a) ∧ destroy a l = l.releaseAll order

theorem Frees.restores
    {destroy : Destructor R α} {owns : α → List R} (hfrees : Frees destroy owns) {a : α}
    {before after : Ledger R} (hgained : before.Gained (owns a) after) :
    destroy a after = before := by
  obtain ⟨order, horder, heq⟩ := hfrees a after
  rw [heq]
  exact hgained.releaseAll horder

/-- Two calls which return related objects or throw the same. -/
inductive Alike (rel : α → β → Prop) : Except ε α → Except ε β → Prop
  | returns {a : α} {b : β} (hrel : rel a b) : Alike rel (.ok a) (.ok b)
  | throws (err : ε) : Alike rel (.error err) (.error err)

/-! ## Several members -/

/-- Two members in a row: when the second cannot be constructed, the first is
destroyed. -/
def andThen
    (first : Constructor R ε α) (destroy : Destructor R α) (second : α → Constructor R ε β) :
    Constructor R ε (α × β) := fun l =>
  match first l with
  | (.error err, l₁) => (.error err, l₁)
  | (.ok a, l₁) =>
      match second a l₁ with
      | (.error err, l₂) => (.error err, destroy a l₂)
      | (.ok b, l₂) => (.ok (a, b), l₂)

theorem Acquires.andThen
    {first : Constructor R ε α} {destroy : Destructor R α} {second : α → Constructor R ε β}
    {owns : α → List R} {owns' : β → List R} (hfirst : Acquires first owns)
    (hfrees : Frees destroy owns) (hsecond : ∀ a, Acquires (second a) owns') :
    Acquires (andThen first destroy second) fun both => owns both.1 ++ owns' both.2 := by
  constructor
  · intro l both l' hok
    cases hone : first l with
    | mk outcome l₁ =>
        cases outcome with
        | error err => simp [ResourceLedger.andThen, hone] at hok
        | ok a =>
            cases htwo : second a l₁ with
            | mk outcome l₂ =>
                cases outcome with
                | error err => simp [ResourceLedger.andThen, hone, htwo] at hok
                | ok b =>
                    simp only [ResourceLedger.andThen, hone, htwo, Prod.mk.injEq,
                      Except.ok.injEq] at hok
                    obtain ⟨rfl, rfl⟩ := hok
                    exact (hfirst.returns hone).trans ((hsecond a).returns htwo)
  · intro l err l' herror
    cases hone : first l with
    | mk outcome l₁ =>
        cases outcome with
        | error err =>
            simp only [ResourceLedger.andThen, hone, Prod.mk.injEq] at herror
            obtain ⟨-, rfl⟩ := herror
            exact hfirst.throws hone
        | ok a =>
            cases htwo : second a l₁ with
            | mk outcome l₂ =>
                cases outcome with
                | ok b => simp [ResourceLedger.andThen, hone, htwo] at herror
                | error err =>
                    simp only [ResourceLedger.andThen, hone, htwo, Prod.mk.injEq] at herror
                    obtain ⟨-, rfl⟩ := herror
                    rw [(hsecond a).throws htwo]
                    exact hfrees.restores (hfirst.returns hone)

/-- The members are destroyed in the reverse order. -/
def destroyBoth (destroy : Destructor R α) (destroy' : Destructor R β) : Destructor R (α × β) :=
  fun both l => destroy both.1 (destroy' both.2 l)

theorem Frees.both
    {destroy : Destructor R α} {destroy' : Destructor R β} {owns : α → List R}
    {owns' : β → List R} (hfrees : Frees destroy owns) (hfrees' : Frees destroy' owns') :
    Frees (destroyBoth destroy destroy') fun both => owns both.1 ++ owns' both.2 := by
  rintro ⟨a, b⟩ l
  obtain ⟨order', hperm', heq'⟩ := hfrees' b l
  obtain ⟨order, hperm, heq⟩ := hfrees a (l.releaseAll order')
  refine ⟨order' ++ order, (List.perm_append_comm.trans (hperm.append hperm')), ?_⟩
  rw [releaseAll_append, ← heq, ← heq']
  rfl

/-! ## Vectors -/

/-- The elements are destroyed from the first to the last. -/
def destroyAll (destroy : Destructor R α) : Destructor R (List α) :=
  fun all l => all.foldl (fun l a => destroy a l) l

/-- Construct so many more elements at the end of a vector, which is destroyed
when one of them cannot be constructed. -/
def pushAll (construct : ℕ → Constructor R ε α) (destroy : Destructor R α) :
    ℕ → List α → Constructor R ε (List α)
  | 0, built => fun l => (.ok built, l)
  | remaining + 1, built => fun l =>
      match construct built.length l with
      | (.error err, l') => (.error err, destroyAll destroy built l')
      | (.ok a, l') => pushAll construct destroy remaining (built ++ [a]) l'

theorem Frees.all
    {destroy : Destructor R α} {owns : α → List R} (hfrees : Frees destroy owns) :
    Frees (destroyAll destroy) fun all => all.flatMap owns := by
  intro all
  induction all with
  | nil => exact fun l => ⟨[], .nil, rfl⟩
  | cons a all ih =>
      intro l
      obtain ⟨order, hperm, heq⟩ := hfrees a l
      obtain ⟨rest, hperm', heq'⟩ := ih (l.releaseAll order)
      refine ⟨order ++ rest, hperm.append hperm', ?_⟩
      rw [releaseAll_append, ← heq', ← heq]
      rfl

section PushAll

variable {construct : ℕ → Constructor R ε α} {destroy : Destructor R α} {owns : α → List R}
  (hconstruct : ∀ i, Acquires (construct i) owns) (hfrees : Frees destroy owns)
include hconstruct hfrees

/-- The loop, entered with a vector which owns what has been gained so far. -/
theorem pushAll_spec
    (remaining : ℕ) {built : List α} {start l : Ledger R}
    (hbuilt : start.Gained (built.flatMap owns) l) :
    (∀ {all l'}, pushAll construct destroy remaining built l = (.ok all, l') →
      start.Gained (all.flatMap owns) l' ∧ all.length = built.length + remaining) ∧
    ∀ {err l'}, pushAll construct destroy remaining built l = (.error err, l') → l' = start := by
  induction remaining generalizing built l with
  | zero =>
      constructor
      · intro all l' hok
        simp only [pushAll, Prod.mk.injEq, Except.ok.injEq] at hok
        obtain ⟨rfl, rfl⟩ := hok
        exact ⟨hbuilt, rfl⟩
      · intro err l' herror
        simp [pushAll] at herror
  | succ remaining ih =>
      cases hone : construct built.length l with
      | mk outcome l₁ =>
          cases outcome with
          | error err =>
              simp only [pushAll, hone]
              constructor
              · intro all l' hok
                simp at hok
              · intro err l' herror
                simp only [Prod.mk.injEq] at herror
                rw [← herror.2, (hconstruct built.length).throws hone]
                exact hfrees.all.restores hbuilt
          | ok a =>
              have hgained : start.Gained ((built ++ [a]).flatMap owns) l₁ := by
                rw [List.flatMap_append, List.flatMap_singleton]
                exact hbuilt.trans ((hconstruct built.length).returns hone)
              obtain ⟨hreturns, hthrows⟩ := ih hgained
              simp only [pushAll, hone]
              refine ⟨?_, hthrows⟩
              intro all l' hok
              obtain ⟨hall, hlength⟩ := hreturns hok
              refine ⟨hall, ?_⟩
              rw [hlength, List.length_append, List.length_singleton]
              omega

theorem Acquires.pushAll (count : ℕ) :
    Acquires (ResourceLedger.pushAll construct destroy count []) fun all => all.flatMap owns := by
  constructor
  · intro l all l' hok
    exact ((pushAll_spec hconstruct hfrees count (Gained.refl l)).1 hok).1
  · intro l err l' herror
    exact (pushAll_spec hconstruct hfrees count (Gained.refl l)).2 herror

end PushAll

end ResourceLedger
