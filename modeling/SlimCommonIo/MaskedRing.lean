import Mathlib.Data.UInt
import Mathlib.Data.Nat.Bits
import Mathlib.Tactic.Common

/-!
# Rings addressed by wrapped 32-bit counters

The two ends of a ring are free-running 32-bit counters; an entry lives in the
slot obtained by masking its counter.  A window lists the entries between two
counters, oldest first.  The lemmas below are the only facts about wrapping and
masking which the rest of the development uses.
-/

namespace MaskedRing

/-- The slot of a running counter. -/
def slot (mask index : UInt32) : UInt32 :=
  index &&& mask

/-- The number of slots is a power of two and the mask selects a slot. -/
structure Geometry (mask entries : UInt32) : Prop where
  powerOfTwo : ∃ n, n < 32 ∧ entries.toNat = 2 ^ n
  mask_eq : mask = entries - 1

theorem Geometry.slot_toNat
    {mask entries : UInt32} (hring : Geometry mask entries) (index : UInt32) :
    (slot mask index).toNat = index.toNat % entries.toNat := by
  obtain ⟨n, hn, hentries⟩ := hring.powerOfTwo
  have hone : (1 : UInt32) ≤ entries := by
    rw [UInt32.le_iff_toNat_le, hentries]
    exact Nat.two_pow_pos n
  have hmask : mask.toNat = 2 ^ n - 1 := by
    rw [hring.mask_eq, UInt32.toNat_sub_of_le _ _ hone, hentries]
    rfl
  rw [slot, UInt32.toNat_and, hmask, hentries, Nat.and_two_pow_sub_one_eq_mod]

theorem add_ofNat_add (first : UInt32) (a b : ℕ) :
    first + UInt32.ofNat (a + b) =
      first + UInt32.ofNat a + UInt32.ofNat b := by
  rw [UInt32.ofNat_add, UInt32.add_assoc]

theorem sub_add_ofNat_toNat
    {first last : UInt32} {count : ℕ} (hcount : count ≤ (last - first).toNat) :
    (last - (first + UInt32.ofNat count)).toNat = (last - first).toNat - count := by
  have hlt := (last - first).toNat_lt
  have hofNat : (UInt32.ofNat count).toNat = count :=
    UInt32.toNat_ofNat_of_lt' (by simpa [UInt32.size] using by omega)
  have hsub : last - (first + UInt32.ofNat count) = last - first - UInt32.ofNat count := by
    rw [UInt32.sub_eq_add_neg, UInt32.neg_add, UInt32.sub_eq_add_neg,
      UInt32.sub_eq_add_neg, UInt32.sub_eq_add_neg, UInt32.add_assoc]
  rw [hsub, UInt32.toNat_sub_of_le, hofNat]
  rw [UInt32.le_iff_toNat_le, hofNat]
  exact hcount

/-- Two counters less than a full turn apart use different slots, also when
the counter wraps between them. -/
theorem Geometry.slot_ne
    {mask entries : UInt32} (hring : Geometry mask entries)
    (first : UInt32) {a b : ℕ} (hab : a < b) (hturn : b < a + entries.toNat) :
    slot mask (first + UInt32.ofNat a) ≠ slot mask (first + UInt32.ofNat b) := by
  obtain ⟨n, hn, hentries⟩ := hring.powerOfTwo
  intro hslot
  have hmod := congrArg UInt32.toNat hslot
  rw [hring.slot_toNat, hring.slot_toNat, hentries] at hmod
  have hdvd : 2 ^ n ∣ 2 ^ 32 := Nat.pow_dvd_pow 2 hn.le
  have hreduce : ∀ k : ℕ, (first + UInt32.ofNat k).toNat % 2 ^ n =
      (first.toNat + k) % 2 ^ n := by
    intro k
    rw [UInt32.toNat_add, UInt32.toNat_ofNat', Nat.mod_mod_of_dvd _ hdvd,
      Nat.add_mod, Nat.mod_mod_of_dvd _ hdvd, ← Nat.add_mod]
  rw [hreduce, hreduce] at hmod
  have hdiff : 2 ^ n ∣ (first.toNat + b) - (first.toNat + a) :=
    (Nat.modEq_iff_dvd' (by omega)).mp hmod
  have hle := Nat.le_of_dvd (by omega) hdiff
  omega

/-! ## Windows -/

variable {α : Type*}

/-- The `count` entries from counter `first` on. -/
def window (read : UInt32 → α) (first : UInt32) (count : ℕ) : List α :=
  (List.range count).map fun i => read (first + UInt32.ofNat i)

@[simp] theorem window_length
    (read : UInt32 → α) (first : UInt32) (count : ℕ) :
    (window read first count).length = count := by
  simp [window]

@[simp] theorem window_zero (read : UInt32 → α) (first : UInt32) :
    window read first 0 = [] := rfl

theorem window_getElem?
    (read : UInt32 → α) (first : UInt32) (count i : ℕ) (hi : i < count) :
    (window read first count)[i]? = some (read (first + UInt32.ofNat i)) := by
  simp [window, hi]

theorem window_succ (read : UInt32 → α) (first : UInt32) (count : ℕ) :
    window read first (count + 1) =
      window read first count ++ [read (first + UInt32.ofNat count)] := by
  simp [window, List.range_succ]

theorem window_congr
    {read read' : UInt32 → α} {first : UInt32} {count : ℕ}
    (hread : ∀ i < count,
      read (first + UInt32.ofNat i) = read' (first + UInt32.ofNat i)) :
    window read first count = window read' first count := by
  apply List.map_congr_left
  intro i hi
  exact hread i (List.mem_range.mp hi)

theorem window_add
    (read : UInt32 → α) (first : UInt32) (a b : ℕ) :
    window read first (a + b) =
      window read first a ++ window read (first + UInt32.ofNat a) b := by
  induction b with
  | zero => simp
  | succ b ih =>
      rw [← Nat.add_assoc, window_succ, window_succ, ih, List.append_assoc,
        add_ofNat_add]

theorem window_cons
    (read : UInt32 → α) (first : UInt32) (count : ℕ) :
    window read first (count + 1) =
      read first :: window read (first + 1) count := by
  rw [Nat.add_comm, window_add]
  simp [window]

end MaskedRing
