import SlimCommonIo.ByteBlock
import Mathlib.Data.UInt

/-!
# Objects in memory

The whole memory is a block of bytes, and an object in it is the view from its
address.  A store or a patch changes one region only; what is read from regions
apart from it stays the same.
-/

namespace ByteBlock

variable {m m' r r' : Member}

namespace Member

def Contains (r : Member) (a : ℕ) : Prop :=
  r.offset ≤ a ∧ a < r.offset + r.width

instance (r : Member) (a : ℕ) : Decidable (r.Contains a) :=
  inferInstanceAs (Decidable (_ ∧ _))

def Within (m r : Member) : Prop :=
  r.offset ≤ m.offset ∧ m.offset + m.width ≤ r.offset + r.width

theorem Within.refl (r : Member) : r.Within r :=
  ⟨le_rfl, le_rfl⟩

theorem Within.contains (hm : m.Within r) {a : ℕ} (ha : m.Contains a) : r.Contains a :=
  ⟨hm.1.trans ha.1, ha.2.trans_le hm.2⟩

theorem Apart.symm (hapart : m.Apart m') : m'.Apart m :=
  Or.symm hapart

theorem Apart.mono (hapart : r.Apart r') (hm : m.Within r) (hm' : m'.Within r') :
    m.Apart m' := by
  rcases hapart with hbefore | hbehind
  · exact .inl (hm.2.trans (hbefore.trans hm'.1))
  · exact .inr (hm'.2.trans (hbehind.trans hm.1))

/-- The member of an object at this address. -/
def shift (base : ℕ) (m : Member) : Member :=
  ⟨base + m.offset, m.width⟩

theorem Apart.shift (hapart : m.Apart m') (base : ℕ) :
    (m.shift base).Apart (m'.shift base) := by
  rcases hapart with hbefore | hbehind
  · exact .inl ((Nat.add_assoc ..).trans_le (Nat.add_le_add_left hbefore base))
  · exact .inr ((Nat.add_assoc ..).trans_le (Nat.add_le_add_left hbehind base))

theorem shift_within {base size : ℕ} (hend : m.offset + m.width ≤ size) :
    (m.shift base).Within ⟨base, size⟩ :=
  ⟨Nat.le_add_right .., (Nat.add_assoc ..).trans_le (Nat.add_le_add_left hend base)⟩

/-- The `i`-th element of an array at this address. -/
def element (base width i : ℕ) : Member :=
  ⟨base + width * i, width⟩

theorem element_within {base width i count : ℕ} (hi : i < count) :
    (element base width i).Within ⟨base, width * count⟩ := by
  refine ⟨Nat.le_add_right .., ?_⟩
  calc base + width * i + width = base + width * (i + 1) := by
        rw [Nat.mul_succ, Nat.add_assoc]
    _ ≤ base + width * count := Nat.add_le_add_left (Nat.mul_le_mul_left width hi) base

theorem element_apart {base width i j : ℕ} (hne : i ≠ j) :
    (element base width i).Apart (element base width j) := by
  have hstep : ∀ {a b : ℕ}, a < b → base + width * a + width ≤ base + width * b := by
    intro a b hlt
    calc base + width * a + width = base + width * (a + 1) := by
          rw [Nat.mul_succ, Nat.add_assoc]
      _ ≤ base + width * b := Nat.add_le_add_left (Nat.mul_le_mul_left width hlt) base
  rcases Nat.lt_or_gt_of_ne hne with hlt | hlt
  · exact .inl (hstep hlt)
  · exact .inr (hstep hlt)

end Member

/-! ## Views and patches -/

/-- The object in this region. -/
def view (mem : Block) (r : Member) : Block :=
  fun i => if i < r.width then mem (r.offset + i) else 0

/-- Rewrite the object in one region. -/
def patch (mem : Block) (r : Member) (f : Block → Block) : Block :=
  fun a => if r.Contains a then f (view mem r) (a - r.offset) else mem a

/-- The two memories are the same in this region. -/
def Agree (mem mem' : Block) (r : Member) : Prop :=
  ∀ a, r.Contains a → mem' a = mem a

variable {mem mem' mem'' : Block}

theorem Agree.refl (mem : Block) (r : Member) : Agree mem mem r :=
  fun _ _ => rfl

theorem Agree.trans (h : Agree mem mem' r) (h' : Agree mem' mem'' r) : Agree mem mem'' r :=
  fun a ha => (h' a ha).trans (h a ha)

theorem Agree.mono (h : Agree mem mem' r) (hm : m.Within r) : Agree mem mem' m :=
  fun a ha => h a (hm.contains ha)

theorem Agree.load (h : Agree mem mem' m) : load mem' m = load mem m :=
  loadAt_congr fun i hle hlt => h i ⟨hle, hlt⟩

theorem Agree.view (h : Agree mem mem' r) : ByteBlock.view mem' r = ByteBlock.view mem r := by
  funext i
  unfold ByteBlock.view
  split
  next hi => exact h _ ⟨Nat.le_add_right .., Nat.add_lt_add_left hi r.offset⟩
  next => rfl

theorem Member.Apart.not_contains (hapart : m.Apart r) {a : ℕ} (ha : r.Contains a) :
    ¬ m.Contains a := by
  rintro ⟨hle, hlt⟩
  obtain ⟨hle', hlt'⟩ := ha
  rcases hapart with h | h <;> omega

theorem store_of_not_contains
    {value a : ℕ} (ha : ¬ m.Contains a) : store mem m value a = mem a := by
  apply storeAt_of_outside
  by_contra hinside
  exact ha ⟨by omega, by omega⟩

theorem patch_of_not_contains
    {f : Block → Block} {a : ℕ} (ha : ¬ r.Contains a) : patch mem r f a = mem a :=
  if_neg ha

theorem agree_store (hapart : m.Apart r) (value : ℕ) : Agree mem (store mem m value) r :=
  fun _ ha => store_of_not_contains (hapart.not_contains ha)

theorem agree_patch (hapart : r.Apart r') (f : Block → Block) :
    Agree mem (patch mem r f) r' :=
  fun _ ha => patch_of_not_contains (hapart.not_contains ha)

theorem view_patch_self (mem : Block) (r : Member) (f : Block → Block) {i : ℕ}
    (hi : i < r.width) : view (patch mem r f) r i = f (view mem r) i := by
  have hcontains : r.Contains (r.offset + i) :=
    ⟨Nat.le_add_right .., Nat.add_lt_add_left hi r.offset⟩
  rw [view, if_pos hi, patch, if_pos hcontains, Nat.add_sub_cancel_left]

/-! ## Words -/

def wordAt (addr : ℕ) : Member :=
  ⟨addr, 4⟩

def word (mem : Block) (addr : ℕ) : UInt32 :=
  UInt32.ofNat (load mem (wordAt addr))

def setWord (mem : Block) (addr : ℕ) (value : UInt32) : Block :=
  store mem (wordAt addr) value.toNat

@[simp] theorem word_setWord_self (mem : Block) (addr : ℕ) (value : UInt32) :
    word (setWord mem addr value) addr = value := by
  have hlt : value.toNat < 256 ^ (wordAt addr).width := value.toNat_lt
  rw [word, setWord, load_store_self, Nat.mod_eq_of_lt hlt, UInt32.ofNat_toNat]

theorem Agree.word {addr : ℕ} (h : Agree mem mem' (wordAt addr)) :
    word mem' addr = word mem addr :=
  congrArg UInt32.ofNat h.load

theorem agree_setWord {addr : ℕ} (hapart : (wordAt addr).Apart r) (value : UInt32) :
    Agree mem (setWord mem addr value) r :=
  agree_store hapart value.toNat

theorem storeAt_congr
    {block block' : Block} {i : ℕ} (hsame : block' i = block i) (offset width value : ℕ) :
    storeAt block' offset width value i = storeAt block offset width value i := by
  induction width generalizing offset value with
  | zero => exact hsame
  | succ width ih =>
      rw [storeAt, storeAt]
      by_cases hfirst : i = offset
      · rw [hfirst, Function.update_self, Function.update_self]
      · rw [Function.update_of_ne hfirst, Function.update_of_ne hfirst]
        exact ih (offset + 1) (value / 256)

/-- A patch commutes with a store apart from it. -/
theorem patch_setWord {addr : ℕ} (hapart : (wordAt addr).Apart r) (value : UInt32)
    (f : Block → Block) :
    patch (setWord mem addr value) r f = setWord (patch mem r f) addr value := by
  funext a
  by_cases ha : r.Contains a
  · have hkept : setWord (patch mem r f) addr value a = patch mem r f a :=
      store_of_not_contains (hapart.not_contains ha)
    rw [hkept, patch, patch, if_pos ha, if_pos ha, (agree_setWord hapart value).view]
  · rw [patch_of_not_contains ha]
    exact (storeAt_congr (patch_of_not_contains ha) _ _ _).symm

end ByteBlock
