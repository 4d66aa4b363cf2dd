import Mathlib.Logic.Function.Basic
import Mathlib.Tactic.Common
import Mathlib.Tactic.Ring

/-!
# Numbers and strings in a block of bytes

Little-endian loads and stores of numbers at fixed offsets.  A structure with
unions is a list of members, two of which may overlap; what a load sees after
a sequence of stores is decided by the offsets and widths alone.  A string is
the bytes up to a NUL, as far as a reader looks for one.
-/

namespace ByteBlock

/-- The bytes from the start of an object on. -/
abbrev Block := ℕ → UInt8

/-- A member of an object: where it starts and how many bytes it has. -/
structure Member where
  offset : ℕ
  width : ℕ
  deriving DecidableEq, Repr

def Member.Apart (m m' : Member) : Prop :=
  m.offset + m.width ≤ m'.offset ∨ m'.offset + m'.width ≤ m.offset

instance (m m' : Member) : Decidable (m.Apart m') :=
  inferInstanceAs (Decidable (_ ∨ _))

def loadAt (block : Block) : ℕ → ℕ → ℕ
  | _, 0 => 0
  | offset, width + 1 =>
      (block offset).toNat + 256 * loadAt block (offset + 1) width

def storeAt (block : Block) : ℕ → ℕ → ℕ → Block
  | _, 0, _ => block
  | offset, width + 1, value =>
      Function.update (storeAt block (offset + 1) width (value / 256)) offset
        (UInt8.ofNat value)

/-- Read a member as a number, least significant byte first. -/
def load (block : Block) (m : Member) : ℕ :=
  loadAt block m.offset m.width

/-- Write a number to a member; what exceeds its width is cut off. -/
def store (block : Block) (m : Member) (value : ℕ) : Block :=
  storeAt block m.offset m.width value

/-- `memset(block, 0, size)`. -/
def clear (block : Block) (size : ℕ) : Block :=
  fun i => if i < size then 0 else block i

/-- Single bytes, stored one after the other. -/
def storeBytes (block : Block) (stores : List (ℕ × UInt8)) : Block :=
  stores.foldl (fun block byte => Function.update block byte.1 byte.2) block

/-- The stores of `memcpy(block, source, count)`. -/
def memcpy (source : Block) (count : ℕ) : List (ℕ × UInt8) :=
  (List.range count).map fun i => (i, source i)

def slice (block : Block) : ℕ → ℕ → List UInt8
  | _, 0 => []
  | start, count + 1 => block start :: slice block (start + 1) count

/-- The bytes from a start up to the first NUL, if it is among the next
`limit`. -/
def readString (block : Block) : ℕ → ℕ → Option (List UInt8)
  | _, 0 => none
  | start, limit + 1 =>
      if block start = 0 then some []
      else (readString block (start + 1) limit).map (block start :: ·)

theorem storeAt_of_outside
    (block : Block) (offset width value : ℕ) {i : ℕ}
    (hi : i < offset ∨ offset + width ≤ i) :
    storeAt block offset width value i = block i := by
  induction width generalizing offset value with
  | zero => rfl
  | succ width ih =>
      have hne : i ≠ offset := by omega
      rw [storeAt, Function.update_of_ne hne]
      exact ih (offset + 1) (value / 256) (by omega)

theorem loadAt_congr
    {block block' : Block} {offset width : ℕ}
    (hsame : ∀ i, offset ≤ i → i < offset + width → block i = block' i) :
    loadAt block offset width = loadAt block' offset width := by
  induction width generalizing offset with
  | zero => rfl
  | succ width ih =>
      have hrest : loadAt block (offset + 1) width = loadAt block' (offset + 1) width := by
        apply ih
        intro i hle hlt
        exact hsame i (by omega) (by omega)
      rw [loadAt, loadAt, hrest, hsame offset le_rfl (by omega)]

theorem loadAt_storeAt
    (block : Block) (offset width value : ℕ) :
    loadAt (storeAt block offset width value) offset width = value % 256 ^ width := by
  induction width generalizing offset value with
  | zero => simp [loadAt, Nat.mod_one]
  | succ width ih =>
      have hrest : loadAt (storeAt block offset (width + 1) value) (offset + 1) width =
          loadAt (storeAt block (offset + 1) width (value / 256)) (offset + 1) width := by
        apply loadAt_congr
        intro i hle _
        rw [storeAt, Function.update_of_ne (by omega)]
      rw [loadAt, hrest, ih, storeAt, Function.update_self, UInt8.toNat_ofNat',
        Nat.pow_succ' (n := width), Nat.mod_mul (a := 256)]

theorem loadAt_zero
    {block : Block} {offset width : ℕ}
    (hzero : ∀ i, offset ≤ i → i < offset + width → block i = 0) :
    loadAt block offset width = 0 := by
  induction width generalizing offset with
  | zero => rfl
  | succ width ih =>
      have hrest : loadAt block (offset + 1) width = 0 := by
        apply ih
        intro i hle hlt
        exact hzero i (by omega) (by omega)
      rw [loadAt, hrest, hzero offset le_rfl (by omega)]
      rfl

theorem eq_of_loadAt_eq
    {block block' : Block} {offset width : ℕ}
    (hload : loadAt block offset width = loadAt block' offset width)
    {i : ℕ} (hle : offset ≤ i) (hlt : i < offset + width) :
    block i = block' i := by
  induction width generalizing offset with
  | zero => omega
  | succ width ih =>
      rw [loadAt, loadAt] at hload
      have hbyte := (block offset).toNat_lt
      have hbyte' := (block' offset).toNat_lt
      by_cases hfirst : i = offset
      · subst hfirst
        apply UInt8.toNat_inj.mp
        omega
      · have hrest : loadAt block (offset + 1) width =
            loadAt block' (offset + 1) width := by omega
        exact ih hrest (by omega) (by omega)

theorem storeBytes_of_outside
    {block : Block} {stores : List (ℕ × UInt8)} {i : ℕ}
    (houtside : ∀ byte ∈ stores, byte.1 ≠ i) : storeBytes block stores i = block i := by
  induction stores generalizing block with
  | nil => rfl
  | cons byte stores ih =>
      have hne : i ≠ byte.1 := (houtside byte List.mem_cons_self).symm
      have hrest : storeBytes (Function.update block byte.1 byte.2) stores i =
          Function.update block byte.1 byte.2 i :=
        ih fun byte' hmem => houtside byte' (List.mem_cons_of_mem _ hmem)
      rw [storeBytes, List.foldl_cons]
      exact hrest.trans (Function.update_of_ne hne _ _)

theorem memcpy_offset_lt
    {source : Block} {count : ℕ} {byte : ℕ × UInt8} (hmem : byte ∈ memcpy source count) :
    byte.1 < count := by
  rw [memcpy, List.mem_map] at hmem
  obtain ⟨i, hi, rfl⟩ := hmem
  exact List.mem_range.mp hi

theorem mem_memcpy
    (source : Block) {count i : ℕ} (hi : i < count) : (i, source i) ∈ memcpy source count := by
  rw [memcpy, List.mem_map]
  exact ⟨i, List.mem_range.mpr hi, rfl⟩

/-! ## Members -/

theorem load_store_self (block : Block) (m : Member) (value : ℕ) :
    load (store block m value) m = value % 256 ^ m.width :=
  loadAt_storeAt block m.offset m.width value

theorem load_store_apart
    (block : Block) {m m' : Member} (hapart : m.Apart m') (value : ℕ) :
    load (store block m value) m' = load block m' := by
  apply loadAt_congr
  intro i hle hlt
  apply storeAt_of_outside
  rcases hapart with h | h <;> omega

theorem load_clear
    (block : Block) {m : Member} {size : ℕ} (hin : m.offset + m.width ≤ size) :
    load (clear block size) m = 0 := by
  apply loadAt_zero
  intro i _ hlt
  rw [clear, if_pos (by omega)]

/-- A copy which ends before a member leaves it alone. -/
theorem load_memcpy_of_le
    (block source : Block) {count : ℕ} {m : Member} (hend : count ≤ m.offset) :
    load (storeBytes block (memcpy source count)) m = load block m := by
  apply loadAt_congr
  intro i hle _
  apply storeBytes_of_outside
  intro byte hmem
  have hlt := memcpy_offset_lt hmem
  omega

theorem load_congr
    {block block' : Block} {size : ℕ} (hsame : ∀ i < size, block i = block' i)
    {m : Member} (hin : m.offset + m.width ≤ size) :
    load block m = load block' m := by
  apply loadAt_congr
  intro i _ hlt
  exact hsame i (by omega)

/-! ## Strings -/

@[simp] theorem slice_length (block : Block) (start count : ℕ) :
    (slice block start count).length = count := by
  induction count generalizing start with
  | zero => rfl
  | succ count ih => rw [slice, List.length_cons, ih]

theorem slice_congr
    {block block' : Block} {start count : ℕ}
    (hsame : ∀ i, start ≤ i → i < start + count → block i = block' i) :
    slice block start count = slice block' start count := by
  induction count generalizing start with
  | zero => rfl
  | succ count ih =>
      have hrest : slice block (start + 1) count = slice block' (start + 1) count := by
        apply ih
        intro i hle hlt
        exact hsame i (by omega) (by omega)
      rw [slice, slice, hrest, hsame start le_rfl (by omega)]

theorem slice_take
    (block : Block) (start : ℕ) {count size : ℕ} (hle : size ≤ count) :
    (slice block start count).take size = slice block start size := by
  induction size generalizing start count with
  | zero => rfl
  | succ size ih =>
      obtain ⟨count, rfl⟩ : ∃ rest, count = rest + 1 := ⟨count - 1, by omega⟩
      rw [slice, slice, List.take_succ_cons, ih (start + 1) (by omega)]

theorem slice_drop (block : Block) (start offset count : ℕ) :
    (slice block start (offset + count)).drop offset = slice block (start + offset) count := by
  induction offset generalizing start with
  | zero => simp
  | succ offset ih =>
      rw [Nat.add_right_comm, slice, List.drop_succ_cons, ih, Nat.add_right_comm start 1 offset,
        Nat.add_assoc start offset 1]

theorem mem_slice
    (block : Block) (start : ℕ) {count i : ℕ} (hi : i < count) :
    block (start + i) ∈ slice block start count := by
  induction count generalizing start i with
  | zero => omega
  | succ count ih =>
      cases i with
      | zero => exact List.mem_cons_self
      | succ i =>
          have hrest := ih (start + 1) (Nat.lt_of_succ_lt_succ hi)
          rw [Nat.add_right_comm] at hrest
          exact List.mem_cons_of_mem _ hrest

/-- A reader which finds a NUL returns exactly what stands before the first. -/
theorem readString_eq_some_iff
    {block : Block} {start limit : ℕ} {text : List UInt8} :
    readString block start limit = some text ↔
      text.length < limit ∧ slice block start text.length = text ∧ 0 ∉ text ∧
        block (start + text.length) = 0 := by
  induction limit generalizing start text with
  | zero => simp [readString]
  | succ limit ih =>
      rw [readString]
      cases text with
      | nil =>
          by_cases hnul : block start = 0
          · simp [hnul, slice]
          · simp [hnul]
      | cons byte text =>
          have hend : start + (byte :: text).length = start + 1 + text.length := by
            rw [List.length_cons]
            omega
          rw [hend]
          by_cases hnul : block start = 0
          · have hfirst : ¬ (slice block start (byte :: text).length = byte :: text ∧
                0 ∉ byte :: text) := by
              rintro ⟨hslice, hclean⟩
              rw [List.length_cons, slice, List.cons.injEq] at hslice
              exact hclean (by rw [← hslice.1, hnul]; exact List.mem_cons_self)
            rw [if_pos hnul]
            constructor
            · intro hempty
              exact absurd (Option.some.inj hempty) (by simp)
            · rintro ⟨-, hslice, hclean, -⟩
              exact absurd ⟨hslice, hclean⟩ hfirst
          · rw [if_neg hnul, Option.map_eq_some_iff]
            constructor
            · rintro ⟨rest, hread, heq⟩
              rw [List.cons.injEq] at heq
              obtain ⟨rfl, rfl⟩ := heq
              obtain ⟨hlength, hslice, hclean, hterminated⟩ := ih.mp hread
              refine ⟨Nat.succ_lt_succ hlength, ?_, ?_, hterminated⟩
              · rw [List.length_cons, slice, hslice]
              · rw [List.mem_cons, not_or]
                exact ⟨Ne.symm hnul, hclean⟩
            · rintro ⟨hlength, hslice, hclean, hterminated⟩
              rw [List.length_cons, slice, List.cons.injEq] at hslice
              refine ⟨text, ih.mpr ⟨Nat.lt_of_succ_lt_succ hlength, hslice.2, ?_, hterminated⟩, ?_⟩
              · exact fun hmem => hclean (List.mem_cons_of_mem _ hmem)
              · rw [hslice.1]

/-- A reader does not stop within bytes which hold no NUL. -/
theorem slice_prefix_of_readString
    {block : Block} {start limit size : ℕ} {text : List UInt8}
    (hread : readString block start limit = some text)
    (hclean : 0 ∉ slice block start size) : slice block start size <+: text := by
  obtain ⟨-, hslice, -, hterminated⟩ := readString_eq_some_iff.mp hread
  have hle : size ≤ text.length := by
    by_contra hshort
    have hmem := mem_slice block start (Nat.lt_of_not_le hshort)
    rw [hterminated] at hmem
    exact hclean hmem
  rw [← hslice, ← slice_take block start hle]
  exact List.take_prefix size _

end ByteBlock
