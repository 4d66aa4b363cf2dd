import SlimCommonIo.OperationSizes

/-!
# The path the kernel reads

`Open` and `Stat` keep a `std::string_view` and stage its `data()`.  The view
ends by its length, the kernel's reading by a NUL: the two agree on the byte
which follows the view, wherever the caller's buffer ends.
-/

namespace SlimCommonIo

open ByteBlock

/-- A `string_view` without a NUL into a buffer of the caller's, and the
memory the buffer lies in. -/
structure PathView where
  memory : Block
  base : UInt64
  bytes : List UInt8
  offset : ℕ
  size : ℕ
  placed : slice memory base.toNat bytes.length = bytes
  addressable : base.toNat + bytes.length < 2 ^ 64
  within : offset + size ≤ bytes.length
  noNul : 0 ∉ (bytes.drop offset).take size

namespace PathView

def contents (view : PathView) : List UInt8 :=
  (view.bytes.drop view.offset).take view.size

/-- `path_.data()`. -/
def data (view : PathView) : UInt64 :=
  view.base + UInt64.ofNat view.offset

/-- The byte after the view: the buffer's next one, or what follows the
buffer. -/
def following (view : PathView) : UInt8 :=
  view.memory (view.base.toNat + view.offset + view.size)

end PathView

/-- The constructor calls of `Open` and `Stat` besides their path. -/
inductive PathCall
  | openAt (flags : Int32) (mode : UInt32) (dfd : Int32)
  | stat (flags : Int32) (mask : UInt32) (dfd : Int32) (buf : UInt64)

def PathCall.operation (view : PathView) : PathCall → Operation
  | .openAt flags mode dfd => .openAt dfd view.data flags mode
  | .stat flags mask dfd buf => .stat dfd view.data buf flags mask

/-- The bytes from the entry's `addr` up to the first NUL. -/
def KernelReadsPath (memory sqe : Block) (path : List UInt8) : Prop :=
  ∃ limit, readString memory (load sqe SqeMember.addr) limit = some path

namespace PathView

variable (view : PathView)

theorem data_toNat : view.data.toNat = view.base.toNat + view.offset := by
  have haddressable := view.addressable
  have hwithin := view.within
  have hoffset : (UInt64.ofNat view.offset).toNat = view.offset :=
    UInt64.toNat_ofNat_of_lt' (show view.offset < 2 ^ 64 by omega)
  rw [data, UInt64.toNat_add, hoffset]
  exact Nat.mod_eq_of_lt (by omega)

theorem contents_eq_slice :
    view.contents = slice view.memory (view.base.toNat + view.offset) view.size := by
  have hwithin := view.within
  obtain ⟨rest, hrest⟩ := Nat.exists_eq_add_of_le (Nat.le_of_add_right_le hwithin)
  have hdrop : view.bytes.drop view.offset =
      slice view.memory (view.base.toNat + view.offset) rest := by
    have hbytes := congrArg (List.drop view.offset) view.placed
    rw [hrest, slice_drop] at hbytes
    exact hbytes.symm
  rw [contents, hdrop]
  exact slice_take _ _ (by omega)

end PathView

theorem Awaitable.load_addr (awt : Awaitable) (self : UInt64) (slot : Block) :
    load (awt.stageBytes self slot) SqeMember.addr =
      (awt.op.prepare Sqe.zero).addr.toNat := by
  have hlaid := awt.stageBytes_laidOut .null ⟨0, 0⟩ (fun _ => self) slot
  rw [awt.operationSqe_eq] at hlaid
  exact hlaid.addr

theorem PathCall.load_addr
    (call : PathCall) (view : PathView) (timeoutTs : Option KernelTimespec)
    (address : UInt64) (slot : Block) :
    load (Awaitable.stageBytes { op := call.operation view, timeoutTs := timeoutTs }
      address slot) SqeMember.addr = view.base.toNat + view.offset := by
  rw [Awaitable.load_addr, ← view.data_toNat]
  cases call with
  | openAt flags mode dfd => rfl
  | stat flags mask dfd buf => rfl

/-- The kernel reads the path it was given exactly when a NUL follows the
view in memory. -/
theorem kernel_reads_view_iff
    (call : PathCall) (view : PathView) (timeoutTs : Option KernelTimespec)
    (address : UInt64) (slot : Block) :
    KernelReadsPath view.memory
        (Awaitable.stageBytes { op := call.operation view, timeoutTs := timeoutTs }
          address slot) view.contents ↔
      view.following = 0 := by
  have hlength : view.contents.length = view.size := by
    rw [view.contents_eq_slice, slice_length]
  rw [KernelReadsPath, call.load_addr view timeoutTs address slot]
  constructor
  · rintro ⟨limit, hread⟩
    obtain ⟨-, -, -, hterminated⟩ := readString_eq_some_iff.mp hread
    rw [hlength] at hterminated
    exact hterminated
  · intro hterminated
    refine ⟨view.size + 1, readString_eq_some_iff.mpr ⟨?_, ?_, view.noNul, ?_⟩⟩
    · rw [hlength]
      exact Nat.lt_succ_self _
    · rw [hlength, ← view.contents_eq_slice]
    · rw [hlength]
      exact hterminated

/-- Whatever the kernel reads begins with the view, so a byte other than NUL
behind the view makes it a longer path. -/
theorem kernel_path_extends_view
    (call : PathCall) (view : PathView) (timeoutTs : Option KernelTimespec)
    (address : UInt64) (slot : Block) {path : List UInt8}
    (hread : KernelReadsPath view.memory
      (Awaitable.stageBytes { op := call.operation view, timeoutTs := timeoutTs }
        address slot) path) :
    view.contents <+: path := by
  obtain ⟨limit, hread⟩ := hread
  rw [call.load_addr view timeoutTs address slot] at hread
  have hclean : 0 ∉ view.contents := view.noNul
  rw [view.contents_eq_slice] at hclean ⊢
  exact slice_prefix_of_readString hread hclean

/-- The directory part of `/a/b`, as a view into the whole path. -/
def directoryView : PathView where
  memory i := if i < 4096 then 0 else [47, 97, 47, 98, 0].getD (i - 4096) 0
  base := 4096
  bytes := [47, 97, 47, 98, 0]
  offset := 0
  size := 2
  placed := by decide
  addressable := by decide
  within := by decide
  noNul := by decide

/-- `Open` on the view `/a` of `/a/b` opens `/a/b`. -/
theorem directory_opened_as_file :
    directoryView.contents = [47, 97] ∧
    ¬ KernelReadsPath directoryView.memory
      (Awaitable.stageBytes { op := (PathCall.openAt 0 0o644 (-100)).operation directoryView }
        65536 fun _ => 0) directoryView.contents ∧
    KernelReadsPath directoryView.memory
      (Awaitable.stageBytes { op := (PathCall.openAt 0 0o644 (-100)).operation directoryView }
        65536 fun _ => 0) [47, 97, 47, 98] := by
  have haddr := PathCall.load_addr (.openAt 0 0o644 (-100)) directoryView none 65536 fun _ => 0
  refine ⟨by decide, ?_, 5, ?_⟩
  · rintro ⟨limit, hread⟩
    rw [haddr] at hread
    obtain ⟨-, -, -, hterminated⟩ := readString_eq_some_iff.mp hread
    exact absurd hterminated (by decide)
  · rw [haddr]
    decide

end SlimCommonIo
