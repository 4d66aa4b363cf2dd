import SlimCommonIo.ByteBlock
import SlimCommonIo.SubmissionRing

/-!
# The bytes of a submission entry

`io_uring_sqe` as 64 bytes with overlapping members: `off` and `addr2` share
their storage, and so do `open_flags`, `msg_flags`, `accept_flags`,
`poll32_events` and `statx_flags`.  The `prepare` overrides and the two
patches of `await_suspend` are sequences of stores to these members.  The
kernel's reading of an entry is a decoder of its own, which refuses an entry
with anything but zero in a member its opcode does not use.
-/

namespace SlimCommonIo

open ByteBlock

namespace SqeMember

def opcode : Member := ⟨0, 1⟩
def flags : Member := ⟨1, 1⟩
def ioprio : Member := ⟨2, 2⟩
def fd : Member := ⟨4, 4⟩
def off : Member := ⟨8, 8⟩
def addr2 : Member := ⟨8, 8⟩
def addr : Member := ⟨16, 8⟩
def len : Member := ⟨24, 4⟩
def rwFlags : Member := ⟨28, 4⟩
def openFlags : Member := ⟨28, 4⟩
def msgFlags : Member := ⟨28, 4⟩
def acceptFlags : Member := ⟨28, 4⟩
def poll32Events : Member := ⟨28, 4⟩
def statxFlags : Member := ⟨28, 4⟩
def userData : Member := ⟨32, 8⟩
def bufIndex : Member := ⟨40, 2⟩
def personality : Member := ⟨42, 2⟩
def spliceFdIn : Member := ⟨44, 4⟩
def addr3 : Member := ⟨48, 8⟩
def pad : Member := ⟨56, 8⟩

/-- One name for each piece of storage. -/
def all : List Member :=
  [opcode, flags, ioprio, fd, off, addr, len, rwFlags, userData, bufIndex,
    personality, spliceFdIn, addr3, pad]

end SqeMember

/-- `sizeof(io_uring_sqe)`. -/
def sqeSize : ℕ := 64

/-- The `IORING_OP_` numbers of `linux/io_uring.h`. -/
def Opcode.number : Opcode → ℕ
  | .nop => 0
  | .pollAdd => 6
  | .accept => 13
  | .linkTimeout => 15
  | .connect => 16
  | .openat => 18
  | .close => 19
  | .statx => 21
  | .read => 22
  | .write => 23
  | .send => 26
  | .recv => 27

/-! ## The writers -/

/-- The assignments of each `prepare` after its `memset`, in source order. -/
def Operation.assignments : Operation → List (Member × ℕ)
  | .accept serverFd addr addrLen =>
      [(SqeMember.opcode, Opcode.accept.number),
        (SqeMember.fd, serverFd.toUInt32.toNat),
        (SqeMember.addr, addr.toNat),
        (SqeMember.addr2, addrLen.toNat),
        (SqeMember.acceptFlags, (sockNonblock ||| sockCloexec).toNat)]
  | .close fd =>
      [(SqeMember.opcode, Opcode.close.number),
        (SqeMember.fd, fd.toUInt32.toNat)]
  | .connect fd addr addrLen =>
      [(SqeMember.opcode, Opcode.connect.number),
        (SqeMember.fd, fd.toUInt32.toNat),
        (SqeMember.addr, addr.toNat),
        (SqeMember.off, addrLen.toNat)]
  | .openAt dfd path flags mode =>
      [(SqeMember.opcode, Opcode.openat.number),
        (SqeMember.fd, dfd.toUInt32.toNat),
        (SqeMember.addr, path.toNat),
        (SqeMember.openFlags, flags.toUInt32.toNat),
        (SqeMember.len, mode.toNat)]
  | .poll fd pollMask =>
      [(SqeMember.opcode, Opcode.pollAdd.number),
        (SqeMember.fd, fd.toUInt32.toNat),
        (SqeMember.poll32Events, pollMask.toNat)]
  | .read fd buf size offset =>
      [(SqeMember.opcode, Opcode.read.number),
        (SqeMember.fd, fd.toUInt32.toNat),
        (SqeMember.addr, buf.toNat),
        (SqeMember.len, (size * 4).toUInt32.toNat),
        (SqeMember.off, offset.toNat)]
  | .recv fd buf len flags =>
      [(SqeMember.opcode, Opcode.recv.number),
        (SqeMember.fd, fd.toUInt32.toNat),
        (SqeMember.addr, buf.toNat),
        (SqeMember.len, len.toUInt32.toNat),
        (SqeMember.msgFlags, flags.toUInt32.toNat)]
  | .send fd buf len flags =>
      [(SqeMember.opcode, Opcode.send.number),
        (SqeMember.fd, fd.toUInt32.toNat),
        (SqeMember.addr, buf.toNat),
        (SqeMember.len, len.toUInt32.toNat),
        (SqeMember.msgFlags, flags.toUInt32.toNat)]
  | .stat dfd path buf flags mask =>
      [(SqeMember.opcode, Opcode.statx.number),
        (SqeMember.fd, dfd.toUInt32.toNat),
        (SqeMember.addr, path.toNat),
        (SqeMember.addr2, buf.toNat),
        (SqeMember.statxFlags, flags.toUInt32.toNat),
        (SqeMember.len, mask.toNat)]
  | .write fd buf size offset =>
      [(SqeMember.opcode, Opcode.write.number),
        (SqeMember.fd, fd.toUInt32.toNat),
        (SqeMember.addr, buf.toNat),
        (SqeMember.len, (size * 4).toUInt32.toNat),
        (SqeMember.off, offset.toNat)]

def storeAll (block : Block) (assignments : List (Member × ℕ)) : Block :=
  assignments.foldl (fun block assignment => store block assignment.1 assignment.2) block

/-- `prepare` on the bytes of a slot. -/
def Operation.prepareBytes (op : Operation) (slot : Block) : Block :=
  storeAll (clear slot sqeSize) op.assignments

/-- What `await_suspend` makes of the operation's slot: `prepare`, then
`user_data`, then the link flag. -/
def Awaitable.stageBytes (awt : Awaitable) (self : UInt64) (slot : Block) : Block :=
  let sqe := store (awt.op.prepareBytes slot) SqeMember.userData self.toNat
  if awt.timeoutTs.isSome then
    store sqe SqeMember.flags (load sqe SqeMember.flags ||| iosqeIoLink.toNat)
  else sqe

/-- The assignments to the slot of the linked timeout. -/
def Awaitable.timeoutAssignments (awt : Awaitable) : List (Member × ℕ) :=
  [(SqeMember.opcode, Opcode.linkTimeout.number),
    (SqeMember.addr, awt.timeoutAddr.toNat),
    (SqeMember.len, 1)]

def Awaitable.timeoutBytes (awt : Awaitable) (slot : Block) : Block :=
  storeAll (clear slot sqeSize) awt.timeoutAssignments

/-! ## The kernel's reading -/

/-- A request as the kernel understands it; lengths count bytes. -/
inductive KernelOp
  | accept (fd : Int32) (addr addrLen : UInt64) (flags : UInt32)
  | close (fd : Int32)
  | connect (fd : Int32) (addr : UInt64) (addrLen : ℕ)
  | openAt (dfd : Int32) (path : UInt64) (flags : Int32) (mode : UInt32)
  | poll (fd : Int32) (events : UInt32)
  | read (fd : Int32) (buf : UInt64) (bytes : ℕ) (offset : UInt64)
  | recv (fd : Int32) (buf : UInt64) (bytes : ℕ) (flags : Int32)
  | send (fd : Int32) (buf : UInt64) (bytes : ℕ) (flags : Int32)
  | statx (dfd : Int32) (path buf : UInt64) (flags : Int32) (mask : UInt32)
  | write (fd : Int32) (buf : UInt64) (bytes : ℕ) (offset : UInt64)
  deriving DecidableEq, Repr

structure KernelRequest where
  op : KernelOp
  userData : UInt64
  linked : Bool
  deriving DecidableEq, Repr

namespace KernelRequest

def word (block : Block) (m : Member) : UInt32 :=
  UInt32.ofNat (load block m)

def int (block : Block) (m : Member) : Int32 :=
  (word block m).toInt32

def quad (block : Block) (m : Member) : UInt64 :=
  UInt64.ofNat (load block m)

/-- The members an opcode reads, next to the opcode, the flags and
`user_data`, and the request it finds there. -/
def decodeOp (block : Block) : Option (List Member × KernelOp) :=
  let fd := int block SqeMember.fd
  match load block SqeMember.opcode with
  | 6 =>
      some ([SqeMember.fd, SqeMember.poll32Events],
        .poll fd (word block SqeMember.poll32Events))
  | 13 =>
      some ([SqeMember.fd, SqeMember.addr, SqeMember.addr2, SqeMember.acceptFlags],
        .accept fd (quad block SqeMember.addr) (quad block SqeMember.addr2)
          (word block SqeMember.acceptFlags))
  | 16 =>
      some ([SqeMember.fd, SqeMember.addr, SqeMember.addr2],
        .connect fd (quad block SqeMember.addr) (load block SqeMember.addr2))
  | 18 =>
      some ([SqeMember.fd, SqeMember.addr, SqeMember.len, SqeMember.openFlags],
        .openAt fd (quad block SqeMember.addr) (int block SqeMember.openFlags)
          (word block SqeMember.len))
  | 19 => some ([SqeMember.fd], .close fd)
  | 21 =>
      some ([SqeMember.fd, SqeMember.addr, SqeMember.len, SqeMember.addr2,
          SqeMember.statxFlags],
        .statx fd (quad block SqeMember.addr) (quad block SqeMember.addr2)
          (int block SqeMember.statxFlags) (word block SqeMember.len))
  | 22 =>
      some ([SqeMember.fd, SqeMember.addr, SqeMember.len, SqeMember.off],
        .read fd (quad block SqeMember.addr) (load block SqeMember.len)
          (quad block SqeMember.off))
  | 23 =>
      some ([SqeMember.fd, SqeMember.addr, SqeMember.len, SqeMember.off],
        .write fd (quad block SqeMember.addr) (load block SqeMember.len)
          (quad block SqeMember.off))
  | 26 =>
      some ([SqeMember.fd, SqeMember.addr, SqeMember.len, SqeMember.msgFlags],
        .send fd (quad block SqeMember.addr) (load block SqeMember.len)
          (int block SqeMember.msgFlags))
  | 27 =>
      some ([SqeMember.fd, SqeMember.addr, SqeMember.len, SqeMember.msgFlags],
        .recv fd (quad block SqeMember.addr) (load block SqeMember.len)
          (int block SqeMember.msgFlags))
  | _ => none

/-- The kernel's reading of an entry. -/
def decode (block : Block) : Option KernelRequest :=
  match decodeOp block with
  | none => none
  | some (used, op) =>
      let unused := SqeMember.all.filter fun m =>
        !(used ++ [SqeMember.opcode, SqeMember.flags, SqeMember.userData]).contains m
      if unused.all (fun m => load block m = 0) ∧
          (load block SqeMember.flags = 0 ∨
            load block SqeMember.flags = iosqeIoLink.toNat) then
        some
          { op := op
            userData := quad block SqeMember.userData
            linked := load block SqeMember.flags = iosqeIoLink.toNat }
      else none

end KernelRequest

/-! ## What a load finds -/

theorem SqeMember.eq_or_apart :
    ∀ m ∈ SqeMember.all, ∀ m' ∈ SqeMember.all, m = m' ∨ m.Apart m' := by
  decide

theorem SqeMember.within :
    ∀ m ∈ SqeMember.all, m.offset + m.width ≤ sqeSize := by
  decide

theorem Operation.assignments_mem (op : Operation) :
    ∀ assignment ∈ op.assignments, assignment.1 ∈ SqeMember.all := by
  cases op <;> simp [assignments, SqeMember.all, SqeMember.opcode, SqeMember.fd,
    SqeMember.off, SqeMember.addr, SqeMember.addr2, SqeMember.len, SqeMember.openFlags,
    SqeMember.acceptFlags, SqeMember.poll32Events, SqeMember.msgFlags,
    SqeMember.statxFlags, SqeMember.rwFlags]

/-- The value a list of assignments leaves in a member of a cleared entry. -/
def assigned (assignments : List (Member × ℕ)) (m : Member) : ℕ :=
  assignments.foldl
    (fun value assignment =>
      if assignment.1 = m then assignment.2 % 256 ^ m.width else value) 0

theorem load_storeAll
    {slot : Block} {assignments : List (Member × ℕ)}
    (hmembers : ∀ assignment ∈ assignments, assignment.1 ∈ SqeMember.all)
    {m : Member} (hm : m ∈ SqeMember.all) :
    load (storeAll (clear slot sqeSize) assignments) m = assigned assignments m := by
  induction assignments using List.reverseRecOn with
  | nil => exact load_clear slot (SqeMember.within m hm)
  | append_singleton assignments last ih =>
      have hbefore := ih fun assignment hmem =>
        hmembers assignment (List.mem_append_left _ hmem)
      have hlast := hmembers last (by simp)
      rw [storeAll, assigned, List.foldl_append, List.foldl_append]
      simp only [List.foldl_cons, List.foldl_nil]
      rcases SqeMember.eq_or_apart last.1 hlast m hm with heq | hapart
      · rw [if_pos heq, heq]
        exact load_store_self _ m last.2
      · by_cases heq : last.1 = m
        · rw [if_pos heq, heq]
          exact load_store_self _ m last.2
        · rw [if_neg heq, load_store_apart _ hapart]
          exact hbefore

/-- All assignments `await_suspend` makes to the operation's slot. -/
def Awaitable.assignments (awt : Awaitable) (self : UInt64) : List (Member × ℕ) :=
  awt.op.assignments ++ [(SqeMember.userData, self.toNat)] ++
    if awt.timeoutTs.isSome then [(SqeMember.flags, iosqeIoLink.toNat)] else []

theorem Awaitable.assignments_mem (awt : Awaitable) (self : UInt64) :
    ∀ assignment ∈ awt.assignments self, assignment.1 ∈ SqeMember.all := by
  intro assignment hmem
  rw [assignments, List.mem_append, List.mem_append] at hmem
  rcases hmem with (hop | hself) | hlink
  · exact awt.op.assignments_mem assignment hop
  · rw [List.mem_singleton.mp hself]
    change SqeMember.userData ∈ SqeMember.all
    decide
  · by_cases htimed : awt.timeoutTs.isSome
    · rw [if_pos htimed] at hlink
      rw [List.mem_singleton.mp hlink]
      decide
    · simp [htimed] at hlink

theorem Operation.assigned_flags (op : Operation) :
    assigned op.assignments SqeMember.flags = 0 := by
  cases op <;> rfl

theorem Awaitable.stageBytes_eq (awt : Awaitable) (self : UInt64) (slot : Block) :
    awt.stageBytes self slot = storeAll (clear slot sqeSize) (awt.assignments self) := by
  have hflags : load (store (awt.op.prepareBytes slot) SqeMember.userData self.toNat)
      SqeMember.flags = 0 := by
    rw [load_store_apart _ (by decide), Operation.prepareBytes,
      load_storeAll awt.op.assignments_mem (by decide), Operation.assigned_flags]
  rw [stageBytes, hflags, assignments, storeAll]
  by_cases htimed : awt.timeoutTs.isSome
  · simp [htimed, Operation.prepareBytes, storeAll]
  · simp [htimed, Operation.prepareBytes, storeAll]

theorem Awaitable.load_stageBytes
    (awt : Awaitable) (self : UInt64) (slot : Block) {m : Member}
    (hm : m ∈ SqeMember.all) :
    load (awt.stageBytes self slot) m = assigned (awt.assignments self) m := by
  rw [stageBytes_eq]
  exact load_storeAll (awt.assignments_mem self) hm

/-! ## The entry of the ring model -/

/-- The bytes hold this entry, objects being at these addresses. -/
structure Sqe.LaidOut (address : UserData → UInt64) (sqe : Sqe) (block : Block) :
    Prop where
  opcode : load block SqeMember.opcode = sqe.opcode.number
  flags : load block SqeMember.flags = sqe.flags.toNat
  ioprio : load block SqeMember.ioprio = sqe.ioprio.toNat
  fd : load block SqeMember.fd = sqe.fd.toUInt32.toNat
  off : load block SqeMember.off = sqe.off.toNat
  addr : load block SqeMember.addr = sqe.addr.toNat
  len : load block SqeMember.len = sqe.len.toNat
  rwFlags : load block SqeMember.rwFlags = sqe.opFlags.toNat
  userData : load block SqeMember.userData = (address sqe.userData).toNat
  bufIndex : load block SqeMember.bufIndex = sqe.bufIndex.toNat
  personality : load block SqeMember.personality = sqe.personality.toNat
  spliceFdIn : load block SqeMember.spliceFdIn = sqe.spliceFdIn.toUInt32.toNat
  addr3 : load block SqeMember.addr3 = sqe.addr3.toNat
  pad : load block SqeMember.pad = sqe.pad.toNat

/-- The operation's entry of the group an accepted `await_suspend` publishes. -/
def Awaitable.operationSqe (awt : Awaitable) (self : UserData) (stamp : Stamp) : Sqe :=
  let primary := awt.primarySqe self stamp Sqe.zero
  if awt.timeoutTs.isSome then { primary with flags := primary.flags ||| iosqeIoLink }
  else primary

theorem Operation.assigned_opcode (op : Operation) (slot : Sqe) :
    assigned op.assignments SqeMember.opcode =
      (op.prepare slot).opcode.number % 256 ^ 1 := by
  cases op <;> rfl

theorem Operation.assigned_fd (op : Operation) (slot : Sqe) :
    assigned op.assignments SqeMember.fd =
      (op.prepare slot).fd.toUInt32.toNat % 256 ^ 4 := by
  cases op <;> rfl

theorem Operation.assigned_off (op : Operation) (slot : Sqe) :
    assigned op.assignments SqeMember.off = (op.prepare slot).off.toNat % 256 ^ 8 := by
  cases op <;> rfl

theorem Operation.assigned_addr (op : Operation) (slot : Sqe) :
    assigned op.assignments SqeMember.addr = (op.prepare slot).addr.toNat % 256 ^ 8 := by
  cases op <;> rfl

theorem Operation.assigned_len (op : Operation) (slot : Sqe) :
    assigned op.assignments SqeMember.len = (op.prepare slot).len.toNat % 256 ^ 4 := by
  cases op <;> rfl

theorem Operation.assigned_rwFlags (op : Operation) (slot : Sqe) :
    assigned op.assignments SqeMember.rwFlags =
      (op.prepare slot).opFlags.toNat % 256 ^ 4 := by
  cases op <;> rfl

theorem Operation.assigned_reserved (op : Operation) {m : Member}
    (hm : m ∈ [SqeMember.ioprio, SqeMember.bufIndex, SqeMember.personality,
      SqeMember.spliceFdIn, SqeMember.addr3, SqeMember.pad]) :
    assigned op.assignments m = 0 := by
  simp only [List.mem_cons, List.not_mem_nil, or_false] at hm
  rcases hm with rfl | rfl | rfl | rfl | rfl | rfl <;> cases op <;> rfl

theorem Awaitable.assigned_op
    (awt : Awaitable) (self : UInt64) {m : Member}
    (hflags : m ≠ SqeMember.flags) (hself : m ≠ SqeMember.userData) :
    assigned (awt.assignments self) m = assigned awt.op.assignments m := by
  rw [assigned, assignments, List.foldl_append, List.foldl_append]
  simp only [List.foldl_cons, List.foldl_nil, if_neg hself.symm]
  by_cases htimed : awt.timeoutTs.isSome
  · simp only [if_pos htimed, List.foldl_cons, List.foldl_nil, if_neg hflags.symm]
    rfl
  · simp only [if_neg htimed, List.foldl_nil]
    rfl

theorem Awaitable.assigned_userData (awt : Awaitable) (self : UInt64) :
    assigned (awt.assignments self) SqeMember.userData = self.toNat := by
  rw [assigned, assignments, List.foldl_append, List.foldl_append]
  by_cases htimed : awt.timeoutTs.isSome
  · simp [htimed, SqeMember.userData, SqeMember.flags]
  · simp [htimed, SqeMember.userData]

theorem Awaitable.assigned_flags (awt : Awaitable) (self : UInt64) :
    assigned (awt.assignments self) SqeMember.flags =
      if awt.timeoutTs.isSome then iosqeIoLink.toNat else 0 := by
  by_cases htimed : awt.timeoutTs.isSome
  · rw [assigned, assignments, List.foldl_append]
    simp [htimed, SqeMember.flags, iosqeIoLink]
  · have hop := awt.op.assigned_flags
    rw [assigned] at hop
    rw [assigned, assignments, List.foldl_append, List.foldl_append, hop]
    simp [htimed, SqeMember.flags, SqeMember.userData]

theorem Operation.prepare_flags (op : Operation) (slot : Sqe) :
    (op.prepare slot).flags = 0 := by
  cases op <;> rfl

theorem Opcode.number_lt (opcode : Opcode) : opcode.number < 256 ^ 1 := by
  cases opcode <;> decide

theorem Awaitable.operationSqe_eq
    (awt : Awaitable) (self : UserData) (stamp : Stamp) :
    awt.operationSqe self stamp =
      { awt.op.prepare Sqe.zero with
        flags := if awt.timeoutTs.isSome then iosqeIoLink else 0
        userData := self
        stamp := some stamp } := by
  have hflags := awt.op.prepare_flags Sqe.zero
  unfold operationSqe primarySqe
  by_cases htimed : awt.timeoutTs.isSome
  · simp [htimed, hflags]
  · simp [htimed, hflags]

/-- The stores of `await_suspend` lay out the entry of the ring model, whatever
the slot held before. -/
theorem Awaitable.stageBytes_laidOut
    (awt : Awaitable) (self : UserData) (stamp : Stamp)
    (address : UserData → UInt64) (slot : Block) :
    Sqe.LaidOut address (awt.operationSqe self stamp)
      (awt.stageBytes (address self) slot) := by
  have hload := fun m (hm : m ∈ SqeMember.all) =>
    awt.load_stageBytes (address self) slot hm
  have hop := fun m (hm : m ∈ SqeMember.all) (hflags : m ≠ SqeMember.flags)
      (hself : m ≠ SqeMember.userData) =>
    (hload m hm).trans (awt.assigned_op (address self) hflags hself)
  have hreserved := fun m (hm : m ∈ SqeMember.all) (hflags : m ≠ SqeMember.flags)
      (hself : m ≠ SqeMember.userData) hzero =>
    (hop m hm hflags hself).trans (awt.op.assigned_reserved hzero)
  have hop32 := fun (x : UInt32) => Nat.mod_eq_of_lt x.toNat_lt
  have hop64 := fun (x : UInt64) => Nat.mod_eq_of_lt x.toNat_lt
  rw [operationSqe_eq]
  constructor
  case opcode =>
    rw [hop _ (by decide) (by decide) (by decide), Operation.assigned_opcode _ Sqe.zero]
    exact Nat.mod_eq_of_lt (Opcode.number_lt _)
  case flags =>
    rw [hload _ (by decide), assigned_flags]
    by_cases htimed : awt.timeoutTs.isSome
    · simp [htimed]
    · simp [htimed]
  case fd =>
    rw [hop _ (by decide) (by decide) (by decide), Operation.assigned_fd _ Sqe.zero]
    exact hop32 _
  case off =>
    rw [hop _ (by decide) (by decide) (by decide), Operation.assigned_off _ Sqe.zero]
    exact hop64 _
  case addr =>
    rw [hop _ (by decide) (by decide) (by decide), Operation.assigned_addr _ Sqe.zero]
    exact hop64 _
  case len =>
    rw [hop _ (by decide) (by decide) (by decide), Operation.assigned_len _ Sqe.zero]
    exact hop32 _
  case rwFlags =>
    rw [hop _ (by decide) (by decide) (by decide), Operation.assigned_rwFlags _ Sqe.zero]
    exact hop32 _
  case userData => rw [hload _ (by decide), assigned_userData]
  -- no operation writes the reserved members
  all_goals
    rw [hreserved _ (by decide) (by decide) (by decide) (by decide)]
    cases awt.op <;> rfl

theorem Awaitable.timeoutAssignments_mem (awt : Awaitable) :
    ∀ assignment ∈ awt.timeoutAssignments, assignment.1 ∈ SqeMember.all := by
  simp [timeoutAssignments, SqeMember.all, SqeMember.opcode, SqeMember.addr, SqeMember.len]

/-- The same for the companion, whose `user_data` stays null. -/
theorem Awaitable.timeoutBytes_laidOut
    (awt : Awaitable) {address : UserData → UInt64} (hnull : address .null = 0)
    (slot : Block) : Sqe.LaidOut address awt.timeoutSqe (awt.timeoutBytes slot) := by
  have hload : ∀ m ∈ SqeMember.all,
      load (awt.timeoutBytes slot) m = assigned awt.timeoutAssignments m :=
    fun m hm => load_storeAll awt.timeoutAssignments_mem hm
  constructor
  case addr =>
    rw [hload _ (by decide)]
    exact Nat.mod_eq_of_lt awt.timeoutAddr.toNat_lt
  case userData =>
    change _ = (address UserData.null).toNat
    rw [hload _ (by decide), hnull]
    rfl
  all_goals
    rw [hload _ (by decide)]
    rfl

/-! ## Decoding -/

/-- The request an operation stands for; a span of 32-bit words is so many
times four bytes. -/
def Operation.meaning : Operation → KernelOp
  | .accept serverFd addr addrLen =>
      .accept serverFd addr addrLen (sockNonblock ||| sockCloexec)
  | .close fd => .close fd
  | .connect fd addr addrLen => .connect fd addr addrLen.toNat
  | .openAt dfd path flags mode => .openAt dfd path flags mode
  | .poll fd pollMask => .poll fd pollMask
  | .read fd buf size offset => .read fd buf (4 * size.toNat) offset
  | .recv fd buf len flags => .recv fd buf len.toNat flags
  | .send fd buf len flags => .send fd buf len.toNat flags
  | .stat dfd path buf flags mask => .statx dfd path buf flags mask
  | .write fd buf size offset => .write fd buf (4 * size.toNat) offset

/-- `sizeof(sockaddr_storage)`. -/
def sockaddrStorageSize : ℕ := 128

/-- Byte lengths fit the 32 bits of `len`, addresses fit `sockaddr_storage`. -/
def Operation.Fits : Operation → Prop
  | .connect _ _ addrLen => addrLen.toNat ≤ sockaddrStorageSize
  | .read _ _ size _ => 4 * size.toNat < 2 ^ 32
  | .recv _ _ len _ => len.toNat < 2 ^ 32
  | .send _ _ len _ => len.toNat < 2 ^ 32
  | .write _ _ size _ => 4 * size.toNat < 2 ^ 32
  | _ => True

theorem Operation.meaning_injective : Function.Injective Operation.meaning := by
  intro op op' hmeaning
  cases op <;> cases op' <;> simp [meaning] at hmeaning <;>
    grind [UInt64.toNat_inj, UInt32.toNat_inj]

namespace KernelRequest

theorem word_eq
    {block : Block} {m : Member} {x : UInt32} (hload : load block m = x.toNat) :
    word block m = x := by
  rw [word, hload, UInt32.ofNat_toNat]

theorem int_eq
    {block : Block} {m : Member} {x : Int32} (hload : load block m = x.toUInt32.toNat) :
    int block m = x := by
  rw [int, word_eq hload, Int32.toInt32_toUInt32]

theorem quad_eq
    {block : Block} {m : Member} {x : UInt64} (hload : load block m = x.toNat) :
    quad block m = x := by
  rw [quad, hload, UInt64.ofNat_toNat]

/-- The members other than the opcode, the flags and `user_data` are zero
where the opcode does not use them. -/
theorem unused_zero
    {address : UserData → UInt64} {op : Operation} {flags : UInt8} {self : UserData}
    {stamp : Option Stamp} {block : Block} {used : List Member}
    (hlaid : Sqe.LaidOut address
      { op.prepare Sqe.zero with flags := flags, userData := self, stamp := stamp } block)
    (hfd : SqeMember.fd ∈ used)
    (hoff : SqeMember.off ∈ used ∨ load block SqeMember.off = 0)
    (haddr : SqeMember.addr ∈ used ∨ load block SqeMember.addr = 0)
    (hlen : SqeMember.len ∈ used ∨ load block SqeMember.len = 0)
    (hrwFlags : SqeMember.rwFlags ∈ used ∨ load block SqeMember.rwFlags = 0) :
    ∀ m ∈ SqeMember.all,
      m ∉ used ++ [SqeMember.opcode, SqeMember.flags, SqeMember.userData] →
      load block m = 0 := by
  intro m hm hunused
  rw [List.mem_append, not_or] at hunused
  obtain ⟨hnot, hfixed⟩ := hunused
  simp only [SqeMember.all, List.mem_cons, List.not_mem_nil, or_false] at hm
  rcases hm with rfl | rfl | rfl | rfl | rfl | rfl | rfl | rfl | rfl | rfl | rfl | rfl |
    rfl | rfl
  · exact absurd (by decide) hfixed
  · exact absurd (by decide) hfixed
  · rw [hlaid.ioprio]
    cases op <;> rfl
  · exact absurd hfd hnot
  · exact hoff.resolve_left hnot
  · exact haddr.resolve_left hnot
  · exact hlen.resolve_left hnot
  · exact hrwFlags.resolve_left hnot
  · exact absurd (by decide) hfixed
  · rw [hlaid.bufIndex]
    cases op <;> rfl
  · rw [hlaid.personality]
    cases op <;> rfl
  · rw [hlaid.spliceFdIn]
    cases op <;> rfl
  · rw [hlaid.addr3]
    cases op <;> rfl
  · rw [hlaid.pad]
    cases op <;> rfl

theorem words_toNat
    {size : UInt64} (hfits : 4 * size.toNat < 2 ^ 32) :
    (size * 4).toUInt32.toNat = 4 * size.toNat := by
  have hfour : (4 : UInt64).toNat = 4 := rfl
  rw [UInt64.toNat_toUInt32, UInt64.toNat_mul, hfour]
  omega

theorem bytes_toNat
    {len : UInt64} (hfits : len.toNat < 2 ^ 32) : len.toUInt32.toNat = len.toNat := by
  rw [UInt64.toNat_toUInt32]
  exact Nat.mod_eq_of_lt hfits

/-- Each member the kernel reads holds the argument it stands for. -/
theorem decodeOp_of_laidOut
    {address : UserData → UInt64} {op : Operation} {flags : UInt8} {self : UserData}
    {stamp : Option Stamp} {block : Block} (hfits : op.Fits)
    (hlaid : Sqe.LaidOut address
      { op.prepare Sqe.zero with flags := flags, userData := self, stamp := stamp } block) :
    ∃ used, decodeOp block = some (used, op.meaning) ∧
      ∀ m ∈ SqeMember.all,
        m ∉ used ++ [SqeMember.opcode, SqeMember.flags, SqeMember.userData] →
        load block m = 0 := by
  cases op with
  | accept serverFd addr addrLen =>
      have hopcode : load block SqeMember.opcode = 13 := hlaid.opcode
      have haddr2 : quad block SqeMember.addr2 = addrLen := quad_eq hlaid.off
      have hflags : word block SqeMember.acceptFlags = sockNonblock ||| sockCloexec :=
        word_eq hlaid.rwFlags
      simp only [decodeOp, hopcode, int_eq hlaid.fd, quad_eq hlaid.addr, haddr2, hflags]
      exact ⟨_, rfl, unused_zero hlaid (by decide) (.inl (by decide)) (.inl (by decide))
        (.inr hlaid.len) (.inl (by decide))⟩
  | close fd =>
      have hopcode : load block SqeMember.opcode = 19 := hlaid.opcode
      simp only [decodeOp, hopcode, int_eq hlaid.fd]
      exact ⟨_, rfl, unused_zero hlaid (by decide) (.inr hlaid.off) (.inr hlaid.addr)
        (.inr hlaid.len) (.inr hlaid.rwFlags)⟩
  | connect fd addr addrLen =>
      have hopcode : load block SqeMember.opcode = 16 := hlaid.opcode
      have haddr2 : load block SqeMember.addr2 = addrLen.toNat := hlaid.off
      simp only [decodeOp, hopcode, int_eq hlaid.fd, quad_eq hlaid.addr, haddr2]
      exact ⟨_, rfl, unused_zero hlaid (by decide) (.inl (by decide)) (.inl (by decide))
        (.inr hlaid.len) (.inr hlaid.rwFlags)⟩
  | openAt dfd path flags mode =>
      have hopcode : load block SqeMember.opcode = 18 := hlaid.opcode
      have hflags : int block SqeMember.openFlags = flags := int_eq hlaid.rwFlags
      simp only [decodeOp, hopcode, int_eq hlaid.fd, quad_eq hlaid.addr, word_eq hlaid.len,
        hflags]
      exact ⟨_, rfl, unused_zero hlaid (by decide) (.inr hlaid.off) (.inl (by decide))
        (.inl (by decide)) (.inl (by decide))⟩
  | poll fd pollMask =>
      have hopcode : load block SqeMember.opcode = 6 := hlaid.opcode
      have hevents : word block SqeMember.poll32Events = pollMask := word_eq hlaid.rwFlags
      simp only [decodeOp, hopcode, int_eq hlaid.fd, hevents]
      exact ⟨_, rfl, unused_zero hlaid (by decide) (.inr hlaid.off) (.inr hlaid.addr)
        (.inr hlaid.len) (.inl (by decide))⟩
  | read fd buf size offset =>
      have hopcode : load block SqeMember.opcode = 22 := hlaid.opcode
      have hlen : load block SqeMember.len = 4 * size.toNat :=
        hlaid.len.trans (words_toNat hfits)
      simp only [decodeOp, hopcode, int_eq hlaid.fd, quad_eq hlaid.addr, quad_eq hlaid.off,
        hlen]
      exact ⟨_, rfl, unused_zero hlaid (by decide) (.inl (by decide)) (.inl (by decide))
        (.inl (by decide)) (.inr hlaid.rwFlags)⟩
  | recv fd buf len flags =>
      have hopcode : load block SqeMember.opcode = 27 := hlaid.opcode
      have hlen : load block SqeMember.len = len.toNat :=
        hlaid.len.trans (bytes_toNat hfits)
      have hflags : int block SqeMember.msgFlags = flags := int_eq hlaid.rwFlags
      simp only [decodeOp, hopcode, int_eq hlaid.fd, quad_eq hlaid.addr, hlen, hflags]
      exact ⟨_, rfl, unused_zero hlaid (by decide) (.inr hlaid.off) (.inl (by decide))
        (.inl (by decide)) (.inl (by decide))⟩
  | send fd buf len flags =>
      have hopcode : load block SqeMember.opcode = 26 := hlaid.opcode
      have hlen : load block SqeMember.len = len.toNat :=
        hlaid.len.trans (bytes_toNat hfits)
      have hflags : int block SqeMember.msgFlags = flags := int_eq hlaid.rwFlags
      simp only [decodeOp, hopcode, int_eq hlaid.fd, quad_eq hlaid.addr, hlen, hflags]
      exact ⟨_, rfl, unused_zero hlaid (by decide) (.inr hlaid.off) (.inl (by decide))
        (.inl (by decide)) (.inl (by decide))⟩
  | stat dfd path buf flags mask =>
      have hopcode : load block SqeMember.opcode = 21 := hlaid.opcode
      have haddr2 : quad block SqeMember.addr2 = buf := quad_eq hlaid.off
      have hflags : int block SqeMember.statxFlags = flags := int_eq hlaid.rwFlags
      simp only [decodeOp, hopcode, int_eq hlaid.fd, quad_eq hlaid.addr, word_eq hlaid.len,
        haddr2, hflags]
      exact ⟨_, rfl, unused_zero hlaid (by decide) (.inl (by decide)) (.inl (by decide))
        (.inl (by decide)) (.inl (by decide))⟩
  | write fd buf size offset =>
      have hopcode : load block SqeMember.opcode = 23 := hlaid.opcode
      have hlen : load block SqeMember.len = 4 * size.toNat :=
        hlaid.len.trans (words_toNat hfits)
      simp only [decodeOp, hopcode, int_eq hlaid.fd, quad_eq hlaid.addr, quad_eq hlaid.off,
        hlen]
      exact ⟨_, rfl, unused_zero hlaid (by decide) (.inl (by decide)) (.inl (by decide))
        (.inl (by decide)) (.inr hlaid.rwFlags)⟩

theorem decode_of_laidOut
    {address : UserData → UInt64} {awt : Awaitable} {self : UserData} {stamp : Stamp}
    {block : Block} (hfits : awt.op.Fits)
    (hlaid : Sqe.LaidOut address (awt.operationSqe self stamp) block) :
    decode block =
      some
        { op := awt.op.meaning
          userData := address self
          linked := awt.timeoutTs.isSome } := by
  rw [awt.operationSqe_eq] at hlaid
  obtain ⟨used, hop, hunused⟩ := decodeOp_of_laidOut hfits hlaid
  have huser : quad block SqeMember.userData = address self := quad_eq hlaid.userData
  have hzero : (SqeMember.all.filter fun m =>
      !(used ++ [SqeMember.opcode, SqeMember.flags, SqeMember.userData]).contains m).all
        (fun m => load block m = 0) = true := by
    rw [List.all_eq_true]
    intro m hm
    rw [List.mem_filter] at hm
    have hnot : m ∉ used ++ [SqeMember.opcode, SqeMember.flags, SqeMember.userData] := by
      simpa using hm.2
    exact decide_eq_true (hunused m hm.1 hnot)
  have hflags := hlaid.flags
  cases htimed : awt.timeoutTs.isSome with
  | true =>
      rw [htimed, if_pos rfl] at hflags
      simp only [decode, hop, huser]
      rw [if_pos ⟨hzero, .inr hflags⟩, hflags]
      rfl
  | false =>
      have hnone : load block SqeMember.flags = 0 := by
        rw [hflags, htimed]
        rfl
      simp only [decode, hop, huser]
      rw [if_pos ⟨hzero, .inl hnone⟩, hnone]
      rfl

end KernelRequest

theorem Sqe.LaidOut.congr
    {address : UserData → UInt64} {sqe : Sqe} {block block' : Block}
    (hlaid : Sqe.LaidOut address sqe block)
    (hsame : ∀ i < sqeSize, block' i = block i) : Sqe.LaidOut address sqe block' := by
  have hload := fun m (hm : m ∈ SqeMember.all) =>
    load_congr hsame (SqeMember.within m hm)
  exact
    { opcode := (hload _ (by decide)).trans hlaid.opcode
      flags := (hload _ (by decide)).trans hlaid.flags
      ioprio := (hload _ (by decide)).trans hlaid.ioprio
      fd := (hload _ (by decide)).trans hlaid.fd
      off := (hload _ (by decide)).trans hlaid.off
      addr := (hload _ (by decide)).trans hlaid.addr
      len := (hload _ (by decide)).trans hlaid.len
      rwFlags := (hload _ (by decide)).trans hlaid.rwFlags
      userData := (hload _ (by decide)).trans hlaid.userData
      bufIndex := (hload _ (by decide)).trans hlaid.bufIndex
      personality := (hload _ (by decide)).trans hlaid.personality
      spliceFdIn := (hload _ (by decide)).trans hlaid.spliceFdIn
      addr3 := (hload _ (by decide)).trans hlaid.addr3
      pad := (hload _ (by decide)).trans hlaid.pad }

theorem SqeMember.covers :
    ∀ i < sqeSize, ∃ m ∈ SqeMember.all, m.offset ≤ i ∧ i < m.offset + m.width := by
  decide

/-- Nothing of the slot's previous content is left. -/
theorem storeAll_slot
    {assignments : List (Member × ℕ)}
    (hmembers : ∀ assignment ∈ assignments, assignment.1 ∈ SqeMember.all)
    (slot slot' : Block) {i : ℕ} (hi : i < sqeSize) :
    storeAll (clear slot sqeSize) assignments i =
      storeAll (clear slot' sqeSize) assignments i := by
  obtain ⟨m, hm, hle, hlt⟩ := SqeMember.covers i hi
  have hload : load (storeAll (clear slot sqeSize) assignments) m =
      load (storeAll (clear slot' sqeSize) assignments) m := by
    rw [load_storeAll hmembers hm, load_storeAll hmembers hm]
  exact eq_of_loadAt_eq hload hle hlt

theorem Awaitable.stageBytes_slot
    (awt : Awaitable) (self : UInt64) (slot slot' : Block) {i : ℕ} (hi : i < sqeSize) :
    awt.stageBytes self slot i = awt.stageBytes self slot' i := by
  rw [stageBytes_eq, stageBytes_eq]
  exact storeAll_slot (awt.assignments_mem self) slot slot' hi

theorem Awaitable.timeoutBytes_slot
    (awt : Awaitable) (slot slot' : Block) {i : ℕ} (hi : i < sqeSize) :
    awt.timeoutBytes slot i = awt.timeoutBytes slot' i :=
  storeAll_slot awt.timeoutAssignments_mem slot slot' hi

theorem Awaitable.kernelRead_of_awaitSuspend
    {awt : Awaitable} {self : UserData} {stamp : Stamp} {sq sq' : SubmissionQueue}
    (hvalid : sq.Valid) (hpending : sq.pending.toNat ≤ sq.entries.toNat)
    (haccept : awt.awaitSuspend self stamp sq = some sq') :
    sq'.kernelRead sq.tail = awt.operationSqe self stamp := by
  obtain ⟨-, -, hsqes, hcount, -⟩ :=
    awaitSuspend_appends hvalid (hvalid.wrap hpending awt) haccept
  have hhead : sq'.head = sq.head := awaitSuspend_head haccept
  have hneeded : 0 < awt.needed.toNat := by
    unfold needed
    split <;> decide
  have hread := MaskedRing.window_getElem? sq'.kernelRead sq'.head sq'.pending.toNat
    sq.pending.toNat (by omega)
  change sq'.pendingSqes[sq.pending.toNat]? = _ at hread
  have hlength : sq.pendingSqes.length = sq.pending.toNat :=
    MaskedRing.window_length _ _ _
  rw [hsqes, List.getElem?_append_right (by omega), hlength, Nat.sub_self, hhead,
    ← sq.tail_eq] at hread
  have hfirst : (awt.group self stamp)[0]? = some (awt.operationSqe self stamp) := by
    unfold group operationSqe
    by_cases htimed : awt.timeoutTs.isSome
    · simp [htimed]
    · simp [htimed]
  rw [hfirst, Option.some.injEq] at hread
  exact hread.symm

/-- An accepted `await_suspend` stages, whatever its slot held, an entry which
the kernel decodes to the operation with its arguments, this object as
`user_data`, and the link flag for a timed operation only; entries staged for
different requests differ. -/
theorem staged_sqe_decodes_to_operation
    (awt : Awaitable) (self : UserData) (address : UserData → UInt64)
    (slot : Block) (hfits : awt.op.Fits) :
    (∀ (stamp : Stamp) (sq sq' : SubmissionQueue), sq.Valid →
      sq.pending.toNat ≤ sq.entries.toNat →
      awt.awaitSuspend self stamp sq = some sq' →
      Sqe.LaidOut address (sq'.kernelRead sq.tail)
        (awt.stageBytes (address self) slot)) ∧
    KernelRequest.decode (awt.stageBytes (address self) slot) =
      some
        { op := awt.op.meaning
          userData := address self
          linked := awt.timeoutTs.isSome } ∧
    (∀ (slot' : Block), ∀ i < sqeSize,
      awt.stageBytes (address self) slot i = awt.stageBytes (address self) slot' i) ∧
    ∀ (awt' : Awaitable) (self' : UserData) (slot' : Block), awt'.op.Fits →
      (self ≠ self' → address self ≠ address self') →
      (∀ i < sqeSize,
        awt.stageBytes (address self) slot i = awt'.stageBytes (address self') slot' i) →
      awt.op = awt'.op ∧ self = self' ∧
        awt.timeoutTs.isSome = awt'.timeoutTs.isSome := by
  have hlaid := fun stamp => awt.stageBytes_laidOut self stamp address slot
  have hdecode := KernelRequest.decode_of_laidOut hfits (hlaid ⟨0, 0⟩)
  refine ⟨?_, hdecode, ?_, ?_⟩
  · intro stamp sq sq' hvalid hpending haccept
    rw [Awaitable.kernelRead_of_awaitSuspend hvalid hpending haccept]
    exact hlaid stamp
  · intro slot' i hi
    exact awt.stageBytes_slot (address self) slot slot' hi
  · intro awt' self' slot' hfits' haddress hsame
    have hlaid' := awt'.stageBytes_laidOut self' ⟨0, 0⟩ address slot'
    have hdecode' := KernelRequest.decode_of_laidOut hfits' (hlaid'.congr hsame)
    rw [hdecode, Option.some.injEq, KernelRequest.mk.injEq] at hdecode'
    obtain ⟨hop, huser, hlinked⟩ := hdecode'
    exact ⟨Operation.meaning_injective hop, not_imp_not.mp haddress huser, hlinked⟩

/-- A timed receive of four bytes. -/
theorem staged_sqe_decodes_timedRecv :
    KernelRequest.decode
        (Awaitable.stageBytes
          { op := .recv 3 4096 4 (-1), timeoutTs := some ⟨1, 0⟩ } 65536 fun _ => 255) =
      some { op := .recv 3 4096 4 (-1), userData := 65536, linked := true } :=
  (staged_sqe_decodes_to_operation
    { op := .recv 3 4096 4 (-1), timeoutTs := some ⟨1, 0⟩ } (.awaitable 0 0)
    (fun _ => 65536) (fun _ => 255)
    (show (4 : UInt64).toNat < 2 ^ 32 by decide)).2.1

end SlimCommonIo
