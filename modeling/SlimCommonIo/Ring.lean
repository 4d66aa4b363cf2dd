import SlimCommonIo.MaskedRing

/-!
# The two rings of `IO`

`IO::Sq` and `IO::Cq` as the process and the kernel share them: free-running
head and tail counters, the mask and depth the kernel reports, and the slots.
The process writes submission entries and the submission tail, the kernel
reads them in ring order through `array` and moves the head; the completion
ring works the other way round.

Object addresses stored in `user_data` are kept symbolic.  An `Awaitable` is
named by the coroutine frame it lives in and its position among that frame's
objects, and identities are never reused.
-/

namespace SlimCommonIo

/-- `ErrorStatus` of `error_codes.h`. -/
inductive ErrorStatus
  | ok
  | badAllocation
  | eventFdCreateFailed
  | eventFdReadFailed
  | eventFdWriteFailed
  | ioInvalidEntries
  | ioMmapCqFailed
  | ioMmapSqesFailed
  | ioMmapSqFailed
  | ioSetupFailed
  | sqFull
  | runtimeNotIdle
  deriving DecidableEq, Repr

abbrev FrameId := ℕ

/-- What a 64-bit `user_data` field designates: nothing (0), the scheduler's
`eventfd_buf_`, or an `Awaitable` object. -/
inductive UserData
  | null
  | eventfdBuf
  | awaitable (frame : FrameId) (object : ℕ)
  deriving DecidableEq, Repr

/-- The opcodes of `linux/io_uring.h` which the library stages.  `nop` is the
value a cleared entry has. -/
inductive Opcode
  | nop
  | pollAdd
  | accept
  | linkTimeout
  | connect
  | openat
  | close
  | statx
  | read
  | write
  | send
  | recv
  deriving DecidableEq, Repr

/-- Which `co_await` staged an entry: the `ordinal`-th operation staged by the
task whose outermost frame is `task`.  This is bookkeeping of the model. -/
structure Stamp where
  task : FrameId
  ordinal : ℕ
  deriving DecidableEq, Repr

/-- `io_uring_sqe`.  `off` shares its storage with `addr2`; `opFlags` is the
storage shared by `rw_flags`, `open_flags`, `msg_flags`, `accept_flags`,
`poll32_events` and `statx_flags`. -/
structure Sqe where
  opcode : Opcode
  flags : UInt8
  ioprio : UInt16
  fd : Int32
  off : UInt64
  addr : UInt64
  len : UInt32
  opFlags : UInt32
  userData : UserData
  bufIndex : UInt16
  personality : UInt16
  spliceFdIn : Int32
  addr3 : UInt64
  pad : UInt64
  -- not part of the kernel's 64 bytes
  stamp : Option Stamp
  deriving DecidableEq, Repr

/-- The entry left by `memset(sqe, 0, sizeof(*sqe))`. -/
def Sqe.zero : Sqe where
  opcode := .nop
  flags := 0
  ioprio := 0
  fd := 0
  off := 0
  addr := 0
  len := 0
  opFlags := 0
  userData := .null
  bufIndex := 0
  personality := 0
  spliceFdIn := 0
  addr3 := 0
  pad := 0
  stamp := none

def iosqeIoLink : UInt8 := 4

/-! ## Submission ring -/

/-- `IO::Sq`. -/
structure SubmissionQueue where
  head : UInt32
  tail : UInt32
  mask : UInt32
  entries : UInt32
  array : UInt32 → UInt32
  sqes : UInt32 → Sqe

namespace SubmissionQueue

/-- `tail - head` as the code computes it. -/
def pending (sq : SubmissionQueue) : UInt32 :=
  sq.tail - sq.head

/-- `Awaitable::has_capacity`. -/
def hasCapacity (sq : SubmissionQueue) (count : UInt32) : Bool :=
  decide (sq.pending + count ≤ sq.entries)

/-- The capacity test at the top of `Scheduler::spawn`. -/
def isFull (sq : SubmissionQueue) : Bool :=
  decide (sq.entries ≤ sq.pending)

/-- `Awaitable::commit_one`: publish the next slot and return its index. -/
def commitOne (sq : SubmissionQueue) : SubmissionQueue × UInt32 :=
  let idx := MaskedRing.slot sq.mask sq.tail
  ({ sq with
      array := Function.update sq.array idx idx
      tail := sq.tail + 1 }, idx)

/-- Overwrite the entry in a slot. -/
def store (sq : SubmissionQueue) (idx : UInt32) (sqe : Sqe) : SubmissionQueue :=
  { sq with sqes := Function.update sq.sqes idx sqe }

/-- The entry `Scheduler::arm_eventfd_read` stages. -/
def eventfdRead (eventfd : Int32) (eventfdBufAddr : UInt64) : Sqe :=
  { Sqe.zero with
    opcode := .read
    fd := eventfd
    addr := eventfdBufAddr
    len := 8
    off := 0
    userData := .eventfdBuf }

/-- The ring part of `Scheduler::arm_eventfd_read`.  The head is not read. -/
def armEventfdRead (sq : SubmissionQueue)
    (eventfd : Int32) (eventfdBufAddr : UInt64) : SubmissionQueue :=
  let idx := MaskedRing.slot sq.mask sq.tail
  { sq with
    array := Function.update sq.array idx idx
    sqes := Function.update sq.sqes idx (eventfdRead eventfd eventfdBufAddr)
    tail := sq.tail + 1 }

/-- The entry the kernel finds at a running index. -/
def kernelRead (sq : SubmissionQueue) (index : UInt32) : Sqe :=
  sq.sqes (sq.array (MaskedRing.slot sq.mask index))

/-- The entries published and not yet consumed, oldest first. -/
def pendingSqes (sq : SubmissionQueue) : List Sqe :=
  MaskedRing.window sq.kernelRead sq.head sq.pending.toNat

/-- The next `count` entries, as the kernel reads them. -/
def front (sq : SubmissionQueue) (count : ℕ) : List Sqe :=
  MaskedRing.window sq.kernelRead sq.head count

/-- The kernel moves the head past `count` entries. -/
def consume (sq : SubmissionQueue) (count : ℕ) : SubmissionQueue :=
  { sq with head := sq.head + UInt32.ofNat count }

end SubmissionQueue

/-! ## Completion ring -/

/-- `io_uring_cqe`, with the stamp of the entry it completes. -/
structure Cqe where
  userData : UserData
  res : Int32
  stamp : Option Stamp
  deriving DecidableEq, Repr

/-- `IO::Cq`. -/
structure CompletionQueue where
  head : UInt32
  tail : UInt32
  mask : UInt32
  entries : UInt32
  cqes : UInt32 → Cqe

namespace CompletionQueue

def unreaped (cq : CompletionQueue) : UInt32 :=
  cq.tail - cq.head

/-- `io_.cq.cqes[index & mask]`. -/
def read (cq : CompletionQueue) (index : UInt32) : Cqe :=
  cq.cqes (MaskedRing.slot cq.mask index)

/-- The kernel has a free slot. -/
def hasRoom (cq : CompletionQueue) : Bool :=
  decide (cq.unreaped < cq.entries)

def append (cq : CompletionQueue) (cqe : Cqe) : CompletionQueue :=
  { cq with
    cqes := Function.update cq.cqes (MaskedRing.slot cq.mask cq.tail) cqe
    tail := cq.tail + 1 }

/-- The posted completions the process has not moved the head past. -/
def unreapedCqes (cq : CompletionQueue) : List Cqe :=
  MaskedRing.window cq.read cq.head cq.unreaped.toNat

end CompletionQueue

end SlimCommonIo
