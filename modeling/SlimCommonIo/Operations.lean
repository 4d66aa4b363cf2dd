import SlimCommonIo.Ring

/-!
# Operations and `Awaitable`

The ten operations with the members their `prepare` reads, and the parts of
`Awaitable` which act on the submission ring.  Buffers, paths and the
operation's own storage enter an entry only as addresses.
-/

namespace SlimCommonIo

/-- The ten operation structs of `operations.h`. -/
inductive Operation
  | accept (serverFd : Int32) (addr addrLen : UInt64)
  | close (fd : Int32)
  | connect (fd : Int32) (addr : UInt64) (addrLen : UInt32)
  | openAt (dfd : Int32) (path : UInt64) (flags : Int32) (mode : UInt32)
  | poll (fd : Int32) (pollMask : UInt32)
  | read (fd : Int32) (buf size offset : UInt64)
  | recv (fd : Int32) (buf len : UInt64) (flags : Int32)
  | send (fd : Int32) (buf len : UInt64) (flags : Int32)
  | stat (dfd : Int32) (path buf : UInt64) (flags : Int32) (mask : UInt32)
  | write (fd : Int32) (buf size offset : UInt64)
  deriving DecidableEq, Repr

def sockNonblock : UInt32 := 0o4000
def sockCloexec : UInt32 := 0o2000000

/-- The `prepare` overrides.  Each clears the slot first, so nothing of its
previous content is read; `size` counts 32-bit words. -/
def Operation.prepare (op : Operation) (_slot : Sqe) : Sqe :=
  match op with
  | .accept serverFd addr addrLen =>
      { Sqe.zero with
        opcode := .accept, fd := serverFd, addr := addr, off := addrLen
        opFlags := sockNonblock ||| sockCloexec }
  | .close fd =>
      { Sqe.zero with opcode := .close, fd := fd }
  | .connect fd addr addrLen =>
      { Sqe.zero with
        opcode := .connect, fd := fd, addr := addr, off := addrLen.toUInt64 }
  | .openAt dfd path flags mode =>
      { Sqe.zero with
        opcode := .openat, fd := dfd, addr := path
        opFlags := flags.toUInt32, len := mode }
  | .poll fd pollMask =>
      { Sqe.zero with opcode := .pollAdd, fd := fd, opFlags := pollMask }
  | .read fd buf size offset =>
      { Sqe.zero with
        opcode := .read, fd := fd, addr := buf
        len := (size * 4).toUInt32, off := offset }
  | .recv fd buf len flags =>
      { Sqe.zero with
        opcode := .recv, fd := fd, addr := buf
        len := len.toUInt32, opFlags := flags.toUInt32 }
  | .send fd buf len flags =>
      { Sqe.zero with
        opcode := .send, fd := fd, addr := buf
        len := len.toUInt32, opFlags := flags.toUInt32 }
  | .stat dfd path buf flags mask =>
      { Sqe.zero with
        opcode := .statx, fd := dfd, addr := path, off := buf
        opFlags := flags.toUInt32, len := mask }
  | .write fd buf size offset =>
      { Sqe.zero with
        opcode := .write, fd := fd, addr := buf
        len := (size * 4).toUInt32, off := offset }

/-- `__kernel_timespec`. -/
structure KernelTimespec where
  tvSec : ℤ
  tvNsec : ℤ
  deriving DecidableEq, Repr

/-- An `Awaitable`: the operation, the optional deadline with the address of
its timespec, the result slot and the handle stored by `await_suspend`. -/
structure Awaitable where
  op : Operation
  timeoutTs : Option KernelTimespec := none
  timeoutAddr : UInt64 := 0
  result : Int32 := 0
  handle : Option FrameId := none
  deriving DecidableEq, Repr

namespace Awaitable

/-- `Awaitable::with_timeout`; `duration_cast` truncates towards zero. -/
def withTimeout (awt : Awaitable) (milliseconds : ℤ) : Awaitable :=
  let secs := milliseconds.tdiv 1000
  { awt with
    timeoutTs := some
      { tvSec := secs
        tvNsec := (milliseconds - secs * 1000) * 1000000 } }

/-- The number of slots `await_suspend` asks for. -/
def needed (awt : Awaitable) : UInt32 :=
  if awt.timeoutTs.isSome then 2 else 1

/-- The operation's own entry, without the link flag. -/
def primarySqe (awt : Awaitable) (self : UserData) (stamp : Stamp)
    (slot : Sqe) : Sqe :=
  { awt.op.prepare slot with userData := self, stamp := some stamp }

/-- The companion entry of a timed operation. -/
def timeoutSqe (awt : Awaitable) : Sqe :=
  { Sqe.zero with opcode := .linkTimeout, addr := awt.timeoutAddr, len := 1 }

/-- The ring part of `Awaitable::await_suspend`; `none` is its `false`. -/
def awaitSuspend (awt : Awaitable) (self : UserData) (stamp : Stamp)
    (sq : SubmissionQueue) : Option SubmissionQueue :=
  if !sq.hasCapacity awt.needed then none
  else
    let (sq₁, primary) := sq.commitOne
    let sq₁ := sq₁.store primary (awt.primarySqe self stamp (sq₁.sqes primary))
    if awt.timeoutTs.isSome then
      let linked := sq₁.sqes primary
      let sq₁ := sq₁.store primary { linked with flags := linked.flags ||| iosqeIoLink }
      let (sq₂, timeout) := sq₁.commitOne
      some (sq₂.store timeout awt.timeoutSqe)
    else some sq₁

/-- `Awaitable::await_resume`. -/
def awaitResume (awt : Awaitable) : Int32 :=
  awt.result

/-- The entries an accepted `await_suspend` publishes, in ring order. -/
def group (awt : Awaitable) (self : UserData) (stamp : Stamp) : List Sqe :=
  let primary := awt.primarySqe self stamp Sqe.zero
  if awt.timeoutTs.isSome then
    [{ primary with flags := primary.flags ||| iosqeIoLink }, awt.timeoutSqe]
  else [primary]

end Awaitable

end SlimCommonIo
