import SlimCommonIo.SqeLayout

/-!
# Lengths between the constructors and the kernel

`Read`, `Write`, `Recv` and `Send` keep the length they are given and narrow it
to the 32 bits of `len` in `prepare`; `Connect` copies an address of the
caller's length over a `sockaddr_storage`, behind which its own `addr_len_`
lies.  No length is checked on the way.
-/

namespace SlimCommonIo

open ByteBlock

/-! ## The storage of `Accept` and `Connect` -/

/-- `addr_len_`, which follows `addr_` in both structs; offsets count from the
start of `addr_`. -/
def SocketMember.addrLen : Member := ⟨sockaddrStorageSize, 4⟩

/-- `addr_{}`, then `addr_len_`. -/
def socketStorage (memory : Block) (addrLen : UInt32) : Block :=
  store (clear memory sockaddrStorageSize) SocketMember.addrLen addrLen.toNat

/-- The body of `Connect::Connect`: `memcpy(&addr_, addr, addr_len)`. -/
def Connect.construct (memory source : Block) (addrLen : UInt32) : Block :=
  storeBytes (socketStorage memory addrLen) (memcpy source addrLen.toNat)

/-! ## Constructor calls -/

/-- The calls which take a length.  A span counts 32-bit words.  `Connect` is
constructed over some memory, with its `addr_` at `self`, and reads the
caller's address from `source`. -/
inductive SizedCall
  | connect (fd : Int32) (self : UInt64) (memory source : Block) (addrLen : UInt32)
  | read (fd : Int32) (buf size offset : UInt64)
  | recv (fd : Int32) (buf len : UInt64) (flags : Int32)
  | send (fd : Int32) (buf len : UInt64) (flags : Int32)
  | write (fd : Int32) (buf size offset : UInt64)

namespace SizedCall

/-- The object a call leaves behind; `Connect::prepare` reads `addr_len_`. -/
def operation : SizedCall → Operation
  | .connect fd self memory source addrLen =>
      .connect fd self
        (UInt32.ofNat (load (Connect.construct memory source addrLen) SocketMember.addrLen))
  | .read fd buf size offset => .read fd buf size offset
  | .recv fd buf len flags => .recv fd buf len flags
  | .send fd buf len flags => .send fd buf len flags
  | .write fd buf size offset => .write fd buf size offset

/-- The byte length in the entry the object of a call stages. -/
def stagedLen (call : SizedCall) (timeoutTs : Option KernelTimespec) (address : UInt64)
    (slot : Block) : ℕ :=
  load (Awaitable.stageBytes { op := call.operation, timeoutTs := timeoutTs } address slot)
    SqeMember.len

/-- The length survives: a transfer is staged with as many bytes as the caller
passed, and the copy of an address stays within `addr_` and leaves `addr_len_`
as it was given. -/
def SizeKept (call : SizedCall) (timeoutTs : Option KernelTimespec) (address : UInt64)
    (slot : Block) : Prop :=
  match call with
  | .connect _ _ memory source addrLen =>
      (∀ byte ∈ memcpy source addrLen.toNat, byte.1 < sockaddrStorageSize) ∧
        load (Connect.construct memory source addrLen) SocketMember.addrLen = addrLen.toNat
  | .read _ _ size _ => call.stagedLen timeoutTs address slot = 4 * size.toNat
  | .recv _ _ len _ => call.stagedLen timeoutTs address slot = len.toNat
  | .send _ _ len _ => call.stagedLen timeoutTs address slot = len.toNat
  | .write _ _ size _ => call.stagedLen timeoutTs address slot = 4 * size.toNat

def Fits : SizedCall → Prop
  | .connect _ _ _ _ addrLen => addrLen.toNat ≤ sockaddrStorageSize
  | .read _ _ size _ => 4 * size.toNat < 2 ^ 32
  | .recv _ _ len _ => len.toNat < 2 ^ 32
  | .send _ _ len _ => len.toNat < 2 ^ 32
  | .write _ _ size _ => 4 * size.toNat < 2 ^ 32

end SizedCall

/-! ## `Connect` -/

theorem load_socketStorage (memory : Block) (addrLen : UInt32) :
    load (socketStorage memory addrLen) SocketMember.addrLen = addrLen.toNat := by
  rw [socketStorage, load_store_self]
  exact Nat.mod_eq_of_lt addrLen.toNat_lt

theorem Connect.load_construct
    (memory source : Block) {addrLen : UInt32}
    (hfits : addrLen.toNat ≤ sockaddrStorageSize) :
    load (Connect.construct memory source addrLen) SocketMember.addrLen = addrLen.toNat := by
  rw [Connect.construct, load_memcpy_of_le _ _ hfits, load_socketStorage]

theorem SizedCall.connect_sizeKept_iff
    (fd : Int32) (self : UInt64) (memory source : Block) (addrLen : UInt32)
    (timeoutTs : Option KernelTimespec) (address : UInt64) (slot : Block) :
    (SizedCall.connect fd self memory source addrLen).SizeKept timeoutTs address slot ↔
      addrLen.toNat ≤ sockaddrStorageSize := by
  constructor
  · rintro ⟨hwithin, -⟩
    by_contra hlong
    have hbyte := hwithin _ (mem_memcpy source (Nat.lt_of_not_le hlong))
    exact Nat.lt_irrefl _ hbyte
  · intro hfits
    refine ⟨?_, Connect.load_construct memory source hfits⟩
    intro byte hmem
    exact Nat.lt_of_lt_of_le (memcpy_offset_lt hmem) hfits

/-! ## Transfers -/

theorem Awaitable.load_len (awt : Awaitable) (self : UInt64) (slot : Block) :
    load (awt.stageBytes self slot) SqeMember.len = (awt.op.prepare Sqe.zero).len.toNat := by
  have hlaid := awt.stageBytes_laidOut .null ⟨0, 0⟩ (fun _ => self) slot
  rw [awt.operationSqe_eq] at hlaid
  exact hlaid.len

theorem SizedCall.stagedLen_eq
    (call : SizedCall) (timeoutTs : Option KernelTimespec) (address : UInt64) (slot : Block) :
    call.stagedLen timeoutTs address slot = (call.operation.prepare Sqe.zero).len.toNat :=
  Awaitable.load_len _ address slot

theorem words_toNat_eq_iff (size : UInt64) :
    (size * 4).toUInt32.toNat = 4 * size.toNat ↔ 4 * size.toNat < 2 ^ 32 := by
  constructor
  · intro heq
    rw [← heq]
    exact (size * 4).toUInt32.toNat_lt
  · exact KernelRequest.words_toNat

theorem bytes_toNat_eq_iff (len : UInt64) :
    len.toUInt32.toNat = len.toNat ↔ len.toNat < 2 ^ 32 := by
  constructor
  · intro heq
    rw [← heq]
    exact len.toUInt32.toNat_lt
  · exact KernelRequest.bytes_toNat

theorem SizedCall.operation_fits {call : SizedCall} (hfits : call.Fits) :
    call.operation.Fits := by
  cases call with
  | connect fd self memory source addrLen =>
      rw [operation, Connect.load_construct memory source hfits, UInt32.ofNat_toNat]
      exact hfits
  | read fd buf size offset => exact hfits
  | recv fd buf len flags => exact hfits
  | send fd buf len flags => exact hfits
  | write fd buf size offset => exact hfits

/-- The kernel finds a call which fits with all of its arguments. -/
theorem SizedCall.decode_of_fits
    {call : SizedCall} (hfits : call.Fits) (timeoutTs : Option KernelTimespec)
    (self : UserData) (address : UserData → UInt64) (slot : Block) :
    KernelRequest.decode
        (Awaitable.stageBytes { op := call.operation, timeoutTs := timeoutTs }
          (address self) slot) =
      some
        { op := call.operation.meaning
          userData := address self
          linked := timeoutTs.isSome } := by
  have hlaid := Awaitable.stageBytes_laidOut
    { op := call.operation, timeoutTs := timeoutTs } self ⟨0, 0⟩ address slot
  exact KernelRequest.decode_of_laidOut (operation_fits hfits) hlaid

/-- The length a call is given reaches its destination unchanged exactly when
it fits there: 32 bits of `len`, or the 128 bytes of `addr_`. -/
theorem size_kept_iff_fits
    (call : SizedCall) (timeoutTs : Option KernelTimespec) (address : UInt64) (slot : Block) :
    call.SizeKept timeoutTs address slot ↔ call.Fits := by
  cases call with
  | connect fd self memory source addrLen =>
      exact SizedCall.connect_sizeKept_iff fd self memory source addrLen timeoutTs address slot
  | read fd buf size offset =>
      rw [SizedCall.SizeKept, SizedCall.stagedLen_eq]
      exact words_toNat_eq_iff size
  | recv fd buf len flags =>
      rw [SizedCall.SizeKept, SizedCall.stagedLen_eq]
      exact bytes_toNat_eq_iff len
  | send fd buf len flags =>
      rw [SizedCall.SizeKept, SizedCall.stagedLen_eq]
      exact bytes_toNat_eq_iff len
  | write fd buf size offset =>
      rw [SizedCall.SizeKept, SizedCall.stagedLen_eq]
      exact words_toNat_eq_iff size

/-- A buffer of four gibibytes is received as one of no bytes, and an address
of 129 bytes is copied past the end of `addr_`. -/
theorem recv_staged_empty :
    (4294967296 : UInt64).toNat ≤ 2 ^ 61 ∧
    (SizedCall.recv 3 4096 4294967296 0).stagedLen none 65536 (fun _ => 0) = 0 ∧
    ¬ (SizedCall.recv 3 4096 4294967296 0).SizeKept none 65536 (fun _ => 0) ∧
    ¬ (SizedCall.connect 3 4096 (fun _ => 0) (fun _ => 1) 129).SizeKept none 65536
      (fun _ => 0) := by
  have hstaged : (SizedCall.recv 3 4096 4294967296 0).stagedLen none 65536 (fun _ => 0) = 0 :=
    SizedCall.stagedLen_eq _ _ _ _
  refine ⟨by decide, hstaged, ?_, ?_⟩
  · intro hkept
    exact absurd (hstaged.symm.trans hkept) (by decide)
  · rw [SizedCall.connect_sizeKept_iff]
    decide

end SlimCommonIo
