import SlimCommonIo.OperationSizes

/-!
# Awaiting an object again

An operation object stages a request at each `co_await`, and the kernel writes
into it at each completion: the result, `addr_` and `addr_len_` of an `Accept`,
`buf_` of a `Stat`.  `addr_len_` is both: the kernel reads from it how much
room `addr_` has, and leaves the length of the peer's address there.  `prepare`
stages its address each time and never sets it again.
-/

namespace SlimCommonIo

open ByteBlock

/-- `sizeof(struct statx)`. -/
def statxSize : ℕ := 256

/-- An operation object.  `storage` holds the members whose addresses the
kernel is given: `addr_` and `addr_len_`, or `buf_`. -/
structure OperationObject where
  awt : Awaitable
  storage : Block

/-- `Accept::Accept`, over some memory, with `addr_` at `self`. -/
def Accept.construct (serverFd : Int32) (self : UInt64) (memory : Block) : OperationObject where
  awt := { op := .accept serverFd self (self + UInt64.ofNat sockaddrStorageSize) }
  storage := socketStorage memory (UInt32.ofNat sockaddrStorageSize)

/-- What a completion brings.  The kernel writes an address and a length for an
accepted connection, the file's status for a found file, and nothing for a
failure. -/
structure Completion where
  res : Int32
  peer : Option (Block × UInt32)
  status : Option Block

/-- What the kernel is offered at an await: the entries, and the values it
finds at addresses within the object. -/
structure Request where
  sqe : List UInt8
  timeoutSqe : Option (List UInt8)
  addressRoom : Option ℕ
  address : List UInt8
  deadline : Option KernelTimespec
  deriving DecidableEq, Repr

namespace OperationObject

/-- How long an address the kernel finds an `Accept` to have room for. -/
def addressRoom (object : OperationObject) : Option ℕ :=
  match object.awt.op with
  | .accept _ _ _ => some (load object.storage SocketMember.addrLen)
  | _ => none

/-- The address the kernel reads for a `Connect`. -/
def address (object : OperationObject) : List UInt8 :=
  match object.awt.op with
  | .connect _ _ addrLen => slice object.storage 0 addrLen.toNat
  | _ => []

/-- The request of an await, the object being at `self`. -/
def request (object : OperationObject) (self : UInt64) (slot timeoutSlot : Block) :
    Request where
  sqe := slice (object.awt.stageBytes self slot) 0 sqeSize
  timeoutSqe :=
    if object.awt.timeoutTs.isSome then
      some (slice (object.awt.timeoutBytes timeoutSlot) 0 sqeSize)
    else none
  addressRoom := object.addressRoom
  address := object.address
  deadline := object.awt.timeoutTs

/-- `handle = h` at the end of `await_suspend`. -/
def suspend (object : OperationObject) (frame : FrameId) : OperationObject :=
  { object with awt := { object.awt with handle := some frame } }

/-- The kernel's writes, then `awt->result = cqe.res`. -/
def complete (object : OperationObject) (completion : Completion) : OperationObject where
  awt := { object.awt with result := completion.res }
  storage :=
    match object.awt.op with
    | .accept _ _ _ =>
        match completion.peer with
        | some (address, addrLen) =>
            store (storeBytes object.storage (memcpy address sockaddrStorageSize))
              SocketMember.addrLen addrLen.toNat
        | none => object.storage
    | .stat _ _ _ _ _ =>
        match completion.status with
        | some buf => storeBytes object.storage (memcpy buf statxSize)
        | none => object.storage
    | _ => object.storage

def coAwait (object : OperationObject) (await : FrameId × Completion) : OperationObject :=
  (object.suspend await.1).complete await.2

def after (object : OperationObject) (awaits : List (FrameId × Completion)) :
    OperationObject :=
  awaits.foldl coAwait object

/-- The completion leaves an `Accept` the room it had. -/
def KeepsRoom (object : OperationObject) (completion : Completion) : Prop :=
  match object.awt.op with
  | .accept _ _ _ =>
      ∀ peer, completion.peer = some peer →
        peer.2.toNat = load object.storage SocketMember.addrLen
  | _ => True

/-! ## One await -/

variable (object : OperationObject)

/-- What the slots held before has no influence. -/
theorem request_slot (self : UInt64) (slot timeoutSlot slot' timeoutSlot' : Block) :
    object.request self slot timeoutSlot = object.request self slot' timeoutSlot' := by
  have hsqe : slice (object.awt.stageBytes self slot) 0 sqeSize =
      slice (object.awt.stageBytes self slot') 0 sqeSize := by
    apply slice_congr
    intro i _ hlt
    exact object.awt.stageBytes_slot self slot slot' (by omega)
  have htimeout : slice (object.awt.timeoutBytes timeoutSlot) 0 sqeSize =
      slice (object.awt.timeoutBytes timeoutSlot') 0 sqeSize := by
    apply slice_congr
    intro i _ hlt
    exact object.awt.timeoutBytes_slot timeoutSlot timeoutSlot' (by omega)
  rw [request, request, hsqe, htimeout]

theorem address_coAwait (await : FrameId × Completion) :
    (object.coAwait await).address = object.address := by
  unfold address
  cases hop : object.awt.op with
  | connect fd addr addrLen =>
      have hsame : (object.coAwait await).awt.op = .connect fd addr addrLen := hop
      have hstorage : (object.coAwait await).storage = object.storage := by
        simp [coAwait, complete, suspend, hop]
      rw [hsame, hstorage]
  | _ =>
      have hsame : (object.coAwait await).awt.op = object.awt.op := rfl
      rw [hsame, hop]

theorem addressRoom_coAwait_iff (await : FrameId × Completion) :
    (object.coAwait await).addressRoom = object.addressRoom ↔ object.KeepsRoom await.2 := by
  have hsame : (object.coAwait await).awt.op = object.awt.op := rfl
  unfold addressRoom KeepsRoom
  rw [hsame]
  cases hop : object.awt.op with
  | accept serverFd addr addrLen =>
      simp only [Option.some.injEq]
      cases hpeer : await.2.peer with
      | none =>
          have hstorage : (object.coAwait await).storage = object.storage := by
            simp [coAwait, complete, suspend, hop, hpeer]
          rw [hstorage]
          simp
      | some peer =>
          have hroom : load (object.coAwait await).storage SocketMember.addrLen =
              peer.2.toNat := by
            simp only [coAwait, complete, suspend, hop, hpeer]
            rw [load_store_self]
            exact Nat.mod_eq_of_lt peer.2.toNat_lt
          rw [hroom]
          simp
  | _ => simp

theorem request_coAwait_iff
    (await : FrameId × Completion) (self : UInt64) (slot timeoutSlot : Block) :
    (object.coAwait await).request self slot timeoutSlot =
        object.request self slot timeoutSlot ↔
      object.KeepsRoom await.2 := by
  rw [← object.addressRoom_coAwait_iff await]
  constructor
  · intro hrequest
    exact congrArg Request.addressRoom hrequest
  · intro hroom
    unfold request
    rw [hroom, object.address_coAwait await]
    rfl

/-! ## Many awaits -/

theorem KeepsRoom.coAwait
    {object : OperationObject} {await : FrameId × Completion} (hkeeps : object.KeepsRoom await.2)
    (completion : Completion) :
    (object.coAwait await).KeepsRoom completion ↔ object.KeepsRoom completion := by
  have hsame : (object.coAwait await).awt.op = object.awt.op := rfl
  have hroom := (object.addressRoom_coAwait_iff await).mpr hkeeps
  unfold addressRoom at hroom
  unfold KeepsRoom
  rw [hsame] at hroom ⊢
  cases hop : object.awt.op with
  | accept serverFd addr addrLen =>
      rw [hop] at hroom
      simp only [Option.some.injEq] at hroom
      simp only [hroom]
  | _ => rfl

end OperationObject

/-- Every await of an object stages the first one's request exactly when no
completion changes the room an `Accept` started with. -/
theorem awaits_repeat_request_iff
    (object : OperationObject) (awaits : List (FrameId × Completion))
    (self : UInt64) (slot timeoutSlot : Block) :
    (∀ n ≤ awaits.length, ∀ slot' timeoutSlot' : Block,
        (object.after (awaits.take n)).request self slot' timeoutSlot' =
          object.request self slot timeoutSlot) ↔
      ∀ await ∈ awaits, object.KeepsRoom await.2 := by
  induction awaits generalizing object with
  | nil =>
      refine ⟨fun _ await hmem => absurd hmem (by simp), ?_⟩
      intro _ n _ slot' timeoutSlot'
      rw [List.take_nil]
      exact object.request_slot self slot' timeoutSlot' slot timeoutSlot
  | cons await awaits ih =>
      constructor
      · intro hsame
        have hfirst : (object.coAwait await).request self slot timeoutSlot =
            object.request self slot timeoutSlot := by
          simpa [OperationObject.after] using hsame 1 (by simp) slot timeoutSlot
        have hkeeps := (object.request_coAwait_iff await self slot timeoutSlot).mp hfirst
        have hrest : ∀ await' ∈ awaits, (object.coAwait await).KeepsRoom await'.2 := by
          rw [← ih (object.coAwait await)]
          intro n hn slot' timeoutSlot'
          rw [hfirst]
          exact hsame (n + 1) (Nat.succ_le_succ hn) slot' timeoutSlot'
        intro await' hmem
        rcases List.mem_cons.mp hmem with rfl | hmem
        · exact hkeeps
        · exact (hkeeps.coAwait await'.2).mp (hrest await' hmem)
      · intro hkeeps n hn slot' timeoutSlot'
        have hfirst := hkeeps await List.mem_cons_self
        cases n with
        | zero => exact object.request_slot self slot' timeoutSlot' slot timeoutSlot
        | succ n =>
            have hrest : ∀ await' ∈ awaits, (object.coAwait await).KeepsRoom await'.2 :=
              fun await' hmem =>
                (hfirst.coAwait await'.2).mpr (hkeeps await' (List.mem_cons_of_mem _ hmem))
            have hlater := (ih (object.coAwait await)).mpr hrest n (Nat.le_of_succ_le_succ hn)
              slot' timeoutSlot'
            exact hlater.trans
              ((object.request_coAwait_iff await self slot timeoutSlot).mpr hfirst)

theorem Accept.construct_addressRoom (serverFd : Int32) (self : UInt64) (memory : Block) :
    (Accept.construct serverFd self memory).addressRoom = some sockaddrStorageSize :=
  congrArg some (load_socketStorage memory (UInt32.ofNat sockaddrStorageSize))

/-- An IPv4 client has connected to a listening socket. -/
def acceptedIpv4 : FrameId × Completion :=
  (0, { res := 5, peer := some (fun _ => 0, 16), status := none })

/-- After an IPv4 client, the same `Accept` offers the kernel 16 bytes of its
128. -/
theorem second_accept_offers_sixteen :
    (Accept.construct 3 4096 fun _ => 0).addressRoom = some 128 ∧
    ((Accept.construct 3 4096 fun _ => 0).after [acceptedIpv4]).addressRoom = some 16 ∧
    ¬ ∀ n ≤ [acceptedIpv4].length, ∀ slot' timeoutSlot' : Block,
      ((Accept.construct 3 4096 fun _ => 0).after ([acceptedIpv4].take n)).request 8192 slot'
          timeoutSlot' =
        (Accept.construct 3 4096 fun _ => 0).request 8192 (fun _ => 0) (fun _ => 0) := by
  have hfirst : (Accept.construct 3 4096 fun _ => 0).addressRoom = some 128 :=
    Accept.construct_addressRoom 3 4096 fun _ => 0
  have hsecond :
      ((Accept.construct 3 4096 fun _ => 0).after [acceptedIpv4]).addressRoom = some 16 :=
    congrArg some (load_store_self _ _ _)
  refine ⟨hfirst, hsecond, ?_⟩
  intro hsame
  have hroom := congrArg Request.addressRoom (hsame 1 le_rfl (fun _ => 0) fun _ => 0)
  change ((Accept.construct 3 4096 fun _ => 0).after [acceptedIpv4]).addressRoom =
    (Accept.construct 3 4096 fun _ => 0).addressRoom at hroom
  rw [hfirst, hsecond] at hroom
  exact absurd hroom (by decide)

end SlimCommonIo
