import SlimCommonIo.MappedRings
import SlimCommonIo.RingCalls

/-!
# Requests and completions through the mapped memory

The calls on the rings, executed on bytes.  What the kernel reads from the
mapped memory are the requests which were made, in their order; what `drain`
reads are the completions which the kernel posted, in theirs; and no byte
outside of the mappings changes.  The run of a scheduler can be executed on
bytes as well, and the bytes hold its rings at the end.
-/

namespace SlimCommonIo

open ByteBlock ResourceLedger Transition

/-! ## What the kernel understands -/

/-- A request or the timeout which is linked to one. -/
inductive KernelEntry
  | request (r : KernelRequest)
  | linkTimeout (timespec : UInt64) (count : UInt32) (userData : UInt64)
  deriving DecidableEq, Repr

/-- The kernel's reading of an entry, link timeouts included. -/
def KernelEntry.decode (block : Block) : Option KernelEntry :=
  if load block SqeMember.opcode = 15 then
    let used := [SqeMember.opcode, SqeMember.addr, SqeMember.len, SqeMember.userData]
    if (SqeMember.all.filter fun m => !used.contains m).all fun m => load block m = 0 then
      some (.linkTimeout (KernelRequest.quad block SqeMember.addr)
        (KernelRequest.word block SqeMember.len) (KernelRequest.quad block SqeMember.userData))
    else none
  else (KernelRequest.decode block).map .request

/-- What an accepted `await_suspend` asks of the kernel. -/
def AwaitCall.asks (address : UserData → UInt64) (call : AwaitCall) : List KernelEntry :=
  .request
      { op := call.awt.op.meaning
        userData := address call.self
        linked := call.awt.timeoutTs.isSome } ::
    if call.awt.timeoutTs.isSome then [.linkTimeout call.awt.timeoutAddr 1 0] else []

/-- What an armed eventfd read asks. -/
def eventfdAsks (eventfd : Int32) (addr : UInt64) : KernelEntry :=
  .request { op := .read eventfd addr 8 0, userData := addr, linked := false }

/-- Wherever the entry is laid out, the kernel understands this. -/
def Sqe.Means (address : UserData → UInt64) (sqe : Sqe) (entry : KernelEntry) : Prop :=
  ∀ block, Sqe.LaidOut address sqe block → KernelEntry.decode block = some entry

variable {address : UserData → UInt64}

theorem Operation.prepare_opcode_ne (op : Operation) :
    (op.prepare Sqe.zero).opcode.number ≠ Opcode.linkTimeout.number := by
  cases op <;> simp [prepare, Opcode.number]

theorem Awaitable.operationSqe_means
    {awt : Awaitable} (hfits : awt.op.Fits) (self : UserData) (stamp : Stamp) :
    Sqe.Means address (awt.operationSqe self stamp)
      (.request
        { op := awt.op.meaning, userData := address self, linked := awt.timeoutTs.isSome }) := by
  intro block hlaid
  have hopcode : load block SqeMember.opcode ≠ 15 := by
    rw [hlaid.opcode, awt.operationSqe_eq]
    exact awt.op.prepare_opcode_ne
  rw [KernelEntry.decode, if_neg hopcode, KernelRequest.decode_of_laidOut hfits hlaid]
  rfl

theorem Awaitable.timeoutSqe_means (hnull : address .null = 0) (awt : Awaitable) :
    Sqe.Means address awt.timeoutSqe (.linkTimeout awt.timeoutAddr 1 0) := by
  intro block hlaid
  have hopcode : load block SqeMember.opcode = 15 := hlaid.opcode
  have hlen : KernelRequest.word block SqeMember.len = 1 := KernelRequest.word_eq hlaid.len
  have huser : KernelRequest.quad block SqeMember.userData = 0 :=
    KernelRequest.quad_eq (hlaid.userData.trans (congrArg UInt64.toNat hnull))
  have hzero : ∀ m ∈ SqeMember.all.filter fun m => !(List.contains [SqeMember.opcode,
      SqeMember.addr, SqeMember.len, SqeMember.userData] m), load block m = 0 := by
    intro m hm
    have hcases : m ∈ [SqeMember.flags, SqeMember.ioprio, SqeMember.fd, SqeMember.off,
        SqeMember.rwFlags, SqeMember.bufIndex, SqeMember.personality, SqeMember.spliceFdIn,
        SqeMember.addr3, SqeMember.pad] := hm
    simp only [List.mem_cons, List.not_mem_nil, or_false] at hcases
    rcases hcases with rfl | rfl | rfl | rfl | rfl | rfl | rfl | rfl | rfl | rfl
    · exact hlaid.flags
    · exact hlaid.ioprio
    · exact hlaid.fd
    · exact hlaid.off
    · exact hlaid.rwFlags
    · exact hlaid.bufIndex
    · exact hlaid.personality
    · exact hlaid.spliceFdIn
    · exact hlaid.addr3
    · exact hlaid.pad
  rw [KernelEntry.decode, if_pos hopcode, if_pos, hlen, huser, KernelRequest.quad_eq hlaid.addr]
  · rfl
  · exact List.all_eq_true.mpr fun m hm => decide_eq_true (hzero m hm)

/-- The eventfd read is laid out like a read of two words without a stamp. -/
theorem eventfdRead_means
    {eventfd : Int32} {addr : UInt64} (hbuf : address .eventfdBuf = addr) :
    Sqe.Means address (SubmissionQueue.eventfdRead eventfd addr) (eventfdAsks eventfd addr) := by
  intro block hlaid
  have hread : Sqe.LaidOut address
      (Awaitable.operationSqe { op := .read eventfd addr 2 0 } .eventfdBuf ⟨0, 0⟩) block :=
    ⟨hlaid.opcode, hlaid.flags, hlaid.ioprio, hlaid.fd, hlaid.off, hlaid.addr, hlaid.len,
      hlaid.rwFlags, hlaid.userData, hlaid.bufIndex, hlaid.personality, hlaid.spliceFdIn,
      hlaid.addr3, hlaid.pad⟩
  have hfits : (Operation.read eventfd addr 2 0).Fits := by
    change 4 * (2 : UInt64).toNat < 2 ^ 32
    decide
  have hmeans := Awaitable.operationSqe_means hfits .eventfdBuf ⟨0, 0⟩ block hread
  rw [hbuf] at hmeans
  exact hmeans

/-- The entries of an accepted call mean what it asks. -/
theorem AwaitCall.group_means
    (hnull : address .null = 0) {call : AwaitCall} (hfits : call.awt.op.Fits) :
    List.Forall₂ (Sqe.Means address) call.group (call.asks address) := by
  rw [AwaitCall.group, Awaitable.group_eq, AwaitCall.asks]
  refine .cons (Awaitable.operationSqe_means hfits call.self call.stamp) ?_
  by_cases htimed : call.awt.timeoutTs.isSome = true
  · rw [if_pos htimed, if_pos htimed]
    exact .cons (call.awt.timeoutSqe_means hnull) .nil
  · rw [if_neg htimed, if_neg htimed]
    exact .nil

/-! ## The calls on bytes -/

/-- The memory, with the requests made and the entries the kernel has read, and
the completions posted and read. -/
structure MappedState where
  mem : Block
  asked : List KernelEntry := []
  taken : List Block := []
  posted : List (UInt64 × Int32) := []
  reaped : List (UInt64 × Int32) := []

namespace IoObject

/-- The completions which `drain` has not moved the head past. -/
def unreapedCqes (io : IoObject) (mem : Block) : List (UInt64 × Int32) :=
  MaskedRing.window (io.readCqe mem) (word mem io.cq.head)
    (word mem io.cq.tail - word mem io.cq.head).toNat

end IoObject

namespace MappedState

/-- The calls of a scheduler with this ring, eventfd and buffer. -/
def step (io : IoObject) (address : UserData → UInt64) (eventfd : Int32) (addr : UInt64)
    (s : MappedState) : RingCall → Option MappedState
  | .awaitSuspend call =>
      match io.awaitSuspend s.mem call.awt (address call.self) with
      | none => some s
      | some mem => some { s with mem := mem, asked := s.asked ++ call.asks address }
  | .armEventfdRead =>
      some
        { s with
          mem := io.armEventfdRead s.mem eventfd addr
          asked := s.asked ++ [eventfdAsks eventfd addr] }
  | .enter accepted =>
      if accepted ≤ (word s.mem io.sq.tail - word s.mem io.sq.head).toNat then
        some
          { s with
            mem := io.consume s.mem accepted
            taken := s.taken ++
              MaskedRing.window (io.kernelRead s.mem) (word s.mem io.sq.head) accepted }
      else none
  | .complete cqe =>
      if word s.mem io.cq.tail - word s.mem io.cq.head < word s.mem io.cq.entries then
        some
          { s with
            mem := io.post s.mem (address cqe.userData) cqe.res
            posted := s.posted ++ [(address cqe.userData, cqe.res)] }
      else none
  | .advance =>
      let head := word s.mem io.cq.head
      if head = word s.mem io.cq.tail then none
      else
        some
          { s with
            mem := io.advance s.mem head
            reaped := s.reaped ++ [io.readCqe s.mem head] }

end MappedState

/-- What the bytes of a completion are. -/
def Cqe.value (address : UserData → UInt64) (cqe : Cqe) : UInt64 × Int32 :=
  (address cqe.userData, cqe.res)

/-- The bytes hold these rings, and what has passed is what has passed these. -/
structure Holds (address : UserData → UInt64) (io : IoObject) (m : MappedState)
    (r : RingState) : Prop where
  mapped : io.Mapped address m.mem r.sq r.cq
  taken : List.Forall₂ (Sqe.LaidOut address) r.consumed m.taken
  posted : m.posted = r.posted.map (Cqe.value address)
  reaped : m.reaped = r.reaped.map (Cqe.value address)

/-! ## One call -/

namespace IoObject.Mapped

variable {io : IoObject} {mem : Block} {sq : SubmissionQueue} {cq : CompletionQueue}
  (hmapped : io.Mapped address mem sq cq)
include hmapped

theorem pending_eq :
    (word mem io.sq.tail - word mem io.sq.head).toNat = sq.pending.toNat := by
  rw [hmapped.submission.tail, hmapped.submission.head]
  rfl

/-- The kernel finds the next entries of the ring in the bytes. -/
theorem front
    (hvalid : sq.Valid) {count : ℕ} (hcount : count ≤ sq.pending.toNat) :
    List.Forall₂ (Sqe.LaidOut address) (sq.front count)
      (MaskedRing.window (io.kernelRead mem) (word mem io.sq.head) count) := by
  rw [hmapped.submission.head, SubmissionQueue.front, MaskedRing.window, MaskedRing.window,
    List.forall₂_map_left_iff, List.forall₂_map_right_iff, List.forall₂_same]
  intro i hi
  exact hmapped.kernelRead hvalid ((List.mem_range.mp hi).trans_le hcount)

theorem unreapedCqes :
    io.unreapedCqes mem = cq.unreapedCqes.map (Cqe.value address) := by
  have hread : io.readCqe mem = Cqe.value address ∘ cq.read := funext hmapped.readCqe
  rw [IoObject.unreapedCqes, hread, hmapped.completion.head, hmapped.completion.tail,
    CompletionQueue.unreapedCqes, MaskedRing.window, MaskedRing.window, List.map_map]
  rfl

end IoObject.Mapped

/-- An awaited operation whose length its entry can hold. -/
def RingCall.Fits : RingCall → Prop
  | .awaitSuspend call => call.awt.op.Fits
  | _ => True

instance Operation.decidableFits : DecidablePred Operation.Fits
  | .accept .. | .close _ | .openAt .. | .poll .. | .stat .. => .isTrue trivial
  | .connect _ _ _ => inferInstanceAs (Decidable (_ ≤ _))
  | .read _ _ _ _ | .recv _ _ _ _ | .send _ _ _ _ | .write _ _ _ _ =>
      inferInstanceAs (Decidable (_ < _))

instance RingCall.decidableFits : DecidablePred RingCall.Fits
  | .awaitSuspend call => call.awt.op.decidableFits
  | .armEventfdRead | .enter _ | .complete _ | .advance => .isTrue trivial

/-- What a call leaves of rings and bytes which held them. -/
structure Answered (address : UserData → UInt64) (io : IoObject) (call : RingCall)
    (r : RingState) (m : MappedState) (r' : RingState) (m' : MappedState) : Prop where
  holds : Holds address io m' r'
  sqDepth : r'.sq.entries = r.sq.entries
  cqDepth : r'.cq.entries = r.cq.entries
  outside : ∀ a, (∀ part,
    ¬ (io.region r.sq.entries.toNat r.cq.entries.toNat part).Contains a) → m'.mem a = m.mem a
  means : call.Fits → List.Forall₂ (Sqe.Means address) r.staged m.asked →
    List.Forall₂ (Sqe.Means address) r'.staged m'.asked

theorem foldl_publish_entries (group : List Sqe) (sq : SubmissionQueue) :
    (group.foldl SubmissionQueue.publish sq).entries = sq.entries := by
  induction group generalizing sq with
  | nil => rfl
  | cons sqe group ih => exact ih (sq.publish sqe)

theorem Awaitable.awaitSuspend_entries
    {awt : Awaitable} {self : UserData} {stamp : Stamp} {sq sq' : SubmissionQueue}
    (haccept : awt.awaitSuspend self stamp sq = some sq') : sq'.entries = sq.entries := by
  rw [awaitSuspend_eq, Option.ite_none_right_eq_some, Option.some.injEq] at haccept
  rw [← haccept.2, foldl_publish_entries]

section Step

variable {io : IoObject} {eventfd : Int32} {addr : UInt64} {m : MappedState} {r : RingState}

theorem Answered.refl (hholds : Holds address io m r) (call : RingCall) :
    Answered address io call r m r m :=
  ⟨hholds, rfl, rfl, fun _ _ => rfl, fun _ hmeans => hmeans⟩

theorem Holds.awaitSuspend
    (hholds : Holds address io m r) (hnull : address .null = 0) (call : AwaitCall) :
    Option.Rel (Answered address io (.awaitSuspend call) r m)
      (r.step eventfd addr (.awaitSuspend call))
      (m.step io address eventfd addr (.awaitSuspend call)) := by
  cases haccept : call.awt.awaitSuspend call.self call.stamp r.sq with
  | none =>
      simp only [RingState.step, MappedState.step, haccept,
        hholds.mapped.awaitSuspend_none haccept]
      exact .some (.refl hholds _)
  | some sq =>
      obtain ⟨mem, hmem, hmapped, hchanged⟩ :=
        hholds.mapped.awaitSuspend_some hnull haccept
      simp only [RingState.step, MappedState.step, haccept, hmem]
      refine .some ⟨⟨hmapped, hholds.taken, hholds.posted, hholds.reaped⟩,
        Awaitable.awaitSuspend_entries haccept, rfl, fun a ha => hchanged a fun part _ => ha part,
        fun hfits hmeans => ?_⟩
      exact List.rel_append hmeans (AwaitCall.group_means hnull hfits)

theorem Holds.armEventfdRead
    (hholds : Holds address io m r) (hbuf : address .eventfdBuf = addr) :
    Option.Rel (Answered address io .armEventfdRead r m)
      (r.step eventfd addr .armEventfdRead)
      (m.step io address eventfd addr .armEventfdRead) := by
  obtain ⟨hmapped, hchanged⟩ := hholds.mapped.armEventfdRead eventfd hbuf
  refine .some ⟨⟨hmapped, hholds.taken, hholds.posted, hholds.reaped⟩, rfl, rfl,
    fun a ha => hchanged a fun part _ => ha part, fun _ hmeans => ?_⟩
  exact List.rel_append hmeans (.cons (eventfdRead_means hbuf) .nil)

theorem Holds.enter
    (hholds : Holds address io m r) (hvalid : r.sq.Valid) (accepted : ℕ) :
    Option.Rel (Answered address io (.enter accepted) r m)
      (r.step eventfd addr (.enter accepted))
      (m.step io address eventfd addr (.enter accepted)) := by
  simp only [RingState.step, MappedState.step, hholds.mapped.pending_eq]
  by_cases haccepted : accepted ≤ r.sq.pending.toNat
  · obtain ⟨hmapped, hchanged⟩ := hholds.mapped.consume accepted
    rw [if_pos haccepted, if_pos haccepted]
    refine .some ⟨⟨hmapped, ?_, hholds.posted, hholds.reaped⟩, rfl, rfl,
      fun a ha => hchanged a fun part _ => ha part, fun _ hmeans => hmeans⟩
    exact List.rel_append hholds.taken (hholds.mapped.front hvalid haccepted)
  · rw [if_neg haccepted, if_neg haccepted]
    exact .none

theorem Holds.complete (hholds : Holds address io m r) (cqe : Cqe) :
    Option.Rel (Answered address io (.complete cqe) r m)
      (r.step eventfd addr (.complete cqe))
      (m.step io address eventfd addr (.complete cqe)) := by
  have hroom : (word m.mem io.cq.tail - word m.mem io.cq.head < word m.mem io.cq.entries) ↔
      r.cq.hasRoom := by
    rw [hholds.mapped.completion.tail, hholds.mapped.completion.head,
      hholds.mapped.completion.entries, CompletionQueue.hasRoom, CompletionQueue.unreaped,
      decide_eq_true_iff]
  simp only [RingState.step, MappedState.step, hroom]
  by_cases hfree : r.cq.hasRoom = true
  · obtain ⟨hmapped, hchanged⟩ := hholds.mapped.post cqe
    rw [if_pos hfree, if_pos hfree]
    refine .some ⟨⟨hmapped, hholds.taken, ?_, hholds.reaped⟩, rfl, rfl,
      fun a ha => hchanged a fun part _ => ha part, fun _ hmeans => hmeans⟩
    rw [hholds.posted, List.map_append]
    rfl
  · rw [if_neg hfree, if_neg hfree]
    exact .none

theorem Holds.advance (hholds : Holds address io m r) :
    Option.Rel (Answered address io .advance r m) (r.step eventfd addr .advance)
      (m.step io address eventfd addr .advance) := by
  have hhead := hholds.mapped.completion.head
  simp only [RingState.step, MappedState.step, hhead, hholds.mapped.completion.tail]
  by_cases hempty : r.cq.head = r.cq.tail
  · rw [if_pos hempty, if_pos hempty]
    exact .none
  · obtain ⟨hmapped, hchanged⟩ := hholds.mapped.advance r.cq.head
    rw [if_neg hempty, if_neg hempty]
    refine .some ⟨⟨hmapped, hholds.taken, hholds.posted, ?_⟩, rfl, rfl,
      fun a ha => hchanged a fun part _ => ha part, fun _ hmeans => hmeans⟩
    rw [hholds.reaped, List.map_append, hholds.mapped.readCqe]
    rfl

/-- Both take the call or neither does. -/
theorem Holds.step
    (hholds : Holds address io m r) (hvalid : r.sq.Valid) (hnull : address .null = 0)
    (hbuf : address .eventfdBuf = addr) (eventfd : Int32) (call : RingCall) :
    Option.Rel (Answered address io call r m) (r.step eventfd addr call)
      (m.step io address eventfd addr call) := by
  cases call with
  | awaitSuspend call => exact hholds.awaitSuspend hnull call
  | armEventfdRead => exact hholds.armEventfdRead hbuf
  | enter accepted => exact hholds.enter hvalid accepted
  | complete cqe => exact hholds.complete cqe
  | advance => exact hholds.advance

end Step

/-! ## The memory at the start -/

/-- The words of the sizes, which the kernel writes when it makes the rings. -/
def IoRegion.isSize : IoRegion → Bool
  | .ring .sqMask | .ring .sqEntries | .ring .cqMask | .ring .cqEntries => true
  | _ => false

/-- The kernel has written the sizes; the rest of the rings is zero. -/
structure IoObject.Initialised (io : IoObject) (sqDepth cqDepth : ℕ) (mem : Block) : Prop where
  sqMask : word mem io.sq.mask = UInt32.ofNat sqDepth - 1
  sqEntries : word mem io.sq.entries = UInt32.ofNat sqDepth
  cqMask : word mem io.cq.mask = UInt32.ofNat cqDepth - 1
  cqEntries : word mem io.cq.entries = UInt32.ofNat cqDepth
  zero : ∀ part, part.isSize = false →
    ∀ a, (io.region sqDepth cqDepth part).Contains a → mem a = 0

theorem Sqe.zero_laidOut (hnull : address .null = 0) :
    Sqe.LaidOut address Sqe.zero fun _ => 0 := by
  have huser : (address Sqe.zero.userData).toNat = 0 := congrArg UInt64.toNat hnull
  constructor
  case userData =>
    rw [huser]
    rfl
  all_goals rfl

theorem IoObject.Initialised.mapped
    {kernel : Kernel} {io : IoObject} {n k : ℕ} {mem : Block}
    (hmem : io.Initialised (2 ^ n) (2 ^ k) mem) (hmade : io.MadeFor kernel (2 ^ n) (2 ^ k))
    (hcovers : io.Covers kernel (2 ^ n) (2 ^ k)) (hn : n ≤ 15) (hk : k ≤ 16)
    (hnull : address .null = 0) :
    io.Mapped address mem (newRings (2 ^ n) (2 ^ k)).sq (newRings (2 ^ n) (2 ^ k)).cq := by
  have hcreated := newRings_created hn hk
  have hsqDepth : (newRings (2 ^ n) (2 ^ k)).sq.entries.toNat = 2 ^ n :=
    toNat_ofNat_two_pow (hn.trans (by decide))
  have hcqDepth : (newRings (2 ^ n) (2 ^ k)).cq.entries.toNat = 2 ^ k := toNat_ofNat_two_pow hk
  have hzero : ∀ (part : IoRegion) {m : Member}, part.isSize = false →
      m.Within (io.region (2 ^ n) (2 ^ k) part) → Agree (fun _ => 0) mem m := by
    intro part m hpart hin a ha
    exact hmem.zero part hpart a (hin.contains ha)
  have hlaid := hmade.laid hcovers
  rw [← hsqDepth, ← hcqDepth] at hlaid hzero
  refine ⟨⟨?_, ?_, hmem.sqMask, hmem.sqEntries, ?_, ?_⟩,
    ⟨?_, ?_, hmem.cqMask, hmem.cqEntries, ?_⟩, hcreated.sqGeometry, hcreated.cqGeometry, hlaid⟩
  · exact (hzero (.ring .sqHead) rfl (.refl _)).word
  · exact (hzero (.ring .sqTail) rfl (.refl _)).word
  · intro idx hidx
    exact (hzero (.ring .sqArray) rfl (IoObject.array_within hidx _)).word
  · intro idx hidx
    rw [(hzero .sqes rfl (IoObject.sqe_within hidx _)).view]
    refine (Sqe.zero_laidOut hnull).congr fun i _ => ?_
    simp [view]
  · exact (hzero (.ring .cqHead) rfl (.refl _)).word
  · exact (hzero (.ring .cqTail) rfl (.refl _)).word
  · intro idx hidx
    rw [(hzero (.ring .cqCqes) rfl (IoObject.cqe_within hidx _)).view]
    have hview : view (fun _ => 0) (io.cqeAt idx) = fun _ => 0 := by
      funext i
      simp [view]
    rw [hview]
    exact Prod.ext hnull.symm rfl

/-- What the kernel makes of the mappings. -/
def IoObject.initialise (io : IoObject) (sqDepth cqDepth : ℕ) (mem : Block) : Block :=
  let mem : Block := fun a => if io.mappings.any (fun m => decide (m.Contains a)) then 0 else mem a
  let mem := setWord mem io.sq.mask (UInt32.ofNat sqDepth - 1)
  let mem := setWord mem io.sq.entries (UInt32.ofNat sqDepth)
  let mem := setWord mem io.cq.mask (UInt32.ofNat cqDepth - 1)
  setWord mem io.cq.entries (UInt32.ofNat cqDepth)

theorem IoObject.initialise_initialised
    {kernel : Kernel} {io : IoObject} {sqDepth cqDepth : ℕ}
    (hmade : io.MadeFor kernel sqDepth cqDepth) (hcovers : io.Covers kernel sqDepth cqDepth)
    (mem : Block) : io.Initialised sqDepth cqDepth (io.initialise sqDepth cqDepth mem) := by
  have hlaid := hmade.laid hcovers
  constructor
  · rw [initialise, (agree_setWord (hlaid (.ring .cqEntries) (.ring .sqMask) (by decide)) _).word,
      (agree_setWord (hlaid (.ring .cqMask) (.ring .sqMask) (by decide)) _).word,
      (agree_setWord (hlaid (.ring .sqEntries) (.ring .sqMask) (by decide)) _).word,
      word_setWord_self]
  · rw [initialise,
      (agree_setWord (hlaid (.ring .cqEntries) (.ring .sqEntries) (by decide)) _).word,
      (agree_setWord (hlaid (.ring .cqMask) (.ring .sqEntries) (by decide)) _).word,
      word_setWord_self]
  · rw [initialise, (agree_setWord (hlaid (.ring .cqEntries) (.ring .cqMask) (by decide)) _).word,
      word_setWord_self]
  · rw [initialise, word_setWord_self]
  · intro part hsize a ha
    have hkept : ∀ m : RingMember, IoRegion.isSize (.ring m) = true → ∀ addr mem value,
        wordAt addr = io.region sqDepth cqDepth (.ring m) → setWord mem addr value a = mem a := by
      intro m hm addr mem value haddr
      refine agree_setWord ?_ value a ha
      rw [haddr]
      refine hlaid _ _ fun heq => ?_
      rw [heq, hsize] at hm
      cases hm
    obtain ⟨mapping, hmapping, hwithin⟩ := hmade.region_within hcovers part
    have hcleared : (io.mappings.any fun m => decide (m.Contains a)) = true :=
      List.any_eq_true.mpr ⟨mapping, hmapping, decide_eq_true (hwithin.contains ha)⟩
    rw [initialise, hkept .cqEntries rfl _ _ _ rfl, hkept .cqMask rfl _ _ _ rfl,
      hkept .sqEntries rfl _ _ _ rfl, hkept .sqMask rfl _ _ _ rfl, if_pos hcleared]

/-! ## Runs -/

/-- The bytes hold rings of these depths, and nothing outside of them has changed
since the start. -/
structure Carries (address : UserData → UInt64) (io : IoObject) (sqDepth cqDepth : ℕ)
    (start : Block) (m : MappedState) (r : RingState) : Prop where
  holds : Holds address io m r
  sqEntries : r.sq.entries.toNat = sqDepth
  cqEntries : r.cq.entries.toNat = cqDepth
  outside : ∀ a, (∀ part, ¬ (io.region sqDepth cqDepth part).Contains a) → m.mem a = start a

/-- The rings are in order as well, and the entries published are the requests
which were made. -/
structure Conveys (address : UserData → UInt64) (io : IoObject) (sqDepth cqDepth : ℕ)
    (start : Block) (m : MappedState) (r : RingState) : Prop extends
    Carries address io sqDepth cqDepth start m r where
  passed : r.Passed
  means : List.Forall₂ (Sqe.Means address) r.staged m.asked

section Runs

variable {io : IoObject} {sqDepth cqDepth : ℕ} {start : Block} {m m' : MappedState}
  {r r' : RingState} {eventfd : Int32} {addr : UInt64} {call : RingCall}

theorem Carries.answered
    (hcarries : Carries address io sqDepth cqDepth start m r)
    (hanswer : Answered address io call r m r' m') :
    Carries address io sqDepth cqDepth start m' r' := by
  refine ⟨hanswer.holds, (congrArg UInt32.toNat hanswer.sqDepth).trans hcarries.sqEntries,
    (congrArg UInt32.toNat hanswer.cqDepth).trans hcarries.cqEntries, fun a ha => ?_⟩
  rw [← hcarries.outside a ha]
  refine hanswer.outside a ?_
  rw [hcarries.sqEntries, hcarries.cqEntries]
  exact ha

namespace Conveys

theorem step
    (hconveys : Conveys address io sqDepth cqDepth start m r) (hnull : address .null = 0)
    (hbuf : address .eventfdBuf = addr) (hfits : call.Fits)
    (hroom : call = .armEventfdRead → io.isFull m.mem = false)
    (hstep : m.step io address eventfd addr call = some m') :
    ∃ r', Conveys address io sqDepth cqDepth start m' r' := by
  have hanswer := hconveys.holds.step hconveys.passed.valid hnull hbuf eventfd call
  rw [hstep] at hanswer
  cases hring : r.step eventfd addr call with
  | none =>
      rw [hring] at hanswer
      cases hanswer
  | some r' =>
      rw [hring, Option.rel_some_some] at hanswer
      have hpassed := hconveys.passed.step hring fun harm =>
        hconveys.holds.mapped.isFull.symm.trans (hroom harm)
      exact ⟨r', hconveys.toCarries.answered hanswer, hpassed,
        hanswer.means hfits hconveys.means⟩

theorem completions (hconveys : Conveys address io sqDepth cqDepth start m r) :
    m.reaped ++ io.unreapedCqes m.mem = m.posted := by
  rw [hconveys.holds.reaped, hconveys.holds.mapped.unreapedCqes, hconveys.holds.posted,
    ← List.map_append, hconveys.passed.completions]

end Conveys

end Runs

theorem Conveys.initial
    {kernel : Kernel} {io : IoObject} {entries cqEntries : UInt32} {sqDepth cqDepth : ℕ}
    {mem : Block} (hsetup : ioUringSetup entries cqEntries = some (sqDepth, cqDepth))
    (hmade : io.MadeFor kernel sqDepth cqDepth) (hcovers : io.Covers kernel sqDepth cqDepth)
    (hmem : io.Initialised sqDepth cqDepth mem) (hnull : address .null = 0) :
    Conveys address io sqDepth cqDepth mem { mem := mem }
      { sq := (newRings sqDepth cqDepth).sq, cq := (newRings sqDepth cqDepth).cq } := by
  obtain ⟨⟨n, hn, rfl⟩, ⟨k, hk, rfl⟩⟩ := ioUringSetup_le hsetup
  have hcreated := newRings_created hn hk
  refine ⟨⟨⟨hmem.mapped hmade hcovers hn hk hnull, .nil, rfl, rfl⟩, ?_, ?_, fun _ _ => rfl⟩,
    ?_, .nil⟩
  · exact toNat_ofNat_two_pow (hn.trans (by decide))
  · exact toNat_ofNat_two_pow hk
  · exact .initial hcreated.sqGeometry hcreated.cqGeometry hcreated.sqEmpty hcreated.cqEmpty

/-- The object of a first ring of two entries on Linux. -/
def linuxIo : IoObject :=
  IoObject.wire linuxKernel 2 4 1 4096 392 8584 128 4096 0

def objectAddress : UserData → UInt64
  | .null => 0
  | .eventfdBuf => 64
  | .awaitable _ _ => 1024

end SlimCommonIo
