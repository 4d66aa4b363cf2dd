import SlimCommonIo.IoConstruction
import SlimCommonIo.MemoryViews
import SlimCommonIo.CompletionRing
import SlimCommonIo.SlotReservation

/-!
# The rings in the mapped memory

The accesses of `Awaitable`, `Scheduler` and the kernel to the shared memory, by
loads and stores at the addresses which `IO::IO` wires.  Each access to bytes
which hold a pair of rings leaves the bytes which hold the rings after the same
operation of the ring model, and takes the same decisions.
-/

namespace SlimCommonIo

open ByteBlock

/-! ## The accesses -/

namespace CqeMember

def userData : Member := ⟨0, 8⟩
def res : Member := ⟨8, 4⟩
def flags : Member := ⟨12, 4⟩

end CqeMember

/-- The assignments of `arm_eventfd_read` after its `memset`. -/
def eventfdAssignments (eventfd : Int32) (addr : UInt64) : List (Member × ℕ) :=
  [(SqeMember.opcode, Opcode.read.number),
    (SqeMember.fd, eventfd.toUInt32.toNat),
    (SqeMember.addr, addr.toNat),
    (SqeMember.len, 8),
    (SqeMember.off, 0),
    (SqeMember.userData, addr.toNat)]

def eventfdBytes (eventfd : Int32) (addr : UInt64) (slot : Block) : Block :=
  storeAll (clear slot sqeSize) (eventfdAssignments eventfd addr)

/-- The members of `io_uring_cqe` which the library reads. -/
def cqeValue (cqe : Block) : UInt64 × Int32 :=
  (UInt64.ofNat (load cqe CqeMember.userData), (UInt32.ofNat (load cqe CqeMember.res)).toInt32)

/-- The stores of the kernel to a completion. -/
def cqeBytes (userData : UInt64) (res : Int32) (cqe : Block) : Block :=
  storeAll cqe [(CqeMember.userData, userData.toNat), (CqeMember.res, res.toUInt32.toNat),
    (CqeMember.flags, 0)]

namespace IoObject

/-- Where `io_.sq.array[idx]` is. -/
def arrayAt (io : IoObject) (idx : UInt32) : ℕ :=
  io.sq.array + 4 * idx.toNat

/-- Where `io_.sq.sqes[idx]` is. -/
def sqeAt (io : IoObject) (idx : UInt32) : Member :=
  Member.element io.sq.sqes sqeSize idx.toNat

/-- Where `io_.cq.cqes[idx]` is. -/
def cqeAt (io : IoObject) (idx : UInt32) : Member :=
  Member.element io.cq.cqes cqeSize idx.toNat

/-- `Awaitable::has_capacity`. -/
def hasCapacity (io : IoObject) (mem : Block) (count : UInt32) : Bool :=
  decide (word mem io.sq.tail - word mem io.sq.head + count ≤ word mem io.sq.entries)

/-- The capacity test of `Scheduler::spawn`. -/
def isFull (io : IoObject) (mem : Block) : Bool :=
  decide (word mem io.sq.entries ≤ word mem io.sq.tail - word mem io.sq.head)

/-- `Awaitable::commit_one`, with the index of the entry it returns. -/
def commitOne (io : IoObject) (mem : Block) : Block × UInt32 :=
  let tail := word mem io.sq.tail
  let idx := tail &&& word mem io.sq.mask
  let mem := setWord mem (io.arrayAt idx) idx
  (setWord mem io.sq.tail (tail + 1), idx)

/-- `Awaitable::await_suspend`; `none` is its `false`. -/
def awaitSuspend (io : IoObject) (mem : Block) (awt : Awaitable) (self : UInt64) :
    Option Block :=
  if !io.hasCapacity mem awt.needed then none
  else
    let primary := io.commitOne mem
    let mem := patch primary.1 (io.sqeAt primary.2) (awt.stageBytes self)
    if awt.timeoutTs.isSome then
      let timeout := io.commitOne mem
      some (patch timeout.1 (io.sqeAt timeout.2) awt.timeoutBytes)
    else some mem

/-- `Scheduler::arm_eventfd_read`. -/
def armEventfdRead (io : IoObject) (mem : Block) (eventfd : Int32) (addr : UInt64) : Block :=
  let tail := word mem io.sq.tail
  let idx := tail &&& word mem io.sq.mask
  let mem := setWord mem (io.arrayAt idx) idx
  let mem := patch mem (io.sqeAt idx) (eventfdBytes eventfd addr)
  setWord mem io.sq.tail (tail + 1)

/-- `drain` reads `io_.cq.cqes[current & mask]`. -/
def readCqe (io : IoObject) (mem : Block) (current : UInt32) : UInt64 × Int32 :=
  cqeValue (view mem (io.cqeAt (current &&& word mem io.cq.mask)))

/-- `io_.cq.head->store(current)`, after `++current`. -/
def advance (io : IoObject) (mem : Block) (current : UInt32) : Block :=
  setWord mem io.cq.head (current + 1)

/-- The kernel finds an entry at a running index. -/
def kernelRead (io : IoObject) (mem : Block) (index : UInt32) : Block :=
  view mem (io.sqeAt (word mem (io.arrayAt (index &&& word mem io.sq.mask))))

/-- The kernel takes so many entries. -/
def consume (io : IoObject) (mem : Block) (count : ℕ) : Block :=
  setWord mem io.sq.head (word mem io.sq.head + UInt32.ofNat count)

/-- The kernel posts a completion. -/
def post (io : IoObject) (mem : Block) (userData : UInt64) (res : Int32) : Block :=
  let tail := word mem io.cq.tail
  let mem := patch mem (io.cqeAt (tail &&& word mem io.cq.mask)) (cqeBytes userData res)
  setWord mem io.cq.tail (tail + 1)

end IoObject

/-! ## The regions -/

/-- The members of the rings, and the entries. -/
inductive IoRegion
  | ring (m : RingMember)
  | sqes
  deriving DecidableEq, Repr

/-- The regions of the completion ring. -/
def IoRegion.isCq : IoRegion → Bool
  | .ring m => !m.isSq
  | .sqes => false

namespace IoObject

/-- Where the object has each of them. -/
def region (io : IoObject) (sqDepth cqDepth : ℕ) : IoRegion → Member
  | .ring .sqHead => wordAt io.sq.head
  | .ring .sqTail => wordAt io.sq.tail
  | .ring .sqMask => wordAt io.sq.mask
  | .ring .sqEntries => wordAt io.sq.entries
  | .ring .sqArray => ⟨io.sq.array, 4 * sqDepth⟩
  | .ring .cqHead => wordAt io.cq.head
  | .ring .cqTail => wordAt io.cq.tail
  | .ring .cqMask => wordAt io.cq.mask
  | .ring .cqEntries => wordAt io.cq.entries
  | .ring .cqCqes => ⟨io.cq.cqes, cqeSize * cqDepth⟩
  | .sqes => ⟨io.sq.sqes, sqeSize * sqDepth⟩

/-- No two of them overlap. -/
def Laid (io : IoObject) (sqDepth cqDepth : ℕ) : Prop :=
  ∀ r r', r ≠ r' → (io.region sqDepth cqDepth r).Apart (io.region sqDepth cqDepth r')

/-- The completions end within the mapping when they have none of their own. -/
def Covers (io : IoObject) (kernel : Kernel) (sqDepth cqDepth : ℕ) : Prop :=
  io.cq.mapSize = 0 →
    (kernel.cqOff sqDepth cqDepth).cqes + cqDepth * cqeSize ≤ io.sq.mapSize

/-- The mappings of the object. -/
def mappings (io : IoObject) : List Member :=
  [⟨io.sq.map, io.sq.mapSize⟩, ⟨io.sq.sqesMap, io.sq.sqesMapSize⟩, ⟨io.cq.map, io.cq.mapSize⟩]

variable {kernel : Kernel} {sqDepth cqDepth : ℕ} {io : IoObject}

/-- The mapping which a member of the rings is in. -/
def ringMap (io : IoObject) (m : RingMember) : Member :=
  if m.isSq ∨ io.cq.mapSize = 0 then ⟨io.sq.map, io.sq.mapSize⟩ else ⟨io.cq.map, io.cq.mapSize⟩

theorem ringMap_mem (io : IoObject) (m : RingMember) : io.ringMap m ∈ io.mappings := by
  unfold ringMap mappings
  split <;> simp

namespace MadeFor

variable (hmade : io.MadeFor kernel sqDepth cqDepth)
include hmade

theorem ringMap_offset (m : RingMember) :
    (io.ringMap m).offset = if m.isSq then io.sq.map else io.cq.map := by
  by_cases hsq : m.isSq = true
  · simp [ringMap, hsq]
  · rcases hmade.cqMap with ⟨hshared, hzero⟩ | ⟨hsize, -, -⟩
    · simp [ringMap, hsq, hzero, hshared]
    · have hpos : 0 < cqDepth * cqeSize := Nat.mul_pos hmade.cqDepth_pos (by decide)
      have hne : io.cq.mapSize ≠ 0 := by omega
      simp [ringMap, hsq, hne]

theorem region_ring (m : RingMember) :
    io.region sqDepth cqDepth (.ring m) =
      (ringMember (kernel.sqOff sqDepth cqDepth) (kernel.cqOff sqDepth cqDepth) sqDepth cqDepth
        m).shift (io.ringMap m).offset := by
  obtain ⟨fd, hwired⟩ := hmade.wired
  rw [hmade.ringMap_offset]
  refine (congrArg (fun io => io.region sqDepth cqDepth (.ring m)) hwired).trans ?_
  cases m <;> rfl

theorem region_sqes :
    io.region sqDepth cqDepth .sqes = ⟨io.sq.sqesMap, io.sq.sqesMapSize⟩ := by
  obtain ⟨fd, hwired⟩ := hmade.wired
  have hsqes : io.sq.sqes = io.sq.sqesMap := congrArg (fun io => io.sq.sqes) hwired
  rw [region, hsqes, hmade.sqesMapSize, Nat.mul_comm]

theorem ringMap_apart_sqes (m : RingMember) :
    (io.ringMap m).Apart ⟨io.sq.sqesMap, io.sq.sqesMapSize⟩ := by
  unfold ringMap
  split
  next => exact hmade.sqesApart
  next hseparate =>
    rcases hmade.cqMap with ⟨-, hzero⟩ | ⟨-, -, hapart⟩
    · exact absurd (.inr hzero) hseparate
    · exact hapart.symm

theorem ringMap_eq_or_apart (m m' : RingMember) :
    io.ringMap m = io.ringMap m' ∨ (io.ringMap m).Apart (io.ringMap m') := by
  unfold ringMap
  rcases hmade.cqMap with ⟨-, hzero⟩ | ⟨-, hapart, -⟩
  · simp [hzero]
  · split <;> split
    · exact .inl rfl
    · exact .inr hapart
    · exact .inr hapart.symm
    · exact .inl rfl

theorem ring_within (hcovers : io.Covers kernel sqDepth cqDepth) (m : RingMember) :
    (io.region sqDepth cqDepth (.ring m)).Within (io.ringMap m) := by
  have hend := kernel.members_end sqDepth cqDepth m
  have hwidth : (if m.isSq then (kernel.sqOff sqDepth cqDepth).array + sqDepth * 4
      else (kernel.cqOff sqDepth cqDepth).cqes + cqDepth * cqeSize) ≤ (io.ringMap m).width := by
    unfold ringMap
    by_cases hm : m.isSq = true
    · rw [if_pos hm, if_pos (.inl hm)]
      exact hmade.mapSize.ge
    · rw [if_neg hm]
      rcases hmade.cqMap with ⟨-, hzero⟩ | ⟨hsize, -, -⟩
      · rw [if_pos (.inr hzero)]
        exact hcovers hzero
      · have hpos : 0 < cqDepth * cqeSize := Nat.mul_pos hmade.cqDepth_pos (by decide)
        have hseparate : ¬ (m.isSq = true ∨ io.cq.mapSize = 0) := by
          rintro (hsq | hzero)
          · exact hm hsq
          · omega
        rw [if_neg hseparate]
        exact hsize.ge
  rw [hmade.region_ring]
  exact Member.shift_within (hend.trans hwidth)

/-- Every region is in a mapping of the object. -/
theorem region_within (hcovers : io.Covers kernel sqDepth cqDepth) (r : IoRegion) :
    ∃ mapping ∈ io.mappings, (io.region sqDepth cqDepth r).Within mapping := by
  cases r with
  | ring m => exact ⟨_, io.ringMap_mem m, hmade.ring_within hcovers m⟩
  | sqes =>
      rw [hmade.region_sqes]
      exact ⟨_, by simp [mappings], Member.Within.refl _⟩

/-- The constructor wires the pointers to regions apart from each other. -/
theorem laid (hcovers : io.Covers kernel sqDepth cqDepth) : io.Laid sqDepth cqDepth := by
  have hsqes : ∀ m, (io.region sqDepth cqDepth (.ring m)).Apart
      (io.region sqDepth cqDepth .sqes) := by
    intro m
    rw [hmade.region_sqes]
    exact (hmade.ringMap_apart_sqes m).mono (hmade.ring_within hcovers m) (.refl _)
  intro r r' hne
  cases r with
  | sqes =>
      cases r' with
      | sqes => exact absurd rfl hne
      | ring m => exact (hsqes m).symm
  | ring m =>
      cases r' with
      | sqes => exact hsqes m
      | ring m' =>
          rcases hmade.ringMap_eq_or_apart m m' with hsame | hapart
          · rw [hmade.region_ring, hmade.region_ring, hsame]
            exact (kernel.members_apart sqDepth cqDepth m m' fun heq => hne (heq ▸ rfl)).shift _
          · exact hapart.mono (hmade.ring_within hcovers m) (hmade.ring_within hcovers m')

end MadeFor

/-! ## Bytes which hold a submission ring -/

/-- The bytes hold this submission ring, objects being at these addresses. -/
structure SqMapped (address : UserData → UInt64) (io : IoObject) (mem : Block)
    (sq : SubmissionQueue) : Prop where
  head : word mem io.sq.head = sq.head
  tail : word mem io.sq.tail = sq.tail
  mask : word mem io.sq.mask = sq.mask
  entries : word mem io.sq.entries = sq.entries
  array : ∀ idx < sq.entries, word mem (io.arrayAt idx) = sq.array idx
  sqes : ∀ idx < sq.entries, Sqe.LaidOut address (sq.sqes idx) (view mem (io.sqeAt idx))

/-- Publish one entry: the array, the entry, the tail. -/
def publish (io : IoObject) (mem : Block) (f : Block → Block) : Block :=
  let tail := word mem io.sq.tail
  let idx := tail &&& word mem io.sq.mask
  let mem := setWord mem (io.arrayAt idx) idx
  let mem := patch mem (io.sqeAt idx) f
  setWord mem io.sq.tail (tail + 1)

theorem armEventfdRead_eq_publish (mem : Block) (eventfd : Int32) (addr : UInt64) :
    io.armEventfdRead mem eventfd addr = io.publish mem (eventfdBytes eventfd addr) := rfl

theorem array_within {depth idx : UInt32} (hidx : idx < depth) (cqDepth : ℕ) :
    (wordAt (io.arrayAt idx)).Within (io.region depth.toNat cqDepth (.ring .sqArray)) :=
  Member.element_within (UInt32.lt_iff_toNat_lt.mp hidx)

theorem sqe_within {depth idx : UInt32} (hidx : idx < depth) (cqDepth : ℕ) :
    (io.sqeAt idx).Within (io.region depth.toNat cqDepth .sqes) :=
  Member.element_within (UInt32.lt_iff_toNat_lt.mp hidx)

theorem slot_lt {mask entries : UInt32} (hring : MaskedRing.Geometry mask entries)
    (index : UInt32) : MaskedRing.slot mask index < entries := by
  rw [UInt32.lt_iff_toNat_lt, hring.slot_toNat]
  obtain ⟨n, -, hpow⟩ := hring.powerOfTwo
  exact Nat.mod_lt _ (hpow ▸ Nat.two_pow_pos n)

section Publish

variable {address : UserData → UInt64} {mem : Block} {sq : SubmissionQueue}
  (hsq : SqMapped address io mem sq) (hring : MaskedRing.Geometry sq.mask sq.entries)
  (hlaid : io.Laid sq.entries.toNat cqDepth)
include hsq

theorem SqMapped.slot_eq :
    word mem io.sq.tail &&& word mem io.sq.mask = MaskedRing.slot sq.mask sq.tail := by
  rw [hsq.tail, hsq.mask]
  rfl

theorem SqMapped.publish_eq (f : Block → Block) :
    io.publish mem f =
      setWord (patch (setWord mem (io.arrayAt (MaskedRing.slot sq.mask sq.tail))
        (MaskedRing.slot sq.mask sq.tail)) (io.sqeAt (MaskedRing.slot sq.mask sq.tail)) f)
        io.sq.tail (sq.tail + 1) := by
  simp only [IoObject.publish, hsq.slot_eq]
  rw [hsq.tail]

/-- A publication touches the array, the entry and the tail. -/
theorem SqMapped.publish_agree
    {f : Block → Block} {m : Member}
    (harray : (wordAt (io.arrayAt (MaskedRing.slot sq.mask sq.tail))).Apart m)
    (hsqe : (io.sqeAt (MaskedRing.slot sq.mask sq.tail)).Apart m)
    (htail : (wordAt io.sq.tail).Apart m) : Agree mem (io.publish mem f) m := by
  rw [hsq.publish_eq]
  exact ((agree_setWord harray _).trans (agree_patch hsqe f)).trans (agree_setWord htail _)

include hring hlaid

theorem SqMapped.publish_agree_region
    {f : Block → Block} {r : IoRegion} (harray : r ≠ .ring .sqArray) (hsqes : r ≠ .sqes)
    (htail : r ≠ .ring .sqTail) :
    Agree mem (io.publish mem f) (io.region sq.entries.toNat cqDepth r) := by
  have hslot := slot_lt hring sq.tail
  apply hsq.publish_agree
  · exact (hlaid _ _ harray.symm).mono (array_within hslot cqDepth) (.refl _)
  · exact (hlaid _ _ hsqes.symm).mono (sqe_within hslot cqDepth) (.refl _)
  · exact hlaid _ _ htail.symm

theorem SqMapped.publish_array
    (f : Block → Block) {idx : UInt32} (hidx : idx < sq.entries) :
    word (io.publish mem f) (io.arrayAt idx) = (sq.publish Sqe.zero).array idx := by
  have hslot := slot_lt hring sq.tail
  have hapart : ∀ {r}, r ≠ .ring .sqArray → (io.region sq.entries.toNat cqDepth r).Apart
      (wordAt (io.arrayAt idx)) := fun hne =>
    (hlaid _ _ hne).mono (.refl _) (array_within hidx cqDepth)
  have hsqe : (io.sqeAt (MaskedRing.slot sq.mask sq.tail)).Apart (wordAt (io.arrayAt idx)) :=
    (hapart (r := .sqes) (by decide)).mono (sqe_within hslot cqDepth) (.refl _)
  have htail : (wordAt io.sq.tail).Apart (wordAt (io.arrayAt idx)) :=
    hapart (r := .ring .sqTail) (by decide)
  by_cases hsame : idx = MaskedRing.slot sq.mask sq.tail
  · rw [hsq.publish_eq, (agree_setWord htail _).word, (agree_patch hsqe f).word, hsame]
    simp [SubmissionQueue.publish]
  · have harray : (wordAt (io.arrayAt (MaskedRing.slot sq.mask sq.tail))).Apart
        (wordAt (io.arrayAt idx)) :=
      Member.element_apart fun heq => hsame (UInt32.toNat_inj.mp heq).symm
    rw [(hsq.publish_agree harray hsqe htail).word, hsq.array idx hidx]
    simp [SubmissionQueue.publish, hsame]

theorem SqMapped.publish_sqes
    {f : Block → Block} {sqe : Sqe} (hf : ∀ slot, Sqe.LaidOut address sqe (f slot))
    {idx : UInt32} (hidx : idx < sq.entries) :
    Sqe.LaidOut address ((sq.publish sqe).sqes idx)
      (view (io.publish mem f) (io.sqeAt idx)) := by
  have hslot := slot_lt hring sq.tail
  have hapart : ∀ {r}, r ≠ .sqes → (io.region sq.entries.toNat cqDepth r).Apart
      (io.sqeAt idx) := fun hne =>
    (hlaid _ _ hne).mono (.refl _) (sqe_within hidx cqDepth)
  have harray : (wordAt (io.arrayAt (MaskedRing.slot sq.mask sq.tail))).Apart (io.sqeAt idx) :=
    (hapart (r := .ring .sqArray) (by decide)).mono (array_within hslot cqDepth) (.refl _)
  have htail : (wordAt io.sq.tail).Apart (io.sqeAt idx) :=
    hapart (r := .ring .sqTail) (by decide)
  by_cases hsame : idx = MaskedRing.slot sq.mask sq.tail
  · have hstored : (sq.publish sqe).sqes idx = sqe := by simp [SubmissionQueue.publish, hsame]
    rw [hstored]
    rw [hsq.publish_eq, (agree_setWord htail _).view, hsame]
    exact (hf _).congr fun i hi => view_patch_self _ _ f hi
  · have hsqe : (io.sqeAt (MaskedRing.slot sq.mask sq.tail)).Apart (io.sqeAt idx) :=
      Member.element_apart fun heq => hsame (UInt32.toNat_inj.mp heq).symm
    have hkept : (sq.publish sqe).sqes idx = sq.sqes idx := by
      simp [SubmissionQueue.publish, hsame]
    rw [hkept, (hsq.publish_agree harray hsqe htail).view]
    exact hsq.sqes idx hidx

theorem SqMapped.publish
    {f : Block → Block} {sqe : Sqe} (hf : ∀ slot, Sqe.LaidOut address sqe (f slot)) :
    SqMapped address io (io.publish mem f) (sq.publish sqe) where
  head := (hsq.publish_agree_region hring hlaid (r := .ring .sqHead) (by decide) (by decide)
    (by decide)).word.trans hsq.head
  tail := by
    rw [hsq.publish_eq, word_setWord_self]
    rfl
  mask := (hsq.publish_agree_region hring hlaid (r := .ring .sqMask) (by decide) (by decide)
    (by decide)).word.trans hsq.mask
  entries := (hsq.publish_agree_region hring hlaid (r := .ring .sqEntries) (by decide)
    (by decide) (by decide)).word.trans hsq.entries
  array := fun _ hidx => hsq.publish_array hring hlaid f hidx
  sqes := fun _ hidx => hsq.publish_sqes hring hlaid hf hidx

/-- `commit_one` followed by stores to the entry it returns is a publication. -/
theorem SqMapped.commitOne_patch (f : Block → Block) :
    patch (io.commitOne mem).1 (io.sqeAt (io.commitOne mem).2) f = io.publish mem f := by
  have hslot := slot_lt hring sq.tail
  have htail : (wordAt io.sq.tail).Apart (io.sqeAt (MaskedRing.slot sq.mask sq.tail)) :=
    (hlaid (.ring .sqTail) .sqes (by decide)).mono (.refl _) (sqe_within hslot cqDepth)
  simp only [commitOne, hsq.publish_eq, hsq.slot_eq]
  rw [hsq.tail]
  exact patch_setWord htail _ f

end Publish

/-! ## Which bytes an access changes -/

/-- Only bytes of the submission ring, or of the completion ring, have changed. -/
def ChangedOnly (io : IoObject) (sqDepth cqDepth : ℕ) (cq : Bool) (mem mem' : Block) : Prop :=
  ∀ a, (∀ r, r.isCq = cq → ¬ (io.region sqDepth cqDepth r).Contains a) → mem' a = mem a

namespace ChangedOnly

variable {cq : Bool} {mem mem' mem'' : Block}

theorem trans
    (h : io.ChangedOnly sqDepth cqDepth cq mem mem')
    (h' : io.ChangedOnly sqDepth cqDepth cq mem' mem'') :
    io.ChangedOnly sqDepth cqDepth cq mem mem'' :=
  fun a ha => (h' a ha).trans (h a ha)

theorem agree
    (h : io.ChangedOnly sqDepth cqDepth cq mem mem') (hlaid : io.Laid sqDepth cqDepth)
    {r : IoRegion} (hr : r.isCq ≠ cq) : Agree mem mem' (io.region sqDepth cqDepth r) := by
  intro a ha
  refine h a fun r' hr' => ?_
  have hne : r' ≠ r := fun heq => hr (heq ▸ hr')
  exact (hlaid r' r hne).not_contains ha

theorem setWord
    {r : IoRegion} (hr : r.isCq = cq) {addr : ℕ}
    (hin : (wordAt addr).Within (io.region sqDepth cqDepth r)) (value : UInt32) :
    io.ChangedOnly sqDepth cqDepth cq mem (ByteBlock.setWord mem addr value) :=
  fun _ ha => store_of_not_contains fun hcontains => ha r hr (hin.contains hcontains)

theorem patch
    {r : IoRegion} (hr : r.isCq = cq) {m : Member}
    (hin : m.Within (io.region sqDepth cqDepth r)) (f : Block → Block) :
    io.ChangedOnly sqDepth cqDepth cq mem (ByteBlock.patch mem m f) :=
  fun _ ha => patch_of_not_contains fun hcontains => ha r hr (hin.contains hcontains)

end ChangedOnly

/-! ## Bytes which hold both rings -/

/-- The bytes hold this completion ring. -/
structure CqMapped (address : UserData → UInt64) (io : IoObject) (mem : Block)
    (cq : CompletionQueue) : Prop where
  head : word mem io.cq.head = cq.head
  tail : word mem io.cq.tail = cq.tail
  mask : word mem io.cq.mask = cq.mask
  entries : word mem io.cq.entries = cq.entries
  cqes : ∀ idx < cq.entries, cqeValue (view mem (io.cqeAt idx)) =
    (address (cq.cqes idx).userData, (cq.cqes idx).res)

/-- The bytes hold these rings, and no two parts of them overlap. -/
structure Mapped (address : UserData → UInt64) (io : IoObject) (mem : Block)
    (sq : SubmissionQueue) (cq : CompletionQueue) : Prop where
  submission : SqMapped address io mem sq
  completion : CqMapped address io mem cq
  sqRing : MaskedRing.Geometry sq.mask sq.entries
  cqRing : MaskedRing.Geometry cq.mask cq.entries
  laid : io.Laid sq.entries.toNat cq.entries.toNat

theorem cqe_within {depth idx : UInt32} (hidx : idx < depth) (sqDepth : ℕ) :
    (io.cqeAt idx).Within (io.region sqDepth depth.toNat (.ring .cqCqes)) :=
  Member.element_within (UInt32.lt_iff_toNat_lt.mp hidx)

theorem cqeValue_cqeBytes (userData : UInt64) (res : Int32) (cqe : Block) :
    cqeValue (cqeBytes userData res cqe) = (userData, res) := by
  have huser : load (cqeBytes userData res cqe) CqeMember.userData = userData.toNat := by
    simp only [cqeBytes, storeAll, List.foldl_cons, List.foldl_nil]
    rw [load_store_apart _ (by decide), load_store_apart _ (by decide), load_store_self]
    exact Nat.mod_eq_of_lt userData.toNat_lt
  have hres : load (cqeBytes userData res cqe) CqeMember.res = res.toUInt32.toNat := by
    simp only [cqeBytes, storeAll, List.foldl_cons, List.foldl_nil]
    rw [load_store_apart _ (by decide), load_store_self]
    exact Nat.mod_eq_of_lt res.toUInt32.toNat_lt
  rw [cqeValue, huser, hres, UInt64.ofNat_toNat, UInt32.ofNat_toNat, Int32.toInt32_toUInt32]

theorem cqeValue_congr
    {cqe cqe' : Block} (hsame : ∀ i < cqeSize, cqe i = cqe' i) : cqeValue cqe = cqeValue cqe' := by
  rw [cqeValue, cqeValue, load_congr hsame (by decide), load_congr hsame (by decide)]

namespace Mapped

variable {address : UserData → UInt64} {mem : Block} {sq : SubmissionQueue}
  {cq : CompletionQueue} (hmapped : io.Mapped address mem sq cq)
include hmapped

/-- A change of the submission ring leaves the completion ring alone. -/
theorem cq_kept
    {mem' : Block}
    (hchanged : io.ChangedOnly sq.entries.toNat cq.entries.toNat false mem mem') :
    CqMapped address io mem' cq := by
  have hagree : ∀ {m : RingMember}, m.isSq = false →
      Agree mem mem' (io.region sq.entries.toNat cq.entries.toNat (.ring m)) := by
    intro m hm
    exact hchanged.agree hmapped.laid (by simp [IoRegion.isCq, hm])
  refine ⟨(hagree (m := .cqHead) rfl).word.trans hmapped.completion.head,
    (hagree (m := .cqTail) rfl).word.trans hmapped.completion.tail,
    (hagree (m := .cqMask) rfl).word.trans hmapped.completion.mask,
    (hagree (m := .cqEntries) rfl).word.trans hmapped.completion.entries, ?_⟩
  intro idx hidx
  have hslot : Agree mem mem' (io.cqeAt idx) :=
    (hagree (m := .cqCqes) rfl).mono (cqe_within hidx sq.entries.toNat)
  rw [hslot.view]
  exact hmapped.completion.cqes idx hidx

/-- A change of the completion ring leaves the submission ring alone. -/
theorem sq_kept
    {mem' : Block}
    (hchanged : io.ChangedOnly sq.entries.toNat cq.entries.toNat true mem mem') :
    SqMapped address io mem' sq := by
  have hagree : ∀ {r : IoRegion}, r.isCq = false →
      Agree mem mem' (io.region sq.entries.toNat cq.entries.toNat r) := by
    intro r hr
    exact hchanged.agree hmapped.laid (by simp [hr])
  refine ⟨(hagree (r := .ring .sqHead) rfl).word.trans hmapped.submission.head,
    (hagree (r := .ring .sqTail) rfl).word.trans hmapped.submission.tail,
    (hagree (r := .ring .sqMask) rfl).word.trans hmapped.submission.mask,
    (hagree (r := .ring .sqEntries) rfl).word.trans hmapped.submission.entries, ?_, ?_⟩
  · intro idx hidx
    have hword : Agree mem mem' (wordAt (io.arrayAt idx)) :=
      (hagree (r := .ring .sqArray) rfl).mono (array_within hidx cq.entries.toNat)
    rw [hword.word]
    exact hmapped.submission.array idx hidx
  · intro idx hidx
    have hslot : Agree mem mem' (io.sqeAt idx) :=
      (hagree (r := .sqes) rfl).mono (sqe_within hidx cq.entries.toNat)
    rw [hslot.view]
    exact hmapped.submission.sqes idx hidx

theorem publish
    {f : Block → Block} {sqe : Sqe} (hf : ∀ slot, Sqe.LaidOut address sqe (f slot)) :
    io.Mapped address (io.publish mem f) (sq.publish sqe) cq ∧
      io.ChangedOnly sq.entries.toNat cq.entries.toNat false mem (io.publish mem f) := by
  have hslot := slot_lt hmapped.sqRing sq.tail
  have hchanged : io.ChangedOnly sq.entries.toNat cq.entries.toNat false mem
      (io.publish mem f) := by
    rw [hmapped.submission.publish_eq]
    refine ((ChangedOnly.setWord (r := .ring .sqArray) rfl ?_ _).trans
      (ChangedOnly.patch (r := .sqes) rfl ?_ f)).trans
      (ChangedOnly.setWord (r := .ring .sqTail) rfl (.refl _) _)
    · exact array_within hslot cq.entries.toNat
    · exact sqe_within hslot cq.entries.toNat
  exact ⟨⟨hmapped.submission.publish hmapped.sqRing hmapped.laid hf, hmapped.cq_kept hchanged,
    hmapped.sqRing, hmapped.cqRing, hmapped.laid⟩, hchanged⟩

theorem hasCapacity (count : UInt32) : io.hasCapacity mem count = sq.hasCapacity count := by
  rw [IoObject.hasCapacity, hmapped.submission.tail, hmapped.submission.head, hmapped.submission.entries]
  rfl

theorem isFull : io.isFull mem = sq.isFull := by
  rw [IoObject.isFull, hmapped.submission.tail, hmapped.submission.head, hmapped.submission.entries]
  rfl

/-! ## The accesses, one by one -/

theorem awaitSuspend_none
    {awt : Awaitable} {self : UserData} {stamp : Stamp}
    (hrefused : awt.awaitSuspend self stamp sq = none) :
    io.awaitSuspend mem awt (address self) = none := by
  rw [Awaitable.awaitSuspend_eq] at hrefused
  split at hrefused
  next => simp at hrefused
  next hfull => simp [IoObject.awaitSuspend, hmapped.hasCapacity, hfull]

theorem awaitSuspend_some
    (hnull : address .null = 0) {awt : Awaitable} {self : UserData} {stamp : Stamp}
    {sq' : SubmissionQueue} (haccept : awt.awaitSuspend self stamp sq = some sq') :
    ∃ mem', io.awaitSuspend mem awt (address self) = some mem' ∧
      io.Mapped address mem' sq' cq ∧
      io.ChangedOnly sq.entries.toNat cq.entries.toNat false mem mem' := by
  rw [Awaitable.awaitSuspend_eq] at haccept
  split at haccept
  next hroom =>
    obtain ⟨hfirst, hchanged⟩ :=
      hmapped.publish fun slot => awt.stageBytes_laidOut self stamp address slot
    have hcommit := hmapped.submission.commitOne_patch hmapped.sqRing hmapped.laid
      (awt.stageBytes (address self))
    rw [Awaitable.group_eq, Option.some.injEq] at haccept
    simp only [IoObject.awaitSuspend, hmapped.hasCapacity, hroom, hcommit, Bool.not_true,
      Bool.false_eq_true, if_false]
    by_cases htimed : awt.timeoutTs.isSome = true
    · obtain ⟨hsecond, hchanged'⟩ :=
        hfirst.publish fun slot => awt.timeoutBytes_laidOut hnull slot
      have hcommit' := hfirst.submission.commitOne_patch hfirst.sqRing hfirst.laid
        awt.timeoutBytes
      rw [if_pos htimed, List.foldl_cons, List.foldl_cons, List.foldl_nil] at haccept
      rw [if_pos htimed, hcommit', ← haccept]
      exact ⟨_, rfl, hsecond, hchanged.trans hchanged'⟩
    · rw [if_neg htimed, List.foldl_cons, List.foldl_nil] at haccept
      rw [if_neg htimed, ← haccept]
      exact ⟨_, rfl, hfirst, hchanged⟩
  next => simp at haccept

omit hmapped in
theorem eventfdBytes_laidOut
    {eventfd : Int32} {addr : UInt64} (hbuf : address .eventfdBuf = addr) (slot : Block) :
    Sqe.LaidOut address (SubmissionQueue.eventfdRead eventfd addr)
      (eventfdBytes eventfd addr slot) := by
  have hmembers : ∀ assignment ∈ eventfdAssignments eventfd addr,
      assignment.1 ∈ SqeMember.all := by
    simp [eventfdAssignments, SqeMember.all, SqeMember.opcode, SqeMember.fd, SqeMember.addr,
      SqeMember.len, SqeMember.off, SqeMember.userData]
  have hload : ∀ m ∈ SqeMember.all, load (eventfdBytes eventfd addr slot) m =
      assigned (eventfdAssignments eventfd addr) m :=
    fun m hm => load_storeAll hmembers hm
  constructor
  case fd =>
    rw [hload _ (by decide)]
    exact Nat.mod_eq_of_lt eventfd.toUInt32.toNat_lt
  case addr =>
    rw [hload _ (by decide)]
    exact Nat.mod_eq_of_lt addr.toNat_lt
  case userData =>
    change _ = (address UserData.eventfdBuf).toNat
    rw [hload _ (by decide), hbuf]
    exact Nat.mod_eq_of_lt addr.toNat_lt
  all_goals
    rw [hload _ (by decide)]
    rfl

theorem armEventfdRead
    (eventfd : Int32) {addr : UInt64} (hbuf : address .eventfdBuf = addr) :
    io.Mapped address (io.armEventfdRead mem eventfd addr) (sq.armEventfdRead eventfd addr) cq ∧
      io.ChangedOnly sq.entries.toNat cq.entries.toNat false mem
        (io.armEventfdRead mem eventfd addr) :=
  hmapped.publish fun slot => eventfdBytes_laidOut hbuf slot

theorem consume (count : ℕ) :
    io.Mapped address (io.consume mem count) (sq.consume count) cq ∧
      io.ChangedOnly sq.entries.toNat cq.entries.toNat false mem (io.consume mem count) := by
  have hchanged : io.ChangedOnly sq.entries.toNat cq.entries.toNat false mem
      (io.consume mem count) := ChangedOnly.setWord (r := .ring .sqHead) rfl (.refl _) _
  have hagree : ∀ {r : IoRegion}, .ring .sqHead ≠ r →
      Agree mem (io.consume mem count) (io.region sq.entries.toNat cq.entries.toNat r) :=
    fun hne => agree_setWord (hmapped.laid _ _ hne) _
  refine ⟨⟨⟨?_, ?_, ?_, ?_, ?_, ?_⟩, hmapped.cq_kept hchanged, hmapped.sqRing, hmapped.cqRing,
    hmapped.laid⟩, hchanged⟩
  · rw [IoObject.consume, word_setWord_self, hmapped.submission.head]
    rfl
  · exact (hagree (r := .ring .sqTail) (by decide)).word.trans hmapped.submission.tail
  · exact (hagree (r := .ring .sqMask) (by decide)).word.trans hmapped.submission.mask
  · exact (hagree (r := .ring .sqEntries) (by decide)).word.trans hmapped.submission.entries
  · intro idx hidx
    have hword : Agree mem (io.consume mem count) (wordAt (io.arrayAt idx)) :=
      (hagree (r := .ring .sqArray) (by decide)).mono (array_within hidx cq.entries.toNat)
    exact hword.word.trans (hmapped.submission.array idx hidx)
  · intro idx hidx
    have hslot : Agree mem (io.consume mem count) (io.sqeAt idx) :=
      (hagree (r := .sqes) (by decide)).mono (sqe_within hidx cq.entries.toNat)
    rw [hslot.view]
    exact hmapped.submission.sqes idx hidx

theorem advance (current : UInt32) :
    io.Mapped address (io.advance mem current) sq { cq with head := current + 1 } ∧
      io.ChangedOnly sq.entries.toNat cq.entries.toNat true mem (io.advance mem current) := by
  have hchanged : io.ChangedOnly sq.entries.toNat cq.entries.toNat true mem
      (io.advance mem current) := ChangedOnly.setWord (r := .ring .cqHead) rfl (.refl _) _
  have hagree : ∀ {r : IoRegion}, .ring .cqHead ≠ r →
      Agree mem (io.advance mem current) (io.region sq.entries.toNat cq.entries.toNat r) :=
    fun hne => agree_setWord (hmapped.laid _ _ hne) _
  refine ⟨⟨hmapped.sq_kept hchanged, ⟨?_, ?_, ?_, ?_, ?_⟩, hmapped.sqRing, hmapped.cqRing,
    hmapped.laid⟩, hchanged⟩
  · rw [IoObject.advance, word_setWord_self]
  · exact (hagree (r := .ring .cqTail) (by decide)).word.trans hmapped.completion.tail
  · exact (hagree (r := .ring .cqMask) (by decide)).word.trans hmapped.completion.mask
  · exact (hagree (r := .ring .cqEntries) (by decide)).word.trans hmapped.completion.entries
  · intro idx hidx
    have hslot : Agree mem (io.advance mem current) (io.cqeAt idx) :=
      (hagree (r := .ring .cqCqes) (by decide)).mono (cqe_within hidx sq.entries.toNat)
    rw [hslot.view]
    exact hmapped.completion.cqes idx hidx

theorem post (cqe : Cqe) :
    io.Mapped address (io.post mem (address cqe.userData) cqe.res) sq (cq.append cqe) ∧
      io.ChangedOnly sq.entries.toNat cq.entries.toNat true mem
        (io.post mem (address cqe.userData) cqe.res) := by
  have hslot := slot_lt hmapped.cqRing cq.tail
  have heq : io.post mem (address cqe.userData) cqe.res =
      setWord (patch mem (io.cqeAt (MaskedRing.slot cq.mask cq.tail))
        (cqeBytes (address cqe.userData) cqe.res)) io.cq.tail (cq.tail + 1) := by
    rw [IoObject.post, hmapped.completion.tail, hmapped.completion.mask]
    rfl
  have hchanged : io.ChangedOnly sq.entries.toNat cq.entries.toNat true mem
      (io.post mem (address cqe.userData) cqe.res) := by
    rw [heq]
    exact (ChangedOnly.patch (r := .ring .cqCqes) rfl (cqe_within hslot sq.entries.toNat) _).trans
      (ChangedOnly.setWord (r := .ring .cqTail) rfl (.refl _) _)
  have hagree : ∀ {r : IoRegion}, .ring .cqCqes ≠ r → .ring .cqTail ≠ r →
      Agree mem (io.post mem (address cqe.userData) cqe.res)
        (io.region sq.entries.toNat cq.entries.toNat r) := by
    intro r hcqes htail
    rw [heq]
    exact (agree_patch ((hmapped.laid _ _ hcqes).mono (cqe_within hslot sq.entries.toNat)
      (.refl _)) _).trans (agree_setWord (hmapped.laid _ _ htail) _)
  refine ⟨⟨hmapped.sq_kept hchanged, ⟨?_, ?_, ?_, ?_, ?_⟩, hmapped.sqRing, hmapped.cqRing,
    hmapped.laid⟩, hchanged⟩
  · exact (hagree (r := .ring .cqHead) (by decide) (by decide)).word.trans
      hmapped.completion.head
  · rw [heq, word_setWord_self]
    rfl
  · exact (hagree (r := .ring .cqMask) (by decide) (by decide)).word.trans
      hmapped.completion.mask
  · exact (hagree (r := .ring .cqEntries) (by decide) (by decide)).word.trans
      hmapped.completion.entries
  · intro idx hidx
    have htail : (wordAt io.cq.tail).Apart (io.cqeAt idx) :=
      (hmapped.laid (.ring .cqTail) (.ring .cqCqes) (by decide)).mono (.refl _)
        (cqe_within hidx sq.entries.toNat)
    rw [heq, (agree_setWord htail _).view]
    by_cases hsame : idx = MaskedRing.slot cq.mask cq.tail
    · have hstored : (cq.append cqe).cqes idx = cqe := by
        simp [CompletionQueue.append, hsame]
      rw [hstored, ← cqeValue_cqeBytes (address cqe.userData) cqe.res, hsame]
      exact cqeValue_congr fun i hi => view_patch_self _ _ _ hi
    · have hapart : (io.cqeAt (MaskedRing.slot cq.mask cq.tail)).Apart (io.cqeAt idx) :=
        Member.element_apart fun heq => hsame (UInt32.toNat_inj.mp heq).symm
      have hkept : (cq.append cqe).cqes idx = cq.cqes idx := by
        simp [CompletionQueue.append, hsame]
      rw [hkept, (agree_patch hapart _).view]
      exact hmapped.completion.cqes idx hidx

/-- `drain` reads the completion which the ring has. -/
theorem readCqe (current : UInt32) :
    io.readCqe mem current =
      (address (cq.read current).userData, (cq.read current).res) := by
  rw [IoObject.readCqe, hmapped.completion.mask]
  exact hmapped.completion.cqes _ (slot_lt hmapped.cqRing current)

/-- The kernel finds the entries which are pending. -/
theorem kernelRead
    (hvalid : sq.Valid) {i : ℕ} (hi : i < sq.pending.toNat) :
    Sqe.LaidOut address (sq.kernelRead (sq.head + UInt32.ofNat i))
      (io.kernelRead mem (sq.head + UInt32.ofNat i)) := by
  have hslot := slot_lt hmapped.sqRing (sq.head + UInt32.ofNat i)
  have hmask : (sq.head + UInt32.ofNat i) &&& word mem io.sq.mask =
      MaskedRing.slot sq.mask (sq.head + UInt32.ofNat i) := by
    rw [hmapped.submission.mask]
    rfl
  rw [IoObject.kernelRead, hmask, hmapped.submission.array _ hslot, SubmissionQueue.kernelRead,
    hvalid.linked i hi]
  exact hmapped.submission.sqes _ hslot

end Mapped

end IoObject

end SlimCommonIo
