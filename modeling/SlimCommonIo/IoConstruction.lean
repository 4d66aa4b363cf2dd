import SlimCommonIo.ResourceLedger
import SlimCommonIo.RingDepth
import SlimCommonIo.SqeLayout
import Mathlib.Data.Finset.Fold

/-!
# What the constructors acquire

`IO::IO` opens the ring and maps it in two or three pieces, `Scheduler` opens
its eventfd, and `Runtime` constructs one ring and scheduler for the dispatcher
and one for each worker.  Any of these calls may fail.  Whatever fails, nothing
of the construction is left open, and the destructors close each thing which
was opened once.
-/

namespace SlimCommonIo

open ByteBlock ResourceLedger

/-- `sizeof(io_uring_cqe)`. -/
def cqeSize : ℕ := 16

/-! ## The kernel -/

inductive KernelResource
  | descriptor (fd : ℕ)
  | mapping (addr size : ℕ)
  deriving DecidableEq, Repr

/-- `io_sqring_offsets`, as far as `IO::IO` reads them. -/
structure SqOffsets where
  head : ℕ
  tail : ℕ
  ringMask : ℕ
  ringEntries : ℕ
  flags : ℕ
  dropped : ℕ
  array : ℕ

/-- `io_cqring_offsets`, as far as `IO::IO` reads them. -/
structure CqOffsets where
  head : ℕ
  tail : ℕ
  ringMask : ℕ
  ringEntries : ℕ
  cqes : ℕ

/-- What the two rings consist of, as far as the library uses it. -/
inductive RingMember
  | sqHead
  | sqTail
  | sqMask
  | sqEntries
  | sqArray
  | cqHead
  | cqTail
  | cqMask
  | cqEntries
  | cqCqes
  deriving DecidableEq, Repr

/-- The members of the submission ring. -/
def RingMember.isSq : RingMember → Bool
  | .sqHead | .sqTail | .sqMask | .sqEntries | .sqArray => true
  | .cqHead | .cqTail | .cqMask | .cqEntries | .cqCqes => false

/-- The members of rings of these depths, from the start of their mapping. -/
def ringMember (sqOff : SqOffsets) (cqOff : CqOffsets) (sqDepth cqDepth : ℕ) :
    RingMember → Member
  | .sqHead => ⟨sqOff.head, 4⟩
  | .sqTail => ⟨sqOff.tail, 4⟩
  | .sqMask => ⟨sqOff.ringMask, 4⟩
  | .sqEntries => ⟨sqOff.ringEntries, 4⟩
  | .sqArray => ⟨sqOff.array, 4 * sqDepth⟩
  | .cqHead => ⟨cqOff.head, 4⟩
  | .cqTail => ⟨cqOff.tail, 4⟩
  | .cqMask => ⟨cqOff.ringMask, 4⟩
  | .cqEntries => ⟨cqOff.ringEntries, 4⟩
  | .cqCqes => ⟨cqOff.cqes, cqeSize * cqDepth⟩

/-- How the kernel chooses descriptors and addresses and lays out rings of given
depths.  A new descriptor is none of the open ones, a new mapping is apart from
all others, the members of the rings do not overlap, and each ring ends with its
array. -/
structure Kernel where
  nextFd : Finset KernelResource → ℕ
  place : Finset KernelResource → ℕ → ℕ
  sqOff : ℕ → ℕ → SqOffsets
  cqOff : ℕ → ℕ → CqOffsets
  nextFd_fresh : ∀ held, KernelResource.descriptor (nextFd held) ∉ held
  place_ne_zero : ∀ held size, place held size ≠ 0
  place_apart : ∀ held size addr size', KernelResource.mapping addr size' ∈ held →
    Member.Apart ⟨addr, size'⟩ ⟨place held size, size⟩
  members_apart : ∀ sqDepth cqDepth m m', m ≠ m' →
    (ringMember (sqOff sqDepth cqDepth) (cqOff sqDepth cqDepth) sqDepth cqDepth m).Apart
      (ringMember (sqOff sqDepth cqDepth) (cqOff sqDepth cqDepth) sqDepth cqDepth m')
  members_end : ∀ sqDepth cqDepth m,
    let member := ringMember (sqOff sqDepth cqDepth) (cqOff sqDepth cqDepth) sqDepth cqDepth m
    member.offset + member.width ≤
      if m.isSq then (sqOff sqDepth cqDepth).array + sqDepth * 4
      else (cqOff sqDepth cqDepth).cqes + cqDepth * cqeSize

theorem Kernel.place_fresh
    (kernel : Kernel) (held : Finset KernelResource) {size : ℕ} (hsize : 0 < size) :
    KernelResource.mapping (kernel.place held size) size ∉ held := by
  intro hmem
  rcases kernel.place_apart held size _ _ hmem with hbefore | hbehind
  · dsimp only at hbefore
    omega
  · dsimp only at hbehind
    omega

/-! ## `IO` -/

/-- `IO::Sq`, with addresses for pointers. -/
structure SqPointers where
  head : ℕ
  tail : ℕ
  flags : ℕ
  mask : ℕ
  entries : ℕ
  dropped : ℕ
  array : ℕ
  sqes : ℕ
  map : ℕ
  sqesMap : ℕ
  mapSize : ℕ
  sqesMapSize : ℕ
  deriving DecidableEq, Repr

/-- `IO::Cq`, with addresses for pointers. -/
structure CqPointers where
  head : ℕ
  tail : ℕ
  mask : ℕ
  entries : ℕ
  cqes : ℕ
  map : ℕ
  mapSize : ℕ
  deriving DecidableEq, Repr

/-- `IO`. -/
structure IoObject where
  fd : ℤ
  sq : SqPointers
  cq : CqPointers
  deriving DecidableEq, Repr

namespace IoObject

/-- The end of `IO::IO`, where the pointers are wired. -/
def wire (kernel : Kernel) (sqEntries cqEntries : ℕ) (fd : ℤ)
    (sqMap sqMapSize sqesMap sqesMapSize cqMap cqMapSize : ℕ) : IoObject :=
  let sqOff := kernel.sqOff sqEntries cqEntries
  let cqOff := kernel.cqOff sqEntries cqEntries
  { fd := fd
    sq :=
      { head := sqMap + sqOff.head
        tail := sqMap + sqOff.tail
        mask := sqMap + sqOff.ringMask
        entries := sqMap + sqOff.ringEntries
        flags := sqMap + sqOff.flags
        dropped := sqMap + sqOff.dropped
        array := sqMap + sqOff.array
        sqes := sqesMap
        map := sqMap
        sqesMap := sqesMap
        mapSize := sqMapSize
        sqesMapSize := sqesMapSize }
    cq :=
      { head := cqMap + cqOff.head
        tail := cqMap + cqOff.tail
        mask := cqMap + cqOff.ringMask
        entries := cqMap + cqOff.ringEntries
        cqes := cqMap + cqOff.cqes
        map := cqMap
        mapSize := cqMapSize } }

/-- Section 3 of `IO::IO`, which maps the completion ring. -/
def mapCqRing (kernel : Kernel) (sys : SystemCalls) (sqEntries cqEntries : ℕ)
    (fd sqMap sqMapSize sqesMap sqesMapSize : ℕ) :
    Constructor KernelResource ConstructionError IoObject := fun l =>
  if sys.singleMmap then
    (.ok (wire kernel sqEntries cqEntries fd sqMap sqMapSize sqesMap sqesMapSize sqMap 0), l)
  else
    let cqMapSize := (kernel.cqOff sqEntries cqEntries).cqes + cqEntries * cqeSize
    if sys.cqMmapFails then
      (.error (.ioException .ioMmapCqFailed),
        ((l.release (.mapping sqesMap sqesMapSize)).release
          (.mapping sqMap sqMapSize)).release (.descriptor fd))
    else
      let cqMap := kernel.place l.held cqMapSize
      (.ok (wire kernel sqEntries cqEntries fd sqMap sqMapSize sqesMap sqesMapSize cqMap
        cqMapSize), l.acquire (.mapping cqMap cqMapSize))

/-- Section 2, which maps the entries. -/
def mapSqes (kernel : Kernel) (sys : SystemCalls) (sqEntries cqEntries : ℕ)
    (fd sqMap sqMapSize : ℕ) : Constructor KernelResource ConstructionError IoObject := fun l =>
  let sqesMapSize := sqEntries * sqeSize
  if sys.sqesMmapFails then
    (.error (.ioException .ioMmapSqesFailed),
      (l.release (.mapping sqMap sqMapSize)).release (.descriptor fd))
  else
    let sqesMap := kernel.place l.held sqesMapSize
    mapCqRing kernel sys sqEntries cqEntries fd sqMap sqMapSize sqesMap sqesMapSize
      (l.acquire (.mapping sqesMap sqesMapSize))

/-- Section 1, which maps the submission ring. -/
def mapSqRing (kernel : Kernel) (sys : SystemCalls) (sqEntries cqEntries : ℕ) (fd : ℕ) :
    Constructor KernelResource ConstructionError IoObject := fun l =>
  let sqMapSize := (kernel.sqOff sqEntries cqEntries).array + sqEntries * 4
  if sys.sqMmapFails then
    (.error (.ioException .ioMmapSqFailed), l.release (.descriptor fd))
  else
    let sqMap := kernel.place l.held sqMapSize
    mapSqes kernel sys sqEntries cqEntries fd sqMap sqMapSize
      (l.acquire (.mapping sqMap sqMapSize))

/-- `IO::IO`. -/
def construct (kernel : Kernel) (sys : SystemCalls) (entries : UInt32) :
    Constructor KernelResource ConstructionError IoObject := fun l =>
  if entries = 0 then (.error (.ioException .ioInvalidEntries), l)
  else
    match ioUringSetup entries (entries * 2) with
    | none => (.error (.ioException .ioSetupFailed), l)
    | some (sqEntries, cqEntries) =>
        if sys.setupFails then (.error (.ioException .ioSetupFailed), l)
        else
          mapSqRing kernel sys sqEntries cqEntries (kernel.nextFd l.held)
            (l.acquire (.descriptor (kernel.nextFd l.held)))

/-- `IO::~IO`. -/
def destroy : Destructor KernelResource IoObject := fun io l =>
  let l := if io.cq.map ≠ 0 ∧ 0 < io.cq.mapSize
    then l.release (.mapping io.cq.map io.cq.mapSize) else l
  let l := if io.sq.sqesMap ≠ 0
    then l.release (.mapping io.sq.sqesMap io.sq.sqesMapSize) else l
  let l := if io.sq.map ≠ 0 then l.release (.mapping io.sq.map io.sq.mapSize) else l
  if 0 ≤ io.fd then l.release (.descriptor io.fd.toNat) else l

/-- What an object owns: no descriptor if it has -1, and no null mapping. -/
def owns (io : IoObject) : List KernelResource :=
  (if 0 ≤ io.fd then [.descriptor io.fd.toNat] else []) ++
    (if io.sq.map ≠ 0 then [.mapping io.sq.map io.sq.mapSize] else []) ++
    (if io.sq.sqesMap ≠ 0 then [.mapping io.sq.sqesMap io.sq.sqesMapSize] else []) ++
    if io.cq.map ≠ 0 ∧ 0 < io.cq.mapSize then [.mapping io.cq.map io.cq.mapSize] else []

end IoObject

/-! ## `Scheduler`, `WorkerNode` and `Runtime` -/

/-- `Scheduler::Scheduler`, returning `eventfd_`. -/
def constructScheduler (kernel : Kernel) (sys : SystemCalls) :
    Constructor KernelResource ConstructionError ℤ := fun l =>
  if sys.eventfdFails then (.error (.ioException .eventFdCreateFailed), l)
  else (.ok (kernel.nextFd l.held), l.acquire (.descriptor (kernel.nextFd l.held)))

/-- The end of `Scheduler::~Scheduler`. -/
def destroyScheduler : Destructor KernelResource ℤ := fun eventfd l =>
  if 0 ≤ eventfd then l.release (.descriptor eventfd.toNat) else l

def schedulerOwns (eventfd : ℤ) : List KernelResource :=
  if 0 ≤ eventfd then [.descriptor eventfd.toNat] else []

/-- A ring and the eventfd of the scheduler on it. -/
abbrev NodeObject := IoObject × ℤ

namespace NodeObject

def construct (kernel : Kernel) (sys : SystemCalls) (entries : UInt32) :
    Constructor KernelResource ConstructionError NodeObject :=
  andThen (IoObject.construct kernel sys entries) IoObject.destroy fun _ =>
    constructScheduler kernel sys

def destroy : Destructor KernelResource NodeObject :=
  destroyBoth IoObject.destroy destroyScheduler

def owns (node : NodeObject) : List KernelResource :=
  node.1.owns ++ schedulerOwns node.2

/-- `std::make_unique<WorkerNode>()`. -/
def makeUnique (kernel : Kernel) (sys : SystemCalls) :
    Constructor KernelResource ConstructionError NodeObject := fun l =>
  if sys.newFails then (.error .badAlloc, l) else construct kernel sys defaultEntries l

end NodeObject

/-- The dispatcher and the workers. -/
abbrev RuntimeObject := NodeObject × List NodeObject

namespace RuntimeObject

/-- The body of `Runtime::Runtime`. -/
def constructWorkers (kernel : Kernel) (sys : RuntimeCalls) (workerCount : UInt64) :
    Constructor KernelResource ConstructionError (List NodeObject) := fun l =>
  if maxWorkers < workerCount.toNat then (.error .lengthError, l)
  else if sys.reserveFails then (.error .badAlloc, l)
  else
    pushAll (fun i => NodeObject.makeUnique kernel (sys.workers i)) NodeObject.destroy
      workerCount.toNat [] l

/-- `Runtime::Runtime`. -/
def construct (kernel : Kernel) (sys : RuntimeCalls) (workerCount : UInt64)
    (entries : UInt32) : Constructor KernelResource ConstructionError RuntimeObject :=
  andThen (NodeObject.construct kernel sys.dispatcher entries) NodeObject.destroy fun _ =>
    constructWorkers kernel sys workerCount

/-- The members of `Runtime::~Runtime`: the workers go first. -/
def destroy : Destructor KernelResource RuntimeObject :=
  destroyBoth NodeObject.destroy (destroyAll NodeObject.destroy)

def owns (runtime : RuntimeObject) : List KernelResource :=
  runtime.1.owns ++ runtime.2.flatMap NodeObject.owns

end RuntimeObject

/-! ## `IO` acquires what it owns -/

theorem ioUringSetup_pos
    {entries cqEntries : UInt32} {sqDepth cqDepth : ℕ}
    (hsetup : ioUringSetup entries cqEntries = some (sqDepth, cqDepth)) :
    0 < sqDepth ∧ 0 < cqDepth := by
  obtain ⟨⟨n, -, rfl⟩, ⟨m, -, rfl⟩⟩ := ioUringSetup_le hsetup
  exact ⟨Nat.two_pow_pos n, Nat.two_pow_pos m⟩

/-- Why a section of `IO::IO` or one after it throws, if one does. -/
def SystemCalls.cqRingError (sys : SystemCalls) : Option ConstructionError :=
  if !sys.singleMmap && sys.cqMmapFails then some (.ioException .ioMmapCqFailed) else none

def SystemCalls.sqesError (sys : SystemCalls) : Option ConstructionError :=
  if sys.sqesMmapFails then some (.ioException .ioMmapSqesFailed) else sys.cqRingError

def SystemCalls.sqRingError (sys : SystemCalls) : Option ConstructionError :=
  if sys.sqMmapFails then some (.ioException .ioMmapSqFailed) else sys.sqesError

namespace IoObject

/-- The mappings of an object made for rings of these depths: the completion
ring shares the mapping of the submission ring or has its own. -/
structure MadeFor (kernel : Kernel) (sqDepth cqDepth : ℕ) (io : IoObject) : Prop where
  cqDepth_pos : 0 < cqDepth
  wired : ∃ fd : ℕ, io = wire kernel sqDepth cqDepth fd io.sq.map io.sq.mapSize io.sq.sqesMap
    io.sq.sqesMapSize io.cq.map io.cq.mapSize
  mapSize : io.sq.mapSize = (kernel.sqOff sqDepth cqDepth).array + sqDepth * 4
  sqesMapSize : io.sq.sqesMapSize = sqDepth * sqeSize
  sqesApart : Member.Apart ⟨io.sq.map, io.sq.mapSize⟩ ⟨io.sq.sqesMap, io.sq.sqesMapSize⟩
  cqMap : io.cq.map = io.sq.map ∧ io.cq.mapSize = 0 ∨
    io.cq.mapSize = (kernel.cqOff sqDepth cqDepth).cqes + cqDepth * cqeSize ∧
      Member.Apart ⟨io.sq.map, io.sq.mapSize⟩ ⟨io.cq.map, io.cq.mapSize⟩ ∧
      Member.Apart ⟨io.sq.sqesMap, io.sq.sqesMapSize⟩ ⟨io.cq.map, io.cq.mapSize⟩

/-- How `IO::IO` ends: it throws with everything closed, or returns an object
which owns what was acquired. -/
inductive Finishes (kernel : Kernel) (sqDepth cqDepth : ℕ) (start : Ledger KernelResource) :
    Except ConstructionError IoObject × Ledger KernelResource → Option ConstructionError → Prop
  | throws (err : ConstructionError) :
      Finishes kernel sqDepth cqDepth start (.error err, start) (some err)
  | returns {io : IoObject} {l : Ledger KernelResource}
      (hmade : io.MadeFor kernel sqDepth cqDepth) (hgained : start.Gained io.owns l) :
      Finishes kernel sqDepth cqDepth start (.ok io, l) none

variable {kernel : Kernel} {sys : SystemCalls} {entries : UInt32} {sqDepth cqDepth : ℕ}
  {start l : Ledger KernelResource} {fd sqMap sqesMap : ℕ}

theorem mapCqRing_finishes
    {sqMapSize sqesMapSize : ℕ}
    (hgained : start.Gained [.descriptor fd, .mapping sqMap sqMapSize,
      .mapping sqesMap sqesMapSize] l)
    (hcqDepth : 0 < cqDepth) (hsqMap : sqMap ≠ 0) (hsqesMap : sqesMap ≠ 0)
    (hsqSize : sqMapSize = (kernel.sqOff sqDepth cqDepth).array + sqDepth * 4)
    (hsqesSize : sqesMapSize = sqDepth * sqeSize)
    (hapart : Member.Apart ⟨sqMap, sqMapSize⟩ ⟨sqesMap, sqesMapSize⟩) :
    Finishes kernel sqDepth cqDepth start
      (mapCqRing kernel sys sqDepth cqDepth fd sqMap sqMapSize sqesMap sqesMapSize l)
      sys.cqRingError := by
  unfold mapCqRing SystemCalls.cqRingError
  by_cases hsingle : sys.singleMmap = true
  · rw [if_pos hsingle, if_neg (by simp [hsingle])]
    refine .returns ⟨hcqDepth, ⟨fd, rfl⟩, hsqSize, hsqesSize, hapart, .inl ⟨rfl, rfl⟩⟩ ?_
    simpa [owns, wire, hsqMap, hsqesMap] using hgained
  rw [if_neg hsingle]
  by_cases hfails : sys.cqMmapFails = true
  · have hclosed : ((l.release (.mapping sqesMap sqesMapSize)).release
        (.mapping sqMap sqMapSize)).release (.descriptor fd) = start :=
      hgained.releaseAll (List.reverse_perm _)
    simp only [hfails, if_true, hclosed, hsingle, Bool.not_false, Bool.and_self]
    exact .throws _
  · have hsize : 0 < (kernel.cqOff sqDepth cqDepth).cqes + cqDepth * cqeSize :=
      Nat.add_pos_right _ (Nat.mul_pos hcqDepth (by decide))
    have hplaced := hgained.acquire (kernel.place_fresh l.held hsize)
    have hnull := kernel.place_ne_zero l.held
      ((kernel.cqOff sqDepth cqDepth).cqes + cqDepth * cqeSize)
    have hsqHeld : KernelResource.mapping sqMap sqMapSize ∈ l.held := by
      simp [hgained.held]
    have hsqesHeld : KernelResource.mapping sqesMap sqesMapSize ∈ l.held := by
      simp [hgained.held]
    rw [if_neg hfails, if_neg (by simp [hfails])]
    refine .returns ⟨hcqDepth, ⟨fd, rfl⟩, hsqSize, hsqesSize, hapart, .inr ⟨rfl, ?_, ?_⟩⟩ ?_
    · exact kernel.place_apart _ _ _ _ hsqHeld
    · exact kernel.place_apart _ _ _ _ hsqesHeld
    · simpa [owns, wire, hsqMap, hsqesMap, hnull, hsize] using hplaced

theorem mapSqes_finishes
    {sqMapSize : ℕ} (hgained : start.Gained [.descriptor fd, .mapping sqMap sqMapSize] l)
    (hsqDepth : 0 < sqDepth) (hcqDepth : 0 < cqDepth) (hsqMap : sqMap ≠ 0)
    (hsqSize : sqMapSize = (kernel.sqOff sqDepth cqDepth).array + sqDepth * 4) :
    Finishes kernel sqDepth cqDepth start
      (mapSqes kernel sys sqDepth cqDepth fd sqMap sqMapSize l) sys.sqesError := by
  unfold mapSqes SystemCalls.sqesError
  by_cases hfails : sys.sqesMmapFails = true
  · have hclosed : (l.release (.mapping sqMap sqMapSize)).release (.descriptor fd) = start :=
      hgained.releaseAll (List.reverse_perm _)
    rw [if_pos hfails, if_pos hfails, hclosed]
    exact .throws _
  · have hsize : 0 < sqDepth * sqeSize := Nat.mul_pos hsqDepth (by decide)
    have hsqHeld : KernelResource.mapping sqMap sqMapSize ∈ l.held := by
      simp [hgained.held]
    rw [if_neg hfails, if_neg hfails]
    exact mapCqRing_finishes (hgained.acquire (kernel.place_fresh l.held hsize)) hcqDepth hsqMap
      (kernel.place_ne_zero _ _) hsqSize rfl (kernel.place_apart _ _ _ _ hsqHeld)

theorem mapSqRing_finishes
    (kernel : Kernel) (sys : SystemCalls) (hgained : start.Gained [.descriptor fd] l) (hsqDepth : 0 < sqDepth)
    (hcqDepth : 0 < cqDepth) :
    Finishes kernel sqDepth cqDepth start
      (mapSqRing kernel sys sqDepth cqDepth fd l) sys.sqRingError := by
  unfold mapSqRing SystemCalls.sqRingError
  by_cases hfails : sys.sqMmapFails = true
  · have hclosed : l.release (.descriptor fd) = start := hgained.releaseAll (List.Perm.refl _)
    rw [if_pos hfails, if_pos hfails, hclosed]
    exact .throws _
  · have hsize : 0 < (kernel.sqOff sqDepth cqDepth).array + sqDepth * 4 := by omega
    rw [if_neg hfails, if_neg hfails]
    exact mapSqes_finishes (hgained.acquire (kernel.place_fresh l.held hsize)) hsqDepth hcqDepth
      (kernel.place_ne_zero _ _) rfl

/-- The object was made for rings like these. -/
def Backs (kernel : Kernel) (io : IoObject) (rings : IoState) : Prop :=
  ∃ sqDepth cqDepth, rings = newRings sqDepth cqDepth ∧ io.MadeFor kernel sqDepth cqDepth

theorem construct_finishes
    (hzero : entries ≠ 0) (hsetup : ioUringSetup entries (entries * 2) = some (sqDepth, cqDepth))
    (hfails : sys.setupFails = false) (l : Ledger KernelResource) :
    Finishes kernel sqDepth cqDepth l (construct kernel sys entries l) sys.sqRingError := by
  obtain ⟨hsqDepth, hcqDepth⟩ := ioUringSetup_pos hsetup
  have hopened := (Ledger.Gained.refl l).acquire (kernel.nextFd_fresh l.held)
  have hcall : construct kernel sys entries l = mapSqRing kernel sys sqDepth cqDepth
      (kernel.nextFd l.held) (l.acquire (.descriptor (kernel.nextFd l.held))) := by
    simp [construct, hzero, hsetup, hfails]
  rw [hcall]
  exact mapSqRing_finishes kernel sys hopened hsqDepth hcqDepth

theorem construct_made
    (hsetup : ioUringSetup entries (entries * 2) = some (sqDepth, cqDepth)) {io : IoObject}
    {l' : Ledger KernelResource} (hok : construct kernel sys entries l = (.ok io, l')) :
    io.MadeFor kernel sqDepth cqDepth := by
  by_cases hzero : entries = 0
  · simp [construct, hzero] at hok
  by_cases hfails : sys.setupFails = true
  · simp [construct, hzero, hsetup, hfails] at hok
  have hfinishes : Finishes kernel sqDepth cqDepth l (construct kernel sys entries l)
      sys.sqRingError := construct_finishes hzero hsetup (by simpa using hfails) l
  rw [hok] at hfinishes
  generalize sys.sqRingError = error at hfinishes
  cases hfinishes with
  | returns hmade _ => exact hmade

theorem construct_cases
    (kernel : Kernel) (sys : SystemCalls) (entries : UInt32) (l : Ledger KernelResource) :
    (∃ err, construct kernel sys entries l = (.error err, l) ∧
      IoState.construct sys entries = .error err) ∨
    ∃ io l' rings, construct kernel sys entries l = (.ok io, l') ∧
      IoState.construct sys entries = .ok rings ∧ io.Backs kernel rings ∧
      l.Gained io.owns l' := by
  by_cases hzero : entries = 0
  · exact .inl ⟨_, if_pos hzero, if_pos hzero⟩
  cases hsetup : ioUringSetup entries (entries * 2) with
  | none =>
      exact .inl ⟨.ioException .ioSetupFailed, by simp [construct, hzero, hsetup],
        by simp [IoState.construct, hzero, hsetup]⟩
  | some depths =>
      obtain ⟨sqDepth, cqDepth⟩ := depths
      by_cases hfails : sys.setupFails
      · exact .inl ⟨.ioException .ioSetupFailed, by simp [construct, hzero, hsetup, hfails],
          by simp [IoState.construct, hzero, hsetup, hfails]⟩
      have hfinishes : Finishes kernel sqDepth cqDepth l (construct kernel sys entries l)
          sys.sqRingError := construct_finishes hzero hsetup (by simpa using hfails) l
      have hrings : IoState.construct sys entries =
          sys.sqRingError.elim (.ok (newRings sqDepth cqDepth)) Except.error := by
        simp only [IoState.construct, hzero, hsetup, hfails, if_false, Bool.false_eq_true,
          SystemCalls.sqRingError, SystemCalls.sqesError, SystemCalls.cqRingError]
        repeat' split
        all_goals rfl
      rw [hrings]
      generalize construct kernel sys entries l = outcome at hfinishes
      generalize sys.sqRingError = error at hfinishes
      cases hfinishes with
      | throws err => exact .inl ⟨err, rfl, rfl⟩
      | returns hmade hgained =>
          exact .inr ⟨_, _, _, rfl, rfl, ⟨sqDepth, cqDepth, rfl, hmade⟩, hgained⟩

theorem acquires (kernel : Kernel) (sys : SystemCalls) (entries : UInt32) :
    Acquires (construct kernel sys entries) owns := by
  constructor
  · intro l io l' hok
    rcases construct_cases kernel sys entries l with
      ⟨err, hthrows, -⟩ | ⟨io', l₁, -, hreturns, -, -, hgained⟩
    · simp [hthrows] at hok
    · rw [hreturns, Prod.mk.injEq, Except.ok.injEq] at hok
      obtain ⟨rfl, rfl⟩ := hok
      exact hgained
  · intro l err l' herror
    rcases construct_cases kernel sys entries l with
      ⟨err', hthrows, -⟩ | ⟨io', l₁, -, hreturns, -⟩
    · rw [hthrows, Prod.mk.injEq] at herror
      exact herror.2.symm
    · simp [hreturns] at herror

/-- `~IO` closes what the object owns, in the order opposite to `IO::IO`. -/
theorem frees : Frees destroy owns := by
  intro io l
  refine ⟨io.owns.reverse, List.reverse_perm _, ?_⟩
  have hwhen : ∀ (p : Prop) [Decidable p] (l : Ledger KernelResource) (r : KernelResource),
      (if p then l.release r else l) = l.releaseAll (if p then [r] else []).reverse := by
    intro p _ l r
    split <;> rfl
  simp only [destroy, owns, List.reverse_append, Ledger.releaseAll_append, hwhen]

end IoObject

/-! ## Nodes and the runtime -/

theorem constructScheduler_acquires (kernel : Kernel) (sys : SystemCalls) :
    Acquires (constructScheduler kernel sys) schedulerOwns := by
  constructor
  · intro l eventfd l' hok
    simp only [constructScheduler] at hok
    split at hok
    next => simp at hok
    next =>
      simp only [Prod.mk.injEq, Except.ok.injEq] at hok
      obtain ⟨rfl, rfl⟩ := hok
      simpa [schedulerOwns] using
        (Ledger.Gained.refl l).acquire (kernel.nextFd_fresh l.held)
  · intro l err l' herror
    simp only [constructScheduler] at herror
    split at herror
    next => exact (Prod.mk.inj herror).2.symm
    next => simp at herror

theorem destroyScheduler_frees : Frees destroyScheduler schedulerOwns := by
  intro eventfd l
  refine ⟨schedulerOwns eventfd, .refl _, ?_⟩
  simp only [destroyScheduler, schedulerOwns]
  split <;> rfl

namespace NodeObject

theorem acquires (kernel : Kernel) (sys : SystemCalls) (entries : UInt32) :
    Acquires (construct kernel sys entries) owns :=
  (IoObject.acquires kernel sys entries).andThen IoObject.frees fun _ =>
    constructScheduler_acquires kernel sys

theorem frees : Frees destroy owns :=
  IoObject.frees.both destroyScheduler_frees

theorem makeUnique_acquires (kernel : Kernel) (sys : SystemCalls) :
    Acquires (makeUnique kernel sys) owns := by
  by_cases hnew : sys.newFails = true
  · have hcall : makeUnique kernel sys = fun l => (.error .badAlloc, l) :=
      funext fun l => if_pos hnew
    rw [hcall]
    refine ⟨fun hok => ?_, fun herror => (Prod.mk.inj herror).2.symm⟩
    simp at hok
  · have hcall : makeUnique kernel sys = construct kernel sys defaultEntries :=
      funext fun l => if_neg hnew
    rw [hcall]
    exact acquires kernel sys defaultEntries

theorem construct_alike
    (kernel : Kernel) (sys : SystemCalls) (entries : UInt32) (l : Ledger KernelResource) :
    Alike (fun node rings => node.1.Backs kernel rings) (construct kernel sys entries l).1
      (constructNode sys entries) := by
  rcases IoObject.construct_cases kernel sys entries l with
    ⟨err, hthrows, hrings⟩ | ⟨io, l', rings, hreturns, hrings, hbacks, -⟩
  · simp only [construct, andThen, constructNode, hthrows, hrings]
    exact .throws err
  · by_cases hfails : sys.eventfdFails = true
    · simp only [construct, andThen, constructNode, hreturns, hrings, constructScheduler, hfails,
        if_true]
      exact .throws _
    · simp only [construct, andThen, constructNode, hreturns, hrings, constructScheduler, hfails,
        if_false, Bool.false_eq_true]
      exact .returns hbacks

theorem makeUnique_alike
    (kernel : Kernel) (sys : SystemCalls) (l : Ledger KernelResource) :
    Alike (fun node rings => node.1.Backs kernel rings) (makeUnique kernel sys l).1
      (WorkerNode.construct sys) := by
  unfold makeUnique WorkerNode.construct
  split
  · exact .throws _
  · exact construct_alike kernel sys defaultEntries l

theorem pushAll_alike
    (kernel : Kernel) (sys : ℕ → SystemCalls) (remaining : ℕ) {built : List NodeObject}
    {workers : List IoState} (l : Ledger KernelResource)
    (hbuilt : List.Forall₂ (fun node rings => node.1.Backs kernel rings) built workers) :
    Alike (List.Forall₂ fun node rings => node.1.Backs kernel rings)
      (pushAll (fun i => makeUnique kernel (sys i)) destroy remaining built l).1
      (pushWorkers sys remaining workers) := by
  induction remaining generalizing built workers l with
  | zero => exact .returns hbuilt
  | succ remaining ih =>
      have hone := makeUnique_alike kernel (sys built.length) l
      simp only [pushAll, pushWorkers, ← hbuilt.length_eq]
      cases hcall : makeUnique kernel (sys built.length) l with
      | mk outcome l' =>
          rw [hcall] at hone
          generalize WorkerNode.construct (sys built.length) = rings at hone
          cases hone with
          | throws err => exact .throws err
          | returns hbacks => exact ih l' (List.rel_append hbuilt (.cons hbacks .nil))

end NodeObject

namespace RuntimeObject

theorem constructWorkers_acquires
    (kernel : Kernel) (sys : RuntimeCalls) (workerCount : UInt64) :
    Acquires (constructWorkers kernel sys workerCount) fun all =>
      all.flatMap NodeObject.owns := by
  have hloop := Acquires.pushAll (fun i => NodeObject.makeUnique_acquires kernel (sys.workers i))
    NodeObject.frees workerCount.toNat
  constructor
  · intro l all l' hok
    simp only [constructWorkers] at hok
    repeat' split at hok
    · simp at hok
    · simp at hok
    · exact hloop.returns hok
  · intro l err l' herror
    simp only [constructWorkers] at herror
    repeat' split at herror
    · exact (Prod.mk.inj herror).2.symm
    · exact (Prod.mk.inj herror).2.symm
    · exact hloop.throws herror

theorem acquires
    (kernel : Kernel) (sys : RuntimeCalls) (workerCount : UInt64) (entries : UInt32) :
    Acquires (construct kernel sys workerCount entries) owns :=
  (NodeObject.acquires kernel sys.dispatcher entries).andThen NodeObject.frees fun _ =>
    constructWorkers_acquires kernel sys workerCount

theorem frees : Frees destroy owns :=
  NodeObject.frees.both NodeObject.frees.all

/-- The rings of the runtime model, as made by these constructors. -/
structure Backs (kernel : Kernel) (runtime : RuntimeObject) (rings : RuntimeRings) : Prop where
  dispatcher : runtime.1.1.Backs kernel rings.dispatcher
  workers : List.Forall₂ (fun node io => node.1.Backs kernel io) runtime.2 rings.workers

theorem construct_alike
    (kernel : Kernel) (sys : RuntimeCalls) (workerCount : UInt64) (entries : UInt32)
    (l : Ledger KernelResource) :
    Alike (Backs kernel) (construct kernel sys workerCount entries l).1
      (RuntimeRings.construct sys workerCount entries) := by
  have hdispatcher := NodeObject.construct_alike kernel sys.dispatcher entries l
  cases hcall : NodeObject.construct kernel sys.dispatcher entries l with
  | mk outcome l' =>
      rw [hcall] at hdispatcher
      simp only [construct, andThen, RuntimeRings.construct, hcall]
      generalize constructNode sys.dispatcher entries = rings at hdispatcher
      cases hdispatcher with
      | throws err => exact .throws err
      | returns hbacks =>
          by_cases hmax : maxWorkers < workerCount.toNat
          · simp only [constructWorkers, hmax, if_true]
            exact .throws _
          by_cases hreserve : sys.reserveFails = true
          · simp only [constructWorkers, hmax, hreserve, if_false, if_true]
            exact .throws _
          have hloop := NodeObject.pushAll_alike kernel sys.workers workerCount.toNat l' .nil
          simp only [constructWorkers, hmax, hreserve, if_false, Bool.false_eq_true]
          cases hbody : pushAll (fun i => NodeObject.makeUnique kernel (sys.workers i))
              NodeObject.destroy workerCount.toNat [] l' with
          | mk outcome l'' =>
              rw [hbody] at hloop
              generalize pushWorkers sys.workers workerCount.toNat [] = workers at hloop
              cases hloop with
              | throws err => exact .throws err
              | returns hworkers => exact .returns ⟨hbacks, hworkers⟩

end RuntimeObject

/-- Whichever calls fail while a runtime is constructed, what has been opened by
then is closed before the exception leaves; a runtime which is returned owns
each thing once and closes it once; and the constructors end as the model of the
ring depths says, with objects made for rings of these depths. -/
theorem construction_restores_resources
    (kernel : Kernel) (sys : RuntimeCalls) (workerCount : UInt64) (entries : UInt32)
    (l : Ledger KernelResource) :
    (∀ err l', RuntimeObject.construct kernel sys workerCount entries l = (.error err, l') →
      l' = l) ∧
    (∀ runtime l',
      RuntimeObject.construct kernel sys workerCount entries l = (.ok runtime, l') →
      l.Gained runtime.owns l' ∧ runtime.destroy l' = l) ∧
    Alike (RuntimeObject.Backs kernel)
      (RuntimeObject.construct kernel sys workerCount entries l).1
      (RuntimeRings.construct sys workerCount entries) := by
  have hacquires := RuntimeObject.acquires kernel sys workerCount entries
  refine ⟨fun err l' herror => hacquires.throws herror, fun runtime l' hok => ?_,
    RuntimeObject.construct_alike kernel sys workerCount entries l⟩
  have hgained := hacquires.returns hok
  exact ⟨hgained, RuntimeObject.frees.restores hgained⟩

/-! ## A kernel -/

/-- The layout of Linux, where the rings share one structure which ends with the
completions and is followed by the submission array. -/
def linuxSqOff (_sqDepth cqDepth : ℕ) : SqOffsets where
  head := 0
  tail := 64
  ringMask := 256
  ringEntries := 264
  flags := 276
  dropped := 272
  array := 64 * ((320 + cqeSize * cqDepth + 63) / 64)

def linuxCqOff (_sqDepth _cqDepth : ℕ) : CqOffsets where
  head := 128
  tail := 192
  ringMask := 260
  ringEntries := 268
  cqes := 320

def KernelResource.number : KernelResource → ℕ
  | .descriptor fd => fd
  | .mapping _ _ => 0

def KernelResource.mappedUpTo : KernelResource → ℕ
  | .descriptor _ => 0
  | .mapping addr size => addr + size

def KernelResource.highest (held : Finset KernelResource) : ℕ :=
  held.fold max 0 number

def KernelResource.mappedEnd (held : Finset KernelResource) : ℕ :=
  held.fold max 0 mappedUpTo

theorem KernelResource.notMem_of_highest (held : Finset KernelResource) :
    descriptor (highest held + 1) ∉ held := by
  intro hmem
  have hle : number (descriptor (highest held + 1)) ≤ highest held :=
    (Finset.le_fold_max _).mpr (.inr ⟨_, hmem, le_rfl⟩)
  exact Nat.not_succ_le_self _ hle

theorem KernelResource.apart_mappedEnd
    (held : Finset KernelResource) (size addr size' : ℕ) (hmem : mapping addr size' ∈ held) :
    Member.Apart ⟨addr, size'⟩ ⟨mappedEnd held + 4096, size⟩ := by
  have hle : mappedUpTo (mapping addr size') ≤ mappedEnd held :=
    (Finset.le_fold_max _).mpr (.inr ⟨_, hmem, le_rfl⟩)
  exact .inl (hle.trans (Nat.le_add_right _ _))

theorem linux_members_apart
    (sqDepth cqDepth : ℕ) (m m' : RingMember) (hne : m ≠ m') :
    (ringMember (linuxSqOff sqDepth cqDepth) (linuxCqOff sqDepth cqDepth) sqDepth cqDepth
      m).Apart
      (ringMember (linuxSqOff sqDepth cqDepth) (linuxCqOff sqDepth cqDepth) sqDepth cqDepth
        m') := by
  cases m <;> cases m' <;>
    simp [ringMember, linuxSqOff, linuxCqOff, cqeSize, Member.Apart] at hne ⊢ <;> omega

theorem linux_members_end (sqDepth cqDepth : ℕ) (m : RingMember) :
    let member := ringMember (linuxSqOff sqDepth cqDepth) (linuxCqOff sqDepth cqDepth) sqDepth
      cqDepth m
    member.offset + member.width ≤
      if m.isSq then (linuxSqOff sqDepth cqDepth).array + sqDepth * 4
      else (linuxCqOff sqDepth cqDepth).cqes + cqDepth * cqeSize := by
  cases m <;> simp [ringMember, RingMember.isSq, linuxSqOff, linuxCqOff, cqeSize] <;> omega

/-- Descriptors above all open ones, and mappings behind all others. -/
def linuxKernel : Kernel where
  nextFd held := KernelResource.highest held + 1
  place held _ := KernelResource.mappedEnd held + 4096
  sqOff := linuxSqOff
  cqOff := linuxCqOff
  nextFd_fresh := KernelResource.notMem_of_highest
  place_ne_zero _ _ := Nat.succ_ne_zero _
  place_apart := KernelResource.apart_mappedEnd
  members_apart := linux_members_apart
  members_end := linux_members_end

end SlimCommonIo
