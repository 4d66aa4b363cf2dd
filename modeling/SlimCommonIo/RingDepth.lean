import SlimCommonIo.Runtime
import Mathlib.Data.Nat.Log

/-!
# The depths of the rings

`IO::IO` asks for `entries` submissions and `entries * 2` completions, the
product taken modulo `2^32`; the kernel clamps both and rounds them up to
powers of two.  `Runtime::Runtime` constructs the dispatcher's ring with its
`entries`, and each worker's with the default.
-/

namespace SlimCommonIo

/-! ## The kernel -/

def ioringMaxEntries : ℕ := 32768
def ioringMaxCqEntries : ℕ := 65536

/-- The next power of two. -/
def roundupPowOfTwo (n : ℕ) : ℕ :=
  2 ^ Nat.clog 2 n

/-- The depths `io_uring_setup` provides under `IORING_SETUP_CQSIZE` and
`IORING_SETUP_CLAMP`, or nothing if it rejects the sizes. -/
def ioUringSetup (entries cqEntries : UInt32) : Option (ℕ × ℕ) :=
  let sqDepth := roundupPowOfTwo (min entries.toNat ioringMaxEntries)
  let cqDepth := roundupPowOfTwo (min cqEntries.toNat ioringMaxCqEntries)
  if cqEntries = 0 ∨ cqDepth < sqDepth then none else some (sqDepth, cqDepth)

/-- Which calls of one construction fail for other reasons than sizes, and
whether the kernel maps both rings at once. -/
structure SystemCalls where
  setupFails : Bool := false
  sqMmapFails : Bool := false
  sqesMmapFails : Bool := false
  singleMmap : Bool := true
  cqMmapFails : Bool := false
  eventfdFails : Bool := false
  newFails : Bool := false

/-! ## The constructors -/

inductive ConstructionError
  | ioException (status : ErrorStatus)
  | lengthError
  | badAlloc
  deriving DecidableEq, Repr

def newRings (sqDepth cqDepth : ℕ) : IoState where
  sq :=
    { head := 0, tail := 0, mask := UInt32.ofNat sqDepth - 1, entries := UInt32.ofNat sqDepth
      array := fun _ => 0, sqes := fun _ => Sqe.zero }
  cq :=
    { head := 0, tail := 0, mask := UInt32.ofNat cqDepth - 1, entries := UInt32.ofNat cqDepth
      cqes := fun _ => { userData := .null, res := 0, stamp := none } }
  kernel := []
  staged := []
  consumed := []
  posted := []
  handled := 0

/-- `IO::IO`. -/
def IoState.construct (sys : SystemCalls) (entries : UInt32) :
    Except ConstructionError IoState :=
  if entries = 0 then .error (.ioException .ioInvalidEntries)
  else
    match ioUringSetup entries (entries * 2) with
    | none => .error (.ioException .ioSetupFailed)
    | some (sqDepth, cqDepth) =>
        if sys.setupFails then .error (.ioException .ioSetupFailed)
        else if sys.sqMmapFails then .error (.ioException .ioMmapSqFailed)
        else if sys.sqesMmapFails then .error (.ioException .ioMmapSqesFailed)
        else if !sys.singleMmap && sys.cqMmapFails then .error (.ioException .ioMmapCqFailed)
        else .ok (newRings sqDepth cqDepth)

/-- A ring and the `Scheduler` on it, which creates its eventfd. -/
def constructNode (sys : SystemCalls) (entries : UInt32) : Except ConstructionError IoState :=
  match IoState.construct sys entries with
  | .error err => .error err
  | .ok io =>
      if sys.eventfdFails then .error (.ioException .eventFdCreateFailed) else .ok io

/-- The default argument of `IO::IO`. -/
def defaultEntries : UInt32 := 256

/-- `std::make_unique<WorkerNode>()`. -/
def WorkerNode.construct (sys : SystemCalls) : Except ConstructionError IoState :=
  if sys.newFails then .error .badAlloc else constructNode sys defaultEntries

structure RuntimeRings where
  dispatcher : IoState
  workers : List IoState

/-- The calls during the construction of a runtime. -/
structure RuntimeCalls where
  dispatcher : SystemCalls := {}
  reserveFails : Bool := false
  workers : ℕ → SystemCalls := fun _ => {}

/-- The loop of `Runtime::Runtime`, with the workers so far. -/
def pushWorkers (sys : ℕ → SystemCalls) :
    ℕ → List IoState → Except ConstructionError (List IoState)
  | 0, workers => .ok workers
  | remaining + 1, workers =>
      match WorkerNode.construct (sys workers.length) with
      | .error err => .error err
      | .ok io => pushWorkers sys remaining (workers ++ [io])

/-- `max_size()` of a vector of pointers. -/
def maxWorkers : ℕ := 2 ^ 60 - 1

/-- `Runtime::Runtime`. -/
def RuntimeRings.construct (sys : RuntimeCalls) (workerCount : UInt64) (entries : UInt32) :
    Except ConstructionError RuntimeRings :=
  match constructNode sys.dispatcher entries with
  | .error err => .error err
  | .ok dispatcher =>
      if maxWorkers < workerCount.toNat then .error .lengthError
      else if sys.reserveFails then .error .badAlloc
      else
        match pushWorkers sys.workers workerCount.toNat [] with
        | .error err => .error err
        | .ok workers => .ok { dispatcher := dispatcher, workers := workers }

/-! ## The documented depth -/

/-- `entries` rounded up to a power of two, and at most 32768. -/
def documentedDepth (entries : UInt32) : ℕ :=
  min (2 ^ Nat.clog 2 entries.toNat) 32768

structure IoState.HasDepth (io : IoState) (entries : UInt32) : Prop where
  sq : io.sq.entries.toNat = documentedDepth entries
  cq : io.cq.entries.toNat = 2 * documentedDepth entries

/-- `IO(entries)` is not rejected for its size, and every ring constructed for
these arguments has the documented depth. -/
structure DepthsDocumented (workerCount : UInt64) (entries : UInt32) : Prop where
  accepted : ∃ io, IoState.construct {} entries = .ok io
  io : ∀ sys io, IoState.construct sys entries = .ok io → io.HasDepth entries
  runtime : ∀ sys rings, RuntimeRings.construct sys workerCount entries = .ok rings →
    rings.dispatcher.HasDepth entries ∧ ∀ io ∈ rings.workers, io.HasDepth entries

/-! ## Rounding -/

theorem roundupPowOfTwo_monotone : Monotone roundupPowOfTwo := by
  intro n m hle
  exact Nat.pow_le_pow_right (by decide) (Nat.clog_mono_right 2 hle)

theorem roundupPowOfTwo_two_pow (k : ℕ) : roundupPowOfTwo (2 ^ k) = 2 ^ k := by
  rw [roundupPowOfTwo, Nat.clog_pow 2 k (by decide)]

theorem roundupPowOfTwo_min (n k : ℕ) :
    roundupPowOfTwo (min n (2 ^ k)) = min (roundupPowOfTwo n) (2 ^ k) := by
  rw [roundupPowOfTwo_monotone.map_min, roundupPowOfTwo_two_pow]

theorem roundupPowOfTwo_double {n : ℕ} (hn : 0 < n) :
    roundupPowOfTwo (2 * n) = 2 * roundupPowOfTwo n := by
  have hhalf : (2 * n + 2 - 1) / 2 = n := by omega
  rw [roundupPowOfTwo, roundupPowOfTwo, Nat.clog_of_one_lt (by decide) (by omega), hhalf,
    Nat.pow_succ, Nat.mul_comm]

theorem le_roundupPowOfTwo (n : ℕ) : n ≤ roundupPowOfTwo n :=
  Nat.le_pow_clog (by decide) n

theorem roundupPowOfTwo_le_iff (n k : ℕ) : roundupPowOfTwo n ≤ 2 ^ k ↔ n ≤ 2 ^ k := by
  rw [roundupPowOfTwo, Nat.pow_le_pow_iff_right (by decide),
    Nat.clog_le_iff_le_pow (by decide)]

theorem two_pow_le_roundupPowOfTwo {n k : ℕ} (hlt : 2 ^ k < n) :
    2 ^ (k + 1) ≤ roundupPowOfTwo n := by
  rw [roundupPowOfTwo]
  exact Nat.pow_le_pow_right (by decide) ((Nat.lt_clog_iff_pow_lt (by decide)).mpr hlt)

/-! ## What the kernel is asked for -/

theorem sqDepth_eq (entries : UInt32) :
    roundupPowOfTwo (min entries.toNat ioringMaxEntries) = documentedDepth entries :=
  roundupPowOfTwo_min entries.toNat 15

theorem cqDepth_eq (cqEntries : UInt32) :
    roundupPowOfTwo (min cqEntries.toNat ioringMaxCqEntries) =
      min (roundupPowOfTwo cqEntries.toNat) 65536 :=
  roundupPowOfTwo_min cqEntries.toNat 16

theorem documentedDepth_of_large {entries : UInt32} (hlarge : 32768 ≤ entries.toNat) :
    documentedDepth entries = 32768 :=
  min_eq_right (hlarge.trans (le_roundupPowOfTwo entries.toNat))

theorem documentedDepth_pos (entries : UInt32) : 0 < documentedDepth entries :=
  lt_min (Nat.two_pow_pos _) (by decide)

theorem doubled_toNat (entries : UInt32) :
    (entries * 2).toNat = if entries.toNat < 2 ^ 31 then 2 * entries.toNat
      else 2 * entries.toNat - 2 ^ 32 := by
  have hlt := entries.toNat_lt
  have htwo : (2 : UInt32).toNat = 2 := rfl
  rw [UInt32.toNat_mul, htwo]
  split <;> omega

/-- The doubled request comes out as twice the submission depth, unless it has
wrapped to at most 32768. -/
theorem cqDepth_doubled_iff {entries : UInt32} (hnonzero : entries ≠ 0) :
    roundupPowOfTwo (min (entries * 2).toNat ioringMaxCqEntries) = 2 * documentedDepth entries ↔
      entries.toNat < 2 ^ 31 ∨ 2 ^ 31 + 16384 < entries.toNat := by
  have hpos : 0 < entries.toNat :=
    Nat.pos_of_ne_zero fun hzero => hnonzero (UInt32.toNat_inj.mp hzero)
  rw [cqDepth_eq, doubled_toNat]
  by_cases hsmall : entries.toNat < 2 ^ 31
  · have hdouble : min (2 * roundupPowOfTwo entries.toNat) 65536 = 2 * documentedDepth entries :=
      Nat.mul_min_mul_left 2 _ 32768
    rw [if_pos hsmall, roundupPowOfTwo_double hpos]
    exact iff_of_true hdouble (.inl hsmall)
  · have hdepth : 2 * documentedDepth entries = 65536 := by
      rw [documentedDepth_of_large (by omega)]
    rw [if_neg hsmall, hdepth]
    by_cases hwrapped : 2 ^ 15 < 2 * entries.toNat - 2 ^ 32
    · have hfull : 65536 ≤ roundupPowOfTwo (2 * entries.toNat - 2 ^ 32) :=
        two_pow_le_roundupPowOfTwo hwrapped
      exact iff_of_true (min_eq_right hfull) (.inr (by omega))
    · have hhalf : roundupPowOfTwo (2 * entries.toNat - 2 ^ 32) ≤ 2 ^ 15 :=
        (roundupPowOfTwo_le_iff _ 15).mpr (by omega)
      exact iff_of_false (by omega) (by omega)

theorem ioUringSetup_doubled_iff {entries : UInt32} (hnonzero : entries ≠ 0) :
    ioUringSetup entries (entries * 2) =
        some (documentedDepth entries, 2 * documentedDepth entries) ↔
      entries.toNat < 2 ^ 31 ∨ 2 ^ 31 + 16384 < entries.toNat := by
  rw [← cqDepth_doubled_iff hnonzero, ioUringSetup, sqDepth_eq]
  constructor
  · intro hsetup
    by_cases hrejected : entries * 2 = 0 ∨
        roundupPowOfTwo (min (entries * 2).toNat ioringMaxCqEntries) < documentedDepth entries
    · rw [if_pos hrejected] at hsetup
      exact absurd hsetup (by simp)
    · rw [if_neg hrejected, Option.some.injEq, Prod.mk.injEq] at hsetup
      exact hsetup.2
  · intro hdouble
    have hpos := documentedDepth_pos entries
    have haccepted : ¬ (entries * 2 = 0 ∨
        roundupPowOfTwo (min (entries * 2).toNat ioringMaxCqEntries) <
          documentedDepth entries) := by
      rintro (hzero | hless)
      · rw [hzero] at hdouble
        have hone : roundupPowOfTwo (min (0 : UInt32).toNat ioringMaxCqEntries) = 1 := by decide
        omega
      · omega
    rw [if_neg haccepted, hdouble]

/-! ## The rings of the constructors -/

theorem ioUringSetup_le
    {entries cqEntries : UInt32} {sqDepth cqDepth : ℕ}
    (hsetup : ioUringSetup entries cqEntries = some (sqDepth, cqDepth)) :
    (∃ n ≤ 15, sqDepth = 2 ^ n) ∧ ∃ n ≤ 16, cqDepth = 2 ^ n := by
  unfold ioUringSetup at hsetup
  simp only [Option.ite_none_left_eq_some, Option.some.injEq, Prod.mk.injEq] at hsetup
  obtain ⟨-, hsq, hcq⟩ := hsetup
  refine ⟨⟨_, ?_, hsq.symm⟩, ⟨_, ?_, hcq.symm⟩⟩
  · exact Nat.clog_le_of_le_pow (min_le_right _ _)
  · exact Nat.clog_le_of_le_pow (min_le_right _ _)

theorem IoState.construct_ok
    {sys : SystemCalls} {entries : UInt32} {io : IoState}
    (hok : IoState.construct sys entries = .ok io) :
    entries ≠ 0 ∧ ∃ sqDepth cqDepth,
      ioUringSetup entries (entries * 2) = some (sqDepth, cqDepth) ∧
        io = newRings sqDepth cqDepth := by
  unfold IoState.construct at hok
  split at hok
  next => cases hok
  next hnonzero =>
    cases hsetup : ioUringSetup entries (entries * 2) with
    | none => simp [hsetup] at hok
    | some depths =>
        simp only [hsetup] at hok
        refine ⟨hnonzero, depths.1, depths.2, rfl, ?_⟩
        repeat' split at hok
        all_goals cases hok
        rfl

theorem IoState.construct_of_setup
    {entries : UInt32} (hnonzero : entries ≠ 0) {sqDepth cqDepth : ℕ}
    (hsetup : ioUringSetup entries (entries * 2) = some (sqDepth, cqDepth)) :
    IoState.construct {} entries = .ok (newRings sqDepth cqDepth) := by
  simp [IoState.construct, hnonzero, hsetup]

theorem toNat_ofNat_two_pow {n : ℕ} (hn : n ≤ 16) : (UInt32.ofNat (2 ^ n)).toNat = 2 ^ n := by
  apply UInt32.toNat_ofNat_of_lt'
  exact Nat.pow_lt_pow_right (by decide) (show n < 32 by omega)

theorem newRings_created {n m : ℕ} (hn : n ≤ 15) (hm : m ≤ 16) :
    (newRings (2 ^ n) (2 ^ m)).Created := by
  have hsq : (UInt32.ofNat (2 ^ n)).toNat = 2 ^ n := toNat_ofNat_two_pow (by omega)
  have hcq : (UInt32.ofNat (2 ^ m)).toNat = 2 ^ m := toNat_ofNat_two_pow hm
  exact
    { sqGeometry := ⟨⟨n, by omega, hsq⟩, rfl⟩
      cqGeometry := ⟨⟨m, by omega, hcq⟩, rfl⟩
      sqEmpty := rfl
      cqEmpty := rfl
      kernel := rfl
      staged := rfl
      consumed := rfl
      posted := rfl
      handled := rfl
      sqDepth := by
        change (UInt32.ofNat (2 ^ n)).toNat ≤ 2 ^ 15
        rw [hsq]
        exact Nat.pow_le_pow_right (by decide) hn
      cqDepth := by
        change (UInt32.ofNat (2 ^ m)).toNat ≤ 2 ^ 16
        rw [hcq]
        exact Nat.pow_le_pow_right (by decide) hm }

theorem IoState.construct_created
    {sys : SystemCalls} {entries : UInt32} {io : IoState}
    (hok : IoState.construct sys entries = .ok io) : io.Created := by
  obtain ⟨-, sqDepth, cqDepth, hsetup, rfl⟩ := IoState.construct_ok hok
  obtain ⟨⟨n, hn, rfl⟩, ⟨m, hm, rfl⟩⟩ := ioUringSetup_le hsetup
  exact newRings_created hn hm

theorem newRings_hasDepth_iff
    {entries cqEntries : UInt32} {sqDepth cqDepth : ℕ}
    (hsetup : ioUringSetup entries cqEntries = some (sqDepth, cqDepth)) (documented : UInt32) :
    (newRings sqDepth cqDepth).HasDepth documented ↔
      sqDepth = documentedDepth documented ∧ cqDepth = 2 * documentedDepth documented := by
  obtain ⟨⟨n, hn, hsq⟩, ⟨m, hm, hcq⟩⟩ := ioUringSetup_le hsetup
  have hsqEntries : (newRings sqDepth cqDepth).sq.entries.toNat = sqDepth := by
    rw [hsq]
    exact toNat_ofNat_two_pow (by omega)
  have hcqEntries : (newRings sqDepth cqDepth).cq.entries.toNat = cqDepth := by
    rw [hcq]
    exact toNat_ofNat_two_pow hm
  constructor
  · intro hdepth
    exact ⟨hsqEntries.symm.trans hdepth.sq, hcqEntries.symm.trans hdepth.cq⟩
  · rintro ⟨hsqDepth, hcqDepth⟩
    exact ⟨hsqEntries.trans hsqDepth, hcqEntries.trans hcqDepth⟩

theorem IoState.construct_hasDepth
    {sys : SystemCalls} {entries : UInt32} {io : IoState}
    (hrange : entries.toNat < 2 ^ 31 ∨ 2 ^ 31 + 16384 < entries.toNat)
    (hok : IoState.construct sys entries = .ok io) : io.HasDepth entries := by
  obtain ⟨hnonzero, sqDepth, cqDepth, hsetup, rfl⟩ := IoState.construct_ok hok
  rw [newRings_hasDepth_iff hsetup]
  rw [(ioUringSetup_doubled_iff hnonzero).mpr hrange, Option.some.injEq, Prod.mk.injEq] at hsetup
  exact ⟨hsetup.1.symm, hsetup.2.symm⟩

/-- `IO(entries)` alone: accepted and of the documented depth, outside of the
sizes whose double wraps to a small number. -/
theorem IoState.construct_documented_iff {entries : UInt32} (hnonzero : entries ≠ 0) :
    ((∃ io, IoState.construct {} entries = .ok io) ∧
        ∀ sys io, IoState.construct sys entries = .ok io → io.HasDepth entries) ↔
      entries.toNat < 2 ^ 31 ∨ 2 ^ 31 + 16384 < entries.toNat := by
  constructor
  · rintro ⟨⟨io, hok⟩, hdepth⟩
    obtain ⟨-, sqDepth, cqDepth, hsetup, rfl⟩ := IoState.construct_ok hok
    obtain ⟨hsq, hcq⟩ := (newRings_hasDepth_iff hsetup entries).mp (hdepth {} _ hok)
    rw [hsq, hcq] at hsetup
    exact (ioUringSetup_doubled_iff hnonzero).mp hsetup
  · intro hrange
    have hsetup := (ioUringSetup_doubled_iff hnonzero).mpr hrange
    exact ⟨⟨_, IoState.construct_of_setup hnonzero hsetup⟩,
      fun sys io hok => IoState.construct_hasDepth hrange hok⟩

/-! ## Workers -/

theorem constructNode_ok
    {sys : SystemCalls} {entries : UInt32} {io : IoState}
    (hok : constructNode sys entries = .ok io) : IoState.construct sys entries = .ok io := by
  unfold constructNode at hok
  cases hio : IoState.construct sys entries with
  | error err => simp [hio] at hok
  | ok io' =>
      simp only [hio] at hok
      split at hok
      next => cases hok
      next => exact hok

theorem WorkerNode.construct_ok
    {sys : SystemCalls} {io : IoState} (hok : WorkerNode.construct sys = .ok io) :
    IoState.construct sys defaultEntries = .ok io := by
  unfold WorkerNode.construct at hok
  split at hok
  next => cases hok
  next => exact constructNode_ok hok

/-- The loop adds one ring of the default depth after the other. -/
theorem pushWorkers_ok
    {sys : ℕ → SystemCalls} {remaining : ℕ} {workers result : List IoState}
    (hok : pushWorkers sys remaining workers = .ok result) :
    ∃ added, result = workers ++ added ∧ added.length = remaining ∧
      ∀ io ∈ added, ∃ calls, IoState.construct calls defaultEntries = .ok io := by
  induction remaining generalizing workers with
  | zero =>
      rw [pushWorkers, Except.ok.injEq] at hok
      exact ⟨[], by simp [hok], rfl, by simp⟩
  | succ remaining ih =>
      rw [pushWorkers] at hok
      cases hworker : WorkerNode.construct (sys workers.length) with
      | error err => simp [hworker] at hok
      | ok io =>
          rw [hworker] at hok
          obtain ⟨added, hresult, hlength, hadded⟩ := ih hok
          refine ⟨io :: added, by simp [hresult], by simp [hlength], ?_⟩
          intro io' hmem
          rcases List.mem_cons.mp hmem with rfl | hmem
          · exact ⟨_, WorkerNode.construct_ok hworker⟩
          · exact hadded io' hmem

theorem RuntimeRings.construct_ok
    {sys : RuntimeCalls} {workerCount : UInt64} {entries : UInt32} {rings : RuntimeRings}
    (hok : RuntimeRings.construct sys workerCount entries = .ok rings) :
    IoState.construct sys.dispatcher entries = .ok rings.dispatcher ∧
      workerCount.toNat ≤ maxWorkers ∧ rings.workers.length = workerCount.toNat ∧
      ∀ io ∈ rings.workers, ∃ calls, IoState.construct calls defaultEntries = .ok io := by
  unfold RuntimeRings.construct at hok
  cases hdispatcher : constructNode sys.dispatcher entries with
  | error err => simp [hdispatcher] at hok
  | ok dispatcher =>
      simp only [hdispatcher] at hok
      split at hok
      next => cases hok
      next hfits =>
        split at hok
        next => cases hok
        next =>
          cases hworkers : pushWorkers sys.workers workerCount.toNat [] with
          | error err => simp [hworkers] at hok
          | ok workers =>
              rw [hworkers, Except.ok.injEq] at hok
              obtain ⟨added, hresult, hlength, hadded⟩ := pushWorkers_ok hworkers
              rw [List.nil_append] at hresult
              subst hok
              subst hresult
              exact ⟨constructNode_ok hdispatcher, Nat.le_of_not_lt hfits, hlength, hadded⟩

/-- Every ring of a constructed runtime is one the rest of the development
starts from. -/
theorem RuntimeRings.construct_created
    {sys : RuntimeCalls} {workerCount : UInt64} {entries : UInt32} {rings : RuntimeRings}
    (hok : RuntimeRings.construct sys workerCount entries = .ok rings) :
    rings.dispatcher.Created ∧ ∀ io ∈ rings.workers, io.Created := by
  obtain ⟨hdispatcher, -, -, hworkers⟩ := RuntimeRings.construct_ok hok
  refine ⟨IoState.construct_created hdispatcher, ?_⟩
  intro io hmem
  obtain ⟨calls, hio⟩ := hworkers io hmem
  exact IoState.construct_created hio

theorem documentedDepth_default : documentedDepth defaultEntries = 256 := by
  have hround : 2 ^ Nat.clog 2 defaultEntries.toNat = 256 := roundupPowOfTwo_two_pow 8
  rw [documentedDepth, hround]
  rfl

theorem documentedDepth_eq_default_iff (entries : UInt32) :
    documentedDepth entries = 256 ↔ 128 < entries.toNat ∧ entries.toNat ≤ 256 := by
  have hupper := roundupPowOfTwo_le_iff entries.toNat 8
  have hlower := roundupPowOfTwo_le_iff entries.toNat 7
  change min (roundupPowOfTwo entries.toNat) 32768 = 256 ↔ _
  constructor
  · intro hdepth
    omega
  · rintro ⟨hmore, hle⟩
    have hfull : 2 ^ 8 ≤ roundupPowOfTwo entries.toNat := two_pow_le_roundupPowOfTwo hmore
    omega

/-- A worker's ring has the documented depth exactly when the default is it. -/
theorem IoState.default_hasDepth_iff
    {sys : SystemCalls} {io : IoState} (hok : IoState.construct sys defaultEntries = .ok io)
    (entries : UInt32) :
    io.HasDepth entries ↔ 128 < entries.toNat ∧ entries.toNat ≤ 256 := by
  have hdefault : io.HasDepth defaultEntries :=
    IoState.construct_hasDepth (.inl (by decide)) hok
  obtain ⟨hsq, hcq⟩ := hdefault
  rw [documentedDepth_default] at hsq hcq
  rw [← documentedDepth_eq_default_iff]
  constructor
  · intro hdepth
    rw [← hdepth.sq, hsq]
  · intro hdepth
    exact ⟨by rw [hsq, hdepth], by rw [hcq, hdepth]⟩

theorem pushWorkers_ideal (remaining : ℕ) (workers : List IoState) :
    pushWorkers (fun _ => {}) remaining workers =
      .ok (workers ++ List.replicate remaining (newRings 256 512)) := by
  have hsetup : ioUringSetup defaultEntries (defaultEntries * 2) = some (256, 512) := by
    have hdouble := (ioUringSetup_doubled_iff (show defaultEntries ≠ 0 by decide)).mpr
      (.inl (by decide))
    rw [documentedDepth_default] at hdouble
    exact hdouble
  have hworker : WorkerNode.construct {} = .ok (newRings 256 512) := by
    simp [WorkerNode.construct, constructNode,
      IoState.construct_of_setup (show defaultEntries ≠ 0 by decide) hsetup]
  induction remaining generalizing workers with
  | zero => simp [pushWorkers]
  | succ remaining ih =>
      simp only [pushWorkers, hworker, ih, List.replicate_succ, List.append_assoc,
        List.singleton_append]

theorem RuntimeRings.construct_ideal
    {entries : UInt32} {io : IoState} (hio : IoState.construct {} entries = .ok io)
    {workerCount : UInt64} (hfits : workerCount.toNat ≤ maxWorkers) :
    RuntimeRings.construct {} workerCount entries =
      .ok
        { dispatcher := io
          workers := List.replicate workerCount.toNat (newRings 256 512) } := by
  simp [RuntimeRings.construct, constructNode, hio, Nat.not_lt.mpr hfits, pushWorkers_ideal]

theorem DepthsDocumented.workers
    {workerCount : UInt64} {entries : UInt32} (hdepths : DepthsDocumented workerCount entries) :
    workerCount = 0 ∨ maxWorkers < workerCount.toNat ∨
      128 < entries.toNat ∧ entries.toNat ≤ 256 := by
  by_contra hworkers
  rw [not_or, not_or, Nat.not_lt] at hworkers
  obtain ⟨hsome, hfits, hdefault⟩ := hworkers
  obtain ⟨io, hok⟩ := hdepths.accepted
  have hideal := RuntimeRings.construct_ideal hok hfits
  have hcount : workerCount.toNat ≠ 0 :=
    fun hzero => hsome (UInt64.toNat_inj.mp hzero)
  have hmem : newRings 256 512 ∈ List.replicate workerCount.toNat (newRings 256 512) :=
    List.mem_replicate.mpr ⟨hcount, rfl⟩
  obtain ⟨calls, hworker⟩ := (RuntimeRings.construct_ok hideal).2.2.2 _ hmem
  have hdepth := (hdepths.runtime {} _ hideal).2 _ hmem
  exact hdefault ((IoState.default_hasDepth_iff hworker entries).mp hdepth)

/-- The rings get the documented depth exactly when the doubled request does
not wrap to a small number and no worker is given another depth than the
default. -/
theorem depths_documented_iff
    (workerCount : UInt64) {entries : UInt32} (hnonzero : entries ≠ 0) :
    DepthsDocumented workerCount entries ↔
      (entries.toNat < 2 ^ 31 ∨ 2 ^ 31 + 16384 < entries.toNat) ∧
      (workerCount = 0 ∨ maxWorkers < workerCount.toNat ∨
        128 < entries.toNat ∧ entries.toNat ≤ 256) := by
  constructor
  · intro hdepths
    have hrange := (IoState.construct_documented_iff hnonzero).mp ⟨hdepths.accepted, hdepths.io⟩
    exact ⟨hrange, hdepths.workers⟩
  · rintro ⟨hrange, hworkers⟩
    obtain ⟨haccepted, hio⟩ := (IoState.construct_documented_iff hnonzero).mpr hrange
    refine ⟨haccepted, hio, ?_⟩
    intro sys rings hok
    obtain ⟨hdispatcher, hfits, hlength, hall⟩ := RuntimeRings.construct_ok hok
    refine ⟨hio _ _ hdispatcher, ?_⟩
    intro io hmem
    rcases hworkers with rfl | hlong | hdefault
    · have hnone : rings.workers = [] := List.length_eq_zero_iff.mp hlength
      rw [hnone] at hmem
      exact absurd hmem (by simp)
    · exact absurd hfits (Nat.not_le.mpr hlong)
    · obtain ⟨calls, hworker⟩ := hall io hmem
      exact (IoState.default_hasDepth_iff hworker entries).mpr hdefault

theorem depths_documented_four_workers :
    (200 : UInt32) ≠ 0 ∧ DepthsDocumented 4 200 :=
  ⟨by decide, (depths_documented_iff 4 (by decide)).mpr
    ⟨.inl (by decide), .inr (.inr (by decide))⟩⟩

/-- A runtime asked for 512 entries gives its worker 256, and a ring of `2^31`
entries is refused, as no completions are asked for. -/
theorem worker_ring_not_512 :
    ¬ DepthsDocumented 1 512 ∧
    IoState.construct {} 2147483648 = .error (.ioException .ioSetupFailed) := by
  constructor
  · intro hdepths
    exact absurd hdepths.workers (by decide)
  · have hwrapped : (2147483648 : UInt32) * 2 = 0 := by decide
    have hrejected : ioUringSetup 2147483648 (2147483648 * 2) = none := by
      rw [ioUringSetup, hwrapped]
      exact if_pos (.inl rfl)
    rw [IoState.construct, if_neg (by decide), hrejected]

end SlimCommonIo
