import SlimCommonIo.MappedCalls

/-!
# A scheduler on mapped memory

The calls which a run of the scheduler makes on its rings, executed on the bytes
which the kernel has mapped for them: whatever the run did to its rings is in the
bytes at its end, and the kernel has read from the bytes what the run submitted.
-/

namespace SlimCommonIo

open ByteBlock ResourceLedger Transition

variable {P : Program} {address : UserData → UInt64} {io : IoObject} {sqDepth cqDepth : ℕ}
  {start : Block} {eventfd : Int32} {addr : UInt64}

/-- The bytes carry the rings of the scheduler. -/
structure CarriesRings (address : UserData → UInt64) (io : IoObject) (sqDepth cqDepth : ℕ)
    (start : Block) (eventfd : Int32) (addr : UInt64) (s : Scheduler P) (m : MappedState)
    (r : RingState) : Prop where
  rings : HasRings eventfd addr s r
  reaps : r.Reaps
  carries : Carries address io sqDepth cqDepth start m r

/-- Each step of a scheduler is a call on the bytes or none. -/
theorem simulates_bytes (hnull : address .null = 0) (hbuf : address .eventfdBuf = addr) :
    Simulates (Scheduler.step (P := P)) (MappedState.step io address eventfd addr)
      (fun s m => ∃ r, CarriesRings address io sqDepth cqDepth start eventfd addr s m r)
      MakesCall := by
  rintro s m label next ⟨r, hrings, hreaps, hcarries⟩ hstep
  rcases simulates_rings eventfd addr s r label next hrings hstep with
    hsame | ⟨call, r', hmakes, hring, hnext⟩
  · exact .inl ⟨r, hsame, hreaps, hcarries⟩
  · have hvalid : r.sq.Valid := hrings.sq ▸ hrings.invariant.valid
    have hanswer := hcarries.holds.step hvalid hnull hbuf eventfd call
    rw [hring] at hanswer
    cases hbytes : m.step io address eventfd addr call with
    | none =>
        rw [hbytes] at hanswer
        cases hanswer
    | some m' =>
        rw [hbytes, Option.rel_some_some] at hanswer
        exact .inr ⟨call, m', hmakes, hbytes, r', hnext, hreaps.step hring,
          hcarries.answered hanswer⟩

theorem CarriesRings.initial
    {rings : IoState} {entries cqEntries : UInt32} {kernel : Kernel} {mem : Block}
    (hsetup : ioUringSetup entries cqEntries = some (sqDepth, cqDepth))
    (hmade : io.MadeFor kernel sqDepth cqDepth) (hcovers : io.Covers kernel sqDepth cqDepth)
    (hmem : io.Initialised sqDepth cqDepth mem) (hnull : address .null = 0)
    (hrings : rings = newRings sqDepth cqDepth) :
    CarriesRings address io sqDepth cqDepth mem eventfd addr
      (Scheduler.initial P rings eventfd addr) { mem := mem }
      { sq := rings.sq, cq := rings.cq } := by
  subst hrings
  have hconveys := Conveys.initial hsetup hmade hcovers hmem hnull
  obtain ⟨⟨n, hn, rfl⟩, ⟨k, hk, rfl⟩⟩ := ioUringSetup_le hsetup
  exact ⟨⟨.initial (newRings_created hn hk).toFresh eventfd addr, rfl, rfl, rfl, rfl, rfl, rfl,
    rfl⟩, hconveys.passed.toReaps, hconveys.toCarries⟩

/-- Every run of a scheduler on a ring which `IO::IO` returned can be executed on
the memory the kernel has initialised.  The bytes hold the rings of the scheduler
at the end; the kernel has read from them the entries it took, in their order and
each as it was published; `drain` has read or will read the completions the
kernel posted; and bytes outside of the mappings are what they were. -/
theorem scheduler_runs_on_mapped_rings
    {kernel : Kernel} {sys : SystemCalls} {entries : UInt32} {l l' : Ledger KernelResource}
    {mem : Block} {rings : IoState} {history : List (Scheduler P × Label P)}
    {final : Scheduler P}
    (hok : IoObject.construct kernel sys entries l = (.ok io, l'))
    (hrings : IoState.construct sys entries = .ok rings)
    (hsetup : ioUringSetup entries (entries * 2) = some (sqDepth, cqDepth))
    (hcovers : io.Covers kernel sqDepth cqDepth) (hmem : io.Initialised sqDepth cqDepth mem)
    (hnull : address .null = 0) (hbuf : address .eventfdBuf = addr)
    (hrun : Run Scheduler.step (Scheduler.initial P rings eventfd addr) history final) :
    ∃ calls last,
      Run (MappedState.step io address eventfd addr) { mem := mem } calls last ∧
      io.Mapped address last.mem final.io.sq final.io.cq ∧
      List.Forall₂ (Sqe.LaidOut address) final.io.consumed last.taken ∧
      last.posted = final.io.posted.map (Cqe.value address) ∧
      last.reaped ++ io.unreapedCqes last.mem = last.posted ∧
      ∀ a, (∀ mapping ∈ io.mappings, ¬ mapping.Contains a) → last.mem a = mem a := by
  have hmade := IoObject.construct_made hsetup hok
  have hnew : rings = newRings sqDepth cqDepth := by
    obtain ⟨-, sqDepth', cqDepth', hsetup', rfl⟩ := IoState.construct_ok hrings
    rw [hsetup, Option.some.injEq, Prod.mk.injEq] at hsetup'
    rw [hsetup'.1, hsetup'.2]
  have hstart : CarriesRings address io sqDepth cqDepth mem eventfd addr
      (Scheduler.initial P rings eventfd addr) { mem := mem } { sq := rings.sq, cq := rings.cq } :=
    .initial hsetup hmade hcovers hmem hnull hnew
  obtain ⟨calls, last, hcalls, ⟨r, hlast, hreaps, hcarries⟩, -⟩ :=
    (simulates_bytes hnull hbuf).run ⟨_, hstart⟩ hrun
  have hmapped := hcarries.holds.mapped
  refine ⟨calls, last, hcalls, ?_, ?_, ?_, ?_, fun a ha => hcarries.outside a ?_⟩
  · rw [← hlast.sq, ← hlast.cq]
    exact hmapped
  · rw [← hlast.consumed]
    exact hcarries.holds.taken
  · rw [← hlast.posted]
    exact hcarries.holds.posted
  · rw [hcarries.holds.reaped, hmapped.unreapedCqes, hcarries.holds.posted, ← List.map_append,
      hreaps.completions]
  · intro part hpart
    obtain ⟨mapping, hmapping, hwithin⟩ := hmade.region_within hcovers part
    exact ha mapping hmapping (hwithin.contains hpart)

/-- The kernel takes the receive and the eventfd read and completes the receive,
which `drain` handles. -/
def receiveOnBytes : List (Label awaitScript) :=
  spawnThenRun ++ [.enter 2, .complete 0 5] ++ List.replicate 6 (.runner true)

theorem mapped_scheduler_receive :
    ∃ history final calls last,
      Run Scheduler.step (Scheduler.initial awaitScript (newRings 2 4) 3 64) history final ∧
      Run (MappedState.step linuxIo objectAddress 3 64)
        { mem := linuxIo.initialise 2 4 fun _ => 255 } calls last ∧
      linuxIo.Mapped objectAddress last.mem final.io.sq final.io.cq ∧
      List.Forall₂ (Sqe.LaidOut objectAddress) final.io.consumed last.taken ∧
      last.taken.length = 2 ∧ last.posted = [(1024, 5)] ∧
      last.reaped ++ linuxIo.unreapedCqes last.mem = last.posted ∧ final.io.cq.head = 1 := by
  have hok : (IoObject.construct linuxKernel {} 2 ⟨∅, false⟩).1 = .ok linuxIo := by
    decide +kernel
  have hsetup : ioUringSetup 2 (2 * 2) = some (2, 4) := by decide +kernel
  have hcovers : linuxIo.Covers linuxKernel 2 4 := fun _ => by decide +kernel
  have hmade := IoObject.construct_made hsetup (Prod.ext hok rfl)
  have hreplay : (replay Scheduler.step (fun _ _ => true)
      (Scheduler.initial awaitScript (newRings 2 4) 3 64) receiveOnBytes).any
      (fun s => s.io.consumed.length == 2 && s.io.cq.head == 1 &&
        s.io.posted.map (Cqe.value objectAddress) == [(1024, 5)]) = true := by
    decide +kernel
  obtain ⟨history, final, hrun, -, hfinal⟩ := exists_run_of_replay hreplay
  simp only [Bool.and_eq_true, beq_iff_eq] at hfinal
  obtain ⟨⟨hconsumed, hhead⟩, hposted⟩ := hfinal
  have hbuf : objectAddress .eventfdBuf = 64 := rfl
  obtain ⟨calls, last, hcalls, hmapped, hlaid, hlast, hreaped, -⟩ :=
    scheduler_runs_on_mapped_rings (Prod.ext hok rfl)
      (IoState.construct_of_setup (by decide) hsetup) hsetup hcovers
      (IoObject.initialise_initialised hmade hcovers fun _ => 255) rfl hbuf hrun
  exact ⟨history, final, calls, last, hrun, hcalls, hmapped, hlaid,
    hlaid.length_eq.symm.trans hconsumed, hlast.trans hposted, hreaped, hhead⟩

end SlimCommonIo
