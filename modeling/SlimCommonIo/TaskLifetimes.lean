import SlimCommonIo.TaskOwnership

/-!
# The lives of spawned tasks

Every frame which has been destroyed was destroyed once.  A task which `spawn` has
accepted stays in `tasks_`, in the order of the calls, until `reap` finds it done;
when the destructor has returned, all of them are gone.
-/

namespace SlimCommonIo

open Transition
open scoped List

variable {P : Program}

/-! ## The end of the destructor -/

/-- The calls of `shutdown` and of the destructor on the stack. -/
def calls : List (Activation P) → List (Activation P)
  | [] => []
  | .shutdown :: rest => .shutdown :: calls rest
  | .destructor :: rest => .destructor :: calls rest
  | _ :: rest => calls rest

theorem stack_of_calls
    {stack : List (Activation P)} (hwell : WellStacked stack)
    (hcalls : calls stack = [.destructor]) : stack = [.destructor] := by
  induction stack with
  | nil => simp [calls] at hcalls
  | cons act rest ih =>
      cases act with
      | shutdown => simp [calls] at hcalls
      | destructor =>
          have hbelow : rest = [] := hwell.1
          rw [hbelow]
      | _ =>
          have hrest := ih hwell.2 hcalls
          subst hrest
          simp [WellStacked, Activation.StandsOn] at hwell

theorem calls_deliver
    {status : Option ErrorStatus} {below stack : List (Activation P)}
    (hdeliver : Scheduler.deliver status below = some stack) : calls stack = calls below := by
  unfold Scheduler.deliver at hdeliver
  split at hdeliver
  all_goals simp at hdeliver
  all_goals subst hdeliver
  all_goals rfl

/-- A destroyed scheduler has no tasks and executes nothing; the destructor has no
tasks left once `shutdown` has returned to it. -/
structure Closing (s : Scheduler P) : Prop where
  closed : s.closed = true → s.stack = [] ∧ s.tasks = []
  leaving : s.stack = [.destructor] → s.tasks = []

/-- A step of the driving thread which is neither in `shutdown` nor in the
destructor itself. -/
theorem Closing.inside
    {s next : Scheduler P} (hclosing : Closing s) (hwell : WellStacked s.stack)
    {top : Activation P} {rest : List (Activation P)} (hstack : s.stack = top :: rest)
    (htop : top ≠ .destructor) (hclosed : next.closed = s.closed)
    (hcalls : calls next.stack = calls s.stack) : Closing next := by
  constructor
  · intro hnext
    have hempty := (hclosing.closed (hclosed ▸ hnext)).1
    simp [hstack] at hempty
  · intro hnext
    have hbefore := stack_of_calls hwell (hcalls.symm.trans (by rw [hnext]; rfl))
    rw [hstack, List.cons.injEq] at hbefore
    exact absurd hbefore.1 htop

theorem Closing.step
    {s next : Scheduler P} {label : Label P} (hclosing : Closing s)
    (hwell : WellStacked s.stack) (hmove : Scheduler.Move s label next) : Closing next := by
  cases hmove with
  | leaveRun hstack _ | loopRun hstack _ | loopShutdown hstack _ | reap hstack
  | armedStart hstack _ | arm hstack _ | enter hstack _ _ _ | wake hstack _
  | scan hstack | endLoop hstack | handleSentinel hstack _ _ | handleNull hstack _ _
  | handleAwaitable hstack _ _ _ _ _ _ _ _ | handleDangling hstack _ _ _ | resumed hstack
  | inboxDone hstack | swapInbox hstack | endInbox hstack | invoke hstack | endJob hstack _
  | requeue hstack _ | eventfdWrite hstack | effect hstack _ _ | refused hstack _ _ _ _
  | stage hstack _ _ _ _ | awaitTask hstack _ _ =>
      exact hclosing.inside hwell hstack (by simp) rfl (by rw [hstack]; rfl)
  | @leaveShutdown _ rest hstack htasks =>
      constructor
      · intro hclosed
        have hempty := (hclosing.closed hclosed).1
        simp [hstack] at hempty
      · intro _
        exact htasks
  | @destructor _ rest hstack =>
      rw [hstack] at hwell
      have hbelow : rest = [] := hwell.1
      subst hbelow
      exact ⟨fun _ => ⟨rfl, hclosing.leaving hstack⟩, by simp⟩
  | escape hstack _ =>
      constructor
      · intro hclosed
        have hempty := (hclosing.closed hclosed).1
        simp [hstack] at hempty
      · simp
  | post hcall =>
      cases hcall with
      | job hstack _ | coroutine hstack _ _ =>
          exact hclosing.inside hwell hstack (by simp) rfl (by rw [hstack]; rfl)
  | spawnFull hcall _ hdeliver =>
      have hcalls := calls_deliver hdeliver
      cases hcall with
      | job hstack _ | coroutine hstack _ _ =>
          exact hclosing.inside hwell hstack (by simp) rfl
            (by rw [hstack]; exact hcalls)
      | client hstack hopen =>
          simp only [Scheduler.deliver, Option.some.injEq] at hdeliver
          subst hdeliver
          exact ⟨fun hclosed => by simp [hopen] at hclosed, by simp⟩
  | spawnStart hcall _ =>
      cases hcall with
      | job hstack _ | coroutine hstack _ _ =>
          exact hclosing.inside hwell hstack (by simp) rfl (by rw [hstack]; rfl)
      | client hstack hopen =>
          exact ⟨fun hclosed => by simp [hopen] at hclosed, by simp⟩
  | spawnRefused hstack _ hdeliver | spawnAccepted hstack _ hdeliver
  | spawnBadAlloc hstack _ hdeliver =>
      exact hclosing.inside hwell hstack (by simp) rfl
        ((calls_deliver hdeliver).trans (by rw [hstack]; rfl))
  | endRoot hends _ | endInner hends _ _ =>
      obtain ⟨code, hstack⟩ := hends.stack
      exact hclosing.inside hwell hstack (by simp) rfl (by rw [hstack]; rfl)
  | endAstray hends _ _ => exact ⟨hclosing.closed, hclosing.leaving⟩
  | astray _ _ | complete _ _ _ | enqueue _ | notify _ | requestStop _ _ | stopCallback _ _ _
  | dropTask _ | foreignRefusal _ => exact ⟨hclosing.closed, hclosing.leaving⟩
  | callResume _ hopen | callRun _ hopen | callShutdown _ hopen
  | callDestroyBusy _ hopen _ =>
      exact ⟨fun hclosed => by simp [hopen] at hclosed, by simp⟩
  | callDestroy hstack _ htasks =>
      exact ⟨fun _ => ⟨hstack, htasks⟩, fun hnext => hclosing.leaving hnext⟩

/-! ## The frames destroyed -/

/-- The frames whose `destroy` was called in a piece of history. -/
def destroyed (history : List (Scheduler P × Label P)) : List FrameId :=
  history.flatMap fun visit => visit.1.destroyedNow visit.2

/-- A step destroys frames which exist, each once, and no others. -/
structure Destroys (s : Scheduler P) (label : Label P) (next : Scheduler P) : Prop where
  nodup : (s.destroyedNow label).Nodup
  gone : ∀ id ∈ s.destroyedNow label,
    (s.heap.frames id).isSome = true ∧ next.heap.frames id = none
  kept : ∀ id, id < s.heap.next → id ∉ s.destroyedNow label →
    (next.heap.frames id).isSome = (s.heap.frames id).isSome
  older : s.heap.next ≤ next.heap.next
  fresh : ∀ id, s.heap.next ≤ id → id < next.heap.next →
    (next.heap.frames id).isSome = true

namespace Owned

variable {s next : Scheduler P} {label : Label P}

theorem destroys_of_erase
    {ids : List FrameId} (hdestroyed : s.destroyedNow label = ids) (hnodup : ids.Nodup)
    (halive : ∀ id ∈ ids, (s.heap.frames id).isSome = true)
    (hheap : next.heap = ids.foldl Heap.erase s.heap) : Destroys s label next := by
  subst hdestroyed
  have hnext : next.heap.next = s.heap.next := by
    rw [hheap]
    exact (Heap.Remains.foldl_erase _ _).next
  refine ⟨hnodup, ?_, ?_, hnext.ge, ?_⟩
  · intro id hid
    exact ⟨halive id hid, by rw [hheap]; exact Heap.foldl_erase_frames_of_mem _ _ hid⟩
  · intro id _ hid
    rw [hheap, Heap.foldl_erase_frames_of_notMem _ _ hid]
  · intro id hold hnew
    exact absurd (hnext ▸ hnew) (Nat.not_lt.mpr hold)

theorem destroys (howned : Owned s) (hstep : s.step label = some next) :
    Destroys s label next := by
  have hlinked := howned.frames.linked
  cases (Scheduler.move_of_step hstep).2.ownerStep with
  | same hdestroyed _ hheap _ =>
      refine ⟨by simp [hdestroyed], by simp [hdestroyed], ?_, hheap.next.ge, ?_⟩
      · intro id _ _
        rcases hheap.frames id with ⟨hbefore, hafter⟩ | ⟨frame, frame', hbefore, hafter, -⟩
        all_goals simp [hbefore, hafter]
      · intro id hold hnew
        exact absurd (hheap.next ▸ hnew) (Nat.not_lt.mpr hold)
  | create hdestroyed frame _ _ _ hheap _ _ =>
      refine ⟨by simp [hdestroyed], by simp [hdestroyed], ?_, by simp [hheap], ?_⟩
      · intro id hid _
        rw [hheap, Heap.add_frames_of_ne _ hid.ne]
      · intro id hold hnew
        rw [hheap, Heap.add_next] at hnew
        have hid : id = s.heap.next := Nat.le_antisymm (Nat.lt_succ_iff.mp hnew) hold
        simp [hheap, hid]
  | awaitTask hdestroyed id frame type inner resume hframe hheap _ _ _ =>
      have hlt := hlinked.lt hframe
      rw [Heap.coAwaitTask_eq_add _ hlt.ne] at hheap
      refine ⟨by simp [hdestroyed], by simp [hdestroyed], ?_, by simp [hheap], ?_⟩
      · intro other hother _
        have hold : other ≠
            (s.heap.set id { frame with point := .onTask s.heap.next resume }).next := hother.ne
        rw [hheap, Heap.add_frames_of_ne _ hold]
        by_cases hid : other = id
        · subst hid
          simp [hframe]
        · rw [Heap.set_frames_of_ne _ hid]
      · intro other hold hnew
        rw [hheap, Heap.add_next, Heap.set_next] at hnew
        have hid : other =
            (s.heap.set id { frame with point := .onTask s.heap.next resume }).next :=
          Nat.le_antisymm (Nat.lt_succ_iff.mp hnew) hold
        rw [hheap, hid, Heap.add_frames_next]
        rfl
  | endInner id awaiting frame outcome code hdestroyed hframe hinner hresume _ _ _ =>
      obtain ⟨hawaits, -, outer, resume, houter, -, hne, hheap⟩ :=
        howned.awaitedTask_of_continuation hframe hinner hresume
      rw [hawaits] at hdestroyed
      refine ⟨by simp [hdestroyed], ?_, ?_, by simp [hheap], ?_⟩
      · intro other hother
        rw [hdestroyed, Option.toList_some, List.mem_singleton] at hother
        subst hother
        refine ⟨by simp [hframe], ?_⟩
        rw [hheap, Heap.set_frames_of_ne _ hne.symm, Heap.erase_frames_self]
      · intro other _ hother
        have hid : other ≠ id := by simpa [hdestroyed] using hother
        rw [hheap]
        by_cases hawaiting : other = awaiting
        · subst hawaiting
          simp [houter]
        · rw [Heap.set_frames_of_ne _ hawaiting, Heap.erase_frames_of_ne _ hid,
            Heap.set_frames_of_ne _ hid]
      · intro other hold hnew
        rw [hheap] at hnew
        exact absurd hnew (Nat.not_lt.mpr hold)
  | reap rest hstack hdestroyed hnext =>
      refine destroys_of_erase hdestroyed ?_ ?_ (by rw [hnext]; rfl)
      · have hperm := removeIfDone_destroyed s.heap.done [] [] [] s.tasks
        have hhandles : (s.tasks.filterMap id).Nodup :=
          (List.nodup_append.mp (List.nodup_append.mp howned.distinct).1).1
        rw [hperm.nodup_iff]
        exact hhandles.sublist (List.filter_sublist.filterMap _)
      · intro id hid
        obtain ⟨frame, hframe, -⟩ :=
          Heap.final_of_done ((mem_destroyed_iff s id).mp hid).2
        simp [hframe]
  | drop task htask hdestroyed hnext =>
      refine destroys_of_erase hdestroyed (Heap.chainFrom_nodup _ _ _) ?_ ?_
      · intro id hid
        exact Heap.isSome_of_mem_chainFrom hid
      · rw [hnext]
        exact Heap.destroyFrom_eq_foldl _ _ _

/-- `tasks_` is changed by `reap` and by `spawn` only, and only `reap` destroys
frames it holds. -/
theorem taskStep (howned : Owned s) (hstep : s.step label = some next) :
    (next.accepted = s.accepted ∧ next.tasks = s.tasks ∧
        ∀ id ∈ s.destroyedNow label, some id ∉ s.tasks) ∨
      (∃ rest, s.stack = .reap :: rest ∧
        s.destroyedNow label = (removeIfDone s.heap.done [] [] [] s.tasks).2 ∧
        next = s.reap rest) ∨
      ∃ task ∈ s.owners, s.destroyedNow label = [] ∧ next.accepted = s.accepted ++ [task] ∧
        next.tasks = s.tasks ++ [some task] := by
  cases (Scheduler.move_of_step hstep).2.ownerStep with
  | same hdestroyed _ _ htasks =>
      rcases htasks with ⟨haccepted, htasks⟩ | ⟨task, htask, haccepted, htasks⟩
      · exact .inl ⟨haccepted, htasks, by simp [hdestroyed]⟩
      · exact .inr (.inr ⟨task, htask, hdestroyed, haccepted, htasks⟩)
  | create hdestroyed _ _ _ _ _ haccepted htasks
  | awaitTask hdestroyed _ _ _ _ _ _ _ _ haccepted htasks =>
      exact .inl ⟨haccepted, htasks, by simp [hdestroyed]⟩
  | endInner inner awaiting frame outcome code hdestroyed hframe hinner hresume _ haccepted
      htasks =>
      obtain ⟨hawaits, hawaited, -⟩ :=
        howned.awaitedTask_of_continuation hframe hinner hresume
      refine .inl ⟨haccepted, htasks, ?_⟩
      intro id hid htask
      rw [hdestroyed, hawaits, Option.toList_some, List.mem_singleton] at hid
      subst hid
      exact howned.not_awaited (mem_owners_of_tasks htask) hawaited
  | reap rest hstack hdestroyed hnext => exact .inr (.inl ⟨rest, hstack, hdestroyed, hnext⟩)
  | drop task hheld hdestroyed hnext =>
      refine .inl ⟨by rw [hnext]; rfl, by rw [hnext], ?_⟩
      intro id hid htask
      rw [hdestroyed] at hid
      by_cases hsame : id = task
      · subst hsame
        have hdisjoint := (List.nodup_append.mp (List.nodup_append.mp howned.distinct).1).2.2
        have hmem : id ∈ s.tasks.filterMap fun task => task := by simpa using htask
        exact absurd rfl (hdisjoint id hmem id hheld)
      · exact howned.notMem_chain (mem_owners_of_tasks htask) hsame hid

end Owned

/-! ## Accepted tasks -/

/-- A frame which exists and has not reached its final suspend point. -/
def Heap.live (heap : Heap P) (id : FrameId) : Bool :=
  match heap.frames id with
  | some frame => !frame.isFinal
  | none => false

/-- The bookkeeping of accepted and destroyed tasks in a run. -/
structure Lifetimes (history : List (Scheduler P × Label P)) (s : Scheduler P) : Prop where
  owned : Owned s
  closing : Closing s
  tasks : s.tasks = (s.accepted.filter fun id => (s.heap.frames id).isSome).map some
  known : ∀ id ∈ s.accepted, id < s.heap.next
  once : (destroyed history).Nodup
  gone : ∀ id, id ∈ destroyed history ↔ id < s.heap.next ∧ s.heap.frames id = none
  finished : ∀ visit ∈ history, ∀ id ∈ visit.1.destroyedNow visit.2, id ∈ s.accepted →
    visit.1.heap.done (some id) = true

namespace Lifetimes

variable {s next : Scheduler P} {history : List (Scheduler P × Label P)} {label : Label P}

theorem initial {io : IoState} (hfresh : io.Fresh) (fd : Int32) (addr : UInt64) :
    Lifetimes [] (Scheduler.initial P io fd addr) where
  owned := .initial hfresh fd addr
  closing := ⟨by simp [Scheduler.initial], by simp [Scheduler.initial]⟩
  tasks := rfl
  known := by simp [Scheduler.initial, Scheduler.accepted]
  once := List.nodup_nil
  gone := by simp [destroyed, Scheduler.initial, Heap.empty]
  finished := by simp

theorem mem_tasks
    (hlives : Lifetimes history s) {id : FrameId} (haccepted : id ∈ s.accepted)
    (halive : (s.heap.frames id).isSome = true) : some id ∈ s.tasks := by
  rw [hlives.tasks]
  simp [haccepted, halive]

theorem gone_step
    (hlives : Lifetimes history s) (hdestroys : Destroys s label next) (id : FrameId) :
    id ∈ destroyed history ∨ id ∈ s.destroyedNow label ↔
      id < next.heap.next ∧ next.heap.frames id = none := by
  have hiff := hlives.gone id
  constructor
  · rintro (hold | hnew)
    · obtain ⟨hlt, hnone⟩ := hiff.mp hold
      have hnot : id ∉ s.destroyedNow label := by
        intro hnow
        have hsome := (hdestroys.gone id hnow).1
        simp [hnone] at hsome
      have hkept := hdestroys.kept id hlt hnot
      rw [hnone] at hkept
      exact ⟨hlt.trans_le hdestroys.older, by simpa using hkept⟩
    · obtain ⟨hsome, hnone⟩ := hdestroys.gone id hnew
      obtain ⟨frame, hframe⟩ := Option.isSome_iff_exists.mp hsome
      exact ⟨(hlives.owned.frames.linked.lt hframe).trans_le hdestroys.older, hnone⟩
  · rintro ⟨hlt, hnone⟩
    by_cases hnow : id ∈ s.destroyedNow label
    · exact .inr hnow
    by_cases hold : id < s.heap.next
    · have hkept := hdestroys.kept id hold hnow
      rw [hnone] at hkept
      exact .inl (hiff.mpr ⟨hold, by simpa using hkept.symm⟩)
    · have hsome := hdestroys.fresh id (Nat.not_lt.mp hold) hlt
      simp [hnone] at hsome

/-- After `reap` the accepted tasks whose frames exist are those which were not
done. -/
theorem tasks_reap
    (hlives : Lifetimes history s) (rest : List (Activation P)) :
    (s.reap rest).tasks =
      (s.accepted.filter fun id => ((s.reap rest).heap.frames id).isSome).map some := by
  have hkept : (s.reap rest).tasks = s.tasks.filter fun task => !s.heap.done task :=
    removeIfDone_kept s.heap.done [] [] [] s.tasks
  rw [hkept]
  nth_rewrite 1 [hlives.tasks]
  rw [List.filter_map, List.filter_filter]
  congr 1
  apply List.filter_congr
  intro id hid
  change (!s.heap.done (some id) && (s.heap.frames id).isSome) =
    (((removeIfDone s.heap.done [] [] [] s.tasks).2.foldl Heap.erase s.heap).frames id).isSome
  by_cases hdestroyed : id ∈ (removeIfDone s.heap.done [] [] [] s.tasks).2
  · rw [Heap.foldl_erase_frames_of_mem _ _ hdestroyed]
    simp [((Owned.mem_destroyed_iff s id).mp hdestroyed).2]
  · rw [Heap.foldl_erase_frames_of_notMem _ _ hdestroyed]
    rw [Owned.mem_destroyed_iff] at hdestroyed
    cases halive : (s.heap.frames id).isSome with
    | false => simp
    | true =>
        have hlive : s.heap.done (some id) ≠ true := fun hdone =>
          hdestroyed ⟨hlives.mem_tasks hid halive, hdone⟩
        simp [hlive]

theorem tasks_step
    (hlives : Lifetimes history s) (hstep : s.step label = some next) :
    next.tasks = (next.accepted.filter fun id => (next.heap.frames id).isSome).map some := by
  have hdestroys := hlives.owned.destroys hstep
  have hsame : (∀ id ∈ s.destroyedNow label, some id ∉ s.tasks) →
      (s.accepted.filter fun id => (next.heap.frames id).isSome) =
        s.accepted.filter fun id => (s.heap.frames id).isSome := by
    intro hnone
    apply List.filter_congr
    intro id hid
    apply hdestroys.kept id (hlives.known id hid)
    intro hnow
    exact hnone id hnow (hlives.mem_tasks hid (hdestroys.gone id hnow).1)
  rcases hlives.owned.taskStep hstep with ⟨haccepted, htasks, hnone⟩ |
    ⟨rest, -, -, hnext⟩ | ⟨task, htask, hnone, haccepted, htasks⟩
  · rw [haccepted, htasks, hsame hnone]
    exact hlives.tasks
  · rw [hnext]
    exact hlives.tasks_reap rest
  · have halive : (next.heap.frames task).isSome = true := by
      obtain ⟨frame, hframe, -⟩ := hlives.owned.alive task htask
      rw [hdestroys.kept task (hlives.owned.lt_next htask) (by simp [hnone])]
      simp [hframe]
    rw [haccepted, htasks, List.filter_append, hsame (by simp [hnone]), List.map_append,
      ← hlives.tasks]
    simp [halive]

theorem done_of_destroyed
    (hlives : Lifetimes history s) (hstep : s.step label = some next) {id : FrameId}
    (hid : id ∈ s.destroyedNow label) (hnext : id ∈ next.accepted) :
    s.heap.done (some id) = true := by
  have halive := ((hlives.owned.destroys hstep).gone id hid).1
  rcases hlives.owned.taskStep hstep with ⟨haccepted, -, hnone⟩ |
    ⟨rest, -, hdestroyed, -⟩ | ⟨task, -, hnone, -⟩
  · exact absurd (hlives.mem_tasks (haccepted ▸ hnext) halive) (hnone id hid)
  · rw [hdestroyed] at hid
    exact ((Owned.mem_destroyed_iff s id).mp hid).2
  · simp [hnone] at hid

theorem step (hlives : Lifetimes history s) (hstep : s.step label = some next) :
    Lifetimes (history ++ [(s, label)]) next := by
  have howned := hlives.owned
  have hdestroys := howned.destroys hstep
  have hmore : destroyed (history ++ [(s, label)]) =
      destroyed history ++ s.destroyedNow label := by
    simp [destroyed]
  have haccepted : ∀ id ∈ next.accepted, id ∈ s.accepted ∨
      id ∈ s.owners ∧ s.destroyedNow label = [] := by
    intro id hid
    rcases howned.taskStep hstep with ⟨hsame, -⟩ | ⟨rest, -, -, hnext⟩ |
      ⟨task, htask, hnone, hsame, -⟩
    · exact .inl (hsame ▸ hid)
    · rw [hnext] at hid
      exact .inl hid
    · rw [hsame, List.mem_append, List.mem_singleton] at hid
      rcases hid with hold | rfl
      · exact .inl hold
      · exact .inr ⟨htask, hnone⟩
  refine ⟨howned.step hstep, ?_, hlives.tasks_step hstep, ?_, ?_, ?_, ?_⟩
  · exact hlives.closing.step howned.frames.ring.wellStacked (Scheduler.move_of_step hstep).2
  · intro id hid
    rcases haccepted id hid with hold | ⟨howner, -⟩
    · exact (hlives.known id hold).trans_le hdestroys.older
    · exact (howned.lt_next howner).trans_le hdestroys.older
  · rw [hmore, List.nodup_append]
    refine ⟨hlives.once, hdestroys.nodup, ?_⟩
    rintro id hold other hnew rfl
    have hsome := (hdestroys.gone id hnew).1
    simp [((hlives.gone id).mp hold).2] at hsome
  · intro id
    rw [hmore, List.mem_append]
    exact hlives.gone_step hdestroys id
  · intro visit hvisit id hid hnext
    rcases List.mem_append.mp hvisit with hold | hnew
    · have hgone := ((hlives.gone id).mp (List.mem_flatMap.mpr ⟨visit, hold, hid⟩)).2
      rcases haccepted id hnext with hbefore | ⟨howner, -⟩
      · exact hlives.finished visit hold id hid hbefore
      · obtain ⟨frame, hframe, -⟩ := howned.alive id howner
        simp [hgone] at hframe
    · rw [List.mem_singleton.mp hnew] at hid ⊢
      exact hlives.done_of_destroyed hstep hid hnext

theorem of_run
    {io : IoState} (hfresh : io.Fresh) {fd : Int32} {addr : UInt64}
    (hrun : Run Scheduler.step (Scheduler.initial P io fd addr) history s) :
    Lifetimes history s := by
  induction hrun with
  | nil => exact .initial hfresh fd addr
  | snoc _ hstep ih => exact ih.step hstep

/-- An accepted task is in `tasks_` or has been destroyed. -/
theorem mem_tasks_iff
    (hlives : Lifetimes history s) {id : FrameId} (haccepted : id ∈ s.accepted) :
    some id ∈ s.tasks ↔ id ∉ destroyed history := by
  rw [hlives.gone id]
  constructor
  · rintro htask ⟨-, hnone⟩
    rw [hlives.tasks] at htask
    simp [hnone] at htask
  · intro hnot
    apply hlives.mem_tasks haccepted
    rw [Option.isSome_iff_ne_none]
    intro hnone
    exact hnot ⟨hlives.known id haccepted, hnone⟩

end Lifetimes

/-! ## Owned once, freed once -/

/-- At a state of a run and inside the step it is about to take: no frame is held by
two tasks, also while `tasks_` grows and while `reap` compacts it. -/
structure HeldOnce (s : Scheduler P) : Prop where
  handles : s.taskHandles.Nodup
  growing : ∀ task below moves g, s.stack = .spawn task :: below →
    Run Growth.step (.start s.tasks task) moves g →
    (g.places.filterMap id ++ s.held ++ spawning below ++ s.heap.temporaries).Nodup ∧
      (g.step () = none → g.moved ++ [g.element] = s.tasks ++ [some task])
  compacting : ∀ rest moves c, s.stack = .reap :: rest →
    Run Compaction.step (.start s.heap s.tasks) moves c →
    (c.places.filterMap id ++ s.held ++ spawning s.stack ++ s.heap.temporaries).Nodup ∧
      c.destroyed.Nodup ∧
      (∀ handle ∈ c.destroyed, s.heap.done (some handle) = true ∧ some handle ∉ c.places) ∧
      (c.step () = none → c.places = (s.reap rest).tasks ∧ c.heap = (s.reap rest).heap ∧
        c.destroyed = s.destroyedNow (.runner true))
  compacted : ∃ moves c, Run Compaction.step (.start s.heap s.tasks) moves c ∧
    c.step () = none

/-- What a run has done with the tasks `spawn` has accepted. -/
structure FreedOnce (history : List (Scheduler P × Label P)) (s : Scheduler P) : Prop where
  once : (destroyed history).Nodup
  finished : ∀ visit ∈ history, ∀ id ∈ visit.1.destroyedNow visit.2, id ∈ s.accepted →
    ∃ frame, visit.1.heap.frames id = some frame ∧ frame.point = .final
  reaped : ∀ visit ∈ history, ∀ rest allocated next, visit.1.stack = .reap :: rest →
    visit.2 = .runner allocated → visit.1.step visit.2 = some next →
    next.tasks = (next.accepted.filter next.heap.live).map some
  remaining : ∀ id ∈ s.accepted,
    some id ∈ s.tasks ∧ (destroyed history).count id = 0 ∨
      some id ∉ s.tasks ∧ (destroyed history).count id = 1
  closed : s.closed = true → ∀ id ∈ s.accepted, (destroyed history).count id = 1

theorem Owned.heldOnce {s : Scheduler P} (howned : Owned s) : HeldOnce s := by
  have hhandles := howned.taskHandles_nodup
  have htasks : (s.tasks.filterMap id).Nodup :=
    (List.nodup_append.mp (List.nodup_append.mp howned.distinct).1).1
  refine ⟨hhandles, ?_, ?_, Compaction.exists_end _⟩
  · intro task below moves g hstack hrun
    have hvalid := Growth.valid_of_run hrun
    constructor
    · refine List.Perm.nodup_iff ?_ |>.mpr hhandles
      rw [Scheduler.taskHandles, Scheduler.owners, hstack]
      apply List.Perm.append_right
      calc g.places.filterMap id ++ s.held ++ spawning below
          _ ~ s.tasks.filterMap id ++ [task] ++ s.held ++ spawning below :=
            (hvalid.handles.append_right _).append_right _
          _ = s.tasks.filterMap id ++ task :: (s.held ++ spawning below) := by simp
          _ ~ s.tasks.filterMap id ++ (s.held ++ task :: spawning below) :=
            List.Perm.append_left _ List.perm_middle.symm
          _ = s.tasks.filterMap id ++ s.held ++ spawning (.spawn task :: below) := by
            simp [spawning]
    · intro hend
      have hold : g.old = [] := by
        cases hold : g.old with
        | nil => rfl
        | cons place old => simp [Growth.step, hold] at hend
      have helements := hvalid.elements
      rw [hold, List.append_nil] at helements
      rw [helements, hvalid.element]
  · intro rest moves c hstack hrun
    have hvalid := Compaction.valid_of_run hrun htasks
    have hall := hvalid.handles.nodup_iff.mpr htasks
    refine ⟨?_, (List.nodup_append.mp hall).2.1, ?_, ?_⟩
    · have hwhole : (c.places.filterMap id ++ c.destroyed ++
          (s.held ++ spawning s.stack ++ s.heap.temporaries)).Nodup := by
        refine List.Perm.nodup_iff ?_ |>.mpr hhandles
        have hperm := hvalid.handles.append_right
          (s.held ++ spawning s.stack ++ s.heap.temporaries)
        simpa [Scheduler.taskHandles, Scheduler.owners] using hperm
      have hsublist := (List.sublist_append_left (c.places.filterMap id) c.destroyed).append_right
        (s.held ++ spawning s.stack ++ s.heap.temporaries)
      simpa using hwhole.sublist hsublist
    · intro handle hhandle
      refine ⟨hvalid.done handle hhandle, ?_⟩
      intro hplace
      exact hvalid.notMem_destroyed htasks hplace hhandle
    · intro hend
      have hresult := hvalid.ended hend
      have hplaces : c.places = (removeIfDone s.heap.done [] [] [] s.tasks).1 := by
        rw [← hresult]
      have hdestroyed : c.destroyed = (removeIfDone s.heap.done [] [] [] s.tasks).2 := by
        rw [← hresult]
      refine ⟨hplaces, ?_, ?_⟩
      · rw [hvalid.heap, hdestroyed]
        rfl
      · rw [hdestroyed]
        simp [Scheduler.destroyedNow, hstack]

theorem Lifetimes.tasks_live
    {s : Scheduler P} {history : List (Scheduler P × Label P)} (hlives : Lifetimes history s)
    (rest : List (Activation P)) :
    (s.reap rest).tasks =
      ((s.reap rest).accepted.filter (s.reap rest).heap.live).map some := by
  rw [hlives.tasks_reap rest]
  congr 1
  apply List.filter_congr
  intro id hid
  unfold Heap.live
  cases hframe : (s.reap rest).heap.frames id with
  | none => rfl
  | some frame =>
      have hremains := Heap.Remains.foldl_erase
        (removeIfDone s.heap.done [] [] [] s.tasks).2 s.heap
      have hbefore : s.heap.frames id = some frame := hremains.some hframe
      have htask := hlives.mem_tasks hid (by simp [hbefore])
      have hlive : s.heap.done (some id) ≠ true := by
        intro hdone
        have hmem := (Owned.mem_destroyed_iff s id).mpr ⟨htask, hdone⟩
        have hgone : (s.reap rest).heap.frames id = none :=
          Heap.foldl_erase_frames_of_mem _ _ hmem
        simp [hgone] at hframe
      simpa [Heap.done, hbefore] using hlive

/-- For every run, whatever is spawned by whom, reaped, shut down or destroyed. -/
theorem task_frames_owned_and_freed_once
    {io : IoState} (hfresh : io.Fresh) {fd : Int32} {addr : UInt64}
    {history : List (Scheduler P × Label P)} {s : Scheduler P}
    (hrun : Run Scheduler.step (Scheduler.initial P io fd addr) history s) :
    HeldOnce s ∧ FreedOnce history s := by
  have hlives := Lifetimes.of_run hfresh hrun
  have hremaining : ∀ id ∈ s.accepted,
      some id ∈ s.tasks ∧ (destroyed history).count id = 0 ∨
        some id ∉ s.tasks ∧ (destroyed history).count id = 1 := by
    intro id hid
    by_cases htask : some id ∈ s.tasks
    · exact .inl ⟨htask, List.count_eq_zero.mpr ((hlives.mem_tasks_iff hid).mp htask)⟩
    · have hmem : id ∈ destroyed history := by
        by_contra hnot
        exact htask ((hlives.mem_tasks_iff hid).mpr hnot)
      exact .inr ⟨htask, List.count_eq_one_of_mem hlives.once hmem⟩
  refine ⟨hlives.owned.heldOnce, hlives.once, ?_, ?_, hremaining, ?_⟩
  · intro visit hvisit id hid haccepted
    obtain ⟨frame, hframe, hfinal⟩ :=
      Heap.final_of_done (hlives.finished visit hvisit id hid haccepted)
    refine ⟨frame, hframe, ?_⟩
    unfold Frame.isFinal at hfinal
    cases hpoint : frame.point with
    | final => rfl
    | _ => simp [hpoint] at hfinal
  · intro visit hvisit rest allocated next hstack hlabel hstep
    obtain ⟨before, -, -, -, hbefore, -⟩ := hrun.visit hvisit
    have hnext : next = visit.1.reap rest := by
      rw [hlabel] at hstep
      simp only [Scheduler.step, Scheduler.runnerStep, hstack] at hstep
      split at hstep
      · simp at hstep
      · exact (Option.some.inj hstep).symm
    rw [hnext]
    exact (Lifetimes.of_run hfresh hbefore).tasks_live rest
  · intro hclosed id hid
    have hempty := (hlives.closing.closed hclosed).2
    rcases hremaining id hid with ⟨htask, -⟩ | ⟨-, honce⟩
    · simp [hempty] at htask
    · exact honce

/-- Three tasks are spawned, of which the second waits for a receive; the destructor
reaps the other two before it completes. -/
def spawnAndDestroy : List (Label awaitScript) :=
  [.callSpawn [], .runner true, .runner true, .callSpawn [false], .runner true, .runner true,
    .callSpawn [], .runner true, .runner true, .callDestroy, .runner true, .runner true,
    .enter 2, .runner true, .runner true, .runner true, .runner true, .runner true, .enter 0,
    .complete 0 7] ++ List.replicate 8 (.runner true)

theorem task_frames_spawnAndDestroy :
    ∃ history s, Run Scheduler.step
        (Scheduler.initial awaitScript (ringOfDepth 4) 3 64) history s ∧
      HeldOnce s ∧ FreedOnce history s ∧ s.closed = true ∧ s.accepted = [0, 1, 2] := by
  have hreplay : (replay Scheduler.step (fun _ _ => true)
      (Scheduler.initial awaitScript (ringOfDepth 4) 3 64) spawnAndDestroy).any
      (fun s => s.closed && s.accepted == [0, 1, 2]) = true := by
    decide +kernel
  obtain ⟨history, s, hrun, -, hcheck⟩ := exists_run_of_replay hreplay
  simp only [Bool.and_eq_true, beq_iff_eq] at hcheck
  have hfresh : (ringOfDepth 4).Fresh := (ringOfDepth_created 2 (by omega) rfl).toFresh
  obtain ⟨hheld, hfreed⟩ := task_frames_owned_and_freed_once hfresh hrun
  exact ⟨history, s, hrun, hheld, hfreed, hcheck.1, hcheck.2⟩

end SlimCommonIo
