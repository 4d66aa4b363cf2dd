import SlimCommonIo.FrameSteps
import SlimCommonIo.TransitionRuns

/-!
# The vector of tasks, move by move

`tasks_` grows by moving its elements to a larger storage, and `reap` compacts it
in place: `remove_if` moves the live tasks down over the done ones, `erase` destroys
what is left behind.  Both are followed here one element at a time, with the frames
destroyed on the way; the results are those of the model of `spawn` and `reap`.
-/

namespace SlimCommonIo

open Transition
open scoped List

variable {P : Program}

namespace Heap

/-- `if (handle_) handle_.destroy()`. -/
def release (heap : Heap P) : Option FrameId → Heap P
  | some id => heap.destroy id
  | none => heap

theorem final_of_done
    {heap : Heap P} {id : FrameId} (hdone : heap.done (some id) = true) :
    ∃ frame, heap.frames id = some frame ∧ frame.isFinal = true := by
  unfold done at hdone
  cases hframe : heap.frames id with
  | none => simp [hframe] at hdone
  | some frame => exact ⟨frame, rfl, by simpa [hframe] using hdone⟩

theorem release_of_done
    {heap : Heap P} {place : Option FrameId} (hdone : heap.done place = true) :
    heap.release place = place.toList.foldl erase heap := by
  cases place with
  | none => rfl
  | some id =>
      obtain ⟨frame, hframe, hfinal⟩ := final_of_done hdone
      unfold Frame.isFinal at hfinal
      cases hpoint : frame.point with
      | final => simp [release, destroy, destroyFrom, hframe, hpoint]
      | _ => simp [hpoint] at hfinal

theorem done_congr
    {heap heap' : Heap P} {place : Option FrameId}
    (hsame : ∀ id ∈ place, heap'.frames id = heap.frames id) :
    heap'.done place = heap.done place := by
  cases place with
  | none => rfl
  | some id => simp only [done, hsame id rfl]

theorem foldl_erase_frames_of_notMem
    (ids : List FrameId) (heap : Heap P) {id : FrameId} (hid : id ∉ ids) :
    (ids.foldl Heap.erase heap).frames id = heap.frames id :=
  foldl_erase_frames ids heap _ rfl hid

theorem foldl_erase_frames_of_mem
    (ids : List FrameId) (heap : Heap P) {id : FrameId} (hid : id ∈ ids) :
    (ids.foldl Heap.erase heap).frames id = none := by
  induction ids generalizing heap with
  | nil => simp at hid
  | cons other ids ih =>
      by_cases hlater : id ∈ ids
      · exact ih _ hlater
      · have hid : id = other := by simpa [hlater] using hid
        subst hid
        exact foldl_erase_frames ids _ _ (erase_frames_self heap id) hlater

end Heap

/-! ## Compaction -/

/-- A moment of `reap`: the vector is `kept ++ gap ++ rest`, where `remove_if`
writes at the front of `gap` and reads at the front of `rest`. -/
structure Compaction (P : Program) where
  heap : Heap P
  kept : List (Option FrameId)
  gap : List (Option FrameId)
  rest : List (Option FrameId)
  destroyed : List FrameId

namespace Compaction

variable {c next : Compaction P}

def places (c : Compaction P) : List (Option FrameId) :=
  c.kept ++ c.gap ++ c.rest

def start (heap : Heap P) (tasks : List (Option FrameId)) : Compaction P where
  heap := heap
  kept := []
  gap := []
  rest := tasks
  destroyed := []

/-- `remove_if` looks at the next task: a done one is left where it is, a live one
is moved to the write position.  The move assignment destroys what that place held
and takes the handle away from the source.  Then `erase` runs the destructors. -/
def step (c : Compaction P) : Unit → Option (Compaction P)
  | () =>
      match c.rest, c.gap with
      | task :: rest, gap =>
          if c.heap.done task then some { c with gap := gap ++ [task], rest := rest }
          else
            match gap with
            | [] => some { c with kept := c.kept ++ [task], rest := rest }
            | place :: gap =>
                some
                  { heap := c.heap.release place
                    kept := c.kept ++ [task]
                    gap := gap ++ [none]
                    rest := rest
                    destroyed := c.destroyed ++ place.toList }
      | [], place :: gap =>
          some
            { c with
              heap := c.heap.release place
              gap := gap
              destroyed := c.destroyed ++ place.toList }
      | [], [] => none

/-- What holds at every moment of the pass over `tasks`. -/
structure Valid (before : Heap P) (tasks : List (Option FrameId)) (c : Compaction P) :
    Prop where
  handles : c.places.filterMap id ++ c.destroyed ~ tasks.filterMap id
  heap : c.heap = c.destroyed.foldl Heap.erase before
  done : ∀ id ∈ c.destroyed, before.done (some id) = true
  gap : ∀ place ∈ c.gap, before.done place = true
  result : removeIfDone before.done c.kept c.gap c.destroyed c.rest =
    removeIfDone before.done [] [] [] tasks

variable {heap : Heap P} {tasks : List (Option FrameId)}

theorem Valid.start : Valid heap tasks (start heap tasks) where
  handles := by simp [Compaction.start, places]
  heap := rfl
  done := by simp [Compaction.start]
  gap := by simp [Compaction.start]
  result := rfl

theorem Valid.notMem_destroyed
    (hvalid : Valid heap tasks c) (hnodup : (tasks.filterMap id).Nodup)
    {handle : FrameId} (hplace : some handle ∈ c.places) : handle ∉ c.destroyed := by
  have hall := hvalid.handles.nodup_iff.mpr hnodup
  intro hdestroyed
  have hmem : handle ∈ c.places.filterMap id := List.mem_filterMap.mpr ⟨_, hplace, rfl⟩
  exact (List.nodup_append.mp hall).2.2 handle hmem handle hdestroyed rfl

theorem Valid.done_eq
    (hvalid : Valid heap tasks c) (hnodup : (tasks.filterMap id).Nodup)
    {place : Option FrameId} (hplace : place ∈ c.places) :
    c.heap.done place = heap.done place := by
  apply Heap.done_congr
  intro handle hhandle
  rw [Option.mem_def] at hhandle
  subst hhandle
  rw [hvalid.heap]
  exact Heap.foldl_erase_frames_of_notMem _ _ (hvalid.notMem_destroyed hnodup hplace)

theorem Valid.release
    (hvalid : Valid heap tasks c) (hnodup : (tasks.filterMap id).Nodup)
    {place : Option FrameId} {gap : List (Option FrameId)} (hgap : c.gap = place :: gap) :
    c.heap.release place = (c.destroyed ++ place.toList).foldl Heap.erase heap ∧
      ∀ id ∈ c.destroyed ++ place.toList, heap.done (some id) = true := by
  have hdone := hvalid.gap place (by simp [hgap])
  have hplace : place ∈ c.places := by simp [places, hgap]
  constructor
  · rw [Heap.release_of_done (by rw [hvalid.done_eq hnodup hplace]; exact hdone), hvalid.heap,
      List.foldl_append]
  · intro id hid
    rcases List.mem_append.mp hid with hold | hnew
    · exact hvalid.done id hold
    · rw [Option.mem_toList] at hnew
      rw [hnew] at hdone
      exact hdone

theorem Valid.step
    (hvalid : Valid heap tasks c) (hnodup : (tasks.filterMap id).Nodup)
    (hstep : c.step () = some next) : Valid heap tasks next := by
  obtain ⟨cheap, kept, gap, rest, destroyed⟩ := c
  have hhandles := hvalid.handles
  have hresult := hvalid.result
  simp only [places] at hhandles hresult
  cases rest with
  | cons task rest =>
      have hdone : cheap.done task = heap.done task :=
        hvalid.done_eq hnodup (by simp [places])
      simp only [Compaction.step, hdone] at hstep
      split at hstep
      next hfinished =>
        rw [← Option.some.inj hstep]
        refine ⟨?_, hvalid.heap, hvalid.done, ?_, ?_⟩
        · simpa [places] using hhandles
        · intro place hplace
          rcases List.mem_append.mp hplace with hold | hnew
          · exact hvalid.gap place hold
          · rw [List.mem_singleton.mp hnew]
            exact hfinished
        · rw [← hresult]
          simp [removeIfDone, hfinished]
      next hlive =>
        cases gap with
        | nil =>
            rw [← Option.some.inj hstep]
            refine ⟨?_, hvalid.heap, hvalid.done, by simp, ?_⟩
            · simpa [places] using hhandles
            · rw [← hresult]
              simp [removeIfDone, hlive]
        | cons place gap =>
            obtain ⟨hheap, hall⟩ := hvalid.release hnodup rfl
            rw [← Option.some.inj hstep]
            refine ⟨?_, hheap, hall, ?_, ?_⟩
            · refine List.Perm.trans ?_ hhandles
              rw [List.perm_iff_count]
              intro handle
              cases place <;> cases task <;>
                simp [places, List.count_append, List.count_cons] <;> omega
            · intro other hother
              rcases List.mem_append.mp hother with hold | hnew
              · exact hvalid.gap other (List.mem_cons_of_mem _ hold)
              · rw [List.mem_singleton.mp hnew]
                rfl
            · rw [← hresult]
              simp [removeIfDone, hlive]
  | nil =>
      cases gap with
      | nil => simp [Compaction.step] at hstep
      | cons place gap =>
          obtain ⟨hheap, hall⟩ := hvalid.release hnodup rfl
          simp only [Compaction.step, Option.some.injEq] at hstep
          rw [← hstep]
          refine ⟨?_, hheap, hall, ?_, ?_⟩
          · refine List.Perm.trans ?_ hhandles
            rw [List.perm_iff_count]
            intro handle
            cases place <;> simp [places, List.count_append, List.count_cons]
            omega
          · intro other hother
            exact hvalid.gap other (List.mem_cons_of_mem _ hother)
          · rw [← hresult]
            cases place <;> simp [removeIfDone]

/-- Whatever the pass has done so far: a task in the vector has a handle of its own,
only finished frames have been destroyed, each once, and the pass ends as in the
model of `reap`. -/
theorem valid_of_run
    {history : List (Compaction P × Unit)}
    (hrun : Run Compaction.step (start heap tasks) history c)
    (hnodup : (tasks.filterMap id).Nodup) : Valid heap tasks c := by
  apply hrun.invariant (Valid heap tasks) .start
  intro c label next hvalid hstep
  exact hvalid.step hnodup hstep

theorem Valid.ended
    (hvalid : Valid heap tasks c) (hend : c.step () = none) :
    (c.places, c.destroyed) = removeIfDone heap.done [] [] [] tasks := by
  obtain ⟨cheap, kept, gap, rest, destroyed⟩ := c
  have hresult := hvalid.result
  cases rest with
  | cons task rest =>
      simp only [Compaction.step] at hend
      split at hend
      · simp at hend
      · cases gap <;> simp at hend
  | nil =>
      cases gap with
      | cons place gap => simp [Compaction.step] at hend
      | nil => simpa [places, removeIfDone] using hresult

def remaining (c : Compaction P) : ℕ :=
  2 * c.rest.length + c.gap.length

theorem step_remaining (hstep : c.step () = some next) : next.remaining < c.remaining := by
  obtain ⟨cheap, kept, gap, rest, destroyed⟩ := c
  cases rest with
  | cons task rest =>
      simp only [Compaction.step] at hstep
      split at hstep
      · rw [← Option.some.inj hstep]
        simp [remaining]
        omega
      · cases gap with
        | nil =>
            rw [← Option.some.inj hstep]
            simp [remaining]
        | cons place gap =>
            rw [← Option.some.inj hstep]
            simp [remaining]
  | nil =>
      cases gap with
      | nil => simp [Compaction.step] at hstep
      | cons place gap =>
          rw [← Option.some.inj hstep]
          simp [remaining]

/-- The pass comes to its end. -/
theorem exists_end (c : Compaction P) :
    ∃ history final, Run Compaction.step c history final ∧ final.step () = none := by
  induction hsize : c.remaining using Nat.strong_induction_on generalizing c with
  | _ size ih =>
      cases hstep : c.step () with
      | none => exact ⟨[], c, .nil, hstep⟩
      | some next =>
          have hlt := step_remaining hstep
          obtain ⟨history, final, hrun, hend⟩ := ih next.remaining (by omega) next rfl
          have hone : Run Compaction.step c ([] ++ [(c, ())]) next := Run.nil.snoc hstep
          exact ⟨_, final, hone.trans hrun, hend⟩

end Compaction

/-! ## Growth -/

/-- A moment of `push_back` on a full vector: the new element stands in the new
storage already, and the old ones follow one by one. -/
structure Growth where
  moved : List (Option FrameId)
  element : Option FrameId
  husks : List (Option FrameId)
  old : List (Option FrameId)

namespace Growth

variable {g next : Growth} {tasks : List (Option FrameId)} {task : FrameId}

/-- Both storages at this moment. -/
def places (g : Growth) : List (Option FrameId) :=
  g.moved ++ [g.element] ++ g.husks ++ g.old

def start (tasks : List (Option FrameId)) (task : FrameId) : Growth where
  moved := []
  element := some task
  husks := []
  old := tasks

/-- Move the next element; a null handle stays behind. -/
def step (g : Growth) : Unit → Option Growth
  | () =>
      match g.old with
      | [] => none
      | place :: old =>
          some { g with moved := g.moved ++ [place], husks := g.husks ++ [none], old := old }

structure Valid (tasks : List (Option FrameId)) (task : FrameId) (g : Growth) : Prop where
  element : g.element = some task
  elements : g.moved ++ g.old = tasks
  husks : ∀ place ∈ g.husks, place = none

theorem Valid.step (hvalid : Valid tasks task g) (hstep : g.step () = some next) :
    Valid tasks task next := by
  obtain ⟨moved, element, husks, old⟩ := g
  obtain ⟨helement, helements, hhusks⟩ := hvalid
  cases old with
  | nil => simp [Growth.step] at hstep
  | cons place old =>
      rw [← Option.some.inj hstep]
      refine ⟨helement, by simpa using helements, ?_⟩
      intro other hother
      rcases List.mem_append.mp hother with hold | hnew
      · exact hhusks other hold
      · exact List.mem_singleton.mp hnew

theorem valid_of_run
    {history : List (Growth × Unit)} (hrun : Run Growth.step (start tasks task) history g) :
    Valid tasks task g := by
  apply hrun.invariant (Valid tasks task) ⟨rfl, rfl, by simp [start]⟩
  intro g label next hvalid hstep
  exact hvalid.step hstep

theorem Valid.handles (hvalid : Valid tasks task g) :
    g.places.filterMap id ~ tasks.filterMap id ++ [task] := by
  have hhusks : g.husks.filterMap id = [] := by
    rw [List.filterMap_eq_nil_iff]
    exact hvalid.husks
  rw [places, hvalid.element, ← hvalid.elements]
  simp only [List.filterMap_append, hhusks, List.append_assoc]
  exact List.Perm.append_left _ List.perm_append_comm

end Growth

end SlimCommonIo
