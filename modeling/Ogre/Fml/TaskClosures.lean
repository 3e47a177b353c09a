import Ogre.Fml.TaskQueues

/-! The queues do not look at the closures: a call with other closures does the same. -/
namespace Ogre.Fml
open Ogre.Library
variable {α β : Type} {f : α → β}

def DelayedTask.map (f : α → β) (x : DelayedTask α) : DelayedTask β :=
  ⟨x.order, f x.task, x.targetTime, x.taskSourceGrade⟩

def TopTask.map (f : α → β) (x : TopTask α) : TopTask β := ⟨x.taskQueueId, x.task.map f⟩

theorem DelayedTask.gt_map {a b : DelayedTask α} : (a.map f).gt (b.map f) = a.gt b := rfl

theorem DelayedTask.before_map (f : α → β) (a b : DelayedTask α) : a.Before b ↔ (a.map f).Before (b.map f) := Iff.rfl

namespace TaskSource
variable {s : TaskSource α}

def map (f : α → β) (s : TaskSource α) : TaskSource β where
  taskQueueId := s.taskQueueId
  primaryTaskQueue := s.primaryTaskQueue.map (DelayedTask.before_map f)
  secondaryTaskQueue := s.secondaryTaskQueue.map (DelayedTask.before_map f)
  secondaryPauseRequests := s.secondaryPauseRequests
  primary t ht := by
    obtain ⟨x, hx, rfl⟩ := List.mem_map.mp ht
    exact s.primary x hx
  secondary t ht := by
    obtain ⟨x, hx, rfl⟩ := List.mem_map.mp ht
    exact s.secondary x hx

theorem map_new (id : Nat) : (new id : TaskSource α).map f = new id := rfl

theorem map_pauseSecondary : s.pauseSecondary.map f = (s.map f).pauseSecondary := rfl

theorem map_resumeSecondary : s.resumeSecondary.map f = (s.map f).resumeSecondary := rfl

theorem map_registerTask (task : DelayedTask α) :
    (s.registerTask task).map f = (s.map f).registerTask (task.map f) := by
  obtain ⟨order, closure, targetTime, grade⟩ := task
  cases grade <;> simp [registerTask, DelayedTask.map, map, pushPrimary, pushSecondary, PriorityQueue.map_push]

theorem map_popTask (grade : TaskSourceGrade) : (s.popTask grade).map f = (s.map f).popTask grade := by
  cases grade <;> simp [popTask, map, popPrimary, popSecondary, PriorityQueue.map_pop]

theorem isEmpty_map : (s.map f).isEmpty = s.isEmpty := by
  have hnum : (s.map f).getNumPendingTasks = s.getNumPendingTasks := by
    simp only [getNumPendingTasks, map, PriorityQueue.size_map]
  rw [isEmpty, hnum, isEmpty]

theorem top_map : (s.map f).top = s.top.map (TopTask.map f) := by
  have hprimary : (s.map f).primaryTaskQueue.items.isEmpty = s.primaryTaskQueue.items.isEmpty := by
    simp [map, PriorityQueue.map]
  have hsecondary : (s.map f).secondaryTaskQueue.items.isEmpty = s.secondaryTaskQueue.items.isEmpty := by
    simp [map, PriorityQueue.map]
  have hpause : (s.map f).secondaryPauseRequests = s.secondaryPauseRequests := rfl
  have hp : (s.map f).primaryTaskQueue.top? = s.primaryTaskQueue.top?.map (DelayedTask.map f) :=
    PriorityQueue.top?_map (DelayedTask.before_map f) _
  have hq : (s.map f).secondaryTaskQueue.top? = s.secondaryTaskQueue.top?.map (DelayedTask.map f) :=
    PriorityQueue.top?_map (DelayedTask.before_map f) _
  unfold top
  rw [isEmpty_map, hprimary, hsecondary, hpause, hp, hq]
  split
  · rfl
  split
  · cases s.primaryTaskQueue.top? <;> rfl
  split
  · cases s.secondaryTaskQueue.top? <;> rfl
  · cases s.primaryTaskQueue.top? with
    | none => rfl
    | some p =>
      cases s.secondaryTaskQueue.top? with
      | none => rfl
      | some q =>
        change some (TopTask.mk _ _) = some (TopTask.map f ⟨_, _⟩)
        rw [DelayedTask.gt_map, TopTask.map]
        split <;> rfl

end TaskSource

def TaskQueueEntry.map (f : α → β) (e : TaskQueueEntry α) : TaskQueueEntry β :=
  ⟨e.wakeable, e.taskSource.map f, e.ownerOf, e.subsumedBy⟩

theorem TaskQueueEntry.ownerOf_map {e : TaskQueueEntry α} : (e.map f).ownerOf = e.ownerOf := rfl

theorem TaskQueueEntry.subsumedBy_map {e : TaskQueueEntry α} : (e.map f).subsumedBy = e.subsumedBy := rfl

namespace MessageLoopTaskQueues
variable {s : MessageLoopTaskQueues α} {id : Nat}

def map (f : α → β) (s : MessageLoopTaskQueues α) : MessageLoopTaskQueues β where
  queueEntries q := (s.queueEntries q).map (TaskQueueEntry.map f)
  taskQueueIdCounter := s.taskQueueIdCounter
  order := s.order
  wakeUps := s.wakeUps

def Label.map (f : α → β) : Label α → Label β
  | .createTaskQueue => .createTaskQueue
  | .setWakeable id => .setWakeable id
  | .registerTask id task targetTime grade => .registerTask id (f task) targetTime grade
  | .getNextTaskToRun id fromTime => .getNextTaskToRun id fromTime
  | .merge owner subsumed => .merge owner subsumed
  | .unmerge owner subsumed => .unmerge owner subsumed
  | .pauseSecondarySource id => .pauseSecondarySource id
  | .resumeSecondarySource id => .resumeSecondarySource id
  | .disposeTasks id => .disposeTasks id
  | .dispose id => .dispose id

@[simp] theorem queueEntries_map (q : Nat) :
    (s.map f).queueEntries q = (s.queueEntries q).map (TaskQueueEntry.map f) := rfl

/-- Calls that look up an entry are alike where they go on alike from it. -/
private theorem bind_queueEntries_map {γ δ : Type} {g : γ → δ} {k : TaskQueueEntry α → Option γ}
    {k' : TaskQueueEntry β → Option δ} (hk : ∀ e, k' (e.map f) = (k e).map g) :
    ((s.map f).queueEntries id).bind k' = ((s.queueEntries id).bind k).map g := by
  rw [queueEntries_map]
  cases s.queueEntries id with
  | none => rfl
  | some e => exact hk e

private theorem anyPending_map (ids : List Nat) : (s.map f).anyPending ids = s.anyPending ids := by
  induction ids with
  | nil => rfl
  | cons id ids ih =>
    rw [anyPending, anyPending, queueEntries_map, ih]
    cases s.queueEntries id with
    | none => rfl
    | some e => simp [TaskQueueEntry.map, TaskSource.isEmpty_map]

theorem hasPendingTasksUnlocked_map : (s.map f).hasPendingTasksUnlocked id = s.hasPendingTasksUnlocked id := by
  rw [hasPendingTasksUnlocked, hasPendingTasksUnlocked, queueEntries_map]
  cases s.queueEntries id with
  | none => rfl
  | some e => simp [TaskQueueEntry.map, TaskSource.isEmpty_map, anyPending_map]

private theorem updateTop_map (top : Option (TopTask α)) (source : TaskSource α) :
    updateTop (top.map (TopTask.map f)) (source.map f) = (updateTop top source).map (TopTask.map f) := by
  unfold updateTop
  rw [TaskSource.top_map]
  cases source.top with
  | none => rfl
  | some other =>
    cases top with
    | none => rfl
    | some top =>
      change (if top.task.gt other.task then _ else _) = Option.map _ (if top.task.gt other.task then _ else _)
      split <;> rfl

private theorem updateTopFrom_map (top : Option (TopTask α)) (ids : List Nat) :
    (s.map f).updateTopFrom (top.map (TopTask.map f)) ids =
      (s.updateTopFrom top ids).map (Option.map (TopTask.map f)) := by
  induction ids generalizing top with
  | nil => rfl
  | cons id ids ih =>
    apply bind_queueEntries_map
    intro e
    rw [← ih, ← updateTop_map]
    rfl

theorem peekNextTaskUnlocked_map :
    (s.map f).peekNextTaskUnlocked id = (s.peekNextTaskUnlocked id).map (TopTask.map f) := by
  apply bind_queueEntries_map
  intro e
  have hfirst : updateTop none (e.map f).taskSource = (updateTop none e.taskSource).map (TopTask.map f) :=
    updateTop_map none e.taskSource
  have hloop := updateTopFrom_map (s := s) (f := f) (updateTop none e.taskSource) e.ownerOf
  rw [hfirst, TaskQueueEntry.ownerOf_map, hloop]
  split
  · exact TaskSource.top_map
  · cases s.updateTopFrom (updateTop none e.taskSource) e.ownerOf <;> rfl

private theorem getNextWakeTimeUnlocked_map :
    (s.map f).getNextWakeTimeUnlocked id = s.getNextWakeTimeUnlocked id := by
  rw [getNextWakeTimeUnlocked, getNextWakeTimeUnlocked, peekNextTaskUnlocked_map, Option.map_map]
  rfl

private theorem wakeUpUnlocked_map (time : Int) :
    (s.map f).wakeUpUnlocked id time = (s.wakeUpUnlocked id time).map (map f) := by
  apply bind_queueEntries_map
  intro e
  change some (if e.wakeable then _ else _) = some (map f (if e.wakeable then _ else _))
  split <;> rfl

private theorem wakeUpIfPending_map : (s.map f).wakeUpIfPending id = (s.wakeUpIfPending id).map (map f) := by
  rw [wakeUpIfPending, wakeUpIfPending, hasPendingTasksUnlocked_map, getNextWakeTimeUnlocked_map]
  cases s.hasPendingTasksUnlocked id with
  | none => rfl
  | some pending =>
    cases pending with
    | false => rfl
    | true =>
      cases s.getNextWakeTimeUnlocked id with
      | none => rfl
      | some time => exact wakeUpUnlocked_map time

private theorem map_updateEntry {g : TaskQueueEntry α → TaskQueueEntry α} {g' : TaskQueueEntry β → TaskQueueEntry β}
    (hg : ∀ e, (g e).map f = g' (e.map f)) : (s.updateEntry id g).map f = (s.map f).updateEntry id g' := by
  unfold updateEntry map
  congr 1
  funext q
  by_cases hq : q = id
  · subst hq
    simp [Function.comp_def, hg]
  · simp [hq]

private theorem map_updateSource {g : TaskSource α → TaskSource α} {g' : TaskSource β → TaskSource β}
    (hg : ∀ source, (g source).map f = g' (source.map f)) :
    (s.updateSource id g).map f = (s.map f).updateSource id g' := by
  apply map_updateEntry
  intro e
  rw [TaskQueueEntry.map, hg]
  rfl

private theorem map_createTaskQueue : s.createTaskQueue.2.map f = (s.map f).createTaskQueue.2 := by
  simp only [createTaskQueue, map, mk.injEq, and_true]
  funext q
  by_cases hq : q = s.taskQueueIdCounter
  · simp [hq, TaskQueueEntry.map, TaskSource.map_new]
  · simp [hq]

private theorem setWakeable_map : (s.map f).setWakeable id = (s.setWakeable id).map (map f) := by
  have hupdate : (s.updateEntry id fun e => { e with wakeable := true }).map f =
      (s.map f).updateEntry id fun e => { e with wakeable := true } := map_updateEntry fun _ => rfl
  apply bind_queueEntries_map
  intro e
  rw [← hupdate]
  change (if e.wakeable then none else _) = Option.map _ (if e.wakeable then none else _)
  split <;> rfl

private theorem registerTask_map (task : α) (targetTime : Int) (grade : TaskSourceGrade) :
    (s.map f).registerTask id (f task) targetTime grade = (s.registerTask id task targetTime grade).map (map f) := by
  have hupdate : ({ s with order := s.order + 1 }.updateSource id
      (·.registerTask ⟨sizeOfInt s.order, task, targetTime, grade⟩)).map f =
      ({ s with order := s.order + 1 }.map f).updateSource id
        (·.registerTask ⟨sizeOfInt s.order, f task, targetTime, grade⟩) :=
    map_updateSource fun _ => TaskSource.map_registerTask _
  apply bind_queueEntries_map
  intro e
  rw [← wakeUpIfPending_map, hupdate]
  rfl

private theorem getWakeTimeAfterPeek_map : (s.map f).getWakeTimeAfterPeek id = s.getWakeTimeAfterPeek id := by
  rw [getWakeTimeAfterPeek, getWakeTimeAfterPeek, hasPendingTasksUnlocked_map, getNextWakeTimeUnlocked_map]

/-- What is returned is the same task with the other closure. -/
theorem getNextTaskToRun_map (fromTime : Int) : (s.map f).getNextTaskToRun id fromTime =
    (s.getNextTaskToRun id fromTime).map fun r => (r.1.map (DelayedTask.map f), r.2.map f) := by
  have hpop (t : MessageLoopTaskQueues α) (q : Nat) (grade : TaskSourceGrade) :
      (t.updateSource q (·.popTask grade)).map f = (t.map f).updateSource q (·.popTask grade) :=
    map_updateSource fun _ => TaskSource.map_popTask grade
  rw [getNextTaskToRun, getNextTaskToRun, hasPendingTasksUnlocked_map, peekNextTaskUnlocked_map,
    getWakeTimeAfterPeek_map]
  cases s.hasPendingTasksUnlocked id with
  | none => rfl
  | some pending =>
    cases pending with
    | false => rfl
    | true =>
      cases s.peekNextTaskUnlocked id with
      | none => rfl
      | some top =>
        cases s.getWakeTimeAfterPeek id with
        | none => rfl
        | some time =>
          simp only [Option.bind_eq_bind, Option.bind_some, Option.map_some, if_true, wakeUpUnlocked_map]
          cases s.wakeUpUnlocked id time with
          | none => rfl
          | some t =>
            simp only [Option.map_some, Option.bind_some, queueEntries_map]
            change (if top.task.targetTime > fromTime then _ else _) =
              Option.map _ (if top.task.targetTime > fromTime then _ else _)
            split
            · rfl
            · change Option.bind (Option.map _ (t.queueEntries top.taskQueueId)) _ = _
              cases t.queueEntries top.taskQueueId with
              | none => rfl
              | some e =>
                simp only [Option.map_some, Option.bind_some, hpop]
                rfl

private theorem map_link {owner subsumed : Nat} : (s.link owner subsumed).map f = (s.map f).link owner subsumed := by
  unfold link
  rw [map_updateEntry, map_updateEntry] <;> intro _ <;> rfl

private theorem map_unlink {owner subsumed : Nat} :
    (s.unlink owner subsumed).map f = (s.map f).unlink owner subsumed := by
  unfold unlink
  rw [map_updateEntry, map_updateEntry] <;> intro _ <;> rfl

private theorem merge_map (owner subsumed : Nat) :
    (s.map f).merge owner subsumed = (s.merge owner subsumed).map fun r => (r.1, r.2.map f) := by
  unfold merge
  split
  · rfl
  rw [← map_link, wakeUpIfPending_map]
  apply bind_queueEntries_map
  intro o
  apply bind_queueEntries_map
  intro e
  rw [TaskQueueEntry.ownerOf_map, TaskQueueEntry.subsumedBy_map, TaskQueueEntry.ownerOf_map,
    TaskQueueEntry.subsumedBy_map]
  split
  · rfl
  split
  · rfl
  split
  · rfl
  split
  · rfl
  · cases (s.link owner subsumed).wakeUpIfPending owner <;> rfl

private theorem unmerge_map (owner subsumed : Nat) :
    (s.map f).unmerge owner subsumed = (s.unmerge owner subsumed).map fun r => (r.1, r.2.map f) := by
  unfold unmerge
  rw [← map_unlink, wakeUpIfPending_map]
  apply bind_queueEntries_map
  intro o
  rw [TaskQueueEntry.ownerOf_map, TaskQueueEntry.subsumedBy_map]
  split
  · rfl
  split
  · rfl
  apply bind_queueEntries_map
  intro e
  rw [TaskQueueEntry.subsumedBy_map]
  split
  · rfl
  split
  · rfl
  cases (s.unlink owner subsumed).wakeUpIfPending owner with
  | none => rfl
  | some t =>
    simp only [Option.map_some, Option.bind_eq_bind, Option.bind_some, wakeUpIfPending_map]
    cases t.wakeUpIfPending subsumed <;> rfl

private theorem pauseSecondarySource_map :
    (s.map f).pauseSecondarySource id = (s.pauseSecondarySource id).map (map f) := by
  have hpause : (s.updateSource id (·.pauseSecondary)).map f = (s.map f).updateSource id (·.pauseSecondary) :=
    map_updateSource fun _ => TaskSource.map_pauseSecondary
  apply bind_queueEntries_map
  intro _
  exact congrArg some hpause.symm

private theorem resumeSecondarySource_map :
    (s.map f).resumeSecondarySource id = (s.resumeSecondarySource id).map (map f) := by
  have hresume : (s.updateSource id (·.resumeSecondary)).map f = (s.map f).updateSource id (·.resumeSecondary) :=
    map_updateSource fun _ => TaskSource.map_resumeSecondary
  apply bind_queueEntries_map
  intro _
  rw [← hresume, wakeUpIfPending_map]

private theorem mapM_queueEntries (ids : List Nat) : ids.mapM (s.map f).queueEntries =
    (ids.mapM s.queueEntries).map (List.map (TaskQueueEntry.map f)) := by
  induction ids with
  | nil => rfl
  | cons id ids ih =>
    rw [List.mapM_cons, List.mapM_cons, ih, queueEntries_map]
    cases s.queueEntries id with
    | none => rfl
    | some e => cases ids.mapM s.queueEntries <;> rfl

private theorem disposeTasks_map : (s.map f).disposeTasks id = (s.disposeTasks id).map (map f) := by
  apply bind_queueEntries_map
  intro e
  rw [TaskQueueEntry.ownerOf_map, mapM_queueEntries]
  cases e.ownerOf.mapM s.queueEntries with
  | none => rfl
  | some _ =>
    simp only [Option.map_some, Option.bind_eq_bind, Option.bind_some, map, Option.some.injEq, mk.injEq, and_true]
    funext q
    split
    · cases s.queueEntries q <;> rfl
    · rfl

private theorem dispose_map : (s.map f).dispose id = (s.dispose id).map (map f) := by
  apply bind_queueEntries_map
  intro e
  simp only [Option.map_some, map, Option.some.injEq, mk.injEq, and_true]
  funext q
  change (if q = id ∨ q ∈ e.ownerOf then none else _) = Option.map _ (if q = id ∨ q ∈ e.ownerOf then none else _)
  split <;> rfl

/-- A call with other closures does the same with them. -/
theorem step_map (s : MessageLoopTaskQueues α) (a : Label α) :
    (s.map f).step (a.map f) = (s.step a).map (map f) := by
  cases a with
  | createTaskQueue => exact congrArg some map_createTaskQueue.symm
  | setWakeable id => exact setWakeable_map
  | registerTask id task targetTime grade => exact registerTask_map task targetTime grade
  | getNextTaskToRun id fromTime =>
    change Option.map _ ((s.map f).getNextTaskToRun id fromTime) = _
    rw [getNextTaskToRun_map, Option.map_map, step, Option.map_map]
    rfl
  | merge owner subsumed =>
    change Option.map _ ((s.map f).merge owner subsumed) = _
    rw [merge_map, Option.map_map, step, Option.map_map]
    rfl
  | unmerge owner subsumed =>
    change Option.map _ ((s.map f).unmerge owner subsumed) = _
    rw [unmerge_map, Option.map_map, step, Option.map_map]
    rfl
  | pauseSecondarySource id => exact pauseSecondarySource_map
  | resumeSecondarySource id => exact resumeSecondarySource_map
  | disposeTasks id => exact disposeTasks_map
  | dispose id => exact dispose_map

end MessageLoopTaskQueues
end Ogre.Fml
