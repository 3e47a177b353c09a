import Mathlib.Logic.Function.Basic
import Ogre.Fml.TaskSource
import Ogre.Library.Machine

/-! The task queues of all message loops, with their merging and their wake-ups. Each
call holds the lock of the queues from its beginning to its end. -/
namespace Ogre.Fml
open Ogre.Library

/-- `owner_of` is in the order of its ids. An entry that is not subsumed is `kUnmerged`. -/
structure TaskQueueEntry (α : Type) where
  wakeable : Bool
  taskSource : TaskSource α
  ownerOf : List Nat
  subsumedBy : Option Nat

/-- `order` counts the tasks that were registered. `wakeUps` has the time for which the
wakeable of a queue was last asked to wake up. -/
structure MessageLoopTaskQueues (α : Type) where
  queueEntries : Nat → Option (TaskQueueEntry α) := fun _ => none
  taskQueueIdCounter : Nat := 0
  order : Nat := 0
  wakeUps : Nat → Option Int := fun _ => none

namespace MessageLoopTaskQueues
variable {α : Type}

/-- `TimePoint::Max`. -/
def maxTime : Int := 9223372036854775807

/-- The values of the `int` counter as `size_t`. -/
def sizeOfInt (n : Nat) : Nat :=
  if n % 4294967296 < 2147483648 then n % 4294967296 else n % 4294967296 + 18446744069414584320

def updateEntry (s : MessageLoopTaskQueues α) (id : Nat) (f : TaskQueueEntry α → TaskQueueEntry α) :
    MessageLoopTaskQueues α :=
  { s with queueEntries := Function.update s.queueEntries id ((s.queueEntries id).map f) }

def updateSource (s : MessageLoopTaskQueues α) (id : Nat) (f : TaskSource α → TaskSource α) :
    MessageLoopTaskQueues α :=
  s.updateEntry id fun e => { e with taskSource := f e.taskSource }

/-- The range of `any_of`. The map has to have the entries that are looked at. -/
def anyPending (s : MessageLoopTaskQueues α) : List Nat → Option Bool
  | [] => some false
  | id :: ids => do
    let entry ← s.queueEntries id
    if !entry.taskSource.isEmpty then some true else anyPending s ids

def hasPendingTasksUnlocked (s : MessageLoopTaskQueues α) (id : Nat) : Option Bool := do
  let entry ← s.queueEntries id
  if entry.subsumedBy.isSome then some false
  else if !entry.taskSource.isEmpty then some true
  else s.anyPending entry.ownerOf

/-- `top_task_updater`. -/
def updateTop (top : Option (TopTask α)) (source : TaskSource α) : Option (TopTask α) :=
  match source.top, top with
  | none, _ => top
  | some other, none => some other
  | some other, some top => if top.task.gt other.task then some other else some top

/-- The loop over the subsumed queues. -/
def updateTopFrom (s : MessageLoopTaskQueues α) (top : Option (TopTask α)) : List Nat → Option (Option (TopTask α))
  | [] => some top
  | id :: ids => do
    let entry ← s.queueEntries id
    updateTopFrom s (updateTop top entry.taskSource) ids

/-- `PeekNextTaskUnlocked`, without a result where one of its checks fails. -/
def peekNextTaskUnlocked (s : MessageLoopTaskQueues α) (owner : Nat) : Option (TopTask α) := do
  let entry ← s.queueEntries owner
  if entry.ownerOf.isEmpty then entry.taskSource.top
  else (← s.updateTopFrom (updateTop none entry.taskSource) entry.ownerOf)

def getNextWakeTimeUnlocked (s : MessageLoopTaskQueues α) (id : Nat) : Option Int :=
  (s.peekNextTaskUnlocked id).map (·.task.targetTime)

def wakeUpUnlocked (s : MessageLoopTaskQueues α) (id : Nat) (time : Int) : Option (MessageLoopTaskQueues α) := do
  let entry ← s.queueEntries id
  some (if entry.wakeable then { s with wakeUps := Function.update s.wakeUps id (some time) } else s)

/-- A loop with pending tasks is woken up for the next of them. -/
def wakeUpIfPending (s : MessageLoopTaskQueues α) (id : Nat) : Option (MessageLoopTaskQueues α) := do
  if ← s.hasPendingTasksUnlocked id then s.wakeUpUnlocked id (← s.getNextWakeTimeUnlocked id)
  else some s

def createTaskQueue (s : MessageLoopTaskQueues α) : Nat × MessageLoopTaskQueues α :=
  (s.taskQueueIdCounter, { s with
    queueEntries := Function.update s.queueEntries s.taskQueueIdCounter
      (some ⟨false, .new s.taskQueueIdCounter, [], none⟩)
    taskQueueIdCounter := s.taskQueueIdCounter + 1 })

/-- A wakeable can only be set once, and each loop sets its own. -/
def setWakeable (s : MessageLoopTaskQueues α) (id : Nat) : Option (MessageLoopTaskQueues α) := do
  let entry ← s.queueEntries id
  if entry.wakeable then none else some (s.updateEntry id fun e => { e with wakeable := true })

/-- That the queue is not subsumed is only a debug check. -/
def dispose (s : MessageLoopTaskQueues α) (id : Nat) : Option (MessageLoopTaskQueues α) := do
  let entry ← s.queueEntries id
  some { s with queueEntries := fun q => if q = id ∨ q ∈ entry.ownerOf then none else s.queueEntries q }

def shutDown (e : TaskQueueEntry α) : TaskQueueEntry α := { e with taskSource := e.taskSource.shutDown }

def disposeTasks (s : MessageLoopTaskQueues α) (id : Nat) : Option (MessageLoopTaskQueues α) := do
  let entry ← s.queueEntries id
  let _ ← entry.ownerOf.mapM s.queueEntries
  some { s with queueEntries := fun q =>
    if q = id ∨ q ∈ entry.ownerOf then (s.queueEntries q).map shutDown else s.queueEntries q }

def registerTask (s : MessageLoopTaskQueues α) (id : Nat) (task : α) (targetTime : Int) (grade : TaskSourceGrade) :
    Option (MessageLoopTaskQueues α) := do
  let order := sizeOfInt s.order
  let s := { s with order := s.order + 1 }
  let entry ← s.queueEntries id
  let s := s.updateSource id (·.registerTask ⟨order, task, targetTime, grade⟩)
  s.wakeUpIfPending (entry.subsumedBy.getD id)

/-- The time that `GetNextTaskToRun` asks for, while the task that it peeked is still there. -/
def getWakeTimeAfterPeek (s : MessageLoopTaskQueues α) (id : Nat) : Option Int := do
  if ← s.hasPendingTasksUnlocked id then s.getNextWakeTimeUnlocked id else some maxTime

/-- The task is returned with its grade, which becomes the current one of the thread. -/
def getNextTaskToRun (s : MessageLoopTaskQueues α) (id : Nat) (fromTime : Int) :
    Option (Option (DelayedTask α) × MessageLoopTaskQueues α) := do
  if ← s.hasPendingTasksUnlocked id then
    let top ← s.peekNextTaskUnlocked id
    let t ← s.wakeUpUnlocked id (← s.getWakeTimeAfterPeek id)
    if top.task.targetTime > fromTime then some (none, t)
    else do
      let _ ← t.queueEntries top.taskQueueId
      some (some top.task, t.updateSource top.taskQueueId (·.popTask top.task.taskSourceGrade))
  else some (none, s)

/-- The two ends of a merge. -/
def link (s : MessageLoopTaskQueues α) (owner subsumed : Nat) : MessageLoopTaskQueues α :=
  (s.updateEntry owner fun e => { e with ownerOf := e.ownerOf.orderedInsert (· ≤ ·) subsumed }).updateEntry
    subsumed fun e => { e with subsumedBy := some owner }

def unlink (s : MessageLoopTaskQueues α) (owner subsumed : Nat) : MessageLoopTaskQueues α :=
  (s.updateEntry subsumed fun e => { e with subsumedBy := none }).updateEntry
    owner fun e => { e with ownerOf := e.ownerOf.filter (· ≠ subsumed) }

def merge (s : MessageLoopTaskQueues α) (owner subsumed : Nat) : Option (Bool × MessageLoopTaskQueues α) :=
  if owner = subsumed then some (true, s)
  else do
    let ownerEntry ← s.queueEntries owner
    let subsumedEntry ← s.queueEntries subsumed
    if subsumed ∈ ownerEntry.ownerOf then some (true, s)
    else if ownerEntry.subsumedBy.isSome then some (false, s)
    else if subsumedEntry.ownerOf ≠ [] then some (false, s)
    else if subsumedEntry.subsumedBy.isSome then some (false, s)
    else
      let t ← (s.link owner subsumed).wakeUpIfPending owner
      some (true, t)

def unmerge (s : MessageLoopTaskQueues α) (owner subsumed : Nat) : Option (Bool × MessageLoopTaskQueues α) := do
  let ownerEntry ← s.queueEntries owner
  if ownerEntry.ownerOf = [] then some (false, s)
  else if ownerEntry.subsumedBy.isSome then some (false, s)
  else do
    let subsumedEntry ← s.queueEntries subsumed
    if subsumedEntry.subsumedBy.isNone then some (false, s)
    else if subsumed ∉ ownerEntry.ownerOf then some (false, s)
    else
      let t ← (s.unlink owner subsumed).wakeUpIfPending owner
      let u ← t.wakeUpIfPending subsumed
      some (true, u)

def pauseSecondarySource (s : MessageLoopTaskQueues α) (id : Nat) : Option (MessageLoopTaskQueues α) := do
  let _ ← s.queueEntries id
  some (s.updateSource id (·.pauseSecondary))

def resumeSecondarySource (s : MessageLoopTaskQueues α) (id : Nat) : Option (MessageLoopTaskQueues α) := do
  let _ ← s.queueEntries id
  (s.updateSource id (·.resumeSecondary)).wakeUpIfPending id

inductive Label (α : Type)
  | createTaskQueue
  | setWakeable (id : Nat)
  | registerTask (id : Nat) (task : α) (targetTime : Int) (grade : TaskSourceGrade)
  | getNextTaskToRun (id : Nat) (fromTime : Int)
  | merge (owner subsumed : Nat)
  | unmerge (owner subsumed : Nat)
  | pauseSecondarySource (id : Nat)
  | resumeSecondarySource (id : Nat)
  | disposeTasks (id : Nat)
  | dispose (id : Nat)

/-- A call for a queue that the map does not have does not return, nor one whose check fails. -/
def step (s : MessageLoopTaskQueues α) : Label α → Option (MessageLoopTaskQueues α)
  | .createTaskQueue => some s.createTaskQueue.2
  | .setWakeable id => s.setWakeable id
  | .registerTask id task targetTime grade => s.registerTask id task targetTime grade
  | .getNextTaskToRun id fromTime => (s.getNextTaskToRun id fromTime).map (·.2)
  | .merge owner subsumed => (s.merge owner subsumed).map (·.2)
  | .unmerge owner subsumed => (s.unmerge owner subsumed).map (·.2)
  | .pauseSecondarySource id => s.pauseSecondarySource id
  | .resumeSecondarySource id => s.resumeSecondarySource id
  | .disposeTasks id => s.disposeTasks id
  | .dispose id => s.dispose id

def machine (α : Type) : Machine (MessageLoopTaskQueues α) (Label α) := ⟨{}, step⟩

section Steps
variable {s t : MessageLoopTaskQueues α} {id q : Nat}

@[simp] theorem queueEntries_updateEntry {f : TaskQueueEntry α → TaskQueueEntry α} :
    (s.updateEntry id f).queueEntries q = if q = id then (s.queueEntries q).map f else s.queueEntries q := by
  unfold updateEntry
  by_cases h : q = id
  · subst h
    simp
  · simp [h]

/-- Only wake-ups and the count of registrations differ. -/
structure SameQueues (s t : MessageLoopTaskQueues α) : Prop where
  queueEntries : t.queueEntries = s.queueEntries
  taskQueueIdCounter : t.taskQueueIdCounter = s.taskQueueIdCounter

theorem SameQueues.refl (s : MessageLoopTaskQueues α) : SameQueues s s := ⟨rfl, rfl⟩

theorem SameQueues.trans {u : MessageLoopTaskQueues α} (h : SameQueues s t) (h' : SameQueues t u) : SameQueues s u :=
  ⟨h'.queueEntries.trans h.queueEntries, h'.taskQueueIdCounter.trans h.taskQueueIdCounter⟩

theorem wakeUpUnlocked_cases {time : Int} (h : s.wakeUpUnlocked id time = some t) :
    ∃ e, s.queueEntries id = some e ∧
      t = if e.wakeable then { s with wakeUps := Function.update s.wakeUps id (some time) } else s := by
  obtain ⟨e, he, h⟩ := Option.bind_eq_some_iff.mp h
  exact ⟨e, he, (Option.some.inj h).symm⟩

theorem wakeUpUnlocked_same {time : Int} (h : s.wakeUpUnlocked id time = some t) : SameQueues s t := by
  obtain ⟨e, _, rfl⟩ := wakeUpUnlocked_cases h
  split <;> exact ⟨rfl, rfl⟩

/-- A loop is not woken up without a pending task, and else for the one that is peeked. -/
theorem wakeUpIfPending_cases (h : s.wakeUpIfPending id = some t) :
    s.hasPendingTasksUnlocked id = some false ∧ t = s ∨ ∃ top, s.hasPendingTasksUnlocked id = some true ∧
      s.peekNextTaskUnlocked id = some top ∧ s.wakeUpUnlocked id top.task.targetTime = some t := by
  obtain ⟨pending, hpending, h⟩ := Option.bind_eq_some_iff.mp h
  cases pending with
  | false => exact .inl ⟨hpending, (Option.some.inj h).symm⟩
  | true =>
    obtain ⟨time, htime, h⟩ := Option.bind_eq_some_iff.mp h
    obtain ⟨top, htop, rfl⟩ := Option.map_eq_some_iff.mp htime
    exact .inr ⟨top, hpending, htop, h⟩

theorem wakeUpIfPending_same (h : s.wakeUpIfPending id = some t) : SameQueues s t := by
  rcases wakeUpIfPending_cases h with ⟨_, rfl⟩ | ⟨top, _, _, h⟩
  · exact .refl t
  · exact wakeUpUnlocked_same h

theorem registerTask_cases {task : α} {targetTime : Int} {grade : TaskSourceGrade}
    (h : s.registerTask id task targetTime grade = some t) : ∃ e, s.queueEntries id = some e ∧
      ({ s with order := s.order + 1 }.updateSource id
        (·.registerTask ⟨sizeOfInt s.order, task, targetTime, grade⟩)).wakeUpIfPending
          (e.subsumedBy.getD id) = some t :=
  Option.bind_eq_some_iff.mp h

/-- A task is returned only if it was peeked, and then it is popped. Either way the loop is
woken up for what was peeked, where anything was. -/
theorem getNextTaskToRun_cases {now : Int} {r : Option (DelayedTask α)} (h : s.getNextTaskToRun id now = some (r, t)) :
    (s.hasPendingTasksUnlocked id = some false ∧ r = none ∧ t = s) ∨
    ∃ top u, s.hasPendingTasksUnlocked id = some true ∧ s.peekNextTaskUnlocked id = some top ∧
      s.wakeUpUnlocked id top.task.targetTime = some u ∧
      (now < top.task.targetTime ∧ r = none ∧ t = u ∨
        top.task.targetTime ≤ now ∧ r = some top.task ∧ (∃ e, s.queueEntries top.taskQueueId = some e) ∧
          t = u.updateSource top.taskQueueId (·.popTask top.task.taskSourceGrade)) := by
  obtain ⟨pending, hpending, h⟩ := Option.bind_eq_some_iff.mp h
  cases pending with
  | false =>
    obtain ⟨rfl, rfl⟩ := Prod.mk.inj (Option.some.inj h)
    exact .inl ⟨hpending, rfl, rfl⟩
  | true =>
    right
    obtain ⟨top, htop, h⟩ := Option.bind_eq_some_iff.mp h
    obtain ⟨time, htime, h⟩ := Option.bind_eq_some_iff.mp h
    rw [getWakeTimeAfterPeek, hpending] at htime
    obtain ⟨peeked, hpeeked, rfl⟩ := Option.map_eq_some_iff.mp htime
    obtain rfl : peeked = top := Option.some.inj (hpeeked.symm.trans htop)
    obtain ⟨u, hu, h⟩ := Option.bind_eq_some_iff.mp h
    refine ⟨peeked, u, hpending, htop, hu, ?_⟩
    split at h
    next hlt =>
      obtain ⟨rfl, rfl⟩ := Prod.mk.inj (Option.some.inj h)
      exact .inl ⟨hlt, rfl, rfl⟩
    next hle =>
      obtain ⟨e, he, h⟩ := Option.bind_eq_some_iff.mp h
      obtain ⟨rfl, rfl⟩ := Prod.mk.inj (Option.some.inj h)
      rw [(wakeUpUnlocked_same hu).queueEntries] at he
      exact .inr ⟨not_lt.mp hle, rfl, ⟨e, he⟩, rfl⟩

/-- A merge that is made finds both queues independent of any owner, and the second without
queues of its own. -/
theorem merge_cases {owner subsumed : Nat} {r : Bool} (h : s.merge owner subsumed = some (r, t)) :
    t = s ∨ ∃ o e, s.queueEntries owner = some o ∧ s.queueEntries subsumed = some e ∧ owner ≠ subsumed ∧
      subsumed ∉ o.ownerOf ∧ o.subsumedBy = none ∧ e.ownerOf = [] ∧ e.subsumedBy = none ∧
      (s.link owner subsumed).wakeUpIfPending owner = some t := by
  unfold merge at h
  split at h
  · exact .inl (Prod.mk.inj (Option.some.inj h)).2.symm
  next hne =>
    obtain ⟨o, ho, h⟩ := Option.bind_eq_some_iff.mp h
    obtain ⟨e, he, h⟩ := Option.bind_eq_some_iff.mp h
    split at h
    · exact .inl (Prod.mk.inj (Option.some.inj h)).2.symm
    next hmem =>
      split at h
      · exact .inl (Prod.mk.inj (Option.some.inj h)).2.symm
      next ho' =>
        split at h
        · exact .inl (Prod.mk.inj (Option.some.inj h)).2.symm
        next hempty =>
          split at h
          · exact .inl (Prod.mk.inj (Option.some.inj h)).2.symm
          next he' =>
            obtain ⟨u, hu, h⟩ := Option.bind_eq_some_iff.mp h
            obtain ⟨-, rfl⟩ := Prod.mk.inj (Option.some.inj h)
            exact .inr ⟨o, e, ho, he, hne, hmem, Option.not_isSome_iff_eq_none.mp ho', not_not.mp hempty,
              Option.not_isSome_iff_eq_none.mp he', hu⟩

theorem unmerge_cases {owner subsumed : Nat} {r : Bool} (h : s.unmerge owner subsumed = some (r, t)) :
    t = s ∨ ∃ o e u, s.queueEntries owner = some o ∧ s.queueEntries subsumed = some e ∧
      subsumed ∈ o.ownerOf ∧ o.subsumedBy = none ∧ e.subsumedBy ≠ none ∧
      (s.unlink owner subsumed).wakeUpIfPending owner = some u ∧ u.wakeUpIfPending subsumed = some t := by
  obtain ⟨o, ho, h⟩ := Option.bind_eq_some_iff.mp h
  split at h
  · exact .inl (Prod.mk.inj (Option.some.inj h)).2.symm
  split at h
  · exact .inl (Prod.mk.inj (Option.some.inj h)).2.symm
  next ho' =>
    obtain ⟨e, he, h⟩ := Option.bind_eq_some_iff.mp h
    split at h
    · exact .inl (Prod.mk.inj (Option.some.inj h)).2.symm
    next he' =>
      split at h
      · exact .inl (Prod.mk.inj (Option.some.inj h)).2.symm
      next hmem =>
        obtain ⟨u, hu, h⟩ := Option.bind_eq_some_iff.mp h
        obtain ⟨v, hv, h⟩ := Option.bind_eq_some_iff.mp h
        obtain ⟨-, rfl⟩ := Prod.mk.inj (Option.some.inj h)
        refine .inr ⟨o, e, u, ho, he, not_not.mp hmem, Option.not_isSome_iff_eq_none.mp ho', ?_, hu, hv⟩
        intro hnone
        simp [hnone] at he'

/-- What a call does to the queues. -/
inductive Effect (s t : MessageLoopTaskQueues α) : Label α → Prop
  | created (h : SameQueues s.createTaskQueue.2 t) : Effect s t .createTaskQueue
  | wakeable (id : Nat) (h : SameQueues (s.updateEntry id fun e => { e with wakeable := true }) t) :
      Effect s t (.setWakeable id)
  | registered (id : Nat) (task : DelayedTask α) (hid : ∃ e, s.queueEntries id = some e)
      (horder : task.order = sizeOfInt s.order) (h : SameQueues (s.updateSource id (·.registerTask task)) t) :
      Effect s t (.registerTask id task.task task.targetTime task.taskSourceGrade)
  | notReturned (id : Nat) (now : Int) (hnone : s.getNextTaskToRun id now = some (none, t)) (h : SameQueues s t) :
      Effect s t (.getNextTaskToRun id now)
  | returned (id : Nat) (now : Int) (top : TopTask α) (hpeek : s.peekNextTaskUnlocked id = some top)
      (hsome : s.getNextTaskToRun id now = some (some top.task, t)) (hid : ∃ e, s.queueEntries top.taskQueueId = some e)
      (h : SameQueues (s.updateSource top.taskQueueId (·.popTask top.task.taskSourceGrade)) t) :
      Effect s t (.getNextTaskToRun id now)
  | notMerged (owner subsumed : Nat) (h : SameQueues s t) : Effect s t (.merge owner subsumed)
  | merged (owner subsumed : Nat) (o e : TaskQueueEntry α) (ho : s.queueEntries owner = some o)
      (he : s.queueEntries subsumed = some e) (hne : owner ≠ subsumed) (howner : o.subsumedBy = none)
      (hempty : e.ownerOf = []) (hsubsumed : e.subsumedBy = none) (h : SameQueues (s.link owner subsumed) t) :
      Effect s t (.merge owner subsumed)
  | notUnmerged (owner subsumed : Nat) (h : SameQueues s t) : Effect s t (.unmerge owner subsumed)
  | unmerged (owner subsumed : Nat) (o e : TaskQueueEntry α) (ho : s.queueEntries owner = some o)
      (he : s.queueEntries subsumed = some e) (howner : o.subsumedBy = none) (hmem : subsumed ∈ o.ownerOf)
      (h : SameQueues (s.unlink owner subsumed) t) : Effect s t (.unmerge owner subsumed)
  | paused (id : Nat) (h : SameQueues (s.updateSource id (·.pauseSecondary)) t) : Effect s t (.pauseSecondarySource id)
  | resumed (id : Nat) (h : SameQueues (s.updateSource id (·.resumeSecondary)) t) :
      Effect s t (.resumeSecondarySource id)
  | tasksDisposed (id : Nat) (e : TaskQueueEntry α) (he : s.queueEntries id = some e)
      (h : SameQueues { s with queueEntries := fun q =>
        if q = id ∨ q ∈ e.ownerOf then (s.queueEntries q).map shutDown else s.queueEntries q } t) :
      Effect s t (.disposeTasks id)
  | disposed (id : Nat) (e : TaskQueueEntry α) (he : s.queueEntries id = some e)
      (h : SameQueues { s with queueEntries := fun q =>
        if q = id ∨ q ∈ e.ownerOf then none else s.queueEntries q } t) :
      Effect s t (.dispose id)

theorem effect_of_step {a : Label α} (h : step s a = some t) : Effect s t a := by
  cases a with
  | createTaskQueue =>
    obtain rfl := Option.some.inj h
    exact .created (.refl _)
  | setWakeable id =>
    obtain ⟨e, _, h⟩ := Option.bind_eq_some_iff.mp h
    split at h
    · cases h
    · obtain rfl := Option.some.inj h
      exact .wakeable id (.refl _)
  | registerTask id task targetTime grade =>
    obtain ⟨e, he, h⟩ := registerTask_cases h
    have hsame := wakeUpIfPending_same h
    exact .registered id ⟨sizeOfInt s.order, task, targetTime, grade⟩ ⟨e, he⟩ rfl
      ⟨hsame.queueEntries, hsame.taskQueueIdCounter⟩
  | getNextTaskToRun id now =>
    obtain ⟨⟨r, u⟩, hr, rfl⟩ := Option.map_eq_some_iff.mp h
    rcases getNextTaskToRun_cases hr with ⟨_, rfl, rfl⟩ | ⟨top, v, _, htop, hv, ⟨_, rfl, rfl⟩ | ⟨_, rfl, hid, rfl⟩⟩
    · exact .notReturned id now hr (.refl _)
    · exact .notReturned id now hr (wakeUpUnlocked_same hv)
    · have hsame := wakeUpUnlocked_same hv
      refine .returned id now top htop hr hid ⟨?_, hsame.taskQueueIdCounter⟩
      funext q
      simp [updateSource, hsame.queueEntries]
  | merge owner subsumed =>
    obtain ⟨⟨r, u⟩, hr, rfl⟩ := Option.map_eq_some_iff.mp h
    rcases merge_cases hr with rfl | ⟨o, e, ho, he, hne, _, howner, hempty, hsubsumed, h⟩
    · exact .notMerged owner subsumed (.refl _)
    · exact .merged owner subsumed o e ho he hne howner hempty hsubsumed (wakeUpIfPending_same h)
  | unmerge owner subsumed =>
    obtain ⟨⟨r, u⟩, hr, rfl⟩ := Option.map_eq_some_iff.mp h
    rcases unmerge_cases hr with rfl | ⟨o, e, v, ho, he, hmem, howner, _, hv, h⟩
    · exact .notUnmerged owner subsumed (.refl _)
    · exact .unmerged owner subsumed o e ho he howner hmem ((wakeUpIfPending_same hv).trans (wakeUpIfPending_same h))
  | pauseSecondarySource id =>
    obtain ⟨e, _, h⟩ := Option.bind_eq_some_iff.mp h
    obtain rfl := Option.some.inj h
    exact .paused id (.refl _)
  | resumeSecondarySource id =>
    obtain ⟨e, _, h⟩ := Option.bind_eq_some_iff.mp h
    exact .resumed id (wakeUpIfPending_same h)
  | disposeTasks id =>
    obtain ⟨e, he, h⟩ := Option.bind_eq_some_iff.mp h
    obtain ⟨_, _, h⟩ := Option.bind_eq_some_iff.mp h
    obtain rfl := Option.some.inj h
    exact .tasksDisposed id e he (.refl _)
  | dispose id =>
    obtain ⟨e, he, h⟩ := Option.bind_eq_some_iff.mp h
    obtain rfl := Option.some.inj h
    exact .disposed id e he (.refl _)

/-- What is true of all sources. -/
def Sources (P : Nat → TaskSource α → Prop) (s : MessageLoopTaskQueues α) : Prop :=
  ∀ q e, s.queueEntries q = some e → P q e.taskSource

section Sources
variable {P : Nat → TaskSource α → Prop}

private theorem Sources.same (h : s.Sources P) (hs : SameQueues s t) : t.Sources P := by
  intro q e he
  rw [hs.queueEntries] at he
  exact h q e he

private theorem Sources.updateEntry {f : TaskQueueEntry α → TaskQueueEntry α} (h : s.Sources P)
    (hf : ∀ e, s.queueEntries id = some e → P id e.taskSource → P id (f e).taskSource) :
    (s.updateEntry id f).Sources P := by
  intro q e he
  rw [queueEntries_updateEntry] at he
  split at he
  next hq =>
    obtain ⟨d, hd, rfl⟩ := Option.map_eq_some_iff.mp he
    subst hq
    exact hf d hd (h q d hd)
  next => exact h q e he

/-- What is true of new sources, and is kept by all that is done to a source, stays true of all. -/
theorem Sources.step {a : Label α} (h : s.Sources P) (hnew : ∀ q, P q (.new q))
    (hregister : ∀ q source task, P q source → P q (source.registerTask task))
    (hpop : ∀ q source grade, P q source → P q (source.popTask grade))
    (hpause : ∀ q source, P q source → P q source.pauseSecondary)
    (hresume : ∀ q e, a = .resumeSecondarySource q → s.queueEntries q = some e → P q e.taskSource →
      P q e.taskSource.resumeSecondary)
    (hshutDown : ∀ q source, P q source → P q source.shutDown) (ht : s.step a = some t) : t.Sources P := by
  cases effect_of_step ht with
  | created hs =>
    refine Sources.same (fun q e he => ?_) hs
    by_cases hq : q = s.taskQueueIdCounter
    · subst hq
      obtain rfl : ⟨false, .new s.taskQueueIdCounter, [], none⟩ = e := by simpa [createTaskQueue] using he
      exact hnew _
    · exact h q e (by simpa [createTaskQueue, hq] using he)
  | wakeable id hs =>
    refine Sources.same (h.updateEntry ?_) hs
    exact fun _ _ hp => hp
  | registered id task _ _ hs => exact (h.updateEntry fun e _ hp => hregister id e.taskSource task hp).same hs
  | notReturned id now _ hs => exact h.same hs
  | returned id now top _ _ _ hs => exact (h.updateEntry fun e _ hp => hpop _ e.taskSource _ hp).same hs
  | notMerged owner subsumed hs => exact h.same hs
  | merged owner subsumed o e _ _ _ _ _ _ hs =>
    refine Sources.same ((h.updateEntry ?_).updateEntry ?_) hs
    · exact fun _ _ hp => hp
    · exact fun _ _ hp => hp
  | notUnmerged owner subsumed hs => exact h.same hs
  | unmerged owner subsumed o e _ _ _ _ hs =>
    refine Sources.same ((h.updateEntry ?_).updateEntry ?_) hs
    · exact fun _ _ hp => hp
    · exact fun _ _ hp => hp
  | paused id hs => exact (h.updateEntry fun e _ hp => hpause id e.taskSource hp).same hs
  | resumed id hs => exact (h.updateEntry fun e he hp => hresume id e rfl he hp).same hs
  | tasksDisposed id e _ hs =>
    refine Sources.same (fun q f hf => ?_) hs
    dsimp only at hf
    split at hf
    · obtain ⟨d, hd, rfl⟩ := Option.map_eq_some_iff.mp hf
      exact hshutDown q d.taskSource (h q d hd)
    · exact h q f hf
  | disposed id e _ hs =>
    refine Sources.same (fun q f hf => ?_) hs
    dsimp only at hf
    split at hf
    · cases hf
    · exact h q f hf

end Sources

/-- The ids from the counter on are not in use. -/
def Fresh (s : MessageLoopTaskQueues α) : Prop := ∀ q, s.taskQueueIdCounter ≤ q → s.queueEntries q = none

private theorem Fresh.same (h : s.Fresh) (hs : SameQueues s t) : t.Fresh := by
  intro q hq
  rw [hs.queueEntries]
  rw [hs.taskQueueIdCounter] at hq
  exact h q hq

private theorem Fresh.updateEntry {f : TaskQueueEntry α → TaskQueueEntry α} (h : s.Fresh) :
    (s.updateEntry id f).Fresh := by
  intro q hq
  rw [queueEntries_updateEntry, h q hq]
  split <;> rfl

theorem Fresh.step {a : Label α} (h : s.Fresh) (ht : s.step a = some t) : t.Fresh := by
  cases effect_of_step ht with
  | created hs =>
    refine Fresh.same (fun q hq => ?_) hs
    have hlt : s.taskQueueIdCounter < q := hq
    exact (Function.update_of_ne hlt.ne' _ _).trans (h q hlt.le)
  | wakeable id hs => exact h.updateEntry.same hs
  | registered id task _ _ hs => exact h.updateEntry.same hs
  | notReturned id now _ hs => exact h.same hs
  | returned id now top _ _ _ hs => exact h.updateEntry.same hs
  | notMerged owner subsumed hs => exact h.same hs
  | merged owner subsumed o e _ _ _ _ _ _ hs => exact h.updateEntry.updateEntry.same hs
  | notUnmerged owner subsumed hs => exact h.same hs
  | unmerged owner subsumed o e _ _ _ _ hs => exact h.updateEntry.updateEntry.same hs
  | paused id hs => exact h.updateEntry.same hs
  | resumed id hs => exact h.updateEntry.same hs
  | tasksDisposed id e _ hs =>
    refine Fresh.same (fun q hq => ?_) hs
    dsimp only
    rw [h q hq]
    split <;> rfl
  | disposed id e _ hs =>
    refine Fresh.same (fun q hq => ?_) hs
    dsimp only
    rw [h q hq]
    split <;> rfl

end Steps

end MessageLoopTaskQueues
end Ogre.Fml
