import Mathlib.Algebra.Order.Group.Multiset
import Mathlib.Tactic.Abel
import Ogre.Fml.TaskQueuePeeks

/-! Every task that was registered is pending, or was returned, or was dropped: the books
of each queue balance in all reachable states. -/
namespace Ogre.Fml.MessageLoopTaskQueues
open Ogre.Library
variable {α : Type} {s t : MessageLoopTaskQueues α} {a : Label α} {id q : Nat}

/-- The tasks in the source of a queue, paused ones among them. -/
def pending (s : MessageLoopTaskQueues α) (q : Nat) : Multiset (DelayedTask α) :=
  ((s.queueEntries q).map (·.taskSource.tasks)).getD 0

/-- What became of the tasks that were registered on each queue: which were returned by
`GetNextTaskToRun` and which were dropped with their queue or its owner. -/
structure Ledger (α : Type) where
  registered : Nat → Multiset (DelayedTask α) := fun _ => 0
  returned : Nat → Multiset (DelayedTask α) := fun _ => 0
  dropped : Nat → Multiset (DelayedTask α) := fun _ => 0

/-- One more task in the books of a queue. -/
def enter (books : Nat → Multiset (DelayedTask α)) (q : Nat) (task : DelayedTask α) (p : Nat) :
    Multiset (DelayedTask α) :=
  if p = q then task ::ₘ books p else books p

/-- The tasks of a queue and of all that it owns are dropped. -/
def Ledger.drop (g : Ledger α) (s : MessageLoopTaskQueues α) (id : Nat) : Ledger α :=
  { g with dropped := fun q => if q = id ∨ q ∈ s.ownerOf id then g.dropped q + s.pending q else g.dropped q }

/-- A task that is returned is entered for the queue that it was peeked from. -/
def Ledger.update (s : MessageLoopTaskQueues α) (a : Label α) (_ : MessageLoopTaskQueues α)
    (g : Ledger α) : Ledger α :=
  match a with
  | .registerTask id task targetTime grade =>
    { g with registered := enter g.registered id ⟨sizeOfInt s.order, task, targetTime, grade⟩ }
  | .getNextTaskToRun id now =>
    match s.peekNextTaskUnlocked id, s.getNextTaskToRun id now with
    | some top, some (some task, _) => { g with returned := enter g.returned top.taskQueueId task }
    | _, _ => g
  | .disposeTasks id => g.drop s id
  | .dispose id => g.drop s id
  | _ => g

def ledgerMachine (α : Type) : Machine (MessageLoopTaskQueues α × Ledger α) (Label α) :=
  (machine α).withHistory {} Ledger.update

/-- The books of every queue balance. -/
def Balanced (s : MessageLoopTaskQueues α) (g : Ledger α) : Prop :=
  ∀ q, g.registered q = s.pending q + g.returned q + g.dropped q

/-- With what the books rest on: each source is that of its queue, and a new queue is new. -/
structure Accounted (s : MessageLoopTaskQueues α) (g : Ledger α) : Prop where
  own : s.OwnSources
  fresh : s.Fresh
  balanced : Balanced s g

theorem pending_eq {e : TaskQueueEntry α} (h : s.queueEntries q = some e) : s.pending q = e.taskSource.tasks := by
  simp [pending, h]

theorem pending_of_none (h : s.queueEntries q = none) : s.pending q = 0 := by simp [pending, h]

theorem SameQueues.pending (h : SameQueues s t) (q : Nat) : t.pending q = s.pending q := by
  rw [MessageLoopTaskQueues.pending, h.queueEntries, MessageLoopTaskQueues.pending]

/-- The same tasks in each source, and the same books. -/
private theorem Balanced.kept {g : Ledger α} (h : Balanced s g) (hp : ∀ q, t.pending q = s.pending q) : Balanced t g := by
  intro q
  rw [hp]
  exact h q

section Updates
variable {f : TaskQueueEntry α → TaskQueueEntry α} {g : TaskSource α → TaskSource α}

theorem pending_updateEntry_of_eq (hf : ∀ e, (f e).taskSource = e.taskSource) :
    (s.updateEntry id f).pending q = s.pending q := by
  unfold pending
  rw [queueEntries_updateEntry]
  split <;> cases s.queueEntries q <;> simp [hf]

theorem pending_updateSource_of_eq (hg : ∀ source, (g source).tasks = source.tasks) :
    (s.updateSource id g).pending q = s.pending q := by
  unfold pending updateSource
  rw [queueEntries_updateEntry]
  split <;> cases s.queueEntries q <;> simp [hg]

theorem pending_updateSource {e : TaskQueueEntry α} (he : s.queueEntries id = some e) :
    (s.updateSource id g).pending q = if q = id then (g e.taskSource).tasks else s.pending q := by
  unfold pending updateSource
  rw [queueEntries_updateEntry]
  split
  next hq => simp [hq, he]
  next => rfl

end Updates

/-- No task comes, goes or moves with a merge. -/
theorem pending_link {owner subsumed : Nat} : (s.link owner subsumed).pending q = s.pending q := by
  unfold link
  rw [pending_updateEntry_of_eq, pending_updateEntry_of_eq] <;> intro _ <;> rfl

theorem pending_unlink {owner subsumed : Nat} : (s.unlink owner subsumed).pending q = s.pending q := by
  unfold unlink
  rw [pending_updateEntry_of_eq, pending_updateEntry_of_eq] <;> intro _ <;> rfl

theorem pending_createTaskQueue (h : s.Fresh) : s.createTaskQueue.2.pending q = s.pending q := by
  by_cases hq : q = s.taskQueueIdCounter
  · rw [pending_of_none (h q hq.ge), hq]
    simp [pending, createTaskQueue]
  · simp [pending, createTaskQueue, hq]

private theorem Balanced.registered {g : Ledger α} {task : DelayedTask α} (h : Balanced s g)
    (hid : ∃ e, s.queueEntries id = some e) : Balanced (s.updateSource id (·.registerTask task))
      { g with registered := enter g.registered id task } := by
  obtain ⟨e, he⟩ := hid
  intro q
  dsimp only [enter]
  rw [pending_updateSource he, h q]
  split
  next hq =>
    subst hq
    rw [TaskSource.tasks_registerTask, pending_eq he, Multiset.cons_add, Multiset.cons_add]
  next => rfl

private theorem Balanced.returned {g : Ledger α} {top : TopTask α} {e : TaskQueueEntry α} (h : Balanced s g)
    (he : s.queueEntries top.taskQueueId = some e) (htop : e.taskSource.top = some top) :
    Balanced (s.updateSource top.taskQueueId (·.popTask top.task.taskSourceGrade))
      { g with returned := enter g.returned top.taskQueueId top.task } := by
  intro q
  dsimp only [enter]
  rw [pending_updateSource he, h q]
  split
  next hq =>
    subst hq
    rw [pending_eq he, TaskSource.tasks_of_top htop, Multiset.cons_add, Multiset.add_cons]
  next => rfl

/-- The books after tasks were dropped, whether the entries stay or go. -/
private theorem Balanced.dropped {g : Ledger α} (h : Balanced s g)
    (hp : ∀ q, t.pending q = if q = id ∨ q ∈ s.ownerOf id then 0 else s.pending q) : Balanced t (g.drop s id) := by
  intro q
  change g.registered q = t.pending q + g.returned q +
    if q = id ∨ q ∈ s.ownerOf id then g.dropped q + s.pending q else g.dropped q
  rw [hp, h q]
  split
  · abel
  · rfl

theorem pending_tasksDisposed {e : TaskQueueEntry α} (he : s.queueEntries id = some e) (h : SameQueues
      { s with queueEntries := fun q =>
        if q = id ∨ q ∈ e.ownerOf then (s.queueEntries q).map shutDown else s.queueEntries q } t) :
    t.pending q = if q = id ∨ q ∈ s.ownerOf id then 0 else s.pending q := by
  rw [h.pending, ownerOf_eq he, pending]
  dsimp only
  split
  · cases s.queueEntries q <;> simp [shutDown]
  · rfl

theorem pending_disposed {e : TaskQueueEntry α} (he : s.queueEntries id = some e) (h : SameQueues
      { s with queueEntries := fun q => if q = id ∨ q ∈ e.ownerOf then none else s.queueEntries q } t) :
    t.pending q = if q = id ∨ q ∈ s.ownerOf id then 0 else s.pending q := by
  rw [h.pending, ownerOf_eq he, pending]
  dsimp only
  split <;> rfl

/-- What a call does to the tasks. Only the task that is returned leaves its source, and it
is the one that was peeked; merges and pauses leave all tasks where they are. -/
def Conserves (s : MessageLoopTaskQueues α) (a : Label α) (t : MessageLoopTaskQueues α) : Prop :=
  match a with
  | .getNextTaskToRun id now => match s.getNextTaskToRun id now with
    | some (some task, _) => ∃ top, s.peekNextTaskUnlocked id = some top ∧ top.task = task ∧
        s.pending top.taskQueueId = task ::ₘ t.pending top.taskQueueId ∧
        ∀ q, q ≠ top.taskQueueId → t.pending q = s.pending q
    | _ => ∀ q, t.pending q = s.pending q
  | .merge _ _ | .unmerge _ _ | .pauseSecondarySource _ | .resumeSecondarySource _ => ∀ q, t.pending q = s.pending q
  | _ => True

/-- What a call does to the tasks, and that the books balance after it. -/
private theorem Accounted.balance {g : Ledger α} (h : Accounted s g) (ht : s.step a = some t) :
    Conserves s a t ∧ Balanced t (g.update s a t) := by
  have hb := h.balanced
  cases effect_of_step ht with
  | created hs => exact ⟨trivial, hb.kept fun q => (hs.pending q).trans (pending_createTaskQueue h.fresh)⟩
  | wakeable id hs =>
    refine ⟨trivial, hb.kept fun q => (hs.pending q).trans ?_⟩
    apply pending_updateEntry_of_eq
    intro _
    rfl
  | registered id task hid horder hs =>
    refine ⟨trivial, ?_⟩
    rw [Ledger.update, ← horder]
    exact (hb.registered hid).kept hs.pending
  | notReturned id now hnone hs =>
    constructor
    · rw [Conserves, hnone]
      exact hs.pending
    · have hg : g.update s (.getNextTaskToRun id now) t = g := by
        simp only [Ledger.update, hnone]
        split <;> simp_all
      rw [hg]
      exact hb.kept hs.pending
  | returned id now top hpeek hsome hid hs =>
    obtain ⟨_, e, he, htop⟩ := peek_source h.own hpeek
    constructor
    · simp only [Conserves, hsome]
      refine ⟨top, hpeek, rfl, ?_, fun q hq => ?_⟩
      · rw [hs.pending, pending_updateSource he, if_pos rfl, pending_eq he, TaskSource.tasks_of_top htop]
      · rw [hs.pending, pending_updateSource he, if_neg hq]
    · have hg : g.update s (.getNextTaskToRun id now) t =
          { g with returned := enter g.returned top.taskQueueId top.task } := by
        simp only [Ledger.update, hpeek, hsome]
      rw [hg]
      exact (hb.returned he htop).kept hs.pending
  | notMerged owner subsumed hs => exact ⟨hs.pending, hb.kept hs.pending⟩
  | merged owner subsumed o e ho he hne howner hempty hsubsumed hs =>
    have hp (q) : t.pending q = s.pending q := (hs.pending q).trans pending_link
    exact ⟨hp, hb.kept hp⟩
  | notUnmerged owner subsumed hs => exact ⟨hs.pending, hb.kept hs.pending⟩
  | unmerged owner subsumed o e ho he howner hmem hs =>
    have hp (q) : t.pending q = s.pending q := (hs.pending q).trans pending_unlink
    exact ⟨hp, hb.kept hp⟩
  | paused id hs =>
    have hp (q) : t.pending q = s.pending q :=
      (hs.pending q).trans (pending_updateSource_of_eq fun _ => TaskSource.tasks_pauseSecondary)
    exact ⟨hp, hb.kept hp⟩
  | resumed id hs =>
    have hp (q) : t.pending q = s.pending q :=
      (hs.pending q).trans (pending_updateSource_of_eq fun _ => TaskSource.tasks_resumeSecondary)
    exact ⟨hp, hb.kept hp⟩
  | tasksDisposed id e he hs => exact ⟨trivial, hb.dropped fun q => pending_tasksDisposed he hs⟩
  | disposed id e he hs => exact ⟨trivial, hb.dropped fun q => pending_disposed he hs⟩

theorem Accounted.step {g : Ledger α} (h : Accounted s g) (ht : s.step a = some t) :
    Conserves s a t ∧ Accounted t (g.update s a t) := by
  obtain ⟨hc, hb⟩ := h.balance ht
  exact ⟨hc, h.own.step ht, h.fresh.step ht, hb⟩

theorem init_accounted : Accounted (machine α).init {} :=
  ⟨by simp [OwnSources, Sources, machine], fun _ _ => rfl, fun _ => rfl⟩

/-- Where the tasks of a queue can be told apart, each is in one place, and there once. -/
structure OnePlace (s : MessageLoopTaskQueues α) (g : Ledger α) (q : Nat) : Prop where
  somewhere : ∀ task, task ∈ g.registered q ↔ task ∈ s.pending q ∨ task ∈ g.returned q ∨ task ∈ g.dropped q
  once : (s.pending q).Nodup ∧ (g.returned q).Nodup ∧ (g.dropped q).Nodup
  notReturned : Disjoint (s.pending q) (g.returned q)
  notDropped : Disjoint (s.pending q + g.returned q) (g.dropped q)

private theorem Balanced.onePlace {g : Ledger α} (h : Balanced s g) (hq : (g.registered q).Nodup) : OnePlace s g q := by
  have hsum := h q
  rw [hsum, Multiset.nodup_add, Multiset.nodup_add] at hq
  obtain ⟨⟨hpending, hreturned, hdisjoint⟩, hdropped, hdisjoint'⟩ := hq
  refine ⟨fun task => ?_, ⟨hpending, hreturned, hdropped⟩, hdisjoint, hdisjoint'⟩
  rw [hsum, Multiset.mem_add, Multiset.mem_add, or_assoc]

/-- In every reachable state the books balance: the tasks registered on a queue are those
that are pending in its source, those that were returned and those that were dropped. -/
theorem conserved_of_run (labels : List (Label α)) (s : MessageLoopTaskQueues α) (g : Ledger α)
    (hr : (ledgerMachine α).run labels = some (s, g)) :
    Balanced s g ∧ (∀ q, (g.registered q).Nodup → OnePlace s g q) ∧
      (machine α).Along Conserves (machine α).init labels := by
  have hstep (r : MessageLoopTaskQueues α × Ledger α) (a : Label α) (r' : MessageLoopTaskQueues α × Ledger α)
      (h : Accounted r.1 r.2) (ht : (ledgerMachine α).step r a = some r') :
      Conserves r.1 a r'.1 ∧ Accounted r'.1 r'.2 := by
    obtain ⟨ht, hg⟩ := Machine.withHistory_step ht
    obtain ⟨hc, ha⟩ := h.step ht
    rw [hg]
    exact ⟨hc, ha⟩
  have hbalanced : Balanced s g :=
    (Machine.invariant (fun r a r' h ht => (hstep r a r' h ht).2) init_accounted hr).balanced
  refine ⟨hbalanced, fun q hq => hbalanced.onePlace hq, ?_⟩
  apply Machine.along_withHistory.mp
  apply Machine.along_of_invariant (C := fun _ _ _ => True) (I := fun r => Accounted r.1 r.2)
  · intro r a r' h _ ht
    exact hstep r a r' h ht
  · exact init_accounted
  · exact Machine.along_of_forall fun _ _ _ _ => trivial

/-- Tasks of two merged queues are paused, run through their owner, and dropped. -/
def conservationRun : List (Label Nat) :=
  [.createTaskQueue, .createTaskQueue, .registerTask 1 7 30 .kDartEventLoop, .registerTask 0 8 20 .kUnspecified,
    .merge 0 1, .registerTask 1 9 10 .kUserInteraction, .pauseSecondarySource 1, .getNextTaskToRun 0 50,
    .resumeSecondarySource 1, .unmerge 0 1, .getNextTaskToRun 1 5, .disposeTasks 0, .dispose 1]

theorem conserved_conservationRun : ∃ s g, (ledgerMachine Nat).run conservationRun = some (s, g) ∧ Balanced s g ∧
    g.returned 1 = {⟨2, 9, 10, .kUserInteraction⟩} ∧ g.dropped 1 = {⟨0, 7, 30, .kDartEventLoop⟩} ∧
    g.dropped 0 = {⟨1, 8, 20, .kUnspecified⟩} := by
  have hr : (ledgerMachine Nat).run conservationRun = some (_, _) := rfl
  exact ⟨_, _, hr, (conserved_of_run conservationRun _ _ hr).1, by decide, by decide, by decide⟩

end Ogre.Fml.MessageLoopTaskQueues
