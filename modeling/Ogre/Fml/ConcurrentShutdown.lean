import Mathlib.Data.Finset.Card
import Mathlib.Data.List.Count
import Ogre.Fml.ConcurrentMessageLoop

/-! What becomes of the tasks of a concurrent message loop: each worker runs its own in order,
and takes one more of the shared queue after the shutdown. -/
namespace Ogre.Fml
open Ogre.Library

namespace Worker
variable {α : Type}

/-- The task of the queue that a worker has in its hands. -/
def task : Worker α → Option α
  | .running task _ _ => task
  | .sleeping | .awake | .exited => none

def threadTasks : Worker α → List α
  | .running _ threadTasks _ => threadTasks
  | .sleeping | .awake | .exited => []

/-- A worker that has seen the shutdown takes nothing any more. -/
def last : Worker α → Bool
  | .running _ _ shutdownNow => shutdownNow
  | .exited => true
  | .sleeping | .awake => false

/-- Two states of a worker that are the same for its tasks. -/
structure Alike (v w : Worker α) : Prop where
  task : w.task = v.task
  threadTasks : w.threadTasks = v.threadTasks
  last : w.last = v.last

theorem Alike.refl (v : Worker α) : Alike v v := ⟨rfl, rfl, rfl⟩

theorem alike_notified (v : Worker α) : Alike v v.notified := by cases v <;> exact ⟨rfl, rfl, rfl⟩

theorem alike_of_sleeping {v : Worker α} (h : v.isSleeping) : Alike v .awake := by
  cases v with
  | sleeping => exact ⟨rfl, rfl, rfl⟩
  | awake | running _ _ _ | exited => cases h

end Worker

namespace ConcurrentMessageLoop
variable {α : Type} {n : Nat} {s t : ConcurrentMessageLoop α} {a : Label α}

/-- What one worker did of a list of executions. -/
def ranBy (w : Nat) (l : List (Nat × α)) : List α := (l.filter fun e => e.1 = w).map (·.2)

theorem ranBy_append (w : Nat) (l m : List (Nat × α)) : ranBy w (l ++ m) = ranBy w l ++ ranBy w m := by
  simp [ranBy]

theorem ranBy_self (w : Nat) (l : List α) : ranBy w (l.map fun x => (w, x)) = l := by
  simp [ranBy, List.filter_map, Function.comp_def]

theorem ranBy_other {v w : Nat} (h : w ≠ v) (l : List α) : ranBy w (l.map fun x => (v, x)) = [] := by
  simp [ranBy, h.symm]

/-- Executions are counted worker by worker. -/
theorem perm_of_ranBy {l m : List (Nat × α)} (h : ∀ w, ranBy w l = ranBy w m) : l.Perm m := by
  classical
  have hcount (w x) (k : List (Nat × α)) : k.count (w, x) = (ranBy w k).count x := by
    induction k with
    | nil => rfl
    | cons e k ih =>
      obtain ⟨v, y⟩ := e
      by_cases hv : v = w
      · simp [ranBy, hv, List.count_cons] at ih ⊢
        exact ih
      · simp [ranBy, hv] at ih ⊢
        exact ih
  apply List.perm_iff_count.mpr
  rintro ⟨w, x⟩
  rw [hcount, hcount, h w]

/-- The tasks posted before the shutdown, all tasks that were posted to the workers, which
worker took which task of the queue, and how many the queue had at the shutdown. -/
structure History (α : Type) where
  tasks : List α := []
  early : List α := []
  toAllWorkers : List α := []
  taken : List (Nat × α) := []
  backlog : Nat := 0

def record (s : ConcurrentMessageLoop α) (a : Label α) (_ : ConcurrentMessageLoop α) (h : History α) : History α :=
  match a with
  | .postTask (some task) => if s.shutdown then h else { h with tasks := h.tasks ++ [task] }
  | .postTaskToAllWorkers (some task) =>
    { h with
      early := if s.shutdown then h.early else h.early ++ [task]
      toAllWorkers := h.toAllWorkers ++ [task] }
  | .take w => { h with taken := h.taken ++ s.tasks.head?.toList.map fun task => (w, task) }
  | .terminate | .destroy => if s.shutdown then h else { h with backlog := s.tasks.length }
  | _ => h

def recorded (count : Nat) (α : Type) : Machine (ConcurrentMessageLoop α × History α) (Label α) :=
  (machine count α).withHistory {} record

/-- Each task of the queue from before the shutdown was executed once, and each worker executed
the tasks for all workers in the order of their posts, those from before the shutdown among them. -/
structure AllRun (n : Nat) (s : ConcurrentMessageLoop α) (h : History α) : Prop where
  tasks : (s.ranTasks.map (·.2)).Perm h.tasks
  threadTasks : ∀ w < n, h.early <+: ranBy w s.ranThreadTasks ∧ ranBy w s.ranThreadTasks <+: h.toAllWorkers

/-- At the shutdown the queue has no more tasks than there are workers. -/
def FitsWorkers (n : Nat) (s : ConcurrentMessageLoop α) (a : Label α) (_ : ConcurrentMessageLoop α) : Prop :=
  match a with
  | .terminate | .destroy => s.shutdown = false → s.tasks.length ≤ n
  | _ => True

def lastWorkers (n : Nat) (s : ConcurrentMessageLoop α) : Finset Nat :=
  (Finset.range n).filter fun w => (s.workers w).last

/-- Where each task is, and what each worker has done. -/
structure Inv (n : Nat) (s : ConcurrentMessageLoop α) (h : History α) : Prop where
  queue : h.tasks = h.taken.map (·.2) ++ s.tasks
  handled : ∀ w, ranBy w s.ranTasks ++ (s.workers w).task.toList = ranBy w h.taken
  own : ∀ w < n, ranBy w s.ranThreadTasks ++ (s.workers w).threadTasks ++ (s.threadTasks w).getD [] = h.toAllWorkers
  early : h.early <+: h.toAllWorkers
  running : s.shutdown = false → h.early = h.toAllWorkers ∧ h.backlog = 0
  seen : ∀ w, (s.workers w).last → s.shutdown
  final : ∀ w < n, (s.workers w).last → h.early <+: ranBy w s.ranThreadTasks ++ (s.workers w).threadTasks
  outside : ∀ w, n ≤ w → (s.workers w).task = none
  left : s.shutdown → s.tasks.length = h.backlog - (lastWorkers n s).card

/-- The parts of the loop that tasks are in. -/
structure SameTasks (s t : ConcurrentMessageLoop α) : Prop where
  tasks : t.tasks = s.tasks
  threadTasks : t.threadTasks = s.threadTasks
  ranTasks : t.ranTasks = s.ranTasks
  ranThreadTasks : t.ranThreadTasks = s.ranThreadTasks
  workers : ∀ w, (s.workers w).Alike (t.workers w)

theorem lastWorkers_congr (h : ∀ w, (t.workers w).last = (s.workers w).last) : lastWorkers n t = lastWorkers n s := by
  simp [lastWorkers, h]

private theorem Inv.same {h : History α} (hi : Inv n s h) (hs : SameTasks s t) (hd : t.shutdown = s.shutdown) :
    Inv n t h where
  queue := by
    rw [hs.tasks]
    exact hi.queue
  handled w := by
    rw [hs.ranTasks, (hs.workers w).task]
    exact hi.handled w
  own w hw := by
    rw [hs.ranThreadTasks, hs.threadTasks, (hs.workers w).threadTasks]
    exact hi.own w hw
  early := hi.early
  running hr := hi.running (hd.symm.trans hr)
  seen w hw := by
    rw [hd]
    rw [(hs.workers w).last] at hw
    exact hi.seen w hw
  final w hwn hw := by
    rw [hs.ranThreadTasks, (hs.workers w).threadTasks]
    rw [(hs.workers w).last] at hw
    exact hi.final w hwn hw
  outside w hw := (hs.workers w).task.trans (hi.outside w hw)
  left hdown := by
    rw [hs.tasks, lastWorkers_congr fun w => (hs.workers w).last]
    exact hi.left (hd.symm.trans hdown)

private theorem sameTasks_notifyAll : SameTasks s s.notifyAll :=
  ⟨rfl, rfl, rfl, rfl, fun w => Worker.alike_notified (s.workers w)⟩

private theorem sameTasks_setWorker {w : Nat} {v : Worker α} (h : (s.workers w).Alike v) :
    SameTasks s (s.setWorker w v) := by
  refine ⟨rfl, rfl, rfl, rfl, ?_⟩
  intro x
  by_cases hx : x = w
  · subst hx
    simpa [setWorker] using h
  · simpa [setWorker, hx] using Worker.Alike.refl (s.workers x)

private theorem Inv.posted {h : History α} (hi : Inv n s h) (task : Option α) :
    Inv n (s.postTask task) (record s (.postTask task) t h) := by
  cases task with
  | none => exact hi
  | some task =>
    cases hdown : s.shutdown with
    | true =>
      have hs : s.postTask (some task) = { s with ranOnCaller := s.ranOnCaller ++ [task] } := by simp [postTask, hdown]
      have hh : record s (.postTask (some task)) t h = h := by simp [record, hdown]
      rw [hs, hh]
      exact hi.same ⟨rfl, rfl, rfl, rfl, fun w => .refl _⟩ rfl
    | false =>
      have hs : s.postTask (some task) = { s with tasks := s.tasks ++ [task], notifies := s.notifies + 1 } := by
        simp [postTask, hdown]
      have hh : record s (.postTask (some task)) t h = { h with tasks := h.tasks ++ [task] } := by simp [record, hdown]
      rw [hs, hh]
      refine ⟨?_, hi.handled, hi.own, hi.early, hi.running, hi.seen, hi.final, hi.outside, ?_⟩
      · simp [hi.queue]
      · intro hr
        exact absurd (hdown.symm.trans hr) Bool.false_ne_true

private theorem Inv.postedToAll {h : History α} (hi : Inv n s h) (task : Option α) :
    Inv n (s.postTaskToAllWorkers n task) (record s (.postTaskToAllWorkers task) t h) := by
  cases task with
  | none => exact hi
  | some task =>
    refine Inv.same ?_ sameTasks_notifyAll rfl
    refine ⟨hi.queue, hi.handled, ?_, ?_, ?_, hi.seen, ?_, hi.outside, hi.left⟩
    · intro w hw
      simp only [record, hw, if_true, Option.getD_some, ← List.append_assoc]
      rw [hi.own w hw]
    · simp only [record]
      split
      · exact hi.early.trans (List.prefix_append _ _)
      next hr => rw [(hi.running (Bool.eq_false_iff.mpr hr)).1]
    · intro hr
      have hr : s.shutdown = false := hr
      simp [record, hr, hi.running hr]
    · intro w hw hlast
      have hdown : s.shutdown = true := hi.seen w hlast
      simp only [record, hdown, if_true]
      exact hi.final w hw hlast

private theorem card_lastWorkers_insert {w : Nat} (hw : w < n) (hs : (s.workers w).last = false)
    (ht : ∀ x, (t.workers x).last = if x = w then true else (s.workers x).last) :
    (lastWorkers n t).card = (lastWorkers n s).card + 1 := by
  have heq : lastWorkers n t = insert w (lastWorkers n s) := by
    ext x
    simp only [lastWorkers, Finset.mem_filter, Finset.mem_range, Finset.mem_insert, ht]
    by_cases hx : x = w <;> simp [hx, hw]
  rw [heq, Finset.card_insert_of_notMem (by simp [lastWorkers, hs])]

/-- A worker takes what is there, for the last time once it sees the shutdown. -/
private theorem Inv.took {h : History α} {w : Nat} (hi : Inv n s h) (hw : w < n) (hawake : s.workers w = .awake)
    (hsome : !s.tasks.isEmpty || s.shutdown || s.hasThreadTasksLocked w) :
    Inv n (s.take w) { h with taken := h.taken ++ s.tasks.head?.toList.map fun task => (w, task) } := by
  have ht : s.take w = { s with
      tasks := s.tasks.tail
      threadTasks := Function.update s.threadTasks w none
      workers := Function.update s.workers w (.running s.tasks.head? ((s.threadTasks w).getD []) s.shutdown) } :=
    if_pos hsome
  rw [ht]
  refine ⟨?_, ?_, ?_, hi.early, hi.running, ?_, ?_, ?_, ?_⟩
  · rw [hi.queue]
    cases htasks : s.tasks <;> simp
  · intro x
    have hx := hi.handled x
    rw [ranBy_append, ← hx]
    by_cases hxw : x = w
    · subst hxw
      simp [hawake, Worker.task, ranBy_self]
    · simp [hxw, ranBy_other hxw]
  · intro x hx
    have hown := hi.own x hx
    by_cases hxw : x = w
    · subst hxw
      simpa [hawake, Worker.threadTasks] using hown
    · simpa [hxw] using hown
  · intro x hx
    by_cases hxw : x = w
    · subst hxw
      simpa [Worker.last] using hx
    · exact hi.seen x (by simpa [hxw] using hx)
  · intro x hx hlast
    by_cases hxw : x = w
    · subst hxw
      have hown := hi.own x hx
      have hown : ranBy x s.ranThreadTasks ++ (s.threadTasks x).getD [] = h.toAllWorkers := by
        simpa [hawake, Worker.threadTasks] using hown
      simpa [Worker.threadTasks, hown] using hi.early
    · simpa [hxw] using hi.final x hx (by simpa [hxw] using hlast)
  · intro x hx
    have hxw : x ≠ w := by omega
    simpa [hxw] using hi.outside x hx
  · intro hdown
    have hdown : s.shutdown := hdown
    have hcard := card_lastWorkers_insert (s := s) (t := s.take w) hw (by simp [hawake, Worker.last]) ?_
    · rw [ht] at hcard
      rw [hcard, List.length_tail, hi.left hdown, Nat.sub_sub]
    · intro x
      rw [ht]
      by_cases hxw : x = w
      · simp [hxw, Worker.last, hdown]
      · simp [hxw]

/-- What a worker executes, it had in its hands. -/
private theorem Inv.executed {h : History α} {w : Nat} {v : Worker α} {x y : List α} (hi : Inv n s h)
    (htask : (s.workers w).task.toList = x ++ v.task.toList)
    (hthread : (s.workers w).threadTasks = y ++ v.threadTasks) (hlast : v.last = (s.workers w).last) :
    Inv n { s.setWorker w v with
      ranTasks := s.ranTasks ++ x.map fun task => (w, task)
      ranThreadTasks := s.ranThreadTasks ++ y.map fun task => (w, task) } h := by
  have hlasts (z) : (Function.update s.workers w v z).last = (s.workers z).last := by
    by_cases hz : z = w <;> simp [hz, hlast]
  refine ⟨hi.queue, ?_, ?_, hi.early, hi.running, fun z hz => hi.seen z ((hlasts z).symm.trans hz), ?_, ?_, ?_⟩
  · intro z
    have hz := hi.handled z
    rw [ranBy_append]
    by_cases hzw : z = w
    · subst hzw
      rw [htask] at hz
      simpa [setWorker, ranBy_self] using hz
    · simpa [setWorker, hzw, ranBy_other hzw] using hz
  · intro z hz
    have hown := hi.own z hz
    rw [ranBy_append]
    by_cases hzw : z = w
    · subst hzw
      rw [hthread] at hown
      simpa [setWorker, ranBy_self] using hown
    · simpa [setWorker, hzw, ranBy_other hzw] using hown
  · intro z hz hzlast
    have hfinal := hi.final z hz ((hlasts z).symm.trans hzlast)
    rw [ranBy_append]
    by_cases hzw : z = w
    · subst hzw
      rw [hthread] at hfinal
      simpa [setWorker, ranBy_self] using hfinal
    · simpa [setWorker, hzw, ranBy_other hzw] using hfinal
  · intro z hz
    by_cases hzw : z = w
    · subst hzw
      have hnone := hi.outside z hz
      simp only [hnone, Option.toList_none] at htask
      simpa [setWorker] using (List.append_eq_nil_iff.mp htask.symm).2
    · simpa [setWorker, hzw] using hi.outside z hz
  · intro hdown
    have hcard : lastWorkers n (s.setWorker w v) = lastWorkers n s := lastWorkers_congr hlasts
    exact (hi.left hdown).trans (congrArg (fun l => h.backlog - l.card) hcard.symm)

private theorem Inv.proceeded {h : History α} {w : Nat} (hi : Inv n s h) (hs : s.proceed w = some t) : Inv n t h := by
  unfold proceed at hs
  split at hs
  next task threadTasks shutdownNow hw =>
    obtain rfl := Option.some.inj hs
    have he := hi.executed (w := w) (v := .running none threadTasks shutdownNow) (x := [task]) (y := [])
      (by rw [hw]; rfl) (by rw [hw]; rfl) (by rw [hw]; rfl)
    simpa [setWorker] using he
  next task threadTasks shutdownNow hw =>
    obtain rfl := Option.some.inj hs
    have he := hi.executed (w := w) (v := .running none threadTasks shutdownNow) (x := []) (y := [task])
      (by rw [hw]; rfl) (by rw [hw]; rfl) (by rw [hw]; rfl)
    simpa [setWorker] using he
  next shutdownNow hw =>
    obtain rfl := Option.some.inj hs
    refine hi.same (sameTasks_setWorker ?_) rfl
    rw [hw]
    cases shutdownNow <;> exact ⟨rfl, rfl, rfl⟩
  · cases hs
  · cases hs
  · cases hs

private theorem Inv.terminated {h : History α} (hi : Inv n s h) :
    Inv n s.terminate (if s.shutdown then h else { h with backlog := s.tasks.length }) := by
  refine Inv.same ?_ sameTasks_notifyAll rfl
  cases hdown : s.shutdown with
  | true =>
    rw [if_pos rfl]
    exact ⟨hi.queue, hi.handled, hi.own, hi.early, fun hr => absurd hr.symm Bool.false_ne_true, fun _ _ => rfl,
      hi.final, hi.outside, fun _ => hi.left hdown⟩
  | false =>
    have hnone : lastWorkers n s = ∅ := by
      apply Finset.filter_eq_empty_iff.mpr
      intro w _ hw
      exact absurd (hdown.symm.trans (hi.seen w hw)) Bool.false_ne_true
    refine ⟨hi.queue, hi.handled, hi.own, hi.early, fun hr => absurd hr.symm Bool.false_ne_true, fun _ _ => rfl,
      hi.final, hi.outside, fun _ => ?_⟩
    rw [show lastWorkers n { s with shutdown := true } = lastWorkers n s from rfl, hnone]
    simp

theorem proceed_destroyed {w : Nat} (h : s.proceed w = some t) : t.destroyed = s.destroyed := by
  unfold proceed at h
  split at h
  · obtain rfl := Option.some.inj h
    rfl
  · obtain rfl := Option.some.inj h
    rfl
  · obtain rfl := Option.some.inj h
    rfl
  · cases h
  · cases h
  · cases h

private theorem Inv.notified {h : History α} {worker : Option Nat} (hi : Inv n s h)
    (hs : s.notifyOne n worker = some t) : Inv n t h := by
  unfold notifyOne at hs
  split at hs
  · cases hs
  next k w =>
    obtain ⟨⟨-, hsleep⟩, hs⟩ := Option.ite_none_right_eq_some.mp hs
    obtain rfl := Option.some.inj hs
    have hsame := sameTasks_setWorker (Worker.alike_of_sleeping hsleep)
    exact hi.same ⟨hsame.tasks, hsame.threadTasks, hsame.ranTasks, hsame.ranThreadTasks, hsame.workers⟩ rfl
  next k =>
    obtain ⟨-, hs⟩ := Option.ite_none_right_eq_some.mp hs
    obtain rfl := Option.some.inj hs
    exact hi.same ⟨rfl, rfl, rfl, rfl, fun w => .refl _⟩ rfl

theorem Inv.step {h : History α} (hi : Inv n s h) (hs : s.step n a = some t) : Inv n t (record s a t h) := by
  obtain ⟨-, hs⟩ := Option.ite_none_left_eq_some.mp hs
  cases a with
  | postTask task =>
    obtain rfl := Option.some.inj hs
    exact hi.posted task
  | notifyOne worker => exact hi.notified hs
  | postTaskToAllWorkers task =>
    obtain rfl := Option.some.inj hs
    exact hi.postedToAll task
  | wake w =>
    obtain ⟨hsleep, hs⟩ := Option.ite_none_right_eq_some.mp hs
    obtain rfl := Option.some.inj hs
    exact hi.same (sameTasks_setWorker (Worker.alike_of_sleeping hsleep)) rfl
  | take w =>
    simp only [apply] at hs
    split at hs
    next hawake =>
      obtain ⟨hw, hs⟩ := Option.ite_none_right_eq_some.mp hs
      obtain rfl := Option.some.inj hs
      by_cases hsome : (!s.tasks.isEmpty || s.shutdown || s.hasThreadTasksLocked w)
      · exact hi.took hw hawake hsome
      · have hempty : s.tasks = [] := by simp at hsome; exact hsome.1.1
        have ht : s.take w = s.setWorker w .sleeping := if_neg hsome
        have hh (t) : record s (.take w) t h = h := by simp [record, hempty]
        rw [hh, ht]
        refine hi.same (sameTasks_setWorker ?_) rfl
        rw [hawake]
        exact ⟨rfl, rfl, rfl⟩
    · cases hs
    · cases hs
    · cases hs
  | proceed w => exact hi.proceeded hs
  | terminate =>
    obtain rfl := Option.some.inj hs
    exact hi.terminated
  | destroy =>
    obtain ⟨-, hs⟩ := Option.ite_none_left_eq_some.mp hs
    obtain rfl := Option.some.inj hs
    exact hi.terminated.same ⟨rfl, rfl, rfl, rfl, fun w => .refl _⟩ rfl
  | join =>
    obtain ⟨-, hs⟩ := Option.ite_none_right_eq_some.mp hs
    obtain rfl := Option.some.inj hs
    exact hi.same ⟨rfl, rfl, rfl, rfl, fun w => .refl _⟩ rfl

private theorem destroyed_apply (hs : s.apply n a = some t) (ha : a ≠ .join) : t.destroyed = s.destroyed := by
  cases a with
  | postTask task =>
    obtain rfl := Option.some.inj hs
    cases task with
    | none => rfl
    | some task =>
      simp only [postTask]
      split <;> rfl
  | notifyOne worker =>
    simp only [apply, notifyOne] at hs
    split at hs
    · cases hs
    · obtain rfl := Option.some.inj (Option.ite_none_right_eq_some.mp hs).2
      rfl
    · obtain rfl := Option.some.inj (Option.ite_none_right_eq_some.mp hs).2
      rfl
  | postTaskToAllWorkers task =>
    obtain rfl := Option.some.inj hs
    cases task <;> rfl
  | wake w =>
    obtain rfl := Option.some.inj (Option.ite_none_right_eq_some.mp hs).2
    rfl
  | take w =>
    simp only [apply] at hs
    split at hs
    · obtain rfl := Option.some.inj (Option.ite_none_right_eq_some.mp hs).2
      unfold take
      split <;> rfl
    · cases hs
    · cases hs
    · cases hs
  | proceed w => exact proceed_destroyed hs
  | terminate =>
    obtain rfl := Option.some.inj hs
    rfl
  | destroy =>
    obtain rfl := Option.some.inj (Option.ite_none_left_eq_some.mp hs).2
    rfl
  | join => exact absurd rfl ha

/-- The loop is destroyed only after all of its workers have exited. -/
theorem exited_of_step (hs : s.step n a = some t) (ht : t.destroyed) : ∀ w < n, (t.workers w).isExited := by
  obtain ⟨hrunning, hs⟩ := Option.ite_none_left_eq_some.mp hs
  by_cases ha : a = .join
  · subst ha
    obtain ⟨⟨-, hall⟩, hs⟩ := Option.ite_none_right_eq_some.mp hs
    obtain rfl := Option.some.inj hs
    exact hall
  · exact absurd ((destroyed_apply hs ha).symm.trans ht) hrunning

theorem init_inv : Inv n (machine n α).init {} where
  queue := rfl
  handled _ := rfl
  own _ _ := rfl
  early := List.prefix_rfl
  running _ := ⟨rfl, rfl⟩
  seen _ hw := nomatch hw
  final _ _ hw := nomatch hw
  outside _ _ := rfl
  left hr := nomatch hr

/-- What is left in the queue of a destroyed loop is what the workers could not take any more. -/
private theorem left_of_destroyed {h : History α} (hi : Inv n s h) (hn : 0 < n)
    (hexited : ∀ w < n, (s.workers w).isExited) : s.tasks.length = h.backlog - n := by
  have hlast (w) (hw : w < n) : (s.workers w).last := by
    have hw := hexited w hw
    cases hv : s.workers w with
    | exited => rfl
    | sleeping | awake | running _ _ _ => simp [hv, Worker.isExited] at hw
  have hall : lastWorkers n s = Finset.range n := by
    apply Finset.filter_eq_self.mpr
    intro w hw
    exact hlast w (Finset.mem_range.mp hw)
  rw [hi.left (hi.seen 0 (hlast 0 hn)), hall, Finset.card_range]

private theorem allRun_iff_left {h : History α} (hi : Inv n s h) (hexited : ∀ w < n, (s.workers w).isExited) :
    AllRun n s h ↔ s.tasks = [] := by
  have hidle (w) : (s.workers w).task = none ∧ (w < n → (s.workers w).threadTasks = [] ∧ (s.workers w).last) := by
    by_cases hw : w < n
    · have hx := hexited w hw
      cases hv : s.workers w with
      | exited => exact ⟨rfl, fun _ => ⟨rfl, rfl⟩⟩
      | sleeping | awake | running _ _ _ => simp [hv, Worker.isExited] at hx
    · exact ⟨hi.outside w (not_lt.mp hw), fun hx => absurd hx hw⟩
  have hperm : s.ranTasks.Perm h.taken := by
    apply perm_of_ranBy
    intro w
    simpa [(hidle w).1] using hi.handled w
  constructor
  · intro hall
    have hlength := (hall.tasks.symm.trans (hperm.map (·.2))).length_eq
    rw [hi.queue, List.length_append] at hlength
    exact List.length_eq_zero_iff.mp (by omega)
  · intro hempty
    refine ⟨?_, ?_⟩
    · rw [hi.queue, hempty, List.append_nil]
      exact hperm.map (·.2)
    · intro w hw
      obtain ⟨hnone, hlast⟩ := (hidle w).2 hw
      refine ⟨by simpa [hnone] using hi.final w hw hlast, ?_⟩
      rw [← hi.own w hw, hnone, List.append_nil]
      exact List.prefix_append _ _

private theorem backlog_record {h : History α} (hi : Inv n s h) :
    (record s a t h).backlog ≤ n ↔ h.backlog ≤ n ∧ FitsWorkers n s a t := by
  have hshutdown : (if s.shutdown then h else { h with backlog := s.tasks.length }).backlog ≤ n ↔
      h.backlog ≤ n ∧ (s.shutdown = false → s.tasks.length ≤ n) := by
    cases hdown : s.shutdown with
    | true => simp
    | false => simp [(hi.running hdown).2]
  cases a with
  | terminate => exact hshutdown
  | destroy => exact hshutdown
  | postTask task =>
    have hsame : (record s (.postTask task) t h).backlog = h.backlog := by
      cases task with
      | none => rfl
      | some task =>
        simp only [record]
        split <;> rfl
    rw [hsame]
    exact (and_iff_left trivial).symm
  | postTaskToAllWorkers task => cases task <;> exact (and_iff_left trivial).symm
  | notifyOne _ | wake _ | take _ | proceed _ | join => exact (and_iff_left trivial).symm

/-- Once the loop is destroyed, every task from before the shutdown was run once and in its
place exactly if at the shutdown the queue had no more tasks than there are workers. -/
theorem allRun_iff (count : Nat) (labels : List (Label α)) (s : ConcurrentMessageLoop α) (h : History α)
    (hr : (recorded count α).run labels = some (s, h)) (hd : s.destroyed) :
    AllRun (workerCount count) s h ↔
      (machine count α).Along (FitsWorkers (workerCount count)) (machine count α).init labels := by
  have hstep (r : ConcurrentMessageLoop α × History α) (a) (u : ConcurrentMessageLoop α × History α)
      (hi : Inv (workerCount count) r.1 r.2 ∧ (r.1.destroyed → ∀ w < workerCount count, (r.1.workers w).isExited))
      (hs : (recorded count α).step r a = some u) :
      Inv (workerCount count) u.1 u.2 ∧ (u.1.destroyed → ∀ w < workerCount count, (u.1.workers w).isExited) := by
    obtain ⟨r, g⟩ := r
    obtain ⟨hs, hu⟩ := Machine.withHistory_step hs
    rw [hu]
    exact ⟨hi.1.step hs, exited_of_step hs⟩
  have hinit : Inv (workerCount count) (machine count α).init {} ∧
      ((machine count α).init.destroyed → ∀ w < workerCount count, ((machine count α).init.workers w).isExited) :=
    ⟨init_inv, fun hx => nomatch hx⟩
  have hkept : h.backlog ≤ workerCount count ↔ _ :=
    Machine.kept_iff_along (G := fun r => r.2.backlog ≤ workerCount count)
      (C := fun r a u => FitsWorkers (workerCount count) r.1 a u.1) hstep (fun r a u hi hs => ?_) hinit hr
  · obtain ⟨hi, hexited⟩ := Machine.invariant hstep hinit hr
    have hn : 0 < workerCount count := by simp [workerCount]
    rw [allRun_iff_left hi (hexited hd), ← List.length_eq_zero_iff, left_of_destroyed hi hn (hexited hd),
      Nat.sub_eq_zero_iff_le, hkept]
    exact (and_iff_right (Nat.zero_le _)).trans Machine.along_withHistory
  · obtain ⟨r, g⟩ := r
    obtain ⟨hs, hu⟩ := Machine.withHistory_step hs
    rw [hu]
    exact backlog_record hi.1

instance (n : Nat) (s : ConcurrentMessageLoop α) (a : Label α) (t : ConcurrentMessageLoop α) :
    Decidable (FitsWorkers n s a t) := by
  unfold FitsWorkers
  split <;> infer_instance

/-- Two workers with two tasks of the queue and one for each of them at the shutdown. -/
def shutdownInTime : List (Label Nat) :=
  [.take 0, .take 1, .postTask (some 1), .notifyOne (some 1), .postTask (some 2), .notifyOne (some 0),
    .postTaskToAllWorkers (some 3), .terminate, .postTask (some 4), .take 1, .proceed 1, .take 0, .proceed 1,
    .proceed 1, .proceed 0, .proceed 0, .proceed 0, .destroy, .join]

theorem allRun_shutdownInTime : ∃ s h, (recorded 2 Nat).run shutdownInTime = some (s, h) ∧ s.destroyed ∧
    AllRun 2 s h ∧ h.tasks = [1, 2] := by
  have hr : (recorded 2 Nat).run shutdownInTime = some (_, _) := rfl
  exact ⟨_, _, hr, rfl, (allRun_iff 2 shutdownInTime _ _ hr rfl).mpr (by decide), rfl⟩

/-- One worker, and two tasks in the queue when the loop is terminated. -/
def shutdownTooEarly : List (Label Nat) :=
  [.take 0, .postTask (some 1), .notifyOne (some 0), .postTask (some 2), .notifyOne none, .terminate,
    .take 0, .proceed 0, .proceed 0, .destroy, .join]

theorem dropped_shutdownTooEarly : ∃ s h, (recorded 1 Nat).run shutdownTooEarly = some (s, h) ∧ s.destroyed ∧
    h.tasks = [1, 2] ∧ s.ranTasks = [(0, 1)] ∧ ¬ AllRun 1 s h := by
  refine ⟨_, _, rfl, rfl, rfl, rfl, ?_⟩
  intro hall
  have hlength := hall.tasks.length_eq
  cases hlength

end ConcurrentMessageLoop
end Ogre.Fml
