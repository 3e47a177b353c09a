import Mathlib.Data.List.Perm.Subperm
import Mathlib.Order.Filter.AtTopBot.Basic
import Mathlib.Order.Filter.Finite
import Ogre.Fml.ConcurrentShutdown
import Ogre.Library.Fairness

/-! As long as a concurrent message loop is not shut down, each task that is posted to it is executed in the end, if
its workers go on, and so do those who are about to notify one. -/
namespace Ogre.Fml
open Ogre.Library

namespace ConcurrentMessageLoop
variable {α : Type} {n w : Nat} {s t : ConcurrentMessageLoop α} {a : Label α} {h : History α}

def Ends : Label α → Prop
  | .terminate | .destroy => True
  | _ => False

/-- The step is one of the worker's own. -/
def OfWorker (w : Nat) (a : Label α) : Prop := a = .take w ∨ a = .proceed w

/-- Where tasks are left, some worker comes for them, or is about to be notified; a worker sleeps only without tasks
of its own. -/
structure Open (n : Nat) (s : ConcurrentMessageLoop α) (h : History α) : Prop where
  inv : Inv n s h
  running : s.shutdown = false ∧ s.destroying = false ∧ s.destroyed = false
  busy : s.tasks ≠ [] → 0 < s.notifies ∨ ∃ w < n, (s.workers w).isSleeping = false
  own : ∀ w, (s.workers w).isSleeping → s.threadTasks w = none

theorem Open.last (h : Open n s h) (w : Nat) : (s.workers w).last = false := by
  rw [Bool.eq_false_iff]
  intro hl
  have hd := h.inv.seen w hl
  rw [h.running.1] at hd
  cases hd

theorem not_sleeping_notified (v : Worker α) (h : v.isSleeping = false) : v.notified = v := by
  cases v with
  | sleeping => cases h
  | awake | running _ _ _ | exited => rfl

theorem isSleeping_notified (v : Worker α) : v.notified.isSleeping = false := by cases v <;> rfl

theorem isSleeping_update {v : Worker α} (x : Nat) : (Function.update s.workers w v x).isSleeping =
    if x = w then v.isSleeping else (s.workers x).isSleeping := by
  by_cases hx : x = w
  · simp [hx]
  · simp [hx]

/-- What a call of `notify_one` does. -/
theorem notifyOne_cases {worker : Option Nat} (hs : s.notifyOne n worker = some t) : ∃ k, s.notifies = k + 1 ∧
    ((∃ v, worker = some v ∧ v < n ∧ (s.workers v).isSleeping ∧ t = { s.setWorker v .awake with notifies := k }) ∨
      (∀ v < n, (s.workers v).isSleeping = false) ∧ t = { s with notifies := k }) := by
  cases hk : s.notifies with
  | zero => simp [notifyOne, hk] at hs
  | succ k =>
    refine ⟨k, rfl, ?_⟩
    cases worker with
    | none =>
      obtain ⟨hall, rfl⟩ : (∀ v < n, (s.workers v).isSleeping = false) ∧ { s with notifies := k } = t := by
        simpa [notifyOne, hk] using hs
      exact .inr ⟨hall, rfl⟩
    | some v =>
      obtain ⟨⟨hv, hsleeping⟩, rfl⟩ : (v < n ∧ (s.workers v).isSleeping = true) ∧
          { s.setWorker v .awake with notifies := k } = t := by
        simpa [notifyOne, hk] using hs
      exact .inl ⟨v, rfl, hv, hsleeping, rfl⟩

/-- What one step makes of a loop that goes on. -/
theorem Open.step (ho : Open n s h) (hn : 0 < n) (ha : ¬ Ends a) (hs : s.step n a = some t) :
    Open n t (record s a t h) := by
  have hinv := ho.inv.step hs
  obtain ⟨-, hs⟩ := Option.ite_none_left_eq_some.mp hs
  cases a with
  | postTask task =>
    obtain rfl := Option.some.inj hs
    cases task with
    | none => exact ⟨hinv, ho.running, ho.busy, ho.own⟩
    | some task =>
      have hp : s.postTask (some task) = { s with tasks := s.tasks ++ [task], notifies := s.notifies + 1 } := by
        rw [postTask, ho.running.1]
        rfl
      rw [hp] at hinv ⊢
      exact ⟨hinv, ho.running, fun _ => .inl (Nat.succ_pos _), ho.own⟩
  | notifyOne worker =>
    obtain ⟨k, -, ⟨v, -, hv, -, rfl⟩ | ⟨hall, rfl⟩⟩ := notifyOne_cases hs
    · refine ⟨hinv, ho.running, fun _ => .inr ⟨v, hv, ?_⟩, fun x hx => ?_⟩
      · exact (isSleeping_update v).trans (if_pos rfl)
      · have hx : (Function.update s.workers v .awake x).isSleeping := hx
        rw [isSleeping_update] at hx
        split at hx
        · cases hx
        · exact ho.own x hx
    · exact ⟨hinv, ho.running, fun _ => .inr ⟨0, hn, hall 0 hn⟩, ho.own⟩
  | postTaskToAllWorkers task =>
    obtain rfl := Option.some.inj hs
    cases task with
    | none => exact ⟨hinv, ho.running, ho.busy, ho.own⟩
    | some task =>
      refine ⟨hinv, ho.running, fun _ => .inr ⟨0, hn, isSleeping_notified _⟩, fun x hx => ?_⟩
      have hx : (s.workers x).notified.isSleeping := hx
      rw [isSleeping_notified] at hx
      cases hx
  | wake v =>
    obtain ⟨hv, hs⟩ := Option.ite_none_right_eq_some.mp hs
    obtain rfl := Option.some.inj hs
    refine ⟨hinv, ho.running, fun htasks => ?_, fun x hx => ?_⟩
    · rcases ho.busy htasks with hnotifies | ⟨x, hx, hxs⟩
      · exact .inl hnotifies
      · refine .inr ⟨x, hx, (isSleeping_update x).trans ?_⟩
        split
        · rfl
        · exact hxs
    · have hx : (Function.update s.workers v .awake x).isSleeping := hx
      rw [isSleeping_update] at hx
      split at hx
      · cases hx
      · exact ho.own x hx
  | take v =>
    rw [apply] at hs
    split at hs
    next hawake =>
      obtain ⟨hv, hs⟩ := Option.ite_none_right_eq_some.mp hs
      obtain rfl := Option.some.inj hs
      rw [take] at hinv ⊢
      split at hinv
      next hsome =>
        rw [if_pos hsome]
        refine ⟨hinv, ho.running, fun _ => .inr ⟨v, hv, ?_⟩, fun x hx => ?_⟩
        · exact (isSleeping_update v).trans (if_pos rfl)
        · have hx : (Function.update s.workers v _ x).isSleeping := hx
          rw [isSleeping_update] at hx
          change Function.update s.threadTasks v none x = none
          split at hx
          · cases hx
          next hxv =>
            rw [Function.update_of_ne hxv]
            exact ho.own x hx
      next hnone =>
        rw [if_neg hnone]
        simp only [Bool.not_eq_true, Bool.or_eq_false_iff, Bool.not_eq_false', List.isEmpty_iff] at hnone
        refine ⟨hinv, ho.running, fun htasks => absurd hnone.1.1 htasks, fun x hx => ?_⟩
        have hx : (Function.update s.workers v .sleeping x).isSleeping := hx
        rw [isSleeping_update] at hx
        split at hx
        next hxv =>
          have hown : s.threadTasks v = none := by simpa [hasThreadTasksLocked] using hnone.2
          rw [hxv]
          exact hown
        · exact ho.own x hx
    · cases hs
    · cases hs
    · cases hs
  | proceed v =>
    have hkeep (x : Worker α) (hx : x.isSleeping = false) (hw : (s.workers v).isSleeping = false) :
        ∀ y, (Function.update s.workers v x y).isSleeping = (s.workers y).isSleeping := by
      intro y
      rw [isSleeping_update]
      split
      next hy => rw [hy, hx, hw]
      · rfl
    have hfinish (u : ConcurrentMessageLoop α) (hu : u.tasks = s.tasks ∧ u.threadTasks = s.threadTasks ∧
        u.shutdown = s.shutdown ∧ u.destroying = s.destroying ∧ u.destroyed = s.destroyed ∧ u.notifies = s.notifies)
        (hw : ∀ y, (u.workers y).isSleeping = (s.workers y).isSleeping) (hi : Inv n u h) : Open n u h := by
      obtain ⟨htasks, hthread, hdown, hing, hed, hnotifies⟩ := hu
      refine ⟨hi, by rw [hdown, hing, hed]; exact ho.running, ?_, fun x hx => ?_⟩
      · rw [htasks, hnotifies]
        intro hne
        rcases ho.busy hne with hnotify | ⟨x, hx, hxs⟩
        · exact .inl hnotify
        · exact .inr ⟨x, hx, (hw x).trans hxs⟩
      · rw [hthread]
        exact ho.own x ((hw x).symm.trans hx)
    have hs : s.proceed v = some t := hs
    rw [proceed] at hs
    split at hs
    next task threadTasks shutdownNow hv =>
      obtain rfl := Option.some.inj hs
      exact hfinish _ ⟨rfl, rfl, rfl, rfl, rfl, rfl⟩ (hkeep _ rfl (by rw [hv]; rfl)) hinv
    next task threadTasks shutdownNow hv =>
      obtain rfl := Option.some.inj hs
      exact hfinish _ ⟨rfl, rfl, rfl, rfl, rfl, rfl⟩ (hkeep _ rfl (by rw [hv]; rfl)) hinv
    next shutdownNow hv =>
      obtain rfl := Option.some.inj hs
      refine hfinish _ ⟨rfl, rfl, rfl, rfl, rfl, rfl⟩ (hkeep _ ?_ (by rw [hv]; rfl)) hinv
      cases shutdownNow <;> rfl
    · cases hs
    · cases hs
    · cases hs
  | terminate => exact absurd trivial ha
  | destroy => exact absurd trivial ha
  | join =>
    obtain ⟨⟨hd, -⟩, -⟩ := Option.ite_none_right_eq_some.mp hs
    rw [ho.running.2.1] at hd
    cases hd

/-- The steps of others leave a worker that is not asleep as it is, and the tasks in its hands. -/
theorem worker_step (hs : s.step n a = some t) (hw : (s.workers w).isSleeping = false) (ha : ¬ OfWorker w a) :
    t.workers w = s.workers w := by
  obtain ⟨-, hs⟩ := Option.ite_none_left_eq_some.mp hs
  have hset (v : Nat) (x : Worker α) (hv : v ≠ w) : (s.setWorker v x).workers w = s.workers w :=
    Function.update_of_ne (Ne.symm hv) _ _
  have hasleep (v : Nat) (hv : (s.workers v).isSleeping) : v ≠ w := by
    rintro rfl
    rw [hw] at hv
    cases hv
  cases a with
  | postTask task =>
    obtain rfl := Option.some.inj hs
    cases task with
    | none => rfl
    | some task =>
      rw [postTask]
      split <;> rfl
  | notifyOne worker =>
    obtain ⟨k, -, ⟨v, -, -, hv, rfl⟩ | ⟨-, rfl⟩⟩ := notifyOne_cases hs
    · exact hset v _ (hasleep v hv)
    · rfl
  | postTaskToAllWorkers task =>
    obtain rfl := Option.some.inj hs
    cases task with
    | none => rfl
    | some task => exact not_sleeping_notified _ hw
  | wake v =>
    obtain ⟨hv, hs⟩ := Option.ite_none_right_eq_some.mp hs
    obtain rfl := Option.some.inj hs
    exact hset v _ (hasleep v hv)
  | take v =>
    have hv : v ≠ w := by
      rintro rfl
      exact ha (.inl rfl)
    rw [apply] at hs
    split at hs
    · obtain rfl := Option.some.inj (Option.ite_none_right_eq_some.mp hs).2
      rw [take]
      split
      · exact Function.update_of_ne (Ne.symm hv) _ _
      · exact hset v _ hv
    · cases hs
    · cases hs
    · cases hs
  | proceed v =>
    have hv : v ≠ w := by
      rintro rfl
      exact ha (.inr rfl)
    have hs : s.proceed v = some t := hs
    rw [proceed] at hs
    split at hs
    · obtain rfl := Option.some.inj hs
      exact hset v _ hv
    · obtain rfl := Option.some.inj hs
      exact hset v _ hv
    · obtain rfl := Option.some.inj hs
      exact hset v _ hv
    · cases hs
    · cases hs
    · cases hs
  | terminate =>
    obtain rfl := Option.some.inj hs
    exact not_sleeping_notified _ hw
  | destroy =>
    obtain rfl := Option.some.inj (Option.ite_none_left_eq_some.mp hs).2
    exact not_sleeping_notified _ hw
  | join =>
    obtain rfl := Option.some.inj (Option.ite_none_right_eq_some.mp hs).2
    rfl

/-- What is posted, taken and executed, is added at the ends of the lists. -/
structure Grows (r u : ConcurrentMessageLoop α × History α) : Prop where
  tasks : r.2.tasks <+: u.2.tasks
  toAllWorkers : r.2.toAllWorkers <+: u.2.toAllWorkers
  taken : r.2.taken <+: u.2.taken
  ranTasks : r.1.ranTasks <+: u.1.ranTasks
  ranThreadTasks : r.1.ranThreadTasks <+: u.1.ranThreadTasks

theorem Grows.refl (r : ConcurrentMessageLoop α × History α) : Grows r r :=
  ⟨List.prefix_rfl, List.prefix_rfl, List.prefix_rfl, List.prefix_rfl, List.prefix_rfl⟩

theorem Grows.trans {r u v : ConcurrentMessageLoop α × History α} (h : Grows r u) (g : Grows u v) : Grows r v :=
  ⟨h.tasks.trans g.tasks, h.toAllWorkers.trans g.toAllWorkers, h.taken.trans g.taken, h.ranTasks.trans g.ranTasks,
    h.ranThreadTasks.trans g.ranThreadTasks⟩

theorem ran_step (hs : s.step n a = some t) : s.ranTasks <+: t.ranTasks ∧ s.ranThreadTasks <+: t.ranThreadTasks := by
  have hsame (u : ConcurrentMessageLoop α) (hu : u.ranTasks = s.ranTasks ∧ u.ranThreadTasks = s.ranThreadTasks) :
      s.ranTasks <+: u.ranTasks ∧ s.ranThreadTasks <+: u.ranThreadTasks :=
    ⟨hu.1 ▸ List.prefix_rfl, hu.2 ▸ List.prefix_rfl⟩
  obtain ⟨-, hs⟩ := Option.ite_none_left_eq_some.mp hs
  cases a with
  | postTask task =>
    obtain rfl := Option.some.inj hs
    cases task with
    | none => exact hsame _ ⟨rfl, rfl⟩
    | some task =>
      rw [postTask]
      split <;> exact hsame _ ⟨rfl, rfl⟩
  | notifyOne worker =>
    obtain ⟨k, -, ⟨v, -, -, -, rfl⟩ | ⟨-, rfl⟩⟩ := notifyOne_cases hs <;> exact hsame _ ⟨rfl, rfl⟩
  | postTaskToAllWorkers task =>
    obtain rfl := Option.some.inj hs
    cases task <;> exact hsame _ ⟨rfl, rfl⟩
  | wake v =>
    obtain rfl := Option.some.inj (Option.ite_none_right_eq_some.mp hs).2
    exact hsame _ ⟨rfl, rfl⟩
  | take v =>
    rw [apply] at hs
    split at hs
    · obtain rfl := Option.some.inj (Option.ite_none_right_eq_some.mp hs).2
      rw [take]
      split <;> exact hsame _ ⟨rfl, rfl⟩
    · cases hs
    · cases hs
    · cases hs
  | proceed v =>
    have hs : s.proceed v = some t := hs
    rw [proceed] at hs
    split at hs
    · obtain rfl := Option.some.inj hs
      exact ⟨List.prefix_append _ _, List.prefix_rfl⟩
    · obtain rfl := Option.some.inj hs
      exact ⟨List.prefix_rfl, List.prefix_append _ _⟩
    · obtain rfl := Option.some.inj hs
      exact hsame _ ⟨rfl, rfl⟩
    · cases hs
    · cases hs
    · cases hs
  | terminate =>
    obtain rfl := Option.some.inj hs
    exact hsame _ ⟨rfl, rfl⟩
  | destroy =>
    obtain rfl := Option.some.inj (Option.ite_none_left_eq_some.mp hs).2
    exact hsame _ ⟨rfl, rfl⟩
  | join =>
    obtain rfl := Option.some.inj (Option.ite_none_right_eq_some.mp hs).2
    exact hsame _ ⟨rfl, rfl⟩

theorem grows_step (hs : s.step n a = some t) : Grows (s, h) (t, record s a t h) := by
  obtain ⟨htasks, hthread⟩ := ran_step hs
  have hh : h.tasks <+: (record s a t h).tasks ∧ h.toAllWorkers <+: (record s a t h).toAllWorkers ∧
      h.taken <+: (record s a t h).taken := by
    unfold record
    split
    · split
      · exact ⟨List.prefix_rfl, List.prefix_rfl, List.prefix_rfl⟩
      · exact ⟨List.prefix_append _ _, List.prefix_rfl, List.prefix_rfl⟩
    · exact ⟨List.prefix_rfl, List.prefix_append _ _, List.prefix_rfl⟩
    · exact ⟨List.prefix_rfl, List.prefix_rfl, List.prefix_append _ _⟩
    · split <;> exact ⟨List.prefix_rfl, List.prefix_rfl, List.prefix_rfl⟩
    · split <;> exact ⟨List.prefix_rfl, List.prefix_rfl, List.prefix_rfl⟩
    · exact ⟨List.prefix_rfl, List.prefix_rfl, List.prefix_rfl⟩
  exact ⟨hh.1, hh.2.1, hh.2.2, htasks, hthread⟩

section
variable {count : Nat} {e : (recorded count α).Endless} {k : Nat}

/-- The state of the loop and the history, some way into a run. -/
theorem step_of_endless (e : (recorded count α).Endless) (m : Nat) :
    (e.state m).1.step (workerCount count) (e.label m) = some (e.state (m + 1)).1 ∧
      (e.state (m + 1)).2 = record (e.state m).1 (e.label m) (e.state (m + 1)).1 (e.state m).2 :=
  Machine.withHistory_step (g := (e.state m).2) (e.step m)

theorem grows (e : (recorded count α).Endless) {m : Nat} (hm : k ≤ m) : Grows (e.state k) (e.state m) := by
  induction m, hm using Nat.le_induction with
  | base => exact .refl _
  | succ m _ ih =>
    obtain ⟨hs, hh⟩ := step_of_endless e m
    have hg := grows_step (h := (e.state m).2) hs
    rw [← hh] at hg
    exact ih.trans hg

/-- Nobody shuts the loop down, what is notified is notified in the end, and no worker rests that can go on. -/
structure GoesOn (e : (recorded count α).Endless) : Prop where
  start : e.state 0 = (recorded count α).init
  stays : ∀ m, ¬ Ends (e.label m)
  notifies : e.WeakFair fun a => ∃ worker, a = .notifyOne worker
  workers : ∀ w < workerCount count, e.WeakFair (OfWorker w)

theorem workerCount_pos : 0 < workerCount count := Nat.lt_of_lt_of_le Nat.zero_lt_one (le_max_right _ _)

theorem GoesOn.isOpen (he : GoesOn e) (m : Nat) : Open (workerCount count) (e.state m).1 (e.state m).2 := by
  induction m with
  | zero =>
    rw [he.start]
    exact ⟨init_inv, ⟨rfl, rfl, rfl⟩, fun hne => absurd rfl hne, fun w hw => absurd hw Bool.false_ne_true⟩
  | succ m ih =>
    obtain ⟨hs, hh⟩ := step_of_endless e m
    rw [hh]
    exact ih.step workerCount_pos (he.stays m) hs

/-- What a worker does that is not asleep. -/
theorem OfWorker.step_cases (ha : OfWorker w a) (ho : Open n s h) (hw : (s.workers w).isSleeping = false)
    (hs : s.step n a = some t) : (a = .take w ∧ s.workers w = .awake ∧ w < n ∧ t = s.take w) ∨
      ∃ task threadTasks, s.workers w = .running task threadTasks false ∧ s.proceed w = some t := by
  have hlast := ho.last w
  obtain ⟨-, hs⟩ := Option.ite_none_left_eq_some.mp hs
  rcases ha with rfl | rfl
  · rw [apply] at hs
    split at hs
    next hawake =>
      obtain ⟨hlt, hs⟩ := Option.ite_none_right_eq_some.mp hs
      exact .inl ⟨rfl, hawake, hlt, (Option.some.inj hs).symm⟩
    · cases hs
    · cases hs
    · cases hs
  · have hs : s.proceed w = some t := hs
    cases hv : s.workers w with
    | sleeping => simp [hv, Worker.isSleeping] at hw
    | awake => simp [proceed, hv] at hs
    | running task threadTasks shutdownNow =>
      rw [hv] at hlast
      obtain rfl : shutdownNow = false := hlast
      exact .inr ⟨task, threadTasks, rfl, hs⟩
    | exited => simp [hv, Worker.last] at hlast

theorem exists_proceed {task : Option α} {threadTasks : List α} {shutdownNow : Bool}
    (hv : s.workers w = .running task threadTasks shutdownNow) : ∃ t, s.proceed w = some t := by
  rw [proceed, hv]
  cases task with
  | some task => exact ⟨_, rfl⟩
  | none => cases threadTasks <;> exact ⟨_, rfl⟩

theorem exists_ofWorker_step (ho : Open n s h) (hlt : w < n) (hw : (s.workers w).isSleeping = false) :
    ∃ a t, OfWorker w a ∧ s.step n a = some t := by
  have hd : s.destroyed = false := ho.running.2.2
  cases hv : s.workers w with
  | sleeping => simp [hv, Worker.isSleeping] at hw
  | awake => exact ⟨.take w, s.take w, .inl rfl, by simp [step, apply, hd, hv, hlt]⟩
  | running task threadTasks shutdownNow =>
    obtain ⟨t, ht⟩ := exists_proceed hv
    exact ⟨.proceed w, t, .inr rfl, (if_neg (by simp [hd])).trans ht⟩
  | exited =>
    have hlast := ho.last w
    simp [hv, Worker.last] at hlast

/-- The steps that a worker is away from the mutex. -/
def remaining : Worker α → Nat
  | .running task threadTasks _ => task.toList.length + threadTasks.length + 1
  | .sleeping | .awake | .exited => 0

theorem remaining_proceed {task : Option α} {threadTasks : List α} (hv : s.workers w = .running task threadTasks false)
    (hs : s.proceed w = some t) :
    (t.workers w).isSleeping = false ∧ remaining (t.workers w) < remaining (s.workers w) := by
  rw [proceed, hv] at hs
  cases task with
  | some task =>
    obtain rfl := Option.some.inj hs
    simp [setWorker, hv, Worker.isSleeping, remaining]
  | none =>
    cases threadTasks with
    | cons task threadTasks =>
      obtain rfl := Option.some.inj hs
      simp [setWorker, hv, Worker.isSleeping, remaining]
    | nil =>
      obtain rfl := Option.some.inj hs
      simp [setWorker, hv, Worker.isSleeping, remaining]

/-- `T` tasks were taken of the queue, and there are more. -/
def Waiting (T : Nat) (r : ConcurrentMessageLoop α × History α) : Prop :=
  r.2.taken.length = T ∧ T < r.2.tasks.length

theorem Waiting.tasks_ne_nil {T : Nat} (hwait : Waiting T (s, h)) (hi : Inv n s h) : s.tasks ≠ [] := by
  have hqueue := congrArg List.length hi.queue
  rw [List.length_append, List.length_map] at hqueue
  intro hnil
  rw [hnil, List.length_nil, Nat.add_zero, hwait.1] at hqueue
  exact hwait.2.ne' hqueue

theorem Waiting.step {T : Nat} {r u : ConcurrentMessageLoop α × History α} (hwait : Waiting T r) (hg : Grows r u) :
    Waiting T u ∨ T < u.2.taken.length := by
  rcases (hwait.1 ▸ hg.taken.length_le).eq_or_lt with heq | hlt
  · exact .inl ⟨heq.symm, hwait.2.trans_le hg.tasks.length_le⟩
  · exact .inr hlt

/-- A worker that is not asleep comes for what is in the queue, unless another one does before it. -/
theorem GoesOn.takes_of_awake (he : GoesOn e) {T : Nat} (hlt : w < workerCount count) (hwait : Waiting T (e.state k))
    (hw : ((e.state k).1.workers w).isSleeping = false) : ∃ m, k < m ∧ T < (e.state m).2.taken.length := by
  apply (he.workers w hlt).leads_to_of_rank (fun r => remaining (r.1.workers w))
    (P := fun r => Open (workerCount count) r.1 r.2 ∧ Waiting T r ∧ (r.1.workers w).isSleeping = false)
    (Q := fun r => T < r.2.taken.length)
  · rintro ⟨s, h⟩ ⟨ho, -, hw⟩
    obtain ⟨a, t, ha, ht⟩ := exists_ofWorker_step ho hlt hw
    exact ⟨a, _, ha, Option.map_eq_some_iff.mpr ⟨t, ht, rfl⟩⟩
  · rintro m - ⟨ho, hwait, hw⟩ ha
    obtain ⟨hs, hh⟩ := step_of_endless e m
    rcases ha.step_cases ho hw hs with ⟨hlabel, -, -, -⟩ | ⟨task, threadTasks, hv, hproceed⟩
    · right
      obtain ⟨task, tasks, htasks⟩ := List.exists_cons_of_ne_nil (hwait.tasks_ne_nil ho.inv)
      rw [hh, hlabel, record, htasks]
      simp [hwait.1]
    · obtain ⟨hnext, hlower⟩ := remaining_proceed hv hproceed
      exact (hwait.step (grows e (Nat.le_succ m))).imp_left fun hnow => ⟨⟨he.isOpen _, hnow, hnext⟩, hlower⟩
  · rintro m - ⟨ho, hwait, hw⟩ ha
    obtain ⟨hs, -⟩ := step_of_endless e m
    have hsame := worker_step hs hw ha
    refine (hwait.step (grows e (Nat.le_succ m))).imp_left fun hnow => ⟨⟨he.isOpen _, hnow, ?_⟩, ?_⟩
    · rw [hsame]
      exact hw
    · exact (congrArg remaining hsame).le
  · exact ⟨he.isOpen k, hwait, hw⟩

/-- Where all workers sleep, a notification is to come. -/
theorem GoesOn.wakes (he : GoesOn e) {T : Nat} (hwait : Waiting T (e.state k)) :
    ∃ m, k ≤ m ∧ (T < (e.state m).2.taken.length ∨
      Waiting T (e.state m) ∧ ∃ w < workerCount count, ((e.state m).1.workers w).isSleeping = false) := by
  by_cases hawake : ∃ w < workerCount count, ((e.state k).1.workers w).isSleeping = false
  · exact ⟨k, le_rfl, .inr ⟨hwait, hawake⟩⟩
  have hstep (m : Nat) (hwait : Waiting T (e.state m)) := hwait.step (grows e (Nat.le_succ m))
  refine Exists.imp (fun m hm => ⟨hm.1.le, hm.2⟩) (he.notifies.leads_to_of_rank (fun _ => 0) (n := k)
    (P := fun r => Open (workerCount count) r.1 r.2 ∧ Waiting T r ∧
      ¬ ∃ w < workerCount count, (r.1.workers w).isSleeping = false)
    (Q := fun r => T < r.2.taken.length ∨ Waiting T r ∧ ∃ w < workerCount count, (r.1.workers w).isSleeping = false)
    ?_ ?_ ?_ ⟨he.isOpen k, hwait, hawake⟩)
  · rintro ⟨s, h⟩ ⟨ho, hwait, hall⟩
    have hnotifies := (ho.busy (hwait.tasks_ne_nil ho.inv)).resolve_right hall
    obtain ⟨j, hj⟩ : ∃ j, s.notifies = j + 1 := Nat.exists_eq_succ_of_ne_zero hnotifies.ne'
    have hsleeping : (s.workers 0).isSleeping = true := by
      by_contra hne
      exact hall ⟨0, workerCount_pos, Bool.eq_false_iff.mpr hne⟩
    refine ⟨.notifyOne (some 0), _, ⟨_, rfl⟩,
      Option.map_eq_some_iff.mpr ⟨{ s.setWorker 0 .awake with notifies := j }, ?_, rfl⟩⟩
    have hn : 0 < workerCount count := workerCount_pos
    have hd : s.destroyed = false := ho.running.2.2
    simp [machine, step, apply, notifyOne, hd, hj, hsleeping, hn]
  · rintro m - ⟨ho, hwait, hall⟩ ⟨worker, hlabel⟩
    refine .inr ((hstep m hwait).symm.imp_right fun hnow => ⟨hnow, ?_⟩)
    obtain ⟨hs, -⟩ := step_of_endless e m
    rw [hlabel] at hs
    obtain ⟨j, -, ⟨v, -, hv, -, ht⟩ | ⟨hnone, -⟩⟩ := notifyOne_cases (Option.ite_none_left_eq_some.mp hs).2
    · refine ⟨v, hv, ?_⟩
      rw [ht]
      exact (isSleeping_update v).trans (if_pos rfl)
    · exact absurd ⟨0, workerCount_pos, hnone 0 workerCount_pos⟩ hall
  · rintro m - ⟨ho, hwait, hall⟩ -
    by_cases hnext : ∃ w < workerCount count, ((e.state (m + 1)).1.workers w).isSleeping = false
    · exact .inr ((hstep m hwait).symm.imp_right fun hnow => ⟨hnow, hnext⟩)
    · rcases hstep m hwait with hnow | htaken
      · exact .inl ⟨⟨he.isOpen _, hnow, hnext⟩, le_rfl⟩
      · exact .inr (.inl htaken)

/-- Each task that is posted to the queue is taken. -/
theorem GoesOn.takes (he : GoesOn e) (k : Nat) :
    ∃ m, k ≤ m ∧ (e.state k).2.tasks <+: (e.state m).2.taken.map (·.2) := by
  have hcount : ∀ i, i ≤ (e.state k).2.tasks.length → ∃ m, k ≤ m ∧ i ≤ (e.state m).2.taken.length := by
    intro i
    induction i with
    | zero => exact fun _ => ⟨k, le_rfl, Nat.zero_le _⟩
    | succ i ih =>
      intro hi
      obtain ⟨m, hm, htaken⟩ := ih (Nat.le_of_succ_le hi)
      rcases htaken.eq_or_lt with heq | hlt
      · have hwait : Waiting i (e.state m) := ⟨heq.symm, hi.trans (grows e hm).tasks.length_le⟩
        obtain ⟨l, hl, hnow | ⟨hwait, w, hw, hawake⟩⟩ := he.wakes hwait
        · exact ⟨l, hm.trans hl, hnow⟩
        · obtain ⟨j, hj, hnow⟩ := he.takes_of_awake hw hwait hawake
          exact ⟨j, (hm.trans hl).trans hj.le, hnow⟩
      · exact ⟨m, hm, hlt⟩
  obtain ⟨m, hm, hlength⟩ := hcount _ le_rfl
  refine ⟨m, hm, List.prefix_of_prefix_length_le (grows e hm).tasks ?_ (by rwa [List.length_map])⟩
  rw [(he.isOpen m).inv.queue]
  exact List.prefix_append _ _

/-- A task that a worker has in its hands is executed. -/
theorem GoesOn.executes (he : GoesOn e) (hlt : w < workerCount count) (k : Nat) :
    ∃ m, k ≤ m ∧ ranBy w (e.state k).2.taken <+: ranBy w (e.state m).1.ranTasks := by
  have hfree : ∃ m, k ≤ m ∧ ((e.state m).1.workers w).task = none := by
    cases htask : ((e.state k).1.workers w).task with
    | none => exact ⟨k, le_rfl, htask⟩
    | some task =>
      have hbusy (s : ConcurrentMessageLoop α) (hx : (s.workers w).task ≠ none) :
        (s.workers w).isSleeping = false := by
        cases hv : s.workers w with
        | sleeping => simp [hv, Worker.task] at hx
        | awake | running _ _ _ | exited => rfl
      refine Exists.imp (fun m hm => ⟨hm.1.le, hm.2⟩) ((he.workers w hlt).leads_to (n := k)
        (P := fun r => Open (workerCount count) r.1 r.2 ∧ (r.1.workers w).task ≠ none)
        (Q := fun r => (r.1.workers w).task = none) ?_ ?_ ?_ ⟨he.isOpen k, by simp [htask]⟩)
      · rintro ⟨s, h⟩ ⟨ho, hx⟩
        obtain ⟨a, t, ha, ht⟩ := exists_ofWorker_step ho hlt (hbusy s hx)
        exact ⟨a, _, ha, Option.map_eq_some_iff.mpr ⟨t, ht, rfl⟩⟩
      · rintro m ⟨ho, hx⟩ ha
        obtain ⟨hs, -⟩ := step_of_endless e m
        rcases ha.step_cases ho (hbusy _ hx) hs with ⟨-, hawake, -, -⟩ | ⟨task, threadTasks, hv, hproceed⟩
        · simp [hawake, Worker.task] at hx
        · cases task with
          | none => simp [hv, Worker.task] at hx
          | some task =>
            rw [proceed, hv] at hproceed
            rw [← Option.some.inj hproceed]
            simp [setWorker, Worker.task]
      · rintro m ⟨ho, hx⟩ ha
        refine ⟨he.isOpen _, ?_⟩
        rw [worker_step (step_of_endless e m).1 (hbusy _ hx) ha]
        exact hx
  obtain ⟨m, hm, htask⟩ := hfree
  have hhandled := (he.isOpen m).inv.handled w
  rw [htask, Option.toList_none, List.append_nil] at hhandled
  refine ⟨m, hm, ?_⟩
  rw [hhandled]
  exact ((grows e hm).taken.filter _).map _

/-- How far a worker with tasks of its own is from the next of them. -/
def phase : Worker α → Nat
  | .running none (_ :: _) _ => 0
  | .running (some _) (_ :: _) _ => 1
  | .awake => 2
  | .running none [] _ => 3
  | .running (some _) [] _ => 4
  | .sleeping | .exited => 5

/-- A worker with tasks of its own left does not sleep. -/
theorem Open.awake_of_short (ho : Open n s h) (hlt : w < n)
    (hshort : (ranBy w s.ranThreadTasks).length < h.toAllWorkers.length) : (s.workers w).isSleeping = false := by
  have hown := congrArg List.length (ho.inv.own w hlt)
  cases hv : s.workers w with
  | sleeping =>
    have hnone := ho.own w (by simp [hv, Worker.isSleeping])
    simp [hv, Worker.threadTasks, hnone] at hown
    omega
  | awake | running _ _ _ | exited => rfl

/-- A worker that is short of `R` of its tasks goes on to the next of them. -/
theorem ownTask_step {R : Nat} (ho : Open n s h) (hlt : w < n) (hshort : (ranBy w s.ranThreadTasks).length < R)
    (hposted : R ≤ h.toAllWorkers.length) (ha : OfWorker w a) (hs : s.step n a = some t) :
    5 * (R - (ranBy w t.ranThreadTasks).length) + phase (t.workers w) <
      5 * (R - (ranBy w s.ranThreadTasks).length) + phase (s.workers w) ∨ R ≤ (ranBy w t.ranThreadTasks).length := by
  have hown := congrArg List.length (ho.inv.own w hlt)
  simp only [List.length_append] at hown
  rcases ha.step_cases ho (ho.awake_of_short hlt (hshort.trans_le hposted)) hs with
    ⟨-, hv, -, rfl⟩ | ⟨task, threadTasks, hv, hproceed⟩
  · left
    cases hmine : s.threadTasks w with
    | none =>
      simp [hv, Worker.threadTasks, hmine] at hown
      omega
    | some threadTasks =>
      cases threadTasks with
      | nil =>
        simp [hv, Worker.threadTasks, hmine] at hown
        omega
      | cons first rest =>
        have ht : s.take w = _ := if_pos (by simp [hasThreadTasksLocked, hmine])
        rw [ht, hv]
        cases s.tasks.head? <;> simp [hmine, phase]
  · rw [proceed, hv] at hproceed
    rw [hv]
    cases task with
    | some task =>
      left
      rw [← Option.some.inj hproceed]
      cases threadTasks <;> simp [setWorker, phase]
    | none =>
      cases threadTasks with
      | cons first rest =>
        rw [← Option.some.inj hproceed]
        have hran : (ranBy w (s.ranThreadTasks ++ [(w, first)])).length = (ranBy w s.ranThreadTasks).length + 1 := by
          simp [ranBy]
        have hphase : phase (.running (none : Option α) rest false) ≤ 3 := by cases rest <;> simp [phase]
        have hzero : phase (.running none (first :: rest) false) = 0 := rfl
        simp only [setWorker, Function.update_self, hran, hzero]
        omega
      | nil =>
        left
        rw [← Option.some.inj hproceed]
        simp [setWorker, phase]

/-- Each worker executes each task that is posted for all of them. -/
theorem GoesOn.executesOwn (he : GoesOn e) (hlt : w < workerCount count) (k : Nat) :
    ∃ m, k ≤ m ∧ (e.state k).2.toAllWorkers <+: ranBy w (e.state m).1.ranThreadTasks := by
  obtain ⟨m, hm, hran⟩ : ∃ m, k ≤ m ∧
      (e.state k).2.toAllWorkers.length ≤ (ranBy w (e.state m).1.ranThreadTasks).length := by
    by_cases hnow : (e.state k).2.toAllWorkers.length ≤ (ranBy w (e.state k).1.ranThreadTasks).length
    · exact ⟨k, le_rfl, hnow⟩
    refine Exists.imp (fun m hm => ⟨hm.1.le, hm.2⟩) ((he.workers w hlt).leads_to_of_rank
      (fun r => 5 * ((e.state k).2.toAllWorkers.length - (ranBy w r.1.ranThreadTasks).length) + phase (r.1.workers w))
      (P := fun r => Open (workerCount count) r.1 r.2 ∧ (e.state k).2.toAllWorkers.length ≤ r.2.toAllWorkers.length ∧
        (ranBy w r.1.ranThreadTasks).length < (e.state k).2.toAllWorkers.length)
      (Q := fun r => (e.state k).2.toAllWorkers.length ≤ (ranBy w r.1.ranThreadTasks).length)
      (n := k) ?_ ?_ ?_ ⟨he.isOpen k, le_rfl, Nat.lt_of_not_le hnow⟩)
    · rintro ⟨s, h⟩ ⟨ho, hposted, hshort⟩
      obtain ⟨a, t, ha, ht⟩ := exists_ofWorker_step ho hlt (ho.awake_of_short hlt (hshort.trans_le hposted))
      exact ⟨a, _, ha, Option.map_eq_some_iff.mpr ⟨t, ht, rfl⟩⟩
    · rintro m - ⟨ho, hposted, hshort⟩ ha
      have hlater := hposted.trans (grows e (Nat.le_succ m)).toAllWorkers.length_le
      rcases ownTask_step ho hlt hshort hposted ha (step_of_endless e m).1 with hlower | hdone
      · exact (Nat.lt_or_ge _ _).imp_left fun hstill => ⟨⟨he.isOpen _, hlater, hstill⟩, hlower⟩
      · exact .inr hdone
    · rintro m - ⟨ho, hposted, hshort⟩ ha
      have hlater := hposted.trans (grows e (Nat.le_succ m)).toAllWorkers.length_le
      have hsame := worker_step (step_of_endless e m).1 (ho.awake_of_short hlt (hshort.trans_le hposted)) ha
      have hmore : (ranBy w (e.state m).1.ranThreadTasks).length ≤
        (ranBy w (e.state (m + 1)).1.ranThreadTasks).length :=
        (((grows e (Nat.le_succ m)).ranThreadTasks.filter _).map _).length_le
      refine (Nat.lt_or_ge _ _).imp_left fun hstill => ⟨⟨he.isOpen _, hlater, hstill⟩, ?_⟩
      rw [hsame]
      exact Nat.add_le_add_right (Nat.mul_le_mul_left _ (Nat.sub_le_sub_left hmore _)) _
  refine ⟨m, hm, List.prefix_of_prefix_length_le (grows e hm).toAllWorkers ?_ hran⟩
  rw [← (he.isOpen m).inv.own w hlt, List.append_assoc]
  exact List.prefix_append _ _

end

/-- Executions are compared worker by worker. -/
theorem subperm_of_ranBy {l m : List (Nat × α)} (h : ∀ w, ranBy w l <+: ranBy w m) :
    (l.map (·.2)).Subperm (m.map (·.2)) := by
  classical
  have hcount (k : List (Nat × α)) (w : Nat) (x : α) : k.count (w, x) = (ranBy w k).count x := by
    rw [ranBy, List.count_eq_countP, List.count_eq_countP, List.countP_map, List.countP_filter]
    refine List.countP_congr fun e _ => ?_
    simp [Prod.ext_iff, and_comm]
  obtain ⟨k, hk, hsub⟩ : l.Subperm m := by
    refine List.subperm_ext_iff.mpr fun e _ => ?_
    rcases e with ⟨w, x⟩
    rw [hcount, hcount]
    exact (h w).sublist.count_le x
  exact ⟨k.map (·.2), hk.map _, hsub.map _⟩

/-- As long as nobody shuts the loop down, nothing is executed twice, and all that was posted is executed in the end: a
task of the queue by one of the workers, a task for all of them by each, in the order of the posts. -/
theorem executes_all {count : Nat} {e : (recorded count α).Endless} (he : GoesOn e) (k : Nat) :
    (((e.state k).1.ranTasks.map (·.2)).Subperm (e.state k).2.tasks ∧
      ∀ w < workerCount count, ranBy w (e.state k).1.ranThreadTasks <+: (e.state k).2.toAllWorkers) ∧
    ∃ m, k ≤ m ∧ (e.state k).2.tasks.Subperm ((e.state m).1.ranTasks.map (·.2)) ∧
      ∀ w < workerCount count, (e.state k).2.toAllWorkers <+: ranBy w (e.state m).1.ranThreadTasks := by
  have hinv (m : Nat) := (he.isOpen m).inv
  constructor
  · constructor
    · rw [(hinv k).queue]
      refine (subperm_of_ranBy fun w => ?_).trans (List.sublist_append_left _ _).subperm
      rw [← (hinv k).handled w]
      exact List.prefix_append _ _
    · intro w hw
      rw [← (hinv k).own w hw, List.append_assoc]
      exact List.prefix_append _ _
  obtain ⟨j, hj, htaken⟩ := he.takes k
  have htasks : ∀ᶠ m in Filter.atTop, ∀ w ∈ Finset.range (workerCount count),
      ranBy w (e.state j).2.taken <+: ranBy w (e.state m).1.ranTasks := by
    refine (Filter.eventually_all_finset _).mpr fun w hw => Filter.eventually_atTop.mpr ?_
    obtain ⟨m, -, hm⟩ := he.executes (Finset.mem_range.mp hw) j
    exact ⟨m, fun l hl => hm.trans (((grows e hl).ranTasks.filter _).map _)⟩
  have hown : ∀ᶠ m in Filter.atTop, ∀ w ∈ Finset.range (workerCount count),
      (e.state k).2.toAllWorkers <+: ranBy w (e.state m).1.ranThreadTasks := by
    refine (Filter.eventually_all_finset _).mpr fun w hw => Filter.eventually_atTop.mpr ?_
    obtain ⟨m, -, hm⟩ := he.executesOwn (Finset.mem_range.mp hw) k
    exact ⟨m, fun l hl => hm.trans (((grows e hl).ranThreadTasks.filter _).map _)⟩
  obtain ⟨m, hm, hran, hran'⟩ := ((Filter.eventually_ge_atTop j).and (htasks.and hown)).exists
  refine ⟨m, hj.trans hm, htaken.sublist.subperm.trans (subperm_of_ranBy fun w => ?_),
    fun w hw => hran' w (by simpa using hw)⟩
  by_cases hw : w < workerCount count
  · exact hran w (by simpa using hw)
  · have hj := (hinv j).handled w
    rw [(hinv j).outside w (Nat.le_of_not_lt hw), Option.toList_none, List.append_nil] at hj
    rw [← hj]
    exact ((grows e hm).ranTasks.filter _).map _

/-- Two workers that execute what they have, and sleep again. -/
def runUntilAsleep : List (Label Nat) :=
  [.take 0, .take 1, .postTask (some 1), .notifyOne (some 1), .postTaskToAllWorkers (some 2), .take 1, .proceed 1,
    .proceed 1, .proceed 1, .take 1, .take 0, .proceed 0, .proceed 0, .take 0]

theorem executes_all_asleep : ∃ e : (recorded 2 Nat).Endless, ∃ k m, k ≤ m ∧ (e.state k).2.tasks = [1] ∧
    (e.state k).2.tasks.Subperm ((e.state m).1.ranTasks.map (·.2)) ∧
      ∀ w < 2, (e.state k).2.toAllWorkers <+: ranBy w (e.state m).1.ranThreadTasks := by
  obtain ⟨s, hr, hidle, hnotifies, h0, h1, htasks⟩ : ∃ s, (recorded 2 Nat).run runUntilAsleep = some s ∧
      (recorded 2 Nat).step s (.postTask none) = some s ∧ s.1.notifies = 0 ∧ s.1.workers 0 = .sleeping ∧
      s.1.workers 1 = .sleeping ∧ s.2.tasks = [1] := ⟨_, rfl, rfl, rfl, rfl, rfl, rfl⟩
  obtain ⟨e, hstart, hlabels, hend⟩ := Machine.exists_endless hr hidle
  have hstays : ∀ m, ¬ Ends (e.label m) := by
    intro m
    by_cases hm : m < runUntilAsleep.length
    · have hnone : ∀ a ∈ runUntilAsleep, ¬ Ends a := by simp [runUntilAsleep, Ends]
      exact hnone _ (hlabels m hm ▸ List.getElem_mem hm)
    · simp [(hend m (Nat.le_of_not_lt hm)).2, Ends]
  have hnotify : e.WeakFair fun a => ∃ worker, a = .notifyOne worker := by
    refine Machine.Endless.weakFair_of_idle (fun m hm => (hend m hm).1) ?_
    rintro a ⟨worker, rfl⟩
    simp [recorded, Machine.withHistory, machine, step, apply, notifyOne, hnotifies]
  have hworker : ∀ w < workerCount 2, e.WeakFair (OfWorker w) := by
    intro w hw
    have hsleeping : s.1.workers w = .sleeping := by
      obtain rfl | rfl : w = 0 ∨ w = 1 := by simp [workerCount] at hw; omega
      · exact h0
      · exact h1
    refine Machine.Endless.weakFair_of_idle (fun m hm => (hend m hm).1) ?_
    rintro a (rfl | rfl)
    · simp [recorded, Machine.withHistory, machine, step, apply, hsleeping]
    · simp [recorded, Machine.withHistory, machine, step, apply, proceed, hsleeping]
  obtain ⟨-, m, hm, hran, hown⟩ := executes_all ⟨hstart, hstays, hnotify, hworker⟩ runUntilAsleep.length
  exact ⟨e, runUntilAsleep.length, m, hm, by rw [(hend _ le_rfl).1, htasks], hran, hown⟩

end ConcurrentMessageLoop
end Ogre.Fml
