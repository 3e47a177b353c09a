import Ogre.Library.PriorityQueue
import Mathlib.Data.Multiset.AddSub
import Mathlib.Data.Multiset.Filter

/-! Sources of tasks: a primary and a secondary heap, of which the secondary can be
paused. Closures are opaque; times are ticks of the steady clock. -/
namespace Ogre.Fml
open Ogre.Library

inductive TaskSourceGrade
  | kUserInteraction
  | kDartEventLoop
  | kUnspecified
  deriving DecidableEq, Repr

structure DelayedTask (α : Type) where
  order : Nat
  task : α
  targetTime : Int
  taskSourceGrade : TaskSourceGrade
  deriving DecidableEq, Repr

/-- `operator>`. -/
def DelayedTask.gt {α : Type} (a b : DelayedTask α) : Bool :=
  if a.targetTime = b.targetTime then a.order > b.order else a.targetTime > b.targetTime

/-- What `std::greater` makes of the heaps: of two tasks the greater is not before the other. -/
def DelayedTask.Before {α : Type} (a b : DelayedTask α) : Prop := a.gt b = false

namespace DelayedTask
variable {α : Type} {a b c : DelayedTask α}

instance : DecidableRel (Before (α := α)) := fun a b => inferInstanceAs (Decidable (a.gt b = false))

theorem before_iff : a.Before b ↔
    a.targetTime < b.targetTime ∨ a.targetTime = b.targetTime ∧ a.order ≤ b.order := by
  unfold Before gt
  split <;> simp <;> omega

instance : Std.Total (Before (α := α)) where
  total a b := by
    rw [before_iff, before_iff]
    omega

instance : IsTrans (DelayedTask α) Before where
  trans a b c := by
    rw [before_iff, before_iff, before_iff]
    omega

theorem Before.targetTime (h : a.Before b) : a.targetTime ≤ b.targetTime := by
  rw [before_iff] at h
  omega

theorem before_of_gt (h : a.gt b = true) : b.Before a := by
  have hab : ¬ a.Before b := by simp [Before, h]
  exact (Std.Total.total a b).resolve_left hab

end DelayedTask

abbrev DelayedTaskQueue (α : Type) := PriorityQueue (DelayedTask α) DelayedTask.Before

/-- The tasks of the Dart event loop are those in the secondary heap. -/
structure TaskSource (α : Type) where
  taskQueueId : Nat
  primaryTaskQueue : DelayedTaskQueue α
  secondaryTaskQueue : DelayedTaskQueue α
  secondaryPauseRequests : Int
  primary : ∀ t ∈ primaryTaskQueue.items, t.taskSourceGrade ≠ .kDartEventLoop
  secondary : ∀ t ∈ secondaryTaskQueue.items, t.taskSourceGrade = .kDartEventLoop

structure TopTask (α : Type) where
  taskQueueId : Nat
  task : DelayedTask α

namespace TaskSource
variable {α : Type}

def new (taskQueueId : Nat) : TaskSource α :=
  ⟨taskQueueId, .empty, .empty, 0, by simp, by simp⟩

def shutDown (s : TaskSource α) : TaskSource α :=
  { s with primaryTaskQueue := .empty, secondaryTaskQueue := .empty, primary := by simp, secondary := by simp }

def pushPrimary (s : TaskSource α) (task : DelayedTask α) (h : task.taskSourceGrade ≠ .kDartEventLoop) :
    TaskSource α where
  taskQueueId := s.taskQueueId
  primaryTaskQueue := s.primaryTaskQueue.push task
  secondaryTaskQueue := s.secondaryTaskQueue
  secondaryPauseRequests := s.secondaryPauseRequests
  primary t ht := by
    rcases List.mem_cons.mp ((PriorityQueue.items_push _ task).mem_iff.mp ht) with rfl | ht
    · exact h
    · exact s.primary t ht
  secondary := s.secondary

def pushSecondary (s : TaskSource α) (task : DelayedTask α) (h : task.taskSourceGrade = .kDartEventLoop) :
    TaskSource α where
  taskQueueId := s.taskQueueId
  primaryTaskQueue := s.primaryTaskQueue
  secondaryTaskQueue := s.secondaryTaskQueue.push task
  secondaryPauseRequests := s.secondaryPauseRequests
  primary := s.primary
  secondary t ht := by
    rcases List.mem_cons.mp ((PriorityQueue.items_push _ task).mem_iff.mp ht) with rfl | ht
    · exact h
    · exact s.secondary t ht

def registerTask (s : TaskSource α) (task : DelayedTask α) : TaskSource α :=
  match h : task.taskSourceGrade with
  | .kUserInteraction => s.pushPrimary task (by simp [h])
  | .kUnspecified => s.pushPrimary task (by simp [h])
  | .kDartEventLoop => s.pushSecondary task h

def popPrimary (s : TaskSource α) : TaskSource α :=
  { s with
    primaryTaskQueue := s.primaryTaskQueue.pop
    primary := fun t ht => s.primary t (List.mem_of_mem_tail ht) }

def popSecondary (s : TaskSource α) : TaskSource α :=
  { s with
    secondaryTaskQueue := s.secondaryTaskQueue.pop
    secondary := fun t ht => s.secondary t (List.mem_of_mem_tail ht) }

def popTask (s : TaskSource α) : TaskSourceGrade → TaskSource α
  | .kUserInteraction => s.popPrimary
  | .kUnspecified => s.popPrimary
  | .kDartEventLoop => s.popSecondary

def getNumPendingTasks (s : TaskSource α) : Nat :=
  s.primaryTaskQueue.size + if s.secondaryPauseRequests = 0 then s.secondaryTaskQueue.size else 0

def isEmpty (s : TaskSource α) : Bool := s.getNumPendingTasks = 0

/-- An empty source has no top; its check fails. -/
def top (s : TaskSource α) : Option (TopTask α) :=
  if s.isEmpty then none
  else if s.secondaryPauseRequests > 0 || s.secondaryTaskQueue.items.isEmpty then
    s.primaryTaskQueue.top?.map (⟨s.taskQueueId, ·⟩)
  else if s.primaryTaskQueue.items.isEmpty then
    s.secondaryTaskQueue.top?.map (⟨s.taskQueueId, ·⟩)
  else do
    let primaryTop ← s.primaryTaskQueue.top?
    let secondaryTop ← s.secondaryTaskQueue.top?
    some ⟨s.taskQueueId, if primaryTop.gt secondaryTop then secondaryTop else primaryTop⟩

def pauseSecondary (s : TaskSource α) : TaskSource α :=
  { s with secondaryPauseRequests := s.secondaryPauseRequests + 1 }

/-- A pause that is ended without having been asked for only fails a debug check. -/
def resumeSecondary (s : TaskSource α) : TaskSource α :=
  { s with secondaryPauseRequests := s.secondaryPauseRequests - 1 }

/-- All tasks of the source, paused ones among them. -/
def tasks (s : TaskSource α) : Multiset (DelayedTask α) :=
  ↑s.primaryTaskQueue.items + ↑s.secondaryTaskQueue.items

/-- The tasks that are not paused. -/
def visible (s : TaskSource α) : List (DelayedTask α) :=
  s.primaryTaskQueue.items ++ if s.secondaryPauseRequests = 0 then s.secondaryTaskQueue.items else []

variable {s : TaskSource α} {task x : DelayedTask α} {first : TopTask α} {grade : TaskSourceGrade}

@[simp] theorem tasks_new (id : Nat) : (new id : TaskSource α).tasks = 0 := rfl
@[simp] theorem tasks_shutDown : s.shutDown.tasks = 0 := rfl
@[simp] theorem tasks_pauseSecondary : s.pauseSecondary.tasks = s.tasks := rfl
@[simp] theorem tasks_resumeSecondary : s.resumeSecondary.tasks = s.tasks := rfl
@[simp] theorem taskQueueId_new (id : Nat) : (new id : TaskSource α).taskQueueId = id := rfl
@[simp] theorem taskQueueId_shutDown : s.shutDown.taskQueueId = s.taskQueueId := rfl
@[simp] theorem taskQueueId_pauseSecondary : s.pauseSecondary.taskQueueId = s.taskQueueId := rfl
@[simp] theorem taskQueueId_resumeSecondary : s.resumeSecondary.taskQueueId = s.taskQueueId := rfl

/-- A task goes into one of the two heaps, and nothing else changes. -/
private theorem registerTask_cases (s : TaskSource α) (task : DelayedTask α) :
    (∃ h, s.registerTask task = s.pushPrimary task h) ∨ ∃ h, s.registerTask task = s.pushSecondary task h := by
  unfold registerTask
  split
  next h => exact .inl ⟨by simp [h], rfl⟩
  next h => exact .inl ⟨by simp [h], rfl⟩
  next h => exact .inr ⟨h, rfl⟩

@[simp] theorem taskQueueId_registerTask : (s.registerTask task).taskQueueId = s.taskQueueId := by
  rcases s.registerTask_cases task with ⟨_, h⟩ | ⟨_, h⟩ <;> rw [h] <;> rfl

@[simp] theorem secondaryPauseRequests_registerTask :
    (s.registerTask task).secondaryPauseRequests = s.secondaryPauseRequests := by
  rcases s.registerTask_cases task with ⟨_, h⟩ | ⟨_, h⟩ <;> rw [h] <;> rfl

@[simp] theorem tasks_registerTask : (s.registerTask task).tasks = task ::ₘ s.tasks := by
  have hpush (q : DelayedTaskQueue α) :
      (↑(q.push task).items : Multiset (DelayedTask α)) = task ::ₘ ↑q.items :=
    Multiset.coe_eq_coe.mpr (PriorityQueue.items_push q task)
  rcases s.registerTask_cases task with ⟨_, h⟩ | ⟨_, h⟩
  · rw [h, tasks, pushPrimary, hpush, Multiset.cons_add]
    rfl
  · rw [h, tasks, pushSecondary, hpush, Multiset.add_cons]
    rfl

theorem mem_visible : x ∈ s.visible ↔
    x ∈ s.primaryTaskQueue.items ∨ s.secondaryPauseRequests = 0 ∧ x ∈ s.secondaryTaskQueue.items := by
  unfold visible
  split <;> simp [*]

theorem isEmpty_iff : s.isEmpty = true ↔ s.visible = [] := by
  unfold isEmpty getNumPendingTasks visible PriorityQueue.size
  split <;> simp

@[simp] theorem visible_new (id : Nat) : (new id : TaskSource α).visible = [] := rfl
@[simp] theorem visible_shutDown : s.shutDown.visible = [] := by
  unfold visible shutDown
  split <;> rfl

@[simp] theorem taskQueueId_popTask : (s.popTask grade).taskQueueId = s.taskQueueId := by
  cases grade <;> rfl

@[simp] theorem secondaryPauseRequests_popTask :
    (s.popTask grade).secondaryPauseRequests = s.secondaryPauseRequests := by
  cases grade <;> rfl

theorem visible_popTask : (s.popTask grade).visible ⊆ s.visible := by
  intro x hx
  rw [mem_visible] at hx ⊢
  cases grade with
  | kDartEventLoop => exact hx.imp_right fun h => ⟨h.1, List.mem_of_mem_tail h.2⟩
  | kUserInteraction => exact hx.imp_left List.mem_of_mem_tail
  | kUnspecified => exact hx.imp_left List.mem_of_mem_tail

theorem mem_tasks : x ∈ s.tasks ↔ x ∈ s.primaryTaskQueue.items ∨ x ∈ s.secondaryTaskQueue.items := by
  simp [tasks]

theorem mem_tasks_of_visible (h : x ∈ s.visible) : x ∈ s.tasks :=
  mem_tasks.mpr ((mem_visible.mp h).imp_right And.right)

theorem tasks_popTask (h : x ∈ (s.popTask grade).tasks) : x ∈ s.tasks := by
  rw [mem_tasks] at h ⊢
  cases grade with
  | kDartEventLoop => exact h.imp_right List.mem_of_mem_tail
  | kUserInteraction => exact h.imp_left List.mem_of_mem_tail
  | kUnspecified => exact h.imp_left List.mem_of_mem_tail

/-- The top is on top of a heap that is not paused, and before all that is visible. -/
private theorem top_cases (h : s.top = some first) : first.taskQueueId = s.taskQueueId ∧
    (s.primaryTaskQueue.top? = some first.task ∨
      s.secondaryPauseRequests ≤ 0 ∧ s.secondaryTaskQueue.top? = some first.task) ∧
    ∀ x ∈ s.visible, first.task.Before x := by
  have hprimary (p) (hp : s.primaryTaskQueue.top? = some p) : ∀ x ∈ s.primaryTaskQueue.items, p.Before x :=
    PriorityQueue.rel_top hp
  have hsecondary (p) (hp : s.secondaryTaskQueue.top? = some p) : ∀ x ∈ s.secondaryTaskQueue.items, p.Before x :=
    PriorityQueue.rel_top hp
  unfold top at h
  split at h
  · cases h
  split at h
  next hcase =>
    obtain ⟨p, hp, rfl⟩ := Option.map_eq_some_iff.mp h
    refine ⟨rfl, .inl hp, fun x hx => ?_⟩
    rcases mem_visible.mp hx with hx | ⟨hpause, hx⟩
    · exact hprimary p hp x hx
    · simp only [hpause, gt_iff_lt, lt_irrefl, decide_false, Bool.false_or, List.isEmpty_iff] at hcase
      simp [hcase] at hx
  next hcase =>
  have hpause : s.secondaryPauseRequests ≤ 0 := by
    simp only [gt_iff_lt, Bool.or_eq_true, decide_eq_true_eq, not_or, not_lt] at hcase
    exact hcase.1
  split at h
  next hcase =>
    obtain ⟨p, hp, rfl⟩ := Option.map_eq_some_iff.mp h
    refine ⟨rfl, .inr ⟨hpause, hp⟩, fun x hx => ?_⟩
    rcases mem_visible.mp hx with hx | ⟨_, hx⟩
    · simp [List.isEmpty_iff.mp hcase] at hx
    · exact hsecondary p hp x hx
  next =>
    obtain ⟨p, hp, h⟩ := Option.bind_eq_some_iff.mp h
    obtain ⟨q, hq, h⟩ := Option.bind_eq_some_iff.mp h
    cases h
    dsimp only
    cases hgt : p.gt q with
    | false =>
      refine ⟨rfl, .inl hp, fun x hx => ?_⟩
      rcases mem_visible.mp hx with hx | ⟨_, hx⟩
      · exact hprimary p hp x hx
      · exact Trans.trans (show p.Before q from hgt) (hsecondary q hq x hx)
    | true =>
      refine ⟨rfl, .inr ⟨hpause, hq⟩, fun x hx => ?_⟩
      rcases mem_visible.mp hx with hx | ⟨_, hx⟩
      · exact Trans.trans (DelayedTask.before_of_gt hgt) (hprimary p hp x hx)
      · exact hsecondary q hq x hx

theorem top_taskQueueId (h : s.top = some first) : first.taskQueueId = s.taskQueueId := (top_cases h).1

theorem top_before (h : s.top = some first) : ∀ x ∈ s.visible, first.task.Before x := (top_cases h).2.2

/-- Where no pause was ended too often, the top is itself visible. -/
theorem top_mem_visible (h : s.top = some first) (hpause : 0 ≤ s.secondaryPauseRequests) : first.task ∈ s.visible := by
  rw [mem_visible]
  rcases (top_cases h).2.1 with hp | ⟨hle, hp⟩
  · exact .inl (PriorityQueue.mem_of_top hp)
  · exact .inr ⟨le_antisymm hle hpause, PriorityQueue.mem_of_top hp⟩

private theorem top_of_mem {q : DelayedTaskQueue α} (h : x ∈ q.items) : ∃ y, q.top? = some y :=
  ⟨_, List.head?_eq_some_head (List.ne_nil_of_mem h)⟩

/-- A source with a visible task has a top. -/
theorem exists_top (h : x ∈ s.visible) : ∃ first, s.top = some first := by
  have hempty : ¬ s.isEmpty = true := by
    rw [isEmpty_iff]
    exact List.ne_nil_of_mem h
  unfold top
  rw [if_neg hempty]
  cases hp : s.primaryTaskQueue.items with
  | nil =>
    obtain ⟨hpause, hx⟩ : s.secondaryPauseRequests = 0 ∧ x ∈ s.secondaryTaskQueue.items := by
      simpa [mem_visible, hp] using h
    obtain ⟨y, hy⟩ := top_of_mem hx
    have hne : s.secondaryTaskQueue.items ≠ [] := List.ne_nil_of_mem hx
    exact ⟨⟨s.taskQueueId, y⟩, by simp [hpause, hne, hy]⟩
  | cons p ps =>
    obtain ⟨y, hy⟩ : ∃ y, s.primaryTaskQueue.top? = some y := top_of_mem (x := p) (by simp [hp])
    split
    · exact ⟨_, by rw [hy]; rfl⟩
    next hsecondary =>
      obtain ⟨z, hz⟩ : ∃ z, s.secondaryTaskQueue.top? = some z := by
        cases hq : s.secondaryTaskQueue.items with
        | nil => simp [hq] at hsecondary
        | cons z zs => exact top_of_mem (x := z) (by simp [hq])
      exact ⟨⟨s.taskQueueId, if y.gt z then z else y⟩, by simp [hy, hz]⟩

/-- The grade of the top is that of its heap, so the task that is popped for the grade is the top. -/
theorem tasks_of_top (h : s.top = some first) :
    s.tasks = first.task ::ₘ (s.popTask first.task.taskSourceGrade).tasks := by
  rcases (top_cases h).2.1 with hp | ⟨_, hp⟩
  · have hitems := PriorityQueue.items_of_top hp
    have hmem := PriorityQueue.mem_of_top hp
    have hpop : s.popTask first.task.taskSourceGrade = s.popPrimary := by
      cases hg : first.task.taskSourceGrade with
      | kDartEventLoop => exact absurd hg (s.primary _ hmem)
      | kUserInteraction => rfl
      | kUnspecified => rfl
    rw [hpop, tasks, tasks, hitems, ← Multiset.cons_coe, Multiset.cons_add]
    rfl
  · have hitems := PriorityQueue.items_of_top hp
    have hmem := PriorityQueue.mem_of_top hp
    rw [s.secondary _ hmem, tasks, tasks, hitems, ← Multiset.cons_coe, Multiset.add_cons]
    rfl

end TaskSource
end Ogre.Fml
