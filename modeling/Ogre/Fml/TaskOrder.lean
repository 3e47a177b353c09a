import Mathlib.Data.List.MinMax
import Mathlib.Data.Prod.Lex
import Ogre.Fml.TaskClosures
import Ogre.Fml.TaskWakeups

/-! Which of the visible tasks is returned: by their times, and by the order in which
they were registered for as long as the counter of the registrations has not wrapped. -/
namespace Ogre.Fml
open Ogre.Library
variable {α β : Type}

/-- How many tasks were registered before. -/
def DelayedTask.number (x : DelayedTask (Nat × α)) : Nat := x.task.1

/-- By target time, and by registration where that is the same. -/
def DelayedTask.Precedes (x y : DelayedTask (Nat × α)) : Prop :=
  x.targetTime < y.targetTime ∨ x.targetTime = y.targetTime ∧ x.number < y.number

instance (x y : DelayedTask (Nat × α)) : Decidable (x.Precedes y) := by
  unfold DelayedTask.Precedes
  infer_instance

namespace MessageLoopTaskQueues
variable {s t : MessageLoopTaskQueues α} {a : Label α} {id q : Nat} {x y z : DelayedTask α} {now : Int}

/-- A call with its closure numbered. -/
def Label.numbered (n : Nat) (a : Label α) : Label (Nat × α) := a.map fun closure => (n, closure)

/-- The queues, where each closure that is registered carries how many were registered before. -/
def numberedMachine (α : Type) : Machine (MessageLoopTaskQueues (Nat × α)) (Label α) where
  init := (machine (Nat × α)).init
  step s a := s.step (a.numbered s.order)

/-- The runs of the queues are those with numbers, without the numbers. -/
theorem run_forget (labels : List (Label α)) :
    (machine α).run labels = ((numberedMachine α).run labels).map (map Prod.snd) := by
  have hstep (s : MessageLoopTaskQueues (Nat × α)) (a : Label α) :
      (machine α).step (s.map Prod.snd) a = ((numberedMachine α).step s a).map (map Prod.snd) := by
    have hlabel : (a.numbered s.order).map Prod.snd = a := by cases a <;> rfl
    have hmap := step_map (f := Prod.snd) s (a.numbered s.order)
    rw [hlabel] at hmap
    exact hmap
  have hinit : (machine α).init = (numberedMachine α).init.map Prod.snd := rfl
  rw [Machine.run, hinit]
  exact Machine.runFrom_map hstep

/-- The debug checks of the calls: no subsumed queue is disposed of, and no pause is ended
that was not asked for. -/
def DebugChecks (s : MessageLoopTaskQueues α) (a : Label β) (_ : MessageLoopTaskQueues α) : Prop :=
  match a with
  | .dispose id => s.subsumedBy id = none
  | .resumeSecondarySource id => ∀ e ∈ s.queueEntries id, 0 < e.taskSource.secondaryPauseRequests
  | _ => True

instance (s : MessageLoopTaskQueues α) : (a : Label β) → (t : MessageLoopTaskQueues α) → Decidable (DebugChecks s a t)
  | .dispose id, _ => inferInstanceAs (Decidable (s.subsumedBy id = none))
  | .resumeSecondarySource id, _ =>
    inferInstanceAs (Decidable (∀ e ∈ s.queueEntries id, 0 < e.taskSource.secondaryPauseRequests))
  | .createTaskQueue, _ | .setWakeable _, _ | .registerTask _ _ _ _, _ | .getNextTaskToRun _ _, _ | .merge _ _, _ |
    .unmerge _ _, _ | .pauseSecondarySource _, _ | .disposeTasks _, _ => .isTrue trivial

/-- What all calls rest on. -/
structure Sound (s : MessageLoopTaskQueues α) : Prop where
  merged : s.MergedBelow
  own : s.OwnSources
  fresh : s.Fresh
  pauses : s.Sources fun _ source => 0 ≤ source.secondaryPauseRequests

theorem Sound.step (h : s.Sound) (hd : DebugChecks s a t) (ht : s.step a = some t) : t.Sound where
  merged := by
    apply h.merged.step ?_ ht
    cases a with
    | dispose id => exact hd
    | _ => trivial
  own := h.own.step ht
  fresh := h.fresh.step ht
  pauses := by
    apply pauses_step h.pauses ?_ ht
    intro q e ha he
    subst ha
    exact hd e he

theorem Sound.linked (h : s.Sound) (hq : s.Live q) : s.Linked q := by
  refine ⟨hq, fun p hp => ?_⟩
  exact (h.merged.live q p ((h.merged.inverse q p).mp hp)).2

/-- A pending task was pending before, or was registered by the call. -/
theorem mem_pending_step (h : s.Fresh) (ht : s.step a = some t) (hx : x ∈ t.pending q) :
    x ∈ s.pending q ∨ a = .registerTask q x.task x.targetTime x.taskSourceGrade ∧ x.order = sizeOfInt s.order := by
  cases effect_of_step ht with
  | created hs => exact .inl (by rwa [hs.pending, pending_createTaskQueue h] at hx)
  | wakeable id hs =>
    have hp : t.pending q = s.pending q := (hs.pending q).trans (pending_updateEntry_of_eq fun _ => rfl)
    exact .inl (hp ▸ hx)
  | registered id task hid horder hs =>
    obtain ⟨e, he⟩ := hid
    rw [hs.pending, pending_updateSource he] at hx
    split at hx
    next hq =>
      subst hq
      rw [TaskSource.tasks_registerTask, Multiset.mem_cons] at hx
      rcases hx with rfl | hx
      · exact .inr ⟨rfl, horder⟩
      · exact .inl (by rwa [pending_eq he])
    next => exact .inl hx
  | notReturned id now _ hs => exact .inl (by rwa [hs.pending] at hx)
  | returned id now top _ _ hid hs =>
    obtain ⟨e, he⟩ := hid
    rw [hs.pending, pending_updateSource he] at hx
    split at hx
    next hq =>
      subst hq
      exact .inl (by rw [pending_eq he]; exact TaskSource.tasks_popTask hx)
    next => exact .inl hx
  | notMerged owner subsumed hs => exact .inl (by rwa [hs.pending] at hx)
  | merged owner subsumed o e _ _ _ _ _ _ hs => exact .inl (by rwa [hs.pending, pending_link] at hx)
  | notUnmerged owner subsumed hs => exact .inl (by rwa [hs.pending] at hx)
  | unmerged owner subsumed o e _ _ _ _ hs => exact .inl (by rwa [hs.pending, pending_unlink] at hx)
  | paused id hs =>
    rw [hs.pending, pending_updateSource_of_eq fun _ => TaskSource.tasks_pauseSecondary] at hx
    exact .inl hx
  | resumed id hs =>
    rw [hs.pending, pending_updateSource_of_eq fun _ => TaskSource.tasks_resumeSecondary] at hx
    exact .inl hx
  | tasksDisposed id e he hs =>
    rw [pending_tasksDisposed he hs] at hx
    split at hx
    · simp at hx
    · exact .inl hx
  | disposed id e he hs =>
    rw [pending_disposed he hs] at hx
    split at hx
    · simp at hx
    · exact .inl hx

private theorem wakeUpUnlocked_order {time : Int} (h : s.wakeUpUnlocked id time = some t) : t.order = s.order := by
  obtain ⟨e, _, rfl⟩ := wakeUpUnlocked_cases h
  split <;> rfl

private theorem wakeUpIfPending_order (h : s.wakeUpIfPending id = some t) : t.order = s.order := by
  rcases wakeUpIfPending_cases h with ⟨_, rfl⟩ | ⟨top, _, _, h⟩
  · rfl
  · exact wakeUpUnlocked_order h

def Label.registrations : Label α → Nat
  | .registerTask _ _ _ _ => 1
  | _ => 0

/-- The counter counts registrations, and nothing else. -/
theorem order_step (ht : s.step a = some t) : t.order = s.order + a.registrations := by
  cases a with
  | createTaskQueue =>
    obtain rfl := Option.some.inj ht
    rfl
  | setWakeable id =>
    obtain ⟨e, _, ht⟩ := Option.bind_eq_some_iff.mp ht
    split at ht
    · cases ht
    · obtain rfl := Option.some.inj ht
      rfl
  | registerTask id task targetTime grade =>
    obtain ⟨e, _, ht⟩ := registerTask_cases ht
    exact wakeUpIfPending_order ht
  | getNextTaskToRun id now =>
    obtain ⟨⟨r, u⟩, hr, rfl⟩ := Option.map_eq_some_iff.mp ht
    rcases getNextTaskToRun_cases hr with ⟨_, _, rfl⟩ | ⟨top, v, _, _, hv, ⟨_, _, rfl⟩ | ⟨_, _, _, rfl⟩⟩
    · rfl
    · exact wakeUpUnlocked_order hv
    · have horder : v.order = s.order := wakeUpUnlocked_order hv
      exact horder
  | merge owner subsumed =>
    obtain ⟨⟨r, u⟩, hr, rfl⟩ := Option.map_eq_some_iff.mp ht
    rcases merge_cases hr with rfl | ⟨o, e, _, _, _, _, _, _, _, hu⟩
    · rfl
    · have horder : u.order = (s.link owner subsumed).order := wakeUpIfPending_order hu
      exact horder
  | unmerge owner subsumed =>
    obtain ⟨⟨r, u⟩, hr, rfl⟩ := Option.map_eq_some_iff.mp ht
    rcases unmerge_cases hr with rfl | ⟨o, e, v, _, _, _, _, _, hv, hu⟩
    · rfl
    · have horder : v.order = (s.unlink owner subsumed).order := wakeUpIfPending_order hv
      exact (wakeUpIfPending_order hu).trans horder
  | pauseSecondarySource id =>
    obtain ⟨e, _, ht⟩ := Option.bind_eq_some_iff.mp ht
    obtain rfl := Option.some.inj ht
    rfl
  | resumeSecondarySource id =>
    obtain ⟨e, _, ht⟩ := Option.bind_eq_some_iff.mp ht
    have horder : t.order = (s.updateSource id (·.resumeSecondary)).order := wakeUpIfPending_order ht
    exact horder
  | disposeTasks id =>
    obtain ⟨e, _, ht⟩ := Option.bind_eq_some_iff.mp ht
    obtain ⟨_, _, ht⟩ := Option.bind_eq_some_iff.mp ht
    obtain rfl := Option.some.inj ht
    rfl
  | dispose id =>
    obtain ⟨e, _, ht⟩ := Option.bind_eq_some_iff.mp ht
    obtain rfl := Option.some.inj ht
    rfl

/-- Each pending task has the order that its number gives it, and its number to itself. -/
structure Numbered (s : MessageLoopTaskQueues (Nat × α)) : Prop where
  below : ∀ q, ∀ x ∈ s.pending q, x.number < s.order
  order : ∀ q, ∀ x ∈ s.pending q, x.order = sizeOfInt x.number
  unique : ∀ p q, ∀ x ∈ s.pending p, ∀ y ∈ s.pending q, x.number = y.number → x = y

section Numbers
variable {s t : MessageLoopTaskQueues (Nat × α)} {x y z : DelayedTask (Nat × α)}

/-- Only a new task is not pending before, and its number is that of the call. -/
private theorem mem_pending_numbered (h : s.Fresh) (ht : (numberedMachine α).step s a = some t)
    (hx : x ∈ t.pending q) : x ∈ s.pending q ∨
      (∃ c time grade, a = .registerTask q c time grade ∧ x = ⟨sizeOfInt s.order, (s.order, c), time, grade⟩) := by
  rcases mem_pending_step h ht hx with hx | ⟨ha, horder⟩
  · exact .inl hx
  · right
    cases a with
    | registerTask id c time grade =>
      simp only [Label.numbered, Label.map, Label.registerTask.injEq] at ha
      obtain ⟨rfl, htask, htime, hgrade⟩ := ha
      refine ⟨c, time, grade, rfl, ?_⟩
      obtain ⟨order, task, targetTime, taskSourceGrade⟩ := x
      simp_all
    | _ => cases ha

theorem Numbered.step (h : s.Numbered) (hf : s.Fresh) (ht : (numberedMachine α).step s a = some t) : t.Numbered := by
  have hcases (q x) (hx : x ∈ t.pending q) := mem_pending_numbered hf ht hx
  have horder := order_step ht
  have hle : s.order ≤ t.order := horder ▸ Nat.le_add_right _ _
  constructor
  · intro q x hx
    rcases hcases q x hx with hx | ⟨c, time, grade, rfl, rfl⟩
    · exact lt_of_lt_of_le (h.below q x hx) hle
    · rw [horder]
      exact Nat.lt_succ_self _
  · intro q x hx
    rcases hcases q x hx with hx | ⟨c, time, grade, rfl, rfl⟩
    · exact h.order q x hx
    · rfl
  · intro p q x hx y hy hxy
    rcases hcases p x hx with hx | ⟨c, time, grade, rfl, rfl⟩
    · rcases hcases q y hy with hy | ⟨c, time, grade, rfl, rfl⟩
      · exact h.unique p q x hx y hy hxy
      · exact absurd hxy (h.below p x hx).ne
    · rcases hcases q y hy with hy | ⟨c', time', grade', ha, rfl⟩
      · exact absurd hxy.symm (h.below q y hy).ne
      · obtain ⟨rfl, rfl, rfl, rfl⟩ := Label.registerTask.inj ha
        rfl

end Numbers

theorem mem_pending_of_visible (h : x ∈ s.visible q) : ∃ p, x ∈ s.pending p := by
  have hin (p) (hp : x ∈ s.visibleIn p) : x ∈ s.pending p := by
    cases he : s.queueEntries p with
    | none => simp [visibleIn, he] at hp
    | some e =>
      rw [visibleIn_eq he] at hp
      rw [pending_eq he]
      exact TaskSource.mem_tasks_of_visible hp
  rcases List.mem_append.mp h with h | h
  · exact ⟨q, hin q h⟩
  · obtain ⟨p, _, h⟩ := List.mem_flatMap.mp h
    exact ⟨p, hin p h⟩

/-- What is to come of a call: where no due task is seen nothing is returned and no task
moves, and else a due visible task with `P` is returned and leaves its queue. -/
def TakesDue (s : MessageLoopTaskQueues α) (q : Nat) (now : Int) (P : DelayedTask α → Prop) : Prop :=
  ∃ r t, s.getNextTaskToRun q now = some (r, t) ∧ match r with
    | none => (s.subsumedBy q ≠ none ∨ ∀ x ∈ s.visible q, now < x.targetTime) ∧ ∀ p, t.pending p = s.pending p
    | some x => s.subsumedBy q = none ∧ x ∈ s.visible q ∧ x.targetTime ≤ now ∧ P x ∧
        ∃ p, (p = q ∨ p ∈ s.ownerOf q) ∧ s.pending p = x ::ₘ t.pending p ∧ ∀ p', p' ≠ p → t.pending p' = s.pending p'

private theorem exists_getNextTaskToRun (h : s.Sound) (hq : s.Live q) (now : Int) :
    ∃ r t, s.getNextTaskToRun q now = some (r, t) := by
  obtain ⟨pending, hpending⟩ := exists_pending (h.linked hq)
  cases pending with
  | false => exact ⟨none, s, by rw [getNextTaskToRun, hpending]; rfl⟩
  | true =>
    obtain ⟨top, htop⟩ := exists_peek (h.linked hq) (visible_of_pending hpending).2
    have htime : s.getWakeTimeAfterPeek q = some top.task.targetTime := by
      rw [getWakeTimeAfterPeek, hpending, getNextWakeTimeUnlocked, htop]
      rfl
    obtain ⟨e, he⟩ := Option.isSome_iff_exists.mp hq
    obtain ⟨u, hu⟩ : ∃ u, s.wakeUpUnlocked q top.task.targetTime = some u := by
      rw [wakeUpUnlocked, he]
      exact ⟨_, rfl⟩
    obtain ⟨_, d, hd, _⟩ := peek_source h.own htop
    rw [← (wakeUpUnlocked_same hu).queueEntries] at hd
    rw [getNextTaskToRun, hpending, htop, htime]
    simp only [Option.bind_eq_bind, Option.bind_some, if_true, hu, hd]
    split
    · exact ⟨_, _, rfl⟩
    · exact ⟨_, _, rfl⟩

/-- The call returns the visible task that the heaps have first. -/
theorem takesDue_before (h : s.Sound) (hq : s.Live q) (now : Int) :
    s.TakesDue q now fun x => ∀ y ∈ s.visible q, x.Before y := by
  obtain ⟨r, t, hr⟩ := exists_getNextTaskToRun h hq now
  refine ⟨r, t, hr, ?_⟩
  rcases getNextTaskToRun_cases hr with ⟨hpending, rfl, rfl⟩ | ⟨top, u, hpending, htop, hu, hcases⟩
  · refine ⟨?_, fun _ => rfl⟩
    by_cases hs : t.subsumedBy q = none
    · right
      simp [visible_of_not_pending hpending hs]
    · exact .inl hs
  have hsame := wakeUpUnlocked_same hu
  rcases hcases with ⟨hlt, rfl, rfl⟩ | ⟨hle, rfl, _, rfl⟩
  · exact ⟨.inr fun x hx => lt_of_lt_of_le hlt (peek_le htop x hx), hsame.pending⟩
  · obtain ⟨hid, e, he, hsource⟩ := peek_source h.own htop
    have hs : SameQueues (s.updateSource top.taskQueueId (·.popTask top.task.taskSourceGrade))
        (u.updateSource top.taskQueueId (·.popTask top.task.taskSourceGrade)) := by
      refine ⟨?_, hsame.taskQueueIdCounter⟩
      funext p
      simp [updateSource, hsame.queueEntries]
    refine ⟨(visible_of_pending hpending).1, peek_mem_visible h.own h.pauses htop, hle, peek_before htop,
      top.taskQueueId, hid, ?_, fun p hp => ?_⟩
    · rw [hs.pending, pending_updateSource he, if_pos rfl, pending_eq he, TaskSource.tasks_of_top hsource]
    · rw [hs.pending, pending_updateSource he, if_neg hp]

/-- The counter is back where it was after 2^32 registrations, and until then the orders grow. -/
theorem sizeOfInt_lt_iff {m n : Nat} : sizeOfInt m < sizeOfInt n ↔ m % 4294967296 < n % 4294967296 := by
  have hm := Nat.mod_lt m (show 0 < 4294967296 by decide)
  have hn := Nat.mod_lt n (show 0 < 4294967296 by decide)
  unfold sizeOfInt
  split <;> split <;> omega

section First
variable {s t : MessageLoopTaskQueues (Nat × α)} {x y z : DelayedTask (Nat × α)}

/-- The visible task that precedes all others. -/
def IsFirst (s : MessageLoopTaskQueues (Nat × α)) (q : Nat) (x : DelayedTask (Nat × α)) : Prop :=
  x ∈ s.visible q ∧ ∀ y ∈ s.visible q, y ≠ x → x.Precedes y

/-- No visible task that is due with the first has a number which has come round to that of
the first, or before it. -/
def InTurn (s : MessageLoopTaskQueues (Nat × α)) (q : Nat) (now : Int) : Prop :=
  s.subsumedBy q = none → ∀ x, s.IsFirst q x → x.targetTime ≤ now → ∀ y ∈ s.visible q, y ≠ x →
    y.targetTime = x.targetTime → x.number % 4294967296 < y.number % 4294967296

/-- A visible task that is due with the first has a number which has come round to before it. -/
def Overtaken (s : MessageLoopTaskQueues (Nat × α)) (q : Nat) (now : Int) : Prop :=
  s.subsumedBy q = none ∧ ∃ x y, s.IsFirst q x ∧ x.targetTime ≤ now ∧ y ∈ s.visible q ∧
    y.targetTime = x.targetTime ∧ y.number % 4294967296 < x.number % 4294967296

private theorem Numbered.order_lt_iff (h : s.Numbered) (hx : x ∈ s.visible q) (hy : y ∈ s.visible q) :
    x.order < y.order ↔ x.number % 4294967296 < y.number % 4294967296 := by
  obtain ⟨p, hp⟩ := mem_pending_of_visible hx
  obtain ⟨p', hp'⟩ := mem_pending_of_visible hy
  rw [h.order p x hp, h.order p' y hp', sizeOfInt_lt_iff]

/-- Where there are visible tasks, one of them is the first. -/
private theorem Numbered.exists_first (h : s.Numbered) (hx : x ∈ s.visible q) : ∃ z, s.IsFirst q z := by
  let key (z : DelayedTask (Nat × α)) : Int ×ₗ Nat := toLex (z.targetTime, z.number)
  obtain ⟨z, hz⟩ : ∃ z, (s.visible q).argmin key = some z := by
    apply Option.ne_none_iff_exists'.mp
    rw [Ne, List.argmin_eq_none]
    exact List.ne_nil_of_mem hx
  refine ⟨z, List.argmin_mem hz, fun y hy hne => ?_⟩
  have hle : key z ≤ key y := List.le_of_mem_argmin hy hz
  rcases Prod.Lex.toLex_le_toLex.mp hle with hlt | ⟨heq, hle⟩
  · exact .inl hlt
  · obtain ⟨p, hp⟩ := mem_pending_of_visible hy
    obtain ⟨p', hp'⟩ := mem_pending_of_visible (List.argmin_mem hz)
    have hnumber : z.number ≠ y.number := fun hn => hne (h.unique p p' y hp z hp' hn.symm)
    exact .inr ⟨heq, lt_of_le_of_ne hle hnumber⟩

private theorem IsFirst.eq (hx : s.IsFirst q x) (hz : z ∈ s.visible q) (h : z.Precedes x ∨ z = x) : z = x := by
  rcases h with h | rfl
  · by_contra hne
    have hxz := hx.2 z hz hne
    unfold DelayedTask.Precedes at h hxz
    omega
  · rfl

/-- What the heaps have first is the first, where nothing has come round to it. -/
private theorem Numbered.isFirst_of_before (h : s.Numbered) (hi : s.InTurn q now) (hs : s.subsumedBy q = none)
    (hx : x ∈ s.visible q) (hdue : x.targetTime ≤ now) (hb : ∀ y ∈ s.visible q, x.Before y) : s.IsFirst q x := by
  obtain ⟨z, hz⟩ := h.exists_first hx
  by_contra hne
  have hxz : x ≠ z := by
    rintro rfl
    exact hne hz
  have hbefore := DelayedTask.before_iff.mp (hb z hz.1)
  have hprecedes : z.targetTime < x.targetTime ∨ z.targetTime = x.targetTime ∧ z.number < x.number := hz.2 x hx hxz
  have htime : x.targetTime = z.targetTime := by omega
  have hlt := hi hs z hz (htime ▸ hdue) x hx hxz htime
  have horder := (h.order_lt_iff hz.1 hx).mpr hlt
  omega

/-- What the heaps have first is not the first, where something has come round to before it. -/
private theorem Numbered.not_isFirst_of_before (h : s.Numbered) (hz : s.IsFirst q z) (hy : y ∈ s.visible q)
    (htime : y.targetTime = z.targetTime) (hlt : y.number % 4294967296 < z.number % 4294967296)
    (hb : ∀ y ∈ s.visible q, x.Before y) : ¬ s.IsFirst q x := by
  intro hx
  obtain rfl : x = z := by
    apply hz.eq hx.1
    by_cases hne : z = x
    · exact .inr hne.symm
    · exact .inl (hx.2 z hz.1 hne)
  have hbefore := DelayedTask.before_iff.mp (hb y hy)
  have horder := (h.order_lt_iff hy hz.1).mpr hlt
  omega

/-- With no more than 2^32 registrations the numbers have not come round. -/
theorem Numbered.inTurn (h : s.Numbered) (hn : s.order ≤ 4294967296) (q : Nat) (now : Int) : s.InTurn q now := by
  intro _ x hx _ y hy hne htime
  have hlt (z) (hz : z ∈ s.visible q) : z.number < 4294967296 := by
    obtain ⟨p, hp⟩ := mem_pending_of_visible hz
    exact lt_of_lt_of_le (h.below p z hp) hn
  have hprecedes : x.targetTime < y.targetTime ∨ x.targetTime = y.targetTime ∧ x.number < y.number := hx.2 y hy hne
  rw [Nat.mod_eq_of_lt (hlt x hx.1), Nat.mod_eq_of_lt (hlt y hy)]
  omega

theorem numbered_of_run {labels : List (Label α)} (hr : (numberedMachine α).run labels = some s)
    (hd : (numberedMachine α).Along DebugChecks (numberedMachine α).init labels) : s.Sound ∧ s.Numbered := by
  apply Machine.invariant_along (I := fun s => s.Sound ∧ s.Numbered) ?_ ?_ hd hr
  · intro s a t h hc ht
    have hc : DebugChecks s (a.numbered s.order) t := by
      cases a <;> exact hc
    exact ⟨h.1.step hc ht, h.2.step h.1.fresh ht⟩
  · refine ⟨⟨init_mergedBelow, init_accounted.own, init_accounted.fresh, ?_⟩, ?_, ?_, ?_⟩
    · simp [Sources, numberedMachine, machine]
    · simp [pending, numberedMachine, machine]
    · simp [pending, numberedMachine, machine]
    · simp [pending, numberedMachine, machine]

/-- In every reachable state the call returns the first of the visible tasks, if it is due and
no task with its target time has a number that has come round to it; where one has come
round to before it, another task is returned. -/
theorem takesFirst_of_run (labels : List (Label α)) (s : MessageLoopTaskQueues (Nat × α))
    (hr : (numberedMachine α).run labels = some s)
    (hd : (numberedMachine α).Along DebugChecks (numberedMachine α).init labels) (q : Nat) (now : Int)
    (hq : s.Live q) : (s.InTurn q now → s.TakesDue q now (s.IsFirst q)) ∧
      (s.TakesDue q now (s.IsFirst q) → ¬ s.Overtaken q now) := by
  obtain ⟨hsound, hnumbered⟩ := numbered_of_run hr hd
  obtain ⟨r, t, ht, htakes⟩ := takesDue_before hsound hq now
  constructor
  · intro hi
    refine ⟨r, t, ht, ?_⟩
    cases r with
    | none => exact htakes
    | some x =>
      obtain ⟨hs, hx, hdue, hb, hrest⟩ := htakes
      exact ⟨hs, hx, hdue, hnumbered.isFirst_of_before hi hs hx hdue hb, hrest⟩
  · rintro ⟨r', t', ht', hfirst⟩ ⟨hs, x, y, hx, hdue, hy, htime, hlt⟩
    obtain ⟨rfl, rfl⟩ := Prod.mk.inj (Option.some.inj (ht.symm.trans ht'))
    cases r with
    | none =>
      rcases htakes.1 with hsub | hlate
      · exact hsub hs
      · exact absurd (hlate x hx.1) (not_lt.mpr hdue)
    | some z => exact hnumbered.not_isFirst_of_before hx hy htime hlt htakes.2.2.2.1 hfirst.2.2.2.1

end First

/-- Tasks for one time, of two merged queues and of both grades, with a pause in between. -/
def orderRun : List (Label Nat) :=
  [.createTaskQueue, .createTaskQueue, .registerTask 1 7 20 .kDartEventLoop, .registerTask 0 8 20 .kUnspecified,
    .merge 0 1, .pauseSecondarySource 1, .getNextTaskToRun 0 15, .registerTask 1 9 20 .kUserInteraction,
    .resumeSecondarySource 1]

theorem takesFirst_orderRun : ∃ s, (numberedMachine Nat).run orderRun = some s ∧ s.TakesDue 0 25 (s.IsFirst 0) ∧
    ¬ s.Overtaken 0 25 ∧ (s.visible 0).length = 3 ∧ s.IsFirst 0 ⟨0, (0, 7), 20, .kDartEventLoop⟩ := by
  have hr : (numberedMachine Nat).run orderRun = some _ := rfl
  have hd : (numberedMachine Nat).Along DebugChecks (numberedMachine Nat).init orderRun := by decide
  have hi := (numbered_of_run hr hd).2.inTurn (by decide) 0 25
  obtain ⟨htakes, hnot⟩ := takesFirst_of_run orderRun _ hr hd 0 25 rfl
  exact ⟨_, hr, htakes hi, hnot (htakes hi), rfl, by decide, by decide⟩

/-- The one queue with a source, after `n` registrations. -/
def lone (source : TaskSource (Nat × Unit)) (n : Nat) : MessageLoopTaskQueues (Nat × Unit) where
  queueEntries q := if q = 0 then some ⟨false, source, [], none⟩ else none
  taskQueueIdCounter := 1
  order := n

private theorem updateSource_lone (source : TaskSource (Nat × Unit)) (n : Nat)
    (g : TaskSource (Nat × Unit) → TaskSource (Nat × Unit)) :
    (lone source n).updateSource 0 g = lone (g source) n := by
  unfold updateSource updateEntry lone
  congr 1
  funext q
  by_cases hq : q = 0
  · subst hq
    rfl
  · simp [hq]

/-- A task that is registered and run. -/
def turn : List (Label Unit) := [.registerTask 0 () 0 .kUnspecified, .getNextTaskToRun 0 0]

private theorem runFrom_turn (n : Nat) :
    (numberedMachine Unit).runFrom (lone (.new 0) n) turn = some (lone (.new 0) (n + 1)) := by
  let source := (TaskSource.new 0).registerTask ⟨sizeOfInt n, (n, ()), 0, .kUnspecified⟩
  have hregister : (numberedMachine Unit).step (lone (.new 0) n) (.registerTask 0 () 0 .kUnspecified) =
      some (lone source (n + 1)) := by
    change ((lone (.new 0) (n + 1)).updateSource 0
      (·.registerTask ⟨sizeOfInt n, (n, ()), 0, .kUnspecified⟩)).wakeUpIfPending 0 = some (lone source (n + 1))
    rw [updateSource_lone]
    rfl
  have hget : (numberedMachine Unit).step (lone source (n + 1)) (.getNextTaskToRun 0 0) =
      some (lone (.new 0) (n + 1)) := by
    change some ((lone source (n + 1)).updateSource 0 (·.popTask .kUnspecified)) = _
    rw [updateSource_lone]
    rfl
  rw [turn, Machine.runFrom, hregister]
  exact Machine.runFrom_cons_some.mpr ⟨_, hget, rfl⟩

/-- The counter is brought to `n`. -/
def turns (n : Nat) : List (Label Unit) := (List.replicate n turn).flatten

private theorem runFrom_turns (n : Nat) :
    (numberedMachine Unit).runFrom (lone (.new 0) 0) (turns n) = some (lone (.new 0) n) := by
  induction n with
  | zero => rfl
  | succ n ih =>
    rw [turns, List.replicate_succ', List.flatten_concat]
    exact Machine.runFrom_append.mpr ⟨_, ih, runFrom_turn n⟩

/-- Two tasks for the same time, between which the counter comes round. -/
def wrapRun : List (Label Unit) :=
  .createTaskQueue :: (turns 4294967295 ++ [.registerTask 0 () 0 .kUnspecified, .registerTask 0 () 0 .kUnspecified])

theorem takesFirst_wrapRun : ∃ s, (numberedMachine Unit).run wrapRun = some s ∧ s.Live 0 ∧
    (numberedMachine Unit).Along DebugChecks (numberedMachine Unit).init wrapRun ∧
    ¬ s.TakesDue 0 0 (s.IsFirst 0) := by
  have hcreate : (numberedMachine Unit).step (numberedMachine Unit).init .createTaskQueue =
      some (lone (.new 0) 0) := by
    change some (MessageLoopTaskQueues.mk _ _ _ _) = some (MessageLoopTaskQueues.mk _ _ _ _)
    congr 2
    funext q
    by_cases hq : q = 0
    · subst hq
      rfl
    · exact (Function.update_of_ne hq _ _).trans (if_neg hq).symm
  have htwo : (numberedMachine Unit).runFrom (lone (.new 0) 4294967295)
      [.registerTask 0 () 0 .kUnspecified, .registerTask 0 () 0 .kUnspecified] = some _ := rfl
  refine ⟨_, Machine.runFrom_cons_some.mpr ⟨_, hcreate, Machine.runFrom_append.mpr ⟨_, runFrom_turns _, htwo⟩⟩,
    rfl, ?_, ?_⟩
  · apply Machine.along_of_forall
    intro a ha s t
    rcases List.mem_cons.mp ha with rfl | ha
    · trivial
    rcases List.mem_append.mp ha with ha | ha
    · obtain ⟨l, hl, ha⟩ := List.mem_flatten.mp ha
      obtain rfl := List.eq_of_mem_replicate hl
      rcases List.mem_pair.mp ha with rfl | rfl <;> trivial
    · rcases List.mem_pair.mp ha with rfl | rfl <;> trivial
  · rintro ⟨r, t, ht, htakes⟩
    obtain ⟨rfl, rfl⟩ := Prod.mk.inj (Option.some.inj ht)
    have hfirst := htakes.2.2.2.1.2 ⟨18446744073709551615, (4294967295, ()), 0, .kUnspecified⟩ (by decide) (by decide)
    rcases hfirst with hlt | ⟨_, hlt⟩
    · exact absurd hlt (by decide)
    · exact absurd hlt (by decide)

end MessageLoopTaskQueues
end Ogre.Fml
