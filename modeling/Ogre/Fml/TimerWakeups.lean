import Ogre.Fml.MessageLoopLinux
import Ogre.Fml.TaskOrder
import Ogre.Fml.TaskWakeups

/-! No wake-up is lost between the queues and the timer of a loop on Linux. -/
namespace Ogre.Fml
open Ogre.Library

namespace MessageLoopTaskQueues
variable {α : Type} {s t : MessageLoopTaskQueues α} {w : Nat → Option Int}

/-- The queues with wake-ups from before. -/
def afterWaking (w : Nat → Option Int) (s : MessageLoopTaskQueues α) : MessageLoopTaskQueues α :=
  { s with wakeUps := fun q => (s.wakeUps q).or (w q) }

@[simp] theorem queueEntries_afterWaking : (s.afterWaking w).queueEntries = s.queueEntries := rfl

private theorem bind_queueEntries_afterWaking {β γ : Type} {g : β → γ} {k : TaskQueueEntry α → Option γ}
    {l : TaskQueueEntry α → Option β} (id : Nat) (h : ∀ e, k e = (l e).map g) :
    (s.queueEntries id).bind k = ((s.queueEntries id).bind l).map g := by
  cases s.queueEntries id with
  | none => rfl
  | some e => exact h e

private theorem anyPending_afterWaking (ids : List Nat) : (s.afterWaking w).anyPending ids = s.anyPending ids := by
  induction ids with
  | nil => rfl
  | cons id ids ih => simp only [anyPending, queueEntries_afterWaking, ih]

private theorem hasPendingTasksUnlocked_afterWaking (id : Nat) :
    (s.afterWaking w).hasPendingTasksUnlocked id = s.hasPendingTasksUnlocked id := by
  simp only [hasPendingTasksUnlocked, queueEntries_afterWaking, anyPending_afterWaking]

private theorem updateTopFrom_afterWaking (top : Option (TopTask α)) (ids : List Nat) :
    (s.afterWaking w).updateTopFrom top ids = s.updateTopFrom top ids := by
  induction ids generalizing top with
  | nil => rfl
  | cons id ids ih => simp only [updateTopFrom, queueEntries_afterWaking, ih]

private theorem peekNextTaskUnlocked_afterWaking (id : Nat) :
    (s.afterWaking w).peekNextTaskUnlocked id = s.peekNextTaskUnlocked id := by
  simp only [peekNextTaskUnlocked, queueEntries_afterWaking, updateTopFrom_afterWaking]

private theorem getNextWakeTimeUnlocked_afterWaking (id : Nat) :
    (s.afterWaking w).getNextWakeTimeUnlocked id = s.getNextWakeTimeUnlocked id := by
  rw [getNextWakeTimeUnlocked, peekNextTaskUnlocked_afterWaking, getNextWakeTimeUnlocked]

private theorem wakeUpUnlocked_afterWaking (id : Nat) (time : Int) :
    (s.afterWaking w).wakeUpUnlocked id time = (s.wakeUpUnlocked id time).map (afterWaking w) := by
  apply bind_queueEntries_afterWaking
  intro e
  split
  · refine congrArg (fun wakeUps => some { s with wakeUps }) ?_
    funext q
    by_cases hq : q = id
    · simp [hq]
    · simp [afterWaking, hq]
  · rfl

private theorem wakeUpIfPending_afterWaking (id : Nat) :
    (s.afterWaking w).wakeUpIfPending id = (s.wakeUpIfPending id).map (afterWaking w) := by
  unfold wakeUpIfPending
  rw [hasPendingTasksUnlocked_afterWaking, getNextWakeTimeUnlocked_afterWaking]
  cases s.hasPendingTasksUnlocked id with
  | none => rfl
  | some pending =>
    cases pending with
    | false => rfl
    | true =>
      cases s.getNextWakeTimeUnlocked id with
      | none => rfl
      | some time => exact wakeUpUnlocked_afterWaking id time

private theorem getNextTaskToRun_afterWaking (id : Nat) (now : Int) :
    (s.afterWaking w).getNextTaskToRun id now = (s.getNextTaskToRun id now).map fun r => (r.1, r.2.afterWaking w) := by
  have hwake : (s.afterWaking w).getWakeTimeAfterPeek id = s.getWakeTimeAfterPeek id := by
    rw [getWakeTimeAfterPeek, hasPendingTasksUnlocked_afterWaking, getNextWakeTimeUnlocked_afterWaking,
      getWakeTimeAfterPeek]
  unfold getNextTaskToRun
  rw [hasPendingTasksUnlocked_afterWaking, peekNextTaskUnlocked_afterWaking, hwake]
  cases s.hasPendingTasksUnlocked id with
  | none => rfl
  | some pending =>
    cases pending with
    | false => rfl
    | true =>
      simp only [Option.bind_eq_bind, Option.bind_some, if_true, wakeUpUnlocked_afterWaking]
      cases s.peekNextTaskUnlocked id with
      | none => rfl
      | some top =>
        cases s.getWakeTimeAfterPeek id with
        | none => rfl
        | some time =>
          simp only [Option.bind_some]
          cases s.wakeUpUnlocked id time with
          | none => rfl
          | some t =>
            simp only [Option.map_some, Option.bind_some]
            split
            · rfl
            · apply bind_queueEntries_afterWaking
              intro e
              rfl

private theorem merge_afterWaking (owner subsumed : Nat) :
    (s.afterWaking w).merge owner subsumed = (s.merge owner subsumed).map fun r => (r.1, r.2.afterWaking w) := by
  have hlink : (s.afterWaking w).link owner subsumed = (s.link owner subsumed).afterWaking w := rfl
  unfold merge
  split
  · rfl
  rw [hlink, wakeUpIfPending_afterWaking]
  apply bind_queueEntries_afterWaking
  intro o
  apply bind_queueEntries_afterWaking
  intro e
  split
  · rfl
  split
  · rfl
  split
  · rfl
  split
  · rfl
  · cases (s.link owner subsumed).wakeUpIfPending owner <;> rfl

private theorem unmerge_afterWaking (owner subsumed : Nat) :
    (s.afterWaking w).unmerge owner subsumed = (s.unmerge owner subsumed).map fun r => (r.1, r.2.afterWaking w) := by
  have hunlink : (s.afterWaking w).unlink owner subsumed = (s.unlink owner subsumed).afterWaking w := rfl
  unfold unmerge
  rw [hunlink, wakeUpIfPending_afterWaking]
  apply bind_queueEntries_afterWaking
  intro o
  split
  · rfl
  split
  · rfl
  apply bind_queueEntries_afterWaking
  intro e
  split
  · rfl
  split
  · rfl
  cases (s.unlink owner subsumed).wakeUpIfPending owner with
  | none => rfl
  | some t =>
    simp only [Option.map_some, Option.bind_eq_bind, Option.bind_some, wakeUpIfPending_afterWaking]
    cases t.wakeUpIfPending subsumed <;> rfl

/-- The wake-ups from before change nothing of what a call does. -/
theorem step_afterWaking (a : Label α) : (s.afterWaking w).step a = (s.step a).map (afterWaking w) := by
  cases a with
  | createTaskQueue => rfl
  | setWakeable id =>
    apply bind_queueEntries_afterWaking
    intro e
    split <;> rfl
  | registerTask id task targetTime grade =>
    apply bind_queueEntries_afterWaking
    intro e
    exact wakeUpIfPending_afterWaking (s := { s with order := s.order + 1 }.updateSource id
      (·.registerTask ⟨sizeOfInt s.order, task, targetTime, grade⟩))
      (e.subsumedBy.getD id)
  | getNextTaskToRun id now =>
    simp only [step, getNextTaskToRun_afterWaking, Option.map_map]
    rfl
  | merge owner subsumed =>
    simp only [step, merge_afterWaking, Option.map_map]
    rfl
  | unmerge owner subsumed =>
    simp only [step, unmerge_afterWaking, Option.map_map]
    rfl
  | pauseSecondarySource id =>
    apply bind_queueEntries_afterWaking
    intro e
    rfl
  | resumeSecondarySource id =>
    apply bind_queueEntries_afterWaking
    intro e
    exact wakeUpIfPending_afterWaking (s := s.updateSource id (·.resumeSecondary)) id
  | disposeTasks id =>
    apply bind_queueEntries_afterWaking
    intro e
    cases h : e.ownerOf.mapM s.queueEntries with
    | none => simp [h]
    | some entries =>
      simp [h]
      rfl
  | dispose id =>
    apply bind_queueEntries_afterWaking
    intro e
    rfl

/-- No task is due before the start of the clock, nor is a loop asked to wake up before it. -/
structure Timely (s : MessageLoopTaskQueues α) : Prop where
  own : s.OwnSources
  fresh : s.Fresh
  tasks : ∀ q, ∀ x ∈ s.pending q, 0 ≤ x.targetTime
  requests : ∀ q, ∀ time ∈ s.wakeUps q, 0 ≤ time

/-- What is registered is due at a time of the clock. -/
def InTime : Label α → Prop
  | .registerTask _ _ targetTime _ => 0 ≤ targetTime
  | _ => True

instance : (a : Label α) → Decidable (InTime a)
  | .registerTask _ _ targetTime _ => inferInstanceAs (Decidable (0 ≤ targetTime))
  | .createTaskQueue | .setWakeable _ | .getNextTaskToRun _ _ | .merge _ _ | .unmerge _ _ | .pauseSecondarySource _ |
    .resumeSecondarySource _ | .disposeTasks _ | .dispose _ => .isTrue trivial

private theorem OwnSources.of_same (hs : SameQueues s t) (h : t.OwnSources) : s.OwnSources :=
  fun q e he => h q e (by rw [hs.queueEntries, he])

/-- A loop is asked to wake up for a task. -/
private theorem requested_of_peek {top : TopTask α} {id q : Nat} {time : Int} (ho : s.OwnSources)
    (htop : s.peekNextTaskUnlocked id = some top) (h : s.wakeUpUnlocked id top.task.targetTime = some t)
    (hr : t.wakeUps q = some time) : s.wakeUps q = some time ∨ ∃ p, ∃ x ∈ s.pending p, x.targetTime = time := by
  obtain ⟨e, he, rfl⟩ := wakeUpUnlocked_cases h
  split at hr
  · by_cases hq : q = id
    · obtain ⟨-, f, hf, hsource⟩ := peek_source ho htop
      obtain rfl : top.task.targetTime = time := by simpa [hq] using hr
      refine .inr ⟨top.taskQueueId, top.task, ?_, rfl⟩
      rw [pending_eq hf, TaskSource.tasks_of_top hsource]
      exact Multiset.mem_cons_self _ _
    · exact .inl (by simpa [hq] using hr)
  · exact .inl hr

private theorem requested_of_wakeUpIfPending {id q : Nat} {time : Int} (ho : t.OwnSources)
    (h : s.wakeUpIfPending id = some t) (hr : t.wakeUps q = some time) :
    s.wakeUps q = some time ∨ ∃ p, ∃ x ∈ t.pending p, x.targetTime = time := by
  have hsame := wakeUpIfPending_same h
  rcases wakeUpIfPending_cases h with ⟨-, rfl⟩ | ⟨top, -, htop, h⟩
  · exact .inl hr
  · refine (requested_of_peek (ho.of_same hsame) htop h hr).imp_right fun ⟨p, x, hx, htime⟩ => ⟨p, x, ?_, htime⟩
    rwa [hsame.pending]

private theorem requested_step {a : Label α} {q : Nat} {time : Int} (hs : s.OwnSources) (h : s.step a = some t)
    (hr : t.wakeUps q = some time) :
    s.wakeUps q = some time ∨ ∃ p x, (x ∈ s.pending p ∨ x ∈ t.pending p) ∧ x.targetTime = time := by
  have ht : t.OwnSources := hs.step h
  have hnew {u : MessageLoopTaskQueues α} {id : Nat} (h : u.wakeUpIfPending id = some t)
      (hu : u.wakeUps = s.wakeUps) :
      s.wakeUps q = some time ∨ ∃ p x, (x ∈ s.pending p ∨ x ∈ t.pending p) ∧ x.targetTime = time := by
    rw [← hu]
    exact (requested_of_wakeUpIfPending ht h hr).imp_right fun ⟨p, x, hx, htime⟩ => ⟨p, x, .inr hx, htime⟩
  cases a with
  | createTaskQueue =>
    obtain rfl := Option.some.inj h
    exact .inl hr
  | setWakeable id =>
    obtain ⟨e, -, h⟩ := Option.bind_eq_some_iff.mp h
    obtain rfl := Option.some.inj (Option.ite_none_left_eq_some.mp h).2
    exact .inl hr
  | registerTask id task targetTime grade =>
    obtain ⟨e, -, h⟩ := registerTask_cases h
    exact hnew h rfl
  | getNextTaskToRun id now =>
    obtain ⟨⟨r, u⟩, hr', rfl⟩ := Option.map_eq_some_iff.mp h
    rcases getNextTaskToRun_cases hr' with ⟨-, -, rfl⟩ | ⟨top, u, -, htop, hu, hcases⟩
    · exact .inl hr
    · have hpeek (hr : u.wakeUps q = some time) := requested_of_peek hs htop hu hr
      rcases hcases with ⟨-, -, rfl⟩ | ⟨-, -, -, rfl⟩
      · exact (hpeek hr).imp_right fun ⟨p, x, hx, htime⟩ => ⟨p, x, .inl hx, htime⟩
      · exact (hpeek hr).imp_right fun ⟨p, x, hx, htime⟩ => ⟨p, x, .inl hx, htime⟩
  | merge owner subsumed =>
    obtain ⟨⟨r, u⟩, hr', rfl⟩ := Option.map_eq_some_iff.mp h
    rcases merge_cases hr' with rfl | ⟨o, e, -, -, -, -, -, -, -, hu⟩
    · exact .inl hr
    · exact hnew hu rfl
  | unmerge owner subsumed =>
    obtain ⟨⟨r, u⟩, hr', rfl⟩ := Option.map_eq_some_iff.mp h
    rcases unmerge_cases hr' with rfl | ⟨o, e, v, -, -, -, -, -, hv, hu⟩
    · exact .inl hr
    · rcases requested_of_wakeUpIfPending ht hu hr with hr | ⟨p, x, hx, htime⟩
      · have hsame := wakeUpIfPending_same hu
        rcases requested_of_wakeUpIfPending (ht.of_same hsame) hv hr with hr | ⟨p, x, hx, htime⟩
        · exact .inl hr
        · exact .inr ⟨p, x, .inr (by rwa [hsame.pending]), htime⟩
      · exact .inr ⟨p, x, .inr hx, htime⟩
  | pauseSecondarySource id =>
    obtain ⟨e, -, h⟩ := Option.bind_eq_some_iff.mp h
    obtain rfl := Option.some.inj h
    exact .inl hr
  | resumeSecondarySource id =>
    obtain ⟨e, -, h⟩ := Option.bind_eq_some_iff.mp h
    exact hnew h rfl
  | disposeTasks id =>
    obtain ⟨e, -, h⟩ := Option.bind_eq_some_iff.mp h
    obtain ⟨_, -, h⟩ := Option.bind_eq_some_iff.mp h
    obtain rfl := Option.some.inj h
    exact .inl hr
  | dispose id =>
    obtain ⟨e, -, h⟩ := Option.bind_eq_some_iff.mp h
    obtain rfl := Option.some.inj h
    exact .inl hr

theorem Timely.step {a : Label α} (h : s.Timely) (ha : InTime a) (ht : s.step a = some t) : t.Timely := by
  have htasks : ∀ q, ∀ x ∈ t.pending q, 0 ≤ x.targetTime := by
    intro q x hx
    rcases mem_pending_step h.fresh ht hx with hx | ⟨rfl, -⟩
    · exact h.tasks q x hx
    · exact ha
  refine ⟨h.own.step ht, h.fresh.step ht, htasks, fun q time hr => ?_⟩
  rcases requested_step h.own ht hr with hr | ⟨p, x, hx | hx, rfl⟩
  · exact h.requests q time hr
  · exact h.tasks p x hx
  · exact htasks p x hx

private theorem WakesBy.afterWaking {q : Nat} {time : Int} (h : s.WakesBy q time) :
    (s.afterWaking w).WakesBy q time := by
  obtain ⟨requested, hr, hle⟩ := h
  have hr : s.wakeUps q = some requested := hr
  exact ⟨requested, by simp [MessageLoopTaskQueues.afterWaking, hr], hle⟩

private theorem announces_afterWaking {a : Label α} (t' : MessageLoopTaskQueues α) (h : Announces s a t) :
    Announces (s.afterWaking w) a t' := by
  cases a with
  | resumeSecondarySource id =>
    intro e he
    obtain ⟨hpos, hlast⟩ := h e he
    exact ⟨hpos, fun hone owner ho hwakes task htask => (hlast hone owner ho hwakes task htask).afterWaking⟩
  | setWakeable _ | dispose _ => exact h
  | createTaskQueue | registerTask _ _ _ _ | getNextTaskToRun _ _ | merge _ _ | unmerge _ _ => trivial
  | pauseSecondarySource _ | disposeTasks _ => trivial

theorem Awake.step_afterWaking {a : Label α} (h : (s.afterWaking w).Awake) (hc : Announces s a t)
    (ht : s.step a = some t) :
    (t.afterWaking w).Awake := by
  refine h.step (announces_afterWaking (t.afterWaking w) hc) ?_
  rw [MessageLoopTaskQueues.step_afterWaking, ht]
  rfl

end MessageLoopTaskQueues

theorem nanoseconds_timerRearm {time : Int} (h : 0 ≤ time) :
    (timerRearm time).value.nanoseconds = max time.toNat 1 ∧
      (timerRearm time).interval.nanoseconds = max time.toNat 1 := by
  have hu : uint64OfInt64 time = time.toNat := if_neg (not_lt.mpr h)
  constructor <;> simp only [timerRearm, TimeSpec.nanoseconds, hu, Nat.div_add_mod']

/-- A timer that is set for a time of the clock can be read from then on. -/
theorem isReadable_timerRearm {time : Int} (h : 0 ≤ time) {now : Nat} (ht : time ≤ now) (hn : 1 ≤ now) :
    (timerRearm time).isReadable now := by
  obtain ⟨hvalue, hinterval⟩ := nanoseconds_timerRearm h
  have hpos : max time.toNat 1 ≠ 0 := by omega
  have hle : max time.toNat 1 ≤ now := by omega
  have hread : (timerRearm time).read = 0 := rfl
  unfold TimerFd.isReadable TimerFd.expirations
  rw [hread, hvalue, hinterval, if_neg (by simp only [Bool.or_eq_true, decide_eq_true_eq]; omega), if_neg hpos]
  simp

theorem timerDrain_of_readable {timer : TimerFd} {now : Nat} (h : timer.isReadable now = true) :
    timerDrain timer now = (true, { timer with read := timer.expirations now }) := if_pos h

theorem timerDrain_of_not_readable {timer : TimerFd} {now : Nat} (h : timer.isReadable now = false) :
    timerDrain timer now = (false, timer) := if_neg (by rw [h]; exact Bool.false_ne_true)

namespace MessageLoopLinux
variable {α : Type} {terminates : α → Bool} {s t : MessageLoopLinux α} {impl : MessageLoopImpl α}

/-- The thread is on its way to take what is due. -/
def isFlushing (s : MessageLoopLinux α) : Bool :=
  s.isAt .drained || match s.impl.phase with
    | .flushing _ _ _ => true
    | _ => false

/-- The timer can be read from the time on. -/
def FiresBy (s : MessageLoopLinux α) (time : Int) : Prop :=
  ∀ later : Nat, s.now ≤ later → time ≤ later → 1 ≤ later → s.timer.isReadable later

/-- The queues, with what the timer is set for. -/
def asked (s : MessageLoopLinux α) (requested : Option Int) : MessageLoopTaskQueues α :=
  s.impl.taskQueue.afterWaking (Function.update (fun _ => none) s.impl.queueId requested)

/-- The queues see to it that the timer is set, unless the thread takes what is due anyway. -/
structure Timed (s : MessageLoopLinux α) : Prop where
  heard : s.impl.taskQueue.wakeUps s.impl.queueId = none
  timely : s.impl.taskQueue.Timely
  posting : ∀ post ∈ s.impl.posting, 0 ≤ post.targetTime
  kAll : ∀ type now last, s.impl.phase = .flushing type now last → type = .kAll
  awake : ∃ requested, (s.asked requested).Awake ∧ (s.isFlushing = false → ∀ time ∈ requested, s.FiresBy time)

theorem FiresBy.mono {time later : Int} (h : s.FiresBy time) (hle : time ≤ later) : s.FiresBy later :=
  fun now hnow hlater hpos => h now hnow (hle.trans hlater) hpos

/-- A loop that is not on its way is woken up by the timer for each task that it sees. -/
theorem Timed.fires (h : s.Timed) (hf : s.isFlushing = false) (hw : s.impl.taskQueue.Wakes s.impl.queueId)
    {x : DelayedTask α} (hx : x ∈ s.impl.taskQueue.visible s.impl.queueId) : s.FiresBy x.targetTime := by
  obtain ⟨requested, hawake, hfires⟩ := h.awake
  obtain ⟨time, htime, hle⟩ := hawake.woken s.impl.queueId hw x hx
  have htime : (s.impl.taskQueue.wakeUps s.impl.queueId).or
      (Function.update (fun _ => none) s.impl.queueId requested s.impl.queueId) = some time := htime
  rw [h.heard, Option.none_or, Function.update_self] at htime
  exact (hfires hf time htime).mono hle

private theorem asked_wakeUp {requested : Option Int} (hid : impl.queueId = s.impl.queueId) :
    (s.wakeUp impl).asked ((impl.taskQueue.wakeUps impl.queueId).or requested) =
      impl.taskQueue.afterWaking (Function.update (fun _ => none) s.impl.queueId requested) := by
  refine congrArg (fun wakeUps => { impl.taskQueue with wakeUps }) ?_
  funext q
  by_cases hq : q = impl.queueId
  · simp [wakeUp, MessageLoopLinux.heard, ← hid, hq]
  · simp [wakeUp, MessageLoopLinux.heard, ← hid, hq]

private theorem firesBy_wakeUp {time : Int} (hr : impl.taskQueue.wakeUps impl.queueId = some time) (h : 0 ≤ time) :
    (s.wakeUp impl).FiresBy time := by
  intro later _ hlater hpos
  have htimer : (s.wakeUp impl).timer = timerRearm time := by simp [wakeUp, hr]
  rw [htimer]
  exact isReadable_timerRearm h hlater hpos

private theorem isFlushing_wakeUp (h : impl.phase = s.impl.phase) : (s.wakeUp impl).isFlushing = s.isFlushing := by
  simp [isFlushing, isAt, wakeUp, MessageLoopLinux.heard, h]

/-- A call for the queues that does not end a flush. -/
private theorem Timed.called {a : MessageLoopTaskQueues.Label α} (h : s.Timed)
    (ha : MessageLoopTaskQueues.InTime a) (hc : MessageLoopTaskQueues.Announces s.impl.taskQueue a impl.taskQueue)
    (ht : s.impl.taskQueue.step a = some impl.taskQueue) (hid : impl.queueId = s.impl.queueId)
    (hposting : impl.posting ⊆ s.impl.posting)
    (hkAll : ∀ type now last, impl.phase = .flushing type now last → type = .kAll)
    (hidle : (s.wakeUp impl).isFlushing = false → s.isFlushing = false) : (s.wakeUp impl).Timed := by
  have htimely := h.timely.step ha ht
  obtain ⟨requested, hawake, hfires⟩ := h.awake
  refine ⟨Function.update_self _ _ _, ?_, fun post hpost => h.posting post (hposting hpost), hkAll, ?_⟩
  · refine ⟨htimely.own, htimely.fresh, htimely.tasks, fun q time hr => ?_⟩
    by_cases hq : q = impl.queueId
    · simp [wakeUp, MessageLoopLinux.heard, hq] at hr
    · exact htimely.requests q time (by simpa [wakeUp, MessageLoopLinux.heard, hq] using hr)
  · refine ⟨(impl.taskQueue.wakeUps impl.queueId).or requested, ?_, fun hstill time htime => ?_⟩
    · rw [asked_wakeUp hid]
      exact hawake.step_afterWaking hc ht
    · cases hr : impl.taskQueue.wakeUps impl.queueId with
      | some other =>
        obtain rfl : other = time := by simpa [hr] using htime
        exact firesBy_wakeUp hr (htimely.requests _ _ hr)
      | none =>
        have hsame : (s.wakeUp impl).timer = s.timer := by simp [wakeUp, hr]
        rw [hr, Option.none_or] at htime
        intro later hnow hlater hpos
        rw [hsame]
        exact hfires (hidle hstill) time htime later hnow hlater hpos

/-- Without anything to see, the loop need not be woken up. -/
private theorem awake_forget {requested : Option Int} (h : (s.asked requested).Awake)
    (hv : s.impl.taskQueue.Wakes s.impl.queueId → s.impl.taskQueue.visible s.impl.queueId = []) :
    (s.asked none).Awake := by
  have hm := h.merged
  refine ⟨⟨⟨hm.inverse, hm.exclusive, hm.irreflexive, hm.live⟩, hm.below⟩, h.pauses, fun q hwakes x hx => ?_⟩
  by_cases hq : q = s.impl.queueId
  · subst hq
    have hx : x ∈ s.impl.taskQueue.visible s.impl.queueId := hx
    rw [hv hwakes] at hx
    cases hx
  · obtain ⟨time, htime, hle⟩ := h.woken q hwakes x hx
    have htime : (s.impl.taskQueue.wakeUps q).or
        (Function.update (fun _ => none) s.impl.queueId requested q) = some time := htime
    refine ⟨time, ?_, hle⟩
    change (s.impl.taskQueue.wakeUps q).or (Function.update (fun _ => none) s.impl.queueId none q) = some time
    rw [Function.update_of_ne hq] at htime ⊢
    exact htime

/-- The flush ends where nothing is to be seen, or with the timer set for what is. -/
private theorem flush_ends {now : Int} {t : MessageLoopTaskQueues α}
    (h : s.impl.taskQueue.getNextTaskToRun s.impl.queueId now = some (none, t))
    (hr : t.wakeUps s.impl.queueId = none) :
    t.Wakes s.impl.queueId → t.visible s.impl.queueId = [] := by
  intro hwakes
  rcases MessageLoopTaskQueues.getNextTaskToRun_cases h with ⟨hpending, -, rfl⟩ | ⟨top, u, -, -, hu, hcases⟩
  · exact MessageLoopTaskQueues.visible_of_not_pending hpending hwakes.subsumedBy
  · rcases hcases with ⟨-, -, rfl⟩ | ⟨-, hnone, -⟩
    · obtain ⟨e, he, rfl⟩ := MessageLoopTaskQueues.wakeUpUnlocked_cases hu
      split at hr
      · simp at hr
      next hwakeable =>
        rw [if_neg hwakeable] at hwakes
        obtain ⟨f, hf, -, hf'⟩ := hwakes
        obtain rfl := Option.some.inj (he.symm.trans hf)
        exact absurd hf' hwakeable
    · cases hnone

private theorem Timed.flushed {r : Option (DelayedTask α) × MessageLoopImpl α} (h : s.Timed)
    (hr : s.impl.flushTask = some r) (invoking : Bool) :
    ({ s.wakeUp r.2 with invoking } : MessageLoopLinux α).Timed := by
  unfold MessageLoopImpl.flushTask at hr
  split at hr
  next type now last hphase =>
    obtain rfl := h.kAll type now last hphase
    obtain ⟨⟨task, t⟩, ht, hr⟩ := Option.bind_eq_some_iff.mp hr
    obtain rfl := Option.some.inj hr
    have hstep : s.impl.taskQueue.step (.getNextTaskToRun s.impl.queueId now) = some t := by
      simp [MessageLoopTaskQueues.step, ht]
    have hcalled : (s.wakeUp { s.impl with taskQueue := t }).Timed :=
      h.called (a := .getNextTaskToRun s.impl.queueId now) trivial trivial hstep rfl (List.Subset.refl _) h.kAll
        fun hidle => (isFlushing_wakeUp rfl).symm.trans hidle
    cases task with
    | some task => exact ⟨hcalled.heard, hcalled.timely, hcalled.posting, hcalled.kAll, hcalled.awake⟩
    | none =>
      have hkAll (phase : Phase) (hphase : phase = .disposing ∨ phase = .running) :
          ∀ type now last, phase = .flushing type now last → type = .kAll := by
        rintro type now last rfl
        simp at hphase
      refine ⟨hcalled.heard, hcalled.timely, hcalled.posting, hkAll _ ?_, ?_⟩
      · cases last with
        | false => exact .inr rfl
        | true => exact .inl rfl
      · obtain ⟨requested, hawake, -⟩ := hcalled.awake
        cases hasked : t.wakeUps s.impl.queueId with
        | some time =>
          obtain ⟨old, hold, -⟩ := h.awake
          refine ⟨some time, ?_, fun _ other hother => ?_⟩
          · have ha := hold.step_afterWaking (a := .getNextTaskToRun s.impl.queueId now) trivial hstep
            have heq := @asked_wakeUp α s { s.impl with taskQueue := t } old rfl
            rw [hasked] at heq
            exact heq ▸ ha
          · obtain rfl := Option.some.inj hother
            have htimely := h.timely.step (a := .getNextTaskToRun s.impl.queueId now) trivial hstep
            have hfires := @firesBy_wakeUp α s { s.impl with taskQueue := t } _ hasked (htimely.requests _ _ hasked)
            exact fun later => hfires later
        | none =>
          refine ⟨none, ?_, fun _ other hother => by cases hother⟩
          have hv := flush_ends ht hasked
          have hforget := awake_forget hawake hv
          exact hforget
  · cases hr

/-- Posts are for times of the clock, and the calls of others announce what they make visible. -/
def Announced (s : MessageLoopLinux α) (a : Label α) (t : MessageLoopLinux α) : Prop :=
  match a with
  | .postTask post => 0 ≤ post.targetTime
  | .queues a => MessageLoopTaskQueues.InTime a ∧ MessageLoopTaskQueues.Announces s.impl.taskQueue a t.impl.taskQueue
  | _ => True

instance (s : MessageLoopLinux α) : (a : Label α) → (t : MessageLoopLinux α) → Decidable (Announced s a t)
  | .postTask post, _ => inferInstanceAs (Decidable (0 ≤ post.targetTime))
  | .queues a, t => inferInstanceAs (Decidable (MessageLoopTaskQueues.InTime a ∧
      MessageLoopTaskQueues.Announces s.impl.taskQueue a t.impl.taskQueue))
  | .registerTask _, _ | .doRun, _ | .enterRun, _ | .checkRunning, _ | .epollWait, _ | .epollFails, _ |
    .timerDrain, _ |
    .runExpiredTasksNow, _ | .flushTask, _ | .doTerminate, _ | .disposeTasks, _ | .tick _, _ => .isTrue trivial

/-- A step of the thread that leaves the queues alone, and the timer unless the thread is on its way. -/
private theorem Timed.moved (h : s.Timed) (hqueue : t.impl.taskQueue = s.impl.taskQueue)
    (hid : t.impl.queueId = s.impl.queueId) (hposting : t.impl.posting = s.impl.posting)
    (hkAll : ∀ type now last, t.impl.phase = .flushing type now last → type = .kAll)
    (htimer : t.isFlushing = false → s.isFlushing = false ∧ t.timer = s.timer ∧ s.now ≤ t.now) : t.Timed := by
  obtain ⟨requested, hawake, hfires⟩ := h.awake
  refine ⟨by rw [hqueue, hid]; exact h.heard, by rw [hqueue]; exact h.timely, by rw [hposting]; exact h.posting,
    hkAll, requested, ?_, fun hidle time htime later hnow hlater hpos => ?_⟩
  · rw [asked, hqueue, hid]
    exact hawake
  · obtain ⟨hidle, htimer, hle⟩ := htimer hidle
    rw [htimer]
    exact hfires hidle time htime later (hle.trans hnow) hlater hpos

theorem isAt_iff {stage : Stage} : s.isAt stage = true ↔ s.impl.phase = .running ∧ s.stage = stage := by
  simp [isAt]

theorem isFlushing_of_isAt {stage : Stage} (h : s.isAt stage = true) :
    s.isFlushing = decide (stage = .drained) := by
  obtain ⟨hphase, rfl⟩ := isAt_iff.mp h
  simp [isFlushing, isAt, hphase]

theorem Timed.step {a : Label α} (h : s.Timed) (hc : Announced s a t) (hs : s.step terminates a = some t) :
    t.Timed := by
  cases a with
  | postTask post =>
    obtain rfl := Option.some.inj hs
    obtain ⟨requested, hawake, hfires⟩ := h.awake
    unfold MessageLoopImpl.postTask
    split
    · exact h
    · refine ⟨h.heard, h.timely, fun other hother => ?_, h.kAll, requested, hawake, hfires⟩
      rcases List.mem_append.mp hother with hother | hother
      · exact h.posting other hother
      · rw [List.mem_singleton.mp hother]
        exact hc
  | registerTask i =>
    obtain ⟨impl, himpl, rfl⟩ := Option.map_eq_some_iff.mp hs
    obtain ⟨post, hpost, himpl⟩ := Option.bind_eq_some_iff.mp himpl
    obtain ⟨u, hu, himpl⟩ := Option.bind_eq_some_iff.mp himpl
    obtain rfl := Option.some.inj himpl
    exact h.called (a := .registerTask s.impl.queueId post.task post.targetTime .kUnspecified)
      (h.posting post (List.mem_of_getElem? hpost)) trivial hu rfl List.eraseIdx_subset h.kAll fun hidle =>
        (isFlushing_wakeUp rfl).symm.trans hidle
  | queues a =>
    obtain ⟨u, hu, rfl⟩ := Option.map_eq_some_iff.mp (Option.ite_none_left_eq_some.mp hs).2
    exact h.called hc.1 hc.2 hu rfl (List.Subset.refl _) h.kAll fun hidle => (isFlushing_wakeUp rfl).symm.trans hidle
  | doRun =>
    obtain ⟨impl, himpl, rfl⟩ := Option.map_eq_some_iff.mp (Option.ite_none_left_eq_some.mp hs).2
    unfold MessageLoopImpl.doRun at himpl
    have hdo (hidle : s.impl.phase = .idle ∨ s.impl.phase = .returned)
        (hrun : { s.impl with phase := if s.impl.terminated then .returned else .running } = impl) :
        ({ s with impl, stage := .entering } : MessageLoopLinux α).Timed := by
      subst hrun
      refine h.moved rfl rfl rfl (fun type now last hflushing => ?_) fun _ => ⟨?_, rfl, le_rfl⟩
      · dsimp only at hflushing
        split at hflushing <;> cases hflushing
      · rcases hidle with hidle | hidle <;> simp [isFlushing, isAt, hidle]
    split at himpl
    next hphase => exact hdo (.inl hphase) (Option.some.inj himpl)
    next hphase => exact hdo (.inr hphase) (Option.some.inj himpl)
    · cases himpl
  | enterRun =>
    obtain ⟨hat, hs⟩ := Option.ite_none_right_eq_some.mp hs
    obtain rfl := Option.some.inj hs
    exact h.moved rfl rfl rfl h.kAll fun _ => ⟨isFlushing_of_isAt hat, rfl, le_rfl⟩
  | checkRunning =>
    obtain ⟨hat, hs⟩ := Option.ite_none_right_eq_some.mp hs
    split at hs
    · obtain rfl := Option.some.inj hs
      exact h.moved rfl rfl rfl h.kAll fun _ => ⟨isFlushing_of_isAt hat, rfl, le_rfl⟩
    · obtain ⟨impl, himpl, rfl⟩ := Option.map_eq_some_iff.mp hs
      simp only [MessageLoopImpl.runReturns, (isAt_iff.mp hat).1, Option.some.injEq] at himpl
      subst himpl
      refine h.moved rfl rfl rfl (fun type now last hflushing => ?_) fun hidle => ?_
      · cases hflushing
        rfl
      · simp [isFlushing] at hidle
  | epollWait =>
    obtain ⟨hat, hs⟩ := Option.ite_none_right_eq_some.mp hs
    obtain rfl := Option.some.inj hs
    rw [Bool.and_eq_true] at hat
    exact h.moved rfl rfl rfl h.kAll fun _ => ⟨isFlushing_of_isAt hat.1, rfl, le_rfl⟩
  | epollFails =>
    obtain ⟨hat, hs⟩ := Option.ite_none_right_eq_some.mp hs
    obtain rfl := Option.some.inj hs
    exact h.moved rfl rfl rfl h.kAll fun _ => ⟨isFlushing_of_isAt hat, rfl, le_rfl⟩
  | timerDrain =>
    obtain ⟨hat, hs⟩ := Option.ite_none_right_eq_some.mp hs
    have hs := Option.some.inj hs
    cases hread : s.timer.isReadable s.now with
    | true =>
      rw [timerDrain_of_readable hread] at hs
      subst hs
      refine h.moved rfl rfl rfl h.kAll fun hidle => ?_
      simp [isFlushing, isAt, (isAt_iff.mp hat).1] at hidle
    | false =>
      rw [timerDrain_of_not_readable hread] at hs
      subst hs
      exact h.moved rfl rfl rfl h.kAll fun _ => ⟨isFlushing_of_isAt hat, rfl, le_rfl⟩
  | runExpiredTasksNow =>
    obtain ⟨hat, hs⟩ := Option.ite_none_right_eq_some.mp hs
    obtain ⟨impl, himpl, rfl⟩ := Option.map_eq_some_iff.mp hs
    simp only [MessageLoopImpl.runExpiredTasks, (isAt_iff.mp hat).1, Option.some.injEq] at himpl
    subst himpl
    refine h.moved rfl rfl rfl (fun type now last hflushing => ?_) fun hidle => ?_
    · cases hflushing
      rfl
    · simp [isFlushing] at hidle
  | flushTask =>
    obtain ⟨r, hr, rfl⟩ := Option.map_eq_some_iff.mp (Option.ite_none_left_eq_some.mp hs).2
    exact h.flushed hr _
  | doTerminate =>
    obtain ⟨-, hs⟩ := Option.ite_none_right_eq_some.mp hs
    obtain rfl := Option.some.inj hs
    obtain ⟨requested, hawake, hfires⟩ := h.awake
    refine ⟨h.heard, h.timely, h.posting, h.kAll, requested, hawake, fun _ time _ later hnow _ hpos => ?_⟩
    exact isReadable_timerRearm (Int.natCast_nonneg s.now) (Int.ofNat_le.mpr hnow) hpos
  | disposeTasks =>
    obtain ⟨impl, himpl, rfl⟩ := Option.map_eq_some_iff.mp (Option.ite_none_left_eq_some.mp hs).2
    unfold MessageLoopImpl.disposeTasks at himpl
    split at himpl
    next hphase =>
      obtain ⟨u, hu, himpl⟩ := Option.bind_eq_some_iff.mp himpl
      obtain rfl := Option.some.inj himpl
      refine h.called (a := .disposeTasks s.impl.queueId) trivial trivial hu rfl (List.Subset.refl _)
        (fun _ _ _ hf => ?_) fun _ => ?_
      · cases hf
      · simp [isFlushing, isAt, hphase]
    · cases himpl
  | tick d =>
    obtain rfl := Option.some.inj hs
    exact h.moved rfl rfl rfl h.kAll fun hidle => ⟨hidle, rfl, Nat.le_add_right _ _⟩

/-- A loop that is created beside others. -/
theorem new_timed {queues : MessageLoopTaskQueues α} {loop : MessageLoopLinux α} {now : Nat} (ha : queues.Awake)
    (ht : queues.Timely) (h : new queues now = some loop) : loop.Timed := by
  obtain ⟨impl, himpl, rfl⟩ := Option.map_eq_some_iff.mp h
  obtain ⟨u, hu, himpl⟩ := Option.bind_eq_some_iff.mp himpl
  obtain rfl := Option.some.inj himpl
  have hempty : queues.createTaskQueue.2.visible queues.createTaskQueue.1 = [] := by
    simp [MessageLoopTaskQueues.createTaskQueue, MessageLoopTaskQueues.visible, MessageLoopTaskQueues.visibleIn,
      MessageLoopTaskQueues.ownerOf]
  have hcreated : queues.step .createTaskQueue = some queues.createTaskQueue.2 := rfl
  have hawake : u.Awake := (ha.step (a := .createTaskQueue) trivial hcreated).step (a := .setWakeable _) hempty hu
  have htimely : u.Timely := (ht.step (a := .createTaskQueue) trivial hcreated).step (a := .setWakeable _) trivial hu
  have hvisible : u.visible queues.createTaskQueue.1 = [] := by
    obtain ⟨e, -, hu⟩ := Option.bind_eq_some_iff.mp hu
    obtain rfl := Option.some.inj (Option.ite_none_left_eq_some.mp hu).2
    simp [MessageLoopTaskQueues.createTaskQueue, MessageLoopTaskQueues.visible, MessageLoopTaskQueues.visibleIn,
      MessageLoopTaskQueues.ownerOf]
  refine ⟨Function.update_self _ _ _, ?_, fun _ h => (by cases h), fun _ _ _ h => (by cases h), none, ?_,
    fun _ _ h => (by cases h)⟩
  · refine ⟨htimely.own, htimely.fresh, htimely.tasks, fun q time hr => ?_⟩
    by_cases hq : q = queues.createTaskQueue.1
    · simp [heard, hq] at hr
    · exact htimely.requests q time (by simpa [heard, hq] using hr)
  · have hsame :
        ({ impl := heard { taskQueue := u, queueId := queues.createTaskQueue.1 }, now } : MessageLoopLinux α).asked
          (u.wakeUps queues.createTaskQueue.1) = u := by
      refine congrArg (fun wakeUps => { u with wakeUps }) ?_
      funext q
      by_cases hq : q = queues.createTaskQueue.1
      · simp [heard, hq]
      · simp [heard, hq]
    exact awake_forget (hsame.symm ▸ hawake) fun _ => hvisible

def machine (terminates : α → Bool) (loop : MessageLoopLinux α) : Machine (MessageLoopLinux α) (Label α) :=
  ⟨loop, step terminates⟩

/-- The loop is created beside others, whose calls announced what they made visible. -/
def Created (loop : MessageLoopLinux α) : Prop :=
  ∃ (before : List (MessageLoopTaskQueues.Label α)) (queues : MessageLoopTaskQueues α) (now : Nat),
    (MessageLoopTaskQueues.machine α).run before = some queues ∧
    (MessageLoopTaskQueues.machine α).Along (fun s a t => MessageLoopTaskQueues.Announces s a t ∧
      MessageLoopTaskQueues.InTime a) (MessageLoopTaskQueues.machine α).init before ∧
    new queues now = some loop

theorem Created.timed {loop : MessageLoopLinux α} (h : Created loop) : loop.Timed := by
  obtain ⟨before, queues, now, hrun, hcalls, hnew⟩ := h
  have hqueues : queues.Awake ∧ queues.Timely := by
    refine Machine.invariant_along (I := fun s => s.Awake ∧ s.Timely)
      (fun s a t h hc hs => ⟨h.1.step hc.1 hs, h.2.step hc.2 hs⟩) ?_ hcalls hrun
    refine ⟨MessageLoopTaskQueues.init_awake, ?_, ?_, ?_, ?_⟩
    · exact fun _ _ h => by cases h
    · exact fun _ _ => rfl
    · exact fun _ _ h => by cases h
    · exact fun _ _ h => by cases h
  exact new_timed hqueues.1 hqueues.2 hnew

end MessageLoopLinux
end Ogre.Fml
