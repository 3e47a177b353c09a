import Mathlib.Algebra.Order.BigOperators.Group.List
import Mathlib.Algebra.Order.Group.Nat
import Ogre.Fml.MessageLoopTermination
import Ogre.Fml.TimerWakeups
import Ogre.Library.Fairness

/-! What is posted to a loop on Linux is run when its time has come, as long as nobody terminates the loop. -/
namespace Ogre.Fml
open Ogre.Library

/-- The post that a task was made of. -/
def DelayedTask.post {α : Type} (task : DelayedTask α) : Post α := ⟨task.task, task.targetTime⟩

namespace MessageLoopTaskQueues
variable {α : Type} {s t : MessageLoopTaskQueues α} {a : Label α} {id : Nat} {x : DelayedTask α}

/-- The queue of a loop that no other is merged with, and that is not paused. -/
def Lone (s : MessageLoopTaskQueues α) (id : Nat) : Prop :=
  ∃ e, s.queueEntries id = some e ∧ e.wakeable = true ∧ e.ownerOf = [] ∧ e.subsumedBy = none ∧
    e.taskSource.secondaryPauseRequests = 0

/-- The call is for other queues. -/
def Apart (id : Nat) : Label α → Prop
  | .createTaskQueue => True
  | .setWakeable q | .registerTask q _ _ _ | .getNextTaskToRun q _ | .pauseSecondarySource q | .resumeSecondarySource q |
    .disposeTasks q | .dispose q => q ≠ id
  | .merge owner subsumed | .unmerge owner subsumed => owner ≠ id ∧ subsumed ≠ id

theorem Lone.unmerged (h : s.Lone id) : s.Unmerged id := by
  obtain ⟨e, he, -, ho, hs, -⟩ := h
  exact ⟨live_of_entry he, (subsumedBy_eq he).trans hs, (ownerOf_eq he).trans ho⟩

theorem Lone.wakes (h : s.Lone id) : s.Wakes id := by
  obtain ⟨e, he, hw, -, hs, -⟩ := h
  exact ⟨e, he, hs, hw⟩

/-- All tasks of the queue are visible. -/
theorem Lone.mem_visible (h : s.Lone id) : x ∈ s.visible id ↔ x ∈ s.pending id := by
  obtain ⟨e, he, -, ho, -, hp⟩ := h
  rw [visible, ownerOf_eq he, ho, visibleIn_eq he, pending_eq he, List.flatMap_nil, List.append_nil,
    TaskSource.mem_visible, TaskSource.mem_tasks]
  simp [hp]

private theorem Lone.same (h : s.Lone id) (hs : t.queueEntries id = s.queueEntries id) : t.Lone id := by
  rw [Lone, hs]
  exact h

private theorem Lone.updateSource {f : TaskSource α → TaskSource α} (h : s.Lone id)
    (hf : ∀ source, (f source).secondaryPauseRequests = source.secondaryPauseRequests) :
    (s.updateSource id f).Lone id := by
  obtain ⟨e, he, hw, ho, hs, hp⟩ := h
  exact ⟨{ e with taskSource := f e.taskSource }, by simp [MessageLoopTaskQueues.updateSource, he], hw, ho, hs,
    (hf _).trans hp⟩

theorem Lone.registerTask {task : α} {targetTime : Int} {grade : TaskSourceGrade} (h : s.Lone id)
    (ht : s.step (.registerTask id task targetTime grade) = some t) : t.Lone id := by
  cases effect_of_step ht with
  | registered _ task _ _ hs =>
    exact (h.updateSource fun _ => TaskSource.secondaryPauseRequests_registerTask).same
      (congrFun hs.queueEntries id)

theorem Lone.getNextTaskToRun {now : Int} (h : s.Lone id) (ho : s.OwnSources)
    (ht : s.step (.getNextTaskToRun id now) = some t) : t.Lone id := by
  cases effect_of_step ht with
  | notReturned _ _ _ hs => exact h.same (congrFun hs.queueEntries id)
  | returned _ _ top hpeek _ _ hs =>
    have hid : top.taskQueueId = id := by
      simpa [h.unmerged.ownerOf] using (peek_source ho hpeek).1
    rw [hid] at hs
    exact (h.updateSource fun _ => TaskSource.secondaryPauseRequests_popTask).same (congrFun hs.queueEntries id)

theorem pending_registerTask {task : α} {targetTime : Int} {grade : TaskSourceGrade}
    (ht : s.step (.registerTask id task targetTime grade) = some t) :
    t.pending id = ⟨sizeOfInt s.order, task, targetTime, grade⟩ ::ₘ s.pending id := by
  cases effect_of_step ht with
  | registered _ task hid horder hs =>
    obtain ⟨e, he⟩ := hid
    rw [hs.pending, pending_updateSource he, if_pos rfl, TaskSource.tasks_registerTask, pending_eq he, ← horder]

theorem Lone.disposeTasks (h : s.Lone id) (ht : s.step (.disposeTasks id) = some t) : t.Lone id := by
  cases effect_of_step ht with
  | tasksDisposed _ d _ hs =>
    obtain ⟨e, he, hw, ho, hs', hp⟩ := h
    refine ⟨shutDown e, ?_, hw, ho, hs', hp⟩
    rw [hs.queueEntries]
    simp [he]

/-- Nobody owns the queue. -/
private theorem Lone.not_owned {q : Nat} {e : TaskQueueEntry α} (h : s.Lone id) (hm : s.Merged)
    (he : s.queueEntries q = some e) : id ∉ e.ownerOf := by
  intro hmem
  rw [← ownerOf_eq he] at hmem
  have hsome := (hm.inverse q id).mp hmem
  rw [h.unmerged.subsumedBy] at hsome
  cases hsome

/-- Calls for other queues leave it as it is. -/
theorem Lone.apart (h : s.Lone id) (hm : s.Merged) (ho : s.OwnSources) (hf : s.Fresh) (ha : Apart id a)
    (ht : s.step a = some t) : t.queueEntries id = s.queueEntries id := by
  have hupdate {q : Nat} {f : TaskQueueEntry α → TaskQueueEntry α} (hq : q ≠ id) :
      (s.updateEntry q f).queueEntries id = s.queueEntries id := by
    rw [queueEntries_updateEntry, if_neg (Ne.symm hq)]
  cases effect_of_step ht with
  | created hs =>
    have hne : id ≠ s.taskQueueIdCounter := by
      rintro rfl
      have hlive := h.unmerged.live
      rw [Live, hf _ le_rfl] at hlive
      cases hlive
    exact (congrFun hs.queueEntries id).trans (Function.update_of_ne hne _ _)
  | wakeable q hs => exact (congrFun hs.queueEntries id).trans (hupdate ha)
  | registered q task _ _ hs => exact (congrFun hs.queueEntries id).trans (hupdate ha)
  | notReturned q now _ hs => exact congrFun hs.queueEntries id
  | returned q now top hpeek _ _ hs =>
    refine (congrFun hs.queueEntries id).trans (hupdate ?_)
    rintro rfl
    rcases (peek_source ho hpeek).1 with heq | hmem
    · exact ha heq.symm
    · have hsome := (hm.inverse q _).mp hmem
      rw [h.unmerged.subsumedBy] at hsome
      cases hsome
  | notMerged owner subsumed hs => exact congrFun hs.queueEntries id
  | merged owner subsumed o e _ _ _ _ _ _ hs =>
    refine (congrFun hs.queueEntries id).trans ?_
    rw [link, queueEntries_updateEntry, if_neg (Ne.symm ha.2)]
    exact hupdate ha.1
  | notUnmerged owner subsumed hs => exact congrFun hs.queueEntries id
  | unmerged owner subsumed o e _ _ _ _ hs =>
    refine (congrFun hs.queueEntries id).trans ?_
    rw [unlink, queueEntries_updateEntry, if_neg (Ne.symm ha.1)]
    exact hupdate ha.2
  | paused q hs => exact (congrFun hs.queueEntries id).trans (hupdate ha)
  | resumed q hs => exact (congrFun hs.queueEntries id).trans (hupdate ha)
  | tasksDisposed q e he hs =>
    refine (congrFun hs.queueEntries id).trans (if_neg ?_)
    exact not_or.mpr ⟨Ne.symm ha, h.not_owned hm he⟩
  | disposed q e he hs =>
    refine (congrFun hs.queueEntries id).trans (if_neg ?_)
    exact not_or.mpr ⟨Ne.symm ha, h.not_owned hm he⟩

/-- A turn of a flush: the first task is taken if it is due. -/
theorem Lone.turn (h : s.Lone id) (hs : s.Sound) (now : Int) : ∃ r t, s.getNextTaskToRun id now = some (r, t) ∧
    match r with
    | none => (∀ x ∈ s.pending id, now < x.targetTime) ∧ t.pending id = s.pending id
    | some x => x.targetTime ≤ now ∧ (∀ y ∈ s.pending id, x.targetTime ≤ y.targetTime) ∧
        s.pending id = x ::ₘ t.pending id := by
  obtain ⟨r, t, ht, hr⟩ := takesDue_before hs h.unmerged.live now
  refine ⟨r, t, ht, ?_⟩
  cases r with
  | none =>
    obtain ⟨hnone, hpending⟩ := hr
    refine ⟨fun x hx => ?_, hpending id⟩
    exact hnone.resolve_left (not_not.mpr h.unmerged.subsumedBy) x (h.mem_visible.mpr hx)
  | some x =>
    obtain ⟨-, -, hle, hbefore, p, hp, hpending, -⟩ := hr
    obtain rfl : p = id := by simpa [h.unmerged.ownerOf] using hp
    exact ⟨hle, fun y hy => (hbefore y (h.mem_visible.mpr hy)).targetTime, hpending⟩

end MessageLoopTaskQueues

namespace MessageLoopLinux
variable {α : Type} {terminates : α → Bool} {s t : MessageLoopLinux α} {a : Label α}

theorem Timed.sound (h : s.Timed) : s.impl.taskQueue.Sound := by
  obtain ⟨requested, hawake, -⟩ := h.awake
  have hm := hawake.merged
  exact ⟨⟨⟨hm.inverse, hm.exclusive, hm.irreflexive, hm.live⟩, hm.below⟩, h.timely.own, h.timely.fresh, hawake.pauses⟩

/-- The tasks of the loop. -/
def pending (s : MessageLoopLinux α) : Multiset (DelayedTask α) := s.impl.taskQueue.pending s.impl.queueId

/-- What was registered with the loop, and what it ran, with the time. -/
structure Log (α : Type) where
  registered : List (Post α) := []
  ran : List (Post α × Nat) := []

def record (s : MessageLoopLinux α) (a : Label α) (_ : MessageLoopLinux α) (g : Log α) : Log α :=
  match a with
  | .registerTask i => { g with registered := g.registered ++ s.impl.posting[i]?.toList }
  | .flushTask => { g with ran := g.ran ++
      ((s.impl.flushTask.bind (·.1)).map fun task => (DelayedTask.post task, s.now)).toList }
  | _ => g

def logged (terminates : α → Bool) (loop : MessageLoopLinux α) : Machine (MessageLoopLinux α × Log α) (Label α) :=
  (machine terminates loop).withHistory {} record

/-- The loop has its queue for itself, the thread is where it should be, and each task that was registered was run or
is still there, unless it was dropped in the end. -/
structure Steady (s : MessageLoopLinux α) (g : Log α) : Prop where
  timed : s.Timed
  lone : s.impl.taskQueue.Lone s.impl.queueId
  books : s.impl.phase ≠ .returned → (↑g.registered : Multiset (Post α)) =
    ↑(g.ran.map (·.1)) + s.pending.map DelayedTask.post
  inTime : ∀ r ∈ g.ran, r.1.targetTime ≤ r.2
  begun : s.invoking = true → ∃ now last, s.impl.phase = .flushing .kAll now last
  flushing : ∀ now last, s.impl.phase = .flushing .kAll now last → s.stage = .looping ∧ now ≤ s.now
  running : s.impl.terminated = false → s.invoking = false → s.impl.phase = .idle ∨ s.isAt .entering ∨
    s.running = true ∧ (s.impl.phase = .running ∨ ∃ now, s.impl.phase = .flushing .kAll now false)

/-- Others have nothing to do with the queue of the loop, and the kernel does not fail. -/
def Undisturbed (s : MessageLoopLinux α) (a : Label α) (t : MessageLoopLinux α) : Prop :=
  Announced s a t ∧ match a with
    | .queues b => MessageLoopTaskQueues.Apart s.impl.queueId b
    | .epollFails => False
    | _ => True

/-- A step that leaves the queue alone, and the thread where it is. -/
private theorem Steady.kept {g : Log α} (h : Steady s g) (ht : t.Timed) (hqueue : t.impl.taskQueue = s.impl.taskQueue)
    (hid : t.impl.queueId = s.impl.queueId) (hphase : t.impl.phase = s.impl.phase) (hstage : t.stage = s.stage)
    (hrunning : t.running = s.running) (hinvoking : t.invoking = s.invoking)
    (hterminated : t.impl.terminated = s.impl.terminated) (hnow : s.now ≤ t.now) : Steady t g where
  timed := ht
  lone := by
    rw [hqueue, hid]
    exact h.lone
  books hne := by
    rw [pending, hqueue, hid]
    exact h.books (hphase ▸ hne)
  inTime := h.inTime
  begun hi := by
    rw [hphase]
    exact h.begun (hinvoking ▸ hi)
  flushing now last hf := by
    rw [hstage]
    exact (h.flushing now last (hphase ▸ hf)).imp_right fun hle => hle.trans (Int.ofNat_le.mpr hnow)
  running hterm hi := by
    rw [isAt, hphase, hstage, hrunning]
    exact h.running (hterminated ▸ hterm) (hinvoking ▸ hi)

/-- In its loop the thread goes on, unless it was told to stop. -/
private theorem Steady.isRunning {g : Log α} {stage : Stage} (h : Steady s g) (hat : s.isAt stage = true)
    (hne : stage ≠ .entering) (hterm : s.impl.terminated = false) (hi : s.invoking = false) : s.running = true := by
  obtain ⟨hphase, hstage⟩ := isAt_iff.mp hat
  rcases h.running hterm hi with hidle | hentering | ⟨hrunning, -⟩
  · cases hphase.symm.trans hidle
  · exact absurd (hstage.symm.trans (isAt_iff.mp hentering).2) hne
  · exact hrunning

private theorem Steady.advanced {g : Log α} {stage next : Stage} {timer : TimerFd} (h : Steady s g)
    (hat : s.isAt stage = true) (hne : stage ≠ .entering)
    (ht : ({ s with stage := next, timer } : MessageLoopLinux α).Timed) :
    Steady { s with stage := next, timer } g := by
  have hphase := (isAt_iff.mp hat).1
  refine ⟨ht, h.lone, h.books, h.inTime, h.begun, fun now last hf => ?_,
    fun hterm hi => .inr (.inr ⟨h.isRunning hat hne hterm hi, .inl hphase⟩)⟩
  cases hphase.symm.trans hf

/-- A turn of the flush either runs the first task that is due, or ends the flush where none is. -/
theorem Steady.turn {g : Log α} {r : Option (DelayedTask α) × MessageLoopImpl α} (h : Steady s g)
    (hr : s.impl.flushTask = some r) : ∃ now last u, s.impl.phase = .flushing .kAll now last ∧
      s.impl.taskQueue.getNextTaskToRun s.impl.queueId now = some (r.1, u) ∧
      r.2 = { s.impl with
        taskQueue := u
        phase := if r.1.isNone then if last then .disposing else .running else s.impl.phase } ∧
      match r.1 with
      | none => (∀ x ∈ s.pending, now < x.targetTime) ∧ u.pending s.impl.queueId = s.pending
      | some x => x.targetTime ≤ now ∧ (∀ y ∈ s.pending, x.targetTime ≤ y.targetTime) ∧
          s.pending = x ::ₘ u.pending s.impl.queueId := by
  unfold MessageLoopImpl.flushTask at hr
  split at hr
  next type now last hphase =>
    obtain rfl := h.timed.kAll type now last hphase
    obtain ⟨⟨task, u⟩, hu, hr⟩ := Option.bind_eq_some_iff.mp hr
    obtain rfl := Option.some.inj hr
    obtain ⟨task', u', hu', hmatch⟩ := h.lone.turn h.timed.sound now
    obtain ⟨rfl, rfl⟩ := Prod.mk.inj (Option.some.inj (hu.symm.trans hu'))
    refine ⟨now, last, u, hphase, hu, ?_, hmatch⟩
    simp
  · cases hr

private theorem Steady.flushed {g : Log α} {r : Option (DelayedTask α) × MessageLoopImpl α} (h : Steady s g)
    (hr : s.impl.flushTask = some r) (hinvoking : s.invoking = false)
    (ht : ({ s.wakeUp r.2 with invoking := r.1.any fun task => terminates task.task } : MessageLoopLinux α).Timed) :
    Steady { s.wakeUp r.2 with invoking := r.1.any fun task => terminates task.task } (record s .flushTask t g) := by
  obtain ⟨now, last, u, hphase, hu, himpl, hturn⟩ := h.turn hr
  have hran : record s .flushTask t g = { g with ran := g.ran ++ (r.1.map fun task => (task.post, s.now)).toList } := by
    simp [record, hr]
  have hlone : u.Lone s.impl.queueId := h.lone.getNextTaskToRun h.timed.sound.own
    (Option.map_eq_some_iff.mpr ⟨_, hu, rfl⟩)
  rw [himpl] at ht ⊢
  rw [hran]
  obtain ⟨task, impl⟩ := r
  obtain ⟨hstage, hnow⟩ := h.flushing now last hphase
  have hbooks := h.books (by simp [hphase])
  have hrunning (hterm : s.impl.terminated = false) : s.running = true ∧ last = false := by
    rcases h.running hterm hinvoking with hidle | hat | ⟨hrunning, hidle | ⟨_, hidle⟩⟩
    · cases hphase.symm.trans hidle
    · cases hphase.symm.trans (isAt_iff.mp hat).1
    · cases hphase.symm.trans hidle
    · cases hphase.symm.trans hidle
      exact ⟨hrunning, rfl⟩
  cases task with
  | none =>
    refine ⟨ht, hlone, fun _ => ?_, by simpa using h.inTime, fun hi => (by cases hi), fun now' last' hf => ?_,
      fun hterm hi => ?_⟩
    · change _ = _ + (u.pending s.impl.queueId).map DelayedTask.post
      rw [hturn.2]
      simpa using hbooks
    · cases last <;> cases hf
    · obtain ⟨hrun, rfl⟩ := hrunning hterm
      exact .inr (.inr ⟨hrun, .inl rfl⟩)
  | some x =>
    refine ⟨ht, hlone, fun _ => ?_, fun r hr => ?_, fun _ => ⟨now, last, hphase⟩, h.flushing, fun hterm _ => ?_⟩
    · change _ = _ + (u.pending s.impl.queueId).map DelayedTask.post
      rw [hbooks, hturn.2.2, Multiset.map_cons, Option.map_some, Option.toList_some, List.map_append,
        ← Multiset.coe_add,
        add_assoc]
      rfl
    · rcases List.mem_append.mp hr with hr | hr
      · exact h.inTime r hr
      · obtain rfl : r = (x.post, s.now) := by simpa using hr
        exact hturn.1.trans hnow
    · obtain ⟨hrun, rfl⟩ := hrunning hterm
      exact .inr (.inr ⟨hrun, .inr ⟨now, hphase⟩⟩)

theorem Steady.step {g : Log α} (h : Steady s g) (hc : Undisturbed s a t) (hs : s.step terminates a = some t) :
    Steady t (record s a t g) := by
  have ht : t.Timed := h.timed.step hc.1 hs
  cases a with
  | postTask post =>
    obtain rfl := Option.some.inj hs
    have hkept : ∀ impl, impl = s.impl ∨ impl = { s.impl with posting := s.impl.posting ++ [post] } →
        ({ s with impl } : MessageLoopLinux α).Timed → Steady { s with impl } g := by
      rintro impl (rfl | rfl) ht
      · exact h.kept ht rfl rfl rfl rfl rfl rfl rfl le_rfl
      · exact h.kept ht rfl rfl rfl rfl rfl rfl rfl le_rfl
    refine hkept _ ?_ ht
    unfold MessageLoopImpl.postTask
    split
    · exact .inl rfl
    · exact .inr rfl
  | registerTask i =>
    obtain ⟨impl, himpl, rfl⟩ := Option.map_eq_some_iff.mp hs
    obtain ⟨post, hpost, himpl⟩ := Option.bind_eq_some_iff.mp himpl
    obtain ⟨u, hu, himpl⟩ := Option.bind_eq_some_iff.mp himpl
    obtain rfl := Option.some.inj himpl
    obtain ⟨task, targetTime⟩ := post
    have hstep : s.impl.taskQueue.step (.registerTask s.impl.queueId task targetTime .kUnspecified) = some u := hu
    have hlone : u.Lone s.impl.queueId := h.lone.registerTask hstep
    refine ⟨ht, hlone, fun hne => ?_, h.inTime, h.begun, h.flushing, h.running⟩
    have hregistered (t) : (record s (.registerTask i) t g).registered = g.registered ++ [⟨task, targetTime⟩] := by
      simp [record, hpost]
    have hpending := MessageLoopTaskQueues.pending_registerTask hstep
    change _ = _ + (u.pending s.impl.queueId).map DelayedTask.post
    rw [hregistered, ← Multiset.coe_add, h.books hne, hpending, Multiset.map_cons, Multiset.coe_singleton, add_assoc,
      add_comm (Multiset.map _ _), Multiset.singleton_add]
    rfl
  | queues b =>
    obtain ⟨u, hu, rfl⟩ := Option.map_eq_some_iff.mp (Option.ite_none_left_eq_some.mp hs).2
    have hentry := h.lone.apart h.timed.sound.merged.toMerged h.timed.sound.own h.timed.sound.fresh hc.2 hu
    have hlone : u.Lone s.impl.queueId := by
      rw [MessageLoopTaskQueues.Lone, hentry]
      exact h.lone
    refine ⟨ht, hlone, fun hne => ?_, h.inTime, h.begun, h.flushing, h.running⟩
    have hpending : u.pending s.impl.queueId = s.pending := by
      rw [MessageLoopTaskQueues.pending, hentry]
      rfl
    change _ = _ + (u.pending s.impl.queueId).map DelayedTask.post
    rw [hpending]
    exact h.books hne
  | doRun =>
    obtain ⟨hinvoking, hs⟩ := Option.ite_none_left_eq_some.mp hs
    obtain ⟨impl, himpl, rfl⟩ := Option.map_eq_some_iff.mp hs
    have hdo (hphase : s.impl.phase = .idle ∨ s.impl.phase = .returned)
        (hrun : { s.impl with phase := if s.impl.terminated then .returned else .running } = impl) :
        Steady { s with impl, stage := .entering } g := by
      subst hrun
      refine ⟨ht, h.lone, fun hne => ?_, h.inTime, fun hi => absurd hi hinvoking, fun now last hf => ?_,
        fun hterm _ => ?_⟩
      · refine h.books fun hreturned => ?_
        have hterm : s.impl.terminated = false := by
          rw [Bool.eq_false_iff]
          exact fun hterm => hne (if_pos hterm)
        rcases h.running hterm (Bool.eq_false_iff.mpr hinvoking) with hidle | hat | ⟨-, hidle | ⟨_, hidle⟩⟩
        · rw [hidle] at hreturned
          cases hreturned
        · rw [(isAt_iff.mp hat).1] at hreturned
          cases hreturned
        · rw [hidle] at hreturned
          cases hreturned
        · rw [hidle] at hreturned
          cases hreturned
      · dsimp only at hf
        split at hf <;> cases hf
      · have hterm : s.impl.terminated = false := hterm
        exact .inr (.inl (isAt_iff.mpr ⟨by simp [hterm], rfl⟩))
    unfold MessageLoopImpl.doRun at himpl
    split at himpl
    next hphase => exact hdo (.inl hphase) (Option.some.inj himpl)
    next hphase => exact hdo (.inr hphase) (Option.some.inj himpl)
    · cases himpl
  | enterRun =>
    obtain ⟨hat, hs⟩ := Option.ite_none_right_eq_some.mp hs
    obtain rfl := Option.some.inj hs
    have hphase := (isAt_iff.mp hat).1
    refine ⟨ht, h.lone, h.books, h.inTime, h.begun, fun now last hf => ?_, fun _ _ => .inr (.inr ⟨rfl, .inl hphase⟩)⟩
    cases hphase.symm.trans hf
  | checkRunning =>
    obtain ⟨hat, hs⟩ := Option.ite_none_right_eq_some.mp hs
    split at hs
    · obtain rfl := Option.some.inj hs
      exact h.advanced hat (by simp) ht
    · obtain ⟨impl, himpl, rfl⟩ := Option.map_eq_some_iff.mp hs
      have hphase := (isAt_iff.mp hat).1
      simp only [MessageLoopImpl.runReturns, hphase, Option.some.injEq] at himpl
      subst himpl
      refine ⟨ht, h.lone, fun _ => h.books (by simp [hphase]), h.inTime, fun _ => ⟨_, _, rfl⟩, fun now last hf => ?_,
        fun hterm => by cases hterm⟩
      cases hf
      exact ⟨(isAt_iff.mp hat).2, le_rfl⟩
  | epollWait =>
    obtain ⟨hat, hs⟩ := Option.ite_none_right_eq_some.mp hs
    obtain rfl := Option.some.inj hs
    exact h.advanced (Bool.and_eq_true_iff.mp hat).1 (by simp) ht
  | epollFails => exact absurd hc.2 id
  | timerDrain =>
    obtain ⟨hat, hs⟩ := Option.ite_none_right_eq_some.mp hs
    obtain rfl := Option.some.inj hs
    exact h.advanced hat (by simp) ht
  | runExpiredTasksNow =>
    obtain ⟨hat, hs⟩ := Option.ite_none_right_eq_some.mp hs
    obtain ⟨impl, himpl, rfl⟩ := Option.map_eq_some_iff.mp hs
    have hphase := (isAt_iff.mp hat).1
    simp only [MessageLoopImpl.runExpiredTasks, hphase, Option.some.injEq] at himpl
    subst himpl
    refine ⟨ht, h.lone, fun _ => h.books (by simp [hphase]), h.inTime, fun _ => ⟨_, _, rfl⟩, fun now last hf => ?_,
      fun hterm hi => .inr (.inr ⟨h.isRunning hat (by simp) hterm hi, .inr ⟨_, rfl⟩⟩)⟩
    cases hf
    exact ⟨rfl, le_rfl⟩
  | flushTask =>
    obtain ⟨hinvoking, hs⟩ := Option.ite_none_left_eq_some.mp hs
    obtain ⟨r, hr, rfl⟩ := Option.map_eq_some_iff.mp hs
    exact h.flushed hr (Bool.eq_false_iff.mpr hinvoking) ht
  | doTerminate =>
    obtain ⟨hi, hs⟩ := Option.ite_none_right_eq_some.mp hs
    obtain rfl := Option.some.inj hs
    exact ⟨ht, h.lone, h.books, h.inTime, fun hi => (by cases hi), h.flushing, fun hterm => (by cases hterm)⟩
  | disposeTasks =>
    obtain ⟨hinvoking, hs⟩ := Option.ite_none_left_eq_some.mp hs
    obtain ⟨impl, himpl, rfl⟩ := Option.map_eq_some_iff.mp hs
    unfold MessageLoopImpl.disposeTasks at himpl
    split at himpl
    next hphase =>
      obtain ⟨u, hu, himpl⟩ := Option.bind_eq_some_iff.mp himpl
      obtain rfl := Option.some.inj himpl
      have hlone : u.Lone s.impl.queueId := h.lone.disposeTasks hu
      refine ⟨ht, hlone, fun hne => absurd rfl hne, h.inTime, fun hi => absurd hi hinvoking,
        fun now last hf => (by cases hf),
        fun hterm hi => ?_⟩
      rcases h.running hterm hi with hidle | hat | ⟨-, hidle | ⟨_, hidle⟩⟩
      · cases hphase.symm.trans hidle
      · cases hphase.symm.trans (isAt_iff.mp hat).1
      · cases hphase.symm.trans hidle
      · cases hphase.symm.trans hidle
    · cases himpl
  | tick d =>
    obtain rfl := Option.some.inj hs
    exact h.kept ht rfl rfl rfl rfl rfl rfl rfl (Nat.le_add_right _ _)

/-- The steps of the loop's own thread. -/
def ofThread : Label α → Bool
  | .doRun | .enterRun | .checkRunning | .epollWait | .timerDrain | .runExpiredTasksNow | .flushTask | .doTerminate |
    .disposeTasks => true
  | .postTask _ | .registerTask _ | .queues _ | .epollFails | .tick _ => false

/-- The tasks that are due at a time, with those that are on their way into the queue. -/
def due (time : Int) (s : MessageLoopLinux α) : Nat :=
  s.pending.countP (·.targetTime ≤ time) + s.impl.posting.countP (·.targetTime ≤ time)

/-- The steps of the thread until it takes a task that is due at the time. -/
def toGo (time : Int) (s : MessageLoopLinux α) : Nat :=
  match s.impl.phase with
  | .idle => 8
  | .running => match s.stage with
    | .entering => 7
    | .looping => 5
    | .waiting => 4
    | .woken => 3
    | .drained => 2
  | .flushing _ now _ => if time ≤ now then 1 else 6
  | .disposing | .returned => 0

/-- A loop that goes on, with a task that is due at a time that has passed. -/
structure Overdue (time : Nat) (s : MessageLoopLinux α) (g : Log α) : Prop where
  steady : Steady s g
  passed : time < s.now
  goesOn : s.impl.terminated = false ∧ s.invoking = false
  task : ∃ x ∈ s.pending, x.targetTime ≤ time

theorem Overdue.readable {time : Nat} {g : Log α} (h : Overdue time s g) (hf : s.isFlushing = false) :
    s.timer.isReadable s.now = true := by
  obtain ⟨x, hx, hle⟩ := h.task
  have hpassed := h.passed
  exact h.steady.timed.fires hf h.steady.lone.wakes (h.steady.lone.mem_visible.mpr hx) s.now le_rfl (by omega)
    (by omega)

/-- The thread can always go on. -/
theorem Overdue.exists_step {time : Nat} {g : Log α} (h : Overdue time s g) :
    ∃ a, ofThread a = true ∧ (s.step terminates a).isSome := by
  obtain ⟨hterm, hi⟩ := h.goesOn
  rcases h.steady.running hterm hi with hidle | hat | ⟨hrunning, hphase | ⟨now, hphase⟩⟩
  · exact ⟨.doRun, rfl, by simp [step, hi, MessageLoopImpl.doRun, hidle]⟩
  · exact ⟨.enterRun, rfl, by simp [step, hat]⟩
  · have hat : s.isAt s.stage = true := isAt_iff.mpr ⟨hphase, rfl⟩
    cases hstage : s.stage with
    | entering => exact ⟨.enterRun, rfl, by simp [step, ← hstage, hat]⟩
    | looping => exact ⟨.checkRunning, rfl, by simp [step, ← hstage, hat, hrunning]⟩
    | waiting =>
      have hread := h.readable ((isFlushing_of_isAt hat).trans (by simp [hstage]))
      exact ⟨.epollWait, rfl, by simp [step, ← hstage, hat, hread]⟩
    | woken => exact ⟨.timerDrain, rfl, by simp [step, ← hstage, hat]⟩
    | drained =>
      exact ⟨.runExpiredTasksNow, rfl, by simp [step, ← hstage, hat, MessageLoopImpl.runExpiredTasks, hphase]⟩
  · obtain ⟨r, u, hu, -⟩ := h.steady.lone.turn h.steady.timed.sound now
    exact ⟨.flushTask, rfl, by simp [step, hi, MessageLoopImpl.flushTask, hphase, hu]⟩

/-- What the steps that have to do with no closure do for the end of the loop. -/
theorem told_kept (hflush : a ≠ .flushTask) (hterminate : a ≠ .doTerminate) (hs : s.step terminates a = some t) :
    t.invoking = s.invoking ∧ (t.impl.terminated = s.impl.terminated ∨
      t.impl.terminated = true ∧ s.isAt .looping = true ∧ s.running = false) := by
  cases a with
  | postTask post =>
    obtain rfl := Option.some.inj hs
    refine ⟨rfl, .inl ?_⟩
    unfold MessageLoopImpl.postTask
    split <;> rfl
  | registerTask i =>
    obtain ⟨impl, himpl, rfl⟩ := Option.map_eq_some_iff.mp hs
    obtain ⟨post, -, himpl⟩ := Option.bind_eq_some_iff.mp himpl
    obtain ⟨u, -, himpl⟩ := Option.bind_eq_some_iff.mp himpl
    obtain rfl := Option.some.inj himpl
    exact ⟨rfl, .inl rfl⟩
  | queues b =>
    obtain ⟨u, -, rfl⟩ := Option.map_eq_some_iff.mp (Option.ite_none_left_eq_some.mp hs).2
    exact ⟨rfl, .inl rfl⟩
  | doRun =>
    obtain ⟨impl, himpl, rfl⟩ := Option.map_eq_some_iff.mp (Option.ite_none_left_eq_some.mp hs).2
    unfold MessageLoopImpl.doRun at himpl
    split at himpl
    · rw [← Option.some.inj himpl]
      exact ⟨rfl, .inl rfl⟩
    · rw [← Option.some.inj himpl]
      exact ⟨rfl, .inl rfl⟩
    · cases himpl
  | enterRun | epollFails | timerDrain | epollWait =>
    obtain rfl := Option.some.inj (Option.ite_none_right_eq_some.mp hs).2
    exact ⟨rfl, .inl rfl⟩
  | checkRunning =>
    obtain ⟨hat, hs⟩ := Option.ite_none_right_eq_some.mp hs
    split at hs
    · obtain rfl := Option.some.inj hs
      exact ⟨rfl, .inl rfl⟩
    next hrunning =>
      obtain ⟨impl, himpl, rfl⟩ := Option.map_eq_some_iff.mp hs
      simp only [MessageLoopImpl.runReturns, (isAt_iff.mp hat).1, Option.some.injEq] at himpl
      subst himpl
      exact ⟨rfl, .inr ⟨rfl, hat, Bool.eq_false_iff.mpr hrunning⟩⟩
  | runExpiredTasksNow =>
    obtain ⟨hat, hs⟩ := Option.ite_none_right_eq_some.mp hs
    obtain ⟨impl, himpl, rfl⟩ := Option.map_eq_some_iff.mp hs
    simp only [MessageLoopImpl.runExpiredTasks, (isAt_iff.mp hat).1, Option.some.injEq] at himpl
    subst himpl
    exact ⟨rfl, .inl rfl⟩
  | disposeTasks =>
    obtain ⟨impl, himpl, rfl⟩ := Option.map_eq_some_iff.mp (Option.ite_none_left_eq_some.mp hs).2
    unfold MessageLoopImpl.disposeTasks at himpl
    split at himpl
    · obtain ⟨u, -, himpl⟩ := Option.bind_eq_some_iff.mp himpl
      rw [← Option.some.inj himpl]
      exact ⟨rfl, .inl rfl⟩
    · cases himpl
  | tick d =>
    obtain rfl := Option.some.inj hs
    exact ⟨rfl, .inl rfl⟩
  | flushTask => exact absurd rfl hflush
  | doTerminate => exact absurd rfl hterminate

/-- Only a closure terminates a loop. -/
theorem Steady.terminated_step {g : Log α} (h : Steady s g) (hterm : s.impl.terminated = false)
    (hi : s.invoking = false)
    (hs : s.step terminates a = some t) : t.impl.terminated = false := by
  by_cases hflush : a = .flushTask
  · subst hflush
    obtain ⟨r, hr, rfl⟩ := Option.map_eq_some_iff.mp (Option.ite_none_left_eq_some.mp hs).2
    obtain ⟨now, last, u, -, -, himpl, -⟩ := h.turn hr
    rw [himpl]
    exact hterm
  by_cases hterminate : a = .doTerminate
  · subst hterminate
    obtain ⟨hinvoking, -⟩ := Option.ite_none_right_eq_some.mp hs
    exact absurd (hi.symm.trans hinvoking) Bool.false_ne_true
  rcases (told_kept hflush hterminate hs).2 with hsame | ⟨-, hat, hstopped⟩
  · exact hsame.trans hterm
  · exact absurd (hstopped.symm.trans (h.isRunning hat (by simp) hterm hi)) Bool.false_ne_true

/-- A loop was told to stop exactly if it ran a closure that does so. -/
def Told (terminates : α → Bool) (s : MessageLoopLinux α) (g : Log α) : Prop :=
  (s.invoking = true ∨ s.impl.terminated = true) ↔ ∃ r ∈ g.ran, terminates r.1.task = true

theorem Created.told {loop : MessageLoopLinux α} (h : Created loop) : Told terminates loop {} := by
  obtain ⟨before, queues, now, -, -, hnew⟩ := h
  obtain ⟨impl, himpl, rfl⟩ := Option.map_eq_some_iff.mp hnew
  obtain ⟨u, -, himpl⟩ := Option.bind_eq_some_iff.mp himpl
  obtain rfl := Option.some.inj himpl
  refine iff_of_false ?_ ?_
  · rintro (hi | hterm)
    · cases hi
    · cases hterm
  · rintro ⟨r, hr, -⟩
    cases hr

theorem Steady.told_step {g : Log α} (h : Steady s g) (ht : Told terminates s g)
    (hs : s.step terminates a = some t) : Told terminates t (record s a t g) := by
  by_cases hflush : a = .flushTask
  · subst hflush
    obtain ⟨hinvoking, hs⟩ := Option.ite_none_left_eq_some.mp hs
    obtain ⟨r, hr, rfl⟩ := Option.map_eq_some_iff.mp hs
    obtain ⟨now, last, u, -, -, himpl, -⟩ := h.turn hr
    rw [himpl]
    have hold : s.impl.terminated = true ↔ ∃ r ∈ g.ran, terminates r.1.task = true :=
      (or_iff_right hinvoking).symm.trans ht
    obtain ⟨task, impl⟩ := r
    cases task with
    | none =>
      have hran (t) : (record s .flushTask t g).ran = g.ran := by simp [record, hr]
      rw [Told, hran, ← hold]
      exact or_iff_right Bool.false_ne_true
    | some x =>
      have hran (t) : (record s .flushTask t g).ran = g.ran ++ [(x.post, s.now)] := by simp [record, hr]
      rw [Told, hran]
      simp only [List.mem_append, List.mem_singleton, or_and_right, exists_or, exists_eq_left, ← hold]
      exact or_comm
  by_cases hterminate : a = .doTerminate
  · subst hterminate
    obtain ⟨hinvoking, hs⟩ := Option.ite_none_right_eq_some.mp hs
    obtain rfl := Option.some.inj hs
    exact iff_of_true (.inr rfl) (ht.mp (.inl hinvoking))
  have hran : (record s a t g).ran = g.ran := by
    cases a with
    | flushTask => exact absurd rfl hflush
    | _ => rfl
  obtain ⟨hinvoking, hkept⟩ := told_kept hflush hterminate hs
  unfold Told at ht
  rw [Told, hran, ← ht, hinvoking]
  refine ⟨fun hstop => ?_, fun hstop => hstop.imp_right fun hterm => ?_⟩
  · by_contra hgoes
    obtain ⟨hi, hterm⟩ := not_or.mp hgoes
    have hstill := h.terminated_step (Bool.eq_false_iff.mpr hterm) (Bool.eq_false_iff.mpr hi) hs
    exact Bool.false_ne_true (hstill.symm.trans (hstop.resolve_left hi))
  · rcases hkept with hsame | ⟨hnow, -⟩
    · exact hsame.trans hterm
    · exact hnow

theorem now_step (hs : s.step terminates a = some t) : s.now ≤ t.now := by
  cases a with
  | postTask post =>
    obtain rfl := Option.some.inj hs
    exact le_rfl
  | registerTask i =>
    obtain ⟨impl, -, rfl⟩ := Option.map_eq_some_iff.mp hs
    exact le_rfl
  | queues b | doRun | flushTask | disposeTasks =>
    obtain ⟨impl, -, rfl⟩ := Option.map_eq_some_iff.mp (Option.ite_none_left_eq_some.mp hs).2
    exact le_rfl
  | enterRun | epollFails | timerDrain | epollWait | doTerminate =>
    obtain rfl := Option.some.inj (Option.ite_none_right_eq_some.mp hs).2
    exact le_rfl
  | checkRunning =>
    have hs := (Option.ite_none_right_eq_some.mp hs).2
    split at hs
    · obtain rfl := Option.some.inj hs
      exact le_rfl
    · obtain ⟨impl, -, rfl⟩ := Option.map_eq_some_iff.mp hs
      exact le_rfl
  | runExpiredTasksNow =>
    obtain ⟨impl, -, rfl⟩ := Option.map_eq_some_iff.mp (Option.ite_none_right_eq_some.mp hs).2
    exact le_rfl
  | tick d =>
    obtain rfl := Option.some.inj hs
    exact Nat.le_add_right _ _

/-- Each step of the thread brings it nearer to a task that is due, or takes one. -/
theorem Overdue.thread_step {time : Nat} {g : Log α} (h : Overdue time s g) (ha : ofThread a = true)
    (hs : s.step terminates a = some t) : 10 * due time t + toGo time t < 10 * due time s + toGo time s := by
  obtain ⟨hterm, hi⟩ := h.goesOn
  have hmoved {u : MessageLoopLinux α} (hqueue : u.impl.taskQueue = s.impl.taskQueue)
      (hid : u.impl.queueId = s.impl.queueId) (hposting : u.impl.posting = s.impl.posting)
      (hlt : toGo time u < toGo time s) : 10 * due time u + toGo time u < 10 * due time s + toGo time s := by
    rw [due, due, pending, hqueue, hid, hposting, pending]
    omega
  have hat {stage : Stage} (hat : s.isAt stage = true) : s.impl.phase = .running ∧ s.stage = stage := isAt_iff.mp hat
  cases a with
  | doRun =>
    obtain ⟨impl, himpl, rfl⟩ := Option.map_eq_some_iff.mp (Option.ite_none_left_eq_some.mp hs).2
    rcases h.steady.running hterm hi with hphase | hphase | ⟨-, hphase | ⟨_, hphase⟩⟩
    · simp only [MessageLoopImpl.doRun, hphase, hterm, Bool.false_eq_true, if_false, Option.some.injEq] at himpl
      subst himpl
      exact hmoved rfl rfl rfl (by simp [toGo, hphase])
    · simp [MessageLoopImpl.doRun, (hat hphase).1] at himpl
    · simp [MessageLoopImpl.doRun, hphase] at himpl
    · simp [MessageLoopImpl.doRun, hphase] at himpl
  | enterRun =>
    obtain ⟨hat', hs⟩ := Option.ite_none_right_eq_some.mp hs
    obtain rfl := Option.some.inj hs
    obtain ⟨hphase, hstage⟩ := hat hat'
    exact hmoved rfl rfl rfl (by simp [toGo, hphase, hstage])
  | checkRunning =>
    obtain ⟨hat', hs⟩ := Option.ite_none_right_eq_some.mp hs
    obtain ⟨hphase, hstage⟩ := hat hat'
    rw [if_pos (h.steady.isRunning hat' (by simp) hterm hi)] at hs
    obtain rfl := Option.some.inj hs
    exact hmoved rfl rfl rfl (by simp [toGo, hphase, hstage])
  | epollWait =>
    obtain ⟨hat', hs⟩ := Option.ite_none_right_eq_some.mp hs
    obtain rfl := Option.some.inj hs
    obtain ⟨hphase, hstage⟩ := hat (Bool.and_eq_true_iff.mp hat').1
    exact hmoved rfl rfl rfl (by simp [toGo, hphase, hstage])
  | timerDrain =>
    obtain ⟨hat', hs⟩ := Option.ite_none_right_eq_some.mp hs
    obtain ⟨hphase, hstage⟩ := hat hat'
    have hread := h.readable ((isFlushing_of_isAt hat').trans (by simp))
    have hs := Option.some.inj hs
    rw [timerDrain_of_readable hread] at hs
    subst hs
    exact hmoved rfl rfl rfl (by simp [toGo, hphase, hstage])
  | runExpiredTasksNow =>
    obtain ⟨hat', hs⟩ := Option.ite_none_right_eq_some.mp hs
    obtain ⟨hphase, hstage⟩ := hat hat'
    obtain ⟨impl, himpl, rfl⟩ := Option.map_eq_some_iff.mp hs
    simp only [MessageLoopImpl.runExpiredTasks, hphase, Option.some.injEq] at himpl
    subst himpl
    have hpassed : (time : Int) ≤ s.now := Int.ofNat_le.mpr h.passed.le
    exact hmoved rfl rfl rfl (by simp [toGo, hphase, hstage, hpassed])
  | flushTask =>
    obtain ⟨r, hr, rfl⟩ := Option.map_eq_some_iff.mp (Option.ite_none_left_eq_some.mp hs).2
    obtain ⟨now, last, u, hphase, -, himpl, hturn⟩ := h.steady.turn hr
    obtain ⟨x, hx, hle⟩ := h.task
    rw [himpl]
    have hflushing := h.steady.flushing now last hphase
    obtain rfl : last = false := by
      rcases h.steady.running hterm hi with hidle | hat' | ⟨-, hidle | ⟨_, hidle⟩⟩
      · cases hphase.symm.trans hidle
      · cases hphase.symm.trans (hat hat').1
      · cases hphase.symm.trans hidle
      · cases hphase.symm.trans hidle
        rfl
    have hgo : toGo time s = if (time : Int) ≤ now then 1 else 6 := by rw [toGo, hphase]
    obtain ⟨task, impl⟩ := r
    cases task with
    | none =>
      have hlate : ¬ (time : Int) ≤ now := fun hle' => absurd (hturn.1 x hx) (not_lt.mpr (hle.trans hle'))
      rw [hgo, if_neg hlate, due, due, ← hturn.2]
      exact Nat.add_lt_add_left (by simp [toGo, wakeUp, heard, hflushing.1]) _
    | some y =>
      have hy : y.targetTime ≤ time := (hturn.2.1 x hx).trans hle
      have hcount : due time s = (u.pending s.impl.queueId).countP (·.targetTime ≤ (time : Int)) + 1 +
          s.impl.posting.countP (·.targetTime ≤ (time : Int)) := by
        rw [due, hturn.2.2, Multiset.countP_cons_of_pos (p := fun z : DelayedTask α => z.targetTime ≤ time) _ hy]
      rw [hcount]
      change 10 * ((u.pending s.impl.queueId).countP (·.targetTime ≤ (time : Int)) +
        s.impl.posting.countP (·.targetTime ≤ (time : Int))) + toGo time s < _
      omega
  | doTerminate =>
    obtain ⟨hinvoking, -⟩ := Option.ite_none_right_eq_some.mp hs
    exact absurd (hi.symm.trans hinvoking) Bool.false_ne_true
  | disposeTasks =>
    obtain ⟨impl, himpl, rfl⟩ := Option.map_eq_some_iff.mp (Option.ite_none_left_eq_some.mp hs).2
    rcases h.steady.running hterm hi with hphase | hphase | ⟨-, hphase | ⟨_, hphase⟩⟩
    · simp [MessageLoopImpl.disposeTasks, hphase] at himpl
    · simp [MessageLoopImpl.disposeTasks, (hat hphase).1] at himpl
    · simp [MessageLoopImpl.disposeTasks, hphase] at himpl
    · simp [MessageLoopImpl.disposeTasks, hphase] at himpl
  | postTask _ | registerTask _ | queues _ | epollFails | tick _ => cases ha

/-- Others bring no task that is due at a time that has passed, and leave the thread where it is. -/
theorem Overdue.other_step {time : Nat} {g : Log α} (h : Overdue time s g) (ha : ofThread a = false)
    (hc : Undisturbed s a t) (hpost : ∀ post, a = .postTask post → (s.now : Int) ≤ post.targetTime)
    (hs : s.step terminates a = some t) : due time t = due time s ∧ toGo time t = toGo time s := by
  obtain ⟨hterm, -⟩ := h.goesOn
  cases a with
  | postTask post =>
    obtain rfl := Option.some.inj hs
    have himpl : s.impl.postTask post = { s.impl with posting := s.impl.posting ++ [post] } := by
      simp [MessageLoopImpl.postTask, hterm]
    have hlate : ¬ post.targetTime ≤ (time : Int) := by
      have hle := hpost post rfl
      have hpassed := h.passed
      omega
    rw [himpl]
    refine ⟨?_, rfl⟩
    change s.pending.countP _ + (s.impl.posting ++ [post]).countP _ = _
    simp [due, hlate]
  | registerTask i =>
    obtain ⟨impl, himpl, rfl⟩ := Option.map_eq_some_iff.mp hs
    obtain ⟨post, hpost, himpl⟩ := Option.bind_eq_some_iff.mp himpl
    obtain ⟨u, hu, himpl⟩ := Option.bind_eq_some_iff.mp himpl
    obtain rfl := Option.some.inj himpl
    refine ⟨?_, rfl⟩
    have hpending := MessageLoopTaskQueues.pending_registerTask (t := u) hu
    obtain ⟨hlt, rfl⟩ := List.getElem?_eq_some_iff.mp hpost
    have hperm := (List.getElem_cons_eraseIdx_perm hlt).countP_eq fun post => decide (post.targetTime ≤ (time : Int))
    change (u.pending s.impl.queueId).countP _ + (s.impl.posting.eraseIdx i).countP _ = _
    rw [hpending, due, ← hperm]
    simp only [Multiset.countP_cons, List.countP_cons, decide_eq_true_eq]
    rw [pending]
    omega
  | queues b =>
    obtain ⟨u, hu, rfl⟩ := Option.map_eq_some_iff.mp (Option.ite_none_left_eq_some.mp hs).2
    have hsound := h.steady.timed.sound
    have hentry := h.steady.lone.apart hsound.merged.toMerged hsound.own hsound.fresh hc.2 hu
    have hpending : u.pending s.impl.queueId = s.pending := by
      rw [MessageLoopTaskQueues.pending, hentry]
      rfl
    refine ⟨?_, rfl⟩
    change (u.pending s.impl.queueId).countP _ + s.impl.posting.countP _ = _
    rw [hpending, due]
  | epollFails => exact absurd hc.2 id
  | tick d =>
    obtain rfl := Option.some.inj hs
    exact ⟨rfl, rfl⟩
  | doRun | enterRun | checkRunning | epollWait | timerDrain | runExpiredTasksNow | flushTask | doTerminate
  | disposeTasks => cases ha

theorem Created.steady {loop : MessageLoopLinux α} (h : Created loop) : Steady loop {} := by
  have htimed := h.timed
  obtain ⟨before, queues, now, -, -, hnew⟩ := h
  obtain ⟨impl, himpl, rfl⟩ := Option.map_eq_some_iff.mp hnew
  obtain ⟨u, hu, himpl⟩ := Option.bind_eq_some_iff.mp himpl
  obtain rfl := Option.some.inj himpl
  obtain ⟨e, he, hu⟩ := Option.bind_eq_some_iff.mp hu
  have hu := Option.some.inj (Option.ite_none_left_eq_some.mp hu).2
  have hcreated : e = ⟨false, .new queues.taskQueueIdCounter, [], none⟩ := by
    simpa [MessageLoopTaskQueues.createTaskQueue, eq_comm] using he
  have hentry : u.queueEntries queues.createTaskQueue.1 = some { e with wakeable := true } := by
    rw [← hu, MessageLoopTaskQueues.queueEntries_updateEntry, if_pos rfl, he, Option.map_some]
  refine ⟨htimed, ⟨_, hentry, rfl, ?_, ?_, ?_⟩, fun _ => ?_, ?_, fun hi => (by cases hi), fun _ _ hf => (by cases hf),
    fun _ _ => .inl rfl⟩
  · rw [hcreated]
  · rw [hcreated]
  · rw [hcreated]
    rfl
  · change 0 = 0 + Multiset.map DelayedTask.post (u.pending queues.createTaskQueue.1)
    rw [MessageLoopTaskQueues.pending_eq hentry, hcreated]
    rfl
  · exact fun r hr => by cases hr

theorem record_grows {g : Log α} : g.registered <+: (record s a t g).registered ∧ g.ran <+: (record s a t g).ran := by
  cases a with
  | registerTask i => exact ⟨List.prefix_append _ _, List.prefix_rfl⟩
  | flushTask => exact ⟨List.prefix_rfl, List.prefix_append _ _⟩
  | _ => exact ⟨List.prefix_rfl, List.prefix_rfl⟩

/-- No closure is run that was not registered, and none is run twice. -/
theorem Steady.once_step {g : Log α} (h : Steady s g) (hc : Undisturbed s a t) (hs : s.step terminates a = some t)
    (honce : (g.ran.map (·.1)).Subperm g.registered) :
    ((record s a t g).ran.map (·.1)).Subperm (record s a t g).registered := by
  by_cases hflush : a = .flushTask
  · have ht := h.step hc hs
    have hphase : t.impl.phase ≠ .returned := by
      subst hflush
      obtain ⟨r, hr, rfl⟩ := Option.map_eq_some_iff.mp (Option.ite_none_left_eq_some.mp hs).2
      obtain ⟨now, last, u, hphase, -, himpl, -⟩ := h.turn hr
      rw [himpl]
      cases r.1 <;> cases last <;> simp [wakeUp, heard, hphase]
    rw [← Multiset.coe_le, ht.books hphase]
    exact Multiset.le_add_right _ _
  · have hran : (record s a t g).ran = g.ran := by
      cases a with
      | flushTask => exact absurd rfl hflush
      | _ => rfl
    rw [hran]
    exact honce.trans record_grows.1.sublist.subperm

theorem Steady.notReturned {g : Log α} (h : Steady s g) (hterm : s.impl.terminated = false) (hi : s.invoking = false) :
    s.impl.phase ≠ .returned := by
  rcases h.running hterm hi with hidle | hat | ⟨-, hidle | ⟨_, hidle⟩⟩
  · simp [hidle]
  · simp [(isAt_iff.mp hat).1]
  · simp [hidle]
  · simp [hidle]

/-- Where nothing is left that was due at a time, all that was due then was run. -/
theorem Steady.served {g : Log α} {registered : List (Post α)} {time : Nat} (h : Steady s g)
    (hphase : s.impl.phase ≠ .returned) (hregistered : registered.Subperm g.registered)
    (hlate : ∀ x ∈ s.pending, (time : Int) < x.targetTime) :
    (registered.filter fun post => post.targetTime ≤ (time : Int)).Subperm (g.ran.map (·.1)) := by
  have hbooks := congrArg (Multiset.filter (·.targetTime ≤ (time : Int))) (h.books hphase)
  have hnone : (Multiset.map DelayedTask.post s.pending).filter (·.targetTime ≤ (time : Int)) = 0 := by
    rw [Multiset.filter_eq_nil]
    intro post hpost
    obtain ⟨x, hx, rfl⟩ := Multiset.mem_map.mp hpost
    exact not_le.mpr (hlate x hx)
  rw [Multiset.filter_add, hnone, add_zero] at hbooks
  rw [← Multiset.coe_le, ← Multiset.filter_coe]
  calc Multiset.filter (·.targetTime ≤ (time : Int)) (↑registered : Multiset (Post α))
      ≤ Multiset.filter (·.targetTime ≤ (time : Int)) ↑g.registered :=
        Multiset.filter_le_filter _ (Multiset.coe_le.mpr hregistered)
    _ = Multiset.filter (·.targetTime ≤ (time : Int)) ↑(g.ran.map (·.1)) := hbooks
    _ ≤ ↑(g.ran.map (·.1)) := Multiset.filter_le _ _

section
variable {loop : MessageLoopLinux α} {e : (logged terminates loop).Endless} {k : Nat}

/-- The loop has its queue for itself, posts are not for the past, time goes on, and so does the thread if it can. -/
structure GoesOn (e : (logged terminates loop).Endless) : Prop where
  start : e.state 0 = (loop, {})
  undisturbed : ∀ m, Undisturbed (e.state m).1 (e.label m) (e.state (m + 1)).1
  posts : ∀ m post, e.label m = .postTask post → ((e.state m).1.now : Int) ≤ post.targetTime
  time : ∀ time : Nat, ∃ m, time ≤ (e.state m).1.now
  thread : e.WeakFair fun a => ofThread a = true

theorem logged_step (e : (logged terminates loop).Endless) (m : Nat) :
    (e.state m).1.step terminates (e.label m) = some (e.state (m + 1)).1 ∧
      (e.state (m + 1)).2 = record (e.state m).1 (e.label m) (e.state (m + 1)).1 (e.state m).2 :=
  Machine.withHistory_step (g := (e.state m).2) (e.step m)

theorem GoesOn.steady (he : GoesOn e) (h0 : Steady loop {}) (m : Nat) : Steady (e.state m).1 (e.state m).2 := by
  induction m with
  | zero =>
    rw [he.start]
    exact h0
  | succ m ih =>
    obtain ⟨hs, hg⟩ := logged_step e m
    rw [hg]
    exact ih.step (he.undisturbed m) hs

theorem now_mono (e : (logged terminates loop).Endless) {m : Nat} (hm : k ≤ m) :
    (e.state k).1.now ≤ (e.state m).1.now := by
  induction m, hm using Nat.le_induction with
  | base => exact le_rfl
  | succ m _ ih => exact ih.trans (now_step (logged_step e m).1)

/-- What is due at some time is taken in the end, unless a closure terminates the loop before that. -/
theorem GoesOn.takes (he : GoesOn e) (h0 : Steady loop {}) (time : Nat)
    (hgoes : (e.state k).1.impl.terminated = false ∧ (e.state k).1.invoking = false) :
    ∃ m, k ≤ m ∧ ((e.state m).1.invoking = true ∨ ∀ x ∈ (e.state m).1.pending, (time : Int) < x.targetTime) := by
  have hnext (m : Nat) (hm : (e.state m).1.impl.terminated = false ∧ (e.state m).1.invoking = false)
      (hi : (e.state (m + 1)).1.invoking = false) :
      (e.state (m + 1)).1.impl.terminated = false ∧ (e.state (m + 1)).1.invoking = false :=
    ⟨(he.steady h0 m).terminated_step hm.1 hm.2 (logged_step e m).1, hi⟩
  have hstep (m : Nat) (h : Overdue time (e.state m).1 (e.state m).2) :
      Overdue time (e.state (m + 1)).1 (e.state (m + 1)).2 ∨
        ((e.state (m + 1)).1.invoking = true ∨ ∀ x ∈ (e.state (m + 1)).1.pending, (time : Int) < x.targetTime) := by
    by_cases hi : (e.state (m + 1)).1.invoking = true
    · exact .inr (.inl hi)
    by_cases htask : ∃ x ∈ (e.state (m + 1)).1.pending, x.targetTime ≤ (time : Int)
    · exact .inl ⟨he.steady h0 _, h.passed.trans_le (now_step (logged_step e m).1),
        hnext m h.goesOn (Bool.eq_false_iff.mpr hi), htask⟩
    · refine .inr (.inr fun x hx => ?_)
      by_contra hle
      exact htask ⟨x, hx, not_lt.mp hle⟩
  -- either a closure stops the loop while time passes, or the loop is still going on then
  have hpasses : ∀ n, k ≤ n → (∃ m, k ≤ m ∧ (e.state m).1.invoking = true) ∨
      (e.state n).1.impl.terminated = false ∧ (e.state n).1.invoking = false := by
    intro n hn
    induction n, hn using Nat.le_induction with
    | base => exact .inr hgoes
    | succ n hn ih =>
      rcases ih with hstopped | hstill
      · exact .inl hstopped
      · by_cases hi : (e.state (n + 1)).1.invoking = true
        · exact .inl ⟨n + 1, hn.trans (Nat.le_succ n), hi⟩
        · exact .inr (hnext n hstill (Bool.eq_false_iff.mpr hi))
  obtain ⟨l, hl⟩ := he.time (time + 1)
  rcases hpasses (max k l) (le_max_left k l) with ⟨m, hm, hi⟩ | hstill
  · exact ⟨m, hm, .inl hi⟩
  by_cases htask : ∃ x ∈ (e.state (max k l)).1.pending, x.targetTime ≤ (time : Int)
  · have hpassed : time < (e.state (max k l)).1.now := hl.trans (now_mono e (le_max_right k l))
    refine Exists.imp (fun m hm => ⟨(le_max_left k l).trans hm.1.le, hm.2⟩) (he.thread.leads_to_of_rank (n := max k l)
      (fun r => 10 * due time r.1 + toGo time r.1) (P := fun r => Overdue time r.1 r.2)
      (Q := fun r => r.1.invoking = true ∨ ∀ x ∈ r.1.pending, (time : Int) < x.targetTime) ?_ ?_ ?_
      ⟨he.steady h0 _, hpassed, hstill, htask⟩)
    · rintro ⟨s, g⟩ h
      obtain ⟨a, ha, hsome⟩ : ∃ a, ofThread a = true ∧ (s.step terminates a).isSome := h.exists_step
      obtain ⟨t, ht⟩ := Option.isSome_iff_exists.mp hsome
      exact ⟨a, _, ha, Option.map_eq_some_iff.mpr ⟨t, ht, rfl⟩⟩
    · intro m _ h ha
      exact (hstep m h).imp_left fun hnow => ⟨hnow, h.thread_step ha (logged_step e m).1⟩
    · intro m _ h ha
      obtain ⟨hdue, hgo⟩ := h.other_step (Bool.eq_false_iff.mpr ha) (he.undisturbed m) (he.posts m) (logged_step e m).1
      exact (hstep m h).imp_left fun hnow => ⟨hnow, by rw [hdue, hgo]⟩
  · refine ⟨max k l, le_max_left k l, .inr fun x hx => ?_⟩
    by_contra hle
    exact htask ⟨x, hx, not_lt.mp hle⟩

/-- What was registered by some step still was later, and what was run as well. -/
theorem logged_grows (e : (logged terminates loop).Endless) {m : Nat} (hm : k ≤ m) :
    (e.state k).2.registered <+: (e.state m).2.registered ∧ (e.state k).2.ran <+: (e.state m).2.ran := by
  induction m, hm using Nat.le_induction with
  | base => exact ⟨List.prefix_rfl, List.prefix_rfl⟩
  | succ m _ ih =>
    rw [(logged_step e m).2]
    exact ⟨ih.1.trans record_grows.1, ih.2.trans record_grows.2⟩

theorem GoesOn.told (he : GoesOn e) (hl : Created loop) (m : Nat) : Told terminates (e.state m).1 (e.state m).2 := by
  induction m with
  | zero =>
    rw [he.start]
    exact hl.told
  | succ m ih =>
    obtain ⟨hs, hg⟩ := logged_step e m
    rw [hg]
    exact (he.steady hl.steady m).told_step ih hs

theorem GoesOn.once (he : GoesOn e) (h0 : Steady loop {}) (m : Nat) :
    ((e.state m).2.ran.map (·.1)).Subperm (e.state m).2.registered := by
  induction m with
  | zero =>
    rw [he.start]
    exact List.Subperm.refl []
  | succ m ih =>
    obtain ⟨hs, hg⟩ := logged_step e m
    rw [hg]
    exact (he.steady h0 m).once_step (he.undisturbed m) hs ih

/-- A loop that has its queue for itself runs no task early, none twice, and each that was registered, unless one of
them terminates it. -/
theorem runs_all (hl : Created loop) (he : GoesOn e) (k : Nat) :
    (∀ r ∈ (e.state k).2.ran, r.1.targetTime ≤ r.2) ∧ ((e.state k).2.ran.map (·.1)).Subperm (e.state k).2.registered ∧
      ∃ m, k ≤ m ∧ ((∃ r ∈ (e.state m).2.ran, terminates r.1.task = true) ∨
        (e.state k).2.registered.Subperm ((e.state m).2.ran.map (·.1))) := by
  have h0 := hl.steady
  refine ⟨(he.steady h0 k).inTime, he.once h0 k, ?_⟩
  by_cases htold : ∃ r ∈ (e.state k).2.ran, terminates r.1.task = true
  · exact ⟨k, le_rfl, .inl htold⟩
  have hgoes : (e.state k).1.impl.terminated = false ∧ (e.state k).1.invoking = false := by
    obtain ⟨hi, hterm⟩ := not_or.mp (mt (he.told hl k).mp htold)
    exact ⟨Bool.eq_false_iff.mpr hterm, Bool.eq_false_iff.mpr hi⟩
  obtain ⟨time, htime⟩ : ∃ time : Nat, ∀ post ∈ (e.state k).2.registered, post.targetTime ≤ time := by
    refine ⟨((e.state k).2.registered.map (·.targetTime.toNat)).sum, fun post hpost => ?_⟩
    have hle := List.le_sum_of_mem (List.mem_map_of_mem (f := fun post : Post α => post.targetTime.toNat) hpost)
    omega
  obtain ⟨m, hm, hdone⟩ := he.takes h0 time hgoes
  refine ⟨m, hm, or_iff_not_imp_left.mpr fun hstill => ?_⟩
  obtain ⟨hi, hterm⟩ := not_or.mp (mt (he.told hl m).mp hstill)
  have hlate := hdone.resolve_left hi
  have hm' := he.steady h0 m
  have hphase := hm'.notReturned (Bool.eq_false_iff.mpr hterm) (Bool.eq_false_iff.mpr hi)
  have hserved := hm'.served hphase (logged_grows e hm).1.sublist.subperm hlate
  rwa [List.filter_eq_self.mpr fun post hpost => decide_eq_true (htime post hpost)] at hserved

end

/-- A loop beside no other. -/
def alone : MessageLoopLinux Nat := (new (MessageLoopTaskQueues.machine Nat).init 0).get rfl

/-- One task is posted and run when its time has come. From then on the timer, which is periodic, wakes the loop up
without need. -/
def runOne : List (Label Nat) :=
  [.postTask ⟨7, 30⟩, .doRun, .enterRun, .checkRunning, .registerTask 0, .tick 40, .epollWait, .timerDrain,
    .runExpiredTasksNow, .flushTask, .flushTask, .checkRunning]

def wakeInVain : List (Label Nat) :=
  [.epollWait, .timerDrain, .runExpiredTasksNow, .flushTask, .checkRunning, .tick 30]

def runOneAndWait (n : Nat) : List (Label Nat) := runOne ++ (List.replicate n wakeInVain).flatten

/-- A loop without tasks, in its own loop. -/
def idling (q : MessageLoopTaskQueues Nat) (stage : Stage) (read now : Nat) : MessageLoopLinux Nat :=
  ⟨⟨q, 0, false, .running, []⟩, ⟨⟨0, 30⟩, ⟨0, 30⟩, read⟩, true, stage, false, now⟩

/-- The loop waits, and was woken up in vain some times. -/
def Waits (n : Nat) (r : MessageLoopLinux Nat × Log Nat) : Prop :=
  ∃ q : MessageLoopTaskQueues Nat, q.hasPendingTasksUnlocked 0 = some false ∧ q.wakeUps 0 = none ∧
    r = (idling q .waiting n (40 + 30 * n), ⟨[⟨7, 30⟩], [(⟨7, 30⟩, 40)]⟩)

private theorem logged_of_step {g : Log α} {loop : MessageLoopLinux α} (hs : s.step terminates a = some t) :
    (logged terminates loop).step (s, g) a = some (t, record s a t g) :=
  Option.map_eq_some_iff.mpr ⟨t, hs, rfl⟩

private theorem Waits.again {n : Nat} {r : MessageLoopLinux Nat × Log Nat} (h : Waits n r) :
    ∃ t, (logged (fun _ => false) alone).runFrom r wakeInVain = some t ∧ Waits (n + 1) t := by
  obtain ⟨q, hpending, hnone, rfl⟩ := h
  have hnext (now : Int) : q.getNextTaskToRun 0 now = some (none, q) := by
    simp [MessageLoopTaskQueues.getNextTaskToRun, hpending]
  have hheard : { q with wakeUps := Function.update q.wakeUps 0 none } = q := by
    rw [← hnone, Function.update_eq_self]
  have hexpired : TimerFd.expirations ⟨⟨0, 30⟩, ⟨0, 30⟩, n⟩ (40 + 30 * n) = n + 1 := by
    have hspec : (TimeSpec.mk 0 30).nanoseconds = 30 := rfl
    have hpassed : ¬ 40 + 30 * n < 30 := by omega
    simp only [TimerFd.expirations, hspec, hpassed]
    simp
    omega
  have hread : TimerFd.isReadable ⟨⟨0, 30⟩, ⟨0, 30⟩, n⟩ (40 + 30 * n) = true := by
    simp [TimerFd.isReadable, hexpired]
  generalize hnow : 40 + 30 * n = now at hexpired hread
  let flushing : MessageLoopLinux Nat :=
    { idling q .looping (n + 1) now with impl := ⟨q, 0, false, .flushing .kAll now false, []⟩ }
  have hwait : (idling q .waiting n now).step (fun _ => false) .epollWait = some (idling q .woken n now) := by
    simp [step, idling, isAt, hread]
  have hdrain : (idling q .woken n now).step (fun _ => false) .timerDrain = some (idling q .drained (n + 1) now) := by
    simp [step, idling, isAt, Fml.timerDrain, hread, hexpired]
  have hexpire : (idling q .drained (n + 1) now).step (fun _ => false) .runExpiredTasksNow = some flushing := rfl
  have hflush : flushing.step (fun _ => false) .flushTask = some (idling q .looping (n + 1) now) := by
    simp [flushing, step, idling, MessageLoopImpl.flushTask, hnext, wakeUp, heard, hheard, hnone]
  have hcheck : (idling q .looping (n + 1) now).step (fun _ => false) .checkRunning =
      some (idling q .waiting (n + 1) now) := rfl
  have htick : (idling q .waiting (n + 1) now).step (fun _ => false) (.tick 30) =
      some (idling q .waiting (n + 1) (now + 30)) := rfl
  have hran (t : MessageLoopLinux Nat) (g : Log Nat) : record flushing .flushTask t g = g := by
    simp [record, flushing, MessageLoopImpl.flushTask, hnext]
  refine ⟨_, Machine.runFrom_cons_some.mpr ⟨_, logged_of_step hwait, Machine.runFrom_cons_some.mpr
    ⟨_, logged_of_step hdrain, Machine.runFrom_cons_some.mpr ⟨_, logged_of_step hexpire, Machine.runFrom_cons_some.mpr
      ⟨_, logged_of_step hflush, Machine.runFrom_cons_some.mpr ⟨_, logged_of_step hcheck, Machine.runFrom_cons_some.mpr
        ⟨_, logged_of_step htick, rfl⟩⟩⟩⟩⟩⟩, q, hpending, hnone, ?_⟩
  rw [hran, Nat.mul_succ, ← Nat.add_assoc, hnow]
  rfl

private theorem runOneAndWait_succ (n : Nat) : runOneAndWait (n + 1) = runOneAndWait n ++ wakeInVain := by
  rw [runOneAndWait, List.replicate_succ', List.flatten_concat, ← List.append_assoc, runOneAndWait]

private theorem waits (n : Nat) :
    ∃ t, (logged (fun _ => false) alone).runFrom (alone, {}) (runOneAndWait n) = some t ∧ Waits n t := by
  induction n with
  | zero => exact ⟨_, rfl, _, rfl, rfl, rfl⟩
  | succ n ih =>
    obtain ⟨u, hu, hwaits⟩ := ih
    obtain ⟨t, ht, hnext⟩ := hwaits.again
    rw [runOneAndWait_succ]
    exact ⟨t, Machine.runFrom_append.mpr ⟨u, hu, ht⟩, hnext⟩

private theorem mem_runOneAndWait {n : Nat} {a : Label Nat} (h : a ∈ (runOneAndWait n).tail) :
    a ∈ runOne.tail ++ wakeInVain := by
  rcases List.mem_append.mp h with h | h
  · exact List.mem_append_left _ h
  · obtain ⟨l, hl, ha⟩ := List.mem_flatten.mp h
    rw [List.eq_of_mem_replicate hl] at ha
    exact List.mem_append_right _ ha

theorem runs_all_waits : ∃ e : (logged (fun _ : Nat => false) alone).Endless, GoesOn e ∧
    ∃ m, ([⟨7, 30⟩] : List (Post Nat)).Subperm ((e.state m).2.ran.map (·.1)) := by
  have hlength (n : Nat) : n ≤ (runOneAndWait n).length := by
    simp [runOneAndWait, wakeInVain]
    omega
  obtain ⟨e, hlabels, hstates⟩ := Machine.exists_endless_of_prefixes (fun n => (waits n).imp fun _ h => h.1)
    (fun n => ⟨_, (runOneAndWait_succ n).symm⟩) hlength
  have hstart : e.state 0 = (alone, {}) := (Option.some.inj (hstates 0 0 (Nat.zero_le _))).symm
  have hfirst : e.label 0 = .postTask ⟨7, 30⟩ := hlabels 0 0 (by decide)
  have hlater (m : Nat) : e.label (m + 1) ∈ runOne.tail ++ wakeInVain := by
    have htail : m < (runOneAndWait (m + 2)).tail.length := by
      have hle := hlength (m + 2)
      rw [List.length_tail]
      omega
    rw [hlabels (m + 2) (m + 1) (hlength (m + 2)), ← List.getElem_tail htail]
    exact mem_runOneAndWait (List.getElem_mem _)
  have hend (n : Nat) : Waits n (e.state (runOneAndWait n).length) := by
    obtain ⟨t, ht, hwaits⟩ := waits n
    have hstate := hstates n _ le_rfl
    rw [List.take_length, ht] at hstate
    exact Option.some.inj hstate ▸ hwaits
  have he : GoesOn e := by
    refine ⟨hstart, fun m => ?_, fun m post hpost => ?_, fun time => ?_, Machine.Endless.weakFair_of_often fun n => ?_⟩
    · cases m with
      | zero =>
        rw [hfirst]
        exact ⟨show (0 : Int) ≤ 30 by decide, trivial⟩
      | succ m =>
        have hmem := hlater m
        revert hmem
        cases e.label (m + 1) <;> simp [runOne, wakeInVain, Undisturbed, Announced]
    · cases m with
      | zero =>
        obtain rfl := Label.postTask.inj (hfirst.symm.trans hpost)
        rw [hstart]
        decide
      | succ m =>
        have hmem := hlater m
        rw [hpost] at hmem
        simp [runOne, wakeInVain] at hmem
    · obtain ⟨q, -, -, hstate⟩ := hend time
      refine ⟨(runOneAndWait time).length, ?_⟩
      rw [hstate]
      simp [idling]
      omega
    · refine ⟨_, hlength n, ?_⟩
      have hnext : (runOneAndWait n).length < (runOneAndWait (n + 1)).length := by
        simp [runOneAndWait_succ, wakeInVain]
      rw [hlabels (n + 1) _ hnext]
      simp [runOneAndWait_succ, wakeInVain, ofThread]
  refine ⟨e, he, ?_⟩
  obtain ⟨-, -, m, -, hran⟩ := runs_all ⟨[], _, 0, rfl, trivial, rfl⟩ he 5
  have hregistered : ((logged (fun _ => false) alone).runFrom (alone, {}) (runOne.take 5)).map (·.2.registered) =
      some [⟨7, 30⟩] := rfl
  have hstate := hstates 0 5 (by decide)
  rw [show (runOneAndWait 0).take 5 = runOne.take 5 from rfl] at hstate
  rw [hstate] at hregistered
  rw [Option.map_some, Option.some.injEq] at hregistered
  rw [hregistered] at hran
  exact ⟨m, hran.resolve_left (by simp)⟩

end MessageLoopLinux
end Ogre.Fml
