import Ogre.Fml.MessageLoop

/-! What is left on a loop after it was run: nothing, unless a post came in after the tasks
were disposed of, or the loop was terminated before it was run. -/
namespace Ogre.Fml
open Ogre.Library

namespace MessageLoopTaskQueues
variable {α : Type} {s t : MessageLoopTaskQueues α} {q : Nat}

/-- A live queue that is neither subsumed nor an owner. -/
structure Unmerged (s : MessageLoopTaskQueues α) (q : Nat) : Prop where
  live : s.Live q
  subsumedBy : s.subsumedBy q = none
  ownerOf : s.ownerOf q = []

theorem Unmerged.congr (h : s.Unmerged q) (hl : SameLinks s t) : t.Unmerged q :=
  ⟨(hl.live q).mpr h.live, (hl.subsumedBy q).trans h.subsumedBy, (hl.ownerOf q).trans h.ownerOf⟩

theorem registerTask_unmerged {task : α} {targetTime : Int} {grade : TaskSourceGrade}
    (h : s.registerTask q task targetTime grade = some t) :
    SameLinks s t ∧ ∃ d : DelayedTask α, d.task = task ∧ t.pending q = d ::ₘ s.pending q := by
  have ht : s.step (.registerTask q task targetTime grade) = some t := h
  cases effect_of_step ht with
  | registered _ d hid _ hs =>
    obtain ⟨e, he⟩ := hid
    refine ⟨sameLinks_updateSource.trans hs.links, d, rfl, ?_⟩
    rw [hs.pending, pending_updateSource he, if_pos rfl, TaskSource.tasks_registerTask, pending_eq he]

/-- A queue on its own only returns its own tasks. -/
theorem getNextTaskToRun_unmerged {now : Int} {r : Option (DelayedTask α)} (hu : s.Unmerged q) (ho : s.OwnSources)
    (h : s.getNextTaskToRun q now = some (r, t)) :
    SameLinks s t ∧ s.pending q = ↑r.toList + t.pending q := by
  have ht : s.step (.getNextTaskToRun q now) = some t := by simp [step, h]
  cases effect_of_step ht with
  | notReturned _ _ hnone hs =>
    obtain ⟨rfl, -⟩ := Prod.mk.inj (Option.some.inj (h.symm.trans hnone))
    refine ⟨hs.links, ?_⟩
    rw [hs.pending]
    exact (Multiset.zero_add _).symm
  | returned _ _ top hpeek hsome hid hs =>
    obtain ⟨rfl, -⟩ := Prod.mk.inj (Option.some.inj (h.symm.trans hsome))
    obtain ⟨hmem, e, he, htop⟩ := peek_source ho hpeek
    have hq : top.taskQueueId = q := by simpa [hu.ownerOf] using hmem
    refine ⟨sameLinks_updateSource.trans hs.links, ?_⟩
    subst hq
    rw [hs.pending, pending_updateSource he, if_pos rfl, pending_eq he, TaskSource.tasks_of_top htop]
    exact (Multiset.singleton_add _ _).symm

theorem setWakeable_unmerged (h : s.setWakeable q = some t) : SameLinks s t ∧ t.pending q = s.pending q := by
  have ht : s.step (.setWakeable q) = some t := h
  cases effect_of_step ht with
  | wakeable _ hs =>
    refine ⟨SameLinks.trans (sameLinks_updateEntry ?_ ?_) hs.links, ?_⟩
    · intro _
      rfl
    · intro _
      rfl
    · rw [hs.pending]
      apply pending_updateEntry_of_eq
      intro _
      rfl

theorem disposeTasks_unmerged (h : s.disposeTasks q = some t) : SameLinks s t ∧ t.pending q = 0 := by
  have ht : s.step (.disposeTasks q) = some t := h
  cases effect_of_step ht with
  | tasksDisposed _ e he hs =>
    refine ⟨sameLinks_tasksDisposed hs, ?_⟩
    rw [pending_tasksDisposed he hs, if_pos (.inl rfl)]

end MessageLoopTaskQueues

namespace MessageLoopImpl
variable {α : Type} {loop s t : MessageLoopImpl α} {g : Fates α} {a : Label α}

/-- No task is registered after `DoRun` has returned, and a loop that is terminated before it
is run holds no task. -/
def PostsInTime (s : MessageLoopImpl α) (a : Label α) (_ : MessageLoopImpl α) : Prop :=
  match a with
  | .registerTask _ => s.phase ≠ .returned
  | .doRun => s.terminated = true → s.held = 0
  | _ => True

instance [DecidableEq α] (s : MessageLoopImpl α) (a : Label α) (t : MessageLoopImpl α) :
    Decidable (PostsInTime s a t) := by
  unfold PostsInTime
  cases a <;> infer_instance

/-- Every closure that was posted was run, or destroyed in its post or by `DoRun`, or it is
still on its way to the queue or in it. -/
def Accounted (s : MessageLoopImpl α) (g : Fates α) : Prop :=
  g.posted = g.run + g.destroyedInPost + g.destroyedByRun + ↑(s.posting.map (·.task)) + s.held

structure Drains (s : MessageLoopImpl α) (g : Fates α) : Prop where
  unmerged : s.taskQueue.Unmerged s.queueId
  own : s.taskQueue.OwnSources
  accounted : s.Accounted g
  drained : s.phase = .returned → s.held = 0

private theorem held_of_posted {d : DelayedTask α} {m : Multiset (DelayedTask α)}
    (h : s.taskQueue.pending s.queueId = d ::ₘ m) : s.held = d.task ::ₘ m.map (·.task) := by
  rw [held, h, Multiset.map_cons]

private theorem postTask_drains {post : Post α} (h : s.Drains g) :
    (s.postTask post).Drains (g.update s (.postTask post) t) := by
  unfold postTask Fates.update
  split
  · refine ⟨h.unmerged, h.own, ?_, h.drained⟩
    change post.task ::ₘ g.posted = _ + (post.task ::ₘ g.destroyedInPost) + _ + _ + _
    rw [h.accounted]
    simp only [← Multiset.singleton_add]
    abel
  · refine ⟨h.unmerged, h.own, ?_, h.drained⟩
    change post.task ::ₘ g.posted = _ + _ + _ + ↑((s.posting ++ [post]).map (·.task)) + _
    rw [h.accounted, List.map_append, ← Multiset.coe_add, ← Multiset.singleton_add]
    change _ = _ + (_ + {post.task}) + s.held
    abel

private theorem posting_perm {l : List (Post α)} {i : Nat} {post : Post α} (h : l[i]? = some post) :
    (l.map (·.task)).Perm (post.task :: (l.eraseIdx i).map (·.task)) := by
  obtain ⟨hi, rfl⟩ := List.getElem?_eq_some_iff.mp h
  exact ((List.getElem_cons_eraseIdx_perm hi).map (·.task)).symm

private theorem registerTask_drains {i : Nat} (h : s.Drains g) (hc : s.phase ≠ .returned)
    (ht : s.registerTask i = some t) : t.Drains g := by
  obtain ⟨post, hpost, ht⟩ := Option.bind_eq_some_iff.mp ht
  obtain ⟨q, hq, ht⟩ := Option.bind_eq_some_iff.mp ht
  obtain rfl := Option.some.inj ht
  obtain ⟨hl, d, hd, hpending⟩ := MessageLoopTaskQueues.registerTask_unmerged hq
  refine ⟨h.unmerged.congr hl, h.own.step (a := .registerTask s.queueId post.task post.targetTime .kUnspecified) hq,
    ?_, fun hreturned => absurd hreturned hc⟩
  have hposting : (↑(s.posting.map (·.task)) : Multiset α) = post.task ::ₘ ↑((s.posting.eraseIdx i).map (·.task)) := by
    rw [Multiset.cons_coe, Multiset.coe_eq_coe]
    exact posting_perm hpost
  have hheld : held { s with taskQueue := q, posting := s.posting.eraseIdx i } = post.task ::ₘ s.held := by
    rw [← hd]
    exact held_of_posted hpending
  rw [Accounted, hheld, h.accounted, hposting]
  simp only [← Multiset.singleton_add]
  abel

private theorem flushTask_drains {r : Option (DelayedTask α)} (h : s.Drains g) (ht : s.flushTask = some (r, t)) :
    t.Drains (g.update s .flushTask t) := by
  have hupdate : g.update s .flushTask t = { g with run := ↑(r.toList.map (·.task)) + g.run } := by
    cases r with
    | none => simp [Fates.update, ht]
    | some task => simp [Fates.update, ht]
  rw [hupdate]
  cases hphase : s.phase with
  | flushing type now last =>
    clear hupdate
    simp only [flushTask, hphase] at ht
    obtain ⟨⟨r', q⟩, hq, ht⟩ := Option.bind_eq_some_iff.mp ht
    obtain ⟨rfl, rfl⟩ := Prod.mk.inj (Option.some.inj ht)
    obtain ⟨hl, hpending⟩ := MessageLoopTaskQueues.getNextTaskToRun_unmerged h.unmerged h.own hq
    have hown : q.OwnSources := h.own.step (a := .getNextTaskToRun s.queueId now) (by simp [MessageLoopTaskQueues.step, hq])
    refine ⟨h.unmerged.congr hl, hown, ?_, fun hreturned => ?_⟩
    · have hheld : s.held = ↑(r'.toList.map (·.task)) + (q.pending s.queueId).map (·.task) := by
        rw [held, hpending, Multiset.map_add, Multiset.map_coe]
      have ha : g.posted = _ := h.accounted
      rw [hheld] at ha
      change g.posted =
        ↑(r'.toList.map (·.task)) + g.run + g.destroyedInPost + g.destroyedByRun + _ + (q.pending s.queueId).map (·.task)
      rw [ha]
      abel
    · -- A turn of the loop ends in another turn, in the disposal, or back in `Run`.
      dsimp only at hreturned
      split at hreturned
      · split at hreturned <;> cases hreturned
      · cases hreturned
  | idle | running | disposing | returned => simp [flushTask, hphase] at ht

private theorem disposeTasks_drains (h : s.Drains g) (ht : s.disposeTasks = some t) :
    t.Drains (g.update s .disposeTasks t) := by
  cases hphase : s.phase with
  | disposing =>
    simp only [disposeTasks, hphase] at ht
    obtain ⟨q, hq, ht⟩ := Option.bind_eq_some_iff.mp ht
    obtain rfl := Option.some.inj ht
    obtain ⟨hl, hpending⟩ := MessageLoopTaskQueues.disposeTasks_unmerged hq
    have hheld : held { s with taskQueue := q, phase := .returned } = 0 := by rw [held, hpending, Multiset.map_zero]
    refine ⟨h.unmerged.congr hl, h.own.step (a := .disposeTasks s.queueId) hq, ?_, fun _ => hheld⟩
    rw [Accounted, hheld]
    change g.posted = g.run + g.destroyedInPost + (s.held + g.destroyedByRun) + ↑(s.posting.map (·.task)) + 0
    rw [h.accounted]
    abel
  | idle | running | returned | flushing _ _ _ => simp [disposeTasks, hphase] at ht

private theorem doRun_cases (h : s.doRun = some t) :
    ∃ phase, t = { s with phase } ∧ (phase = .returned → s.terminated = true) := by
  have hrun : t = { s with phase := if s.terminated then .returned else .running } := by
    unfold doRun at h
    split at h
    · exact (Option.some.inj h).symm
    · exact (Option.some.inj h).symm
    · cases h
  refine ⟨_, hrun, fun hphase => ?_⟩
  split at hphase
  · assumption
  · cases hphase

private theorem runExpiredTasks_cases {type : FlushType} {now : Int} (h : s.runExpiredTasks type now = some t) :
    t = { s with phase := .flushing type now false } := by
  unfold runExpiredTasks at h
  split at h
  · exact (Option.some.inj h).symm
  · cases h

private theorem runReturns_cases {now : Int} (h : s.runReturns now = some t) :
    t = { s with terminated := true, phase := .flushing .kAll now true } := by
  unfold runReturns at h
  split at h
  · exact (Option.some.inj h).symm
  · cases h

theorem Drains.step (h : s.Drains g) (hc : PostsInTime s a t) (ht : s.step a = some t) :
    t.Drains (g.update s a t) := by
  cases a with
  | postTask post =>
    obtain rfl := Option.some.inj ht
    exact postTask_drains h
  | registerTask i => exact registerTask_drains h hc ht
  | doTerminate =>
    obtain rfl := Option.some.inj ht
    exact ⟨h.unmerged, h.own, h.accounted, h.drained⟩
  | doRun =>
    obtain ⟨phase, rfl, hphase⟩ := doRun_cases ht
    refine ⟨h.unmerged, h.own, h.accounted, fun hreturned => hc (hphase hreturned)⟩
  | runExpiredTasks type now =>
    obtain rfl := runExpiredTasks_cases ht
    exact ⟨h.unmerged, h.own, h.accounted, nofun⟩
  | runReturns now =>
    obtain rfl := runReturns_cases ht
    exact ⟨h.unmerged, h.own, h.accounted, nofun⟩
  | flushTask =>
    obtain ⟨⟨r, u⟩, hr, rfl⟩ := Option.map_eq_some_iff.mp ht
    exact flushTask_drains h hr
  | disposeTasks => exact disposeTasks_drains h ht

/-- The loop is created beside the queues of other loops, in any state that these can reach. -/
theorem new_drains {queues : MessageLoopTaskQueues α} (ho : queues.OwnSources) (h : new queues = some loop) :
    loop.Drains {} := by
  obtain ⟨u, hu, h⟩ := Option.bind_eq_some_iff.mp h
  obtain rfl := Option.some.inj h
  have hcreated : queues.createTaskQueue.2.OwnSources := ho.step (a := .createTaskQueue) rfl
  have hq : queues.createTaskQueue.2.Unmerged queues.createTaskQueue.1 := by
    constructor <;>
      simp [MessageLoopTaskQueues.createTaskQueue, MessageLoopTaskQueues.Live, MessageLoopTaskQueues.subsumedBy,
        MessageLoopTaskQueues.ownerOf]
  have hempty : queues.createTaskQueue.2.pending queues.createTaskQueue.1 = 0 := by
    simp [MessageLoopTaskQueues.createTaskQueue, MessageLoopTaskQueues.pending]
  obtain ⟨hl, hpending⟩ := MessageLoopTaskQueues.setWakeable_unmerged hu
  have hheld : held { taskQueue := u, queueId := queues.createTaskQueue.1 } = 0 := by
    rw [held, hpending, hempty, Multiset.map_zero]
  refine ⟨hq.congr hl, hcreated.step (a := .setWakeable _) hu, ?_, ?_⟩
  · rw [Accounted, hheld]
    rfl
  · intro hreturned
    cases hreturned

/-- Once `DoRun` has returned, the queue of the loop holds no task, and every closure that was
posted was run once, or destroyed in its post or by `DoRun`, or its post is still to return. -/
theorem drained_of_run (labels : List (MessageLoopTaskQueues.Label α)) (queues : MessageLoopTaskQueues α)
    (hq : (MessageLoopTaskQueues.machine α).run labels = some queues) (loop : MessageLoopImpl α)
    (hn : new queues = some loop) (as : List (Label α)) (s : MessageLoopImpl α) (g : Fates α)
    (hr : (machine loop).run as = some (s, g))
    (hc : (⟨loop, step⟩ : Machine _ _).Along PostsInTime loop as) (hs : s.phase = .returned) :
    s.taskQueue.pending s.queueId = 0 ∧
      g.posted = g.run + g.destroyedInPost + g.destroyedByRun + ↑(s.posting.map (·.task)) := by
  have ho : queues.OwnSources := by
    apply Machine.invariant (I := MessageLoopTaskQueues.OwnSources) _ _ hq
    · exact fun _ _ _ h ht => h.step ht
    · simp [MessageLoopTaskQueues.OwnSources, MessageLoopTaskQueues.Sources, MessageLoopTaskQueues.machine]
  have h : s.Drains g := by
    apply Machine.invariant_along (I := fun r : MessageLoopImpl α × Fates α => r.1.Drains r.2) _ _
      (Machine.along_withHistory.mpr hc) hr
    · intro r a r' h hc ht
      obtain ⟨ht, hg⟩ := Machine.withHistory_step ht
      rw [hg]
      exact Drains.step h hc ht
    · exact new_drains ho hn
  have hheld : s.held = 0 := h.drained hs
  have ha : g.posted = _ := h.accounted
  rw [hheld, add_zero] at ha
  exact ⟨Multiset.map_eq_zero.mp hheld, ha⟩

/-- The only loop there is. -/
def onlyLoop : MessageLoopImpl Nat where
  taskQueue := ({} : MessageLoopTaskQueues Nat).createTaskQueue.2.updateEntry 0 fun e => { e with wakeable := true }
  queueId := 0

/-- One task is run, one is destroyed at the end of `DoRun`, and one in its post. -/
def terminationRun : List (Label Nat) :=
  [.postTask ⟨7, 10⟩, .registerTask 0, .postTask ⟨8, 100⟩, .doRun, .runExpiredTasks .kSingle 20, .flushTask,
    .doTerminate, .postTask ⟨9, 0⟩, .runReturns 30, .registerTask 0, .flushTask, .disposeTasks]

theorem drained_terminationRun : ∃ s g, new {} = some onlyLoop ∧
    (machine onlyLoop).run terminationRun = some (s, g) ∧ s.taskQueue.pending s.queueId = 0 ∧
    g.run = {7} ∧ g.destroyedByRun = {8} ∧ g.destroyedInPost = {9} := by
  have hr : (machine onlyLoop).run terminationRun = some (_, _) := rfl
  have h := drained_of_run [] {} rfl onlyLoop rfl terminationRun _ _ hr (by decide) rfl
  exact ⟨_, _, rfl, hr, h.1, rfl, rfl, rfl⟩

/-- The post reads the flag before `Run` returns, and registers its task after all of them
were disposed of. -/
def lateRun : List (Label Nat) :=
  [.postTask ⟨7, 0⟩, .doRun, .runReturns 0, .flushTask, .disposeTasks, .registerTask 0]

/-- The loop is terminated before it is run. -/
def notRun : List (Label Nat) := [.postTask ⟨7, 0⟩, .registerTask 0, .doTerminate, .doRun]

theorem held_after_doRun : ∃ s t g, new {} = some onlyLoop ∧
    (machine onlyLoop).run lateRun = some (s, g) ∧ s.phase = .returned ∧ s.held = {7} ∧
    (machine onlyLoop).run notRun = some (t, g) ∧ t.phase = .returned ∧ t.held = {7} ∧
    g = { posted := {7} } := by
  have hs : (machine onlyLoop).run lateRun = some (_, _) := rfl
  have ht : (machine onlyLoop).run notRun = some (_, _) := rfl
  exact ⟨_, _, _, rfl, hs, rfl, by decide, ht, rfl, by decide, rfl⟩

end MessageLoopImpl
end Ogre.Fml
