import Ogre.Fml.TaskConservation

/-! Wake-ups: which loop is asked to wake up for a task that becomes visible, and when
none is. -/
namespace Ogre.Fml.MessageLoopTaskQueues
open Ogre.Library
variable {α : Type} {s t u : MessageLoopTaskQueues α} {a : Label α} {id q owner subsumed : Nat}

/-- A queue that is not subsumed and has a wakeable. -/
def Wakes (s : MessageLoopTaskQueues α) (q : Nat) : Prop :=
  ∃ e ∈ s.queueEntries q, e.subsumedBy = none ∧ e.wakeable = true

/-- The last wake-up that was asked for comes by the time. -/
def WakesBy (s : MessageLoopTaskQueues α) (q : Nat) (time : Int) : Prop := ∃ requested ∈ s.wakeUps q, requested ≤ time

/-- A loop is to wake up by the time of each task that it sees. -/
def Woken (s : MessageLoopTaskQueues α) (q : Nat) : Prop :=
  s.Wakes q → ∀ task ∈ s.visible q, s.WakesBy q task.targetTime

def NoLostWakeup (s : MessageLoopTaskQueues α) : Prop := ∀ q, s.Woken q

instance : Decidable (s.Wakes q) := by unfold Wakes; infer_instance
instance {time : Int} : Decidable (s.WakesBy q time) := by unfold WakesBy; infer_instance
instance : Decidable (s.Woken q) := by unfold Woken; infer_instance

/-- Wakeables are set before there is a task to wake up for, and the debug checks hold. A
pause of a subsumed queue is not ended while its owner would wake up too late for it. -/
def Announces (s : MessageLoopTaskQueues α) (a : Label α) (_ : MessageLoopTaskQueues α) : Prop :=
  match a with
  | .setWakeable id => s.visible id = []
  | .dispose id => s.subsumedBy id = none
  | .resumeSecondarySource id => ∀ e ∈ s.queueEntries id, 0 < e.taskSource.secondaryPauseRequests ∧
      (e.taskSource.secondaryPauseRequests = 1 → ∀ owner ∈ e.subsumedBy, s.Wakes owner →
        ∀ task ∈ e.taskSource.secondaryTaskQueue.items, s.WakesBy owner task.targetTime)
  | _ => True

instance (s : MessageLoopTaskQueues α) : (a : Label α) → (t : MessageLoopTaskQueues α) → Decidable (Announces s a t)
  | .setWakeable id, _ => inferInstanceAs (Decidable (s.visible id = []))
  | .dispose id, _ => inferInstanceAs (Decidable (s.subsumedBy id = none))
  | .resumeSecondarySource id, _ =>
    inferInstanceAs (Decidable (∀ e ∈ s.queueEntries id, 0 < e.taskSource.secondaryPauseRequests ∧ _))
  | .createTaskQueue, _ | .registerTask _ _ _ _, _ | .getNextTaskToRun _ _, _ | .merge _ _, _ | .unmerge _ _, _ |
    .pauseSecondarySource _, _ | .disposeTasks _, _ => .isTrue trivial

/-- With the links of the merges, and no pause that was ended too often. -/
structure Awake (s : MessageLoopTaskQueues α) : Prop where
  merged : s.MergedBelow
  pauses : s.Sources fun _ source => 0 ≤ source.secondaryPauseRequests
  woken : s.NoLostWakeup

/-- A loop that sees no more than before is woken up as before. -/
private theorem Woken.mono (h : s.Woken q) (hq : t.Wakes q → s.Wakes q) (hv : t.visible q ⊆ s.visible q)
    (hw : t.wakeUps q = s.wakeUps q) : t.Woken q := by
  intro hwakes task htask
  obtain ⟨requested, hrequested, hle⟩ := h (hq hwakes) task (hv htask)
  exact ⟨requested, by rwa [hw], hle⟩

private theorem visible_subset (ho : t.ownerOf q ⊆ s.ownerOf q)
    (hv : ∀ p, p = q ∨ p ∈ t.ownerOf q → t.visibleIn p ⊆ s.visibleIn p) : t.visible q ⊆ s.visible q := by
  intro task htask
  rcases List.mem_append.mp htask with htask | htask
  · exact List.mem_append_left _ (hv q (.inl rfl) htask)
  · obtain ⟨p, hp, htask⟩ := List.mem_flatMap.mp htask
    exact List.mem_append_right _ (List.mem_flatMap.mpr ⟨p, ho hp, hv p (.inr hp) htask⟩)

private theorem SameQueues.visible (h : SameQueues s t) : t.visible q = s.visible q := by
  have hin : t.visibleIn = s.visibleIn := by
    funext p
    rw [visibleIn, h.queueEntries, visibleIn]
  rw [MessageLoopTaskQueues.visible, hin, h.links.ownerOf, MessageLoopTaskQueues.visible]

private theorem SameQueues.wakes (h : SameQueues s t) : t.Wakes q ↔ s.Wakes q := by
  rw [Wakes, h.queueEntries, Wakes]

theorem Wakes.subsumedBy (h : s.Wakes q) : s.subsumedBy q = none := by
  obtain ⟨e, he, hnone, _⟩ := h
  exact (subsumedBy_eq he).trans hnone

/-- After the wake-up for the task that is peeked, the loop is woken up for all that it sees. -/
private theorem woken_of_peek {top : TopTask α} (htop : s.peekNextTaskUnlocked id = some top)
    (h : s.wakeUpUnlocked id top.task.targetTime = some t) :
    t.Woken id ∧ ∀ q, q ≠ id → t.wakeUps q = s.wakeUps q := by
  have hsame := wakeUpUnlocked_same h
  obtain ⟨e, he, rfl⟩ := wakeUpUnlocked_cases h
  constructor
  · intro hwakes task htask
    rw [hsame.visible] at htask
    obtain ⟨f, hf, _, hwakeable⟩ := hsame.wakes.mp hwakes
    obtain rfl := Option.some.inj (he.symm.trans hf)
    rw [if_pos hwakeable]
    exact ⟨top.task.targetTime, by simp, peek_le htop task htask⟩
  · intro q hq
    split
    · exact Function.update_of_ne hq _ _
    · rfl

/-- What `wakeUpIfPending` does for its loop, and that it does nothing for the others. -/
private theorem woken_of_wakeUpIfPending (h : s.wakeUpIfPending id = some t) :
    t.Woken id ∧ ∀ q, q ≠ id → t.wakeUps q = s.wakeUps q := by
  rcases wakeUpIfPending_cases h with ⟨hpending, rfl⟩ | ⟨top, _, htop, h⟩
  · refine ⟨fun hwakes task htask => ?_, fun _ _ => rfl⟩
    rw [visible_of_not_pending hpending hwakes.subsumedBy] at htask
    cases htask
  · exact woken_of_peek htop h

/-- The other loops, after a change of the queues and a wake-up of one loop. -/
private theorem woken_others (h : s.Woken q) (hu : u.wakeUpIfPending id = some t) (hne : q ≠ id)
    (hq : u.Wakes q → s.Wakes q) (hv : u.Wakes q → u.visible q ⊆ s.visible q) (hw : u.wakeUps q = s.wakeUps q) :
    t.Woken q := by
  have hsame := wakeUpIfPending_same hu
  intro hwakes
  have hwakesU := hsame.wakes.mp hwakes
  refine h.mono (fun _ => hq hwakesU) ?_ (((woken_of_wakeUpIfPending hu).2 q hne).trans hw) hwakes
  rw [hsame.visible]
  exact hv hwakesU

section Updates
variable {f : TaskQueueEntry α → TaskQueueEntry α} {g : TaskSource α → TaskSource α}

private theorem visibleIn_updateSource : (s.updateSource id g).visibleIn q =
    if q = id then ((s.queueEntries q).map fun e => (g e.taskSource).visible).getD [] else s.visibleIn q := by
  unfold visibleIn updateSource
  rw [queueEntries_updateEntry]
  split
  · rw [Option.map_map]
    rfl
  · rfl

private theorem visibleIn_updateEntry_of_eq (hf : ∀ e, (f e).taskSource = e.taskSource) :
    (s.updateEntry id f).visibleIn q = s.visibleIn q := by
  unfold visibleIn
  rw [queueEntries_updateEntry]
  split <;> cases s.queueEntries q <;> simp [hf]

private theorem wakes_of_updateEntry (hf : ∀ e, (f e).subsumedBy = none → (f e).wakeable = true →
      e.subsumedBy = none ∧ e.wakeable = true) (h : (s.updateEntry id f).Wakes q) : s.Wakes q := by
  obtain ⟨e, he, hnone, hwakeable⟩ := h
  rw [queueEntries_updateEntry] at he
  split at he
  · obtain ⟨d, hd, rfl⟩ := Option.map_eq_some_iff.mp he
    exact ⟨d, hd, hf d hnone hwakeable⟩
  · exact ⟨e, he, hnone, hwakeable⟩

private theorem wakes_updateEntry_of_ne (hq : q ≠ id) : (s.updateEntry id f).Wakes q ↔ s.Wakes q := by
  rw [Wakes, queueEntries_updateEntry, if_neg hq, Wakes]

private theorem wakes_updateSource : (s.updateSource id g).Wakes q ↔ s.Wakes q := by
  unfold Wakes updateSource
  rw [queueEntries_updateEntry]
  split <;> cases s.queueEntries q <;> simp

/-- A loop that does not see the queue sees no change of its source. -/
private theorem visible_updateSource (hq : q ≠ id) (ho : id ∉ s.ownerOf q) :
    (s.updateSource id g).visible q ⊆ s.visible q := by
  have hlinks : SameLinks s (s.updateSource id g) := sameLinks_updateSource
  apply visible_subset
  · rw [hlinks.ownerOf]
    exact List.Subset.refl _
  · intro p hp
    rw [hlinks.ownerOf] at hp
    have hne : p ≠ id := by
      rintro rfl
      exact hp.elim (fun h => hq h.symm) ho
    rw [visibleIn_updateSource, if_neg hne]
    exact List.Subset.refl _

/-- Where no source shows more, no loop sees more. -/
private theorem visible_updateSource_of_subset (hg : ∀ e, s.queueEntries id = some e →
    (g e.taskSource).visible ⊆ e.taskSource.visible) : (s.updateSource id g).visible q ⊆ s.visible q := by
  have hlinks : SameLinks s (s.updateSource id g) := sameLinks_updateSource
  apply visible_subset
  · rw [hlinks.ownerOf]
    exact List.Subset.refl _
  · intro p _
    rw [visibleIn_updateSource]
    split
    next hp =>
      subst hp
      cases he : s.queueEntries p with
      | none => exact List.nil_subset _
      | some e =>
        rw [visibleIn_eq he]
        exact hg e he
    next => exact List.Subset.refl _

end Updates

/-- The loop that sees a queue: the queue itself, or the one that it is subsumed by. -/
private theorem sees_only (h : s.Merged) {e : TaskQueueEntry α} (he : s.queueEntries id = some e) (hwakes : s.Wakes q)
    (hne : q ≠ e.subsumedBy.getD id) : q ≠ id ∧ id ∉ s.ownerOf q := by
  constructor
  · rintro rfl
    have hnone := (subsumedBy_eq he).symm.trans hwakes.subsumedBy
    rw [hnone] at hne
    exact hne rfl
  · intro hmem
    have hsome := (subsumedBy_eq he).symm.trans ((h.inverse q id).mp hmem)
    rw [hsome] at hne
    exact hne rfl

private theorem registerTask_woken {task : α} {targetTime : Int} {grade : TaskSourceGrade} (h : s.Awake)
    (ht : s.registerTask id task targetTime grade = some t) : t.NoLostWakeup := by
  intro q
  obtain ⟨e, he, ht⟩ := registerTask_cases ht
  by_cases hq : q = e.subsumedBy.getD id
  · subst hq
    exact (woken_of_wakeUpIfPending ht).1
  · apply woken_others (h.woken q) ht hq wakes_updateSource.mp ?_ rfl
    intro hwakes
    have hwakes : s.Wakes q := (wakes_updateSource (s := { s with order := s.order + 1 })).mp hwakes
    obtain ⟨hne, hmem⟩ := sees_only h.merged.toMerged he hwakes hq
    exact visible_updateSource (s := { s with order := s.order + 1 }) hne hmem

private theorem getNextTaskToRun_woken {now : Int} {r : Option (DelayedTask α)} (h : s.NoLostWakeup)
    (ht : s.getNextTaskToRun id now = some (r, t)) : t.NoLostWakeup := by
  intro q
  rcases getNextTaskToRun_cases ht with ⟨_, _, rfl⟩ | ⟨top, u, _, htop, hu, hcases⟩
  · exact h q
  · have hwoken : u.Woken q := by
      obtain ⟨hid, hothers⟩ := woken_of_peek htop hu
      by_cases hq : q = id
      · rw [hq]
        exact hid
      · have hsame := wakeUpUnlocked_same hu
        exact (h q).mono hsame.wakes.mp (fun _ htask => hsame.visible ▸ htask) (hothers q hq)
    rcases hcases with ⟨_, _, rfl⟩ | ⟨_, _, _, rfl⟩
    · exact hwoken
    · exact hwoken.mono wakes_updateSource.mp
        (visible_updateSource_of_subset fun _ _ => TaskSource.visible_popTask) rfl

private theorem visibleIn_link : (s.link owner subsumed).visibleIn q = s.visibleIn q := by
  unfold link
  rw [visibleIn_updateEntry_of_eq, visibleIn_updateEntry_of_eq] <;> intro _ <;> rfl

private theorem visibleIn_unlink : (s.unlink owner subsumed).visibleIn q = s.visibleIn q := by
  unfold unlink
  rw [visibleIn_updateEntry_of_eq, visibleIn_updateEntry_of_eq] <;> intro _ <;> rfl

private theorem wakes_of_link (h : (s.link owner subsumed).Wakes q) : s.Wakes q := by
  have howner : (s.updateEntry owner fun e =>
      { e with ownerOf := e.ownerOf.orderedInsert (· ≤ ·) subsumed }).Wakes q := by
    apply wakes_of_updateEntry _ h
    intro e hnone
    cases hnone
  apply wakes_of_updateEntry _ howner
  intro e hnone hwakeable
  exact ⟨hnone, hwakeable⟩

private theorem merge_woken {r : Bool} (h : s.Awake) (ht : s.merge owner subsumed = some (r, t)) : t.NoLostWakeup := by
  intro q
  rcases merge_cases ht with rfl | ⟨o, e, ho, he, hne, _, _, _, _, ht⟩
  · exact h.woken q
  · by_cases hq : q = owner
    · subst hq
      exact (woken_of_wakeUpIfPending ht).1
    · apply woken_others (h.woken q) ht hq wakes_of_link ?_ rfl
      intro _
      apply visible_subset
      · intro p hp
        exact ((mem_ownerOf_link ho).mp hp).resolve_left fun hlink => hq hlink.1
      · intro p _
        rw [visibleIn_link]
        exact List.Subset.refl _

private theorem unmerge_woken {r : Bool} (h : s.Awake) (ht : s.unmerge owner subsumed = some (r, t)) :
    t.NoLostWakeup := by
  intro q
  rcases unmerge_cases ht with rfl | ⟨o, e, u, ho, he, hmem, _, _, hu, ht⟩
  · exact h.woken q
  by_cases hqs : q = subsumed
  · subst hqs
    exact (woken_of_wakeUpIfPending ht).1
  -- the second wake-up is for the other queue
  have hwoken : u.Woken q := by
    by_cases hqo : q = owner
    · subst hqo
      exact (woken_of_wakeUpIfPending hu).1
    · apply woken_others (h.woken q) hu hqo ?_ ?_ rfl
      · intro hwakes
        exact (wakes_updateEntry_of_ne hqs).mp ((wakes_updateEntry_of_ne hqo).mp hwakes)
      · intro _
        apply visible_subset
        · intro p hp
          exact (mem_ownerOf_unlink.mp hp).1
        · intro p _
          rw [visibleIn_unlink]
          exact List.Subset.refl _
  exact woken_others hwoken ht hqs (fun h => h) (fun _ => List.Subset.refl _) rfl

/-- A source shows more only when its last pause is ended. -/
private theorem visible_resumeSecondary {source : TaskSource α} {task : DelayedTask α}
    (h : task ∈ source.resumeSecondary.visible) : task ∈ source.visible ∨
      source.secondaryPauseRequests = 1 ∧ task ∈ source.secondaryTaskQueue.items := by
  rcases TaskSource.mem_visible.mp h with hprimary | ⟨hpause, hsecondary⟩
  · exact .inl (TaskSource.mem_visible.mpr (.inl hprimary))
  · have hone : source.secondaryPauseRequests - 1 = 0 := hpause
    exact .inr ⟨by omega, hsecondary⟩

private theorem resume_woken (h : s.Awake) (hc : Announces s (.resumeSecondarySource id) t)
    (ht : s.resumeSecondarySource id = some t) : t.NoLostWakeup := by
  intro q
  obtain ⟨e, he, ht⟩ := Option.bind_eq_some_iff.mp ht
  obtain ⟨hpos, hlast⟩ := hc e he
  by_cases hq : q = id
  · subst hq
    exact (woken_of_wakeUpIfPending ht).1
  by_cases hmem : id ∈ s.ownerOf q
  · -- the queue is subsumed, so nobody is woken up, and its owner sees more
    have hsubsumed := (h.merged.inverse q id).mp hmem
    have hsame := wakeUpIfPending_same ht
    intro hwakes task htask
    have hwakes : s.Wakes q := wakes_updateSource.mp (hsame.wakes.mp hwakes)
    have hby (h : s.WakesBy q task.targetTime) : t.WakesBy q task.targetTime := by
      rw [WakesBy, (woken_of_wakeUpIfPending ht).2 q hq]
      exact h
    have hold (p) (hp : p = q ∨ p ∈ s.ownerOf q) (hseen : task ∈ s.visibleIn p) : t.WakesBy q task.targetTime := by
      apply hby
      apply h.woken q hwakes
      rcases hp with rfl | hp
      · exact List.mem_append_left _ hseen
      · exact List.mem_append_right _ (List.mem_flatMap.mpr ⟨p, hp, hseen⟩)
    rw [hsame.visible] at htask
    rcases List.mem_append.mp htask with hseen | hseen
    · rw [visibleIn_updateSource, if_neg hq] at hseen
      exact hold q (.inl rfl) hseen
    · obtain ⟨p, hp, hseen⟩ := List.mem_flatMap.mp hseen
      rw [(sameLinks_updateSource : SameLinks s _).ownerOf] at hp
      rw [visibleIn_updateSource] at hseen
      by_cases hpid : p = id
      · rw [if_pos hpid, hpid, he] at hseen
        rcases visible_resumeSecondary hseen with hbefore | ⟨hone, hsecondary⟩
        · apply hold id (.inr hmem)
          rw [visibleIn_eq he]
          exact hbefore
        · exact hby (hlast hone q ((subsumedBy_eq he).symm.trans hsubsumed) hwakes task hsecondary)
      · rw [if_neg hpid] at hseen
        exact hold p (.inr hp) hseen
  · apply woken_others (h.woken q) ht hq wakes_updateSource.mp ?_ rfl
    intro _
    exact visible_updateSource hq hmem

private theorem createTaskQueue_woken (h : s.Awake) : s.createTaskQueue.2.NoLostWakeup := by
  have hfree (q) (hq : s.Live q) : q ≠ s.taskQueueIdCounter := (h.merged.below q hq).ne
  have hentries (q) (hq : q ≠ s.taskQueueIdCounter) : s.createTaskQueue.2.queueEntries q = s.queueEntries q :=
    Function.update_of_ne hq _ _
  intro q hwakes
  have hne : q ≠ s.taskQueueIdCounter := by
    rintro rfl
    obtain ⟨e, he, _, hwakeable⟩ := hwakes
    simp only [createTaskQueue, Function.update_self, Option.mem_some] at he
    obtain rfl := he
    cases hwakeable
  have howner : s.createTaskQueue.2.ownerOf q = s.ownerOf q := by rw [ownerOf, hentries q hne, ownerOf]
  refine (h.woken q).mono (fun _ => ?_) ?_ rfl hwakes
  · rwa [Wakes, hentries q hne] at hwakes
  · apply visible_subset
    · rw [howner]
      exact List.Subset.refl _
    · intro p hp
      rw [howner] at hp
      have hpne : p ≠ s.taskQueueIdCounter := by
        rcases hp with rfl | hp
        · exact hne
        · exact hfree p (h.merged.live q p ((h.merged.inverse q p).mp hp)).2
      rw [visibleIn, hentries p hpne]
      exact List.Subset.refl _

/-- Disposing of queues or of their tasks leaves less to see. -/
private theorem dispose_woken (h : s.NoLostWakeup) (hw : t.wakeUps = s.wakeUps)
    (ht : ∀ q, t.queueEntries q = none ∨ t.queueEntries q = s.queueEntries q ∨
      t.queueEntries q = (s.queueEntries q).map shutDown) : t.NoLostWakeup := by
  intro q
  refine (h q).mono (fun hwakes => ?_) ?_ (by rw [hw])
  · obtain ⟨e, he, hnone, hwakeable⟩ := hwakes
    rcases ht q with hq | hq | hq
    · simp [hq] at he
    · exact ⟨e, hq ▸ he, hnone, hwakeable⟩
    · obtain ⟨d, hd, rfl⟩ := Option.map_eq_some_iff.mp (hq.symm.trans he)
      exact ⟨d, hd, hnone, hwakeable⟩
  · apply visible_subset
    · intro p hp
      unfold ownerOf at hp ⊢
      rcases ht q with hq | hq | hq
      · simp [hq] at hp
      · rwa [hq] at hp
      · rw [hq] at hp
        cases he : s.queueEntries q <;> simp_all [shutDown]
    · intro p _ task htask
      unfold visibleIn at htask ⊢
      rcases ht p with hq | hq | hq
      · simp [hq] at htask
      · rwa [hq] at htask
      · rw [hq] at htask
        cases he : s.queueEntries p <;> simp_all [shutDown]

private theorem setWakeable_woken (h : s.NoLostWakeup) (hv : s.visible id = [])
    (ht : s.setWakeable id = some t) : t.NoLostWakeup := by
  obtain ⟨e, he, ht⟩ := Option.bind_eq_some_iff.mp ht
  split at ht
  · cases ht
  obtain rfl := Option.some.inj ht
  intro q
  have hvisible : (s.updateEntry id fun e => { e with wakeable := true }).visible q = s.visible q := by
    have hin : (s.updateEntry id fun e => { e with wakeable := true }).visibleIn = s.visibleIn := by
      funext p
      apply visibleIn_updateEntry_of_eq
      intro _
      rfl
    have hl : SameLinks s (s.updateEntry id fun e => { e with wakeable := true }) := by
      apply sameLinks_updateEntry <;> intro _ <;> rfl
    rw [visible, hin, hl.ownerOf, visible]
  by_cases hq : q = id
  · subst hq
    intro _ task htask
    rw [hvisible, hv] at htask
    cases htask
  · exact (h q).mono (wakes_updateEntry_of_ne hq).mp (fun _ htask => hvisible ▸ htask) rfl

private theorem pauseSecondarySource_woken (h : s.Awake) (ht : s.pauseSecondarySource id = some t) :
    t.NoLostWakeup := by
  obtain ⟨e, he, ht⟩ := Option.bind_eq_some_iff.mp ht
  obtain rfl := Option.some.inj ht
  intro q
  apply (h.woken q).mono wakes_updateSource.mp ?_ rfl
  apply visible_updateSource_of_subset
  intro e he task htask
  rcases TaskSource.mem_visible.mp htask with hprimary | ⟨hpause, hsecondary⟩
  · exact TaskSource.mem_visible.mpr (.inl hprimary)
  · have hnonneg := h.pauses id e he
    have hzero : e.taskSource.secondaryPauseRequests + 1 = 0 := hpause
    omega

/-- Only pauses that were asked for are ended. -/
theorem pauses_step (h : s.Sources fun _ source => 0 ≤ source.secondaryPauseRequests)
    (hc : ∀ q e, a = .resumeSecondarySource q → s.queueEntries q = some e → 0 < e.taskSource.secondaryPauseRequests)
    (ht : s.step a = some t) : t.Sources fun _ source => 0 ≤ source.secondaryPauseRequests := by
  apply Sources.step h _ _ _ _ _ _ ht
  · exact fun _ => le_rfl
  · exact fun _ _ _ hle => TaskSource.secondaryPauseRequests_registerTask.symm ▸ hle
  · exact fun _ _ _ hle => TaskSource.secondaryPauseRequests_popTask.symm ▸ hle
  · intro _ source (hle : 0 ≤ source.secondaryPauseRequests)
    exact Int.le_add_one hle
  · intro q e ha he _
    have hpos := hc q e ha he
    change 0 ≤ e.taskSource.secondaryPauseRequests - 1
    omega
  · exact fun _ _ hle => hle

theorem Awake.step (h : s.Awake) (hc : Announces s a t) (ht : s.step a = some t) : t.Awake := by
  have hd : DisposesUnsubsumed s a t := by
    cases a with
    | dispose id => exact hc
    | _ => trivial
  have hp (q e) (ha : a = .resumeSecondarySource q) (he : s.queueEntries q = some e) :
      0 < e.taskSource.secondaryPauseRequests := by
    subst ha
    exact (hc e he).1
  refine ⟨h.merged.step hd ht, pauses_step h.pauses hp ht, ?_⟩
  cases a with
  | createTaskQueue =>
    obtain rfl := Option.some.inj ht
    exact createTaskQueue_woken h
  | setWakeable id => exact setWakeable_woken h.woken hc ht
  | registerTask id task targetTime grade => exact registerTask_woken h ht
  | getNextTaskToRun id now =>
    obtain ⟨⟨r, u⟩, hr, rfl⟩ := Option.map_eq_some_iff.mp ht
    exact getNextTaskToRun_woken h.woken hr
  | merge owner subsumed =>
    obtain ⟨⟨r, u⟩, hr, rfl⟩ := Option.map_eq_some_iff.mp ht
    exact merge_woken h hr
  | unmerge owner subsumed =>
    obtain ⟨⟨r, u⟩, hr, rfl⟩ := Option.map_eq_some_iff.mp ht
    exact unmerge_woken h hr
  | pauseSecondarySource id => exact pauseSecondarySource_woken h ht
  | resumeSecondarySource id => exact resume_woken h hc ht
  | disposeTasks id =>
    obtain ⟨e, he, ht⟩ := Option.bind_eq_some_iff.mp ht
    obtain ⟨_, _, ht⟩ := Option.bind_eq_some_iff.mp ht
    obtain rfl := Option.some.inj ht
    refine dispose_woken h.woken rfl fun q => ?_
    dsimp only
    split
    · exact .inr (.inr rfl)
    · exact .inr (.inl rfl)
  | dispose id =>
    obtain ⟨e, he, ht⟩ := Option.bind_eq_some_iff.mp ht
    obtain rfl := Option.some.inj ht
    refine dispose_woken h.woken rfl fun q => ?_
    dsimp only
    split
    · exact .inl rfl
    · exact .inr (.inl rfl)

theorem init_awake : (machine α).init.Awake :=
  ⟨init_mergedBelow, by simp [Sources, machine], fun _ hwakes => by simp [Wakes, machine] at hwakes⟩

/-- In every state of a run whose calls announce what they make visible, each loop is to wake
up by the time of the first task that it sees. -/
theorem noLostWakeup_of_run (labels : List (Label α)) (s : MessageLoopTaskQueues α)
    (hr : (machine α).run labels = some s) (hc : (machine α).Along Announces (machine α).init labels) :
    s.NoLostWakeup :=
  (Machine.invariant_along (fun _ _ _ h hc ht => h.step hc ht) init_awake hc hr).woken

/-- A pause of a merged queue is ended for a task that its owner is awake for. -/
def wakeupRun : List (Label Nat) :=
  [.createTaskQueue, .setWakeable 0, .createTaskQueue, .setWakeable 1, .pauseSecondarySource 1,
    .registerTask 1 7 30 .kDartEventLoop, .registerTask 0 8 20 .kUnspecified, .merge 0 1, .resumeSecondarySource 1,
    .getNextTaskToRun 0 25, .unmerge 0 1]

theorem noLostWakeup_wakeupRun : ∃ s, (machine Nat).run wakeupRun = some s ∧ s.NoLostWakeup ∧
    s.Wakes 1 ∧ s.wakeUps 1 = some 30 := by
  have hr : (machine Nat).run wakeupRun = some _ := rfl
  exact ⟨_, hr, noLostWakeup_of_run wakeupRun _ hr (by decide), by decide, rfl⟩

/-- The owner has nothing else to do, and nobody asks it to wake up for the task. -/
def lostWakeupRun : List (Label Nat) :=
  [.createTaskQueue, .setWakeable 0, .createTaskQueue, .setWakeable 1, .merge 0 1, .pauseSecondarySource 1,
    .registerTask 1 7 30 .kDartEventLoop, .resumeSecondarySource 1]

theorem lostWakeup_of_resume : ∃ s, (machine Nat).run lostWakeupRun = some s ∧ s.Wakes 0 ∧
    s.visible 0 = [⟨0, 7, 30, .kDartEventLoop⟩] ∧ s.wakeUps 0 = none ∧ ¬ s.NoLostWakeup := by
  have hr : (machine Nat).run lostWakeupRun = some _ := rfl
  exact ⟨_, hr, by decide, by decide, rfl, fun h => absurd (h 0) (by decide)⟩

end Ogre.Fml.MessageLoopTaskQueues
