import Ogre.Fml.TaskQueueMerging

/-! The task that is peeked: it is the top of one of the sources of a loop, and none of
the visible tasks of the loop is due before it. -/
namespace Ogre.Fml.MessageLoopTaskQueues
variable {α : Type} {s : MessageLoopTaskQueues α} {id q : Nat} {e : TaskQueueEntry α} {source : TaskSource α}
  {top other : TopTask α} {first : Option (TopTask α)} {ids : List Nat}

/-- Each source is that of its queue. -/
def OwnSources (s : MessageLoopTaskQueues α) : Prop := s.Sources fun q source => source.taskQueueId = q

theorem OwnSources.step {t : MessageLoopTaskQueues α} {a : Label α} (h : s.OwnSources) (ht : s.step a = some t) :
    t.OwnSources := by
  apply Sources.step h _ _ _ _ _ _ ht
  · exact fun _ => TaskSource.taskQueueId_new _
  · exact fun _ _ _ hid => TaskSource.taskQueueId_registerTask.trans hid
  · exact fun _ _ _ hid => TaskSource.taskQueueId_popTask.trans hid
  · exact fun _ _ hid => hid
  · exact fun _ _ _ _ hid => hid
  · exact fun _ _ hid => hid

/-- The visible tasks of one queue. -/
def visibleIn (s : MessageLoopTaskQueues α) (q : Nat) : List (DelayedTask α) :=
  ((s.queueEntries q).map (·.taskSource.visible)).getD []

/-- The visible tasks of a loop are those of its queue and of the queues that it owns. -/
def visible (s : MessageLoopTaskQueues α) (q : Nat) : List (DelayedTask α) :=
  s.visibleIn q ++ (s.ownerOf q).flatMap s.visibleIn

theorem visibleIn_eq (h : s.queueEntries q = some e) : s.visibleIn q = e.taskSource.visible := by simp [visibleIn, h]

private theorem updateTop_source (h : updateTop first source = some top) : first = some top ∨ source.top = some top := by
  unfold updateTop at h
  split at h
  · exact .inl h
  · exact .inr (by simp_all)
  next other t hother =>
    split at h
    · exact .inr (hother.trans h)
    · exact .inl h

private theorem updateTopFrom_source (h : s.updateTopFrom first ids = some (some top)) :
    first = some top ∨ ∃ q ∈ ids, ∃ e, s.queueEntries q = some e ∧ e.taskSource.top = some top := by
  induction ids generalizing first with
  | nil => exact .inl (Option.some.inj h)
  | cons q ids ih =>
    obtain ⟨e, he, h⟩ := Option.bind_eq_some_iff.mp h
    rcases ih h with h | ⟨p, hp, htop⟩
    · exact (updateTop_source h).imp_right fun htop => ⟨q, List.mem_cons_self, e, he, htop⟩
    · exact .inr ⟨p, List.mem_cons_of_mem q hp, htop⟩

/-- What is peeked is the top of the source that it names. -/
theorem peek_source (hs : s.OwnSources) (h : s.peekNextTaskUnlocked id = some top) :
    (top.taskQueueId = id ∨ top.taskQueueId ∈ s.ownerOf id) ∧
      ∃ e, s.queueEntries top.taskQueueId = some e ∧ e.taskSource.top = some top := by
  have hown (q e) (he : s.queueEntries q = some e) (htop : e.taskSource.top = some top) : top.taskQueueId = q :=
    (TaskSource.top_taskQueueId htop).trans (hs q e he)
  obtain ⟨e, he, h⟩ := Option.bind_eq_some_iff.mp h
  have hfirst (htop : e.taskSource.top = some top) : (top.taskQueueId = id ∨ top.taskQueueId ∈ s.ownerOf id) ∧
      ∃ e, s.queueEntries top.taskQueueId = some e ∧ e.taskSource.top = some top := by
    obtain rfl := hown id e he htop
    exact ⟨.inl rfl, e, he, htop⟩
  split at h
  · exact hfirst h
  · obtain ⟨r, hr, h⟩ := Option.bind_eq_some_iff.mp h
    subst h
    rcases updateTopFrom_source hr with h | ⟨q, hq, f, hf, htop⟩
    · rcases updateTop_source h with h | htop
      · cases h
      · exact hfirst htop
    · obtain rfl := hown q f hf htop
      exact ⟨.inr ((ownerOf_eq he).symm ▸ hq), f, hf, htop⟩

private theorem updateTop_before (h : first = some other ∨ source.top = some other) :
    ∃ t, updateTop first source = some t ∧ t.task.Before other.task := by
  unfold updateTop
  cases hsource : source.top with
  | none => exact ⟨other, by simpa [hsource] using h, Std.Refl.refl _⟩
  | some o =>
    cases hfirst : first with
    | none =>
      obtain rfl : o = other := by simpa [hsource, hfirst] using h
      exact ⟨o, rfl, Std.Refl.refl _⟩
    | some t =>
      have h : t = other ∨ o = other := by simpa [hsource, hfirst] using h
      dsimp only
      split
      next hgt =>
        refine ⟨o, rfl, ?_⟩
        rcases h with rfl | rfl
        · exact DelayedTask.before_of_gt hgt
        · exact Std.Refl.refl _
      next hgt =>
        refine ⟨t, rfl, ?_⟩
        rcases h with rfl | rfl
        · exact Std.Refl.refl _
        · exact (Bool.not_eq_true _).mp hgt

private theorem updateTopFrom_before (h : s.updateTopFrom first ids = some (some top))
    (hother : first = some other ∨ ∃ q ∈ ids, ∃ e, s.queueEntries q = some e ∧ e.taskSource.top = some other) :
    top.task.Before other.task := by
  induction ids generalizing first other with
  | nil =>
    obtain rfl : first = some top := Option.some.inj h
    obtain rfl : top = other := by simpa using hother
    exact Std.Refl.refl _
  | cons q ids ih =>
    obtain ⟨e, he, h⟩ := Option.bind_eq_some_iff.mp h
    have hsplit : (first = some other ∨ e.taskSource.top = some other) ∨
        ∃ p ∈ ids, ∃ f, s.queueEntries p = some f ∧ f.taskSource.top = some other := by
      rcases hother with hother | ⟨p, hp, f, hf, htop⟩
      · exact .inl (.inl hother)
      · rcases List.mem_cons.mp hp with rfl | hp
        · obtain rfl := Option.some.inj (he.symm.trans hf)
          exact .inl (.inr htop)
        · exact .inr ⟨p, hp, f, hf, htop⟩
    rcases hsplit with hfirst | hlater
    · obtain ⟨t, ht, hle⟩ := updateTop_before hfirst
      exact Trans.trans (ih h (.inl ht)) hle
    · exact ih h (.inr hlater)

/-- The task that is peeked is before all that are visible. -/
theorem peek_before (h : s.peekNextTaskUnlocked id = some top) : ∀ task ∈ s.visible id, top.task.Before task := by
  intro task htask
  obtain ⟨e, he, h⟩ := Option.bind_eq_some_iff.mp h
  have hsource (q f) (hf : s.queueEntries q = some f) (hmem : task ∈ s.visibleIn q) :
      ∃ other, f.taskSource.top = some other ∧ other.task.Before task := by
    rw [visibleIn_eq hf] at hmem
    obtain ⟨other, hother⟩ := TaskSource.exists_top hmem
    exact ⟨other, hother, TaskSource.top_before hother task hmem⟩
  rw [visible, ownerOf_eq he] at htask
  split at h
  next hempty =>
    have htask : task ∈ s.visibleIn id := by simpa [List.isEmpty_iff.mp hempty] using htask
    obtain ⟨other, hother, hle⟩ := hsource id e he htask
    obtain rfl := Option.some.inj (h.symm.trans hother)
    exact hle
  next =>
    obtain ⟨r, hr, h⟩ := Option.bind_eq_some_iff.mp h
    subst h
    rcases List.mem_append.mp htask with htask | htask
    · obtain ⟨other, hother, hle⟩ := hsource id e he htask
      have htop : (none : Option (TopTask α)) = some other ∨ e.taskSource.top = some other := .inr hother
      obtain ⟨t, ht, hle'⟩ := updateTop_before htop
      exact Trans.trans (updateTopFrom_before hr (.inl ht)) (Trans.trans hle' hle)
    · obtain ⟨q, hq, htask⟩ := List.mem_flatMap.mp htask
      cases hf : s.queueEntries q with
      | none => simp [visibleIn, hf] at htask
      | some f =>
        obtain ⟨other, hother, hle⟩ := hsource q f hf htask
        exact Trans.trans (updateTopFrom_before hr (.inr ⟨q, hq, f, hf, hother⟩)) hle

/-- No visible task is due before the one that is peeked. -/
theorem peek_le (h : s.peekNextTaskUnlocked id = some top) :
    ∀ task ∈ s.visible id, top.task.targetTime ≤ task.targetTime :=
  fun task htask => (peek_before h task htask).targetTime

private theorem anyPending_false (h : s.anyPending ids = some false) : ∀ q ∈ ids, s.visibleIn q = [] := by
  induction ids with
  | nil => simp
  | cons p ids ih =>
    obtain ⟨e, he, h⟩ := Option.bind_eq_some_iff.mp h
    split at h
    · cases h
    next hempty =>
      intro q hq
      rcases List.mem_cons.mp hq with rfl | hq
      · rw [visibleIn_eq he, ← TaskSource.isEmpty_iff]
        simpa using hempty
      · exact ih h q hq

/-- A loop that is not subsumed and has nothing pending has no visible task. -/
theorem visible_of_not_pending (h : s.hasPendingTasksUnlocked id = some false) (hs : s.subsumedBy id = none) :
    s.visible id = [] := by
  obtain ⟨e, he, h⟩ := Option.bind_eq_some_iff.mp h
  rw [subsumedBy_eq he] at hs
  rw [hs, if_neg (by simp)] at h
  split at h
  · cases h
  next hempty =>
    have hfirst : s.visibleIn id = [] := by
      rw [visibleIn_eq he, ← TaskSource.isEmpty_iff]
      simpa using hempty
    rw [visible, hfirst, ownerOf_eq he, List.nil_append, List.flatMap_eq_nil_iff]
    exact anyPending_false h

private theorem anyPending_true (h : s.anyPending ids = some true) : ∃ q ∈ ids, s.visibleIn q ≠ [] := by
  induction ids with
  | nil => cases h
  | cons p ids ih =>
    obtain ⟨e, he, h⟩ := Option.bind_eq_some_iff.mp h
    split at h
    next hempty =>
      refine ⟨p, List.mem_cons_self, ?_⟩
      rw [visibleIn_eq he, Ne, ← TaskSource.isEmpty_iff]
      simpa using hempty
    next =>
      obtain ⟨q, hq, hne⟩ := ih h
      exact ⟨q, List.mem_cons_of_mem p hq, hne⟩

/-- A loop with something pending is not subsumed and has a visible task. -/
theorem visible_of_pending (h : s.hasPendingTasksUnlocked id = some true) :
    s.subsumedBy id = none ∧ s.visible id ≠ [] := by
  obtain ⟨e, he, h⟩ := Option.bind_eq_some_iff.mp h
  split at h
  · cases h
  next hsubsumed =>
    refine ⟨(subsumedBy_eq he).trans (by simpa using hsubsumed), ?_⟩
    rw [visible, ownerOf_eq he]
    split at h
    next hempty =>
      apply List.append_ne_nil_of_left_ne_nil
      rw [visibleIn_eq he, Ne, ← TaskSource.isEmpty_iff]
      simpa using hempty
    next =>
      obtain ⟨q, hq, hne⟩ := anyPending_true h
      obtain ⟨task, htask⟩ := List.exists_mem_of_ne_nil _ hne
      exact List.append_ne_nil_of_right_ne_nil _ (List.ne_nil_of_mem (List.mem_flatMap.mpr ⟨q, hq, htask⟩))

/-- Where no pause was ended too often, the task that is peeked is itself visible. -/
theorem peek_mem_visible (hs : s.OwnSources) (hpauses : s.Sources fun _ source => 0 ≤ source.secondaryPauseRequests)
    (h : s.peekNextTaskUnlocked id = some top) : top.task ∈ s.visible id := by
  obtain ⟨hq, e, he, htop⟩ := peek_source hs h
  have hin : top.task ∈ s.visibleIn top.taskQueueId := by
    rw [visibleIn_eq he]
    exact TaskSource.top_mem_visible htop (hpauses _ e he)
  rcases hq with hq | hq
  · exact List.mem_append_left _ (hq ▸ hin)
  · exact List.mem_append_right _ (List.mem_flatMap.mpr ⟨_, hq, hin⟩)

/-- All queues that a call looks at are there. -/
def Linked (s : MessageLoopTaskQueues α) (id : Nat) : Prop := s.Live id ∧ ∀ q ∈ s.ownerOf id, s.Live q

private theorem exists_anyPending (h : ∀ q ∈ ids, s.Live q) : ∃ pending, s.anyPending ids = some pending := by
  induction ids with
  | nil => exact ⟨false, rfl⟩
  | cons p ids ih =>
    obtain ⟨e, he⟩ := Option.isSome_iff_exists.mp (h p List.mem_cons_self)
    obtain ⟨pending, hpending⟩ := ih fun q hq => h q (List.mem_cons_of_mem p hq)
    rw [anyPending, he, Option.bind_eq_bind, Option.bind_some, hpending]
    split
    · exact ⟨true, rfl⟩
    · exact ⟨pending, rfl⟩

theorem exists_pending (h : s.Linked id) : ∃ pending, s.hasPendingTasksUnlocked id = some pending := by
  obtain ⟨e, he⟩ := Option.isSome_iff_exists.mp h.1
  obtain ⟨pending, hpending⟩ := exists_anyPending (ownerOf_eq he ▸ h.2)
  rw [hasPendingTasksUnlocked, he, Option.bind_eq_bind, Option.bind_some, hpending]
  split
  · exact ⟨_, rfl⟩
  split
  · exact ⟨_, rfl⟩
  · exact ⟨_, rfl⟩

private theorem updateTop_none (h : updateTop first source = none) : first = none ∧ source.visible = [] := by
  unfold updateTop at h
  split at h
  next hnone =>
    refine ⟨h, List.eq_nil_iff_forall_not_mem.mpr fun task htask => ?_⟩
    obtain ⟨top, htop⟩ := TaskSource.exists_top htask
    simp [hnone] at htop
  · cases h
  · split at h <;> cases h

/-- The loop over live queues ends, and finds nothing only where nothing is visible. -/
private theorem exists_updateTopFrom (first : Option (TopTask α)) (h : ∀ q ∈ ids, s.Live q) :
    ∃ r, s.updateTopFrom first ids = some r ∧ (r = none → first = none ∧ ∀ q ∈ ids, s.visibleIn q = []) := by
  induction ids generalizing first with
  | nil => exact ⟨first, rfl, fun hnone => ⟨hnone, by simp⟩⟩
  | cons p ids ih =>
    obtain ⟨e, he⟩ := Option.isSome_iff_exists.mp (h p List.mem_cons_self)
    obtain ⟨r, hr, hnone⟩ := ih (updateTop first e.taskSource) fun q hq => h q (List.mem_cons_of_mem p hq)
    refine ⟨r, by rw [updateTopFrom, he]; exact hr, fun hn => ?_⟩
    obtain ⟨hupdate, hids⟩ := hnone hn
    obtain ⟨hfirst, hp⟩ := updateTop_none hupdate
    refine ⟨hfirst, fun q hq => ?_⟩
    rcases List.mem_cons.mp hq with rfl | hq
    · rw [visibleIn_eq he, hp]
    · exact hids q hq

/-- A loop with a visible task has one to peek. -/
theorem exists_peek (h : s.Linked id) (hv : s.visible id ≠ []) : ∃ top, s.peekNextTaskUnlocked id = some top := by
  obtain ⟨e, he⟩ := Option.isSome_iff_exists.mp h.1
  rw [visible, visibleIn_eq he, ownerOf_eq he] at hv
  rw [peekNextTaskUnlocked, he, Option.bind_eq_bind, Option.bind_some]
  split
  next hempty =>
    rw [List.isEmpty_iff.mp hempty, List.flatMap_nil, List.append_nil] at hv
    obtain ⟨task, htask⟩ := List.exists_mem_of_ne_nil _ hv
    exact TaskSource.exists_top htask
  next =>
    obtain ⟨r, hr, hnone⟩ := exists_updateTopFrom (updateTop none e.taskSource) (ownerOf_eq he ▸ h.2)
    cases r with
    | some top => exact ⟨top, by rw [hr]; rfl⟩
    | none =>
      obtain ⟨hupdate, hids⟩ := hnone rfl
      refine absurd ?_ hv
      rw [(updateTop_none hupdate).2, List.nil_append, List.flatMap_eq_nil_iff]
      exact hids

end Ogre.Fml.MessageLoopTaskQueues
