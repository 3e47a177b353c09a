import Ogre.Fml.SharedThreadMerger

/-! The leases of the thread mergers and the merge of the two queues: they agree whatever the
mergers do, and a lease that has run out is what a merger fails on. -/
namespace Ogre.Fml
open Ogre.Library

namespace MessageLoopTaskQueues
variable {α : Type} {s t : MessageLoopTaskQueues α} {a : Label α} {r : Bool} {owner subsumed q : Nat}

/-- What a merge answers, with the merge that it found or made. -/
theorem merge_result (hne : owner ≠ subsumed) (h : s.merge owner subsumed = some (r, t)) :
    r = true ∧ t = s ∧ subsumed ∈ s.ownerOf owner ∨
    r = false ∧ (s.subsumedBy owner ≠ none ∨ s.ownerOf subsumed ≠ [] ∨ s.subsumedBy subsumed ≠ none) ∨
    r = true ∧ ∃ o e, s.queueEntries owner = some o ∧ s.queueEntries subsumed = some e ∧
      SameQueues (s.link owner subsumed) t := by
  rw [merge, if_neg hne] at h
  obtain ⟨o, ho, h⟩ := Option.bind_eq_some_iff.mp h
  obtain ⟨e, he, h⟩ := Option.bind_eq_some_iff.mp h
  rw [subsumedBy_eq ho, subsumedBy_eq he, ownerOf_eq ho, ownerOf_eq he]
  split at h
  next hmem =>
    obtain ⟨rfl, rfl⟩ := Prod.mk.inj (Option.some.inj h)
    exact .inl ⟨rfl, rfl, hmem⟩
  split at h
  next ho' =>
    obtain ⟨rfl, rfl⟩ := Prod.mk.inj (Option.some.inj h)
    exact .inr (.inl ⟨rfl, .inl (Option.isSome_iff_ne_none.mp ho')⟩)
  split at h
  next hempty =>
    obtain ⟨rfl, rfl⟩ := Prod.mk.inj (Option.some.inj h)
    exact .inr (.inl ⟨rfl, .inr (.inl hempty)⟩)
  split at h
  next he' =>
    obtain ⟨rfl, rfl⟩ := Prod.mk.inj (Option.some.inj h)
    exact .inr (.inl ⟨rfl, .inr (.inr (Option.isSome_iff_ne_none.mp he'))⟩)
  obtain ⟨u, hu, h⟩ := Option.bind_eq_some_iff.mp h
  obtain ⟨rfl, rfl⟩ := Prod.mk.inj (Option.some.inj h)
  exact .inr (.inr ⟨rfl, o, e, ho, he, wakeUpIfPending_same hu⟩)

theorem unmerge_result (h : s.unmerge owner subsumed = some (r, t)) :
    r = false ∧ (s.subsumedBy owner ≠ none ∨ s.subsumedBy subsumed = none ∨ subsumed ∉ s.ownerOf owner) ∨
    r = true ∧ SameQueues (s.unlink owner subsumed) t := by
  obtain ⟨o, ho, h⟩ := Option.bind_eq_some_iff.mp h
  rw [subsumedBy_eq ho, ownerOf_eq ho]
  split at h
  next hempty =>
    obtain ⟨rfl, rfl⟩ := Prod.mk.inj (Option.some.inj h)
    exact .inl ⟨rfl, .inr (.inr (by simp [hempty]))⟩
  split at h
  next ho' =>
    obtain ⟨rfl, rfl⟩ := Prod.mk.inj (Option.some.inj h)
    exact .inl ⟨rfl, .inl (Option.isSome_iff_ne_none.mp ho')⟩
  obtain ⟨e, he, h⟩ := Option.bind_eq_some_iff.mp h
  rw [subsumedBy_eq he]
  split at h
  next he' =>
    obtain ⟨rfl, rfl⟩ := Prod.mk.inj (Option.some.inj h)
    exact .inl ⟨rfl, .inr (.inl (Option.isNone_iff_eq_none.mp he'))⟩
  split at h
  next hmem =>
    obtain ⟨rfl, rfl⟩ := Prod.mk.inj (Option.some.inj h)
    exact .inl ⟨rfl, .inr (.inr hmem)⟩
  obtain ⟨u, hu, h⟩ := Option.bind_eq_some_iff.mp h
  obtain ⟨v, hv, h⟩ := Option.bind_eq_some_iff.mp h
  obtain ⟨rfl, rfl⟩ := Prod.mk.inj (Option.some.inj h)
  exact .inr ⟨rfl, (wakeUpIfPending_same hu).trans (wakeUpIfPending_same hv)⟩

/-- A call that neither merges nor unmerges the two queues, and does not erase the first. -/
def leavesPair (s : MessageLoopTaskQueues α) (owner subsumed : Nat) : Label α → Bool
  | .merge p x | .unmerge p x => decide ¬ (owner = p ∧ subsumed = x)
  | .dispose id => decide (owner ≠ id ∧ owner ∉ s.ownerOf id)
  | _ => true

/-- A call that neither gives the queue an owner nor takes one from it, and does not erase it. -/
def leavesOwner (s : MessageLoopTaskQueues α) (q : Nat) : Label α → Bool
  | .merge _ x | .unmerge _ x => decide (q ≠ x)
  | .dispose id => decide (q ≠ id ∧ q ∉ s.ownerOf id)
  | _ => true

/-- What a call does to the merges. -/
inductive LinkEffect (s t : MessageLoopTaskQueues α) : Label α → Prop
  | same {a : Label α} (h : SameLinks s t) : LinkEffect s t a
  | created (h : SameLinks s.createTaskQueue.2 t) : LinkEffect s t .createTaskQueue
  | linked (p x : Nat) (o e : TaskQueueEntry α) (ho : s.queueEntries p = some o) (he : s.queueEntries x = some e)
      (h : SameLinks (s.link p x) t) : LinkEffect s t (.merge p x)
  | unlinked (p x : Nat) (h : SameLinks (s.unlink p x) t) : LinkEffect s t (.unmerge p x)
  | disposed (id : Nat) (e : TaskQueueEntry α) (he : s.queueEntries id = some e)
      (h : t.queueEntries = fun q => if q = id ∨ q ∈ e.ownerOf then none else s.queueEntries q) :
      LinkEffect s t (.dispose id)

private theorem linkEffect_of_step (h : s.step a = some t) : LinkEffect s t a := by
  cases effect_of_step h with
  | created hs => exact .created hs.links
  | wakeable id hs =>
    have hl : SameLinks s (s.updateEntry id fun e => { e with wakeable := true }) :=
      sameLinks_updateEntry (fun _ => rfl) fun _ => rfl
    exact .same (hl.trans hs.links)
  | registered id task _ _ hs => exact .same (sameLinks_updateSource.trans hs.links)
  | notReturned id now _ hs => exact .same hs.links
  | returned id now top _ _ _ hs => exact .same (sameLinks_updateSource.trans hs.links)
  | notMerged p x hs => exact .same hs.links
  | merged p x o e ho he _ _ _ _ hs => exact .linked p x o e ho he hs.links
  | notUnmerged p x hs => exact .same hs.links
  | unmerged p x o e _ _ _ _ hs => exact .unlinked p x hs.links
  | paused id hs => exact .same (sameLinks_updateSource.trans hs.links)
  | resumed id hs => exact .same (sameLinks_updateSource.trans hs.links)
  | tasksDisposed id e _ hs => exact .same (sameLinks_tasksDisposed hs)
  | disposed id e he hs => exact .disposed id e he hs.queueEntries

private theorem queueEntries_created : s.createTaskQueue.2.queueEntries q =
    if q = s.taskQueueIdCounter then some ⟨false, .new q, [], none⟩ else s.queueEntries q := by
  by_cases hq : q = s.taskQueueIdCounter
  · subst hq
    simp [createTaskQueue]
  · simp [createTaskQueue, hq]

theorem mem_ownerOf_step (hf : s.Fresh) (ha : s.leavesPair owner subsumed a) (h : s.step a = some t) :
    subsumed ∈ t.ownerOf owner ↔ subsumed ∈ s.ownerOf owner := by
  cases linkEffect_of_step h with
  | same hl => rw [hl.ownerOf]
  | created hl =>
    rw [hl.ownerOf, ownerOf, queueEntries_created]
    split
    next hq => simp [ownerOf, hf owner hq.ge]
    next => rfl
  | linked p x o e ho _ hl =>
    have ha : ¬ (owner = p ∧ subsumed = x) := of_decide_eq_true ha
    rw [hl.ownerOf, mem_ownerOf_link ho, or_iff_right ha]
  | unlinked p x hl =>
    have ha : ¬ (owner = p ∧ subsumed = x) := of_decide_eq_true ha
    rw [hl.ownerOf, mem_ownerOf_unlink, and_iff_left ha]
  | disposed id e he hentries =>
    have ha : owner ≠ id ∧ owner ∉ e.ownerOf := by simpa [leavesPair, ownerOf_eq he] using ha
    rw [ownerOf, hentries]
    dsimp only
    rw [if_neg (not_or.mpr ha), ownerOf]

theorem subsumedBy_step (hf : s.Fresh) (ha : s.leavesOwner q a) (h : s.step a = some t) :
    t.subsumedBy q = s.subsumedBy q := by
  cases linkEffect_of_step h with
  | same hl => exact hl.subsumedBy q
  | created hl =>
    rw [hl.subsumedBy, subsumedBy, queueEntries_created]
    split
    next hq => simp [subsumedBy, hf q hq.ge]
    next => rfl
  | linked p x o e _ he hl => rw [hl.subsumedBy, subsumedBy_link he, if_neg (by simpa [leavesOwner] using ha)]
  | unlinked p x hl => rw [hl.subsumedBy, subsumedBy_unlink, if_neg (by simpa [leavesOwner] using ha)]
  | disposed id e he hentries =>
    have ha : q ≠ id ∧ q ∉ e.ownerOf := by simpa [leavesOwner, ownerOf_eq he] using ha
    rw [subsumedBy, hentries]
    dsimp only
    rw [if_neg (not_or.mpr ha), subsumedBy]

end MessageLoopTaskQueues

namespace SharedThreadMerger
variable {α : Type} {owner subsumed caller : Nat} {s t : SharedThreadMerger α} {method : MergerMethod}
open MessageLoopTaskQueues (SameQueues SameLinks Fresh)

theorem isMergedUnSafe_iff : s.isMergedUnSafe ↔ ∃ item ∈ s.leaseTermByCaller.entries, item.2 ≠ 0 := by
  simp [isMergedUnSafe, isAllLeaseTermsZeroUnSafe]

private theorem not_isMergedUnSafe_iff : s.isMergedUnSafe = false ↔ s.isAllLeaseTermsZeroUnSafe := by
  simp [isMergedUnSafe]

/-- What no method changes that does not abort. -/
structure Unaborted (s t : SharedThreadMerger α) : Prop where
  aborted : t.aborted = s.aborted
  pending : t.pending = s.pending

/-- Neither the merge changes nor whether there is to be one. -/
structure SameMerge (s t : SharedThreadMerger α) : Prop extends Unaborted s t where
  taskQueues : t.taskQueues = s.taskQueues
  isMergedUnSafe : t.isMergedUnSafe = s.isMergedUnSafe

/-- What a method of the shared merger does, and what it fails on. -/
inductive Outcome (owner subsumed caller : Nat) (s t : SharedThreadMerger α) : MergerMethod → Prop
  | kept {method : MergerMethod} (h : SameMerge s t) : Outcome owner subsumed caller s t method
  | merged (leaseTerm : Nat) (hs : s.isMergedUnSafe = false) (ht : t.isMergedUnSafe) (ha : Unaborted s t)
      (hq : s.taskQueues.merge owner subsumed = some (true, t.taskQueues)) :
      Outcome owner subsumed caller s t (.mergeWithLease leaseTerm)
  | notMerged (leaseTerm : Nat) (hs : s.isMergedUnSafe = false) (ht : t.aborted)
      (hq : ∃ queues, s.taskQueues.merge owner subsumed = some (false, queues)) :
      Outcome owner subsumed caller s t (.mergeWithLease leaseTerm)
  | unmerged {method : MergerMethod} (ht : t.isMergedUnSafe = false) (ha : Unaborted s t)
      (hq : s.taskQueues.unmerge owner subsumed = some (true, t.taskQueues)) :
      Outcome owner subsumed caller s t method
  | notUnmerged {method : MergerMethod} (hm : method = .unMergeNowIfLastOne ∨ method = .decrementLease) (ht : t.aborted)
      (hq : ∃ queues, s.taskQueues.unmerge owner subsumed = some (false, queues)) :
      Outcome owner subsumed caller s t method
  | leaseZero (hs : s.leaseTermByCaller.find? caller = some 0) (ht : t.aborted) :
      Outcome owner subsumed caller s t .decrementLease
  | mergedForNothing (ht : t.aborted) : Outcome owner subsumed caller s t (.mergeWithLease 0)
  | extendedForNothing (ht : t.aborted) : Outcome owner subsumed caller s t (.extendLeaseTo 0)
  | extendedUnmerged (leaseTerm : Nat) (hs : s.isMergedUnSafe = false) (ht : t.aborted) :
      Outcome owner subsumed caller s t (.extendLeaseTo leaseTerm)

private theorem mem_insert {key value : Nat} {m : OrderedMap Nat} : (key, value) ∈ (m.insert key value).entries := by
  have h : (m.insert key value).find? key = some value := by simp [OrderedMap.find?_insert]
  obtain ⟨⟨k, v⟩, he, hv⟩ := Option.map_eq_some_iff.mp h
  obtain rfl : k = key := by simpa using List.find?_some he
  obtain rfl : v = value := hv
  exact List.mem_of_find?_eq_some he

private theorem isMergedUnSafe_insert {leaseTerm : Nat} (h : leaseTerm ≠ 0)
    (ht : t.leaseTermByCaller = s.leaseTermByCaller.insert caller leaseTerm) : t.isMergedUnSafe := by
  rw [isMergedUnSafe_iff, ht]
  exact ⟨_, mem_insert, h⟩

/-- The merge is given up whatever the leases were, once all are zero. -/
private theorem outcome_of_unMergeNow {leases : OrderedMap Nat}
    (hm : method = .unMergeNowIfLastOne ∨ method = .decrementLease)
    (hz : isAllLeaseTermsZeroUnSafe { s with leaseTermByCaller := leases })
    (h : unMergeNowUnSafe owner subsumed { s with leaseTermByCaller := leases } = some t) :
    Outcome owner subsumed caller s t method := by
  rw [unMergeNowUnSafe, if_pos hz] at h
  obtain ⟨⟨success, queues⟩, hr, h⟩ := Option.bind_eq_some_iff.mp h
  obtain rfl := Option.some.inj h
  cases success with
  | true => exact .unmerged (not_isMergedUnSafe_iff.mpr hz) ⟨rfl, rfl⟩ hr
  | false => exact .notUnmerged hm rfl ⟨queues, hr⟩

private theorem outcome_of_mergeWithLease {leaseTerm : Nat}
    (h : s.mergeWithLease owner subsumed caller leaseTerm = some t) :
    Outcome owner subsumed caller s t (.mergeWithLease leaseTerm) := by
  unfold mergeWithLease at h
  split at h
  next hzero =>
    obtain rfl := Option.some.inj h
    exact hzero ▸ .mergedForNothing rfl
  next hzero =>
    split at h
    · obtain rfl := Option.some.inj h
      exact .kept ⟨⟨rfl, rfl⟩, rfl, rfl⟩
    next hmerged =>
      have hmerged : s.isMergedUnSafe = false := Bool.eq_false_iff.mpr hmerged
      obtain ⟨⟨success, queues⟩, hr, h⟩ := Option.bind_eq_some_iff.mp h
      obtain rfl := Option.some.inj h
      cases success with
      | true => exact .merged leaseTerm hmerged (isMergedUnSafe_insert hzero rfl) ⟨rfl, rfl⟩ hr
      | false => exact .notMerged leaseTerm hmerged rfl ⟨queues, hr⟩

private theorem outcome_of_unMergeNowIfLastOne (h : s.unMergeNowIfLastOne owner subsumed caller = some t) :
    Outcome owner subsumed caller s t .unMergeNowIfLastOne := by
  unfold unMergeNowIfLastOne at h
  dsimp only at h
  split at h
  next hzero =>
    refine outcome_of_unMergeNow (.inl rfl) ?_ h
    rcases Bool.or_eq_true_iff.mp hzero with hempty | hzero
    · simp [isAllLeaseTermsZeroUnSafe, List.isEmpty_iff.mp hempty]
    · exact hzero
  next hzero =>
    obtain rfl := Option.some.inj h
    have hnot := (Bool.or_eq_false_iff.mp (Bool.eq_false_iff.mpr hzero)).2
    have ht : (isMergedUnSafe { s with leaseTermByCaller := s.leaseTermByCaller.erase caller }) = true := by
      simp [isMergedUnSafe, hnot]
    refine .kept ⟨⟨rfl, rfl⟩, rfl, ht.trans ?_⟩
    obtain ⟨item, hitem, hne⟩ := isMergedUnSafe_iff.mp ht
    exact (isMergedUnSafe_iff.mpr ⟨item, List.mem_of_mem_filter hitem, hne⟩).symm

private theorem outcome_of_decrementLease (h : s.decrementLease owner subsumed caller = some t) :
    Outcome owner subsumed caller s t .decrementLease := by
  unfold decrementLease at h
  cases hfind : s.leaseTermByCaller.find? caller with
  | none =>
    simp only [hfind, unMergeIfLeasesZero] at h
    split at h
    next hzero => exact outcome_of_unMergeNow (.inr rfl) hzero h
    next =>
      obtain rfl := Option.some.inj h
      exact .kept ⟨⟨rfl, rfl⟩, rfl, rfl⟩
  | some leaseTerm =>
    simp only [hfind] at h
    split at h
    next hzero =>
      obtain rfl := Option.some.inj h
      exact .leaseZero (hzero ▸ hfind) rfl
    next hne =>
      obtain ⟨item, hitem, hterm⟩ := Option.map_eq_some_iff.mp hfind
      have hs : s.isMergedUnSafe := by
        rw [isMergedUnSafe_iff]
        exact ⟨item, List.mem_of_find?_eq_some hitem, hterm ▸ hne⟩
      unfold unMergeIfLeasesZero at h
      split at h
      next hzero => exact outcome_of_unMergeNow (.inr rfl) hzero h
      next hzero =>
        obtain rfl := Option.some.inj h
        refine .kept ⟨⟨rfl, rfl⟩, rfl, ?_⟩
        rw [hs]
        simp [isMergedUnSafe, hzero]

theorem outcome_of_call (h : s.call owner subsumed caller method = some t) :
    Outcome owner subsumed caller s t method := by
  cases method with
  | mergeWithLease leaseTerm => exact outcome_of_mergeWithLease h
  | unMergeNowIfLastOne => exact outcome_of_unMergeNowIfLastOne h
  | decrementLease => exact outcome_of_decrementLease h
  | extendLeaseTo leaseTerm =>
    obtain rfl := Option.some.inj h
    unfold extendLeaseTo
    split
    next hzero => exact hzero ▸ .extendedForNothing rfl
    next hne =>
      cases hs : s.isMergedUnSafe with
      | true =>
        refine .kept ⟨⟨rfl, rfl⟩, rfl, ?_⟩
        rw [hs]
        exact isMergedUnSafe_insert hne rfl
      | false => exact .extendedUnmerged leaseTerm hs rfl

theorem enter_cases (s : SharedThreadMerger α) (owner subsumed caller : Nat) (method : MergerMethod) :
    s.enter owner subsumed caller method = s ∨
    s.enter owner subsumed caller method = s.abort ∧ (method = .mergeWithLease 0 ∨ method = .extendLeaseTo 0) ∨
    s.enter owner subsumed caller method = s.await caller method ∧ owner ≠ subsumed ∧
      (method = .decrementLease → s.isMergedUnSafe) := by
  cases method with
  | mergeWithLease leaseTerm => simp only [enter]; grind
  | unMergeNowIfLastOne => simp only [enter]; grind
  | extendLeaseTo leaseTerm => simp only [enter]; grind
  | decrementLease =>
    simp only [enter, rasterIsMergedUnSafe]
    grind

theorem step_not_aborted {a : Label α} (h : s.step owner subsumed a = some t) : s.aborted = false := by
  unfold step at h
  split at h
  · cases h
  next ha => exact Bool.eq_false_iff.mpr ha

theorem step_enter (h : s.step owner subsumed (.enter caller method) = some t) :
    caller ∉ s.pending.map (·.1) ∧ t = s.enter owner subsumed caller method := by
  have ha := step_not_aborted h
  rw [step, if_neg (by simp [ha])] at h
  obtain ⟨hc, h⟩ := Option.ite_none_left_eq_some.mp h
  exact ⟨hc, (Option.some.inj h).symm⟩

theorem step_call (h : s.step owner subsumed (.call caller method) = some t) :
    (caller, method) ∈ s.pending ∧
      { s with pending := s.pending.erase (caller, method) }.call owner subsumed caller method = some t := by
  have ha := step_not_aborted h
  rw [step, if_neg (by simp [ha])] at h
  exact Option.ite_none_right_eq_some.mp h

theorem step_setEnabled {enabled : Bool} (h : s.step owner subsumed (.setEnabledUnSafe enabled) = some t) :
    t = { s with enabled } := by
  have ha := step_not_aborted h
  rw [step, if_neg (by simp [ha])] at h
  exact (Option.some.inj h).symm

theorem step_queues {label : MessageLoopTaskQueues.Label α} (h : s.step owner subsumed (.queues label) = some t) :
    ∃ taskQueues, s.taskQueues.step label = some taskQueues ∧ t = { s with taskQueues } := by
  have ha := step_not_aborted h
  rw [step, if_neg (by simp [ha])] at h
  obtain ⟨queues, hq, rfl⟩ := Option.map_eq_some_iff.mp h
  exact ⟨queues, hq, rfl⟩

/-- Nobody else merges the two queues or takes them apart, leases are positive, and a lease is
extended only while the threads are merged. -/
def nobodyElseMerges (owner subsumed : Nat) (s : SharedThreadMerger α) : Label α → Bool
  | .enter _ (.mergeWithLease leaseTerm) | .enter _ (.extendLeaseTo leaseTerm) => decide (0 < leaseTerm)
  | .call _ (.extendLeaseTo _) => s.isMergedUnSafe
  | .queues label => s.taskQueues.leavesPair owner subsumed label
  | _ => true

/-- The leases agree with the merge of the two queues. -/
structure Consistent (owner subsumed : Nat) (s : SharedThreadMerger α) : Prop where
  fresh : s.taskQueues.Fresh
  different : ∀ p ∈ s.pending, owner ≠ subsumed
  linked : s.isMergedUnSafe ↔ subsumed ∈ s.taskQueues.ownerOf owner

theorem mem_ownerOf_merge {u v : MessageLoopTaskQueues α} (hne : owner ≠ subsumed)
    (h : u.merge owner subsumed = some (true, v)) : subsumed ∈ v.ownerOf owner := by
  rcases MessageLoopTaskQueues.merge_result hne h with ⟨-, rfl, hmem⟩ | ⟨hfalse, -⟩ | ⟨-, o, e, ho, _, hs⟩
  · exact hmem
  · cases hfalse
  · rw [hs.links.ownerOf]
    exact (MessageLoopTaskQueues.mem_ownerOf_link ho).mpr (.inl ⟨rfl, rfl⟩)

theorem not_mem_ownerOf_unmerge {u v : MessageLoopTaskQueues α} (h : u.unmerge owner subsumed = some (true, v)) :
    subsumed ∉ v.ownerOf owner := by
  rcases MessageLoopTaskQueues.unmerge_result h with ⟨hfalse, -⟩ | ⟨-, hs⟩
  · cases hfalse
  · rw [hs.links.ownerOf, MessageLoopTaskQueues.mem_ownerOf_unlink]
    exact fun hx => hx.2 ⟨rfl, rfl⟩

private theorem fresh_merge {u v : MessageLoopTaskQueues α} {r : Bool} (hf : u.Fresh)
    (h : u.merge owner subsumed = some (r, v)) : v.Fresh := by
  have hs : u.step (.merge owner subsumed) = some v := by simp [MessageLoopTaskQueues.step, h]
  exact hf.step hs

private theorem fresh_unmerge {u v : MessageLoopTaskQueues α} {r : Bool} (hf : u.Fresh)
    (h : u.unmerge owner subsumed = some (r, v)) : v.Fresh := by
  have hs : u.step (.unmerge owner subsumed) = some v := by simp [MessageLoopTaskQueues.step, h]
  exact hf.step hs

theorem Consistent.call (h : Consistent owner subsumed s) (hne : owner ≠ subsumed)
    (ho : Outcome owner subsumed caller s t method) (ht : t.aborted = false) : Consistent owner subsumed t := by
  cases ho with
  | kept hk =>
    refine ⟨hk.taskQueues ▸ h.fresh, fun _ _ => hne, ?_⟩
    rw [hk.isMergedUnSafe, hk.taskQueues]
    exact h.linked
  | merged leaseTerm _ hm _ hq =>
    exact ⟨fresh_merge h.fresh hq, fun _ _ => hne, iff_of_true hm (mem_ownerOf_merge hne hq)⟩
  | unmerged hm _ hq =>
    exact ⟨fresh_unmerge h.fresh hq, fun _ _ => hne, iff_of_false (by simp [hm]) (not_mem_ownerOf_unmerge hq)⟩
  | notMerged _ _ ha | notUnmerged _ ha | leaseZero _ ha | mergedForNothing ha | extendedForNothing ha
  | extendedUnmerged _ _ ha => simp [ha] at ht

theorem Consistent.step {a : Label α} (h : Consistent owner subsumed s)
    (ha : nobodyElseMerges owner subsumed s a) (hs : s.step owner subsumed a = some t) (ht : t.aborted = false) :
    Consistent owner subsumed t := by
  cases a with
  | enter caller method =>
    obtain ⟨-, rfl⟩ := step_enter hs
    rcases enter_cases s owner subsumed caller method with he | ⟨he, -⟩ | ⟨he, hne, -⟩
    · rw [he]
      exact h
    · rw [he] at ht
      cases ht
    · rw [he]
      exact ⟨h.fresh, fun _ _ => hne, h.linked⟩
  | call caller method =>
    obtain ⟨hmem, hcall⟩ := step_call hs
    have hne := h.different _ hmem
    have h' : Consistent owner subsumed { s with pending := s.pending.erase (caller, method) } :=
      ⟨h.fresh, fun _ _ => hne, h.linked⟩
    exact h'.call hne (outcome_of_call hcall) ht
  | setEnabledUnSafe enabled =>
    obtain rfl := step_setEnabled hs
    exact ⟨h.fresh, h.different, h.linked⟩
  | queues label =>
    obtain ⟨queues, hq, rfl⟩ := step_queues hs
    exact ⟨h.fresh.step hq, h.different, h.linked.trans (MessageLoopTaskQueues.mem_ownerOf_step h.fresh ha hq).symm⟩

theorem init_consistent : Consistent owner subsumed (machine owner subsumed α).init where
  fresh _ _ := rfl
  different := by simp [machine]
  linked := by simp [machine, isMergedUnSafe, isAllLeaseTermsZeroUnSafe, OrderedMap.empty, MessageLoopTaskQueues.ownerOf]

theorem owns_iff {queues : MessageLoopTaskQueues α} :
    owns queues owner subsumed = some true ↔ subsumed ∈ queues.ownerOf owner := by
  cases h : queues.queueEntries owner with
  | none => simp [owns, MessageLoopTaskQueues.ownerOf, h]
  | some e => simp [owns, MessageLoopTaskQueues.ownerOf, h]

/-- However the calls of any number of mergers fall, and whatever else happens to the queues,
the merger says that the threads are merged exactly while the one queue owns the other. -/
theorem isMergedUnSafe_iff_owns (owner subsumed : Nat) (labels : List (Label α)) (s : SharedThreadMerger α)
    (hr : ((machine owner subsumed α).restrict (nobodyElseMerges owner subsumed)).run labels = some s)
    (ha : s.aborted = false) : s.isMergedUnSafe ↔ owns s.taskQueues owner subsumed = some true := by
  have h : s.aborted = false → Consistent owner subsumed s := by
    refine Machine.invariant (I := fun s => s.aborted = false → Consistent owner subsumed s) ?_ (fun _ => init_consistent) hr
    intro s a t h hs ht
    obtain ⟨hallowed, hs⟩ := Machine.restrict_step.mp hs
    exact (h (step_not_aborted hs)).step hallowed hs ht
  rw [owns_iff]
  exact (h ha).linked

/-- Two mergers hold the threads merged, one after the other gives its lease up, and a third
queue is merged into the owner in between. -/
def overlappingLeases : List (Label Nat) :=
  [.queues .createTaskQueue, .queues .createTaskQueue, .queues .createTaskQueue,
    .enter 7 (.mergeWithLease 1), .enter 8 (.mergeWithLease 2), .call 8 (.mergeWithLease 2),
    .call 7 (.mergeWithLease 1), .queues (.merge 0 2), .enter 7 (.extendLeaseTo 1), .call 7 (.extendLeaseTo 1),
    .enter 8 .unMergeNowIfLastOne, .call 8 .unMergeNowIfLastOne]

theorem isMergedUnSafe_overlappingLeases :
    ∃ s, ((machine 0 1 Nat).restrict (nobodyElseMerges 0 1)).run overlappingLeases = some s ∧
      s.isMergedUnSafe ∧ (s.isMergedUnSafe ↔ owns s.taskQueues 0 1 = some true) := by
  have hr : ((machine 0 1 Nat).restrict (nobodyElseMerges 0 1)).run overlappingLeases = some _ := rfl
  exact ⟨_, hr, rfl, isMergedUnSafe_iff_owns 0 1 overlappingLeases _ hr rfl⟩

section Aborts

/-- The two queues are left to the merger, the second one as it is. -/
def leftToMerger (queues : MessageLoopTaskQueues α) (owner subsumed : Nat) (a : MessageLoopTaskQueues.Label α) : Bool :=
  queues.leavesOwner owner a && queues.leavesOwner subsumed a &&
    match a with
    | .merge p _ | .unmerge p _ => decide (p ≠ subsumed)
    | _ => true

/-- The methods are called on the thread that runs the raster tasks, so one at a time, with
positive leases, and `UnMergeNowIfLastOne` only while the threads are merged. -/
def onRasterTaskRunner (owner subsumed : Nat) (s : SharedThreadMerger α) : Label α → Bool
  | .enter _ method => s.pending.isEmpty && match method with
    | .mergeWithLease leaseTerm => decide (0 < leaseTerm)
    | .unMergeNowIfLastOne => s.rasterIsMergedUnSafe owner subsumed
    | .decrementLease => true
    | .extendLeaseTo _ => false
  | .queues label => leftToMerger s.taskQueues owner subsumed label
  | _ => true

/-- What a merger that is past its checks has found. -/
def Due (s : SharedThreadMerger α) : MergerMethod → Prop
  | .mergeWithLease leaseTerm => 0 < leaseTerm
  | .unMergeNowIfLastOne | .decrementLease => s.isMergedUnSafe
  | .extendLeaseTo _ => False

/-- The two queues are as a merge or an unmerge asks for, and at most one merger is in a method. -/
structure Ready (owner subsumed : Nat) (s : SharedThreadMerger α) : Prop extends Consistent owner subsumed s where
  independent : s.taskQueues.subsumedBy owner = none
  leaf : s.taskQueues.ownerOf subsumed = []
  taken : s.taskQueues.subsumedBy subsumed ≠ none ↔ s.isMergedUnSafe
  single : s.pending = [] ∨ ∃ caller method, s.pending = [(caller, method)] ∧ Due s method

/-- The lease of a merger has not run out while the threads are still merged. -/
def LeaseLeft (s : SharedThreadMerger α) (a : Label α) (_ : SharedThreadMerger α) : Prop :=
  match a with
  | .call caller .decrementLease => s.leaseTermByCaller.find? caller ≠ some 0
  | _ => True

/-- Nothing is aborted, and a lease that is decremented gets less. -/
def Passes (s : SharedThreadMerger α) (a : Label α) (t : SharedThreadMerger α) : Prop :=
  t.aborted = false ∧ ∀ caller n m, a = .call caller .decrementLease → s.leaseTermByCaller.find? caller = some n →
    t.leaseTermByCaller.find? caller = some m → m < n

private theorem Ready.await (h : Ready owner subsumed s) (hp : s.pending.isEmpty) (hne : owner ≠ subsumed)
    (hd : Due s method) : Ready owner subsumed (s.await caller method) where
  fresh := h.fresh
  different _ _ := hne
  linked := h.linked
  independent := h.independent
  leaf := h.leaf
  taken := h.taken
  single := by
    refine .inr ⟨caller, method, ?_, ?_⟩
    · simp [SharedThreadMerger.await, List.isEmpty_iff.mp hp]
    · cases method <;> exact hd

private theorem ready_merged (h : Ready owner subsumed s) (hne : owner ≠ subsumed) (hm : s.isMergedUnSafe = false)
    {u : MessageLoopTaskQueues α} (hq : s.taskQueues.merge owner subsumed = some (true, u)) :
    u.subsumedBy owner = none ∧ u.ownerOf subsumed = [] ∧ u.subsumedBy subsumed = some owner := by
  rcases MessageLoopTaskQueues.merge_result hne hq with ⟨-, -, hmem⟩ | ⟨hfalse, -⟩ | ⟨-, o, e, ho, he, hs⟩
  · have hmerged := h.linked.mpr hmem
    simp [hm] at hmerged
  · cases hfalse
  · rw [hs.links.subsumedBy, hs.links.subsumedBy, hs.links.ownerOf]
    refine ⟨?_, ?_, ?_⟩
    · rw [MessageLoopTaskQueues.subsumedBy_link he, if_neg hne]
      exact h.independent
    · apply List.eq_nil_iff_forall_not_mem.mpr
      intro x hx
      rcases (MessageLoopTaskQueues.mem_ownerOf_link ho).mp hx with ⟨hsame, -⟩ | hx
      · exact hne hsame.symm
      · simp [h.leaf] at hx
    · rw [MessageLoopTaskQueues.subsumedBy_link he, if_pos rfl]

private theorem ready_unmerged (h : Ready owner subsumed s) (hne : owner ≠ subsumed)
    {u : MessageLoopTaskQueues α} (hq : s.taskQueues.unmerge owner subsumed = some (true, u)) :
    u.subsumedBy owner = none ∧ u.ownerOf subsumed = [] ∧ u.subsumedBy subsumed = none := by
  rcases MessageLoopTaskQueues.unmerge_result hq with ⟨hfalse, -⟩ | ⟨-, hs⟩
  · cases hfalse
  · rw [hs.links.subsumedBy, hs.links.subsumedBy, hs.links.ownerOf]
    refine ⟨?_, ?_, ?_⟩
    · rw [MessageLoopTaskQueues.subsumedBy_unlink, if_neg hne]
      exact h.independent
    · apply List.eq_nil_iff_forall_not_mem.mpr
      intro x hx
      have hx := (MessageLoopTaskQueues.mem_ownerOf_unlink.mp hx).1
      simp [h.leaf] at hx
    · rw [MessageLoopTaskQueues.subsumedBy_unlink, if_pos rfl]

/-- While the threads are not merged, nothing stands against a merge. -/
private theorem merge_not_refused (h : Ready owner subsumed s) (hne : owner ≠ subsumed)
    (hm : s.isMergedUnSafe = false) (u : MessageLoopTaskQueues α) :
    s.taskQueues.merge owner subsumed ≠ some (false, u) := by
  intro hq
  rcases MessageLoopTaskQueues.merge_result hne hq with ⟨hfalse, -⟩ | ⟨-, hrefused⟩ | ⟨hfalse, -⟩
  · cases hfalse
  · rcases hrefused with howner | hleaf | htaken
    · exact howner h.independent
    · exact hleaf h.leaf
    · have hmerged := h.taken.mp htaken
      simp [hm] at hmerged
  · cases hfalse

/-- While they are merged, nothing stands against an unmerge. -/
private theorem unmerge_not_refused (h : Ready owner subsumed s) (hm : s.isMergedUnSafe)
    (u : MessageLoopTaskQueues α) : s.taskQueues.unmerge owner subsumed ≠ some (false, u) := by
  intro hq
  rcases MessageLoopTaskQueues.unmerge_result hq with ⟨-, hrefused⟩ | ⟨hfalse, -⟩
  · rcases hrefused with howner | hfree | hmem
    · exact howner h.independent
    · exact h.taken.mpr hm hfree
    · exact hmem (h.linked.mp hm)
  · cases hfalse

/-- A method fails only on a lease that has run out. -/
private theorem Ready.call (h : Ready owner subsumed s) (hne : owner ≠ subsumed) (hp : s.pending = [])
    (hd : Due s method) (hs : s.aborted = false)
    (hleft : method = .decrementLease → s.leaseTermByCaller.find? caller ≠ some 0)
    (ho : Outcome owner subsumed caller s t method) : t.aborted = false ∧ Ready owner subsumed t := by
  have hc (ht : t.aborted = false) : Consistent owner subsumed t := h.toConsistent.call hne ho ht
  cases ho with
  | kept hk =>
    have ht := hk.aborted.trans hs
    refine ⟨ht, hc ht, ?_, ?_, ?_, .inl (hk.pending.trans hp)⟩
    · rw [hk.taskQueues]
      exact h.independent
    · rw [hk.taskQueues]
      exact h.leaf
    · rw [hk.taskQueues, hk.isMergedUnSafe]
      exact h.taken
  | merged leaseTerm hm hmerged hk hq =>
    have ht := hk.aborted.trans hs
    obtain ⟨howner, hleaf, htaken⟩ := ready_merged h hne hm hq
    exact ⟨ht, hc ht, howner, hleaf, by simp [htaken, hmerged], .inl (hk.pending.trans hp)⟩
  | unmerged hm hk hq =>
    have ht := hk.aborted.trans hs
    obtain ⟨howner, hleaf, hfree⟩ := ready_unmerged h hne hq
    exact ⟨ht, hc ht, howner, hleaf, by simp [hfree, hm], .inl (hk.pending.trans hp)⟩
  | notMerged leaseTerm hm _ hq =>
    obtain ⟨queues, hq⟩ := hq
    exact absurd hq (merge_not_refused h hne hm queues)
  | notUnmerged hm _ hq =>
    obtain ⟨queues, hq⟩ := hq
    have hmerged : s.isMergedUnSafe := by
      rcases hm with rfl | rfl
      · exact hd
      · exact hd
    exact absurd hq (unmerge_not_refused h hmerged queues)
  | leaseZero hzero _ => exact absurd hzero (hleft rfl)
  | mergedForNothing _ => exact absurd hd (lt_irrefl 0)
  | extendedForNothing _ => exact hd.elim
  | extendedUnmerged _ _ _ => exact hd.elim

private theorem find?_decrementLease {n : Nat} (h : s.decrementLease owner subsumed caller = some t)
    (ht : t.aborted = false) (hf : s.leaseTermByCaller.find? caller = some n) :
    n ≠ 0 ∧ t.leaseTermByCaller.find? caller = some (decremented n) := by
  simp only [decrementLease, hf] at h
  split at h
  · obtain rfl := Option.some.inj h
    cases ht
  next hne =>
    refine ⟨hne, ?_⟩
    unfold unMergeIfLeasesZero at h
    split at h
    next hz =>
      rw [unMergeNowUnSafe, if_pos hz] at h
      obtain ⟨⟨success, queues⟩, -, h⟩ := Option.bind_eq_some_iff.mp h
      obtain rfl := Option.some.inj h
      cases success with
      | true => simp [check, OrderedMap.find?_insert]
      | false => cases ht
    · obtain rfl := Option.some.inj h
      simp [OrderedMap.find?_insert]

private theorem decremented_lt {n : Nat} (h : n ≠ 0) : decremented n < n := by
  unfold decremented
  omega

private theorem leavesPair_of_left {queues : MessageLoopTaskQueues α} {a : MessageLoopTaskQueues.Label α} {x : Nat}
    (ha : leftToMerger queues owner subsumed a) :
    queues.leavesPair owner subsumed a ∧ queues.leavesPair subsumed x a := by
  cases a <;> simp [leftToMerger, MessageLoopTaskQueues.leavesOwner, MessageLoopTaskQueues.leavesPair] at ha ⊢ <;> grind

private theorem Ready.queues (h : Ready owner subsumed s) {a : MessageLoopTaskQueues.Label α}
    (ha : leftToMerger s.taskQueues owner subsumed a) {taskQueues : MessageLoopTaskQueues α}
    (hq : s.taskQueues.step a = some taskQueues) : Ready owner subsumed { s with taskQueues } := by
  obtain ⟨⟨howner, hsubsumed⟩, -⟩ := (Bool.and_eq_true_iff.mp ha).imp_left Bool.and_eq_true_iff.mp
  have hlinked := MessageLoopTaskQueues.mem_ownerOf_step h.fresh (leavesPair_of_left (x := 0) ha).1 hq
  refine ⟨⟨h.fresh.step hq, h.different, h.linked.trans hlinked.symm⟩, ?_, ?_, ?_, ?_⟩
  · exact (MessageLoopTaskQueues.subsumedBy_step h.fresh howner hq).trans h.independent
  · apply List.eq_nil_iff_forall_not_mem.mpr
    intro x hx
    have hx := (MessageLoopTaskQueues.mem_ownerOf_step h.fresh (leavesPair_of_left ha).2 hq).mp hx
    simp [h.leaf] at hx
  · rw [MessageLoopTaskQueues.subsumedBy_step h.fresh hsubsumed hq]
    exact h.taken
  · rcases h.single with hp | ⟨caller, method, hp, hd⟩
    · exact .inl hp
    · refine .inr ⟨caller, method, hp, ?_⟩
      cases method <;> exact hd

private theorem Ready.enter (h : Ready owner subsumed s) (hs : s.aborted = false)
    (ha : onRasterTaskRunner owner subsumed s (.enter caller method)) :
    (s.enter owner subsumed caller method).aborted = false ∧ Ready owner subsumed (s.enter owner subsumed caller method) := by
  obtain ⟨hp, ha⟩ := Bool.and_eq_true_iff.mp ha
  rcases enter_cases s owner subsumed caller method with he | ⟨-, rfl | rfl⟩ | ⟨he, hne, hdec⟩
  · rw [he]
    exact ⟨hs, h⟩
  · exact absurd (of_decide_eq_true ha) (lt_irrefl 0)
  · cases ha
  · rw [he]
    refine ⟨hs, h.await hp hne ?_⟩
    cases method with
    | mergeWithLease leaseTerm =>
      have hpos : 0 < leaseTerm := of_decide_eq_true ha
      exact hpos
    | unMergeNowIfLastOne =>
      rcases Bool.or_eq_true_iff.mp ha with hsame | hm
      · exact absurd (of_decide_eq_true hsame) hne
      · exact hm
    | extendLeaseTo leaseTerm => cases ha
    | decrementLease => exact hdec rfl

/-- A call of a method, past the checks of its merger. -/
private theorem Ready.called (h : Ready owner subsumed s) (hs : s.aborted = false) (hmem : (caller, method) ∈ s.pending)
    (hleft : method = .decrementLease → s.leaseTermByCaller.find? caller ≠ some 0)
    (hcall : { s with pending := s.pending.erase (caller, method) }.call owner subsumed caller method = some t) :
    t.aborted = false ∧ Ready owner subsumed t := by
  have hne := h.different _ hmem
  rcases h.single with hp | ⟨c, m, hp, hd⟩
  · simp [hp] at hmem
  · obtain ⟨rfl, rfl⟩ : caller = c ∧ method = m := by simpa [hp] using hmem
    have h' : Ready owner subsumed { s with pending := s.pending.erase (caller, method) } :=
      ⟨⟨h.fresh, fun _ _ => hne, h.linked⟩, h.independent, h.leaf, h.taken, .inl (by simp [hp])⟩
    refine h'.call hne (by simp [hp]) ?_ hs hleft (outcome_of_call hcall)
    cases method <;> exact hd

private theorem Ready.step {a : Label α} (h : Ready owner subsumed s) (ha : onRasterTaskRunner owner subsumed s a)
    (hleft : LeaseLeft s a t) (hs : s.step owner subsumed a = some t) : t.aborted = false ∧ Ready owner subsumed t := by
  have haborted := step_not_aborted hs
  cases a with
  | enter caller method =>
    obtain ⟨-, rfl⟩ := step_enter hs
    exact h.enter haborted ha
  | call caller method =>
    obtain ⟨hmem, hcall⟩ := step_call hs
    refine h.called haborted hmem ?_ hcall
    rintro rfl
    exact hleft
  | setEnabledUnSafe enabled =>
    obtain rfl := step_setEnabled hs
    refine ⟨haborted, ⟨h.fresh, h.different, h.linked⟩, h.independent, h.leaf, h.taken, ?_⟩
    rcases h.single with hp | ⟨caller, method, hp, hd⟩
    · exact .inl hp
    · refine .inr ⟨caller, method, hp, ?_⟩
      cases method <;> exact hd
  | queues label =>
    obtain ⟨queues, hq, rfl⟩ := step_queues hs
    exact ⟨haborted, h.queues ha hq⟩

private theorem passes_iff {a : Label α} (h : Ready owner subsumed s) (ha : onRasterTaskRunner owner subsumed s a)
    (hs : s.step owner subsumed a = some t) : Passes s a t ↔ LeaseLeft s a t := by
  constructor
  · intro hp
    cases a with
    | call caller method =>
      cases method with
      | decrementLease =>
        intro hzero
        obtain ⟨-, hcall⟩ := step_call hs
        exact (find?_decrementLease hcall hp.1 hzero).1 rfl
      | mergeWithLease _ | unMergeNowIfLastOne | extendLeaseTo _ => trivial
    | enter _ _ | setEnabledUnSafe _ | queues _ => trivial
  · intro hleft
    have ht := (h.step ha hleft hs).1
    refine ⟨ht, ?_⟩
    rintro caller n m rfl hn hm
    obtain ⟨-, hcall⟩ := step_call hs
    obtain ⟨hne, hfind⟩ := find?_decrementLease hcall ht hn
    calc m = decremented n := Option.some.inj (hm.symm.trans hfind)
      _ < n := decremented_lt hne

theorem init_ready : Ready owner subsumed (machine owner subsumed α).init where
  toConsistent := init_consistent
  independent := rfl
  leaf := rfl
  taken := by simp [machine, isMergedUnSafe, isAllLeaseTermsZeroUnSafe, OrderedMap.empty, MessageLoopTaskQueues.subsumedBy]
  single := .inl rfl

/-- In a run nothing aborts and no lease is counted below zero exactly if no merger counts its
lease down once more after it has run out, while others keep the threads merged. -/
theorem unaborted_iff (owner subsumed : Nat) (labels : List (Label α)) :
    ((machine owner subsumed α).restrict (onRasterTaskRunner owner subsumed)).Along Passes
        (machine owner subsumed α).init labels ↔
      ((machine owner subsumed α).restrict (onRasterTaskRunner owner subsumed)).Along LeaseLeft
        (machine owner subsumed α).init labels := by
  refine Machine.along_iff (I := Ready owner subsumed) ?_ ?_ init_ready
  · intro s a t h hs
    obtain ⟨ha, hs⟩ := Machine.restrict_step.mp hs
    exact passes_iff h ha hs
  · intro s a t h hleft hs
    obtain ⟨ha, hs⟩ := Machine.restrict_step.mp hs
    exact (h.step ha hleft hs).2

/-- The first merger's lease runs out and stays in the map. The second merges again, and the
first counts down once more. -/
def leaseRunOut : List (Label Nat) :=
  [.queues .createTaskQueue, .queues .createTaskQueue,
    .enter 7 (.mergeWithLease 1), .call 7 (.mergeWithLease 1), .enter 7 .decrementLease, .call 7 .decrementLease,
    .enter 8 (.mergeWithLease 1), .call 8 (.mergeWithLease 1), .enter 7 .decrementLease, .call 7 .decrementLease]

theorem aborted_leaseRunOut :
    ∃ s, ((machine 0 1 Nat).restrict (onRasterTaskRunner 0 1)).run leaseRunOut = some s ∧ s.aborted = true :=
  ⟨_, rfl, rfl⟩

end Aborts

end SharedThreadMerger
end Ogre.Fml
