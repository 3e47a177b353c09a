import Ogre.Fml.TaskQueues

/-! Which queue owns which: the two ends of every merge agree in all reachable states. -/
namespace Ogre.Fml.MessageLoopTaskQueues
open Ogre.Library
variable {α : Type} {s t : MessageLoopTaskQueues α} {a : Label α} {id q owner subsumed : Nat} {o e : TaskQueueEntry α}

/-- `GetSubsumedTaskQueueId`. A queue that is not there owns none. -/
def ownerOf (s : MessageLoopTaskQueues α) (q : Nat) : List Nat := ((s.queueEntries q).map (·.ownerOf)).getD []

def subsumedBy (s : MessageLoopTaskQueues α) (q : Nat) : Option Nat := (s.queueEntries q).bind (·.subsumedBy)

def Live (s : MessageLoopTaskQueues α) (q : Nat) : Prop := (s.queueEntries q).isSome

/-- Each merge is stored with both of its queues, which are live. A queue is an owner, or
subsumed, or neither, and not its own owner. -/
structure Merged (s : MessageLoopTaskQueues α) : Prop where
  inverse : ∀ owner subsumed, subsumed ∈ s.ownerOf owner ↔ s.subsumedBy subsumed = some owner
  exclusive : ∀ q, s.subsumedBy q ≠ none → s.ownerOf q = []
  irreflexive : ∀ q, s.subsumedBy q ≠ some q
  live : ∀ owner subsumed, s.subsumedBy subsumed = some owner → s.Live owner ∧ s.Live subsumed

/-- With the ids that are not in use yet. -/
structure MergedBelow (s : MessageLoopTaskQueues α) : Prop extends Merged s where
  below : ∀ q, s.Live q → q < s.taskQueueIdCounter

theorem ownerOf_eq (h : s.queueEntries q = some e) : s.ownerOf q = e.ownerOf := by simp [ownerOf, h]

theorem subsumedBy_eq (h : s.queueEntries q = some e) : s.subsumedBy q = e.subsumedBy := by simp [subsumedBy, h]

theorem live_of_entry (h : s.queueEntries q = some e) : s.Live q := by simp [Live, h]

/-- The parts of the queues that merges are made of. -/
structure SameLinks (s t : MessageLoopTaskQueues α) : Prop where
  ownerOf : ∀ q, t.ownerOf q = s.ownerOf q
  subsumedBy : ∀ q, t.subsumedBy q = s.subsumedBy q
  live : ∀ q, t.Live q ↔ s.Live q

theorem SameQueues.links (h : SameQueues s t) : SameLinks s t := by
  constructor <;> intro q
  · rw [MessageLoopTaskQueues.ownerOf, h.queueEntries, MessageLoopTaskQueues.ownerOf]
  · rw [MessageLoopTaskQueues.subsumedBy, h.queueEntries, MessageLoopTaskQueues.subsumedBy]
  · rw [Live, h.queueEntries, Live]

theorem SameLinks.trans {u : MessageLoopTaskQueues α} (h : SameLinks s t) (h' : SameLinks t u) : SameLinks s u where
  ownerOf q := (h'.ownerOf q).trans (h.ownerOf q)
  subsumedBy q := (h'.subsumedBy q).trans (h.subsumedBy q)
  live q := (h'.live q).trans (h.live q)

section Updates
variable {f : TaskQueueEntry α → TaskQueueEntry α}

private theorem ownerOf_updateEntry : (s.updateEntry id f).ownerOf q =
    if q = id then ((s.queueEntries q).map fun e => (f e).ownerOf).getD [] else s.ownerOf q := by
  unfold ownerOf
  rw [queueEntries_updateEntry]
  split <;> simp [Function.comp_def]

private theorem subsumedBy_updateEntry : (s.updateEntry id f).subsumedBy q =
    if q = id then (s.queueEntries q).bind fun e => (f e).subsumedBy else s.subsumedBy q := by
  unfold subsumedBy
  rw [queueEntries_updateEntry]
  split <;> cases s.queueEntries q <;> rfl

private theorem live_updateEntry : (s.updateEntry id f).Live q ↔ s.Live q := by
  unfold Live
  rw [queueEntries_updateEntry]
  split <;> simp

private theorem ownerOf_updateEntry_of_eq (h : ∀ e, (f e).ownerOf = e.ownerOf) :
    (s.updateEntry id f).ownerOf q = s.ownerOf q := by
  rw [ownerOf_updateEntry]
  split
  · simp only [h, ownerOf]
  · rfl

private theorem subsumedBy_updateEntry_of_eq (h : ∀ e, (f e).subsumedBy = e.subsumedBy) :
    (s.updateEntry id f).subsumedBy q = s.subsumedBy q := by
  rw [subsumedBy_updateEntry]
  split
  · simp only [h, subsumedBy]
  · rfl

theorem sameLinks_updateEntry (ho : ∀ e, (f e).ownerOf = e.ownerOf) (hs : ∀ e, (f e).subsumedBy = e.subsumedBy) :
    SameLinks s (s.updateEntry id f) :=
  ⟨fun _ => ownerOf_updateEntry_of_eq ho, fun _ => subsumedBy_updateEntry_of_eq hs, fun _ => live_updateEntry⟩

theorem sameLinks_updateSource {f : TaskSource α → TaskSource α} : SameLinks s (s.updateSource id f) :=
  sameLinks_updateEntry (fun _ => rfl) fun _ => rfl

theorem sameLinks_tasksDisposed (h : SameQueues { s with queueEntries := fun q =>
      if q = id ∨ q ∈ e.ownerOf then (s.queueEntries q).map shutDown else s.queueEntries q } t) : SameLinks s t := by
  constructor <;> intro q
  all_goals
    simp only [MessageLoopTaskQueues.ownerOf, MessageLoopTaskQueues.subsumedBy, Live, h.queueEntries]
    split <;> cases s.queueEntries q <;> simp [shutDown]

end Updates

theorem mem_ownerOf_link (ho : s.queueEntries owner = some o) {x : Nat} :
    x ∈ (s.link owner subsumed).ownerOf q ↔ q = owner ∧ x = subsumed ∨ x ∈ s.ownerOf q := by
  rw [link, ownerOf_updateEntry_of_eq, ownerOf_updateEntry]
  · split
    next hq => simp [hq, ho, ownerOf]
    next hq => simp [hq]
  · intro _
    rfl

theorem subsumedBy_link (he : s.queueEntries subsumed = some e) :
    (s.link owner subsumed).subsumedBy q = if q = subsumed then some owner else s.subsumedBy q := by
  rw [link, subsumedBy_updateEntry]
  split
  next hq =>
    rw [hq, queueEntries_updateEntry, he]
    split <;> rfl
  next =>
    apply subsumedBy_updateEntry_of_eq
    intro _
    rfl

theorem live_link : (s.link owner subsumed).Live q ↔ s.Live q := live_updateEntry.trans live_updateEntry

theorem mem_ownerOf_unlink {x : Nat} :
    x ∈ (s.unlink owner subsumed).ownerOf q ↔ x ∈ s.ownerOf q ∧ ¬ (q = owner ∧ x = subsumed) := by
  have hkept (y) : (s.updateEntry subsumed fun e => { e with subsumedBy := none }).ownerOf y = s.ownerOf y :=
    ownerOf_updateEntry_of_eq fun _ => rfl
  rw [unlink, ownerOf_updateEntry]
  split
  next hq =>
    rw [← hkept, ownerOf, hq]
    cases (s.updateEntry subsumed fun e => { e with subsumedBy := none }).queueEntries owner <;> simp
  next hq => rw [hkept]; simp [hq]

theorem subsumedBy_unlink :
    (s.unlink owner subsumed).subsumedBy q = if q = subsumed then none else s.subsumedBy q := by
  rw [unlink, subsumedBy_updateEntry_of_eq, subsumedBy_updateEntry]
  · split
    · cases s.queueEntries q <;> rfl
    · rfl
  · intro _
    rfl

theorem live_unlink : (s.unlink owner subsumed).Live q ↔ s.Live q := live_updateEntry.trans live_updateEntry

private theorem Merged.congr (h : s.Merged) (hl : SameLinks s t) : t.Merged where
  inverse owner subsumed := by
    rw [hl.ownerOf, hl.subsumedBy]
    exact h.inverse owner subsumed
  exclusive q := by
    rw [hl.ownerOf, hl.subsumedBy]
    exact h.exclusive q
  irreflexive q := by
    rw [hl.subsumedBy]
    exact h.irreflexive q
  live owner subsumed := by
    rw [hl.subsumedBy, hl.live, hl.live]
    exact h.live owner subsumed

private theorem MergedBelow.congr (h : s.MergedBelow) (hl : SameLinks s t)
    (hc : t.taskQueueIdCounter = s.taskQueueIdCounter) : t.MergedBelow where
  toMerged := h.toMerged.congr hl
  below q hq := by
    rw [hc]
    exact h.below q ((hl.live q).mp hq)

private theorem MergedBelow.created (h : s.MergedBelow) : s.createTaskQueue.2.MergedBelow := by
  have hfree : s.queueEntries s.taskQueueIdCounter = none := by
    cases he : s.queueEntries s.taskQueueIdCounter with
    | none => rfl
    | some e => exact absurd (h.below _ (live_of_entry he)) (lt_irrefl _)
  have howner (q) : s.createTaskQueue.2.ownerOf q = s.ownerOf q := by
    by_cases hq : q = s.taskQueueIdCounter <;> simp [ownerOf, createTaskQueue, hq, hfree]
  have hsubsumed (q) : s.createTaskQueue.2.subsumedBy q = s.subsumedBy q := by
    by_cases hq : q = s.taskQueueIdCounter <;> simp [subsumedBy, createTaskQueue, hq, hfree]
  have hlive (q) : s.createTaskQueue.2.Live q ↔ q = s.taskQueueIdCounter ∨ s.Live q := by
    by_cases hq : q = s.taskQueueIdCounter <;> simp [Live, createTaskQueue, hq]
  constructor
  · constructor
    · intro owner subsumed
      rw [howner, hsubsumed]
      exact h.inverse owner subsumed
    · intro q
      rw [howner, hsubsumed]
      exact h.exclusive q
    · intro q
      rw [hsubsumed]
      exact h.irreflexive q
    · intro owner subsumed hx
      rw [hsubsumed] at hx
      rw [hlive, hlive]
      exact (h.live owner subsumed hx).imp .inr .inr
  · intro q hq
    rcases (hlive q).mp hq with rfl | hq
    · exact Nat.lt_succ_self _
    · exact Nat.lt_succ_of_lt (h.below q hq)

private theorem MergedBelow.linked (h : s.MergedBelow) (ho : s.queueEntries owner = some o)
    (he : s.queueEntries subsumed = some e) (hne : owner ≠ subsumed) (howner : o.subsumedBy = none)
    (hempty : e.ownerOf = []) (hsubsumed : e.subsumedBy = none) : (s.link owner subsumed).MergedBelow := by
  have hownerNone : s.subsumedBy owner = none := (subsumedBy_eq ho).trans howner
  have hsubsumedNone : s.subsumedBy subsumed = none := (subsumedBy_eq he).trans hsubsumed
  have hempty : s.ownerOf subsumed = [] := (ownerOf_eq he).trans hempty
  constructor
  · constructor
    · intro p x
      rw [mem_ownerOf_link ho, subsumedBy_link he, h.inverse]
      split
      next hx => simp [hx, hsubsumedNone, eq_comm]
      next hx => simp [hx]
    · intro q hq
      rw [subsumedBy_link he] at hq
      apply List.eq_nil_iff_forall_not_mem.mpr
      intro x hx
      rcases (mem_ownerOf_link ho).mp hx with ⟨rfl, rfl⟩ | hx
      · rw [if_neg hne] at hq
        exact hq hownerNone
      · split at hq
        next hqs => simp [hqs, hempty] at hx
        next => simp [h.exclusive q hq] at hx
    · intro q
      rw [subsumedBy_link he]
      split
      next hq => simpa [hq] using hne
      next => exact h.irreflexive q
    · intro p x hx
      rw [subsumedBy_link he] at hx
      rw [live_link, live_link]
      split at hx
      next hxs =>
        obtain rfl := Option.some.inj hx
        exact ⟨live_of_entry ho, hxs ▸ live_of_entry he⟩
      next => exact h.live p x hx
  · intro q hq
    exact h.below q (live_link.mp hq)

private theorem MergedBelow.unlinked (h : s.MergedBelow) (ho : s.queueEntries owner = some o)
    (hmem : subsumed ∈ o.ownerOf) : (s.unlink owner subsumed).MergedBelow := by
  have hsubsumed : s.subsumedBy subsumed = some owner := by
    rw [← h.inverse, ownerOf_eq ho]
    exact hmem
  constructor
  · constructor
    · intro p x
      rw [mem_ownerOf_unlink, subsumedBy_unlink, h.inverse]
      split
      next hx => simp [hx, hsubsumed, eq_comm]
      next hx => simp [hx]
    · intro q hq
      rw [subsumedBy_unlink] at hq
      apply List.eq_nil_iff_forall_not_mem.mpr
      intro x hx
      have hx := (mem_ownerOf_unlink.mp hx).1
      split at hq
      · exact hq rfl
      · simp [h.exclusive q hq] at hx
    · intro q
      rw [subsumedBy_unlink]
      split
      · simp
      · exact h.irreflexive q
    · intro p x hx
      rw [subsumedBy_unlink] at hx
      rw [live_unlink, live_unlink]
      split at hx
      · cases hx
      · exact h.live p x hx
  · intro q hq
    exact h.below q (live_unlink.mp hq)

/-- An owner is erased with all that it owns, so nothing is left that names one of them. -/
private theorem MergedBelow.disposed (h : s.MergedBelow) (he : s.queueEntries id = some e)
    (hid : s.subsumedBy id = none) (hc : t.taskQueueIdCounter = s.taskQueueIdCounter)
    (ht : ∀ q, t.queueEntries q = if q = id ∨ q ∈ e.ownerOf then none else s.queueEntries q) : t.MergedBelow := by
  have hgone (q) : q ∈ e.ownerOf ↔ s.subsumedBy q = some id := by rw [← h.inverse, ownerOf_eq he]
  have hentries (q) : t.queueEntries q = if q = id ∨ s.subsumedBy q = some id then none else s.queueEntries q := by
    simp only [ht, hgone]
  have howner (q) : t.ownerOf q = if q = id ∨ s.subsumedBy q = some id then [] else s.ownerOf q := by
    rw [ownerOf, hentries]
    split <;> rfl
  have hsubsumed (q) : t.subsumedBy q = if q = id ∨ s.subsumedBy q = some id then none else s.subsumedBy q := by
    rw [subsumedBy, hentries]
    split <;> rfl
  have hlive (q) : t.Live q ↔ ¬ (q = id ∨ s.subsumedBy q = some id) ∧ s.Live q := by
    rw [Live, hentries]
    split <;> simp [Live, *]
  have hempty (q) (hq : s.subsumedBy q = some id) : s.ownerOf q = [] := h.exclusive q (by simp [hq])
  -- a merge between two queues has both of them erased, or neither
  have hboth (p x) (hx : s.subsumedBy x = some p) :
      (x = id ∨ s.subsumedBy x = some id) ↔ (p = id ∨ s.subsumedBy p = some id) := by
    have hmem := (h.inverse p x).mpr hx
    constructor
    · rintro (rfl | hxid)
      · simp [hid] at hx
      · exact .inl (Option.some.inj (hx.symm.trans hxid))
    · rintro (rfl | hp)
      · exact .inr hx
      · simp [hempty p hp] at hmem
  constructor
  · constructor
    · intro p x
      rw [howner, hsubsumed]
      constructor
      · intro hx
        split at hx
        · cases hx
        next hp =>
          have hx := (h.inverse p x).mp hx
          rw [if_neg (mt (hboth p x hx).mp hp)]
          exact hx
      · intro hx
        split at hx
        · cases hx
        next hxgone =>
          rw [if_neg (mt (hboth p x hx).mpr hxgone)]
          exact (h.inverse p x).mpr hx
    · intro q hq
      rw [hsubsumed] at hq
      rw [howner]
      split
      · rfl
      next hkept =>
        rw [if_neg hkept] at hq
        exact h.exclusive q hq
    · intro q
      rw [hsubsumed]
      split
      · simp
      · exact h.irreflexive q
    · intro p x hx
      rw [hsubsumed] at hx
      split at hx
      · cases hx
      next hkept =>
        obtain ⟨hp, hxlive⟩ := h.live p x hx
        exact ⟨(hlive p).mpr ⟨mt (hboth p x hx).mpr hkept, hp⟩, (hlive x).mpr ⟨hkept, hxlive⟩⟩
  · intro q hq
    rw [hc]
    exact h.below q ((hlive q).mp hq).2

/-- Only a queue that is not subsumed is disposed of, as the debug check asks. -/
def DisposesUnsubsumed (s : MessageLoopTaskQueues α) (a : Label α) (_ : MessageLoopTaskQueues α) : Prop :=
  match a with
  | .dispose id => s.subsumedBy id = none
  | _ => True

instance (s : MessageLoopTaskQueues α) (a : Label α) (t : MessageLoopTaskQueues α) :
    Decidable (DisposesUnsubsumed s a t) := by
  unfold DisposesUnsubsumed
  cases a <;> infer_instance

theorem MergedBelow.step (h : s.MergedBelow) (hd : DisposesUnsubsumed s a t) (ht : s.step a = some t) :
    t.MergedBelow := by
  cases effect_of_step ht with
  | created hs => exact h.created.congr hs.links hs.taskQueueIdCounter
  | wakeable id hs =>
    have hl : SameLinks s (s.updateEntry id fun e => { e with wakeable := true }) :=
      sameLinks_updateEntry (fun _ => rfl) fun _ => rfl
    exact h.congr (hl.trans hs.links) hs.taskQueueIdCounter
  | registered id task _ _ hs => exact h.congr (sameLinks_updateSource.trans hs.links) hs.taskQueueIdCounter
  | notReturned id now _ hs => exact h.congr hs.links hs.taskQueueIdCounter
  | returned id now top _ _ _ hs => exact h.congr (sameLinks_updateSource.trans hs.links) hs.taskQueueIdCounter
  | notMerged owner subsumed hs => exact h.congr hs.links hs.taskQueueIdCounter
  | merged owner subsumed o e ho he hne howner hempty hsubsumed hs =>
    exact (h.linked ho he hne howner hempty hsubsumed).congr hs.links hs.taskQueueIdCounter
  | notUnmerged owner subsumed hs => exact h.congr hs.links hs.taskQueueIdCounter
  | unmerged owner subsumed o e ho he howner hmem hs =>
    exact (h.unlinked ho hmem).congr hs.links hs.taskQueueIdCounter
  | paused id hs => exact h.congr (sameLinks_updateSource.trans hs.links) hs.taskQueueIdCounter
  | resumed id hs => exact h.congr (sameLinks_updateSource.trans hs.links) hs.taskQueueIdCounter
  | tasksDisposed id e he hs => exact h.congr (sameLinks_tasksDisposed hs) hs.taskQueueIdCounter
  | disposed id e he hs =>
    exact h.disposed he hd hs.taskQueueIdCounter fun q => congrFun hs.queueEntries q

theorem init_mergedBelow : (machine α).init.MergedBelow :=
  ⟨⟨fun owner subsumed => by simp [machine, ownerOf, subsumedBy], by simp [machine, ownerOf],
    by simp [machine, subsumedBy], by simp [machine, subsumedBy]⟩, by simp [machine, Live]⟩

/-- In every reachable state the owners and the subsumed queues agree, whatever is merged,
refused, unmerged and disposed of, and whatever tasks are registered and run in between. -/
theorem merged_of_run (labels : List (Label α)) (s : MessageLoopTaskQueues α)
    (hr : (machine α).run labels = some s)
    (hd : (machine α).Along DisposesUnsubsumed (machine α).init labels) : s.Merged :=
  (Machine.invariant_along (fun _ _ _ h hd ht => h.step hd ht) init_mergedBelow hd hr).toMerged

/-- Two queues are merged into a third, a merge with a subsumed queue is refused, and the
owner of one that is left goes. -/
def mergeRun : List (Label Nat) :=
  [.createTaskQueue, .createTaskQueue, .createTaskQueue, .createTaskQueue, .merge 0 1, .merge 0 2, .merge 1 3,
    .merge 3 1, .unmerge 0 2, .merge 3 2, .dispose 0]

theorem merged_mergeRun : ∃ s, (machine Nat).run mergeRun = some s ∧ s.Merged ∧ s.ownerOf 3 = [2] := by
  have hr : (machine Nat).run mergeRun = some _ := rfl
  exact ⟨_, hr, merged_of_run mergeRun _ hr (by decide), rfl⟩

end Ogre.Fml.MessageLoopTaskQueues
