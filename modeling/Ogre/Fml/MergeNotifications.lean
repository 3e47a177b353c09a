import Ogre.Fml.ThreadMerging

/-! What the methods of the shared merger return, and the callbacks that the raster thread mergers
invoke on it. -/
namespace Ogre.Fml
open Ogre.Library

namespace SharedThreadMerger
variable {α : Type} (owner subsumed : Nat)

/-- What a method returns, if it does, and leaves behind. -/
abbrev Returned (α : Type) := Option Bool × SharedThreadMerger α

/-- A `CHECK` of what is returned then. -/
def returnChecked (success : Bool) (s t : SharedThreadMerger α) : Returned α :=
  (if success then some success else none, check success s t)

def unMergeNowUnSafeReturned (s : SharedThreadMerger α) : Option (Returned α) :=
  if s.isAllLeaseTermsZeroUnSafe then do
    let (success, queues) ← s.taskQueues.unmerge owner subsumed
    some (returnChecked success s { s with taskQueues := queues })
  else some (none, s.abort)

def mergeWithLeaseReturned (s : SharedThreadMerger α) (caller leaseTerm : Nat) : Option (Returned α) :=
  if leaseTerm = 0 then some (none, s.abort)
  else if s.isMergedUnSafe then some (some true, s)
  else do
    let (success, queues) ← s.taskQueues.merge owner subsumed
    some (returnChecked success s
      { s with taskQueues := queues, leaseTermByCaller := s.leaseTermByCaller.insert caller leaseTerm })

def unMergeNowIfLastOneReturned (s : SharedThreadMerger α) (caller : Nat) : Option (Returned α) :=
  let s := { s with leaseTermByCaller := s.leaseTermByCaller.erase caller }
  if s.leaseTermByCaller.entries.isEmpty || s.isAllLeaseTermsZeroUnSafe then
    s.unMergeNowUnSafeReturned owner subsumed
  else some (some true, s)

/-- What the unmerge returned is not looked at. -/
def unMergeIfLeasesZeroReturned (s : SharedThreadMerger α) : Option (Returned α) :=
  if s.isAllLeaseTermsZeroUnSafe then
    (s.unMergeNowUnSafeReturned owner subsumed).map fun r => (r.1.map fun _ => true, r.2)
  else some (some false, s)

def decrementLeaseReturned (s : SharedThreadMerger α) (caller : Nat) : Option (Returned α) :=
  match s.leaseTermByCaller.find? caller with
  | some leaseTerm =>
    if leaseTerm = 0 then some (none, s.abort)
    else
      let s := { s with leaseTermByCaller := s.leaseTermByCaller.insert caller (decremented leaseTerm) }
      s.unMergeIfLeasesZeroReturned owner subsumed
  | none => s.unMergeIfLeasesZeroReturned owner subsumed

/-- `ExtendLeaseTo` returns nothing that is looked at. -/
def callReturned (s : SharedThreadMerger α) (caller : Nat) : MergerMethod → Option (Returned α)
  | .mergeWithLease leaseTerm => s.mergeWithLeaseReturned owner subsumed caller leaseTerm
  | .unMergeNowIfLastOne => s.unMergeNowIfLastOneReturned owner subsumed caller
  | .extendLeaseTo leaseTerm => some (none, s.extendLeaseTo caller leaseTerm)
  | .decrementLease => s.decrementLeaseReturned owner subsumed caller

variable {owner subsumed} {s t : SharedThreadMerger α} {r : Returned α} {caller : Nat} {method : MergerMethod}

private theorem unMergeNowUnSafeReturned_snd :
    (s.unMergeNowUnSafeReturned owner subsumed).map (·.2) = s.unMergeNowUnSafe owner subsumed := by
  unfold unMergeNowUnSafeReturned unMergeNowUnSafe
  split
  · cases s.taskQueues.unmerge owner subsumed <;> rfl
  · rfl

private theorem unMergeIfLeasesZeroReturned_snd :
    (s.unMergeIfLeasesZeroReturned owner subsumed).map (·.2) = s.unMergeIfLeasesZero owner subsumed := by
  unfold unMergeIfLeasesZeroReturned unMergeIfLeasesZero
  split
  · rw [← unMergeNowUnSafeReturned_snd, Option.map_map]
    rfl
  · rfl

/-- The methods leave behind what they do in the model without what they return. -/
theorem callReturned_snd : (s.callReturned owner subsumed caller method).map (·.2) =
    s.call owner subsumed caller method := by
  cases method with
  | mergeWithLease leaseTerm =>
    unfold callReturned call mergeWithLeaseReturned mergeWithLease
    dsimp only
    split
    · rfl
    split
    · rfl
    · cases s.taskQueues.merge owner subsumed <;> rfl
  | unMergeNowIfLastOne =>
    unfold callReturned call unMergeNowIfLastOneReturned unMergeNowIfLastOne
    dsimp only
    split
    · exact unMergeNowUnSafeReturned_snd
    · rfl
  | extendLeaseTo leaseTerm => rfl
  | decrementLease =>
    unfold callReturned call decrementLeaseReturned decrementLease
    cases s.leaseTermByCaller.find? caller with
    | none => exact unMergeIfLeasesZeroReturned_snd
    | some leaseTerm =>
      dsimp only
      split
      · rfl
      · exact unMergeIfLeasesZeroReturned_snd

/-- Only queues that are merged are unmerged. -/
theorem mem_ownerOf_of_unmerge {u v : MessageLoopTaskQueues α} (h : u.unmerge owner subsumed = some (true, v)) :
    subsumed ∈ u.ownerOf owner := by
  obtain ⟨o, ho, h⟩ := Option.bind_eq_some_iff.mp h
  rw [MessageLoopTaskQueues.ownerOf_eq ho]
  split at h
  · cases (Prod.mk.inj (Option.some.inj h)).1
  split at h
  · cases (Prod.mk.inj (Option.some.inj h)).1
  obtain ⟨e, -, h⟩ := Option.bind_eq_some_iff.mp h
  split at h
  · cases (Prod.mk.inj (Option.some.inj h)).1
  split at h
  · cases (Prod.mk.inj (Option.some.inj h)).1
  next hmem => exact not_not.mp hmem

/-- The queues are the same afterwards, and otherwise are merged, or not merged any more. -/
inductive Change (owner subsumed : Nat) (u v : MessageLoopTaskQueues α) : Bool → Prop
  | same (h : v = u) : Change owner subsumed u v false
  | merged (hu : subsumed ∉ u.ownerOf owner) (hv : subsumed ∈ v.ownerOf owner) : Change owner subsumed u v true
  | unmerged (hu : subsumed ∈ u.ownerOf owner) (hv : subsumed ∉ v.ownerOf owner) : Change owner subsumed u v true

/-- An unmerge returns exactly where it has changed the queues. -/
private theorem change_of_unMergeNow (h : s.unMergeNowUnSafeReturned owner subsumed = some r) :
    Change owner subsumed s.taskQueues r.2.taskQueues (decide (r.1 = some true)) ∧ r.1 ≠ some false := by
  unfold unMergeNowUnSafeReturned at h
  split at h
  · obtain ⟨⟨success, queues⟩, hq, h⟩ := Option.bind_eq_some_iff.mp h
    obtain rfl := Option.some.inj h
    cases success with
    | true => exact ⟨.unmerged (mem_ownerOf_of_unmerge hq) (not_mem_ownerOf_unmerge hq), by simp [returnChecked]⟩
    | false => exact ⟨.same rfl, by simp [returnChecked]⟩
  · obtain rfl := Option.some.inj h
    exact ⟨.same rfl, by simp⟩

/-- A merge that has not been made yet returns exactly where it has changed the queues. -/
private theorem change_of_mergeWithLease {leaseTerm : Nat} (hne : owner ≠ subsumed)
    (hlinked : s.isMergedUnSafe ↔ subsumed ∈ s.taskQueues.ownerOf owner) (hs : s.isMergedUnSafe = false)
    (h : s.mergeWithLeaseReturned owner subsumed caller leaseTerm = some r) :
    Change owner subsumed s.taskQueues r.2.taskQueues (decide (r.1 = some true)) := by
  unfold mergeWithLeaseReturned at h
  rw [if_neg (Bool.eq_false_iff.mp hs)] at h
  split at h
  · obtain rfl := Option.some.inj h
    exact .same rfl
  · obtain ⟨⟨success, queues⟩, hq, h⟩ := Option.bind_eq_some_iff.mp h
    obtain rfl := Option.some.inj h
    cases success with
    | true => exact .merged (mt hlinked.mpr (Bool.eq_false_iff.mp hs)) (mem_ownerOf_merge hne hq)
    | false => exact .same rfl

/-- One that was made before says the same, and changes nothing. -/
private theorem mergeWithLease_madeBefore {leaseTerm : Nat} (hpos : leaseTerm ≠ 0) (hs : s.isMergedUnSafe)
    (h : s.mergeWithLeaseReturned owner subsumed caller leaseTerm = some r) :
    r.1 = some true ∧ r.2.taskQueues = s.taskQueues := by
  rw [mergeWithLeaseReturned, if_neg hpos, if_pos hs] at h
  obtain rfl := Option.some.inj h
  exact ⟨rfl, rfl⟩

private theorem change_of_decrementLease (h : s.decrementLeaseReturned owner subsumed caller = some r) :
    Change owner subsumed s.taskQueues r.2.taskQueues (decide (r.1 = some true)) := by
  have hzero {leases : OrderedMap Nat}
      (h : unMergeIfLeasesZeroReturned owner subsumed { s with leaseTermByCaller := leases } = some r) :
      Change owner subsumed s.taskQueues r.2.taskQueues (decide (r.1 = some true)) := by
    unfold unMergeIfLeasesZeroReturned at h
    split at h
    · obtain ⟨⟨returned, t⟩, hr, rfl⟩ := Option.map_eq_some_iff.mp h
      obtain ⟨hchange, hne⟩ := change_of_unMergeNow hr
      rcases returned with _ | _ | _
      · exact hchange
      · exact absurd rfl hne
      · exact hchange
    · obtain rfl := Option.some.inj h
      exact .same rfl
  unfold decrementLeaseReturned at h
  cases hfind : s.leaseTermByCaller.find? caller with
  | none =>
    rw [hfind] at h
    exact hzero h
  | some leaseTerm =>
    rw [hfind] at h
    dsimp only at h
    split at h
    · obtain rfl := Option.some.inj h
      exact .same rfl
    · exact hzero h

/-- Nobody but the caller has a lease. -/
private theorem leasesZero_erase_iff :
    (isAllLeaseTermsZeroUnSafe { s with leaseTermByCaller := s.leaseTermByCaller.erase caller }) = true ↔
      ∀ item ∈ s.leaseTermByCaller.entries, item.1 ≠ caller → item.2 = 0 := by
  simp only [isAllLeaseTermsZeroUnSafe, OrderedMap.erase, List.all_eq_true, List.mem_filter, decide_eq_true_eq,
    beq_iff_eq, and_imp]

/-- An unmerge that is not put off returns exactly where it has changed the queues. -/
private theorem change_of_unMergeNowIfLastOne
    (hs : ∀ item ∈ s.leaseTermByCaller.entries, item.1 ≠ caller → item.2 = 0)
    (h : s.unMergeNowIfLastOneReturned owner subsumed caller = some r) :
    Change owner subsumed s.taskQueues r.2.taskQueues (decide (r.1 = some true)) := by
  unfold unMergeNowIfLastOneReturned at h
  dsimp only at h
  rw [leasesZero_erase_iff.mpr hs, Bool.or_true, if_pos rfl] at h
  exact (change_of_unMergeNow h).1

/-- One that is put off says the same, and changes nothing. -/
private theorem unMergeNowIfLastOne_putOff (hs : ¬ ∀ item ∈ s.leaseTermByCaller.entries, item.1 ≠ caller → item.2 = 0)
    (h : s.unMergeNowIfLastOneReturned owner subsumed caller = some r) :
    r.1 = some true ∧ r.2.taskQueues = s.taskQueues := by
  have hzero := Bool.eq_false_iff.mpr (mt leasesZero_erase_iff.mp hs)
  unfold unMergeNowIfLastOneReturned at h
  dsimp only at h
  rw [hzero] at h
  split at h
  next hempty =>
    rw [Bool.or_false, List.isEmpty_iff] at hempty
    refine absurd (fun item hitem hne => ?_) hs
    have hmem : item ∈ (s.leaseTermByCaller.erase caller).entries := List.mem_filter.mpr ⟨hitem, decide_eq_true hne⟩
    rw [hempty] at hmem
    cases hmem
  · obtain rfl := Option.some.inj h
    exact ⟨rfl, rfl⟩

end SharedThreadMerger

/-- The mergers with whether each has a callback, and the mergers whose callbacks were invoked. -/
structure NotifyingMergers (α : Type) where
  merger : SharedThreadMerger α := {}
  callbacks : Nat → Bool := fun _ => false
  invoked : List Nat := []

namespace NotifyingMergers
variable {α : Type} (owner subsumed : Nat)

/-- The call into the shared merger with the rest of the method, for a merger that is past its checks. -/
def call (s : NotifyingMergers α) (caller : Nat) (method : MergerMethod) : Option (NotifyingMergers α) := do
  let (returned, merger) ← { s.merger with pending := s.merger.pending.erase (caller, method) }.callReturned
    owner subsumed caller method
  some { s with
    merger
    invoked := if returned = some true ∧ s.callbacks caller then s.invoked ++ [caller] else s.invoked }

inductive Label (α : Type)
  | setMergeUnmergeCallback (caller : Nat) (isSet : Bool)
  | merger (label : SharedThreadMerger.Label α)

/-- All but the calls is as without callbacks. -/
def step (s : NotifyingMergers α) : Label α → Option (NotifyingMergers α)
  | .setMergeUnmergeCallback caller isSet => some { s with callbacks := Function.update s.callbacks caller isSet }
  | .merger (.call caller method) =>
    if s.merger.aborted then none
    else if s.merger.pending.contains (caller, method) then s.call owner subsumed caller method
    else none
  | .merger label => (s.merger.step owner subsumed label).map fun merger => { s with merger }

def machine (α : Type) : Machine (NotifyingMergers α) (Label α) := ⟨{}, step owner subsumed⟩

/-- The queues are as the mergers leave them. -/
def nobodyElseMerges (s : NotifyingMergers α) : Label α → Bool
  | .setMergeUnmergeCallback _ _ => true
  | .merger label => SharedThreadMerger.nobodyElseMerges owner subsumed s.merger label

/-- The one queue owns the other. -/
def merged (s : NotifyingMergers α) : Bool :=
  decide (SharedThreadMerger.owns s.merger.taskQueues owner subsumed = some true)

/-- A merger with a callback invokes it in a call exactly if the call has changed the queues. -/
def Exact (s : NotifyingMergers α) (a : Label α) (t : NotifyingMergers α) : Prop :=
  ∀ caller method, (a = .merger (.enter caller method) ∨ a = .merger (.call caller method)) → s.callbacks caller →
    t.invoked = if s.merged owner subsumed = t.merged owner subsumed then s.invoked else s.invoked ++ [caller]

/-- The threads are not merged yet where they are to be merged, and where they are to be unmerged,
nobody else has a lease. -/
def Changes (s : SharedThreadMerger α) (caller : Nat) : MergerMethod → Prop
  | .mergeWithLease _ => s.isMergedUnSafe = false
  | .unMergeNowIfLastOne => ∀ item ∈ s.leaseTermByCaller.entries, item.1 ≠ caller → item.2 = 0
  | .extendLeaseTo _ | .decrementLease => True

def ChangesAll (s : NotifyingMergers α) (a : Label α) (_ : NotifyingMergers α) : Prop :=
  ∀ caller method, a = .merger (.call caller method) → s.callbacks caller → Changes s.merger caller method

section Runs
variable {owner subsumed : Nat} {s t : NotifyingMergers α} {caller : Nat} {method : MergerMethod} {a : Label α}
open SharedThreadMerger (Change Consistent)

theorem merged_iff : s.merged owner subsumed = true ↔ subsumed ∈ s.merger.taskQueues.ownerOf owner := by
  rw [merged, decide_eq_true_eq, SharedThreadMerger.owns_iff]

theorem merged_change {changed : Bool} (h : Change owner subsumed s.merger.taskQueues t.merger.taskQueues changed) :
    s.merged owner subsumed = t.merged owner subsumed ↔ changed = false := by
  rw [Bool.eq_iff_iff, merged_iff, merged_iff]
  cases h with
  | same h => simp [h]
  | merged hs ht => simp [hs, ht]
  | unmerged hs ht => simp [hs, ht]

theorem step_call (h : s.step owner subsumed (.merger (.call caller method)) = some t) :
    s.merger.aborted = false ∧ (caller, method) ∈ s.merger.pending ∧ ∃ returned,
      { s.merger with pending := s.merger.pending.erase (caller, method) }.callReturned owner subsumed caller method =
        some (returned, t.merger) ∧
      t.invoked = if returned = some true ∧ s.callbacks caller then s.invoked ++ [caller] else s.invoked := by
  obtain ⟨haborted, h⟩ := Option.ite_none_left_eq_some.mp h
  obtain ⟨hpending, h⟩ := Option.ite_none_right_eq_some.mp h
  obtain ⟨⟨returned, merger⟩, hreturned, h⟩ := Option.bind_eq_some_iff.mp h
  obtain rfl := Option.some.inj h
  exact ⟨Bool.eq_false_iff.mpr haborted, List.contains_iff_mem.mp hpending, returned, hreturned, rfl⟩

/-- The merger takes the step that it takes without callbacks. -/
theorem step_merger {label : SharedThreadMerger.Label α} (h : s.step owner subsumed (.merger label) = some t) :
    s.merger.step owner subsumed label = some t.merger := by
  cases label with
  | call caller method =>
    obtain ⟨haborted, hpending, returned, hreturned, -⟩ := step_call h
    rw [SharedThreadMerger.step, if_neg (Bool.eq_false_iff.mp haborted)]
    have hcall := congrArg (Option.map (·.2)) hreturned
    rw [SharedThreadMerger.callReturned_snd] at hcall
    exact (if_pos hpending).trans hcall
  | enter caller method =>
    obtain ⟨merger, hmerger, rfl⟩ := Option.map_eq_some_iff.mp h
    exact hmerger
  | setEnabledUnSafe enabled =>
    obtain ⟨merger, hmerger, rfl⟩ := Option.map_eq_some_iff.mp h
    exact hmerger
  | queues label =>
    obtain ⟨merger, hmerger, rfl⟩ := Option.map_eq_some_iff.mp h
    exact hmerger

/-- What the mergers know about the queues, and what they have checked. -/
structure Settled (owner subsumed : Nat) (s : NotifyingMergers α) : Prop where
  consistent : Consistent owner subsumed s.merger
  positive : ∀ caller, (caller, .mergeWithLease 0) ∉ s.merger.pending

private theorem pending_call {u v : SharedThreadMerger α} (h : u.call owner subsumed caller method = some v)
    (hv : v.aborted = false) : v.pending = u.pending := by
  cases SharedThreadMerger.outcome_of_call h with
  | kept hk => exact hk.pending
  | merged _ _ _ hk _ => exact hk.pending
  | unmerged _ hk _ => exact hk.pending
  | notMerged _ _ ha | notUnmerged _ ha | leaseZero _ ha | mergedForNothing ha | extendedForNothing ha
  | extendedUnmerged _ _ ha => simp [ha] at hv

private theorem Settled.merger {label : SharedThreadMerger.Label α} (h : Settled owner subsumed s)
    (ha : SharedThreadMerger.nobodyElseMerges owner subsumed s.merger label)
    (hs : s.merger.step owner subsumed label = some t.merger) (ht : t.merger.aborted = false) :
    Settled owner subsumed t := by
  refine ⟨h.consistent.step ha hs ht, fun other hmem => h.positive other ?_⟩
  cases label with
  | enter caller method =>
    rw [(SharedThreadMerger.step_enter hs).2] at hmem
    rcases s.merger.enter_cases owner subsumed caller method with he | ⟨he, -⟩ | ⟨he, -⟩
    · rwa [he] at hmem
    · rwa [he] at hmem
    · rw [he] at hmem
      rcases List.mem_cons.mp hmem with heq | hmem
      · obtain ⟨-, rfl⟩ := Prod.mk.inj heq
        simp [SharedThreadMerger.nobodyElseMerges] at ha
      · exact hmem
  | call caller method =>
    rw [pending_call (SharedThreadMerger.step_call hs).2 ht] at hmem
    exact List.mem_of_mem_erase hmem
  | setEnabledUnSafe enabled =>
    rwa [SharedThreadMerger.step_setEnabled hs] at hmem
  | queues label =>
    obtain ⟨queues, -, hqueues⟩ := SharedThreadMerger.step_queues hs
    rwa [hqueues] at hmem

theorem Settled.step (h : s.merger.aborted = false → Settled owner subsumed s)
    (ha : s.nobodyElseMerges owner subsumed a) (hs : s.step owner subsumed a = some t)
    (ht : t.merger.aborted = false) : Settled owner subsumed t := by
  cases a with
  | setMergeUnmergeCallback caller isSet =>
    obtain rfl := Option.some.inj hs
    exact ⟨(h ht).consistent, (h ht).positive⟩
  | merger label =>
    have hmerger := step_merger hs
    exact (h (SharedThreadMerger.step_not_aborted hmerger)).merger ha hmerger ht

/-- Where what a call returns tells of a change, the callback is exact. -/
private theorem exact_of_change {returned : Option Bool}
    (hinvoked : t.invoked = if returned = some true ∧ s.callbacks caller then s.invoked ++ [caller] else s.invoked)
    (h : Change owner subsumed s.merger.taskQueues t.merger.taskQueues (decide (returned = some true))) :
    Exact owner subsumed s (.merger (.call caller method)) t := by
  rintro other m hcalled hset
  obtain rfl : caller = other := by
    rcases hcalled with hcalled | hcalled
    · cases hcalled
    · cases hcalled
      rfl
  rw [hinvoked]
  by_cases hreturned : returned = some true
  · rw [if_pos ⟨hreturned, hset⟩, if_neg]
    rw [merged_change h]
    simp [hreturned]
  · rw [if_neg (fun h => hreturned h.1), if_pos]
    rw [merged_change h]
    simp [hreturned]

/-- Where a call returns without a change, it is not. -/
private theorem not_exact {returned : Option Bool} (hset : s.callbacks caller)
    (hinvoked : t.invoked = if returned = some true ∧ s.callbacks caller then s.invoked ++ [caller] else s.invoked)
    (h : returned = some true ∧ t.merger.taskQueues = s.merger.taskQueues) :
    ¬ Exact owner subsumed s (.merger (.call caller method)) t := by
  intro hexact
  have hsame := hexact caller method (.inr rfl) hset
  rw [hinvoked, if_pos ⟨h.1, hset⟩, if_pos ((merged_change (.same h.2)).mpr rfl)] at hsame
  simp at hsame

/-- What a call returns tells of a change exactly if there was one to be made. -/
private theorem call_returns (h : Settled owner subsumed s) (hpending : (caller, method) ∈ s.merger.pending)
    {returned : Option Bool} (hreturned :
      { s.merger with pending := s.merger.pending.erase (caller, method) }.callReturned owner subsumed caller method =
        some (returned, t.merger)) :
    Changes s.merger caller method ∧
        Change owner subsumed s.merger.taskQueues t.merger.taskQueues (decide (returned = some true)) ∨
      ¬ Changes s.merger caller method ∧ returned = some true ∧ t.merger.taskQueues = s.merger.taskQueues := by
  have hne := h.consistent.different _ hpending
  let u : SharedThreadMerger α := { s.merger with pending := s.merger.pending.erase (caller, method) }
  cases method with
  | mergeWithLease leaseTerm =>
    have hpos : leaseTerm ≠ 0 := by
      rintro rfl
      exact h.positive caller hpending
    cases hs : s.merger.isMergedUnSafe with
    | false =>
      exact .inl ⟨hs, SharedThreadMerger.change_of_mergeWithLease (s := u) hne h.consistent.linked hs hreturned⟩
    | true =>
      exact .inr ⟨by simp [Changes, hs], SharedThreadMerger.mergeWithLease_madeBefore (s := u) hpos hs hreturned⟩
  | unMergeNowIfLastOne =>
    by_cases hs : Changes s.merger caller .unMergeNowIfLastOne
    · exact .inl ⟨hs, SharedThreadMerger.change_of_unMergeNowIfLastOne (s := u) hs hreturned⟩
    · exact .inr ⟨hs, SharedThreadMerger.unMergeNowIfLastOne_putOff (s := u) hs hreturned⟩
  | extendLeaseTo leaseTerm =>
    obtain ⟨rfl, hmerger⟩ := Prod.mk.inj (Option.some.inj hreturned)
    refine .inl ⟨trivial, .same ?_⟩
    rw [← hmerger]
    unfold SharedThreadMerger.extendLeaseTo SharedThreadMerger.check
    split
    · rfl
    · split <;> rfl
  | decrementLease => exact .inl ⟨trivial, SharedThreadMerger.change_of_decrementLease (s := u) hreturned⟩

/-- A call is exact exactly if it changes something, or tells that it does not. -/
private theorem exact_call_iff (h : Settled owner subsumed s)
    (hs : s.step owner subsumed (.merger (.call caller method)) = some t) :
    Exact owner subsumed s (.merger (.call caller method)) t ↔
      ChangesAll s (.merger (.call caller method)) t := by
  obtain ⟨-, hpending, returned, hreturned, hinvoked⟩ := step_call hs
  have hall : ChangesAll s (.merger (.call caller method)) t ↔
      (s.callbacks caller → Changes s.merger caller method) := by
    constructor
    · exact fun hall => hall caller method rfl
    · rintro hchanges _ _ ⟨⟩ hset
      exact hchanges hset
  rw [hall]
  rcases call_returns h hpending hreturned with ⟨hchanges, hchange⟩ | ⟨hchanges, hsame⟩
  · exact iff_of_true (exact_of_change hinvoked hchange) fun _ => hchanges
  · constructor
    · exact fun hexact hset => absurd hexact (not_exact hset hinvoked hsame)
    · rintro hset' other m (⟨⟨⟩⟩ | ⟨⟨⟩⟩) hset
      exact absurd (hset' hset) hchanges

theorem exact_iff (h : s.merger.aborted = false → Settled owner subsumed s)
    (hs : s.step owner subsumed a = some t) : Exact owner subsumed s a t ↔ ChangesAll s a t := by
  cases a with
  | setMergeUnmergeCallback caller isSet =>
    refine iff_of_true ?_ fun _ _ h => by cases h
    rintro _ _ (⟨⟨⟩⟩ | ⟨⟨⟩⟩)
  | merger label =>
    have hmerger := step_merger hs
    cases label with
    | call caller method => exact exact_call_iff (h (SharedThreadMerger.step_not_aborted hmerger)) hs
    | enter caller method =>
      refine iff_of_true ?_ fun _ _ h => by cases h
      obtain ⟨merger, -, rfl⟩ := Option.map_eq_some_iff.mp hs
      have hqueues : merger.taskQueues = s.merger.taskQueues := by
        have hm : merger = s.merger.enter owner subsumed caller method := (SharedThreadMerger.step_enter hmerger).2
        rw [hm]
        rcases s.merger.enter_cases owner subsumed caller method with he | ⟨he, -⟩ | ⟨he, -⟩
        · rw [he]
        · rw [he]
          rfl
        · rw [he]
          rfl
      intro other m _ _
      rw [if_pos ((merged_change (.same hqueues)).mpr rfl)]
    | setEnabledUnSafe enabled =>
      refine iff_of_true ?_ fun _ _ h => by cases h
      rintro _ _ (⟨⟨⟩⟩ | ⟨⟨⟩⟩)
    | queues label =>
      refine iff_of_true ?_ fun _ _ h => by cases h
      rintro _ _ (⟨⟨⟩⟩ | ⟨⟨⟩⟩)

/-- In a run the callbacks are exact exactly if no merge that was made before is asked for, and no
unmerge while others have leases, by a merger with a callback. -/
theorem exact_runs (owner subsumed : Nat) (labels : List (Label α)) :
    ((machine owner subsumed α).restrict (nobodyElseMerges owner subsumed)).Along (Exact owner subsumed)
        (machine owner subsumed α).init labels ↔
      ((machine owner subsumed α).restrict (nobodyElseMerges owner subsumed)).Along ChangesAll
        (machine owner subsumed α).init labels := by
  refine Machine.along_iff (I := fun s => s.merger.aborted = false → Settled owner subsumed s) ?_ ?_ fun _ => ?_
  · intro s a t h hs
    exact exact_iff h (Machine.restrict_step.mp hs).2
  · intro s a t h _ hs ht
    obtain ⟨ha, hs⟩ := Machine.restrict_step.mp hs
    exact Settled.step h ha hs ht
  · exact ⟨SharedThreadMerger.init_consistent, fun _ => List.not_mem_nil⟩

/-- The first merger merges the threads, and the second, which has a callback, gives up a lease that
it does not have. -/
def unmergePutOff : List (Label Nat) :=
  [.setMergeUnmergeCallback 8 true, .merger (.queues .createTaskQueue), .merger (.queues .createTaskQueue),
    .merger (.enter 7 (.mergeWithLease 1)), .merger (.call 7 (.mergeWithLease 1)),
    .merger (.enter 8 .unMergeNowIfLastOne), .merger (.call 8 .unMergeNowIfLastOne)]

/-- Both mergers find the threads unmerged, and the second has a callback. -/
def mergedTwice : List (Label Nat) :=
  [.setMergeUnmergeCallback 8 true, .merger (.queues .createTaskQueue), .merger (.queues .createTaskQueue),
    .merger (.enter 7 (.mergeWithLease 1)), .merger (.enter 8 (.mergeWithLease 1)),
    .merger (.call 7 (.mergeWithLease 1)), .merger (.call 8 (.mergeWithLease 1))]

/-- The callback is invoked and the threads stay merged. -/
theorem exact_fails :
    ¬ ((machine 0 1 Nat).restrict (nobodyElseMerges 0 1)).Along (Exact 0 1) (machine 0 1 Nat).init unmergePutOff ∧
    ¬ ((machine 0 1 Nat).restrict (nobodyElseMerges 0 1)).Along (Exact 0 1) (machine 0 1 Nat).init mergedTwice := by
  have hlast (labels : List (Label Nat)) (method : MergerMethod) {s t : NotifyingMergers Nat}
      (hr : ((machine 0 1 Nat).restrict (nobodyElseMerges 0 1)).run labels = some s)
      (hs : ((machine 0 1 Nat).restrict (nobodyElseMerges 0 1)).step s (.merger (.call 8 method)) = some t)
      (hset : s.callbacks 8)
      (hwrong : t.invoked ≠ if s.merged 0 1 = t.merged 0 1 then s.invoked else s.invoked ++ [8]) :
      ¬ ((machine 0 1 Nat).restrict (nobodyElseMerges 0 1)).Along (Exact 0 1) (machine 0 1 Nat).init
        (labels ++ [.merger (.call 8 method)]) :=
    fun h => hwrong (Machine.Along.after labels h hr hs 8 method (.inr rfl) hset)
  exact ⟨hlast (unmergePutOff.take 6) .unMergeNowIfLastOne rfl rfl rfl (by decide),
    hlast (mergedTwice.take 6) (.mergeWithLease 1) rfl rfl rfl (by decide)⟩

end Runs

end NotifyingMergers
end Ogre.Fml
