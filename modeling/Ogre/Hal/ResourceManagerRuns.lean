import Mathlib.Algebra.Order.Group.Multiset
import Mathlib.Data.Multiset.Range
import Mathlib.Tactic.Abel
import Ogre.Hal.ResourceManager

/-! Where the resources of the handles are in any run of the resource manager, and who has its
mutex. -/
namespace Ogre.Hal.ResourceManager
open Ogre.Library
variable {s t : ResourceManager} {r handle : Nat} {stage : ResetStage} {c : Nat × ResetStage}
  {calls : List (Nat × ResetStage)}

/-- The resources that callers still have. -/
def carried (calls : List (Nat × ResetStage)) : Multiset Nat := ↑((calls.filter fun c => c.2.carries).map (·.1))

/-- The resources that were handed to the manager, or destroyed. -/
def handed (s : ResourceManager) : Multiset Nat :=
  ↑s.reclaimables + ↑s.waiter.collected + ↑(s.destroyed.map (·.resource))

/-- Everywhere a resource can be. -/
def places (s : ResourceManager) : Multiset Nat := ↑(s.handles.map (·.2)) + carried s.calls + s.handed

/-- Some thread has changed what the waiter waits for, and is about to notify it. -/
inductive NotifyComing (s : ResourceManager) : Prop
  | pushed (r : Nat) (h : (r, .pushed) ∈ s.calls)
  | released (r : Nat) (h : (r, .released) ∈ s.calls)
  | flagged (h : s.life = .flagged)
  | unlocked (h : s.life = .unlocked)

theorem carried_cons : carried (c :: calls) = (if c.2.carries then {c.1} else 0) + carried calls := by
  unfold carried
  by_cases h : c.2.carries
  · simp [h]
  · simp [h]

theorem carried_erase (h : c ∈ calls) :
    carried calls = (if c.2.carries then {c.1} else 0) + carried (calls.erase c) := by
  rw [← carried_cons]
  exact Multiset.coe_eq_coe.mpr (((List.perm_cons_erase h).filter _).map _)

theorem mem_carried : r ∈ carried calls ↔ ∃ stage : ResetStage, (r, stage) ∈ calls ∧ stage.carries := by
  simp [carried]

theorem useCount_cons : List.countP (fun c : Nat × ResetStage => c.2.holdsManager) (c :: calls) =
    (if c.2.holdsManager then 1 else 0) + calls.countP fun c => c.2.holdsManager := by
  rw [List.countP_cons, Nat.add_comm]

theorem useCount_erase (h : c ∈ calls) : (calls.countP fun c => c.2.holdsManager) =
    (if c.2.holdsManager then 1 else 0) + (calls.erase c).countP fun c => c.2.holdsManager := by
  rw [← useCount_cons]
  exact (List.perm_cons_erase h).countP_eq _

/-- A call that holds the manager keeps it alive. -/
theorem useCount_pos (h : (r, stage) ∈ s.calls) (hs : stage.holdsManager) : 0 < s.useCount := by
  have hcount := useCount_erase h
  rw [if_pos hs] at hcount
  unfold useCount
  omega

/-- Where every resource is, who has the mutex, and what the calls know. -/
structure Kept (s : ResourceManager) : Prop where
  counted : s.places = Multiset.range s.resources
  passed : ∀ c ∈ s.calls, c.2.carries = false → c.1 ∈ s.handed
  distinct : (s.calls.map (·.1)).Nodup
  dropping : ∀ c ∈ s.calls, c.2 = .dropping → s.life ≠ .alive
  waiterMutex : s.waiter.holdsMutex ↔ s.mutex = some .waiter
  callerMutex : ∀ c ∈ s.calls, (c.2.holdsMutex ↔ s.mutex = some (.caller c.1))
  mutexCaller : ∀ r, s.mutex = some (.caller r) → r ∈ s.calls.map (·.1)
  destructorMutex : s.life.holdsMutex ↔ s.mutex = some .destructor
  blocking : s.waiter = .blocking → s.reclaimables = [] ∧ s.shouldExit = false
  gone : s.life = .gone → s.waiter = .exited ∧ s.reclaimables = []
  outside : ∀ d ∈ s.destroyed, d.mutexHeld = false
  onCaller : ∀ d ∈ s.destroyed, d.onWaiter = false → s.life ≠ .alive

/-- The manager lives as long as it is referred to, and the waiter does not oversleep. -/
structure Inv (s : ResourceManager) : Prop extends Kept s where
  life : s.life = .alive ↔ 0 < s.useCount
  awake : s.waiter = .asleep → s.reclaimables ≠ [] ∨ s.shouldExit → NotifyComing s

theorem Inv.nodup (h : Inv s) : s.places.Nodup := by
  rw [h.counted]
  exact Multiset.nodup_range _

section Stages
variable {a b : ResetStage}

theorem mem_calls_setStage : c ∈ (s.setStage r a b).calls ↔ c = (r, b) ∨ c ∈ s.calls.erase (r, a) :=
  List.mem_cons

theorem carried_setStage (h : (r, a) ∈ s.calls) (hab : a.carries = b.carries) :
    carried (s.setStage r a b).calls = carried s.calls := by
  rw [carried_erase h, setStage, carried_cons, hab]

theorem useCount_setStage (h : (r, a) ∈ s.calls) (hab : a.holdsManager = b.holdsManager) :
    (s.setStage r a b).useCount = s.useCount := by
  rw [useCount, useCount, setStage, useCount_cons, useCount_erase h, hab]

theorem places_setStage (h : (r, a) ∈ s.calls) (hab : a.carries = b.carries) :
    (s.setStage r a b).places = s.places := by
  rw [places, carried_setStage h hab, places]
  rfl

private theorem life_congr (h : s.life = .alive ↔ 0 < s.useCount) (hl : t.life = s.life)
    (hu : t.useCount = s.useCount) : t.life = .alive ↔ 0 < t.useCount := by
  rw [hl, hu]
  exact h

/-- A call that goes on to a stage of its own is known there, and no other call changes. -/
private theorem forall_setStage {P : Nat × ResetStage → Prop} (h : ∀ c ∈ s.calls, P c) (hb : P (r, b)) :
    ∀ c ∈ (s.setStage r a b).calls, P c := by
  intro c hc
  rcases mem_calls_setStage.mp hc with rfl | hc
  · exact hb
  · exact h c (List.mem_of_mem_erase hc)

/-- A call at a stage that is not before a notification leaves the notifications of others. -/
private theorem notifyComing_erase (hn : NotifyComing s) (hp : a ≠ .pushed) (hr : a ≠ .released)
    (hcalls : ∀ c ∈ s.calls.erase (r, a), c ∈ t.calls) (hlife : t.life = s.life) : NotifyComing t := by
  cases hn with
  | pushed x hx =>
    refine .pushed x (hcalls _ ((List.mem_erase_of_ne ?_).mpr hx))
    intro heq
    exact hp (Prod.mk.inj heq).2.symm
  | released x hx =>
    refine .released x (hcalls _ ((List.mem_erase_of_ne ?_).mpr hx))
    intro heq
    exact hr (Prod.mk.inj heq).2.symm
  | flagged hx => exact .flagged (hlife.trans hx)
  | unlocked hx => exact .unlocked (hlife.trans hx)

private theorem perm_setStage (h : (r, a) ∈ s.calls) :
    List.Perm (s.calls.map (·.1)) ((s.setStage r a b).calls.map (·.1)) :=
  (List.perm_cons_erase h).map _

private theorem distinct_setStage (h : Kept s) (hc : (r, a) ∈ s.calls) : ((s.setStage r a b).calls.map (·.1)).Nodup :=
  (perm_setStage hc).nodup_iff.mp h.distinct

/-- The other calls are about other resources. -/
private theorem Kept.ne_of_mem_erase (h : Kept s) (hc : (r, a) ∈ s.calls) (hx : c ∈ s.calls.erase (r, a)) : c.1 ≠ r := by
  have hdistinct := (((List.perm_cons_erase hc).map (·.1)).nodup_iff).mp h.distinct
  rw [List.map_cons, List.nodup_cons] at hdistinct
  intro heq
  apply hdistinct.1
  exact List.mem_map.mpr ⟨c, hx, heq⟩

/-- A call that neither takes nor releases the mutex leaves all as it was about the mutex. -/
private theorem callerMutex_setStage (h : Kept s) (hc : (r, a) ∈ s.calls) (hab : a.holdsMutex = b.holdsMutex) :
    ∀ c ∈ (s.setStage r a b).calls, (c.2.holdsMutex ↔ s.mutex = some (.caller c.1)) := by
  apply forall_setStage h.callerMutex
  have hholds := h.callerMutex (r, a) hc
  rw [hab] at hholds
  exact hholds

private theorem mutexCaller_setStage (h : Kept s) (hc : (r, a) ∈ s.calls) :
    ∀ x, s.mutex = some (.caller x) → x ∈ (s.setStage r a b).calls.map (·.1) :=
  fun x hx => (perm_setStage hc).mem_iff.mp (h.mutexCaller x hx)

private theorem mutexCaller_endCall (h : Kept s) (hc : (r, a) ∈ s.calls) (ha : a.holdsMutex = false) :
    ∀ x, s.mutex = some (.caller x) → x ∈ (s.endCall r a).calls.map (·.1) := by
  intro x hx
  have hmem := ((List.perm_cons_erase hc).map (·.1)).mem_iff.mp (h.mutexCaller x hx)
  rw [List.map_cons, List.mem_cons] at hmem
  rcases hmem with rfl | hmem
  · have hholds := (h.callerMutex (x, a) hc).mpr hx
    rw [ha] at hholds
    cases hholds
  · exact hmem

private theorem Inv.locked (h : Inv s) (hc : (r, .locked) ∈ s.calls) (hfree : s.mutex = none) :
    Inv { s.setStage r .locked .holding with mutex := some (.caller r) } where
  counted := (places_setStage (b := .holding) hc rfl).trans h.counted
  passed := forall_setStage h.passed (fun hcarries => nomatch hcarries)
  distinct := distinct_setStage h.toKept hc
  dropping := forall_setStage h.dropping (fun hx => nomatch hx)
  waiterMutex := h.waiterMutex.trans (by simp [hfree])
  callerMutex := by
    intro c hx
    rcases mem_calls_setStage.mp hx with rfl | hx
    · exact iff_of_true rfl rfl
    · have hholds := h.callerMutex c (List.mem_of_mem_erase hx)
      rw [hfree] at hholds
      refine iff_of_false (fun hh => nomatch hholds.mp hh) fun heq => ?_
      exact h.ne_of_mem_erase hc hx (MutexHolder.caller.inj (Option.some.inj heq)).symm
  mutexCaller := by
    intro x hx
    obtain rfl : r = x := MutexHolder.caller.inj (Option.some.inj hx)
    exact List.mem_map_of_mem (mem_calls_setStage.mpr (.inl rfl))
  destructorMutex := h.destructorMutex.trans (by simp [hfree])
  blocking := h.blocking
  gone := h.gone
  outside := h.outside
  onCaller := h.onCaller
  life := life_congr h.life rfl (useCount_setStage (b := .holding) hc rfl)
  awake hasleep hwork :=
    notifyComing_erase (h.awake hasleep hwork) (by decide) (by decide) (fun c hx => List.mem_cons_of_mem _ hx) rfl

/-- The resource goes over to the reclaimables while the caller has the mutex. -/
private theorem Inv.pushing (h : Inv s) (hc : (r, .holding) ∈ s.calls) :
    Inv { s.setStage r .holding .pushed with reclaimables := s.reclaimables ++ [r] } := by
  have hhanded : handed { s.setStage r .holding .pushed with reclaimables := s.reclaimables ++ [r] } = {r} + s.handed := by
    simp only [handed, setStage, ← Multiset.coe_add, Multiset.coe_singleton]
    abel
  have halive : s.life = .alive := h.life.mpr (useCount_pos hc rfl)
  have hmutex : s.mutex = some (.caller r) := (h.callerMutex _ hc).mp rfl
  refine ⟨⟨?_, ?_, distinct_setStage h.toKept hc, forall_setStage h.dropping (fun hx => nomatch hx), h.waiterMutex,
    callerMutex_setStage h.toKept hc rfl, mutexCaller_setStage h.toKept hc, h.destructorMutex, ?_, ?_, h.outside, h.onCaller⟩,
    life_congr h.life rfl (useCount_setStage (b := .pushed) hc rfl), ?_⟩
  · have hcarried : carried s.calls = {r} + carried (s.calls.erase (r, .holding)) := carried_erase hc
    have hcounted := h.counted
    rw [places, hcarried] at hcounted
    rw [places, hhanded]
    simp only [setStage, carried_cons, ResetStage.carries]
    rw [← hcounted]
    simp
  · apply forall_setStage
    · intro c hmem hcarries
      rw [hhanded]
      exact Multiset.mem_add.mpr (.inr (h.passed c hmem hcarries))
    · intro _
      rw [hhanded]
      simp
  · intro hblocking
    have hholds := h.waiterMutex.mp (by rw [show s.waiter = .blocking from hblocking]; rfl)
    rw [hmutex] at hholds
    cases hholds
  · intro hgone
    rw [show s.life = .gone from hgone] at halive
    cases halive
  · intro _ _
    exact .pushed r (mem_calls_setStage.mpr (.inl rfl))

private theorem Inv.unlocking (h : Inv s) (hc : (r, .pushed) ∈ s.calls) :
    Inv { s.setStage r .pushed .released with mutex := none } := by
  have hmutex : s.mutex = some (.caller r) := (h.callerMutex _ hc).mp rfl
  refine ⟨⟨(places_setStage (b := .released) hc rfl).trans h.counted,
    forall_setStage h.passed (fun _ => h.passed (r, .pushed) hc rfl), distinct_setStage h.toKept hc,
    forall_setStage h.dropping (fun hx => nomatch hx), h.waiterMutex.trans (by simp [hmutex]), ?_, (fun x hx => nomatch hx),
    h.destructorMutex.trans (by simp [hmutex]), h.blocking, h.gone, h.outside, h.onCaller⟩,
    life_congr h.life rfl (useCount_setStage (b := .released) hc rfl), fun _ _ => ?_⟩
  · intro c hx
    rcases mem_calls_setStage.mp hx with rfl | hx
    · exact iff_of_false (fun hh => nomatch hh) (fun heq => nomatch heq)
    · refine iff_of_false (fun hh => ?_) (fun heq => nomatch heq)
      have hcaller := (h.callerMutex c (List.mem_of_mem_erase hx)).mp hh
      rw [hmutex] at hcaller
      exact h.ne_of_mem_erase hc hx (MutexHolder.caller.inj (Option.some.inj hcaller)).symm
  · exact .released r (mem_calls_setStage.mpr (.inl rfl))

/-- What the waiter does about its own stage, the mutex and the resources that it has. -/
private theorem Kept.waits (h : Kept s) (hexited : s.waiter ≠ .exited) {waiter : ResourceWaiter}
    {mutex : Option MutexHolder} {reclaimables : List Nat} {destroyed : List Destruction}
    (hhanded : (↑reclaimables : Multiset Nat) + ↑waiter.collected + ↑(destroyed.map (·.resource)) = s.handed)
    (hmutex : ∀ holder, holder ≠ .waiter → (mutex = some holder ↔ s.mutex = some holder))
    (hwaiter : waiter.holdsMutex ↔ mutex = some .waiter)
    (hblocking : waiter = .blocking → reclaimables = [] ∧ s.shouldExit = false)
    (houtside : ∀ d ∈ destroyed, d.mutexHeld = false)
    (honCaller : ∀ d ∈ destroyed, d.onWaiter = false → d ∈ s.destroyed) :
    Kept { s with waiter := waiter, mutex := mutex, reclaimables := reclaimables, destroyed := destroyed } where
  counted := by
    have hcounted := h.counted
    rw [places, ← hhanded] at hcounted
    exact hcounted
  passed c hc hcarries := by
    have hmem := h.passed c hc hcarries
    rw [← hhanded] at hmem
    exact hmem
  distinct := h.distinct
  dropping := h.dropping
  waiterMutex := hwaiter
  callerMutex c hc := (h.callerMutex c hc).trans (hmutex _ (by simp)).symm
  mutexCaller r hr := h.mutexCaller r ((hmutex _ (by simp)).mp hr)
  destructorMutex := h.destructorMutex.trans (hmutex _ (by simp)).symm
  blocking := hblocking
  gone hgone := absurd (h.gone hgone).1 hexited
  outside := houtside
  onCaller d hd hwaiter := h.onCaller d (honCaller d hd hwaiter) hwaiter

/-- Once it is notified, the waiter is not asleep. -/
private theorem Kept.woken (h : Kept s) (hasleep : s.waiter = .asleep) : Kept { s with waiter := .locking } := by
  refine h.waits (by simp [hasleep]) ?_ (fun _ _ => Iff.rfl) ?_ (by simp) h.outside (fun d hd _ => hd)
  · rw [handed, hasleep]
    rfl
  · refine iff_of_false (by simp [ResourceWaiter.holdsMutex]) fun hmutex => ?_
    have hholds := h.waiterMutex.mpr hmutex
    rw [hasleep] at hholds
    cases hholds

private theorem Kept.notified (h : Kept s) : Kept s.notify ∧ s.notify.waiter ≠ .asleep := by
  unfold notify
  split
  next hasleep => exact ⟨h.woken hasleep, by simp⟩
  next hawake => exact ⟨h, hawake⟩

theorem notify_same : s.notify.life = s.life ∧ s.notify.useCount = s.useCount := by
  unfold notify
  split <;> exact ⟨rfl, rfl⟩

private theorem Inv.notifying (h : Inv s) (hc : (r, .released) ∈ s.calls) :
    Inv (s.setStage r .released .notified).notify := by
  have hkept : Kept (s.setStage r .released .notified) :=
    ⟨(places_setStage (b := .notified) hc rfl).trans h.counted,
      forall_setStage h.passed (fun _ => h.passed (r, .released) hc rfl), distinct_setStage h.toKept hc,
      forall_setStage h.dropping (fun hx => nomatch hx), h.waiterMutex, callerMutex_setStage h.toKept hc rfl,
      mutexCaller_setStage h.toKept hc, h.destructorMutex, h.blocking, h.gone, h.outside, h.onCaller⟩
  obtain ⟨hnotified, hawake⟩ := hkept.notified
  refine ⟨hnotified, ?_, fun hasleep => absurd hasleep hawake⟩
  exact life_congr h.life notify_same.1 (notify_same.2.trans (useCount_setStage (b := .notified) hc rfl))

/-- The manager ends with its last reference. -/
private theorem Kept.dropReference (h : Kept s) (halive : s.life = .alive)
    (hawake : s.waiter = .asleep → s.reclaimables ≠ [] ∨ s.shouldExit → NotifyComing s) : Inv s.dropReference := by
  unfold ResourceManager.dropReference
  split
  next hzero =>
    have hdestructor : s.mutex ≠ some .destructor := by
      intro hmutex
      have hholds := h.destructorMutex.mpr hmutex
      rw [halive] at hholds
      cases hholds
    refine ⟨⟨h.counted, h.passed, h.distinct, by simp, h.waiterMutex, h.callerMutex, h.mutexCaller, ?_, h.blocking, by simp,
      h.outside, by simp⟩, ?_, ?_⟩
    · exact iff_of_false (fun hh => nomatch hh) hdestructor
    · exact iff_of_false (by simp) (Nat.not_lt.mpr hzero.le)
    · intro hasleep hwork
      cases hawake hasleep hwork with
      | pushed x hx => exact .pushed x hx
      | released x hx => exact .released x hx
      | flagged hx => simp [halive] at hx
      | unlocked hx => simp [halive] at hx
  next hpos => exact ⟨h, iff_of_true halive (Nat.pos_of_ne_zero hpos), hawake⟩

private theorem Inv.ending (h : Inv s) (hc : (r, .notified) ∈ s.calls) : Inv (s.endCall r .notified).dropReference := by
  have hcarried : carried s.calls = carried (s.calls.erase (r, .notified)) :=
    (carried_erase hc).trans (zero_add _)
  have hkept : Kept (s.endCall r .notified) := by
    refine ⟨?_, fun c hx => h.passed c (List.mem_of_mem_erase hx), h.distinct.sublist (List.erase_sublist.map _),
      fun c hx => h.dropping c (List.mem_of_mem_erase hx), h.waiterMutex,
      fun c hx => h.callerMutex c (List.mem_of_mem_erase hx), mutexCaller_endCall h.toKept hc rfl, h.destructorMutex,
      h.blocking, h.gone, h.outside, h.onCaller⟩
    have hcounted := h.counted
    rw [places, hcarried] at hcounted
    exact hcounted
  refine hkept.dropReference (h.life.mpr (useCount_pos hc rfl)) fun hasleep hwork => ?_
  exact notifyComing_erase (h.awake hasleep hwork) (by decide) (by decide) (fun c hx => hx) rfl

private theorem Inv.dropped (h : Inv s) (hc : (r, .dropping) ∈ s.calls) :
    Inv ((s.endCall r .dropping).destroy r false (.caller r)) := by
  have hhanded : handed ((s.endCall r .dropping).destroy r false (.caller r)) = {r} + s.handed := by
    simp only [handed, endCall, destroy, List.map_append, ← Multiset.coe_add]
    simp only [List.map_cons, List.map_nil, Multiset.coe_singleton]
    abel
  have hcarried : carried s.calls = {r} + carried (s.calls.erase (r, .dropping)) := carried_erase hc
  have huse : (s.endCall r .dropping).useCount = s.useCount := by
    rw [useCount, useCount, useCount_erase hc]
    simp [endCall, ResetStage.holdsManager]
  refine ⟨⟨?_, ?_, h.distinct.sublist (List.erase_sublist.map _), fun c hx => h.dropping c (List.mem_of_mem_erase hx),
    h.waiterMutex, fun c hx => h.callerMutex c (List.mem_of_mem_erase hx), mutexCaller_endCall h.toKept hc rfl,
    h.destructorMutex, h.blocking, h.gone, ?_, ?_⟩, life_congr h.life rfl huse, fun hasleep hwork => ?_⟩
  · have hcounted := h.counted
    rw [places, hcarried] at hcounted
    rw [places, hhanded]
    simp only [endCall, destroy]
    rw [← hcounted]
    abel
  · intro c hx hcarries
    rw [hhanded]
    exact Multiset.mem_add.mpr (.inr (h.passed c (List.mem_of_mem_erase hx) hcarries))
  · intro d hd
    rcases List.mem_append.mp hd with hd | hd
    · exact h.outside d hd
    · rw [List.mem_singleton.mp hd]
      apply decide_eq_false
      intro hmutex
      cases (h.callerMutex _ hc).mpr hmutex
  · intro d hd hwaiter
    rcases List.mem_append.mp hd with hd | hd
    · exact h.onCaller d hd hwaiter
    · exact h.dropping _ hc rfl
  · exact notifyComing_erase (h.awake hasleep hwork) (by decide) (by decide) (fun c hx => hx) rfl

private theorem Inv.proceed (h : Inv s) (hc : (r, a) ∈ s.calls) (hs : s.proceed r a = some t) : Inv t := by
  cases a with
  | locked =>
    obtain ⟨hfree, hs⟩ := Option.ite_none_right_eq_some.mp hs
    obtain rfl := Option.some.inj hs
    exact h.locked hc hfree
  | holding =>
    obtain rfl := Option.some.inj hs
    exact h.pushing hc
  | pushed =>
    obtain rfl := Option.some.inj hs
    exact h.unlocking hc
  | released =>
    obtain rfl := Option.some.inj hs
    exact h.notifying hc
  | notified =>
    obtain rfl := Option.some.inj hs
    exact h.ending hc
  | dropping =>
    obtain rfl := Option.some.inj hs
    exact h.dropped hc

end Stages

/-- A notification that is under way stays so while no call and not the destructor goes on. -/
private theorem NotifyComing.same (h : NotifyComing s) (hcalls : ∀ c ∈ s.calls, c ∈ t.calls) (hlife : t.life = s.life) :
    NotifyComing t := by
  cases h with
  | pushed r hr => exact .pushed r (hcalls _ hr)
  | released r hr => exact .released r (hcalls _ hr)
  | flagged hx => exact .flagged (hlife.trans hx)
  | unlocked hx => exact .unlocked (hlife.trans hx)

private theorem Inv.populate (h : Inv s) (handle : Nat) : Inv (s.populate handle) := by
  refine ⟨⟨?_, h.passed, h.distinct, h.dropping, h.waiterMutex, h.callerMutex, h.mutexCaller, h.destructorMutex,
    h.blocking, h.gone, h.outside, h.onCaller⟩, h.life, fun hasleep hwork => (h.awake hasleep hwork).same (fun c hc => hc) rfl⟩
  have hplaces : (s.populate handle).places = {s.resources} + s.places := by
    rw [places, places, ResourceManager.populate, List.map_cons, ← Multiset.cons_coe, ← Multiset.singleton_add]
    simp only [handed, add_assoc]
  rw [hplaces, h.counted, ResourceManager.populate, Multiset.singleton_add, Multiset.range_succ]

/-- The resource of a handle is with no call. -/
private theorem Inv.not_mem_calls {p : Nat × Nat} (h : Inv s) (hp : p ∈ s.handles) : p.2 ∉ s.calls.map (·.1) := by
  intro hmem
  obtain ⟨c, hc, heq⟩ := List.mem_map.mp hmem
  have hnodup := h.nodup
  rw [places, add_assoc, Multiset.nodup_add] at hnodup
  refine Multiset.disjoint_left.mp hnodup.2.2 (List.mem_map_of_mem hp) ?_
  rw [← heq]
  cases hcarries : c.2.carries with
  | true => exact Multiset.mem_add.mpr (.inl (mem_carried.mpr ⟨c.2, hc, hcarries⟩))
  | false => exact Multiset.mem_add.mpr (.inr (h.passed c hc hcarries))

/-- Without a manager the caller keeps the resource, and otherwise the manager lives on with the call. -/
private theorem Inv.reset (h : Inv s) (handle : Nat) : Inv (s.reset handle) := by
  unfold ResourceManager.reset
  split
  · exact h
  next p hp =>
    have hmem : p ∈ s.handles := List.mem_of_find?_eq_some hp
    have hhandles : (↑(s.handles.map (·.2)) : Multiset Nat) = {p.2} + ↑((s.handles.erase p).map (·.2)) := by
      rw [Multiset.singleton_add, Multiset.cons_coe, ← List.map_cons]
      exact Multiset.coe_eq_coe.mpr ((List.perm_cons_erase hmem).map _)
    obtain ⟨stage, hstage⟩ : ∃ stage, stage = if s.useCount = 0 then ResetStage.dropping else .locked := ⟨_, rfl⟩
    have hcarries : stage.carries := by
      rw [hstage]
      split <;> rfl
    rw [← hstage]
    have hnew : p.2 ∉ s.calls.map (·.1) := h.not_mem_calls hmem
    refine ⟨⟨?_, ?_, List.nodup_cons.mpr ⟨hnew, h.distinct⟩, ?_, h.waiterMutex, ?_,
      fun x hx => List.mem_cons_of_mem _ (h.mutexCaller x hx), h.destructorMutex, h.blocking, h.gone, h.outside, h.onCaller⟩,
      ?_, ?_⟩
    · have hcounted := h.counted
      rw [places, hhandles] at hcounted
      rw [places, carried_cons, if_pos hcarries, ← hcounted]
      simp only [handed]
      abel
    · intro c hc hnot
      rcases List.mem_cons.mp hc with rfl | hc
      · rw [hcarries] at hnot
        cases hnot
      · exact h.passed c hc hnot
    · intro c hc hdropping
      rcases List.mem_cons.mp hc with rfl | hc
      · intro halive
        have hpos : 0 < s.useCount := h.life.mp halive
        rw [if_neg hpos.ne'] at hstage
        rw [hstage] at hdropping
        cases hdropping
      · exact h.dropping c hc hdropping
    · intro c hc
      rcases List.mem_cons.mp hc with rfl | hc
      · refine iff_of_false ?_ fun hmutex => hnew (h.mutexCaller _ hmutex)
        rw [hstage]
        split <;> exact Bool.false_ne_true
      · exact h.callerMutex c hc
    · by_cases hzero : s.useCount = 0
      · rw [if_pos hzero] at hstage
        refine h.life.trans ?_
        rw [useCount, useCount, useCount_cons, hstage]
        simp [ResetStage.holdsManager]
      · refine iff_of_true (h.life.mpr (Nat.pos_of_ne_zero hzero)) ?_
        rw [if_neg hzero] at hstage
        rw [useCount, useCount_cons, hstage]
        simp only [ResetStage.holdsManager, if_true]
        omega
    · intro hasleep hwork
      exact (h.awake hasleep hwork).same (fun c hc => List.mem_cons_of_mem _ hc) rfl

/-- A strong reference can only be copied from another, so there was one. -/
private theorem Inv.retain (h : Inv s) (hpos : s.useCount ≠ 0) : Inv { s with owners := s.owners + 1 } := by
  refine ⟨⟨h.counted, h.passed, h.distinct, h.dropping, h.waiterMutex, h.callerMutex, h.mutexCaller, h.destructorMutex,
    h.blocking, h.gone, h.outside, h.onCaller⟩, iff_of_true (h.life.mpr (Nat.pos_of_ne_zero hpos)) ?_,
    fun hasleep hwork => (h.awake hasleep hwork).same (fun c hc => hc) rfl⟩
  simp only [useCount]
  omega

private theorem Inv.release (h : Inv s) (howners : s.owners ≠ 0) :
    Inv { s with owners := s.owners - 1 }.dropReference := by
  refine Kept.dropReference ⟨h.counted, h.passed, h.distinct, h.dropping, h.waiterMutex, h.callerMutex, h.mutexCaller,
    h.destructorMutex, h.blocking, h.gone, h.outside, h.onCaller⟩ (h.life.mpr ?_)
    fun hasleep hwork => (h.awake hasleep hwork).same (fun c hc => hc) rfl
  unfold useCount
  omega

section Waiter

/-- A waiter that is not about to sleep only has to keep the rest. -/
private theorem Inv.waits (h : Inv s) (hkept : Kept t) (hcalls : t.calls = s.calls) (howners : t.owners = s.owners)
    (hlife : t.life = s.life) (hasleep : t.waiter = .asleep → t.reclaimables = [] ∧ t.shouldExit = false) : Inv t := by
  refine ⟨hkept, ?_, fun ht hwork => ?_⟩
  · rw [useCount, hcalls, howners, hlife]
    exact h.life
  · obtain ⟨hempty, hrunning⟩ := hasleep ht
    rw [hempty, hrunning] at hwork
    simp at hwork

variable {resources : List Nat} {shouldExit : Bool}

private theorem Inv.locking (h : Inv s) (hw : s.waiter = .locking) (hfree : s.mutex = none) :
    Inv { s with mutex := some .waiter, waiter := .checking } := by
  refine h.waits (h.toKept.waits (by simp [hw]) ?_ ?_ (iff_of_true rfl rfl) (by simp) h.outside fun d hd _ => hd)
    rfl rfl rfl (by simp)
  · rw [handed, hw]
    rfl
  · intro holder hholder
    rw [hfree]
    exact iff_of_false (fun heq => hholder (Option.some.inj heq).symm) (fun heq => nomatch heq)

/-- The predicate of the wait is evaluated with the mutex. -/
private theorem Inv.checking (h : Inv s) (hw : s.waiter = .checking) :
    Inv { s with waiter := if s.reclaimables = [] ∧ s.shouldExit = false then .blocking else .swapping } := by
  have hmutex : s.mutex = some .waiter := h.waiterMutex.mp (by rw [hw]; rfl)
  by_cases hidle : s.reclaimables = [] ∧ s.shouldExit = false
  · rw [if_pos hidle]
    refine h.waits (h.toKept.waits (by simp [hw]) ?_ (fun _ _ => Iff.rfl) (iff_of_true rfl hmutex) (fun _ => hidle) h.outside
      fun d hd _ => hd) rfl rfl rfl (by simp)
    rw [handed, hw]
    rfl
  · rw [if_neg hidle]
    refine h.waits (h.toKept.waits (by simp [hw]) ?_ (fun _ _ => Iff.rfl) (iff_of_true rfl hmutex) (by simp) h.outside
      fun d hd _ => hd) rfl rfl rfl (by simp)
    rw [handed, hw]
    rfl

/-- While the waiter has the mutex, what it has seen stays true until it sleeps. -/
private theorem Inv.blocks (h : Inv s) (hw : s.waiter = .blocking) : Inv { s with mutex := none, waiter := .asleep } := by
  have hmutex : s.mutex = some .waiter := h.waiterMutex.mp (by rw [hw]; rfl)
  refine h.waits (h.toKept.waits (by simp [hw]) ?_ ?_ (by simp [ResourceWaiter.holdsMutex]) (by simp) h.outside
    fun d hd _ => hd) rfl rfl rfl fun _ => h.blocking hw
  · rw [handed, hw]
    rfl
  · intro holder hholder
    rw [hmutex]
    exact iff_of_false (fun heq => nomatch heq) (fun heq => hholder (Option.some.inj heq).symm)

private theorem Inv.swapping (h : Inv s) (hw : s.waiter = .swapping) :
    Inv { s with reclaimables := [], waiter := .reading s.reclaimables } := by
  have hmutex : s.mutex = some .waiter := h.waiterMutex.mp (by rw [hw]; rfl)
  refine h.waits (h.toKept.waits (by simp [hw]) ?_ (fun _ _ => Iff.rfl) (iff_of_true rfl hmutex) (by simp) h.outside
    fun d hd _ => hd) rfl rfl rfl (by simp)
  rw [handed, hw]
  simp [ResourceWaiter.collected]

private theorem Inv.reading (h : Inv s) (hw : s.waiter = .reading resources) :
    Inv { s with waiter := .unlocking resources s.shouldExit } := by
  have hmutex : s.mutex = some .waiter := h.waiterMutex.mp (by rw [hw]; rfl)
  refine h.waits (h.toKept.waits (by simp [hw]) ?_ (fun _ _ => Iff.rfl) (iff_of_true rfl hmutex) (by simp) h.outside
    fun d hd _ => hd) rfl rfl rfl (by simp)
  rw [handed, hw]
  rfl

private theorem Inv.unlocks (h : Inv s) (hw : s.waiter = .unlocking resources shouldExit) :
    Inv { s with mutex := none, waiter := .clearing resources shouldExit } := by
  have hmutex : s.mutex = some .waiter := h.waiterMutex.mp (by rw [hw]; rfl)
  refine h.waits (h.toKept.waits (by simp [hw]) ?_ ?_ (by simp [ResourceWaiter.holdsMutex]) (by simp) h.outside
    fun d hd _ => hd) rfl rfl rfl (by simp)
  · rw [handed, hw]
    rfl
  · intro holder hholder
    rw [hmutex]
    exact iff_of_false (fun heq => nomatch heq) (fun heq => hholder (Option.some.inj heq).symm)

/-- The collected resources are destroyed one by one, after the waiter has released the mutex. -/
private theorem Inv.clearing (h : Inv s) (hw : s.waiter = .clearing (r :: resources) shouldExit) :
    Inv { s.destroy r true .waiter with waiter := .clearing resources shouldExit } := by
  have hmutex : s.mutex ≠ some .waiter := by
    intro hmutex
    have hholds := h.waiterMutex.mpr hmutex
    rw [hw] at hholds
    cases hholds
  refine h.waits (h.toKept.waits (by simp [hw]) ?_ (fun _ _ => Iff.rfl) ?_ (by simp) ?_ ?_) rfl rfl rfl (by simp)
  · rw [handed, hw]
    simp only [destroy, ResourceWaiter.collected, List.map_append, ← Multiset.coe_add, List.map_cons, List.map_nil,
      ← Multiset.cons_coe, ← Multiset.singleton_add]
    abel
  · exact iff_of_false (fun hh => nomatch hh) hmutex
  · intro d hd
    rcases List.mem_append.mp hd with hd | hd
    · exact h.outside d hd
    · rw [List.mem_singleton.mp hd]
      exact decide_eq_false hmutex
  · intro d hd hwaiter
    rcases List.mem_append.mp hd with hd | hd
    · exact hd
    · rw [List.mem_singleton.mp hd] at hwaiter
      cases hwaiter

private theorem Inv.cleared (h : Inv s) (hw : s.waiter = .clearing [] shouldExit) :
    Inv { s with waiter := if shouldExit then .exited else .locking } := by
  have hmutex : s.mutex ≠ some .waiter := by
    intro hmutex
    have hholds := h.waiterMutex.mpr hmutex
    rw [hw] at hholds
    cases hholds
  have hnext : ∀ waiter, waiter = .exited ∨ waiter = .locking → Inv { s with waiter := waiter } := by
    intro waiter hwaiter
    refine h.waits (h.toKept.waits (by simp [hw]) ?_ (fun _ _ => Iff.rfl) ?_ ?_ h.outside fun d hd _ => hd) rfl rfl rfl ?_
    · rw [handed, hw]
      rcases hwaiter with rfl | rfl <;> rfl
    · refine iff_of_false ?_ hmutex
      rcases hwaiter with rfl | rfl <;> exact fun hh => nomatch hh
    · rcases hwaiter with rfl | rfl <;> exact fun heq => nomatch heq
    · rcases hwaiter with rfl | rfl <;> exact fun heq => nomatch heq
  cases shouldExit with
  | true => exact hnext .exited (.inl rfl)
  | false => exact hnext .locking (.inr rfl)

private theorem Inv.runWaiter (h : Inv s) (hs : s.runWaiter = some t) : Inv t := by
  unfold ResourceManager.runWaiter at hs
  split at hs
  next hw =>
    obtain ⟨hfree, hs⟩ := Option.ite_none_right_eq_some.mp hs
    obtain rfl := Option.some.inj hs
    exact h.locking hw hfree
  next hw =>
    obtain rfl := Option.some.inj hs
    exact h.checking hw
  next hw =>
    obtain rfl := Option.some.inj hs
    exact h.blocks hw
  next => cases hs
  next hw =>
    obtain rfl := Option.some.inj hs
    exact h.swapping hw
  next hw =>
    obtain rfl := Option.some.inj hs
    exact h.reading hw
  next hw =>
    obtain rfl := Option.some.inj hs
    exact h.unlocks hw
  next hw =>
    obtain rfl := Option.some.inj hs
    exact h.clearing hw
  next hw =>
    obtain rfl := Option.some.inj hs
    exact h.cleared hw
  next => cases hs

end Waiter

section Destructor
variable {life : ManagerLife} {mutex : Option MutexHolder}

/-- What the destructor does about its own stage and the mutex before it joins the waiter. -/
private theorem Kept.destructs (h : Kept s) (hdead : life ≠ .alive) (hgone : life ≠ .gone)
    (hmutex : ∀ holder, holder ≠ .destructor → (mutex = some holder ↔ s.mutex = some holder))
    (hlife : life.holdsMutex ↔ mutex = some .destructor) : Kept { s with mutex := mutex, life := life } where
  counted := h.counted
  passed := h.passed
  distinct := h.distinct
  dropping _ _ _ := hdead
  waiterMutex := h.waiterMutex.trans (hmutex _ (by simp)).symm
  callerMutex c hc := (h.callerMutex c hc).trans (hmutex _ (by simp)).symm
  mutexCaller r hr := h.mutexCaller r ((hmutex _ (by simp)).mp hr)
  destructorMutex := hlife
  blocking := h.blocking
  gone heq := absurd heq hgone
  outside := h.outside
  onCaller _ _ _ := hdead

private theorem life_dead (h : s.life = .alive ↔ 0 < s.useCount) (hs : s.life ≠ .alive) (ht : t.life ≠ .alive)
    (hu : t.useCount = s.useCount) : t.life = .alive ↔ 0 < t.useCount := by
  rw [hu]
  exact iff_of_false ht (mt h.mpr hs)

private theorem Inv.terminating (h : Inv s) (hl : s.life = .terminating) (hfree : s.mutex = none) :
    Inv { s with mutex := some .destructor, life := .holding } := by
  refine ⟨h.toKept.destructs (by simp) (by simp) ?_ (iff_of_true rfl rfl), life_dead h.life (by simp [hl]) (by simp) rfl, ?_⟩
  · intro holder hholder
    rw [hfree]
    exact iff_of_false (fun heq => hholder (Option.some.inj heq).symm) (fun heq => nomatch heq)
  · intro hasleep hwork
    cases h.awake hasleep hwork with
    | pushed x hx => exact .pushed x hx
    | released x hx => exact .released x hx
    | flagged hx => simp [hl] at hx
    | unlocked hx => simp [hl] at hx

/-- The exit flag is raised with the mutex, so not between the waiter's check and its sleep. -/
private theorem Inv.holding (h : Inv s) (hl : s.life = .holding) : Inv { s with shouldExit := true, life := .flagged } := by
  have hmutex : s.mutex = some .destructor := h.destructorMutex.mp (by rw [hl]; rfl)
  have hkept : Kept { s with life := .flagged } :=
    h.toKept.destructs (by simp) (by simp) (fun _ _ => Iff.rfl) (iff_of_true rfl hmutex)
  refine ⟨⟨hkept.counted, hkept.passed, hkept.distinct, hkept.dropping, hkept.waiterMutex, hkept.callerMutex,
    hkept.mutexCaller, hkept.destructorMutex, ?_, hkept.gone, hkept.outside, hkept.onCaller⟩,
    life_dead h.life (by simp [hl]) (by simp) rfl, fun _ _ => .flagged rfl⟩
  intro hblocking
  have hholds := h.waiterMutex.mp (by rw [show s.waiter = .blocking from hblocking]; rfl)
  rw [hmutex] at hholds
  cases hholds

private theorem Inv.flagged (h : Inv s) (hl : s.life = .flagged) : Inv { s with mutex := none, life := .unlocked } := by
  have hmutex : s.mutex = some .destructor := h.destructorMutex.mp (by rw [hl]; rfl)
  refine ⟨h.toKept.destructs (by simp) (by simp) ?_ (iff_of_false (fun hh => nomatch hh) fun heq => nomatch heq),
    life_dead h.life (by simp [hl]) (by simp) rfl, fun _ _ => .unlocked rfl⟩
  intro holder hholder
  rw [hmutex]
  exact iff_of_false (fun heq => nomatch heq) (fun heq => hholder (Option.some.inj heq).symm)

private theorem Inv.unlocked (h : Inv s) (hl : s.life = .unlocked) : Inv { s.notify with life := .joining } := by
  obtain ⟨hkept, hawake⟩ := h.toKept.notified
  obtain ⟨hlife, huse⟩ := notify_same (s := s)
  have hfree : s.notify.mutex ≠ some .destructor := by
    intro hmutex
    have hholds := hkept.destructorMutex.mpr hmutex
    rw [hlife, hl] at hholds
    cases hholds
  refine ⟨hkept.destructs (by simp) (by simp) (fun _ _ => Iff.rfl) (iff_of_false (fun hh => nomatch hh) hfree),
    life_dead h.life (by simp [hl]) (by simp) huse, fun hasleep => absurd hasleep hawake⟩

/-- What the waiter has left is destroyed with the members of the manager. -/
private theorem Inv.joining (h : Inv s) (hl : s.life = .joining) (hw : s.waiter = .exited) :
    Inv { s with
      destroyed := s.destroyed ++ s.reclaimables.map fun r => ⟨r, false, decide (s.mutex = some .destructor)⟩
      reclaimables := []
      life := .gone } := by
  have hmutex : s.mutex ≠ some .destructor := by
    intro hmutex
    have hholds := h.destructorMutex.mpr hmutex
    rw [hl] at hholds
    cases hholds
  have hhanded : handed { s with
      destroyed := s.destroyed ++ s.reclaimables.map fun r => ⟨r, false, decide (s.mutex = some .destructor)⟩
      reclaimables := []
      life := .gone } = s.handed := by
    simp only [handed, hw, ResourceWaiter.collected, List.map_append, List.map_map, Function.comp_def, List.map_id',
      ← Multiset.coe_add, Multiset.coe_nil]
    abel
  refine ⟨⟨?_, ?_, h.distinct, by simp, h.waiterMutex, h.callerMutex, h.mutexCaller, ?_, by simp [hw], fun _ => ⟨hw, rfl⟩, ?_,
    by simp⟩, life_dead h.life (by simp [hl]) (by simp) rfl, by simp [hw]⟩
  · rw [places, hhanded]
    exact h.counted
  · intro c hc hcarries
    rw [hhanded]
    exact h.passed c hc hcarries
  · exact iff_of_false (fun hh => nomatch hh) hmutex
  · intro d hd
    rcases List.mem_append.mp hd with hd | hd
    · exact h.outside d hd
    · obtain ⟨x, -, rfl⟩ := List.mem_map.mp hd
      exact decide_eq_false hmutex

private theorem Inv.runDestructor (h : Inv s) (hs : s.runDestructor = some t) : Inv t := by
  unfold ResourceManager.runDestructor at hs
  split at hs
  next => cases hs
  next hl =>
    obtain ⟨hfree, hs⟩ := Option.ite_none_right_eq_some.mp hs
    obtain rfl := Option.some.inj hs
    exact h.terminating hl hfree
  next hl =>
    obtain rfl := Option.some.inj hs
    exact h.holding hl
  next hl =>
    obtain rfl := Option.some.inj hs
    exact h.flagged hl
  next hl =>
    obtain rfl := Option.some.inj hs
    exact h.unlocked hl
  next hl =>
    obtain ⟨hw, hs⟩ := Option.ite_none_right_eq_some.mp hs
    obtain rfl := Option.some.inj hs
    exact h.joining hl hw
  next => cases hs

end Destructor

theorem Inv.step {a : Label} (h : Inv s) (hs : s.step a = some t) : Inv t := by
  cases a with
  | construct handle =>
    obtain ⟨-, hs⟩ := Option.ite_none_left_eq_some.mp hs
    obtain rfl := Option.some.inj hs
    exact h.populate handle
  | swap handle =>
    obtain rfl := Option.some.inj hs
    exact (h.reset handle).populate handle
  | reset handle =>
    obtain rfl := Option.some.inj hs
    exact h.reset handle
  | destruct handle =>
    obtain rfl := Option.some.inj hs
    exact h.reset handle
  | retain =>
    obtain ⟨hpos, hs⟩ := Option.ite_none_left_eq_some.mp hs
    obtain rfl := Option.some.inj hs
    exact h.retain hpos
  | release =>
    obtain ⟨hpos, hs⟩ := Option.ite_none_left_eq_some.mp hs
    obtain rfl := Option.some.inj hs
    exact h.release hpos
  | proceed r stage =>
    obtain ⟨hc, hs⟩ := Option.ite_none_right_eq_some.mp hs
    exact h.proceed hc hs
  | runWaiter => exact h.runWaiter hs
  | wake =>
    obtain ⟨hasleep, hs⟩ := Option.ite_none_right_eq_some.mp hs
    obtain rfl := Option.some.inj hs
    exact ⟨h.toKept.woken hasleep, h.life, by simp⟩
  | runDestructor => exact h.runDestructor hs

theorem Inv.init : Inv machine.init := by
  refine ⟨⟨rfl, ?_, List.nodup_nil, ?_, ?_, ?_, ?_, ?_, ?_, ?_, ?_, ?_⟩, ?_, ?_⟩ <;>
    simp [machine, ResourceWaiter.holdsMutex, ManagerLife.holdsMutex, useCount]

end Ogre.Hal.ResourceManager
