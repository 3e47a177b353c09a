import Ogre.Hal.ResourceManagerRuns
import Ogre.Library.Fairness

/-! Every resource that a handle gave up is destroyed once, outside of the mutex, and the waiter
wakes up for it. -/
namespace Ogre.Hal.ResourceManager
open Ogre.Library
variable {s t : ResourceManager} {r handle : Nat} {stage : ResetStage} {c : Nat × ResetStage} {a : Label}
  {e : machine.Endless} {n : Nat}

/-- A call of `Reset` and the destructor go on while they can. -/
def Fair (e : machine.Endless) : Prop :=
  (∀ r stage, e.WeakFair (· = .proceed r stage)) ∧ e.WeakFair (· = .runDestructor)

/-- What is true of the manager whenever one looks at it. -/
structure Reclaims (s : ResourceManager) : Prop where
  once : (s.destroyed.map (·.resource)).Nodup
  kept : ∀ h ∈ s.handles, h.2 ∉ s.destroyed.map (·.resource)
  all : s.life = .gone → ∀ r < s.resources,
    r ∈ s.handles.map (·.2) ∨ (r, .dropping) ∈ s.calls ∨ r ∈ s.destroyed.map (·.resource)
  outside : ∀ d ∈ s.destroyed, d.mutexHeld = false
  onCaller : ∀ d ∈ s.destroyed, d.onWaiter = false → s.life ≠ .alive
  awake : s.waiter = .asleep → s.reclaimables ≠ [] ∨ s.shouldExit → NotifyComing s
  wakes : s.waiter = .asleep → s.reclaimables ≠ [] ∨ s.shouldExit → ∀ e : machine.Endless, e.state 0 = s → Fair e →
    ∃ n, (e.state n).waiter ≠ .asleep

/-- No call moves on, and no resource comes. -/
structure Untouched (s t : ResourceManager) : Prop where
  calls : t.calls = s.calls
  resources : t.resources = s.resources

theorem untouched_notify : Untouched s s.notify := by
  unfold notify
  split <;> exact ⟨rfl, rfl⟩

theorem untouched_dropReference : Untouched s s.dropReference := by
  unfold dropReference
  split <;> exact ⟨rfl, rfl⟩

theorem mem_calls_reset (hc : c ∈ s.calls) : c ∈ (s.reset handle).calls := by
  unfold reset
  split
  · exact hc
  · exact List.mem_cons_of_mem _ hc

theorem life_reset : (s.reset handle).life = s.life := by
  unfold reset
  split <;> rfl

private theorem mem_calls_proceed (hc : c ∈ s.calls) (hs : s.proceed r stage = some t) (hne : c ≠ (r, stage)) :
    c ∈ t.calls := by
  have hmem : c ∈ s.calls.erase (r, stage) := (List.mem_erase_of_ne hne).mpr hc
  cases stage with
  | locked =>
    obtain ⟨-, hs⟩ := Option.ite_none_right_eq_some.mp hs
    obtain rfl := Option.some.inj hs
    exact List.mem_cons_of_mem _ hmem
  | holding =>
    obtain rfl := Option.some.inj hs
    exact List.mem_cons_of_mem _ hmem
  | pushed =>
    obtain rfl := Option.some.inj hs
    exact List.mem_cons_of_mem _ hmem
  | released =>
    obtain rfl := Option.some.inj hs
    rw [untouched_notify.calls]
    exact List.mem_cons_of_mem _ hmem
  | notified =>
    obtain rfl := Option.some.inj hs
    rw [untouched_dropReference.calls]
    exact hmem
  | dropping =>
    obtain rfl := Option.some.inj hs
    exact hmem

theorem untouched_runWaiter (hs : s.runWaiter = some t) : Untouched s t ∧ t.life = s.life := by
  unfold runWaiter at hs
  split at hs
  next =>
    obtain ⟨-, hs⟩ := Option.ite_none_right_eq_some.mp hs
    obtain rfl := Option.some.inj hs
    exact ⟨⟨rfl, rfl⟩, rfl⟩
  all_goals cases hs <;> exact ⟨⟨rfl, rfl⟩, rfl⟩

theorem untouched_runDestructor (hs : s.runDestructor = some t) : Untouched s t := by
  unfold runDestructor at hs
  split at hs
  next => cases hs
  next =>
    obtain ⟨-, hs⟩ := Option.ite_none_right_eq_some.mp hs
    obtain rfl := Option.some.inj hs
    exact ⟨rfl, rfl⟩
  next =>
    obtain rfl := Option.some.inj hs
    exact ⟨rfl, rfl⟩
  next =>
    obtain rfl := Option.some.inj hs
    exact ⟨rfl, rfl⟩
  next =>
    obtain rfl := Option.some.inj hs
    exact ⟨untouched_notify.calls, untouched_notify.resources⟩
  next =>
    obtain ⟨-, hs⟩ := Option.ite_none_right_eq_some.mp hs
    obtain rfl := Option.some.inj hs
    exact ⟨rfl, rfl⟩
  next => cases hs

/-- Only a call itself leaves its stage. -/
theorem mem_calls_step (hc : (r, stage) ∈ s.calls) (hs : s.step a = some t) :
    (r, stage) ∈ t.calls ∨ a = .proceed r stage := by
  cases a with
  | construct handle =>
    obtain ⟨-, hs⟩ := Option.ite_none_left_eq_some.mp hs
    obtain rfl := Option.some.inj hs
    exact .inl hc
  | swap handle =>
    obtain rfl := Option.some.inj hs
    exact .inl (mem_calls_reset hc)
  | reset handle =>
    obtain rfl := Option.some.inj hs
    exact .inl (mem_calls_reset hc)
  | destruct handle =>
    obtain rfl := Option.some.inj hs
    exact .inl (mem_calls_reset hc)
  | retain =>
    obtain ⟨-, hs⟩ := Option.ite_none_left_eq_some.mp hs
    obtain rfl := Option.some.inj hs
    exact .inl hc
  | release =>
    obtain ⟨-, hs⟩ := Option.ite_none_left_eq_some.mp hs
    obtain rfl := Option.some.inj hs
    rw [untouched_dropReference.calls]
    exact .inl hc
  | proceed x next =>
    obtain ⟨-, hs⟩ := Option.ite_none_right_eq_some.mp hs
    by_cases heq : (r, stage) = (x, next)
    · obtain ⟨rfl, rfl⟩ := Prod.mk.inj heq
      exact .inr rfl
    · exact .inl (mem_calls_proceed hc hs heq)
  | runWaiter =>
    rw [(untouched_runWaiter hs).1.calls]
    exact .inl hc
  | wake =>
    obtain ⟨-, hs⟩ := Option.ite_none_right_eq_some.mp hs
    obtain rfl := Option.some.inj hs
    exact .inl hc
  | runDestructor =>
    rw [(untouched_runDestructor hs).calls]
    exact .inl hc

/-- Only the destructor itself leaves its stage. -/
theorem life_step (h : Inv s) (hdead : s.life ≠ .alive) (hs : s.step a = some t) :
    t.life = s.life ∨ a = .runDestructor := by
  have hzero : ¬ 0 < s.useCount := mt h.life.mpr hdead
  cases a with
  | construct handle =>
    obtain ⟨-, hs⟩ := Option.ite_none_left_eq_some.mp hs
    obtain rfl := Option.some.inj hs
    exact .inl rfl
  | swap handle =>
    obtain rfl := Option.some.inj hs
    exact .inl life_reset
  | reset handle =>
    obtain rfl := Option.some.inj hs
    exact .inl life_reset
  | destruct handle =>
    obtain rfl := Option.some.inj hs
    exact .inl life_reset
  | retain =>
    obtain ⟨-, hs⟩ := Option.ite_none_left_eq_some.mp hs
    obtain rfl := Option.some.inj hs
    exact .inl rfl
  | release =>
    obtain ⟨howners, -⟩ := Option.ite_none_left_eq_some.mp hs
    unfold useCount at hzero
    omega
  | proceed r stage =>
    obtain ⟨hc, hs⟩ := Option.ite_none_right_eq_some.mp hs
    cases stage with
    | locked =>
      obtain ⟨-, hs⟩ := Option.ite_none_right_eq_some.mp hs
      obtain rfl := Option.some.inj hs
      exact .inl rfl
    | released =>
      obtain rfl := Option.some.inj hs
      exact .inl notify_same.1
    | notified => exact absurd (useCount_pos hc rfl) hzero
    | holding | pushed | dropping =>
      obtain rfl := Option.some.inj hs
      exact .inl rfl
  | runWaiter => exact .inl (untouched_runWaiter hs).2
  | wake =>
    obtain ⟨-, hs⟩ := Option.ite_none_right_eq_some.mp hs
    obtain rfl := Option.some.inj hs
    exact .inl rfl
  | runDestructor => exact .inr rfl

theorem notify_awake : s.notify.waiter ≠ .asleep := by
  unfold notify
  split
  · simp
  · assumption

/-- A call that can go on does so. -/
private theorem call_leads {Q : ResourceManager → Prop} (hfair : Fair e)
    (hnext : ∀ s, Inv s → (r, stage) ∈ s.calls → ∃ t, s.proceed r stage = some t ∧ Q t)
    (h : Inv (e.state n)) (hc : (r, stage) ∈ (e.state n).calls) : ∃ m, n < m ∧ Inv (e.state m) ∧ Q (e.state m) := by
  apply (hfair.1 r stage).leads_to (P := fun s => Inv s ∧ (r, stage) ∈ s.calls) (Q := fun s => Inv s ∧ Q s)
  · intro s ⟨hs, hmem⟩
    obtain ⟨t, ht, -⟩ := hnext s hs hmem
    exact ⟨_, t, rfl, (if_pos hmem).trans ht⟩
  · intro m ⟨hs, hmem⟩ hlabel
    have hstep := e.step m
    rw [hlabel] at hstep
    obtain ⟨u, hu, hq⟩ := hnext _ hs hmem
    have heq : some (e.state (m + 1)) = some u := hstep.symm.trans ((if_pos hmem).trans hu)
    rw [Option.some.inj heq]
    rw [Option.some.inj heq] at hstep
    exact ⟨hs.step (a := .proceed r stage) hstep, hq⟩
  · intro m ⟨hs, hmem⟩ hlabel
    exact ⟨hs.step (e.step m), (mem_calls_step hmem (e.step m)).resolve_right hlabel⟩
  · exact ⟨h, hc⟩

/-- The destructor does so as well. -/
private theorem destructor_leads {Q : ResourceManager → Prop} {life : ManagerLife} (hdead : life ≠ .alive) (hfair : Fair e)
    (hnext : ∀ s : ResourceManager, s.life = life → ∃ t, s.runDestructor = some t ∧ Q t)
    (h : Inv (e.state n)) (hl : (e.state n).life = life) : ∃ m, n < m ∧ Inv (e.state m) ∧ Q (e.state m) := by
  apply hfair.2.leads_to (P := fun s => Inv s ∧ s.life = life) (Q := fun s => Inv s ∧ Q s)
  · intro s ⟨hs, hlife⟩
    obtain ⟨t, ht, -⟩ := hnext s hlife
    exact ⟨_, t, rfl, ht⟩
  · intro m ⟨hs, hlife⟩ hlabel
    have hstep := e.step m
    rw [hlabel] at hstep
    obtain ⟨u, hu, hq⟩ := hnext _ hlife
    have heq : some (e.state (m + 1)) = some u := hstep.symm.trans hu
    rw [Option.some.inj heq]
    rw [Option.some.inj heq] at hstep
    exact ⟨hs.step (a := .runDestructor) hstep, hq⟩
  · intro m ⟨hs, hlife⟩ hlabel
    have hkept := (life_step hs (by rw [hlife]; exact hdead) (e.step m)).resolve_right hlabel
    exact ⟨hs.step (e.step m), hkept.trans hlife⟩
  · exact ⟨h, hl⟩

private theorem released_wakes (hfair : Fair e) (h : Inv (e.state n)) (hc : (r, .released) ∈ (e.state n).calls) :
    ∃ m, n < m ∧ (e.state m).waiter ≠ .asleep := by
  obtain ⟨m, hm, -, hawake⟩ := call_leads (Q := fun s => s.waiter ≠ .asleep) hfair
    (fun s _ _ => ⟨_, rfl, notify_awake⟩) h hc
  exact ⟨m, hm, hawake⟩

private theorem unlocked_wakes (hfair : Fair e) (h : Inv (e.state n)) (hl : (e.state n).life = .unlocked) :
    ∃ m, n < m ∧ (e.state m).waiter ≠ .asleep := by
  obtain ⟨m, hm, -, hawake⟩ := destructor_leads (Q := fun s => s.waiter ≠ .asleep) (by simp) hfair
    (fun s hs => ⟨{ s.notify with life := .joining }, by simp [runDestructor, hs], notify_awake⟩) h hl
  exact ⟨m, hm, hawake⟩

/-- A notification that is under way comes. -/
theorem NotifyComing.wakes (hcoming : NotifyComing (e.state n)) (h : Inv (e.state n)) (hfair : Fair e) :
    ∃ m, n < m ∧ (e.state m).waiter ≠ .asleep := by
  cases hcoming with
  | pushed r hc =>
    obtain ⟨m, hm, hinv, hreleased⟩ := call_leads (Q := fun s => (r, .released) ∈ s.calls) hfair
      (fun s _ _ => ⟨_, rfl, List.mem_cons_self⟩) h hc
    obtain ⟨k, hk, hawake⟩ := released_wakes hfair hinv hreleased
    exact ⟨k, hm.trans hk, hawake⟩
  | released r hc => exact released_wakes hfair h hc
  | flagged hl =>
    obtain ⟨m, hm, hinv, hunlocked⟩ := destructor_leads (Q := fun s => s.life = .unlocked) (by simp) hfair
      (fun s hs => ⟨{ s with mutex := none, life := .unlocked }, by simp [runDestructor, hs], rfl⟩) h hl
    obtain ⟨k, hk, hawake⟩ := unlocked_wakes hfair hinv hunlocked
    exact ⟨k, hm.trans hk, hawake⟩
  | unlocked hl => exact unlocked_wakes hfair h hl

theorem Inv.reclaims (h : Inv s) : Reclaims s where
  once := by
    have hnodup := h.nodup
    rw [places, handed, ← add_assoc, ← add_assoc, Multiset.nodup_add] at hnodup
    exact Multiset.coe_nodup.mp hnodup.2.1
  kept := by
    intro p hp hmem
    have hnodup := h.nodup
    rw [places, add_assoc, Multiset.nodup_add] at hnodup
    have hheld : p.2 ∈ (↑(s.handles.map (·.2)) : Multiset Nat) := List.mem_map_of_mem hp
    refine Multiset.disjoint_left.mp hnodup.2.2 hheld ?_
    rw [handed]
    exact Multiset.mem_add.mpr (.inr (Multiset.mem_add.mpr (.inr hmem)))
  all := by
    intro hgone r hr
    have hmem : r ∈ s.places := by
      rw [h.counted]
      exact Multiset.mem_range.mpr hr
    obtain ⟨hexited, hempty⟩ := h.gone hgone
    have hzero : ¬ 0 < s.useCount := mt h.life.mpr (by simp [hgone])
    rw [places, handed, hexited, hempty] at hmem
    simp only [ResourceWaiter.collected, Multiset.coe_nil, zero_add, Multiset.mem_add, Multiset.mem_coe] at hmem
    rcases hmem with (hmem | hmem) | hmem
    · exact .inl hmem
    · obtain ⟨stage, hcall, hcarries⟩ := mem_carried.mp hmem
      cases stage with
      | dropping => exact .inr (.inl hcall)
      | locked => exact absurd (useCount_pos hcall rfl) hzero
      | holding => exact absurd (useCount_pos hcall rfl) hzero
      | pushed | released | notified => cases hcarries
    · exact .inr (.inr hmem)
  outside := h.outside
  onCaller := h.onCaller
  awake := h.awake
  wakes := by
    intro hasleep hwork e hstart hfair
    rw [← hstart] at h hasleep hwork
    obtain ⟨n, -, hawake⟩ := (h.awake hasleep hwork).wakes h hfair
    exact ⟨n, hawake⟩

/-- In every state of every run, no resource is destroyed twice, while a handle has it or with the
mutex, every resource given up is destroyed once the manager is gone, and the waiter wakes up. -/
theorem reclaimed (labels : List Label) (hr : machine.run labels = some s) : Reclaims s :=
  (Machine.invariant (fun _ _ _ h hs => h.step hs) Inv.init hr).reclaims

/-- The waiter sleeps, one resource wakes it, the next is the last reference to the manager, and
one is given up without a manager. -/
def lastReference : List Label :=
  List.replicate 3 .runWaiter ++ [.construct 0, .swap 0] ++
    [ResetStage.locked, .holding, .pushed, .released, .notified].map (.proceed 0) ++ [.reset 0, .release] ++
    [ResetStage.locked, .holding, .pushed, .released, .notified].map (.proceed 1) ++
    [.construct 1, .destruct 1, .proceed 2 .dropping] ++ List.replicate 4 .runDestructor ++
    List.replicate 8 .runWaiter ++ [.runDestructor]

theorem reclaimed_lastReference : ∃ s, machine.run lastReference = some s ∧ s.life = .gone ∧
    s.destroyed.map (fun d => (d.resource, d.onWaiter)) = [(2, false), (0, true), (1, true)] ∧ Reclaims s := by
  have hr : machine.run lastReference = some _ := rfl
  exact ⟨_, hr, rfl, rfl, reclaimed lastReference hr⟩

end Ogre.Hal.ResourceManager
