import Ogre.Hal.PipelineJobsOnce

/-! Which jobs are called with the mutex of the queue held. -/
namespace Ogre.Hal.Descriptors
open Ogre.Library

namespace PipelineCompileQueue
variable {ι : Type} {q q' : PipelineCompileQueue ι} {call : Call ι} {job : ι} {i begin : Nat}

/-- The mutex is held from where a job for a pending descriptor is posted. -/
def Call.lockedRight (call : Call ι) : Prop :=
  match call.point with
  | .postingTask (.job _) => call.locked = true ∧ call.destructor = false
  | .inJob => call.locked = true → call.destructor = false
  | _ => call.locked = false

def LockedRight (q : PipelineCompileQueue ι) : Prop := ∀ call ∈ q.calls, call.lockedRight

/-- No job was called by a thread that held the mutex. -/
def Unlocked (q : PipelineCompileQueue ι) : Prop := ∀ e ∈ q.executed, e.2 = false

/-- The call does not post a job to a runner that is shut down. -/
def Call.keepsJob (shutdown : Bool) (call : Call ι) : Prop :=
  match call.point with
  | .postingTask (.job _) => shutdown = false
  | _ => True

/-- The runner is not shut down where a job whose descriptor is pending is posted to it. -/
def DuplicatesQueued (q : PipelineCompileQueue ι) (label : Label ι) (_ : PipelineCompileQueue ι) : Prop :=
  match label with
  | .advance i _ => ∀ call ∈ q.calls[i]?, call.keepsJob q.shutdown
  | _ => True

instance (down : Bool) (call : Call ι) : Decidable (call.keepsJob down) := by
  unfold Call.keepsJob
  cases call.point with
  | postingTask task => cases task <;> infer_instance
  | lockingQueue | takingNextJob | callingJob | inJob | finishingAllJobs => infer_instance

instance (q q' : PipelineCompileQueue ι) (label : Label ι) : Decidable (q.DuplicatesQueued label q') := by
  unfold DuplicatesQueued
  cases label <;> infer_instance

/-- What the queue and the runner have left to do is done. -/
def Drained (q : PipelineCompileQueue ι) : Prop := q.destroyed ∧ q.tasks = [] ∧ q.calls = []

def RunsEachJobOnce (q : PipelineCompileQueue ι) : Prop :=
  (q.Drained → (q.executed.map (·.1)).Perm q.accepted) ∧ q.Unlocked

private theorem LockedRight.enter (h : q.LockedRight) (hc : call.lockedRight) : (q.enter call).LockedRight := by
  intro c hmem
  rcases List.mem_cons.mp hmem with rfl | hmem
  · exact hc
  · exact h c hmem

private theorem LockedRight.execute (h : q.LockedRight) (hc : call.locked → call.destructor = false) :
    (q.execute call job).LockedRight :=
  LockedRight.enter (q := { q with executed := q.executed ++ [(job, call.locked)] }) h hc

private theorem LockedRight.leave (h : q.LockedRight) (hc : call.locked → call.destructor = false) :
    (q.leave call).LockedRight := by
  unfold PipelineCompileQueue.leave
  split
  next hd =>
    refine h.enter ?_
    exact Bool.eq_false_iff.mpr fun hl => by simp [hc hl] at hd
  next => exact h

private theorem unlocked_execute : (q.execute call job).Unlocked ↔ q.Unlocked ∧ call.locked = false := by
  simp only [Unlocked, PipelineCompileQueue.execute, PipelineCompileQueue.enter, List.mem_append, List.mem_singleton,
    or_imp, forall_and, forall_eq]

private theorem unlocked_leave : (q.leave call).Unlocked ↔ q.Unlocked := by
  unfold PipelineCompileQueue.leave
  split <;> rfl

private theorem advance_locks (h : q.LockedRight) (hc : call.lockedRight) (ha : q.advance call begin = some q') :
    q'.LockedRight ∧ (q'.Unlocked ↔ q.Unlocked ∧ call.keepsJob q.shutdown) := by
  have hidle (hl : call.locked = false) (hlocked : call.locked) : call.destructor = false := by simp [hl] at hlocked
  unfold Call.lockedRight at hc
  unfold Call.keepsJob
  cases advances_of_advance ha with
  | callsPosted hp hd =>
    rw [hp] at hc ⊢
    refine ⟨h.execute fun _ => hc.2, unlocked_execute.trans (and_congr_right fun _ => ?_)⟩
    simp [hc.1, hd]
  | runsPosted hp | locks hp _ | finishes hp =>
    rw [hp] at hc ⊢
    exact ⟨h.enter hc, (and_iff_left trivial).symm⟩
  | @posts task hp hu =>
    rw [hp]
    refine ⟨h, (and_iff_left ?_).symm⟩
    cases task with
    | job job => exact hu
    | doOneJob => trivial
  | expires hp _ | destroys hp _ =>
    rw [hp]
    exact ⟨h, (and_iff_left trivial).symm⟩
  | @takes begin e hp he =>
    rw [hp] at hc ⊢
    exact ⟨LockedRight.enter (q := { q with pendingJobs := q.pendingJobs.eraseIdx begin }) h hc,
      (and_iff_left trivial).symm⟩
  | takesNone hp _ =>
    rw [hp] at hc ⊢
    exact ⟨h.leave (hidle hc), unlocked_leave.trans (and_iff_left trivial).symm⟩
  | calls hp =>
    rw [hp] at hc ⊢
    exact ⟨h.execute (hidle hc), unlocked_execute.trans (and_congr_right fun _ => iff_of_true hc trivial)⟩
  | returns hp =>
    rw [hp] at hc ⊢
    exact ⟨h.leave hc, unlocked_leave.trans (and_iff_left trivial).symm⟩

private theorem step_locks {label : Label ι} (h : q.LockedRight) (hs : q.step label = some q') :
    q'.LockedRight ∧ (q'.Unlocked ↔ q.Unlocked ∧ q.DuplicatesQueued label q') := by
  cases label with
  | postJobForDescriptor desc job =>
    cases job with
    | none =>
      simp only [step, Option.ite_none_right_eq_some, Option.some.injEq] at hs
      exact hs.2 ▸ ⟨h, (and_iff_left trivial).symm⟩
    | some job =>
      simp only [step, Option.ite_none_right_eq_some, Option.some.injEq] at hs
      obtain ⟨-, rfl⟩ := hs
      refine ⟨?_, ?_⟩
      · unfold PipelineCompileQueue.postJobForDescriptor
        split
        · exact LockedRight.enter (q := { q with accepted := q.accepted ++ [job] }) h ⟨rfl, rfl⟩
        · exact LockedRight.enter (q := { q with pendingJobs := _, accepted := _ }) h rfl
      · unfold PipelineCompileQueue.postJobForDescriptor
        split <;> exact (and_iff_left trivial).symm
  | performJobEagerly desc =>
    simp only [step, Option.ite_none_right_eq_some, Option.some.injEq] at hs
    obtain ⟨-, rfl⟩ := hs
    unfold PipelineCompileQueue.performJobEagerly takeJob
    cases q.pendingJobs.find? fun e => e.1.isEqual desc with
    | none => exact ⟨h, (and_iff_left trivial).symm⟩
    | some found =>
      exact ⟨LockedRight.enter (q := { q with pendingJobs := _, prioritiesElevated := _ }) h rfl,
        (and_iff_left trivial).symm⟩
  | runTask i =>
    obtain ⟨task, ht, rfl⟩ := Option.map_eq_some_iff.mp hs
    refine ⟨LockedRight.enter (q := { q with tasks := q.tasks.eraseIdx i }) h ?_, (and_iff_left trivial).symm⟩
    cases task <;> rfl
  | advance i begin =>
    obtain ⟨call, hc, ha⟩ := Option.bind_eq_some_iff.mp hs
    have hcalls : LockedRight { q with calls := q.calls.eraseIdx i } :=
      fun c hmem => h c (List.mem_of_mem_eraseIdx hmem)
    obtain ⟨hl, hu⟩ := advance_locks hcalls (h call (List.mem_of_getElem? hc)) ha
    refine ⟨hl, hu.trans (and_congr_right fun _ => ?_)⟩
    simp [DuplicatesQueued, hc]
  | release =>
    simp only [step, Option.ite_none_right_eq_some, Option.some.injEq] at hs
    exact hs.2 ▸ ⟨h, (and_iff_left trivial).symm⟩
  | destroy =>
    simp only [step, Option.ite_none_right_eq_some, Option.some.injEq] at hs
    obtain ⟨-, rfl⟩ := hs
    exact ⟨LockedRight.enter (q := { q with destructing := true }) h rfl, (and_iff_left trivial).symm⟩
  | shutdown =>
    obtain rfl := Option.some.inj hs
    exact ⟨h, (and_iff_left trivial).symm⟩

theorem run_accounted {labels : List (Label ι)} (hr : (machine ι).run labels = some q) : q.Accounted :=
  (machine ι).invariant (fun _ _ _ h hs => step_accounted h hs) Accounted.init hr

/-- A queue without pending jobs, whose runner and calls have nothing left, has executed what it accepted. -/
theorem Accounted.executed_perm (h : q.Accounted) (hp : q.pendingJobs = []) (ht : q.tasks = []) (hc : q.calls = []) :
    (q.executed.map (·.1)).Perm q.accepted := by
  rw [← Multiset.coe_eq_coe, ← h.jobs]
  simp [PipelineCompileQueue.jobs, hp, ht, hc]

/-- Every accepted job has been called once when the queue is destroyed and the runner has
run its tasks. It is called with the mutex held if and only if its descriptor was pending
when it was posted and the runner was shut down by then. -/
theorem runsEachJobOnce_iff {labels : List (Label ι)} (hr : (machine ι).run labels = some q) :
    q.RunsEachJobOnce ↔ (machine ι).Along DuplicatesQueued (machine ι).init labels := by
  have hunlocked := (machine ι).kept_iff_along (G := Unlocked) (C := DuplicatesQueued)
    (fun _ _ _ h hs => (step_locks h hs).1) (fun _ _ _ h hs => (step_locks h hs).2)
    (fun _ hmem => by simp [machine] at hmem) hr
  have hinit : Unlocked (machine ι).init := fun _ hmem => by simp [machine] at hmem
  have honce (hd : q.Drained) : (q.executed.map (·.1)).Perm q.accepted :=
    have ha := run_accounted hr
    ha.executed_perm (ha.destroyed hd.1).2 hd.2.1 hd.2.2
  rw [RunsEachJobOnce, and_iff_right honce, hunlocked, and_iff_right hinit]

/-- A duplicate that a worker calls. -/
def queuedDuplicate : List (Label Nat) :=
  [.postJobForDescriptor {} (some 1), .postJobForDescriptor {} (some 2), .advance 0 0, .runTask 0, .advance 0 0,
    .advance 0 0, .advance 0 0, .release, .runTask 0, .advance 0 0, .destroy, .advance 0 0, .advance 0 0,
    .advance 0 0, .advance 0 0, .advance 0 0]

theorem runsEachJobOnce_queuedDuplicate : ∃ q, (machine Nat).run queuedDuplicate = some q ∧ q.Drained ∧
    q.accepted = [1, 2] ∧ q.executed.length = 2 ∧ q.RunsEachJobOnce := by
  have hr : (machine Nat).run queuedDuplicate = some _ := rfl
  exact ⟨_, hr, ⟨rfl, rfl, rfl⟩, rfl, rfl, (runsEachJobOnce_iff hr).mpr (by decide)⟩

/-- A duplicate for a runner that is shut down. -/
def calledDuplicate : List (Label Nat) :=
  [.postJobForDescriptor {} (some 1), .shutdown, .postJobForDescriptor {} (some 2), .advance 0 0]

theorem duplicate_called_locked : ¬ ∀ labels q, (machine Nat).run labels = some q → q.RunsEachJobOnce := by
  intro h
  have hr : (machine Nat).run calledDuplicate = some _ := rfl
  exact absurd ((h _ _ hr).2 (2, true) (by decide)) (by decide)

end PipelineCompileQueue
end Ogre.Hal.Descriptors
