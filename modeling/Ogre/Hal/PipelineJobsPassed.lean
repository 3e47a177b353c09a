import Ogre.Hal.PipelineJobsOnce

/-! What is left to execute after a step of the queue. -/
namespace Ogre.Hal.Descriptors
open Ogre.Library

namespace PipelineCompileQueue
variable {ι : Type} {q q' : PipelineCompileQueue ι} {call : Call ι} {job : ι}
  {desc : PipelineDescriptor} {i begin : Nat}

/-- What a step does that accepts no job: it may call one. -/
structure Passes (q q' : PipelineCompileQueue ι) (called : Option ι) : Prop where
  accepted : q'.accepted = q.accepted
  executed : q'.executed.map (·.1) = q.executed.map (·.1) ++ called.toList
  pendingJobs : q'.pendingJobs ⊆ q.pendingJobs
  owned : q'.owned = q.owned

theorem Passes.idle (ha : q'.accepted = q.accepted) (he : q'.executed = q.executed)
    (hp : q'.pendingJobs = q.pendingJobs) (ho : q'.owned = q.owned) : q.Passes q' none :=
  ⟨ha, by rw [he, Option.toList_none, List.append_nil], hp ▸ List.Subset.refl _, ho⟩

theorem Passes.refl : q.Passes q none := .idle rfl rfl rfl rfl

theorem Passes.of_taken {pending : List (PipelineDescriptor × ι)} {elevated : Nat} (h : pending ⊆ q.pendingJobs) :
    q.Passes ({ q with pendingJobs := pending, prioritiesElevated := elevated }.enter call) none :=
  ⟨rfl, (List.append_nil _).symm, h, rfl⟩

private theorem passes_execute : q.Passes (q.execute call job) (some job) :=
  ⟨rfl, List.map_append, List.Subset.refl _, rfl⟩

private theorem passes_leave : q.Passes (q.leave call) none := by
  unfold PipelineCompileQueue.leave
  split
  · exact .of_taken (List.Subset.refl _)
  · exact .refl

theorem advance_passes (ha : q.advance call begin = some q') : q.Passes q' (call.job q.shutdown) := by
  unfold Call.job
  cases advances_of_advance ha with
  | callsPosted hp hd =>
    rw [hp, hd]
    exact passes_execute
  | runsPosted hp | locks hp halive | finishes hp =>
    rw [hp]
    exact .of_taken (List.Subset.refl _)
  | @posts task hp hu =>
    rw [hp, hu]
    cases task <;> exact .idle rfl rfl rfl rfl
  | expires hp hdead =>
    rw [hp]
    exact .refl
  | takes hp he =>
    rw [hp]
    exact .of_taken List.eraseIdx_subset
  | takesNone hp _ | returns hp =>
    rw [hp]
    exact passes_leave
  | calls hp =>
    rw [hp]
    exact passes_execute
  | destroys hp hn =>
    rw [hp]
    exact .idle rfl rfl rfl rfl

theorem performJobEagerly_passes : q.Passes (q.performJobEagerly desc) none := by
  unfold performJobEagerly takeJob
  cases q.pendingJobs.find? fun e => e.1.isEqual desc with
  | none => exact .refl
  | some found => exact .of_taken List.eraseP_subset

/-- The jobs that have not been executed. -/
def unexecuted (q : PipelineCompileQueue ι) : Multiset ι :=
  ↑(q.pendingJobs.map (·.2)) + (q.tasks.map (·.jobs)).sum + (q.calls.map (·.point.jobs)).sum

theorem jobs_eq : q.jobs = ↑(q.executed.map (·.1)) + q.unexecuted := by
  simp only [PipelineCompileQueue.jobs, unexecuted, add_assoc]

theorem Passes.unexecuted {called : Option ι} (h : q.Passes q' called) (hq : q.Accounted) (hq' : q'.Accounted) :
    q.unexecuted = called.toList + q'.unexecuted := by
  have hjobs : q.jobs = q'.jobs := by rw [hq.jobs, hq'.jobs, h.accepted]
  rw [jobs_eq, jobs_eq, h.executed, ← Multiset.coe_add, add_assoc] at hjobs
  exact add_left_cancel hjobs

theorem unexecuted_postJobForDescriptor :
    (q.postJobForDescriptor desc job).unexecuted = q.unexecuted + {job} := by
  unfold postJobForDescriptor
  split
  · simp only [unexecuted, enter, List.map_cons, List.sum_cons, Point.jobs, WorkerTask.jobs]
    abel
  · simp only [unexecuted, enter, List.map_cons, List.sum_cons, Point.jobs, WorkerTask.jobs, List.map_append,
      List.map_nil, ← Multiset.coe_add, Multiset.coe_singleton]
    abel

theorem mem_postJobForDescriptor {e : PipelineDescriptor × ι} (h : e ∈ (q.postJobForDescriptor desc job).pendingJobs) :
    e ∈ q.pendingJobs ∨ e = (desc, job) := by
  unfold postJobForDescriptor at h
  split at h
  · exact .inl h
  · exact (List.mem_append.mp h).imp_right List.mem_singleton.mp

theorem owned_postJobForDescriptor : (q.postJobForDescriptor desc job).owned = q.owned := by
  unfold postJobForDescriptor
  split <;> rfl

/-- After a call for a descriptor, the entry that it would find is not pending. -/
theorem performJobEagerly_cases (desc : PipelineDescriptor) : (∀ e ∈ q.pendingJobs, ¬e.1.isEqual desc) ∨
    ∃ found, found.1.isEqual desc ∧ q.pendingJobs.Perm (found :: (q.performJobEagerly desc).pendingJobs) := by
  unfold performJobEagerly takeJob
  cases hfind : q.pendingJobs.find? fun e => e.1.isEqual desc with
  | none => exact .inl fun e he => List.find?_eq_none.mp hfind e he
  | some found => exact .inr ⟨found, by simpa using List.find?_some hfind, perm_eraseP hfind⟩

end PipelineCompileQueue
end Ogre.Hal.Descriptors
