import Mathlib.Algebra.Order.Group.Multiset
import Mathlib.Tactic.Abel
import Ogre.Hal.PipelineCompileQueue
import Ogre.Library.ListSums

/-! Every accepted job is in one place until it has been executed. -/
namespace Ogre.Hal.Descriptors
open Ogre.Library

namespace PipelineCompileQueue
variable {ι : Type} {q q' : PipelineCompileQueue ι} {call : Call ι} {job : ι}
  {desc : PipelineDescriptor} {i begin : Nat}

def WorkerTask.jobs : WorkerTask ι → Multiset ι
  | .job j => {j}
  | .doOneJob => 0

def Point.jobs : Point ι → Multiset ι
  | .postingTask task => task.jobs
  | .callingJob job => {job}
  | _ => 0

/-- Whether the task or the call is going to take a job out of the queue. -/
def WorkerTask.turns : WorkerTask ι → Nat
  | .job _ => 0
  | .doOneJob => 1

def Point.turns : Point ι → Nat
  | .postingTask task => task.turns
  | .lockingQueue => 1
  | .takingNextJob => 1
  | _ => 0

/-- The executed jobs, and all others that somebody has. -/
def jobs (q : PipelineCompileQueue ι) : Multiset ι :=
  ↑(q.executed.map (·.1)) + ↑(q.pendingJobs.map (·.2)) +
    (q.tasks.map (·.jobs)).sum + (q.calls.map (·.point.jobs)).sum

def turns (q : PipelineCompileQueue ι) : Nat :=
  (q.tasks.map (·.turns)).sum + (q.calls.map (·.point.turns)).sum

def Call.inDestructor (call : Call ι) : Prop := call.destructor ∨ call.point = .finishingAllJobs

/-- Nobody loses a job, a live queue has a turn for each of its jobs, and a queue that is
destroyed has none and is not referred to. -/
structure Accounted (q : PipelineCompileQueue ι) : Prop where
  jobs : q.jobs = q.accepted
  turns : q.alive → q.pendingJobs.length ≤ q.turns
  calls : ∀ call ∈ q.calls, call.inDestructor → q.destructing
  destructing : q.destructing → q.alive = false
  destroyed : q.destroyed → q.destructing ∧ q.pendingJobs = []

@[simp] theorem alive_enter : (q.enter call).alive = (call.strong || q.alive) := by
  simp [enter, alive, Bool.or_left_comm]

@[simp] theorem jobs_enter : (q.enter call).jobs = q.jobs + call.point.jobs := by
  simp only [enter, jobs, List.map_cons, List.sum_cons]
  abel

@[simp] theorem turns_enter : (q.enter call).turns = q.turns + call.point.turns := by
  simp only [enter, turns, List.map_cons, List.sum_cons]
  omega

@[simp] theorem jobs_execute : (q.execute call job).jobs = q.jobs + {job} := by
  have : (q.execute call job).jobs = { q with executed := q.executed ++ [(job, call.locked)] }.jobs + 0 := jobs_enter
  rw [this, jobs, jobs, List.map_append, ← Multiset.coe_add]
  simp only [List.map_cons, List.map_nil, Multiset.coe_singleton]
  abel

/-- A call that is taken out. -/
private theorem jobs_eraseIdx (h : q.calls[i]? = some call) :
    q.jobs = { q with calls := q.calls.eraseIdx i }.jobs + call.point.jobs := by
  simp only [jobs, sum_eraseIdx (·.point.jobs) h]
  abel

private theorem turns_eraseIdx (h : q.calls[i]? = some call) :
    q.turns = { q with calls := q.calls.eraseIdx i }.turns + call.point.turns := by
  simp only [turns, sum_eraseIdx (·.point.turns) h]
  omega

private theorem alive_eraseIdx (h : q.calls[i]? = some call) :
    q.alive = (call.strong || { q with calls := q.calls.eraseIdx i }.alive) := by
  obtain ⟨hi, rfl⟩ := List.getElem?_eq_some_iff.mp h
  have hp := (List.getElem_cons_eraseIdx_perm hi).any_eq (f := fun c : Call ι => c.strong)
  simp only [alive, ← hp, List.any_cons, Bool.or_left_comm]

/-- The order of the calls does not matter. -/
theorem Accounted.toFront (h : q.Accounted) (hc : q.calls[i]? = some call) :
    ({ q with calls := q.calls.eraseIdx i }.enter call).Accounted where
  jobs := by rw [jobs_enter, ← jobs_eraseIdx hc]; exact h.jobs
  turns := by rw [alive_enter, turns_enter, ← turns_eraseIdx hc, ← alive_eraseIdx hc]; exact h.turns
  calls c hmem := by
    rcases List.mem_cons.mp hmem with rfl | hmem
    · exact h.calls c (List.mem_of_getElem? hc)
    · exact h.calls c (List.mem_of_mem_eraseIdx hmem)
  destructing := by rw [alive_enter, ← alive_eraseIdx hc]; exact h.destructing
  destroyed := h.destroyed

theorem Accounted.init : ({} : PipelineCompileQueue ι).Accounted where
  jobs := rfl
  turns _ := Nat.le_refl _
  calls := by simp
  destructing := by simp
  destroyed := by simp

/-- A call that goes on to a point where it has the same jobs. -/
theorem Accounted.move (h : (q.enter call).Accounted) {next : Call ι} (hj : next.point.jobs = call.point.jobs)
    (ht : call.point.turns ≤ next.point.turns) (hs : next.strong → call.strong || q.alive)
    (hd : next.inDestructor → call.inDestructor) : (q.enter next).Accounted := by
  have halive : (q.enter next).alive → (q.enter call).alive := by
    simp only [alive_enter, Bool.or_eq_true]
    rintro (hnext | hq)
    · simpa using hs hnext
    · exact .inr hq
  refine ⟨?_, fun ha => ?_, fun c hc hin => ?_, fun hdes => ?_, h.destroyed⟩
  · rw [jobs_enter, hj, ← jobs_enter]
    exact h.jobs
  · have := h.turns (halive ha)
    rw [turns_enter] at this ⊢
    exact Nat.le_trans this (Nat.add_le_add_left ht _)
  · rcases List.mem_cons.mp hc with rfl | hc
    · exact h.calls call List.mem_cons_self (hd hin)
    · exact h.calls c (List.mem_cons_of_mem _ hc) hin
  · exact Bool.eq_false_iff.mpr fun ha => Bool.eq_false_iff.mp (h.destructing hdes) (halive ha)

/-- A call that ends, and has had its turn if it had one. -/
theorem Accounted.drop (h : (q.enter call).Accounted) (hj : call.point.jobs = 0)
    (ht : q.alive → q.pendingJobs ≠ [] → call.point.turns = 0) : q.Accounted := by
  have halive (ha : q.alive) : (q.enter call).alive := by simp [ha]
  refine ⟨?_, fun ha => ?_, fun c hc => h.calls c (List.mem_cons_of_mem _ hc), fun hdes => ?_, h.destroyed⟩
  · rw [← add_zero q.jobs, ← hj, ← jobs_enter]
    exact h.jobs
  · have := h.turns (halive ha)
    rw [turns_enter] at this
    rcases eq_or_ne q.pendingJobs [] with he | he
    · simp [he]
    · rw [ht ha he] at this
      exact this
  · exact Bool.eq_false_iff.mpr fun ha => Bool.eq_false_iff.mp (h.destructing hdes) (halive ha)

/-- A call without a job. -/
theorem Accounted.add (h : q.Accounted) (hj : call.point.jobs = 0) (hs : call.strong → q.alive)
    (hd : call.inDestructor → q.destructing) : (q.enter call).Accounted := by
  have halive : (q.enter call).alive = q.alive := by
    rw [alive_enter, Bool.or_eq_right_iff_imp]
    exact hs
  refine ⟨?_, fun ha => ?_, fun c hc => ?_, ?_, h.destroyed⟩
  · rw [jobs_enter, hj, add_zero]
    exact h.jobs
  · rw [turns_enter]
    exact Nat.le_add_right_of_le (h.turns (halive ▸ ha))
  · rcases List.mem_cons.mp hc with rfl | hc
    · exact hd
    · exact h.calls c hc
  · rw [halive]
    exact h.destructing

theorem Accounted.leave (h : (q.enter call).Accounted) (hj : call.point.jobs = 0)
    (ht : q.pendingJobs ≠ [] → call.point.turns = 0) : (q.leave call).Accounted := by
  have hq := h.drop hj fun _ => ht
  unfold PipelineCompileQueue.leave
  split
  next hd =>
    have hdes := h.calls call List.mem_cons_self (.inl hd)
    have hdead := h.destructing hdes
    refine hq.add rfl (fun hs => ?_) fun _ => hdes
    simp [show call.strong = true from hs] at hdead
  next => exact hq

theorem Accounted.execute (h : (q.enter call).Accounted) (hj : call.point.jobs = {job}) (ht : call.point.turns = 0) :
    (q.execute call job).Accounted := by
  have hmoved (c) (hc : c ∈ (q.execute call job).calls) (hin : c.inDestructor) : q.destructing := by
    rcases List.mem_cons.mp hc with rfl | hc
    · refine h.calls call List.mem_cons_self (.inl (hin.resolve_right (by simp)))
    · exact h.calls c (List.mem_cons_of_mem _ hc) hin
  have halive : (q.execute call job).alive = (q.enter call).alive := by simp [PipelineCompileQueue.execute, enter, alive]
  have hturns : (q.execute call job).turns = (q.enter call).turns := by
    rw [turns_enter, ht]
    exact turns_enter
  refine ⟨?_, ?_, hmoved, ?_, h.destroyed⟩
  · rw [jobs_execute, ← hj, ← jobs_enter]
    exact h.jobs
  · rw [halive, hturns]
    exact h.turns
  · rw [halive]
    exact h.destructing

theorem takeNextJob_cases {next : Option ι × PipelineCompileQueue ι} (h : q.takeNextJob begin = some next) :
    (q.pendingJobs = [] ∧ next = (none, q)) ∨ ∃ e, q.pendingJobs[begin]? = some e ∧
      next = (some e.2, { q with pendingJobs := q.pendingJobs.eraseIdx begin }) := by
  unfold takeNextJob at h
  split at h
  next he => exact .inl ⟨List.isEmpty_iff.mp he, (Option.some.inj h).symm⟩
  next =>
    obtain ⟨e, he, rfl⟩ := Option.map_eq_some_iff.mp h
    exact .inr ⟨e, he, rfl⟩

/-- What one step of a call does, by the point that the call is at. -/
inductive Advances (q : PipelineCompileQueue ι) (call : Call ι) : PipelineCompileQueue ι → Prop
  | callsPosted {job : ι} (hp : call.point = .postingTask (.job job)) (hd : q.shutdown = true) :
      Advances q call (q.execute call job)
  | runsPosted (hp : call.point = .postingTask .doOneJob) :
      Advances q call (q.enter { call with point := .lockingQueue })
  | posts {task : WorkerTask ι} (hp : call.point = .postingTask task) (hu : q.shutdown = false) :
      Advances q call { q with tasks := q.tasks ++ [task] }
  | locks (hp : call.point = .lockingQueue) (ha : q.alive || call.strong) :
      Advances q call (q.enter { call with point := .takingNextJob, strong := true })
  | expires (hp : call.point = .lockingQueue) (ha : (q.alive || call.strong) = false) : Advances q call q
  | takes {begin : Nat} {e : PipelineDescriptor × ι} (hp : call.point = .takingNextJob)
      (he : q.pendingJobs[begin]? = some e) :
      Advances q call ({ q with pendingJobs := q.pendingJobs.eraseIdx begin }.enter
        { call with point := .callingJob e.2 })
  | takesNone (hp : call.point = .takingNextJob) (hn : q.pendingJobs = []) : Advances q call (q.leave call)
  | calls {job : ι} (hp : call.point = .callingJob job) : Advances q call (q.execute call job)
  | returns (hp : call.point = .inJob) : Advances q call (q.leave call)
  | destroys (hp : call.point = .finishingAllJobs) (hn : q.pendingJobs = []) :
      Advances q call { q with destroyed := true }
  | finishes (hp : call.point = .finishingAllJobs) : Advances q call (q.enter { call with point := .takingNextJob })

theorem advances_of_advance (ha : q.advance call begin = some q') : Advances q call q' := by
  unfold advance at ha
  split at ha
  next task hp =>
    split at ha
    next hdown =>
      cases task with
      | job job =>
        cases ha
        exact .callsPosted hp hdown
      | doOneJob =>
        cases ha
        exact .runsPosted hp
    next hup =>
      cases ha
      exact .posts hp (Bool.eq_false_iff.mpr hup)
  next hp =>
    split at ha
    next halive =>
      cases ha
      exact .locks hp halive
    next hdead =>
      cases ha
      exact .expires hp (Bool.eq_false_iff.mpr hdead)
  next hp =>
    split at ha
    next =>
      obtain ⟨next, htake, rfl⟩ := Option.map_eq_some_iff.mp ha
      rcases takeNextJob_cases htake with ⟨hnil, rfl⟩ | ⟨e, he, rfl⟩
      · exact .takesNone hp hnil
      · exact .takes hp he
    next => cases ha
  next job hp =>
    cases ha
    exact .calls hp
  next hp =>
    cases ha
    exact .returns hp
  next hp =>
    split at ha
    next =>
      split at ha
      next hnil =>
        cases ha
        exact .destroys hp (List.isEmpty_iff.mp hnil)
      next =>
        cases ha
        exact .finishes hp
    next => cases ha

/-- A call that leaves its task to the runner. -/
theorem Accounted.post {task : WorkerTask ι} (h : (q.enter call).Accounted) (hc : call.point = .postingTask task) :
    { q with tasks := q.tasks ++ [task] }.Accounted := by
  have halive (ha : q.alive) : (q.enter call).alive := by simp [ha]
  refine ⟨?_, fun ha => ?_, fun c hmem => h.calls c (List.mem_cons_of_mem _ hmem), fun hdes => ?_, h.destroyed⟩
  · refine Eq.trans ?_ h.jobs
    rw [jobs_enter, hc]
    simp only [PipelineCompileQueue.jobs, Point.jobs, List.map_append, List.map_cons, List.map_nil, List.sum_append,
      List.sum_singleton]
    abel
  · have := h.turns (halive ha)
    rw [turns_enter, hc] at this
    simp only [PipelineCompileQueue.turns, Point.turns, List.map_append, List.map_cons, List.map_nil,
      List.sum_append, List.sum_singleton] at this ⊢
    change q.pendingJobs.length ≤ _ at this
    omega
  · exact Bool.eq_false_iff.mpr fun ha => Bool.eq_false_iff.mp (h.destructing hdes) (halive ha)

/-- A job goes from the map to a call that had no job, and the turn of the call is over. -/
theorem Accounted.take {pending : List (PipelineDescriptor × ι)} {elevated : Nat}
    (h : (q.enter call).Accounted) (hj : call.point.jobs = 0) (ht : call.point.turns ≤ 1)
    (hp : q.pendingJobs.Perm ((desc, job) :: pending)) :
    ({ q with pendingJobs := pending, prioritiesElevated := elevated }.enter
      { call with point := .callingJob job }).Accounted := by
  have hlength := hp.length_eq
  have hjobs : (↑(q.pendingJobs.map (·.2)) : Multiset ι) = ↑(pending.map (·.2)) + {job} := by
    rw [← Multiset.coe_singleton, Multiset.coe_add, Multiset.coe_eq_coe]
    exact (hp.map _).trans (List.perm_append_singleton job _).symm
  refine ⟨?_, fun ha => ?_, fun c hc hin => ?_, h.destructing, fun hdes => ?_⟩
  · have := h.jobs
    rw [jobs_enter, hj, add_zero] at this
    rw [jobs_enter]
    refine Eq.trans ?_ this
    simp only [PipelineCompileQueue.jobs, Point.jobs, hjobs]
    abel
  · have := h.turns ha
    rw [turns_enter] at this ⊢
    change q.pendingJobs.length ≤ _ at this
    change pending.length ≤ q.turns + 0
    rw [List.length_cons] at hlength
    omega
  · rcases List.mem_cons.mp hc with rfl | hc
    · exact h.calls call List.mem_cons_self (.inl (hin.resolve_right (by simp)))
    · exact h.calls c (List.mem_cons_of_mem _ hc) hin
  · have hnil : q.pendingJobs = [] := (h.destroyed hdes).2
    simp [hnil] at hlength

theorem advance_accounted (h : (q.enter call).Accounted) (ha : q.advance call begin = some q') : q'.Accounted := by
  have hsame {next : Call ι} (hd : next.destructor = call.destructor) (hf : next.point ≠ .finishingAllJobs)
      (hin : next.inDestructor) : call.inDestructor := .inl (hd ▸ hin.resolve_right hf)
  cases advances_of_advance ha with
  | callsPosted hp hd => exact h.execute (by rw [hp]; rfl) (by rw [hp]; rfl)
  | runsPosted hp =>
    exact h.move (by rw [hp]; rfl) (by rw [hp]; rfl) (fun hs => Bool.or_eq_true_iff.mpr (.inl hs))
      (hsame rfl (by simp))
  | posts hp hu => exact h.post hp
  | locks hp halive =>
    exact h.move (by rw [hp]; rfl) (by rw [hp]; rfl) (fun _ => by rwa [Bool.or_comm]) (hsame rfl (by simp))
  | expires hp hdead => exact h.drop (by rw [hp]; rfl) fun hq => by simp [hq] at hdead
  | takes hp he =>
    obtain ⟨hi, rfl⟩ := List.getElem?_eq_some_iff.mp he
    exact h.take (by rw [hp]; rfl) (by rw [hp]; rfl) (List.getElem_cons_eraseIdx_perm hi).symm
  | takesNone hp hn => exact h.leave (by rw [hp]; rfl) fun hne => (hne hn).elim
  | calls hp => exact h.execute (by rw [hp]; rfl) (by rw [hp]; rfl)
  | returns hp => exact h.leave (by rw [hp]; rfl) fun _ => by rw [hp]; rfl
  | destroys hp hn =>
    have hdes : q.destructing := h.calls _ List.mem_cons_self (.inr hp)
    have hq : q.Accounted := h.drop (by rw [hp]; rfl) fun _ _ => by rw [hp]; rfl
    exact ⟨hq.jobs, hq.turns, hq.calls, hq.destructing, fun _ => ⟨hdes, hn⟩⟩
  | finishes hp =>
    exact h.move (by rw [hp]; rfl) (by rw [hp]; exact Nat.zero_le _)
      (fun hs => Bool.or_eq_true_iff.mpr (.inl hs)) fun _ => .inr hp

/-- A job that comes in with a call, which has it or has a turn for it. -/
private theorem Accounted.accept (h : q.Accounted) (added : List (PipelineDescriptor × ι)) (ho : q.owned)
    (hj : ↑(added.map (·.2)) + call.point.jobs = {job}) (ht : added.length ≤ call.point.turns)
    (hd : ¬call.inDestructor) :
    ({ q with pendingJobs := q.pendingJobs ++ added, accepted := q.accepted ++ [job] }.enter call).Accounted := by
  have hdead : ¬q.destructing := fun hdes => by simpa [alive, ho] using h.destructing hdes
  refine ⟨?_, fun _ => ?_, fun c hmem => ?_, fun hdes => (hdead hdes).elim, fun hdes => (hdead (h.destroyed hdes).1).elim⟩
  · rw [jobs_enter]
    change _ = (↑(q.accepted ++ [job]) : Multiset ι)
    rw [← Multiset.coe_add, ← h.jobs, Multiset.coe_singleton, ← hj]
    simp only [PipelineCompileQueue.jobs, List.map_append, ← Multiset.coe_add]
    abel
  · have := h.turns (by simp [alive, ho])
    rw [turns_enter]
    change (q.pendingJobs ++ added).length ≤ q.turns + _
    rw [List.length_append]
    omega
  · rcases List.mem_cons.mp hmem with rfl | hmem
    · exact fun hin => (hd hin).elim
    · exact h.calls c hmem

theorem postJobForDescriptor_accounted (desc : PipelineDescriptor) (job : ι) (h : q.Accounted) (ho : q.owned) :
    (q.postJobForDescriptor desc job).Accounted := by
  unfold postJobForDescriptor
  split
  · have hd : ¬Call.inDestructor { point := .postingTask (.job job), locked := true, strong := true } := by
      simp [Call.inDestructor]
    simpa using h.accept [] ho (zero_add _) (Nat.zero_le _) hd
  · have hd : ¬Call.inDestructor (ι := ι) { point := .postingTask .doOneJob, strong := true } := by
      simp [Call.inDestructor]
    exact h.accept [(desc, job)] ho (add_zero _) (Nat.le_refl _) hd

theorem perm_eraseP {α : Type} {p : α → Bool} {l : List α} {x : α} (h : l.find? p = some x) :
    l.Perm (x :: l.eraseP p) := by
  induction l with
  | nil => simp at h
  | cons a l ih =>
    by_cases ha : p a
    · obtain rfl : a = x := by simpa [ha] using h
      rw [List.eraseP_cons_of_pos ha]
    · rw [List.eraseP_cons_of_neg ha]
      exact ((ih (by simpa [ha] using h)).cons a).trans (.swap x a _)

theorem performJobEagerly_accounted (desc : PipelineDescriptor) (h : q.Accounted) (ho : q.owned) :
    (q.performJobEagerly desc).Accounted := by
  unfold performJobEagerly takeJob
  cases hfind : q.pendingJobs.find? fun e => e.1.isEqual desc with
  | none => exact h
  | some found =>
    have hidle : (q.enter { point := .inJob, strong := true }).Accounted :=
      h.add rfl (fun _ => by simp [alive, ho]) fun hin => by simp [Call.inDestructor] at hin
    exact hidle.take rfl (Nat.zero_le _) (perm_eraseP hfind)

theorem runTask_accounted {task : WorkerTask ι} (h : q.Accounted) (ht : q.tasks[i]? = some task) :
    ({ q with tasks := q.tasks.eraseIdx i }.enter { point := workerPoint task }).Accounted := by
  have hjobs : (workerPoint task).jobs = task.jobs := by cases task <;> rfl
  have hturns : (workerPoint task).turns = task.turns := by cases task <;> rfl
  have hd : ¬Call.inDestructor { point := workerPoint task } := by cases task <;> simp [Call.inDestructor, workerPoint]
  have halive : ({ q with tasks := q.tasks.eraseIdx i }.enter { point := workerPoint task }).alive = q.alive :=
    alive_enter
  refine ⟨?_, fun ha => ?_, fun c hmem => ?_, fun hdes => halive.trans (h.destructing hdes), h.destroyed⟩
  · refine Eq.trans ?_ h.jobs
    rw [jobs_enter, hjobs]
    simp only [PipelineCompileQueue.jobs, sum_eraseIdx (·.jobs) ht]
    abel
  · have := h.turns (halive ▸ ha)
    rw [turns_enter, hturns]
    simp only [PipelineCompileQueue.turns, sum_eraseIdx (·.turns) ht] at this ⊢
    change q.pendingJobs.length ≤ _
    omega
  · rcases List.mem_cons.mp hmem with rfl | hmem
    · exact fun hin => (hd hin).elim
    · exact h.calls c hmem

theorem step_accounted {label : Label ι} (h : q.Accounted) (hs : q.step label = some q') : q'.Accounted := by
  cases label with
  | postJobForDescriptor desc job =>
    cases job with
    | none =>
      simp only [step, Option.ite_none_right_eq_some, Option.some.injEq] at hs
      exact hs.2 ▸ h
    | some job =>
      simp only [step, Option.ite_none_right_eq_some, Option.some.injEq, Bool.and_eq_true] at hs
      exact hs.2 ▸ postJobForDescriptor_accounted desc job h hs.1.1
  | performJobEagerly desc =>
    simp only [step, Option.ite_none_right_eq_some, Option.some.injEq, Bool.and_eq_true] at hs
    exact hs.2 ▸ performJobEagerly_accounted desc h hs.1.1
  | runTask i =>
    obtain ⟨task, ht, rfl⟩ := Option.map_eq_some_iff.mp hs
    exact runTask_accounted h ht
  | advance i begin =>
    obtain ⟨call, hc, ha⟩ := Option.bind_eq_some_iff.mp hs
    exact advance_accounted (h.toFront hc) ha
  | release =>
    simp only [step, Option.ite_none_right_eq_some, Option.some.injEq] at hs
    obtain ⟨ho, rfl⟩ := hs
    have halive : q.alive := by simp [alive, ho]
    have hdead : ¬q.destructing := fun hdes => by simp [h.destructing hdes] at halive
    exact ⟨h.jobs, fun _ => h.turns halive, h.calls, fun hdes => (hdead hdes).elim, h.destroyed⟩
  | destroy =>
    simp only [step, Option.ite_none_right_eq_some, Option.some.injEq, Bool.and_eq_true] at hs
    obtain ⟨⟨hdead, hdes⟩, rfl⟩ := hs
    have hq : Accounted { q with destructing := true } :=
      ⟨h.jobs, h.turns, fun _ _ _ => rfl, fun _ => Bool.not_eq_true' _ ▸ hdead, fun hd => ⟨rfl, (h.destroyed hd).2⟩⟩
    exact hq.add rfl (fun hs => by simp at hs) fun _ => rfl
  | shutdown =>
    obtain rfl := Option.some.inj hs
    exact ⟨h.jobs, h.turns, h.calls, h.destructing, h.destroyed⟩

end PipelineCompileQueue
end Ogre.Hal.Descriptors
