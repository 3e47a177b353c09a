import Ogre.Hal.PipelineCreation
import Ogre.Hal.PipelineJobsPassed

/-! One promise, one task and at most one pipeline for each entry of the library. -/
namespace Ogre.Hal.Descriptors
open Ogre.Library PipelineMaps

namespace PipelineLibrary
variable {l l' : PipelineLibrary} {task : GenerationTask} {held : Multiset GenerationTask}
  {queue : PipelineCompileQueue GenerationTask} {request : Request}

/-- The generation tasks that have not been called. -/
def outstanding (l : PipelineLibrary) : Multiset GenerationTask := l.compileQueue.unexecuted + ↑l.tasks

/-- The invariant while a step has the tasks `held` in its hands. -/
structure InFlight (l : PipelineLibrary) (held : Multiset GenerationTask) : Prop where
  queue : l.compileQueue.Accounted
  owned : l.compileQueue.owned = l.owned
  once : ∀ i p, l.promises[i]? = some p →
    p.values.length + ((l.outstanding + held).map (·.promise)).count i = 1
  entries : ∀ e ∈ l.pipelines, (l.promises[e.2]?).map (·.descriptor) = some e.1
  apart : ∀ x ∈ l.pipelines, ∀ y ∈ l.pipelines, x.1.isEqual y.1 → x.2 = y.2
  tasks : ∀ task ∈ l.outstanding + held, (task.request, task.promise) ∈ l.pipelines
  built : ∀ task ∈ l.built, (task.request, task.promise) ∈ l.pipelines ∧
    ∀ other ∈ l.outstanding + held, other.promise ≠ task.promise
  builtOnce : l.built.Pairwise fun x y => x.promise ≠ y.promise
  pending : ∀ e ∈ l.compileQueue.pendingJobs, e.2.request = .render e.1
  returned : l.isValid → ∀ r ∈ l.returned, ∃ e ∈ l.pipelines, e.2 = r.2 ∧ (e.1 = r.1 ∨ e.1.isEqual r.1)
  waiting : ∀ w ∈ l.waiting, ∃ p, l.promises[w.future]? = some p ∧ (w.asked → p.descriptor.isEqual p.descriptor →
    ∀ e ∈ l.compileQueue.pendingJobs, e.2.promise ≠ w.future)

theorem inFlight_init (isValid : Bool) : InFlight { isValid } 0 where
  queue := .init
  owned := rfl
  once := by simp
  entries := by simp
  apart := by simp
  tasks := by simp [outstanding, PipelineCompileQueue.unexecuted]
  built := by simp
  builtOnce := .nil
  pending := by simp
  returned := by simp
  waiting := by simp

/-- A step of the queue that accepts no job. -/
theorem InFlight.pass {called : Option GenerationTask} (h : l.InFlight 0) (hq : queue.Accounted)
    (hp : l.compileQueue.Passes queue called) : InFlight { l with compileQueue := queue } called.toList := by
  have hout : outstanding { l with compileQueue := queue } + called.toList = l.outstanding := by
    simp only [outstanding, hp.unexecuted h.queue hq]
    abel
  refine ⟨hq, hp.owned.trans h.owned, ?_, h.entries, h.apart, ?_, ?_, h.builtOnce,
    fun e he => h.pending e (hp.pendingJobs he), h.returned, fun w hw => ?_⟩
  · rw [hout]
    simpa using h.once
  · rw [hout]
    simpa using h.tasks
  · rw [hout]
    simpa using h.built
  · obtain ⟨p, hp', hwait⟩ := h.waiting w hw
    exact ⟨p, hp', fun ha hd e he => hwait ha hd e (hp.pendingJobs he)⟩

private theorem getElem?_setValue {promise i : Nat} {value : Option Int} {p : Promise}
    (h : (l.setValue promise value).promises[i]? = some p) :
    ∃ old, l.promises[i]? = some old ∧ p.descriptor = old.descriptor ∧
      p.values.length = old.values.length + if promise = i then 1 else 0 := by
  simp only [setValue, List.getElem?_modify, Option.map_eq_map, Option.map_eq_some_iff] at h
  obtain ⟨old, hold, rfl⟩ := h
  refine ⟨old, hold, ?_⟩
  split <;> simp

private theorem descriptor_setValue {promise i : Nat} {value : Option Int} :
    ((l.setValue promise value).promises[i]?).map (·.descriptor) = (l.promises[i]?).map (·.descriptor) := by
  simp only [setValue, List.getElem?_modify, Option.map_eq_map, Option.map_map]
  congr 1
  funext p
  simp only [Function.comp_apply]
  split <;> rfl

/-- Nothing that is left has the promise of the task. -/
private theorem InFlight.last (h : l.InFlight {task}) : ∀ other ∈ l.outstanding, other.promise ≠ task.promise := by
  intro other hother heq
  have hentry := h.entries _ (h.tasks task (by simp))
  obtain ⟨p, hp, -⟩ := Option.map_eq_some_iff.mp hentry
  have honce := h.once task.promise p hp
  have hpos : 0 < (l.outstanding.map (·.promise)).count task.promise :=
    Multiset.count_pos.mpr (Multiset.mem_map.mpr ⟨other, hother, heq⟩)
  rw [Multiset.map_add, Multiset.count_add, Multiset.map_singleton, Multiset.count_singleton_self] at honce
  omega

theorem InFlight.setValue (h : l.InFlight {task}) (value : Option Int) :
    (l.setValue task.promise value).InFlight 0 where
  queue := h.queue
  owned := h.owned
  once i p hp := by
    obtain ⟨old, hold, -, hlength⟩ := getElem?_setValue hp
    have honce := h.once i old hold
    change _ + ((l.outstanding + 0).map (·.promise)).count i = 1
    rw [Multiset.map_add, Multiset.count_add, Multiset.map_singleton, Multiset.count_singleton] at honce
    rw [add_zero, hlength]
    split at honce <;> split <;> omega
  entries e he := descriptor_setValue.trans (h.entries e he)
  apart := h.apart
  tasks other hmem := by
    rw [add_zero] at hmem
    exact h.tasks other (Multiset.mem_add.mpr (.inl hmem))
  built other hmem := by
    obtain ⟨hentry, hother⟩ := h.built other hmem
    refine ⟨hentry, fun t ht => hother t (Multiset.mem_add.mpr (.inl ?_))⟩
    rw [add_zero] at ht
    exact ht
  builtOnce := h.builtOnce
  pending := h.pending
  returned := h.returned
  waiting w hw := by
    obtain ⟨p, hp, hwait⟩ := h.waiting w hw
    have hmap : ((l.setValue task.promise value).promises[w.future]?).map (·.descriptor) = some p.descriptor := by
      rw [descriptor_setValue, hp]
      rfl
    obtain ⟨p', hp', hd⟩ := Option.map_eq_some_iff.mp hmap
    exact ⟨p', hp', hd ▸ hwait⟩

theorem InFlight.generate {created : Bool} (h : l.InFlight {task}) : (l.generate task created).InFlight 0 := by
  have hset (value : Option Int) := h.setValue value
  unfold PipelineLibrary.generate
  split
  next =>
    have hl := hset (some task.nextKey)
    refine ⟨hl.queue, hl.owned, hl.once, hl.entries, hl.apart, hl.tasks, fun other hmem => ?_, ?_, hl.pending,
      hl.returned, hl.waiting⟩
    · rcases List.mem_append.mp hmem with hmem | hmem
      · exact hl.built other hmem
      · obtain rfl := List.mem_singleton.mp hmem
        refine ⟨h.tasks other (by simp), fun t ht => h.last t ?_⟩
        rw [add_zero] at ht
        exact ht
    · refine List.pairwise_append.mpr ⟨h.builtOnce, List.pairwise_singleton _ _, fun x hx y hy => ?_⟩
      obtain rfl := List.mem_singleton.mp hy
      exact ((h.built x hx).2 y (by simp)).symm
  next => exact hset none

theorem InFlight.entry_lt (h : l.InFlight held) {e : Request × Nat} (he : e ∈ l.pipelines) :
    e.2 < l.promises.length := by
  obtain ⟨p, hp, -⟩ := Option.map_eq_some_iff.mp (h.entries e he)
  exact (List.getElem?_eq_some_iff.mp hp).1

theorem InFlight.task_lt (h : l.InFlight held) (ht : task ∈ l.outstanding + held) : task.promise < l.promises.length :=
  h.entry_lt (h.tasks task ht)

theorem InFlight.wait_lt (h : l.InFlight held) {w : Wait} (hw : w ∈ l.waiting) : w.future < l.promises.length := by
  obtain ⟨p, hp, -⟩ := h.waiting w hw
  exact (List.getElem?_eq_some_iff.mp hp).1

/-- Nothing has the promise that comes next. -/
private theorem InFlight.count_next (h : l.InFlight held) :
    ((l.outstanding + held).map (·.promise)).count l.promises.length = 0 := by
  refine Multiset.count_eq_zero.mpr fun hmem => ?_
  obtain ⟨t, ht, heq⟩ := Multiset.mem_map.mp hmem
  exact Nat.ne_of_lt (h.task_lt ht) heq

private theorem getElem?_addPromise {i : Nat} {values : List (Option Int)} {p : Promise}
    (h : (l.addPromise request values).promises[i]? = some p) :
    l.promises[i]? = some p ∨ i = l.promises.length ∧ p = ⟨request, values⟩ := by
  simp only [addPromise, List.getElem?_append, List.getElem?_singleton] at h
  grind

private theorem getElem?_addPromise_of_some {i : Nat} {values : List (Option Int)} {p : Promise}
    (h : l.promises[i]? = some p) : (l.addPromise request values).promises[i]? = some p := by
  obtain ⟨hi, rfl⟩ := List.getElem?_eq_some_iff.mp h
  exact (List.getElem?_append_left hi).trans h

private theorem InFlight.waiting_addPromise (h : l.InFlight held) (values : List (Option Int)) {w : Wait}
    (hw : w ∈ l.waiting) : ∃ p, (l.addPromise request values).promises[w.future]? = some p ∧
      (w.asked → p.descriptor.isEqual p.descriptor → ∀ e ∈ l.compileQueue.pendingJobs, e.2.promise ≠ w.future) := by
  obtain ⟨p, hp, hwait⟩ := h.waiting w hw
  exact ⟨p, getElem?_addPromise_of_some hp, hwait⟩

private theorem InFlight.entries_addPromise (h : l.InFlight held) (values : List (Option Int)) {e : Request × Nat}
    (he : e ∈ l.pipelines) : ((l.addPromise request values).promises[e.2]?).map (·.descriptor) = some e.1 := by
  obtain ⟨p, hp, hd⟩ := Option.map_eq_some_iff.mp (h.entries e he)
  rw [getElem?_addPromise_of_some hp, ← hd]
  rfl

/-- The task of a new entry. -/
theorem InFlight.addEntry {key : Int} (h : l.InFlight 0)
    (hnew : l.pipelines.find? (fun e => e.1.isEqual request) = none) :
    ((l.addPromise request []).addEntry request l.promises.length).InFlight {⟨request, l.promises.length, key⟩} := by
  have hne (x) (hx : x ∈ l.pipelines) : ¬x.1.isEqual request := List.find?_eq_none.mp hnew x hx
  have hold {e : Request × Nat} (he : e ∈ l.pipelines) : e ∈ l.pipelines ++ [(request, l.promises.length)] :=
    List.mem_append_left _ he
  refine ⟨h.queue, h.owned, fun i p hp => ?_, fun e he => ?_, fun x hx y hy heq => ?_, fun t ht => ?_, fun t ht => ?_,
    h.builtOnce, h.pending, fun hv r hr => ?_, fun w hw => h.waiting_addPromise [] hw⟩
  · change p.values.length + ((l.outstanding + _).map (·.promise)).count i = 1
    rw [Multiset.map_add, Multiset.count_add, Multiset.map_singleton, Multiset.count_singleton]
    have hnext := h.count_next
    rw [add_zero] at hnext
    rcases getElem?_addPromise hp with hp | ⟨rfl, rfl⟩
    · have honce := h.once i p hp
      have hi := (List.getElem?_eq_some_iff.mp hp).1
      rw [if_neg (Nat.ne_of_lt hi)]
      rwa [add_zero] at honce
    · rw [hnext, if_pos rfl]
      rfl
  · rcases List.mem_append.mp he with he | he
    · exact h.entries_addPromise [] he
    · obtain rfl := List.mem_singleton.mp he
      simp [addPromise, PipelineLibrary.addEntry]
  · rcases List.mem_append.mp hx with hx | hx <;> rcases List.mem_append.mp hy with hy | hy
    · exact h.apart x hx y hy heq
    · obtain rfl := List.mem_singleton.mp hy
      exact (hne x hx heq).elim
    · obtain rfl := List.mem_singleton.mp hx
      exact (hne y hy (Request.isEqual_symm heq)).elim
    · rw [List.mem_singleton.mp hx, List.mem_singleton.mp hy]
  · rcases Multiset.mem_add.mp ht with ht | ht
    · exact hold (h.tasks t (Multiset.mem_add.mpr (.inl ht)))
    · obtain rfl := Multiset.mem_singleton.mp ht
      exact List.mem_append_right _ (List.mem_singleton_self _)
  · obtain ⟨hentry, hother⟩ := h.built t ht
    refine ⟨hold hentry, fun other hmem => ?_⟩
    rcases Multiset.mem_add.mp hmem with hmem | hmem
    · exact hother other (Multiset.mem_add.mpr (.inl hmem))
    · obtain rfl := Multiset.mem_singleton.mp hmem
      exact Nat.ne_of_gt (h.entry_lt hentry)
  · rcases List.mem_append.mp hr with hr | hr
    · obtain ⟨e, he, heq⟩ := h.returned hv r hr
      exact ⟨e, hold he, heq⟩
    · obtain rfl := List.mem_singleton.mp hr
      exact ⟨_, List.mem_append_right _ (List.mem_singleton_self _), rfl, .inl rfl⟩

/-- The realized future of a library that is not valid. -/
theorem InFlight.addRealized (h : l.InFlight 0) (hv : l.isValid = false) :
    (l.addPromise request [none]).InFlight 0 := by
  refine ⟨h.queue, h.owned, fun i p hp => ?_, fun e he => h.entries_addPromise [none] he, h.apart, h.tasks, h.built,
    h.builtOnce, h.pending, fun hvalid => ?_, fun w hw => h.waiting_addPromise [none] hw⟩
  · rcases getElem?_addPromise hp with hp | ⟨rfl, rfl⟩
    · exact h.once i p hp
    · exact congrArg (1 + ·) h.count_next
  · exact (Bool.eq_false_iff.mp hv hvalid).elim

/-- The task goes to the queue or to the others, and is not waited for. -/
private theorem InFlight.store {tasks : List GenerationTask} (h : l.InFlight {task}) (hq : queue.Accounted)
    (ho : queue.owned = l.owned) (hout : queue.unexecuted + ↑tasks = l.outstanding + {task})
    (hpending : ∀ e ∈ queue.pendingJobs, e ∈ l.compileQueue.pendingJobs ∨ e.2 = task ∧ task.request = .render e.1)
    (hw : ∀ w ∈ l.waiting, w.future ≠ task.promise) :
    InFlight { l with compileQueue := queue, tasks } 0 := by
  have heq : outstanding { l with compileQueue := queue, tasks } + 0 = l.outstanding + {task} :=
    (add_zero _).trans hout
  refine ⟨hq, ho, heq ▸ h.once, h.entries, h.apart, heq ▸ h.tasks, heq ▸ h.built, h.builtOnce, fun e he => ?_, h.returned,
    fun w hmem => ?_⟩
  · rcases hpending e he with he | ⟨rfl, hr⟩
    · exact h.pending e he
    · exact hr
  · obtain ⟨p, hp, hwait⟩ := h.waiting w hmem
    refine ⟨p, hp, fun ha hd e he => ?_⟩
    rcases hpending e he with he | ⟨rfl, -⟩
    · exact hwait ha hd e he
    · exact (hw w hmem).symm

theorem InFlight.addTask {async : Bool} (h : l.InFlight {task}) (ho : l.owned)
    (hw : ∀ w ∈ l.waiting, w.future ≠ task.promise) : (l.addTask task async).InFlight 0 := by
  have hown : InFlight { l with tasks := l.tasks ++ [task] } 0 := by
    refine h.store h.queue h.owned ?_ (fun e he => .inl he) hw
    rw [← Multiset.coe_add, ← add_assoc]
    rfl
  unfold PipelineLibrary.addTask
  split
  next descriptor hr =>
    split
    · have hq := PipelineCompileQueue.postJobForDescriptor_accounted descriptor task h.queue
        (h.owned.trans ho)
      refine h.store hq (PipelineCompileQueue.owned_postJobForDescriptor.trans h.owned) ?_ (fun e he => ?_) hw
      · rw [PipelineCompileQueue.unexecuted_postJobForDescriptor, outstanding]
        abel
      · rcases PipelineCompileQueue.mem_postJobForDescriptor he with he | rfl
        · exact .inl he
        · exact .inr ⟨rfl, hr⟩
    · exact hown
  next => exact hown

theorem InFlight.getPipeline {async : Bool} (h : l.InFlight 0) (ho : l.owned) :
    (l.getPipeline request async).InFlight 0 := by
  unfold PipelineLibrary.getPipeline
  split
  next found hfind =>
    refine ⟨h.queue, h.owned, h.once, h.entries, h.apart, h.tasks, h.built, h.builtOnce, h.pending, fun hv r hr => ?_,
      h.waiting⟩
    rcases List.mem_append.mp hr with hr | hr
    · exact h.returned hv r hr
    · obtain rfl := List.mem_singleton.mp hr
      exact ⟨found, List.mem_of_find?_eq_some hfind, rfl, .inr (by simpa using List.find?_some hfind)⟩
  next hnone =>
    split
    · exact (h.addEntry hnone).addTask ho fun w hw => Nat.ne_of_lt (h.wait_lt hw)
    next hv => exact h.addRealized (Bool.eq_false_iff.mpr hv)

/-- Pending jobs have different promises. -/
private theorem InFlight.pending_nodup (h : l.InFlight held) :
    (l.compileQueue.pendingJobs.map (·.2.promise)).Nodup := by
  refine List.nodup_iff_count_le_one.mpr fun i => ?_
  by_contra hcount
  have hle : (l.compileQueue.pendingJobs.map (·.2.promise)).count i ≤
      ((l.outstanding + held).map (·.promise)).count i := by
    simp only [outstanding, PipelineCompileQueue.unexecuted, Multiset.map_add, Multiset.count_add, Multiset.map_coe,
      List.map_map, Multiset.coe_count]
    change List.count i (l.compileQueue.pendingJobs.map fun e => e.2.promise) ≤ _
    simp only [Function.comp_def, add_assoc]
    exact Nat.le_add_right _ _
  have hpos : 0 < ((l.outstanding + held).map (·.promise)).count i := by omega
  obtain ⟨t, ht, rfl⟩ := Multiset.mem_map.mp (Multiset.count_pos.mp hpos)
  have honce := h.once _ _ (List.getElem?_eq_getElem (h.task_lt ht))
  omega

/-- A thread that has asked for a job does not wait for one that is pending. -/
private theorem InFlight.asked {future : Nat} {descriptor : PipelineDescriptor} {p : Promise} (h : l.InFlight 0)
    (hp : l.promises[future]? = some p) (hd : p.descriptor = .render descriptor)
    (hrefl : p.descriptor.isEqual p.descriptor) :
    ∀ e ∈ (l.compileQueue.performJobEagerly descriptor).pendingJobs, e.2.promise ≠ future := by
  rintro e he rfl
  have hentry {x : PipelineDescriptor × GenerationTask} (hx : x ∈ l.compileQueue.pendingJobs) :
      (Request.render x.1, x.2.promise) ∈ l.pipelines := by
    rw [← h.pending x hx]
    apply h.tasks
    rw [add_zero]
    exact Multiset.mem_add.mpr (.inl (Multiset.mem_add.mpr (.inl (Multiset.mem_add.mpr (.inl
      (Multiset.mem_coe.mpr (List.mem_map_of_mem hx)))))))
  have hmem := PipelineCompileQueue.performJobEagerly_passes.pendingJobs he
  have heq : e.1 = descriptor := by
    have := h.entries _ (hentry hmem)
    rw [hp, Option.map_some, hd, Option.some.injEq, Request.render.injEq] at this
    exact this.symm
  rw [hd] at hrefl
  rcases PipelineCompileQueue.performJobEagerly_cases descriptor with hnone | ⟨found, hfound, hperm⟩
  · exact hnone e hmem (heq ▸ hrefl)
  · have hsame : found.2.promise = e.2.promise :=
      h.apart _ (hentry (hperm.mem_iff.mpr List.mem_cons_self)) _ (hentry hmem) (heq ▸ hfound)
    have hnodup := (hperm.map (·.2.promise)).nodup_iff.mp h.pending_nodup
    rw [List.map_cons, List.nodup_cons, hsame] at hnodup
    exact hnodup.1 (List.mem_map_of_mem he)

theorem InFlight.wait {future : Nat} {asked : Bool} (h : l.InFlight 0) (hw : l.waitAndGet future asked = some l') :
    l'.InFlight 0 := by
  obtain ⟨p, hp, hw⟩ := Option.bind_eq_some_iff.mp hw
  cases hd : p.descriptor with
  | compute descriptor => simp [hd] at hw
  | render descriptor =>
    simp only [hd] at hw
    split at hw
    next =>
      simp only [Option.ite_none_right_eq_some, Option.some.injEq, Bool.and_eq_true] at hw
      obtain ⟨⟨ho, -⟩, rfl⟩ := hw
      have hq := h.pass (PipelineCompileQueue.performJobEagerly_accounted descriptor h.queue (h.owned.trans ho))
        PipelineCompileQueue.performJobEagerly_passes
      refine ⟨hq.queue, hq.owned, hq.once, hq.entries, hq.apart, hq.tasks, hq.built, hq.builtOnce, hq.pending, hq.returned,
        fun w hmem => ?_⟩
      rcases List.mem_append.mp hmem with hmem | hmem
      · exact hq.waiting w hmem
      · obtain rfl := List.mem_singleton.mp hmem
        exact ⟨p, hp, fun _ hrefl => h.asked hp hd hrefl⟩
    next =>
      obtain rfl := Option.some.inj hw
      refine ⟨h.queue, h.owned, h.once, h.entries, h.apart, h.tasks, h.built, h.builtOnce, h.pending, h.returned,
        fun w hmem => ?_⟩
      rcases List.mem_append.mp hmem with hmem | hmem
      · exact h.waiting w hmem
      · obtain rfl := List.mem_singleton.mp hmem
        exact ⟨p, hp, by simp⟩

/-- What the frames and the persisted cache are is not part of the invariant. -/
private theorem InFlight.withCache {dirty persisting : Bool} {frames persists : Nat} {persisted : List GenerationTask}
    (h : l.InFlight held) :
    InFlight { l with
      cacheDirty := dirty, framesAcquired := frames, persistTasks := persists, persisting, persisted } held :=
  ⟨h.queue, h.owned, h.once, h.entries, h.apart, h.tasks, h.built, h.builtOnce, h.pending, h.returned, h.waiting⟩

/-- A task that is taken from those outside of the queue. -/
private theorem InFlight.take {i : Nat} (h : l.InFlight 0) (ht : l.tasks[i]? = some task) :
    InFlight { l with tasks := l.tasks.eraseIdx i } {task} := by
  obtain ⟨hi, rfl⟩ := List.getElem?_eq_some_iff.mp ht
  have hout : outstanding { l with tasks := l.tasks.eraseIdx i } + {l.tasks[i]} = l.outstanding + 0 := by
    have hp := Multiset.coe_eq_coe.mpr (List.getElem_cons_eraseIdx_perm hi)
    rw [add_zero, outstanding, outstanding, ← hp, ← Multiset.cons_coe, ← Multiset.singleton_add]
    abel
  exact ⟨h.queue, h.owned, hout ▸ h.once, h.entries, h.apart, hout ▸ h.tasks, hout ▸ h.built, h.builtOnce, h.pending,
    h.returned, h.waiting⟩

theorem step_inFlight {label : Label} (h : l.InFlight 0) (hs : l.step label = some l') : l'.InFlight 0 := by
  cases label with
  | getPipeline request async =>
    simp only [step, Option.ite_none_right_eq_some, Option.some.injEq, Bool.and_eq_true] at hs
    exact hs.2 ▸ h.getPipeline hs.1.1
  | runTask i created =>
    obtain ⟨task, ht, rfl⟩ := Option.map_eq_some_iff.mp hs
    exact (h.take ht).generate
  | runQueueTask i =>
    obtain ⟨queue, hq, rfl⟩ := Option.map_eq_some_iff.mp hs
    obtain ⟨task, -, rfl⟩ := Option.map_eq_some_iff.mp hq
    exact h.pass (PipelineCompileQueue.step_accounted h.queue hq) (.idle rfl rfl rfl rfl)
  | advanceCall i begin created =>
    obtain ⟨_, hl, rfl⟩ := Option.map_eq_some_iff.mp hs
    obtain ⟨queue, hq, rfl⟩ := Option.map_eq_some_iff.mp hl
    obtain ⟨call, hc, ha⟩ := Option.bind_eq_some_iff.mp hq
    have hpass := PipelineCompileQueue.advance_passes ha
    have hnext := h.pass (PipelineCompileQueue.step_accounted h.queue hq)
      ⟨hpass.accepted, hpass.executed, hpass.pendingJobs, hpass.owned⟩
    rw [hc, Option.bind_some]
    cases hjob : call.job l.compileQueue.shutdown with
    | none =>
      rw [hjob] at hnext
      exact hnext
    | some task =>
      rw [hjob] at hnext
      exact hnext.generate
  | waitAndGet future asked => exact h.wait hs
  | didAcquireSurfaceFrame =>
    simp only [step, Option.ite_none_right_eq_some, Option.some.injEq] at hs
    obtain ⟨-, rfl⟩ := hs
    unfold PipelineLibrary.didAcquireSurfaceFrame
    split
    · split <;> exact h.withCache
    · exact h.withCache
  | readCache answer =>
    simp only [step, Option.ite_none_left_eq_some, Option.some.injEq] at hs
    obtain ⟨-, rfl⟩ := hs
    unfold PipelineLibrary.readCache
    split <;> exact h.withCache
  | finishPersist =>
    simp only [step, Option.ite_none_right_eq_some, Option.some.injEq] at hs
    exact hs.2 ▸ h.withCache
  | release =>
    simp only [step, Option.ite_none_right_eq_some] at hs
    obtain ⟨_, hl, rfl⟩ := Option.map_eq_some_iff.mp hs.2
    obtain ⟨queue, hq, rfl⟩ := Option.map_eq_some_iff.mp hl
    have haccounted := PipelineCompileQueue.step_accounted h.queue hq
    simp only [PipelineCompileQueue.step, Option.ite_none_right_eq_some, Option.some.injEq] at hq
    obtain ⟨-, rfl⟩ := hq
    exact ⟨haccounted, rfl, h.once, h.entries, h.apart, h.tasks, h.built, h.builtOnce, h.pending, h.returned, h.waiting⟩
  | destroyQueue =>
    obtain ⟨queue, hq, rfl⟩ := Option.map_eq_some_iff.mp hs
    have haccounted := PipelineCompileQueue.step_accounted h.queue hq
    simp only [PipelineCompileQueue.step, Option.ite_none_right_eq_some, Option.some.injEq] at hq
    obtain ⟨-, rfl⟩ := hq
    exact h.pass haccounted (.idle rfl rfl rfl rfl)
  | shutdown =>
    obtain rfl := Option.some.inj hs
    have hq : l.compileQueue.step .shutdown = some _ := rfl
    exact h.pass (PipelineCompileQueue.step_accounted h.queue hq) (.idle rfl rfl rfl rfl)

/-- Equal descriptors get one future. -/
def SharesFutures (l : PipelineLibrary) : Prop :=
  ∀ x ∈ l.returned, ∀ y ∈ l.returned, x.1.isEqual y.1 → x.2 = y.2

def BuildsOnce (l : PipelineLibrary) : Prop := l.built.Pairwise fun x y => ¬x.request.isEqual y.request

/-- The runner has run all tasks, and a queue that nothing refers to is destroyed. -/
def Settled (l : PipelineLibrary) : Prop :=
  l.tasks = [] ∧ l.compileQueue.tasks = [] ∧ l.compileQueue.calls = [] ∧
    (l.compileQueue.alive ∨ l.compileQueue.destroyed)

def SetsOnce (l : PipelineLibrary) : Prop :=
  (∀ p ∈ l.promises, p.values.length ≤ 1) ∧ (l.Settled → ∀ p ∈ l.promises, p.values.length = 1)

/-- The future that a thread waits for is set, or its job is not in the compile queue. -/
def WaitsRight (l : PipelineLibrary) (w : Wait) : Prop :=
  ∀ p ∈ l.promises[w.future]?, p.values = [] → ∀ e ∈ l.compileQueue.pendingJobs, e.2.promise ≠ w.future

/-- The descriptor of the future has no constant that is not a number. -/
def EqualsItself (l : PipelineLibrary) (w : Wait) : Prop :=
  ∀ p ∈ l.promises[w.future]?, p.descriptor.isEqual p.descriptor

instance (l : PipelineLibrary) : Decidable l.SharesFutures := inferInstanceAs (Decidable (∀ x ∈ _, _))
instance (l : PipelineLibrary) (w : Wait) : Decidable (l.WaitsRight w) :=
  inferInstanceAs (Decidable (∀ p ∈ l.promises[w.future]?, _))

private theorem InFlight.sharesFutures (h : l.InFlight 0) (hv : l.isValid) : l.SharesFutures := by
  intro x hx y hy hxy
  obtain ⟨d, hd, hdx, hd'⟩ := h.returned hv x hx
  obtain ⟨e, he, hey, he'⟩ := h.returned hv y hy
  have hdy : d.1.isEqual y.1 := by
    rcases hd' with hd' | hd'
    · exact hd' ▸ hxy
    · exact Request.isEqual_trans hd' hxy
  have hde : d.1.isEqual e.1 := by
    rcases he' with he' | he'
    · exact he' ▸ hdy
    · exact Request.isEqual_trans hdy (Request.isEqual_symm he')
  rw [← hdx, ← hey]
  exact h.apart d hd e he hde

private theorem InFlight.buildsOnce (h : l.InFlight 0) : l.BuildsOnce := by
  refine h.builtOnce.imp_of_mem fun hx hy hne heq => hne ?_
  exact h.apart _ (h.built _ hx).1 _ (h.built _ hy).1 heq

private theorem InFlight.setsOnce (h : l.InFlight 0) : l.SetsOnce := by
  refine ⟨fun p hp => ?_, fun hs p hp => ?_⟩
  · obtain ⟨i, hi⟩ := List.mem_iff_getElem?.mp hp
    have := h.once i p hi
    omega
  · obtain ⟨i, hi⟩ := List.mem_iff_getElem?.mp hp
    obtain ⟨htasks, hqtasks, hcalls, hdone⟩ := hs
    have hpending : l.compileQueue.pendingJobs = [] := by
      rcases hdone with halive | hdestroyed
      · have := h.queue.turns halive
        simpa [PipelineCompileQueue.turns, hqtasks, hcalls] using this
      · exact (h.queue.destroyed hdestroyed).2
    have hnone : l.outstanding = 0 := by
      simp [outstanding, PipelineCompileQueue.unexecuted, htasks, hqtasks, hcalls, hpending]
    simpa [hnone] using h.once i p hi

/-- In every run of a valid library equal descriptors get one future; of any library at
most one pipeline is built for a descriptor, each promise is set once, and at the latest
when the runner has run all tasks; and a thread that was given the queue does not wait
for a job that is pending. -/
theorem single_flight {isValid : Bool} {labels : List Label} (hr : (machine isValid).run labels = some l) :
    (l.isValid → l.SharesFutures) ∧ l.BuildsOnce ∧ l.SetsOnce ∧
      ∀ w ∈ l.waiting, w.asked → l.EqualsItself w → l.WaitsRight w := by
  have h : l.InFlight 0 := (machine isValid).invariant (fun _ _ _ h hs => step_inFlight h hs) (inFlight_init isValid) hr
  refine ⟨h.sharesFutures, h.buildsOnce, h.setsOnce, fun w hw ha hself p hp hunset => ?_⟩
  obtain ⟨p', hp', hwait⟩ := h.waiting w hw
  exact hwait ha (hself p' hp')

def blurCompute : Request :=
  .compute { label := "blur", entrypoint := some { parentLibraryId := 0, name := "main", stage := .kCompute, module := 1 } }

/-- Two futures of a render pipeline, one of which is waited for, a compute pipeline, and
a library that is gone before the runner runs a task. -/
def waitedRun : List Label :=
  [.getPipeline plainRequest true, .getPipeline blurCompute true, .getPipeline plainRequest true, .waitAndGet 0 true,
    .advanceCall 0 0 true, .advanceCall 0 0 true, .advanceCall 0 0 true, .release, .runTask 0 true, .runQueueTask 0,
    .advanceCall 0 0 true, .destroyQueue, .advanceCall 0 0 true]

theorem single_flight_waitedRun : ∃ l, (machine true).run waitedRun = some l ∧ l.Settled ∧
    l.promises.map (·.values) = [[some 1], [none]] ∧ l.SetsOnce := by
  have hr : (machine true).run waitedRun = some _ := rfl
  exact ⟨_, hr, ⟨rfl, rfl, rfl, .inr rfl⟩, rfl, (single_flight hr).2.2.1⟩

/-- A thread that was not given the queue. -/
def unaskedRun : List Label := [.getPipeline plainRequest true, .waitAndGet 0 false]

def twiceRun : List Label := [.getPipeline blurCompute false, .getPipeline blurCompute false]

/-- A thread without the queue waits for a job that is pending, and a library that is not
valid gives each call a future of its own. -/
theorem unasked_and_invalid :
    (¬ ∀ l, (machine true).run unaskedRun = some l → ∀ w ∈ l.waiting, l.WaitsRight w) ∧
      ¬ ∀ l, (machine false).run twiceRun = some l → l.SharesFutures := by
  constructor
  · intro h
    exact absurd (h _ rfl) (by decide)
  · intro h
    exact absurd (h _ rfl) (by decide)

end PipelineLibrary
end Ogre.Hal.Descriptors
