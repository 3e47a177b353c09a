import Ogre.Hal.PipelineSingleFlight

/-! What the last persist of the pipeline cache has read. -/
namespace Ogre.Hal.Descriptors
open Ogre.Library PipelineMaps

namespace PipelineLibrary
variable {l l' : PipelineLibrary} {task : GenerationTask}

/-- Where the cache is clean and nothing persists it, every pipeline was in what was read last. -/
def Persisted (l : PipelineLibrary) : Prop :=
  l.cacheDirty = false → l.persistTasks = 0 → l.persisting = false → ∀ task ∈ l.built, task ∈ l.persisted

/-- The task that a step calls. -/
def called (l : PipelineLibrary) : Label → Option (GenerationTask × Bool)
  | .runTask i created => l.tasks[i]?.map fun task => (task, created)
  | .advanceCall i _ created =>
    (l.compileQueue.calls[i]?.bind (·.job l.compileQueue.shutdown)).map fun task => (task, created)
  | _ => none

/-- What a persist gets in the step. -/
def Label.answer : Label → Option CacheAnswer
  | .readCache answer => some answer
  | _ => none

/-- A persist finds the library and gets all of the data, or it reads nothing where all
pipelines that were created have been read before. -/
def ReadsAll (l : PipelineLibrary) (answer : CacheAnswer) : Prop :=
  (l.owned ∧ answer = .complete) ∨ (l.cacheData answer = none ∧ ∀ task ∈ l.built, task ∈ l.persisted)

/-- A pipeline is created while the cache is dirty or a persist has not read it yet, and a persist
after which neither is so reads all that there is. -/
def CreatesInTime (l : PipelineLibrary) (label : Label) (_ : PipelineLibrary) : Prop :=
  (∀ c ∈ l.called label, l.creates c.1 c.2 → l.cacheDirty ∨ 0 < l.persistTasks) ∧
    ∀ answer ∈ label.answer, l.cacheDirty ∨ 1 < l.persistTasks ∨ l.ReadsAll answer

/-- What the next persist has to read is still to be read. -/
structure InTime (l : PipelineLibrary) : Prop where
  inFlight : l.InFlight 0
  invalid : l.isValid = false → l.pipelines = []
  read : l.cacheDirty = false → l.persistTasks = 0 → ∀ task ∈ l.built, task ∈ l.persisted

/-- The library but for what `Persisted` and the entries depend on. -/
structure SameCache (l l' : PipelineLibrary) : Prop where
  isValid : l'.isValid = l.isValid
  pipelines : l'.pipelines = l.pipelines
  dirty : l'.cacheDirty = l.cacheDirty
  persistTasks : l'.persistTasks = l.persistTasks
  built : l'.built = l.built
  persisted : l'.persisted = l.persisted

theorem inTime_init (isValid : Bool) : InTime { isValid } := ⟨inFlight_init isValid, fun _ => rfl, by simp⟩

private theorem InTime.same (h : l.InTime) (hl : l'.InFlight 0) (hs : SameCache l l') : l'.InTime where
  inFlight := hl
  invalid := by
    rw [hs.isValid, hs.pipelines]
    exact h.invalid
  read := by
    rw [hs.dirty, hs.persistTasks, hs.built, hs.persisted]
    exact h.read

private theorem inTime_generate {created : Bool} (hl : (l.generate task created).InFlight 0)
    (hi : l.isValid = false → l.pipelines = [])
    (hr : l.cacheDirty = false → l.persistTasks = 0 → ∀ task ∈ l.built, task ∈ l.persisted)
    (hc : l.creates task created → l.cacheDirty ∨ 0 < l.persistTasks) : (l.generate task created).InTime := by
  unfold PipelineLibrary.generate at hl ⊢
  split at hl
  next hcreates =>
    rw [if_pos hcreates]
    refine ⟨hl, hi, fun hd hp => ?_⟩
    rcases hc hcreates with hdirty | hpos
    · simp [setValue, hdirty] at hd
    · exact absurd hp (Nat.ne_of_gt hpos)
  next hcreates =>
    rw [if_neg hcreates]
    exact ⟨hl, hi, hr⟩

private theorem addTask_cache {async : Bool} :
    (l.addTask task async).isValid = l.isValid ∧ (l.addTask task async).cacheDirty = l.cacheDirty := by
  unfold addTask
  split
  · split <;> exact ⟨rfl, rfl⟩
  · exact ⟨rfl, rfl⟩

private theorem InTime.getPipeline {request : Request} {async : Bool} (h : l.InTime) (ho : l.owned) :
    (l.getPipeline request async).InTime := by
  have hl : (l.getPipeline request async).InFlight 0 := h.inFlight.getPipeline ho
  unfold PipelineLibrary.getPipeline at hl ⊢
  split at hl
  next found hfind => exact h.same hl ⟨rfl, rfl, rfl, rfl, rfl, rfl⟩
  next hnone =>
    split at hl
    next hv =>
      rw [if_pos hv]
      refine ⟨hl, fun hinvalid => ?_, fun hclean => ?_⟩
      · rw [addTask_cache.1] at hinvalid
        exact absurd hv (Bool.eq_false_iff.mp hinvalid)
      · rw [addTask_cache.2] at hclean
        simp [PipelineLibrary.addEntry, addPromise] at hclean
    next hv =>
      rw [if_neg hv]
      refine ⟨hl, h.invalid, fun hclean => ?_⟩
      simp [addPromise] at hclean

/-- A library that is not valid has no pipelines. -/
private theorem InTime.built_nil (h : l.InTime) (hv : l.isValid = false) : l.built = [] := by
  refine List.eq_nil_iff_forall_not_mem.mpr fun task ht => ?_
  have hentry := (h.inFlight.built task ht).1
  simp [h.invalid hv] at hentry

/-- A persist that gets nothing, of a library that is there and whose data would be complete, is one of
a library that is not valid. -/
private theorem InTime.readCache {answer : CacheAnswer} (h : l.InTime) (hl : (l.readCache answer).InFlight 0)
    (hc : l.cacheDirty ∨ 1 < l.persistTasks ∨ l.ReadsAll answer) : (l.readCache answer).InTime := by
  unfold PipelineLibrary.readCache at hl ⊢
  split at hl
  next hdata =>
    refine ⟨hl, h.invalid, fun hclean hnone => ?_⟩
    rcases hc with hdirty | hmore | ⟨howned, rfl⟩ | ⟨-, hread⟩
    · exact absurd hdirty (Bool.eq_false_iff.mp hclean)
    · exact absurd hnone (Nat.sub_ne_zero_of_lt hmore)
    · have hinvalid : l.isValid = false := by simpa [cacheData, CacheAnswer.data, howned] using hdata
      simp [h.built_nil hinvalid]
    · exact hread
  next data hdata =>
    refine ⟨hl, h.invalid, fun hclean hnone => ?_⟩
    rcases hc with hdirty | hmore | ⟨-, rfl⟩ | ⟨hnothing, -⟩
    · exact absurd hdirty (Bool.eq_false_iff.mp hclean)
    · exact absurd hnone (Nat.sub_ne_zero_of_lt hmore)
    · have hall : l.built = data := by
        simp only [cacheData, CacheAnswer.data, Option.ite_none_right_eq_some, Option.some.injEq] at hdata
        exact hdata.2
      exact fun task ht => hall ▸ ht
    · rw [hdata] at hnothing
      cases hnothing

private theorem waitAndGet_cache {future : Nat} {asked : Bool} (hs : l.waitAndGet future asked = some l') :
    SameCache l l' := by
  obtain ⟨p, -, hs⟩ := Option.bind_eq_some_iff.mp hs
  cases hd : p.descriptor with
  | compute descriptor => simp [hd] at hs
  | render descriptor =>
    simp only [hd] at hs
    split at hs
    · simp only [Option.ite_none_right_eq_some, Option.some.injEq] at hs
      exact hs.2 ▸ ⟨rfl, rfl, rfl, rfl, rfl, rfl⟩
    · exact Option.some.inj hs ▸ ⟨rfl, rfl, rfl, rfl, rfl, rfl⟩

theorem step_inTime {label : Label} (h : l.InTime) (hc : l.CreatesInTime label l') (hs : l.step label = some l') :
    l'.InTime := by
  have hl := step_inFlight h.inFlight hs
  cases label with
  | getPipeline request async =>
    simp only [step, Option.ite_none_right_eq_some, Option.some.injEq, Bool.and_eq_true] at hs
    exact hs.2 ▸ h.getPipeline hs.1.1
  | runTask i created =>
    obtain ⟨task, ht, rfl⟩ := Option.map_eq_some_iff.mp hs
    exact inTime_generate hl h.invalid h.read (hc.1 (task, created) (by simp [called, ht]))
  | runQueueTask i =>
    obtain ⟨queue, -, rfl⟩ := Option.map_eq_some_iff.mp hs
    exact h.same hl ⟨rfl, rfl, rfl, rfl, rfl, rfl⟩
  | advanceCall i begin created =>
    obtain ⟨_, hq, rfl⟩ := Option.map_eq_some_iff.mp hs
    obtain ⟨queue, -, rfl⟩ := Option.map_eq_some_iff.mp hq
    cases hjob : l.compileQueue.calls[i]?.bind (·.job l.compileQueue.shutdown) with
    | none =>
      rw [hjob] at hl
      exact h.same hl ⟨rfl, rfl, rfl, rfl, rfl, rfl⟩
    | some task =>
      rw [hjob] at hl
      exact inTime_generate hl h.invalid h.read (hc.1 (task, created) (by simp [called, hjob]))
  | waitAndGet future asked => exact h.same hl (waitAndGet_cache hs)
  | didAcquireSurfaceFrame =>
    simp only [step, Option.ite_none_right_eq_some, Option.some.injEq] at hs
    obtain ⟨-, rfl⟩ := hs
    refine ⟨hl, ?_, ?_⟩
    · unfold PipelineLibrary.didAcquireSurfaceFrame
      split
      · split <;> exact h.invalid
      · exact h.invalid
    · unfold PipelineLibrary.didAcquireSurfaceFrame
      split
      · split
        · intro _ hp
          simp at hp
        · exact h.read
      · exact h.read
  | readCache answer =>
    simp only [step, Option.ite_none_left_eq_some, Option.some.injEq] at hs
    obtain ⟨-, rfl⟩ := hs
    exact h.readCache hl (hc.2 answer rfl)
  | finishPersist =>
    simp only [step, Option.ite_none_right_eq_some, Option.some.injEq] at hs
    obtain ⟨-, rfl⟩ := hs
    exact h.same hl ⟨rfl, rfl, rfl, rfl, rfl, rfl⟩
  | release =>
    simp only [step, Option.ite_none_right_eq_some] at hs
    obtain ⟨_, hq, rfl⟩ := Option.map_eq_some_iff.mp hs.2
    obtain ⟨queue, -, rfl⟩ := Option.map_eq_some_iff.mp hq
    exact h.same hl ⟨rfl, rfl, rfl, rfl, rfl, rfl⟩
  | destroyQueue =>
    obtain ⟨queue, -, rfl⟩ := Option.map_eq_some_iff.mp hs
    exact h.same hl ⟨rfl, rfl, rfl, rfl, rfl, rfl⟩
  | shutdown =>
    obtain rfl := Option.some.inj hs
    exact h.same hl ⟨rfl, rfl, rfl, rfl, rfl, rfl⟩

/-- In a run that creates its pipelines in time, every state has what `Persisted` says. -/
theorem persisted_of_createsInTime {isValid : Bool} {labels : List Label}
    (hc : (machine isValid).Along CreatesInTime (machine isValid).init labels) :
    (machine isValid).Along (fun _ _ l => l.Persisted) (machine isValid).init labels :=
  (machine isValid).along_of_invariant (I := InTime) (fun _ _ _ h hc hs =>
    have ht := step_inTime h hc hs
    ⟨fun hd hp _ => ht.read hd hp, ht⟩) (inTime_init isValid) hc

instance (l : PipelineLibrary) (answer : CacheAnswer) : Decidable (l.ReadsAll answer) :=
  inferInstanceAs (Decidable (_ ∨ _))

instance (l l' : PipelineLibrary) (label : Label) : Decidable (l.CreatesInTime label l') :=
  inferInstanceAs (Decidable (_ ∧ _))

instance (l : PipelineLibrary) : Decidable l.Persisted := inferInstanceAs (Decidable (_ → _))

/-- A pipeline is created, and the cache is persisted after fifty frames. -/
def createdRun : List Label :=
  [.getPipeline plainRequest true, .advanceCall 0 0 true, .runQueueTask 0, .advanceCall 0 0 true, .advanceCall 0 0 true,
    .advanceCall 0 0 true] ++ List.replicate 50 .didAcquireSurfaceFrame ++ [.readCache .complete, .finishPersist]

theorem persisted_createdRun : (machine true).Along (fun _ _ l => l.Persisted) (machine true).init createdRun :=
  persisted_of_createsInTime (by decide +kernel)

/-- The cache is persisted before the pipeline that was asked for is created. -/
def overtakenRun : List Label :=
  [.getPipeline plainRequest true, .advanceCall 0 0 true] ++ List.replicate 50 .didAcquireSurfaceFrame ++
    [.readCache .complete, .finishPersist, .runQueueTask 0, .advanceCall 0 0 true, .advanceCall 0 0 true,
      .advanceCall 0 0 true]

theorem pipeline_not_persisted :
    ¬ ∀ labels, (machine true).Along (fun _ _ l => l.Persisted) (machine true).init labels :=
  fun h => absurd (h overtakenRun) (by decide +kernel)

end PipelineLibrary
end Ogre.Hal.Descriptors
