import Ogre.Hal.PipelineCreation

/-! Removal of the cached pipelines that use a function. -/
namespace Ogre.Fml
variable {α : Type*} {predicate : α → Option Bool} {l m : List α}

/-- Removes the entries for which the predicate holds, one after the other. There is no result
where the predicate has none. -/
def eraseIf (predicate : α → Option Bool) : List α → Option (List α)
  | [] => some []
  | e :: rest =>
    (predicate e).bind fun erased => (eraseIf predicate rest).map fun rest => if erased then rest else e :: rest

theorem eraseIf_eq_some : eraseIf predicate l = some m ↔
    (∀ e ∈ l, (predicate e).isSome) ∧ m = l.filter fun e => !(predicate e).getD false := by
  induction l generalizing m with
  | nil =>
    rw [eraseIf, List.filter_nil, Option.some.injEq, eq_comm]
    exact (and_iff_right fun e he => absurd he List.not_mem_nil).symm
  | cons e rest ih =>
    rw [eraseIf, List.filter_cons, List.forall_mem_cons]
    cases hp : predicate e with
    | none => simp
    | some erased =>
      rw [Option.bind_some, Option.map_eq_some_iff]
      constructor
      · rintro ⟨kept, hkept, rfl⟩
        obtain ⟨hall, rfl⟩ := ih.mp hkept
        refine ⟨⟨rfl, hall⟩, ?_⟩
        cases erased <;> rfl
      · rintro ⟨⟨-, hall⟩, rfl⟩
        refine ⟨_, ih.mpr ⟨hall, rfl⟩, ?_⟩
        cases erased <;> rfl

end Ogre.Fml

namespace Ogre.Hal.Descriptors
open Ogre.Core Ogre.Fml Ogre.Library

namespace PipelineDescriptor

def getEntrypointForStage (d : PipelineDescriptor) (stage : ShaderStage) : Option ShaderFunction :=
  (d.entrypoints.find? (·.1 = stage)).bind (·.2)

/-- `map[stage] = function` for the map that is in the order of the stages. -/
def insertEntrypoint (function : ShaderFunction) :
    List (ShaderStage × Option ShaderFunction) → List (ShaderStage × Option ShaderFunction)
  | [] => [(function.stage, some function)]
  | e :: rest =>
    if function.stage.ctorIdx < e.1.ctorIdx then (function.stage, some function) :: e :: rest
    else if function.stage = e.1 then (function.stage, some function) :: rest
    else e :: insertEntrypoint function rest

def addStageEntrypoint (d : PipelineDescriptor) (function : Option ShaderFunction) : PipelineDescriptor :=
  match function with
  | none => d
  | some function =>
    if function.stage = .kUnknown then d else { d with entrypoints := insertEntrypoint function d.entrypoints }

/-- Each function is there under its own stage, and there is one for a stage. -/
structure Keyed (d : PipelineDescriptor) : Prop where
  functions : ∀ e ∈ d.entrypoints, ∃ function, e.2 = some function ∧ function.stage = e.1
  sorted : d.entrypoints.Pairwise fun a b => a.1.ctorIdx < b.1.ctorIdx

end PipelineDescriptor

namespace PipelineDescriptor
variable {d : PipelineDescriptor} {function f : ShaderFunction} {stage : ShaderStage}

private theorem ctorIdx_inj {a b : ShaderStage} (h : a.ctorIdx = b.ctorIdx) : a = b := by
  cases a <;> cases b <;> first | rfl | exact absurd h (by decide)

/-- The entries are those of before and the function, and no stage changes its place. -/
private theorem mem_insertEntrypoint {e : ShaderStage × Option ShaderFunction}
    {l : List (ShaderStage × Option ShaderFunction)} (h : e ∈ insertEntrypoint function l) :
    e = (function.stage, some function) ∨ e ∈ l := by
  induction l with
  | nil => exact .inl (List.mem_singleton.mp h)
  | cons first rest ih =>
    rw [insertEntrypoint] at h
    split at h
    · exact List.mem_cons.mp h
    split at h
    · exact (List.mem_cons.mp h).imp_right (List.mem_cons_of_mem _)
    · rcases List.mem_cons.mp h with rfl | h
      · exact .inr List.mem_cons_self
      · exact (ih h).imp_right (List.mem_cons_of_mem _)

private theorem sorted_insertEntrypoint {l : List (ShaderStage × Option ShaderFunction)}
    (h : l.Pairwise fun a b => a.1.ctorIdx < b.1.ctorIdx) :
    (insertEntrypoint function l).Pairwise fun a b => a.1.ctorIdx < b.1.ctorIdx := by
  induction l with
  | nil => exact List.pairwise_singleton _ _
  | cons first rest ih =>
    obtain ⟨hfirst, hrest⟩ := List.pairwise_cons.mp h
    rw [insertEntrypoint]
    split
    next hlt =>
      refine List.pairwise_cons.mpr ⟨fun e he => ?_, h⟩
      rcases List.mem_cons.mp he with rfl | he
      · exact hlt
      · exact hlt.trans (hfirst e he)
    next hge =>
      split
      next heq => exact List.pairwise_cons.mpr ⟨fun e he => heq ▸ hfirst e he, hrest⟩
      next hne =>
        refine List.pairwise_cons.mpr ⟨fun e he => ?_, ih hrest⟩
        rcases mem_insertEntrypoint he with rfl | he
        · have hidx : function.stage.ctorIdx ≠ first.1.ctorIdx := fun hidx => hne (ctorIdx_inj hidx)
          dsimp only
          omega
        · exact hfirst e he

theorem Keyed.addStageEntrypoint (h : d.Keyed) (function : Option ShaderFunction) :
    (d.addStageEntrypoint function).Keyed := by
  cases function with
  | none => exact h
  | some function =>
    rw [PipelineDescriptor.addStageEntrypoint]
    split
    · exact h
    · refine ⟨fun e he => ?_, sorted_insertEntrypoint h.sorted⟩
      rcases mem_insertEntrypoint he with rfl | he
      · exact ⟨function, rfl, rfl⟩
      · exact h.functions e he

private theorem Keyed.unique (h : d.Keyed) {e e' : ShaderStage × Option ShaderFunction} (he : e ∈ d.entrypoints)
    (he' : e' ∈ d.entrypoints) (hstage : e.1 = e'.1) : e = e' := by
  have hnodup : (d.entrypoints.map fun e => e.1.ctorIdx).Nodup :=
    List.pairwise_map.mpr (h.sorted.imp Nat.ne_of_lt)
  exact List.inj_on_of_nodup_map hnodup he he' (congrArg ShaderStage.ctorIdx hstage)

theorem Keyed.getEntrypointForStage_eq_some (h : d.Keyed) :
    d.getEntrypointForStage stage = some f ↔ (stage, some f) ∈ d.entrypoints := by
  rw [getEntrypointForStage, Option.bind_eq_some_iff]
  constructor
  · rintro ⟨e, hfind, hf⟩
    have hstage : e.1 = stage := by simpa using List.find?_some hfind
    rw [← hstage, ← hf]
    exact List.mem_of_find?_eq_some hfind
  · intro he
    have hsome : (d.entrypoints.find? (·.1 = stage)).isSome := List.find?_isSome.mpr ⟨_, he, by simp⟩
    obtain ⟨e, hfind⟩ := Option.isSome_iff_exists.mp hsome
    have hstage : e.1 = stage := by simpa using List.find?_some hfind
    obtain rfl := h.unique (List.mem_of_find?_eq_some hfind) he hstage
    exact ⟨_, hfind, rfl⟩

theorem Keyed.getEntrypointForStage_isSome (h : d.Keyed) :
    (d.getEntrypointForStage stage).isSome ↔ stage ∈ d.entrypoints.map (·.1) := by
  rw [Option.isSome_iff_exists, List.mem_map]
  constructor
  · rintro ⟨f, hf⟩
    exact ⟨_, h.getEntrypointForStage_eq_some.mp hf, rfl⟩
  · rintro ⟨⟨_, g⟩, he, rfl⟩
    obtain ⟨f, hf, -⟩ := h.functions _ he
    obtain rfl : g = some f := hf
    exact ⟨f, h.getEntrypointForStage_eq_some.mpr he⟩

/-- A function can only be the one under its own stage. -/
theorem Keyed.any_isEqual (h : d.Keyed) : (d.entrypoints.any fun e => e.2.any (·.isEqual function)) =
    (d.getEntrypointForStage function.stage).any (·.isEqual function) := by
  rw [Bool.eq_iff_iff, List.any_eq_true, Option.any_eq_true]
  constructor
  · rintro ⟨⟨stage, g⟩, he, hany⟩
    obtain ⟨f, rfl, hequal⟩ := (Option.any_eq_true _ _).mp hany
    obtain ⟨f', hf', hstage⟩ := h.functions _ he
    obtain rfl := Option.some.inj hf'
    refine ⟨f, h.getEntrypointForStage_eq_some.mpr ?_, hequal⟩
    have hsame : f.stage = function.stage := by
      simp only [ShaderFunction.isEqual, Bool.and_eq_true, decide_eq_true_eq] at hequal
      exact hequal.2
    rw [← hsame, hstage]
    exact he
  · rintro ⟨f, hf, hequal⟩
    exact ⟨_, h.getEntrypointForStage_eq_some.mp hf, hequal⟩

end PipelineDescriptor

/-- The pipeline of the request uses the function in some stage. -/
def Request.uses (request : Request) (function : ShaderFunction) : Bool :=
  match request with
  | .render d => d.entrypoints.any fun e => e.2.any (·.isEqual function)
  | .compute d => d.entrypoint.any (·.isEqual function)

def Request.Keyed : Request → Prop
  | .render d => d.Keyed
  | .compute _ => True

namespace PipelineLibrary

/-- The predicate, which dereferences the entry point. The map of compute pipelines is not walked. -/
def hasEntryPoint (function : ShaderFunction) (item : Request × Nat) : Option Bool :=
  match item.1 with
  | .render d => (d.getEntrypointForStage function.stage).map (·.isEqual function)
  | .compute _ => some false

def removePipelinesWithEntryPoint (l : PipelineLibrary) (function : ShaderFunction) : Option PipelineLibrary :=
  (eraseIf (hasEntryPoint function) l.pipelines).map fun pipelines => { l with pipelines }

/-- The steps of the library, and removals. -/
inductive RemovalLabel
  | step (label : Label)
  | removePipelinesWithEntryPoint (function : ShaderFunction)
  deriving DecidableEq, Repr

/-- A removal takes the mutex of the library, and one that dereferences nothing has no step. -/
def removalMachine (isValid : Bool) : Machine PipelineLibrary RemovalLabel where
  init := { isValid }
  step l label := match label with
    | .step label => l.step label
    | .removePipelinesWithEntryPoint function =>
      if l.owned && l.compileQueue.mutexFree then l.removePipelinesWithEntryPoint function else none

/-- Requests come with descriptors whose functions were added with `AddStageEntrypoint`. -/
def RemovalLabel.Keyed : RemovalLabel → Prop
  | .step (.getPipeline request _) => request.Keyed
  | _ => True

/-- The removal has a result, in which no pipeline uses the function. All others are there as they
were, and nothing else has changed. -/
def RemovesExactly (l : PipelineLibrary) (function : ShaderFunction) : Prop :=
  ∃ l', l.removePipelinesWithEntryPoint function = some l' ∧ (∀ e ∈ l'.pipelines, e.1.uses function = false) ∧
    (∀ e ∈ l.pipelines, e.1.uses function = false → e ∈ l'.pipelines) ∧ l'.pipelines.Sublist l.pipelines ∧
    l' = { l with pipelines := l'.pipelines }

/-- Each render pipeline has the stage of the function, and no compute pipeline uses it. -/
def HasStages (l : PipelineLibrary) (function : ShaderFunction) : Prop :=
  ∀ e ∈ l.pipelines, match e.1 with
    | .render d => function.stage ∈ d.entrypoints.map (·.1)
    | .compute d => d.entrypoint.any (·.isEqual function) = false

variable {l l' : PipelineLibrary} {function : ShaderFunction}

/-- A walk over the entry dereferences nothing, and takes it away if its pipeline uses the function. -/
private theorem hasEntryPoint_eq {e : Request × Nat} (hkeyed : e.1.Keyed) :
    (match e.1 with
      | .render d => function.stage ∈ d.entrypoints.map (·.1)
      | .compute d => d.entrypoint.any (·.isEqual function) = false) ↔
    hasEntryPoint function e = some (e.1.uses function) := by
  obtain ⟨request, future⟩ := e
  cases request with
  | render d =>
    have hd : d.Keyed := hkeyed
    dsimp only
    rw [hasEntryPoint, Request.uses, hd.any_isEqual, ← hd.getEntrypointForStage_isSome]
    dsimp only
    generalize d.getEntrypointForStage function.stage = found
    cases found <;> simp
  | compute d =>
    dsimp only
    rw [hasEntryPoint, Request.uses, Option.some.injEq, eq_comm]

/-- Where descriptors are keyed, exactly the libraries with all stages are cleared exactly. -/
private theorem removesExactly_of_keyed (hkeyed : ∀ e ∈ l.pipelines, e.1.Keyed) :
    l.RemovesExactly function ↔ l.HasStages function := by
  constructor
  · rintro ⟨l', hl', hgone, -, -, -⟩ ⟨request, future⟩ he
    obtain ⟨kept, hkept, rfl⟩ := Option.map_eq_some_iff.mp hl'
    obtain ⟨hsome, rfl⟩ := eraseIf_eq_some.mp hkept
    cases request with
    | render d =>
      have hd : d.Keyed := hkeyed _ he
      have hfound := hsome _ he
      rw [hasEntryPoint, Option.isSome_map] at hfound
      exact hd.getEntrypointForStage_isSome.mp hfound
    | compute d => exact hgone (.compute d, future) (List.mem_filter.mpr ⟨he, rfl⟩)
  · intro h
    have hwalk (e : Request × Nat) (he : e ∈ l.pipelines) : hasEntryPoint function e = some (e.1.uses function) :=
      (hasEntryPoint_eq (hkeyed e he)).mp (h e he)
    have herase : eraseIf (hasEntryPoint function) l.pipelines =
        some (l.pipelines.filter fun e => !(hasEntryPoint function e).getD false) :=
      eraseIf_eq_some.mpr ⟨fun e he => by rw [hwalk e he]; rfl, rfl⟩
    refine ⟨_, Option.map_eq_some_iff.mpr ⟨_, herase, rfl⟩, ?_, ?_, List.filter_sublist, rfl⟩
    · intro e he
      obtain ⟨hmem, hkept⟩ := List.mem_filter.mp he
      rw [hwalk e hmem] at hkept
      simpa using hkept
    · intro e he huses
      refine List.mem_filter.mpr ⟨he, ?_⟩
      rw [hwalk e he, huses]
      rfl

private theorem pipelines_withQueue {label : PipelineCompileQueue.Label GenerationTask}
    (h : l.withQueue label = some l') : l'.pipelines = l.pipelines := by
  obtain ⟨queue, -, rfl⟩ := Option.map_eq_some_iff.mp h
  rfl

private theorem pipelines_generate (l : PipelineLibrary) (task : GenerationTask) (created : Bool) :
    (l.generate task created).pipelines = l.pipelines := by
  unfold generate
  split <;> rfl

private theorem pipelines_waitAndGet {future : Nat} {queue : Bool} (h : l.waitAndGet future queue = some l') :
    l'.pipelines = l.pipelines := by
  obtain ⟨promise, -, h⟩ := Option.bind_eq_some_iff.mp h
  split at h
  · cases h
  · split at h
    · split at h
      · obtain rfl := Option.some.inj h
        rfl
      · cases h
    · obtain rfl := Option.some.inj h
      rfl

private theorem mem_getPipeline {request : Request} {async : Bool} {e : Request × Nat}
    (he : e ∈ (l.getPipeline request async).pipelines) : e ∈ l.pipelines ∨ e.1 = request := by
  have hadd (l : PipelineLibrary) (task : GenerationTask) : (l.addTask task async).pipelines = l.pipelines := by
    unfold addTask
    split
    · split <;> rfl
    · rfl
  unfold getPipeline at he
  split at he
  · exact .inl he
  split at he
  · rw [hadd] at he
    rcases List.mem_append.mp he with he | he
    · exact .inl he
    · exact .inr (congrArg Prod.fst (List.mem_singleton.mp he))
  · exact .inl he

/-- A step leaves the cache alone, or enters the request of a `GetPipeline`. -/
private theorem mem_step {label : Label} {e : Request × Nat} (hs : l.step label = some l') (he : e ∈ l'.pipelines) :
    e ∈ l.pipelines ∨ ∃ async, label = .getPipeline e.1 async := by
  have hkept (h : l'.pipelines = l.pipelines) : e ∈ l.pipelines ∨ ∃ async, label = .getPipeline e.1 async :=
    .inl (h ▸ he)
  cases label with
  | getPipeline request async =>
    simp only [step, Option.ite_none_right_eq_some, Option.some.injEq] at hs
    obtain ⟨-, rfl⟩ := hs
    refine (mem_getPipeline he).imp_right fun hrequest => ⟨async, ?_⟩
    rw [hrequest]
  | runTask i created =>
    obtain ⟨task, -, rfl⟩ := Option.map_eq_some_iff.mp hs
    exact hkept (pipelines_generate _ _ _)
  | runQueueTask i => exact hkept (pipelines_withQueue hs)
  | advanceCall i begin created =>
    obtain ⟨next, hnext, rfl⟩ := Option.map_eq_some_iff.mp hs
    apply hkept
    rw [← pipelines_withQueue hnext]
    cases l.compileQueue.calls[i]?.bind (·.job l.compileQueue.shutdown) with
    | none => rfl
    | some task => exact pipelines_generate _ _ _
  | waitAndGet future queue => exact hkept (pipelines_waitAndGet hs)
  | didAcquireSurfaceFrame =>
    simp only [step, Option.ite_none_right_eq_some, Option.some.injEq] at hs
    obtain ⟨-, rfl⟩ := hs
    apply hkept
    unfold PipelineLibrary.didAcquireSurfaceFrame
    split
    · split <;> rfl
    · rfl
  | readCache answer =>
    simp only [step, Option.ite_none_left_eq_some, Option.some.injEq] at hs
    obtain ⟨-, rfl⟩ := hs
    apply hkept
    unfold PipelineLibrary.readCache
    split <;> rfl
  | finishPersist =>
    simp only [step, Option.ite_none_right_eq_some, Option.some.injEq] at hs
    exact hkept (hs.2 ▸ rfl)
  | release =>
    simp only [step, Option.ite_none_right_eq_some] at hs
    obtain ⟨next, hnext, rfl⟩ := Option.map_eq_some_iff.mp hs.2
    have hpipelines := pipelines_withQueue hnext
    exact hkept hpipelines
  | destroyQueue => exact hkept (pipelines_withQueue hs)
  | shutdown => exact hkept (pipelines_withQueue hs)

private theorem keyed_step {isValid : Bool} {label : RemovalLabel} (hlabel : label.Keyed)
    (h : ∀ e ∈ l.pipelines, e.1.Keyed) (hs : (removalMachine isValid).step l label = some l') :
    ∀ e ∈ l'.pipelines, e.1.Keyed := by
  intro e he
  cases label with
  | step label =>
    rcases mem_step hs he with he | ⟨async, rfl⟩
    · exact h e he
    · exact hlabel
  | removePipelinesWithEntryPoint function =>
    simp only [removalMachine, Option.ite_none_right_eq_some] at hs
    obtain ⟨kept, hkept, rfl⟩ := Option.map_eq_some_iff.mp hs.2
    obtain ⟨-, rfl⟩ := eraseIf_eq_some.mp hkept
    exact h e (List.mem_of_mem_filter he)

/-- In every library that is reached, the removal is exact if and only if all stages are there and
no compute pipeline uses the function. -/
theorem removesExactly_iff (isValid : Bool) (labels : List RemovalLabel) (function : ShaderFunction)
    (hlabels : ∀ label ∈ labels, label.Keyed) (hr : (removalMachine isValid).run labels = some l) :
    l.RemovesExactly function ↔ l.HasStages function := by
  apply removesExactly_of_keyed
  have halong : (removalMachine isValid).Along (fun _ label _ => label.Keyed) (removalMachine isValid).init labels :=
    Machine.along_of_forall fun label hl _ _ => hlabels label hl
  refine Machine.invariant_along (I := fun l => ∀ e ∈ l.pipelines, e.1.Keyed) ?_ ?_ halong hr
  · intro l label l' h hlabel hs
    exact keyed_step hlabel h hs
  · intro e he
    cases he

private def vertexMain : ShaderFunction := ⟨0, "main", .kVertex, 0⟩

private def blurMain : ShaderFunction := ⟨0, "blur", .kCompute, 1⟩

private def vertexOnly : Request :=
  .render (({ label := "quad" } : PipelineDescriptor).addStageEntrypoint (some vertexMain))

private def blur : Request := .compute { label := "blur", entrypoint := some blurMain }

private theorem keyed_vertexOnly : vertexOnly.Keyed := by
  apply PipelineDescriptor.Keyed.addStageEntrypoint
  exact ⟨fun e he => absurd he List.not_mem_nil, List.Pairwise.nil⟩

/-- The one pipeline is removed that uses the function. -/
theorem removesExactly_vertex : ∃ l, (removalMachine true).run [.step (.getPipeline vertexOnly false)] = some l ∧
    l.RemovesExactly vertexMain := by
  refine ⟨_, rfl, (removesExactly_iff true [.step (.getPipeline vertexOnly false)] vertexMain ?_ rfl).mpr ?_⟩
  · intro label hlabel
    obtain rfl := List.mem_singleton.mp hlabel
    exact keyed_vertexOnly
  · intro e he
    obtain rfl := List.mem_singleton.mp he
    exact List.mem_singleton_self _

/-- A compute pipeline stays, and a render pipeline without the stage is dereferenced. -/
theorem removesExactly_compute :
    (∃ l, (removalMachine true).run [.step (.getPipeline blur false)] = some l ∧ ¬ l.RemovesExactly blurMain) ∧
    (∃ l, (removalMachine true).run [.step (.getPipeline vertexOnly false)] = some l ∧
      l.removePipelinesWithEntryPoint blurMain = none) := by
  refine ⟨⟨_, rfl, ?_⟩, _, rfl, rfl⟩
  rintro ⟨l', hl', hgone, -⟩
  obtain rfl := Option.some.inj hl'
  exact absurd (hgone _ List.mem_cons_self) (by decide)

end PipelineLibrary
end Ogre.Hal.Descriptors
