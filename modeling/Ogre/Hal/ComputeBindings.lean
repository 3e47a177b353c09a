import Ogre.Hal.PassCommands

/-! The pipeline, the layout and the descriptor set that the dispatches of a compute pass run with. -/
namespace Ogre.Hal.ComputePass
open Ogre.Core Ogre.Fml Ogre.Library

def isDispatch : Command → Bool
  | .dispatch .. => true
  | _ => false

def pipelineOf : Command → Option Nat
  | .bindPipeline pipeline => some pipeline
  | _ => none

/-- The pipeline that is bound once all is executed that a command buffer has so far. -/
def boundPipeline (recorded : List Recorded) (commandBuffer : Nat) : Option Nat :=
  ((recorded.filter (·.commandBuffer = commandBuffer)).filterMap (pipelineOf ·.command)).getLast?

def setsOf : Command → Option (Option Nat × Option Nat)
  | .bindDescriptorSets layout descriptorSet _ => some (layout, descriptorSet)
  | _ => none

/-- The layout and the descriptor set that are bound then. -/
def boundSets (recorded : List Recorded) (commandBuffer : Nat) : Option (Option Nat × Option Nat) :=
  ((recorded.filter (·.commandBuffer = commandBuffer)).filterMap (setsOf ·.command)).getLast?

/-- What a `SetPipeline` binds and allocates stands under the number of the call, so that calls
with one pipeline are told apart. -/
def Call.named (number : Nat) : Call → Call
  | .setPipeline _ descriptorSet => .setPipeline number descriptorSet
  | call => call

/-- The calls on a pass, of which `calls` are `SetPipeline`s, and whether the last of them succeeded. -/
structure PipelineRun where
  run : PassRun ComputePass
  calls : Nat := 0
  succeeded : Bool := false

namespace PipelineRun

def step (debug : Bool) (s : PipelineRun) (call : Call) : Option PipelineRun :=
  (ComputePass.step debug s.run (call.named s.calls)).map fun run => match call with
    | .setPipeline _ descriptorSet => ⟨run, s.calls + 1, descriptorSet⟩
    | _ => { s with run }

/-- A new pass, whose command buffer may hold commands already. -/
def machine (debug : Bool) (commandBuffer : Nat) (maxWorkgroupSize : Int × Int) (recorder : Recorder) :
    Machine PipelineRun Call where
  init := ⟨(callMachine debug commandBuffer maxWorkgroupSize recorder).init, 0, false⟩
  step := step debug

/-- What is recorded from `s` to `t`. -/
def recordedSince (s t : PipelineRun) : List Recorded := t.run.recorder.recorded.drop s.run.recorder.recorded.length

/-- A dispatch that is recorded runs with what the last `SetPipeline` has set, which succeeded: with its
pipeline, its layout and its descriptor set. -/
def UsesLatest (s : PipelineRun) (_ : Call) (t : PipelineRun) : Prop :=
  ∀ before r after, s.recordedSince t = before ++ r :: after → isDispatch r.command → ∃ number,
    s.calls = number + 1 ∧ s.succeeded = true ∧
    boundPipeline (s.run.recorder.recorded ++ before) r.commandBuffer = some number ∧
    boundSets (s.run.recorder.recorded ++ before) r.commandBuffer = some (some number, some number)

/-- No `SetPipeline` fails after one that is yet to be used. -/
def FailsUnset (s : PipelineRun) (call : Call) (_ : PipelineRun) : Prop :=
  ∀ pipeline, call = .setPipeline pipeline false → s.run.pass.pipelineValid = false

/-- What is bound and laid out is of the last `SetPipeline`, and so is the descriptor set of a pass
that is valid. -/
structure Latest (s : PipelineRun) : Prop where
  bound : ∀ number, s.calls = number + 1 →
    boundPipeline s.run.recorder.recorded s.run.pass.commandBuffer = some number ∧
    s.run.pass.pipelineLayout = some number
  valid : s.run.pass.pipelineValid = true → ∃ number, s.calls = number + 1 ∧ s.succeeded = true ∧
    s.run.pass.descriptorSet = some number

/-- A call that sets no pipeline. A dispatch that it records comes after a bind of what the pass has. -/
structure Keeps (s t : PassRun ComputePass) (added : List Recorded) : Prop where
  commandBuffer : t.pass.commandBuffer = s.pass.commandBuffer
  pipelineLayout : t.pass.pipelineLayout = s.pass.pipelineLayout
  descriptorSet : t.pass.descriptorSet = s.pass.descriptorSet
  pipelineValid : t.pass.pipelineValid = true → s.pass.pipelineValid = true
  recorded : t.recorder.recorded = s.recorder.recorded ++ added
  binds : ∀ r ∈ added, pipelineOf r.command = none
  dispatches : ∀ before r after, added = before ++ r :: after → isDispatch r.command →
    r.commandBuffer = s.pass.commandBuffer ∧ s.pass.pipelineValid = true ∧
      boundSets before s.pass.commandBuffer = some (s.pass.pipelineLayout, s.pass.descriptorSet)

variable {s t : PipelineRun} {run next : PassRun ComputePass} {call : Call} {debug : Bool}

private theorem boundPipeline_append {recorded added : List Recorded} {commandBuffer : Nat}
    (h : ∀ r ∈ added, pipelineOf r.command = none) :
    boundPipeline (recorded ++ added) commandBuffer = boundPipeline recorded commandBuffer := by
  have hnone : (added.filter (·.commandBuffer = commandBuffer)).filterMap (pipelineOf ·.command) = [] := by
    rw [List.filterMap_eq_nil_iff]
    intro r hr
    exact h r (List.mem_of_mem_filter hr)
  rw [boundPipeline, List.filter_append, List.filterMap_append, hnone, List.append_nil]
  rfl

private theorem boundSets_append {recorded added : List Recorded} {commandBuffer : Nat}
    {bound : Option Nat × Option Nat} (h : boundSets added commandBuffer = some bound) :
    boundSets (recorded ++ added) commandBuffer = some bound := by
  have hlast := h
  rw [boundSets] at hlast
  rw [boundSets, List.filter_append, List.filterMap_append, List.getLast?_append, hlast]
  rfl

/-- A call that leaves the pass and the commands alone, but for the workspace. -/
private theorem Keeps.of_eq (hpass : next.pass = { run.pass with workspace := next.pass.workspace })
    (hrecorded : next.recorder.recorded = run.recorder.recorded) : Keeps run next [] := by
  refine ⟨?_, ?_, ?_, ?_, by rw [hrecorded, List.append_nil], by simp, by simp⟩ <;> rw [hpass]
  exact id

private theorem keeps_setCommandLabel (debug : Bool) : Keeps run (run.setCommandLabel debug) [] := by
  apply Keeps.of_eq
  · simp only [PassRun.setCommandLabel_pass]
  · cases debug <;> rfl

private theorem keeps_memoryBarrier : Keeps run (run.call (run.pass, run.recorder.record run.pass.commandBuffer
    .memoryBarrier)) [⟨run.pass.commandBuffer, .memoryBarrier, run.recorder.tracked run.pass.commandBuffer⟩] := by
  refine ⟨rfl, rfl, rfl, id, rfl, ?_, ?_⟩
  · simp [pipelineOf]
  · intro before r after hadded hdispatch
    have hr : r ∈ before ++ r :: after := List.mem_append_right _ List.mem_cons_self
    rw [← hadded, List.mem_singleton] at hr
    rw [hr] at hdispatch
    cases hdispatch

private theorem recorded_trackView {recorder : Recorder} {commandBuffer : Nat} {view : BufferView} :
    (recorder.trackView commandBuffer view).recorded = recorder.recorded := by
  unfold Recorder.trackView
  split <;> rfl

private theorem keeps_bindBuffer (binding : Nat) (type : DescriptorType) (view : BufferView) :
    Keeps run (run.callBool (run.pass.bindBuffer run.recorder binding type view)) [] := by
  unfold bindBuffer
  split
  · exact Keeps.of_eq rfl rfl
  split
  · exact Keeps.of_eq rfl rfl
  · exact Keeps.of_eq rfl recorded_trackView

private theorem keeps_bindTexture (binding : Nat) (type : DescriptorType) (texture : Option Nat) (sampler : Bool) :
    Keeps run (run.callBool (run.pass.bindTexture run.recorder binding type texture sampler)) [] := by
  unfold bindTexture
  split
  · exact Keeps.of_eq rfl rfl
  · split <;> exact Keeps.of_eq rfl rfl

private theorem pair_eq_append {first second r : Recorded} {before after : List Recorded}
    (h : [first, second] = before ++ r :: after) : (before = [] ∧ r = first) ∨ (before = [first] ∧ r = second) := by
  rcases before with _ | ⟨x, _ | ⟨y, before⟩⟩
  · exact .inl ⟨rfl, (List.cons.inj h).1.symm⟩
  · obtain ⟨hfirst, hrest⟩ := List.cons.inj h
    exact .inr ⟨by rw [hfirst], (List.cons.inj hrest).1.symm⟩
  · simp at h

/-- What a `Compute` records, which is a bind and a dispatch unless something stops it. -/
private theorem compute_recorded (p : ComputePass) (recorder : Recorder) (gridSize : Geometry.ISize) : ∃ added,
    (p.compute recorder gridSize).2.2.recorded = recorder.recorded ++ added ∧
    (∀ r ∈ added, pipelineOf r.command = none) ∧
    (∀ before r after, added = before ++ r :: after → isDispatch r.command →
      r.commandBuffer = p.commandBuffer ∧
        boundSets before p.commandBuffer = some (p.pipelineLayout, p.descriptorSet)) ∧
    ((∃ r ∈ added, isDispatch r.command) ↔ p.dispatches gridSize) := by
  have hcode : (p.compute recorder gridSize).1.code = .kOk ↔ p.dispatches gridSize := compute_code
  rw [← hcode]
  unfold compute
  split
  · exact ⟨[], (List.append_nil _).symm, by simp, by simp, by simp⟩
  · refine ⟨_, List.append_assoc _ _ _, ?_, ?_, iff_of_true ?_ rfl⟩
    · intro r hr
      simp only [List.singleton_append, List.mem_cons, List.not_mem_nil, or_false] at hr
      rcases hr with rfl | rfl
      · rfl
      · dsimp only
        split <;> rfl
    · intro before r after hadded hdispatch
      rcases pair_eq_append hadded with ⟨-, rfl⟩ | ⟨rfl, rfl⟩
      · cases hdispatch
      · refine ⟨rfl, ?_⟩
        simp [boundSets, setsOf]
    · refine ⟨_, List.mem_append_right _ (List.mem_singleton_self _), ?_⟩
      dsimp only
      split <;> rfl

private theorem keeps_compute (run : PassRun ComputePass) (debug : Bool) (gridSize : Geometry.ISize) :
    ∃ added, Keeps run (computeCall run debug gridSize) added ∧
      ((∃ r ∈ added, isDispatch r.command) ↔ run.pass.dispatches gridSize) := by
  obtain ⟨added, hrecorded, hbinds, hbound, hdispatch⟩ := compute_recorded run.pass run.recorder gridSize
  have hpass : (run.pass.compute run.recorder gridSize).2.1 = { run.pass with workspace := {}, pipelineValid := false } :=
    compute_pass
  have hvalid : run.pass.dispatches gridSize → run.pass.pipelineValid = true := by
    intro h
    simp only [dispatches, Bool.and_eq_true] at h
    exact h.2
  have hcall : (computeCall run debug gridSize).pass = (run.pass.compute run.recorder gridSize).2.1 ∧
      (computeCall run debug gridSize).recorder = (run.pass.compute run.recorder gridSize).2.2 := by
    unfold computeCall
    dsimp only
    split
    · exact ⟨rfl, rfl⟩
    · exact ⟨PassRun.popDebugGroup_pass _ _, PassRun.popDebugGroup_recorder _ _⟩
  refine ⟨added, ⟨?_, ?_, ?_, ?_, ?_, hbinds, fun before r after hadded h => ?_⟩, hdispatch⟩
  · rw [hcall.1, hpass]
  · rw [hcall.1, hpass]
  · rw [hcall.1, hpass]
  · rw [hcall.1, hpass]
    intro h
    cases h
  · rw [hcall.2, hrecorded]
  · obtain ⟨hbuffer, hsets⟩ := hbound before r after hadded h
    have hr : r ∈ added := hadded ▸ List.mem_append_right _ List.mem_cons_self
    exact ⟨hbuffer, hvalid (hdispatch.mp ⟨r, hr, h⟩), hsets⟩

/-- A call sets a pipeline, or keeps what was set. -/
private theorem step_cases (h : step debug s call = some t) :
    (∃ pipeline descriptorSet, call = .setPipeline pipeline descriptorSet ∧
      t = ⟨s.run.call (s.run.pass.setPipeline s.run.recorder s.calls descriptorSet), s.calls + 1, descriptorSet⟩) ∨
    ∃ next added, Keeps s.run next added ∧ t = { s with run := next } := by
  unfold step ComputePass.step at h
  split at h
  · cases h
  obtain rfl := Option.some.inj h
  cases call with
  | setPipeline pipeline descriptorSet => exact .inl ⟨pipeline, descriptorSet, rfl, rfl⟩
  | setCommandLabel => exact .inr ⟨_, [], keeps_setCommandLabel debug, rfl⟩
  | bindBuffer binding type view => exact .inr ⟨_, [], keeps_bindBuffer binding type view, rfl⟩
  | bindTexture binding type texture sampler => exact .inr ⟨_, [], keeps_bindTexture binding type texture sampler, rfl⟩
  | addMemoryBarrier => exact .inr ⟨_, _, keeps_memoryBarrier, rfl⟩
  | compute gridSize =>
    obtain ⟨added, hkeeps, -⟩ := keeps_compute s.run debug gridSize
    exact .inr ⟨_, added, hkeeps, rfl⟩

private theorem Latest.keeps {added : List Recorded} (h : Latest s) (hk : Keeps s.run next added) :
    Latest { s with run := next } where
  bound number hcalls := by
    dsimp only
    rw [hk.recorded, hk.commandBuffer, hk.pipelineLayout, boundPipeline_append hk.binds]
    exact h.bound number hcalls
  valid hvalid := by
    dsimp only at hvalid ⊢
    rw [hk.descriptorSet]
    exact h.valid (hk.pipelineValid hvalid)

private theorem latest_setPipeline (descriptorSet : Bool)
    (hvalid : descriptorSet = false → s.run.pass.pipelineValid = false) :
    Latest ⟨s.run.call (s.run.pass.setPipeline s.run.recorder s.calls descriptorSet), s.calls + 1, descriptorSet⟩ where
  bound number hcalls := by
    obtain rfl : s.calls = number := Nat.succ.inj hcalls
    cases descriptorSet <;> simp [PassRun.call, setPipeline, Recorder.record, boundPipeline, pipelineOf]
  valid h := by
    cases descriptorSet with
    | false =>
      have hnot : s.run.pass.pipelineValid = true := h
      rw [hvalid rfl] at hnot
      cases hnot
    | true => exact ⟨s.calls, rfl, rfl, rfl⟩

private theorem step_latest (h : Latest s) (hc : FailsUnset s call t) (hs : step debug s call = some t) :
    UsesLatest s call t ∧ Latest t := by
  rcases step_cases hs with ⟨pipeline, descriptorSet, rfl, rfl⟩ | ⟨next, added, hkeeps, rfl⟩
  · refine ⟨?_, latest_setPipeline descriptorSet ?_⟩
    · intro before r after hrecorded hdispatch
      have hr : r ∈ s.recordedSince _ := hrecorded ▸ List.mem_append_right _ List.mem_cons_self
      have hadded : r = ⟨s.run.pass.commandBuffer, .bindPipeline s.calls,
          s.run.recorder.tracked s.run.pass.commandBuffer⟩ := by
        cases descriptorSet <;> simpa [recordedSince, PassRun.call, setPipeline, Recorder.record] using hr
      rw [hadded] at hdispatch
      cases hdispatch
    · rintro rfl
      exact hc pipeline rfl
  · refine ⟨?_, h.keeps hkeeps⟩
    intro before r after hrecorded hdispatch
    have hadded : added = before ++ r :: after := by
      rw [recordedSince, hkeeps.recorded, List.drop_left] at hrecorded
      exact hrecorded
    obtain ⟨hbuffer, hvalid, hsets⟩ := hkeeps.dispatches before r after hadded hdispatch
    obtain ⟨number, hcalls, hsucceeded, hset⟩ := h.valid hvalid
    obtain ⟨hbound, hlayout⟩ := h.bound number hcalls
    have hbefore : ∀ r ∈ before, pipelineOf r.command = none := fun r hr =>
      hkeeps.binds r (hadded ▸ List.mem_append_left _ hr)
    rw [hlayout, hset] at hsets
    refine ⟨number, hcalls, hsucceeded, ?_, ?_⟩
    · rw [hbuffer, boundPipeline_append hbefore]
      exact hbound
    · rw [hbuffer]
      exact boundSets_append hsets

variable {commandBuffer : Nat} {maxWorkgroupSize : Int × Int} {recorder : Recorder} {calls : List Call}

/-- A pass that is valid dispatches with the last pipeline even if it has failed. -/
private theorem not_usesLatest {pipeline : Nat} {gridSize : Geometry.ISize}
    (hcrashed : s.run.crashed = false) (hvalid : s.run.pass.pipelineValid = true) (hwidth : 0 < gridSize.width)
    (hheight : 0 < gridSize.height) :
    ¬ (machine debug commandBuffer maxWorkgroupSize recorder).Along UsesLatest s
      [.setPipeline pipeline false, .compute gridSize] := by
  intro h
  have hset : step debug s (.setPipeline pipeline false) =
      some ⟨s.run.call (s.run.pass.setPipeline s.run.recorder s.calls false), s.calls + 1, false⟩ := by
    unfold step ComputePass.step
    rw [if_neg (by simp [hcrashed])]
    rfl
  have hcompute : step debug ⟨s.run.call (s.run.pass.setPipeline s.run.recorder s.calls false), s.calls + 1, false⟩
      (.compute gridSize) = some ⟨computeCall (s.run.call (s.run.pass.setPipeline s.run.recorder s.calls false))
        debug gridSize, s.calls + 1, false⟩ := by
    unfold step ComputePass.step
    rw [if_neg (by simp [PassRun.call, hcrashed])]
    rfl
  obtain ⟨added, hkeeps, hdispatch⟩ := keeps_compute
    (s.run.call (s.run.pass.setPipeline s.run.recorder s.calls false)) debug gridSize
  have hdispatches : (s.run.call (s.run.pass.setPipeline s.run.recorder s.calls false)).pass.dispatches gridSize := by
    simp [PassRun.call, setPipeline, dispatches, hvalid, hwidth, hheight]
  obtain ⟨r, hr, hdispatched⟩ := hdispatch.mpr hdispatches
  obtain ⟨before, after, hadded⟩ := List.append_of_mem hr
  obtain ⟨number, -, hsucceeded, -⟩ := (h.tail hset).head hcompute before r after (by
    rw [recordedSince, hkeeps.recorded, List.drop_left]
    exact hadded) hdispatched
  cases hsucceeded

/-- Dispatches run with what the last `SetPipeline` has set, which succeeded, in every run in which
none fails that comes after one yet to be used. One that does is used by the next dispatch. -/
theorem usesLatest_of_failsUnset (debug : Bool) (commandBuffer : Nat) (maxWorkgroupSize : Int × Int)
    (recorder : Recorder) (calls : List Call) :
    ((machine debug commandBuffer maxWorkgroupSize recorder).Along FailsUnset
        (machine debug commandBuffer maxWorkgroupSize recorder).init calls →
      (machine debug commandBuffer maxWorkgroupSize recorder).Along UsesLatest
        (machine debug commandBuffer maxWorkgroupSize recorder).init calls) ∧
    ∀ s pipeline gridSize, (machine debug commandBuffer maxWorkgroupSize recorder).run calls = some s →
      s.run.crashed = false → s.run.pass.pipelineValid = true → 0 < gridSize.width → 0 < gridSize.height →
      ¬ (machine debug commandBuffer maxWorkgroupSize recorder).Along UsesLatest
        (machine debug commandBuffer maxWorkgroupSize recorder).init
        (calls ++ [.setPipeline pipeline false, .compute gridSize]) := by
  constructor
  · apply Machine.along_of_invariant
    · intro s call t hlatest hc hs
      exact step_latest hlatest hc hs
    · refine ⟨fun number hcalls => ?_, fun hvalid => ?_⟩
      · cases hcalls
      · cases hvalid
  · intro s pipeline gridSize hrun hcrashed hvalid hwidth hheight h
    exact not_usesLatest hcrashed hvalid hwidth hheight ((Machine.along_append hrun).mp h).2

/-- A failure before the first success, and one after it. -/
theorem usesLatest_of_failsUnset_once :
    (machine false 0 (1024, 1024) {}).Along UsesLatest (machine false 0 (1024, 1024) {}).init
      [.setPipeline 0 false, .setPipeline 1 true, .compute ⟨4, 1⟩] ∧
    ¬ (machine false 0 (1024, 1024) {}).Along UsesLatest (machine false 0 (1024, 1024) {}).init
      ([.setPipeline 1 true] ++ [.setPipeline 2 false, .compute ⟨4, 1⟩]) := by
  constructor
  · apply (usesLatest_of_failsUnset false 0 (1024, 1024) {} _).1
    refine ⟨?_, ?_, ?_, trivial⟩
    · intro _ _
      rfl
    · intro _ h
      cases h
    · intro _ h
      cases h
  · exact (usesLatest_of_failsUnset false 0 (1024, 1024) {} [.setPipeline 1 true]).2 _ 2 ⟨4, 1⟩ rfl rfl rfl
      (by decide) (by decide)

/-- The dispatch runs with the pipeline of the second call and the descriptor set of the first. -/
theorem usesLatest_stale : ¬ (machine false 0 (1024, 1024) {}).Along UsesLatest
    (machine false 0 (1024, 1024) {}).init [.setPipeline 0 true, .setPipeline 1 false, .compute ⟨4, 1⟩] := by
  intro h
  obtain ⟨number, -, hsucceeded, -⟩ := h.2.2.1 [_] _ [] rfl rfl
  cases hsucceeded

end PipelineRun
end Ogre.Hal.ComputePass
