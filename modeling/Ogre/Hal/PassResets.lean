import Ogre.Hal.PassBindings

/-! What a draw or a dispatch leaves of its command: the workspace, the flags of the pass and
the debug groups of its labels. -/
namespace Ogre.Hal
open Ogre.Core Ogre.Fml Ogre.Library

namespace PassRun
variable {Pass : Type} {s t : PassRun Pass} {debug : Bool}

/-- Every group that was pushed was popped, once. -/
def Balanced (s : PassRun Pass) : Prop := s.pushed = s.popped

/-- The flag tells whether a group is open, which it is in debug builds only. -/
structure Labelled (debug : Bool) (s : PassRun Pass) : Prop where
  debug : s.hasLabel → debug
  popped : s.popped ≤ s.pushed
  hasLabel : s.hasLabel ↔ s.popped < s.pushed

theorem Labelled.setCommandLabel (h : s.Labelled debug) : (s.setCommandLabel debug).Labelled debug := by
  have hle := h.popped
  cases debug with
  | false => exact h
  | true =>
    refine ⟨fun _ => rfl, ?_, ?_⟩ <;> simp only [PassRun.setCommandLabel, if_true]
    · omega
    · simp only [true_iff]
      omega

/-- A call that leaves labels alone. -/
theorem Labelled.of_eq (h : s.Labelled debug) (hl : t.hasLabel = s.hasLabel) (hpush : t.pushed = s.pushed)
    (hpop : t.popped = s.popped) : t.Labelled debug := by
  refine ⟨?_, ?_, ?_⟩
  · rw [hl]
    exact h.debug
  · rw [hpush, hpop]
    exact h.popped
  · rw [hl, hpush, hpop]
    exact h.hasLabel

theorem labelled_of_balanced (hb : t.Balanced) (hl : t.hasLabel = false) : t.Labelled debug := by
  have heq : t.pushed = t.popped := hb
  refine ⟨?_, heq.ge, ?_⟩
  · simp [hl]
  · simp [hl, heq]

/-- The flag pops one group, however many there are. -/
theorem Labelled.balanced_popDebugGroup (h : s.Labelled debug) :
    (s.popDebugGroup debug).Balanced ↔ s.pushed ≤ s.popped + 1 := by
  have hle := h.popped
  unfold PassRun.popDebugGroup Balanced
  cases hl : s.hasLabel with
  | true =>
    have hlt := h.hasLabel.mp hl
    rw [h.debug hl]
    simp only [Bool.and_self, if_true]
    omega
  | false =>
    have hge : ¬s.popped < s.pushed := fun hlt => by simpa [hl] using h.hasLabel.mpr hlt
    simp only [Bool.and_false, Bool.false_eq_true, if_false]
    omega

end PassRun

namespace RenderPass
variable {s t : PassRun RenderPass} {c : Call} {calls : List Call} {debug : Bool}

/-- The state of a command is that of a new pass. -/
structure Clean (s : PassRun RenderPass) : Prop where
  workspace : s.pass.workspace = {}
  hasLabel : s.hasLabel = false
  pipeline : s.pass.pipeline = none
  inputAttachments : s.pass.pipelineUsesInputAttachments = false
  groups : s.Balanced

def LeavesClean (_ : PassRun RenderPass) (c : Call) (t : PassRun RenderPass) : Prop := c.isDraw → Clean t

/-- A `Draw` gets through and has one label at most, or nothing was set for it. -/
def DrawsClean (s : PassRun RenderPass) (c : Call) (_ : PassRun RenderPass) : Prop :=
  match c with
  | .draw variant descriptorSet => s.pass.draws variant descriptorSet ∧ s.pushed ≤ s.popped + 1 ∨ Clean s
  | _ => True

private theorem draw_clean (variant : Option Nat) (descriptorSet : Bool) (h : s.Labelled debug) :
    (Clean (drawCall s debug variant descriptorSet) ↔
      s.pass.draws variant descriptorSet ∧ s.pushed ≤ s.popped + 1 ∨ Clean s) ∧
    (Clean (drawCall s debug variant descriptorSet) → (drawCall s debug variant descriptorSet).Labelled debug) := by
  refine ⟨?_, fun hc => PassRun.labelled_of_balanced hc.groups hc.hasLabel⟩
  cases hdraws : s.pass.draws variant descriptorSet with
  | true =>
    obtain ⟨pipeline, hdraw⟩ := draw_of_draws (s := s.recorder) hdraws
    let u := s.call (s.pass.draw s.recorder variant descriptorSet).2
    have hcall : drawCall s debug variant descriptorSet =
        { u.popDebugGroup debug with hasLabel := false, answer := true } := by
      rw [drawCall, if_neg (by simp [hdraw])]
    have hu : u.pass = s.pass.drawn := by simp [u, PassRun.call, hdraw]
    have hlabelled : u.Labelled debug := h.of_eq rfl rfl rfl
    -- a draw resets to what a new pass has
    have hclean : Clean (drawCall s debug variant descriptorSet) ↔ (u.popDebugGroup debug).Balanced := by
      rw [hcall]
      refine ⟨fun hc => hc.groups, fun hb => ⟨?_, rfl, ?_, ?_, hb⟩⟩ <;> simp [hu, drawn]
    have hno : ¬Clean s := by
      intro hc
      simp [draws, hc.pipeline] at hdraws
    rw [hclean, hlabelled.balanced_popDebugGroup, or_iff_left hno, and_iff_right rfl]
    rfl
  | false =>
    obtain ⟨hcode, pipeline, hsome, hdraw⟩ := draw_of_not_draws (s := s.recorder) hdraws
    have hcall : drawCall s debug variant descriptorSet =
        { s.call ({ s.pass with pipeline }, s.recorder) with answer := false } := by
      rw [drawCall, if_pos hcode, hdraw]
    have hnone : pipeline = none ↔ s.pass.pipeline = none := by
      rw [← Option.not_isSome_iff_eq_none, hsome, Option.not_isSome_iff_eq_none]
    rw [hcall]
    simp only [Bool.false_eq_true, false_and, false_or]
    exact ⟨fun hc => ⟨hc.workspace, hc.hasLabel, hnone.mp hc.pipeline, hc.inputAttachments, hc.groups⟩,
      fun hc => ⟨hc.workspace, hc.hasLabel, hnone.mpr hc.pipeline, hc.inputAttachments, hc.groups⟩⟩

private theorem step_clean (h : s.Labelled debug) (hs : step debug s c = some t) :
    (LeavesClean s c t ↔ DrawsClean s c t) ∧ (DrawsClean s c t → t.Labelled debug) := by
  have hkeep (hd : c.isDraw = false) (hl : t.Labelled debug) :
      (LeavesClean s c t ↔ DrawsClean s c t) ∧ (DrawsClean s c t → t.Labelled debug) := by
    refine ⟨iff_of_true ?_ ?_, fun _ => hl⟩
    · intro hy
      rw [hd] at hy
      cases hy
    · cases c with
      | draw variant descriptorSet => cases hd
      | _ => trivial
  have hbool (r : Option (Bool × RenderPass × Recorder)) : (s.callBool r).Labelled debug := by
    cases r <;> exact h.of_eq rfl rfl rfl
  simp only [step, Option.ite_none_left_eq_some, Option.some.injEq] at hs
  obtain ⟨-, rfl⟩ := hs
  cases c with
  | setCommandLabel => exact hkeep rfl h.setCommandLabel
  | setPipeline pipeline => exact hkeep rfl (h.of_eq rfl rfl rfl)
  | setStencilReference value => exact hkeep rfl (h.of_eq rfl rfl rfl)
  | setBaseVertex value => exact hkeep rfl (h.of_eq rfl rfl rfl)
  | setElementCount count => exact hkeep rfl (h.of_eq rfl rfl rfl)
  | setInstanceCount count => exact hkeep rfl (h.of_eq rfl rfl rfl)
  | setVertexBuffers views => exact hkeep rfl (hbool _)
  | setIndexBuffer view indexType => exact hkeep rfl (hbool _)
  | bindBuffer binding type view => exact hkeep rfl (hbool _)
  | bindTexture binding texture sampler => exact hkeep rfl (hbool _)
  | draw variant descriptorSet =>
    obtain ⟨hiff, hlabelled⟩ := draw_clean variant descriptorSet h
    have hleaves : LeavesClean s (.draw variant descriptorSet) (drawCall s debug variant descriptorSet) ↔
        Clean (drawCall s debug variant descriptorSet) := forall_prop_of_true rfl
    exact ⟨hleaves.trans hiff, fun hc => hlabelled (hiff.mpr hc)⟩

theorem leavesClean_iff {commandBuffer colorImage : Nat} {renderTarget : RenderTarget} {recorder : Recorder} :
    (callMachine debug commandBuffer renderTarget colorImage recorder).Along LeavesClean
        (callMachine debug commandBuffer renderTarget colorImage recorder).init calls ↔
      (callMachine debug commandBuffer renderTarget colorImage recorder).Along DrawsClean
        (callMachine debug commandBuffer renderTarget colorImage recorder).init calls :=
  Machine.along_iff (fun _ _ _ h hs => (step_clean h hs).1) (fun _ _ _ h hc hs => (step_clean h hs).2 hc)
    (PassRun.labelled_of_balanced rfl rfl)

end RenderPass

namespace ComputePass
variable {s t : PassRun ComputePass} {c : Call} {calls : List Call} {debug : Bool}

/-- The state of a command is that of a new pass. -/
structure Clean (s : PassRun ComputePass) : Prop where
  workspace : s.pass.workspace = {}
  hasLabel : s.hasLabel = false
  pipelineValid : s.pass.pipelineValid = false
  groups : s.Balanced

def LeavesClean (_ : PassRun ComputePass) (c : Call) (t : PassRun ComputePass) : Prop :=
  ∀ gridSize, c = .compute gridSize → Clean t

/-- A `Compute` that gets through has one label at most, and one that is cancelled has none. -/
def DispatchesClean (s : PassRun ComputePass) (c : Call) (_ : PassRun ComputePass) : Prop :=
  match c with
  | .compute gridSize => s.pushed ≤ s.popped + if s.pass.dispatches gridSize then 1 else 0
  | _ => True

private theorem compute_clean (gridSize : Geometry.ISize) (h : s.Labelled debug) :
    (Clean (computeCall s debug gridSize) ↔ s.pushed ≤ s.popped + if s.pass.dispatches gridSize then 1 else 0) ∧
    (Clean (computeCall s debug gridSize) → (computeCall s debug gridSize).Labelled debug) := by
  refine ⟨?_, fun hc => PassRun.labelled_of_balanced hc.groups hc.hasLabel⟩
  have hcode : (s.pass.compute s.recorder gridSize).1.code = .kOk ↔ s.pass.dispatches gridSize := compute_code
  have hpass : (s.pass.compute s.recorder gridSize).2.1 = { s.pass with workspace := {}, pipelineValid := false } :=
    compute_pass
  cases hd : s.pass.dispatches gridSize with
  | true =>
    have hcall : computeCall s debug gridSize = { (s.call (s.pass.compute s.recorder gridSize).2).popDebugGroup debug with
        hasLabel := false, answer := true } := if_neg (not_not.mpr (hcode.mpr hd))
    have hu : ((s.call (s.pass.compute s.recorder gridSize).2).Labelled debug) := h.of_eq rfl rfl rfl
    have hclean : Clean (computeCall s debug gridSize) ↔
        ((s.call (s.pass.compute s.recorder gridSize).2).popDebugGroup debug).Balanced := by
      rw [hcall]
      refine ⟨fun hc => hc.groups, fun hb => ⟨?_, rfl, ?_, hb⟩⟩ <;> simp [PassRun.call, hpass]
    rw [hclean, hu.balanced_popDebugGroup, if_pos rfl]
    rfl
  | false =>
    have hcall : computeCall s debug gridSize = { s.call (s.pass.compute s.recorder gridSize).2 with
        hasLabel := false, answer := false } := if_pos fun hok => by simpa [hd] using hcode.mp hok
    have hle := h.popped
    have hclean : Clean (computeCall s debug gridSize) ↔ s.Balanced := by
      rw [hcall]
      exact ⟨fun hc => hc.groups, fun hb => ⟨by simp [PassRun.call, hpass], rfl, by simp [PassRun.call, hpass], hb⟩⟩
    rw [hclean, PassRun.Balanced, if_neg (by simp)]
    omega

private theorem step_clean (h : s.Labelled debug) (hs : step debug s c = some t) :
    (LeavesClean s c t ↔ DispatchesClean s c t) ∧ (DispatchesClean s c t → t.Labelled debug) := by
  have hkeep (hd : ∀ gridSize, c ≠ .compute gridSize) (hl : t.Labelled debug) :
      (LeavesClean s c t ↔ DispatchesClean s c t) ∧ (DispatchesClean s c t → t.Labelled debug) := by
    refine ⟨iff_of_true (fun gridSize hy => (hd gridSize hy).elim) ?_, fun _ => hl⟩
    cases c with
    | compute gridSize => exact (hd gridSize rfl).elim
    | _ => trivial
  have hbool (r : Option (Bool × ComputePass × Recorder)) : (s.callBool r).Labelled debug := by
    cases r <;> exact h.of_eq rfl rfl rfl
  simp only [step, Option.ite_none_left_eq_some, Option.some.injEq] at hs
  obtain ⟨-, rfl⟩ := hs
  cases c with
  | setCommandLabel => exact hkeep (by simp) h.setCommandLabel
  | setPipeline pipeline descriptorSet => exact hkeep (by simp) (h.of_eq rfl rfl rfl)
  | bindBuffer binding type view => exact hkeep (by simp) (hbool _)
  | bindTexture binding type texture sampler => exact hkeep (by simp) (hbool _)
  | addMemoryBarrier => exact hkeep (by simp) (h.of_eq rfl rfl rfl)
  | compute gridSize =>
    obtain ⟨hiff, hlabelled⟩ := compute_clean gridSize h
    refine ⟨Iff.trans ⟨fun hl => hl gridSize rfl, fun hc _ _ => hc⟩ hiff, fun hc => hlabelled (hiff.mpr hc)⟩

theorem leavesClean_iff {commandBuffer : Nat} {maxWorkgroupSize : Int × Int} {recorder : Recorder} :
    (callMachine debug commandBuffer maxWorkgroupSize recorder).Along LeavesClean
        (callMachine debug commandBuffer maxWorkgroupSize recorder).init calls ↔
      (callMachine debug commandBuffer maxWorkgroupSize recorder).Along DispatchesClean
        (callMachine debug commandBuffer maxWorkgroupSize recorder).init calls :=
  Machine.along_iff (fun _ _ _ h hs => (step_clean h hs).1) (fun _ _ _ h hc hs => (step_clean h hs).2 hc)
    (PassRun.labelled_of_balanced rfl rfl)

end ComputePass

/-- Draws and dispatches leave the state of a new pass, with all groups popped, in exactly the
runs in which they get through with one label at most, or have nothing to reset or to pop. -/
theorem commands_clean (debug : Bool) (commandBuffer : Nat) (recorder : Recorder) :
    (∀ renderTarget colorImage calls,
      (RenderPass.callMachine debug commandBuffer renderTarget colorImage recorder).Along RenderPass.LeavesClean
          (RenderPass.callMachine debug commandBuffer renderTarget colorImage recorder).init calls ↔
        (RenderPass.callMachine debug commandBuffer renderTarget colorImage recorder).Along RenderPass.DrawsClean
          (RenderPass.callMachine debug commandBuffer renderTarget colorImage recorder).init calls) ∧
    ∀ maxWorkgroupSize calls,
      (ComputePass.callMachine debug commandBuffer maxWorkgroupSize recorder).Along ComputePass.LeavesClean
          (ComputePass.callMachine debug commandBuffer maxWorkgroupSize recorder).init calls ↔
        (ComputePass.callMachine debug commandBuffer maxWorkgroupSize recorder).Along ComputePass.DispatchesClean
          (ComputePass.callMachine debug commandBuffer maxWorkgroupSize recorder).init calls :=
  ⟨fun _ _ _ => RenderPass.leavesClean_iff, fun _ _ => ComputePass.leavesClean_iff⟩

/-- A draw without a descriptor set, a draw with two labels, and a dispatch that is cancelled with a label. -/
theorem commands_unclean :
    (∀ calls ∈ [[.setPipeline (some ⟨0, false⟩), .bindTexture 1 (some 0) true, .draw none false],
      [.setCommandLabel, .setCommandLabel, .setPipeline (some ⟨0, false⟩), .draw none true]],
      ¬(RenderPass.callMachine true 0 RenderPass.plainTarget 0 {}).Along RenderPass.LeavesClean
        (RenderPass.callMachine true 0 RenderPass.plainTarget 0 {}).init calls) ∧
    ¬(ComputePass.callMachine true 0 (1, 1) {}).Along ComputePass.LeavesClean
      (ComputePass.callMachine true 0 (1, 1) {}).init [.setCommandLabel, .compute {}] := by
  simp only [List.forall_mem_cons]
  refine ⟨⟨fun h => ?_, fun h => ?_, by simp⟩, fun h => ?_⟩
  · have hclean := ((h.tail rfl).tail rfl).head rfl rfl
    exact absurd hclean.workspace (by decide)
  · have hclean := (((h.tail rfl).tail rfl).tail rfl).head rfl rfl
    have hgroups : 2 = 1 := hclean.groups
    cases hgroups
  · have hclean := (h.tail rfl).head rfl _ rfl
    have hgroups : 1 = 0 := hclean.groups
    cases hgroups

end Ogre.Hal
