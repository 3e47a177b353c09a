import Ogre.Hal.PipelineDescriptors
import Ogre.Library.FirstKept

/-! Descriptors that are equal, their hashes, and the pipelines that are made for them. -/
namespace Ogre.Hal.Descriptors
open Ogre.Core Ogre.Fml Ogre.Library

section Compare
variable {α β κ : Type*} {isEqual : α → α → Bool} {f : α → β} {a b : α} {x y : Option α}

theorem deepComparePointer_iff (h : ∀ a b, isEqual a b ↔ f a = f b) :
    deepComparePointer isEqual x y ↔ x.map f = y.map f := by
  cases x <;> cases y <;> simp [deepComparePointer, h]

theorem deepCompareMap_iff [DecidableEq κ] {l m : List (κ × Option α)} (h : ∀ a b, isEqual a b ↔ f a = f b) :
    deepCompareMap isEqual l m ↔ l.map (fun e => (e.1, e.2.map f)) = m.map fun e => (e.1, e.2.map f) := by
  induction l generalizing m with
  | nil => cases m <;> simp [deepCompareMap]
  | cons d l ih =>
    cases m with
    | nil => simp [deepCompareMap]
    | cons e m =>
      have hd := deepComparePointer_iff (x := d.2) (y := e.2) h
      have htail := ih (m := m)
      simp only [deepCompareMap, Bool.and_eq_true, decide_eq_true_eq, List.length_cons, Nat.add_right_cancel_iff,
        List.zip_cons_cons, List.all_cons, List.map_cons, List.cons.injEq, Prod.mk.injEq] at htail ⊢
      rw [← htail, ← hd]
      tauto

end Compare

namespace ShaderFunction

/-- What is compared of a function: all but the module. -/
def identity (f : ShaderFunction) : ShaderFunction := { f with module := 0 }

theorem isEqual_iff (f g : ShaderFunction) : f.isEqual g ↔ f.identity = g.identity := by
  simp [isEqual, identity, and_assoc]

end ShaderFunction

namespace VertexDescriptor

/-- What is compared of a vertex descriptor: all but the descriptor set layouts. -/
def identity (v : VertexDescriptor) : VertexDescriptor :=
  { empty with inputs := v.inputs, layouts := v.layouts }

theorem isEqual_iff (v w : VertexDescriptor) : v.isEqual w ↔ v.identity = w.identity := by
  simp [isEqual, identity]

end VertexDescriptor

namespace PipelineDescriptor
variable {d e i : PipelineDescriptor}

/-- The values of scalars, if none of them is a NaN. -/
def scalarValues : List Scalar → Option (List Scalar)
  | [] => some []
  | x :: l => x.value.bind fun v => (scalarValues l).map (v :: ·)

theorem scalarsEqual_iff {l m : List Scalar} :
    scalarsEqual l m ↔ ∃ v, scalarValues l = some v ∧ scalarValues m = some v := by
  induction l generalizing m with
  | nil => cases m <;> simp [scalarsEqual, scalarValues, Option.bind_eq_some_iff]
  | cons x l ih =>
    cases m with
    | nil => simp [scalarsEqual, scalarValues, Option.bind_eq_some_iff]
    | cons y m =>
      have hhead := Scalar.isEqual_iff (x := x) (y := y)
      have htail := ih (m := m)
      simp only [scalarsEqual, Bool.and_eq_true, decide_eq_true_eq, List.length_cons, Nat.add_right_cancel_iff,
        List.zip_cons_cons, List.all_cons] at htail ⊢
      rw [and_left_comm, htail, hhead]
      simp only [scalarValues, Option.bind_eq_some_iff, Option.map_eq_some_iff]
      constructor
      · rintro ⟨⟨v, hx, hy⟩, w, hl, hm⟩
        exact ⟨v :: w, ⟨v, hx, w, hl, rfl⟩, v, hy, w, hm, rfl⟩
      · rintro ⟨_, ⟨v, hx, w, hl, rfl⟩, v', hy, w', hm, heq⟩
        obtain ⟨rfl, rfl⟩ := List.cons.inj heq
        exact ⟨⟨_, hx, hy⟩, _, hl, hm⟩

/-- What is compared of a descriptor. One with a NaN among its constants is equal to none. -/
def identity (d : PipelineDescriptor) : Option PipelineDescriptor :=
  (scalarValues d.specializationConstants).map fun specializationConstants =>
    { d with
      entrypoints := d.entrypoints.map fun e => (e.1, e.2.map ShaderFunction.identity)
      vertexDescriptor := d.vertexDescriptor.map VertexDescriptor.identity
      specializationConstants }

theorem isEqual_iff : d.isEqual e ↔ ∃ i, d.identity = some i ∧ e.identity = some i := by
  have hentrypoints := deepCompareMap_iff (l := d.entrypoints) (m := e.entrypoints) ShaderFunction.isEqual_iff
  have hvertex := deepComparePointer_iff (x := d.vertexDescriptor) (y := e.vertexDescriptor)
    VertexDescriptor.isEqual_iff
  unfold isEqual
  simp only [Bool.and_eq_true, decide_eq_true_eq, hentrypoints, hvertex, scalarsEqual_iff]
  unfold identity
  simp only [Option.map_eq_some_iff]
  constructor
  · rintro ⟨h, v, hd, he⟩
    exact ⟨_, ⟨v, hd, rfl⟩, v, he, by simp_all⟩
  · rintro ⟨_, ⟨v, hd, rfl⟩, w, he, heq⟩
    simp only [PipelineDescriptor.mk.injEq] at heq
    obtain ⟨hlabel, hsamples, hwinding, hcull, hentry, hcolors, hvertex, hdepth, hstencil, hdepthDesc, hfront, hback,
      hprimitive, hpolygon, rfl⟩ := heq
    simp_all

theorem getHash_identity (h : StdHash) (hi : d.identity = some i) : i.getHash h = d.getHash h := by
  obtain ⟨v, -, rfl⟩ := Option.map_eq_some_iff.mp hi
  unfold getHash
  simp only [List.flatMap_map, Option.map_map]
  rfl

/-- What creation reads of a descriptor, and comparison does not: the descriptor set
layouts, the modules of the functions, and the bits of the constants. -/
def uncompared (d : PipelineDescriptor) : List DescriptorSetLayout × List (Option Nat) × List Scalar :=
  ((d.vertexDescriptor.map (·.descSetLayouts)).getD [], d.entrypoints.map fun e => e.2.map (·.module),
    d.specializationConstants)

private theorem stageModules_eq_iff {l m : List (ShaderStage × Option ShaderFunction)}
    (h : l.map (fun e => (e.1, e.2.map ShaderFunction.identity)) =
      m.map fun e => (e.1, e.2.map ShaderFunction.identity)) :
    (stageModules l).isSome = (stageModules m).isSome ∧
      ((stageModules l).isSome → (stageModules l = stageModules m ↔
        l.map (fun e => e.2.map (·.module)) = m.map fun e => e.2.map (·.module))) := by
  induction l generalizing m with
  | nil =>
    obtain rfl : m = [] := by simpa using h.symm
    simp
  | cons d l ih =>
    cases m with
    | nil => simp at h
    | cons e m =>
      obtain ⟨stage, function⟩ := d
      obtain ⟨stage', function'⟩ := e
      simp only [List.map_cons, List.cons.injEq, Prod.mk.injEq] at h
      obtain ⟨⟨rfl, hfunction⟩, h⟩ := h
      obtain ⟨hsome, hmodules⟩ := ih h
      cases function with
      | none =>
        obtain rfl : function' = none := by simpa using hfunction.symm
        simp [stageModules]
      | some f =>
        cases function' with
        | none => simp at hfunction
        | some g =>
          simp only [stageModules, Option.bind_some, Option.isSome_map, hsome, true_and]
          intro hl
          cases hm : stageModules m with
          | none => simp [hm] at hl
          | some stages =>
            rw [hm] at hmodules
            obtain ⟨stages', hstages⟩ := Option.isSome_iff_exists.mp (hsome.trans (by rw [hm]; rfl))
            rw [hstages] at hmodules
            simp only [Option.isSome_some, true_implies, Option.some.injEq] at hmodules
            simp [hstages, hmodules]

theorem creationInputs_eq_iff (hd : d.identity = some i) (he : e.identity = some i) :
    d.creationInputs = e.creationInputs ↔ (d.creationInputs.isSome → d.uncompared = e.uncompared) := by
  obtain ⟨v, -, rfl⟩ := Option.map_eq_some_iff.mp hd
  obtain ⟨w, -, heq⟩ := Option.map_eq_some_iff.mp he
  simp only [PipelineDescriptor.mk.injEq] at heq
  obtain ⟨-, hsamples, hwinding, hcull, hentry, hcolors, hvertex, hdepth, hstencil, hdepthDesc, hfront, hback,
    hprimitive, hpolygon, -⟩ := heq
  obtain ⟨hsome, hmodules⟩ := stageModules_eq_iff hentry.symm
  unfold creationInputs uncompared hasStencilAttachmentDescriptors
  cases hv : d.vertexDescriptor with
  | none =>
    have hw : e.vertexDescriptor = none := by simpa [hv] using hvertex
    simp [hw]
  | some v =>
    obtain ⟨w, hw, hvw⟩ : ∃ w, e.vertexDescriptor = some w ∧ w.identity = v.identity := by
      simpa [hv] using hvertex
    simp only [VertexDescriptor.identity, VertexDescriptor.mk.injEq] at hvw
    rw [hw]
    cases hstages : stageModules d.entrypoints with
    | none =>
      have hnone : stageModules e.entrypoints = none := by
        rw [hstages] at hsome
        simpa using hsome.symm
      simp [hnone]
    | some stages =>
      obtain ⟨stages', hstages'⟩ := Option.isSome_iff_exists.mp (hsome.symm.trans (by rw [hstages]; rfl))
      rw [hstages, hstages'] at hmodules
      simp only [Option.isSome_some, true_implies, Option.some.injEq] at hmodules
      simp only [hstages', Option.bind_some, Option.map_some, Option.isSome_some, true_implies,
        Option.some.injEq, CreationInputs.render.injEq, Option.getD_some, Prod.mk.injEq, hsamples, hwinding, hcull,
        hcolors, hdepth, hstencil, hdepthDesc, hfront, hback, hprimitive, hpolygon, hvw.1, hvw.2.1, hmodules, v.flag,
        w.flag]
      constructor
      · rintro ⟨hlayouts, -, -, -, -, -, hconstants, hmodules, -⟩
        exact ⟨hlayouts, hmodules, hconstants⟩
      · rintro ⟨hlayouts, hmodules, hconstants⟩
        simp [hlayouts, hmodules, hconstants]

end PipelineDescriptor

namespace ComputePipelineDescriptor
variable {d e : ComputePipelineDescriptor}

def identity (d : ComputePipelineDescriptor) : ComputePipelineDescriptor where
  label := d.label
  entrypoint := d.entrypoint.map ShaderFunction.identity

theorem isEqual_iff : d.isEqual e ↔ d.identity = e.identity := by
  have hentrypoint := deepComparePointer_iff (x := d.entrypoint) (y := e.entrypoint) ShaderFunction.isEqual_iff
  simp [isEqual, identity, hentrypoint]

theorem getHash_identity (h : StdHash) : d.identity.getHash h = d.getHash h := by
  unfold getHash identity
  simp only [Option.map_map]
  rfl

def uncompared (d : ComputePipelineDescriptor) : List DescriptorSetLayout × List (Option Nat) × List Scalar :=
  (d.descriptorSetLayouts, [d.entrypoint.map (·.module)], [])

theorem creationInputs_eq_iff (h : d.identity = e.identity) :
    d.creationInputs = e.creationInputs ↔ (d.creationInputs.isSome → d.uncompared = e.uncompared) := by
  have hentrypoint := congrArg ComputePipelineDescriptor.entrypoint h
  unfold creationInputs uncompared
  cases hd : d.entrypoint with
  | none =>
    have he : e.entrypoint = none := by simpa [identity, hd] using hentrypoint.symm
    simp [he]
  | some f =>
    cases he : e.entrypoint with
    | none => simp [identity, hd, he] at hentrypoint
    | some g => simp [and_comm]

end ComputePipelineDescriptor

end Ogre.Hal.Descriptors
