import Ogre.Hal.RenderPass

/-! What of a render target the objects of its render pass depend on. -/
namespace Ogre.Hal
open Ogre.Core Ogre.Library

/-- What is done with a color attachment. -/
structure ColorKey where
  format : VkFormat
  sampleCount : SampleCount
  loadAction : LoadAction
  storeAction : StoreAction
  initialLayout : ImageLayout
  deriving DecidableEq, Repr

/-- What is done with the depth and with the stencil of an attachment. -/
structure DepthStencilKey where
  format : VkFormat
  sampleCount : SampleCount
  depthLoad : LoadAction
  depthStore : AttachmentStoreOp
  stencilLoad : LoadAction
  stencilStore : AttachmentStoreOp
  deriving DecidableEq, Repr

structure FrameKey where
  colors : List ColorKey
  depthStencil : Option DepthStencilKey
  views : List Nat
  size : Geometry.ISize
  deriving DecidableEq, Repr

theorem toVKSampleCount_injective : Function.Injective toVKSampleCount := by
  rintro (_ | _) (_ | _) h <;> first | rfl | cases h

theorem toVKAttachmentLoadOp_injective : Function.Injective toVKAttachmentLoadOp := by
  rintro (_ | _ | _) (_ | _ | _) h <;> first | rfl | cases h

/-- What is stored, and whether it is resolved, tells the store action. -/
theorem storeAction_eq {a b : StoreAction} (hs : toVKAttachmentStoreOp a false = toVKAttachmentStoreOp b false)
    (hr : storeActionPerformsResolve a = storeActionPerformsResolve b) : a = b := by
  cases a <;> cases b <;> simp_all [toVKAttachmentStoreOp, storeActionPerformsResolve]

namespace ColorKey

/-- The descriptions of the attachment and of its resolve attachment. -/
def describe (isSwapchain : Bool) (k : ColorKey) : AttachmentDescription × Option AttachmentDescription :=
  let desc : AttachmentDescription := {
    format := k.format
    samples := toVKSampleCount k.sampleCount
    loadOp := toVKAttachmentLoadOp k.loadAction
    storeOp := toVKAttachmentStoreOp k.storeAction false
    stencilLoadOp := .eDontCare
    stencilStoreOp := .eDontCare
    initialLayout := k.initialLayout
    finalLayout := computeFinalLayout isSwapchain k.sampleCount }
  (desc, RenderPassBuilder.resolveDescription desc k.storeAction isSwapchain)

private theorem resolveDescription_isSome {desc : AttachmentDescription} {store : StoreAction} {isSwapchain : Bool} :
    (RenderPassBuilder.resolveDescription desc store isSwapchain).isSome = storeActionPerformsResolve store := by
  unfold RenderPassBuilder.resolveDescription
  split <;> simp_all

theorem describe_injective (isSwapchain : Bool) : Function.Injective (describe isSwapchain) := by
  intro k l h
  obtain ⟨hdesc, hresolve⟩ := Prod.mk.inj h
  have hperforms := congrArg Option.isSome hresolve
  rw [resolveDescription_isSome, resolveDescription_isSome] at hperforms
  simp only [AttachmentDescription.mk.injEq] at hdesc
  obtain ⟨hformat, hsamples, hload, hstore, -, -, hlayout, -⟩ := hdesc
  have hsamples := toVKSampleCount_injective hsamples
  have hload := toVKAttachmentLoadOp_injective hload
  have hstore := storeAction_eq hstore hperforms
  cases k
  cases l
  simp_all

end ColorKey

namespace DepthStencilKey

def describe (k : DepthStencilKey) : AttachmentDescription where
  format := k.format
  samples := toVKSampleCount k.sampleCount
  loadOp := toVKAttachmentLoadOp k.depthLoad
  storeOp := k.depthStore
  stencilLoadOp := toVKAttachmentLoadOp k.stencilLoad
  stencilStoreOp := k.stencilStore
  initialLayout := .eUndefined
  finalLayout := .eDepthStencilAttachmentOptimal

theorem describe_injective : Function.Injective describe := by
  intro k l h
  simp only [describe, AttachmentDescription.mk.injEq] at h
  obtain ⟨hformat, hsamples, hdepth, hdepthStore, hstencil, hstencilStore, -, -⟩ := h
  have hsamples := toVKSampleCount_injective hsamples
  have hdepth := toVKAttachmentLoadOp_injective hdepth
  have hstencil := toVKAttachmentLoadOp_injective hstencil
  cases k
  cases l
  simp_all

end DepthStencilKey

namespace RenderPassBuilder
variable {l m : List (AttachmentDescription × Option AttachmentDescription)} {info : RenderPassInfo}
  {d e : Option AttachmentDescription}

private theorem addColors_attachments :
    (l.foldl (fun info color => addColor info color.1 color.2) info).attachments =
      info.attachments ++ l.flatMap fun color => color.1 :: color.2.toList := by
  induction l generalizing info with
  | nil => simp
  | cons color l ih => rw [List.foldl_cons, ih, List.flatMap_cons, ← List.append_assoc]; rfl

private theorem addColors_resolveRefs :
    (l.foldl (fun info color => addColor info color.1 color.2) info).resolveRefs.map (·.attachment.isSome) =
      info.resolveRefs.map (·.attachment.isSome) ++ l.map (·.2.isSome) := by
  induction l generalizing info with
  | nil => simp
  | cons color l ih =>
    obtain ⟨desc, resolve⟩ := color
    rw [List.foldl_cons, ih]
    cases resolve <;> simp [addColor, kUnusedAttachmentReference]

private theorem addColors_depthStencilRef :
    (l.foldl (fun info color => addColor info color.1 color.2) info).depthStencilRef = info.depthStencilRef := by
  induction l generalizing info with
  | nil => rfl
  | cons color l ih => rw [List.foldl_cons, ih]; rfl

/-- The attachments in the order of `Build`. -/
theorem build_attachments (b : RenderPassBuilder) : b.build.attachments =
    (b.colorPairs.flatMap fun color => color.1 :: color.2.toList) ++ b.depthStencil.toList := by
  unfold build
  cases b.depthStencil with
  | none => simp only [addDepthStencil, addColors_attachments, List.nil_append, Option.toList_none, List.append_nil]
  | some desc => simp only [addDepthStencil, addColors_attachments, List.nil_append, Option.toList_some]

/-- A list of attachments that are each followed by their resolve attachment can be
taken apart where it is known which of them have one. -/
private theorem pairs_eq (hf : (l.flatMap fun color => color.1 :: color.2.toList) =
      m.flatMap fun color => color.1 :: color.2.toList)
    (hr : l.map (·.2.isSome) = m.map (·.2.isSome)) : l = m := by
  induction l generalizing m with
  | nil => simpa using hr.symm
  | cons color l ih =>
    cases m with
    | nil => simp at hr
    | cons other m =>
      obtain ⟨desc, resolve⟩ := color
      obtain ⟨desc', resolve'⟩ := other
      simp only [List.map_cons, List.cons.injEq] at hr
      obtain ⟨hsome, hr⟩ := hr
      simp only [List.flatMap_cons, List.cons_append, List.cons.injEq] at hf
      obtain ⟨rfl, hf⟩ := hf
      cases resolve with
      | none =>
        cases resolve' with
        | none => rw [ih hf hr]
        | some _ => simp at hsome
      | some _ =>
        cases resolve' with
        | none => simp at hsome
        | some _ =>
          obtain ⟨rfl, htail⟩ := List.cons.inj hf
          rw [ih htail hr]

/-- The arrays of `Build` tell what went into them. -/
theorem build_inj {b c : RenderPassBuilder} :
    b.build = c.build ↔ b.colorPairs = c.colorPairs ∧ b.depthStencil = c.depthStencil := by
  refine ⟨fun h => ?_, fun h => by rw [build, build, h.1, h.2]⟩
  have hattachments := congrArg RenderPassInfo.attachments h
  have hresolves := congrArg (fun info => info.resolveRefs.map (·.attachment.isSome)) h
  have hdepth := congrArg (fun info => info.depthStencilRef.attachment.isSome) h
  unfold build at hattachments hresolves hdepth
  cases hb : b.depthStencil with
  | none =>
    cases hc : c.depthStencil with
    | none =>
      simp only [hb, hc, addDepthStencil, addColors_attachments, addColors_resolveRefs, List.nil_append,
        List.map_nil] at hattachments hresolves
      exact ⟨pairs_eq hattachments hresolves, rfl⟩
    | some _ => simp [hb, hc, addDepthStencil, addColors_depthStencilRef, kUnusedAttachmentReference] at hdepth
  | some _ =>
    cases hc : c.depthStencil with
    | none => simp [hb, hc, addDepthStencil, addColors_depthStencilRef, kUnusedAttachmentReference] at hdepth
    | some _ =>
      simp only [hb, hc, addDepthStencil, addColors_attachments, addColors_resolveRefs, List.nil_append,
        List.map_nil] at hattachments hresolves
      obtain ⟨hattachments, hdesc⟩ := List.append_inj' hattachments rfl
      exact ⟨pairs_eq hattachments hresolves, congrArg some (List.cons.inj hdesc).1⟩

/-- The attachments that are set have keys below the bound. -/
def Below (b : RenderPassBuilder) (index : Nat) : Prop :=
  (∀ e ∈ b.colors.entries, e.1 < index) ∧ ∀ e ∈ b.resolves.entries, e.1 < index

variable {b : RenderPassBuilder} {index : Nat} {format : PixelFormat} {sampleCount : SampleCount}
  {loadAction : LoadAction} {storeAction : StoreAction} {currentLayout : ImageLayout} {isSwapchain : Bool}

private theorem below_setColorAttachment {next : Nat} (hpos : 0 < index) (hb : b.Below index) (hn : index < next) :
    (b.setColorAttachment index format sampleCount loadAction storeAction currentLayout isSwapchain).Below next := by
  have below : ∀ {r : OrderedMap AttachmentDescription} {value}, (∀ e ∈ r.entries, e.1 < index) →
      ∀ e ∈ (r.insert index value).entries, e.1 < next := by
    intro r value hr e he
    rcases OrderedMap.mem_insertEntry he with rfl | he
    · exact hn
    · exact Nat.lt_trans (hr e he) hn
  unfold setColorAttachment
  rw [if_neg (Nat.ne_of_gt hpos)]
  refine ⟨below hb.1, ?_⟩
  dsimp only
  split
  · exact below hb.2
  · exact fun e he => Nat.lt_trans (hb.2 e (List.mem_of_mem_filter he)) hn

/-- An attachment whose key is greater than all others is built last. -/
theorem colorPairs_setColorAttachment (hpos : 0 < index) (hb : b.Below index) :
    (b.setColorAttachment index format sampleCount loadAction storeAction currentLayout isSwapchain).colorPairs =
      b.colorPairs ++
        [let desc := colorDescription format sampleCount loadAction storeAction currentLayout isSwapchain
         (desc, resolveDescription desc storeAction isSwapchain)] := by
  obtain ⟨hcolors, hresolves⟩ := hb
  have hnone : b.resolves.find? index = none :=
    OrderedMap.find?_eq_none.mpr fun e he => Nat.ne_of_lt (hresolves e he)
  have hold (e) (he : e ∈ b.colors.entries) : e.1 ≠ index := Nat.ne_of_lt (hcolors e he)
  unfold setColorAttachment
  rw [if_neg (Nat.ne_of_gt hpos)]
  simp only [colorPairs, OrderedMap.entries_insert_last hcolors, List.map_append, List.append_assoc]
  congr 2
  · refine List.map_congr_left fun e he => Prod.ext rfl ?_
    dsimp only
    split
    · rw [OrderedMap.find?_insert, if_neg (hold e he)]
    · rw [OrderedMap.find?_erase, if_neg (hold e he)]
  · refine congrArg (fun pair => [pair]) (Prod.ext rfl ?_)
    dsimp only
    split
    next heq => rw [OrderedMap.find?_insert, if_pos rfl, heq]
    next heq => rw [OrderedMap.find?_erase, if_pos rfl, heq]

theorem depthStencil_setColorAttachment :
    (b.setColorAttachment index format sampleCount loadAction storeAction currentLayout isSwapchain).depthStencil =
      b.depthStencil := by
  unfold setColorAttachment
  split <;> rfl

end RenderPassBuilder

namespace RenderPass
variable {s t : Recorder} {isSwapchain : Bool} {target : RenderTarget}

def colorKey (s : Recorder) (a : Attachment) : ColorKey where
  format := toVKImageFormat (s.desc a.texture).format
  sampleCount := (s.desc a.texture).sampleCount
  loadAction := a.loadAction
  storeAction := a.storeAction
  initialLayout := if a.loadAction = .kLoad then (s.sources a.texture).layout else .eUndefined

def depthStencilKey (s : Recorder) (target : RenderTarget) : Option DepthStencilKey :=
  target.depthStencil.map fun a =>
    let store := toVKAttachmentStoreOp a.storeAction false
    { format := toVKImageFormat (s.desc a.texture).format
      sampleCount := (s.desc a.texture).sampleCount
      depthLoad := if target.depth.isSome then a.loadAction else .kDontCare
      depthStore := if target.depth.isSome then store else .eDontCare
      stencilLoad := a.loadAction
      stencilStore := store }

/-- The attachments of the target in the order of their bind points, the views of their
textures, and the size. -/
def frameKey (s : Recorder) (target : RenderTarget) : FrameKey where
  colors := target.allColorAttachments.map fun a => colorKey s a.2
  depthStencil := depthStencilKey s target
  views := framebufferViews target
  size := target.size s.desc

/-- One attachment as `CreateVKRenderPass` hands it to the builder. -/
private def describeColor (s : Recorder) (isSwapchain : Bool) (b : RenderPassBuilder) (a : Nat × Attachment) :
    RenderPassBuilder :=
  let desc := s.desc a.2.texture
  b.setColorAttachment a.1 desc.format desc.sampleCount a.2.loadAction a.2.storeAction
    (s.sources a.2.texture).layout isSwapchain

private theorem colorPairs_describeColors {l : List (Nat × Attachment)} {b : RenderPassBuilder}
    (hpos : ∀ a ∈ l, 0 < a.1) (hsorted : l.Pairwise fun a b => a.1 < b.1) (hb : ∀ a ∈ l, b.Below a.1) :
    (l.foldl (describeColor s isSwapchain) b).colorPairs =
      b.colorPairs ++ l.map fun a => (colorKey s a.2).describe isSwapchain := by
  induction l generalizing b with
  | nil => simp
  | cons a l ih =>
    obtain ⟨hlt, hsorted⟩ := List.pairwise_cons.mp hsorted
    have ha := hpos a (by simp)
    have hbelow := hb a (by simp)
    have hnext (e) (he : e ∈ l) : (describeColor s isSwapchain b a).Below e.1 :=
      RenderPassBuilder.below_setColorAttachment ha hbelow (hlt e he)
    rw [List.foldl_cons, ih (fun e he => hpos e (by simp [he])) hsorted hnext, describeColor,
      RenderPassBuilder.colorPairs_setColorAttachment ha hbelow, List.append_assoc]
    rfl

private theorem depthStencil_describeColors {l : List (Nat × Attachment)} {b : RenderPassBuilder} :
    (l.foldl (describeColor s isSwapchain) b).depthStencil = b.depthStencil := by
  induction l generalizing b with
  | nil => rfl
  | cons a l ih => rw [List.foldl_cons, ih, describeColor, RenderPassBuilder.depthStencil_setColorAttachment]

theorem describe_colorPairs : (describe s target isSwapchain).colorPairs =
    target.allColorAttachments.map fun a => (colorKey s a.2).describe isSwapchain := by
  have hcolors : (describe s target isSwapchain).colorPairs =
      (target.allColorAttachments.foldl (describeColor s isSwapchain) {}).colorPairs := by
    unfold describe
    split <;> rfl
  rw [hcolors, RenderTarget.allColorAttachments]
  cases target.color0 with
  | none =>
    exact colorPairs_describeColors target.positive target.colors.sorted fun _ _ => ⟨by simp, by simp⟩
  | some a =>
    have hfirst (index) : (describeColor s isSwapchain {} (0, a)).Below index := by
      constructor <;> simp [describeColor, RenderPassBuilder.setColorAttachment]
    have hlater : (target.colors.entries.foldl (describeColor s isSwapchain)
        (describeColor s isSwapchain {} (0, a))).colorPairs = _ :=
      colorPairs_describeColors target.positive target.colors.sorted fun e _ => hfirst e.1
    exact hlater

theorem describe_depthStencil :
    (describe s target isSwapchain).depthStencil = (depthStencilKey s target).map (·.describe) := by
  unfold describe depthStencilKey RenderTarget.depthStencil
  cases target.depth with
  | some depth => rfl
  | none =>
    cases target.stencil with
    | some stencil => rfl
    | none => exact depthStencil_describeColors

/-- What the device is asked for where nothing is cached. -/
structure FrameObjects where
  renderPass : RenderPassInfo
  views : List Nat
  size : Geometry.ISize
  deriving DecidableEq, Repr

/-- `CreateVKRenderPass` and `CreateVKFramebuffer` without recycled objects. -/
def freshObjects (s : Recorder) (target : RenderTarget) (isSwapchain : Bool) : FrameObjects where
  renderPass := (describe s target isSwapchain).build
  views := framebufferViews target
  size := target.size s.desc

/-- The key of a target tells its objects, and the objects tell the key. -/
theorem freshObjects_inj {target' : RenderTarget} :
    freshObjects s target isSwapchain = freshObjects t target' isSwapchain ↔
      frameKey s target = frameKey t target' := by
  have hcolors : (describe s target isSwapchain).colorPairs = (describe t target' isSwapchain).colorPairs ↔
      (frameKey s target).colors = (frameKey t target').colors := by
    rw [describe_colorPairs, describe_colorPairs, frameKey, frameKey,
      ← (List.map_injective_iff.mpr (ColorKey.describe_injective isSwapchain)).eq_iff, List.map_map, List.map_map]
    rfl
  have hdepth : (describe s target isSwapchain).depthStencil = (describe t target' isSwapchain).depthStencil ↔
      (frameKey s target).depthStencil = (frameKey t target').depthStencil := by
    rw [describe_depthStencil, describe_depthStencil,
      (Option.map_injective DepthStencilKey.describe_injective).eq_iff]
    rfl
  simp only [freshObjects, FrameObjects.mk.injEq, RenderPassBuilder.build_inj, hcolors, hdepth, frameKey,
    FrameKey.mk.injEq, and_assoc]

end RenderPass
end Ogre.Hal
