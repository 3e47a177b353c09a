import Ogre.Hal.EncoderSteps
import Ogre.Library.FirstKept

/-! The render passes and framebuffers that textures cache, against fresh ones. -/
namespace Ogre.Hal
open Ogre.Core Ogre.Library

/-- The objects that a pass is begun with. -/
def FrameObjects.ofPass (pass : VkRenderPass × VkFramebuffer) : RenderPass.FrameObjects :=
  ⟨pass.1.info, pass.2.views, pass.2.size⟩

namespace Recorder
variable {s t : Recorder} {cmd : Nat}

/-- The render passes that are begun, in all command buffers. -/
def begun (s : Recorder) : List (VkRenderPass × VkFramebuffer) := s.recorded.filterMap (·.command.begins)

theorem Encodes.begun (h : Encodes cmd s t) : t.begun = s.begun := by
  obtain ⟨entries, hentries, hplain⟩ := h.recorded
  have hnone : entries.filterMap (·.command.begins) = [] :=
    List.filterMap_eq_nil_iff.mpr fun e he => (hplain e he).2.1
  rw [Recorder.begun, hentries, List.filterMap_append, hnone, List.append_nil]
  rfl

/-- The objects that a texture caches for a sample count. -/
def cachedObjects (s : Recorder) (slot : Nat × SampleCount) : Option RenderPass.FrameObjects :=
  let data := (s.frames slot.1).2 slot.2
  match data.renderPass, data.framebuffer with
  | some renderPass, some framebuffer => some (FrameObjects.ofPass (renderPass, framebuffer))
  | _, _ => none

/-- A render pass is cached together with a framebuffer. -/
def Paired (s : Recorder) : Prop :=
  ∀ texture sampleCount, ((s.frames texture).2 sampleCount).renderPass.isSome =
    ((s.frames texture).2 sampleCount).framebuffer.isSome

theorem frames_setCachedFrameData {texture : Nat} {data : FramebufferAndRenderPass} {sampleCount : SampleCount} :
    (s.setCachedFrameData texture data sampleCount).frames =
      Function.update s.frames texture
        ((s.frames texture).1, Function.update (s.frames texture).2 sampleCount data) := by
  funext other
  unfold frames setCachedFrameData setSource
  dsimp only
  rcases eq_or_ne other texture with rfl | hne
  · rw [Function.update_self, Function.update_self]
  · rw [Function.update_of_ne hne, Function.update_of_ne hne]

end Recorder

namespace RenderPass
open Recorder

variable {s : Recorder} {cmd : Nat} {target : RenderTarget} {color0 : Attachment} {renderPass : VkRenderPass}
  {framebuffer : VkFramebuffer} {createRenderPass createFramebuffer : Bool}

private theorem finish_begun (target : RenderTarget) (renderPass : VkRenderPass) (framebuffer : VkFramebuffer)
    (h : color0.resolveTexture.toList ⊆ (s.tracked cmd).textures) :
    (finish s cmd target color0 renderPass framebuffer).begun = s.begun ++ [(renderPass, framebuffer)] ∧
    (finish s cmd target color0 renderPass framebuffer).frames =
      (s.setCachedFrameData (cacheTexture color0) ⟨some framebuffer, some renderPass⟩
        (s.desc color0.texture).sampleCount).frames := by
  obtain ⟨u, v, hu, -, -, -, hv, -, hw⟩ := finish_cases target renderPass framebuffer h
  constructor
  · have hbegin : (v.record cmd (.beginRenderPass renderPass framebuffer (clearValues target))).begun =
        v.begun ++ [(renderPass, framebuffer)] := by simp [begun, record, Command.begins]
    rw [hw.begun, hbegin, hv.begun]
    exact congrArg (· ++ _) hu.begun
  · rw [hw.frames]
    refine hv.frames.trans ?_
    rw [frames_setCachedFrameData, frames_setCachedFrameData, hu.frames]

/-- A construction that fails begins nothing and caches nothing. -/
theorem create_fails (h : succeeds s color0 createRenderPass createFramebuffer = false) :
    let r := create s cmd target color0 createRenderPass createFramebuffer
    r.2.begun = s.begun ∧ r.2.frames = s.frames := by
  obtain ⟨handles, ⟨-, hcreate⟩ | ⟨hs, -⟩⟩ := create_cases s cmd target color0 createRenderPass
    createFramebuffer
  · dsimp only
    rw [hcreate]
    exact ⟨trackAttachments_encodes.begun, trackAttachments_encodes.frames⟩
  · rw [hs] at h
    cases h

/-- One that succeeds begins a pass with the objects that it then caches. -/
theorem create_succeeds (cmd : Nat) (hcolor0 : target.color0 = some color0)
    (h : succeeds s color0 createRenderPass createFramebuffer = true) :
    let r := create s cmd target color0 createRenderPass createFramebuffer
    ∃ renderPass framebuffer, UsesRenderPass s target color0 createRenderPass renderPass ∧
      UsesFramebuffer s target color0 createFramebuffer framebuffer ∧
      r.2.begun = s.begun ++ [(renderPass, framebuffer)] ∧
      r.2.frames = (s.setCachedFrameData (cacheTexture color0) ⟨some framebuffer, some renderPass⟩
        (s.desc color0.texture).sampleCount).frames := by
  obtain ⟨handles, ⟨hs, -⟩ | ⟨-, renderPass, framebuffer, hpass, hframebuffer, hcreate⟩⟩ := create_cases s
    cmd target color0 createRenderPass createFramebuffer
  · rw [hs] at h
    cases h
  · dsimp only
    rw [hcreate]
    obtain ⟨hbegun, hframes⟩ := finish_begun (s := { trackAttachments s cmd target with handles })
      target renderPass framebuffer
      (List.Subset.trans (resolve_attached hcolor0) attachedTextures_tracked)
    refine ⟨renderPass, framebuffer, hpass, hframebuffer, ?_, ?_⟩
    · rw [hbegun]
      have htracks : Encodes cmd s (trackAttachments s cmd target) := trackAttachments_encodes
      exact congrArg (· ++ _) htracks.begun
    · have hsame : ({ trackAttachments s cmd target with handles } : Recorder).frames = s.frames :=
        trackAttachments_encodes.frames
      rw [hframes, frames_setCachedFrameData, frames_setCachedFrameData, hsame, desc_eq_of_frames hsame]

end RenderPass

namespace Encoder

/-- A construction of a render pass that succeeds, with the state that it starts in. -/
structure Construction where
  recorder : Recorder
  target : RenderTarget
  color0 : Attachment

namespace Construction

/-- The texture and the sample count that the objects are cached under. -/
def slot (c : Construction) : Nat × SampleCount :=
  (RenderPass.cacheTexture c.color0, (c.recorder.desc c.color0.texture).sampleCount)

def key (c : Construction) : FrameKey := RenderPass.frameKey c.recorder c.target

/-- What `CreateVKRenderPass` and `CreateVKFramebuffer` make for the target. -/
def fresh (c : Construction) : RenderPass.FrameObjects :=
  RenderPass.freshObjects c.recorder c.target (RenderPass.isSwapchainTarget c.recorder c.color0)

end Construction

/-- The construction of a step. It succeeds where the device makes what is not cached. -/
def construction (s : Encoder) : Label → Option Construction
  | .createRenderPass _ target createRenderPass createFramebuffer =>
    match target.color0 with
    | some color0 =>
      if RenderPass.succeeds s.recorder color0 createRenderPass createFramebuffer then
        some ⟨s.recorder, target, color0⟩
      else none
    | none => none
  | _ => none

/-- The render passes that the step begins have the objects that would be made afresh. -/
def UsesFresh (s : Encoder) (a : Label) (t : Encoder) : Prop :=
  (t.recorder.begun.drop s.recorder.begun.length).map FrameObjects.ofPass =
    ((s.construction a).map (·.fresh)).toList

/-- Two constructions that share a cache slot have targets with one key. -/
def SameKeys (c d : Construction) : Prop := c.slot = d.slot → c.key = d.key

variable {s t : Encoder} {a : Label} {textures : Nat → TextureInfo}

/-- What is true of every state that a run reaches. -/
structure Cached (textures : Nat → TextureInfo) (s : Encoder) : Prop where
  keepsAlive : s.KeepsAlive
  paired : s.recorder.Paired
  infos : ∀ texture, (s.recorder.frames texture).1 = textures texture

/-- What a step that constructs nothing leaves as it is. -/
private theorem plain_step (h : s.KeepsAlive) (ha : s.construction a = none) (ht : step s a = some t) :
    t.recorder.begun = s.recorder.begun ∧ t.recorder.frames = s.recorder.frames := by
  rcases step_cases h ht with ⟨target, color0, cmd, r, f, rfl, hcolor0, rfl⟩ | ⟨-, ⟨cmd, hencodes⟩, -⟩
  · simp only [construction, hcolor0, ite_eq_right_iff] at ha
    exact RenderPass.create_fails (by simpa using ha)
  · exact ⟨hencodes.begun, hencodes.frames⟩

/-- The objects of a pass are those that its slot holds, or else fresh ones. -/
theorem usedObjects {s : Recorder} {target : RenderTarget} {color0 : Attachment} {r f : Bool}
    {renderPass : VkRenderPass} {framebuffer : VkFramebuffer} (h : s.Paired)
    (hpass : RenderPass.UsesRenderPass s target color0 r renderPass)
    (hframebuffer : RenderPass.UsesFramebuffer s target color0 f framebuffer) :
    FrameObjects.ofPass (renderPass, framebuffer) =
      (s.cachedObjects (Construction.slot ⟨s, target, color0⟩)).getD (Construction.fresh ⟨s, target, color0⟩) := by
  have hpaired := h (RenderPass.cacheTexture color0) (s.desc color0.texture).sampleCount
  unfold RenderPass.UsesRenderPass RenderPass.cachedFrame at hpass
  unfold RenderPass.UsesFramebuffer RenderPass.cachedFrame at hframebuffer
  unfold Recorder.cachedObjects
  dsimp only [Construction.slot, Construction.fresh, Recorder.frames] at hpaired ⊢
  split at hpass
  next cached hcached =>
    rw [hcached] at hpaired
    obtain ⟨kept, hkept⟩ := Option.isSome_iff_exists.mp hpaired.symm
    rw [hkept] at hframebuffer
    rw [hcached, hkept, hpass, hframebuffer]
    rfl
  next hcached =>
    rw [hcached] at hpaired
    have hkept := Option.isNone_iff_eq_none.mp (Option.isSome_eq_false_iff.mp hpaired.symm)
    rw [hkept] at hframebuffer
    rw [hcached, FrameObjects.ofPass, hpass.2, hframebuffer.2.1, hframebuffer.2.2]
    rfl

/-- What a construction uses: what its slot holds, or else what is fresh. -/
private theorem construction_step {c : Construction} (h : Cached textures s) (ha : s.construction a = some c)
    (ht : step s a = some t) : ∃ pass,
      FrameObjects.ofPass pass = (s.recorder.cachedObjects c.slot).getD c.fresh ∧
      t.recorder.begun = s.recorder.begun ++ [pass] ∧
      t.recorder.frames = (s.recorder.setCachedFrameData c.slot.1 ⟨some pass.2, some pass.1⟩ c.slot.2).frames := by
  rcases step_cases h.keepsAlive ht with ⟨target, color0, cmd, r, f, rfl, hcolor0, rfl⟩ | ⟨htarget, -⟩
  · simp only [construction, hcolor0] at ha
    split at ha
    next hs =>
      cases ha
      obtain ⟨renderPass, framebuffer, hpass, hframebuffer, hbegun, hframes⟩ :=
        RenderPass.create_succeeds cmd hcolor0 hs
      exact ⟨(renderPass, framebuffer), usedObjects h.paired hpass hframebuffer, hbegun, hframes⟩
    next => cases ha
  · cases a with
    | createRenderPass => cases htarget
    | _ => cases ha

private theorem cachedObjects_congr {s t : Recorder} (h : t.frames = s.frames) : t.cachedObjects = s.cachedObjects := by
  funext slot
  rw [Recorder.cachedObjects, Recorder.cachedObjects, h]

private theorem cachedObjects_setCachedFrameData {s : Recorder} {slot : Nat × SampleCount}
    {pass : VkRenderPass × VkFramebuffer} :
    (s.setCachedFrameData slot.1 ⟨some pass.2, some pass.1⟩ slot.2).cachedObjects =
      Function.update s.cachedObjects slot (some (FrameObjects.ofPass pass)) := by
  funext other
  rw [Recorder.cachedObjects, Recorder.frames_setCachedFrameData]
  rcases eq_or_ne other.1 slot.1 with htexture | htexture
  · rcases eq_or_ne other.2 slot.2 with hcount | hcount
    · obtain rfl : other = slot := Prod.ext htexture hcount
      simp
    · have hne : other ≠ slot := fun h => hcount (congrArg Prod.snd h)
      rw [Function.update_of_ne hne, htexture, Function.update_self]
      dsimp only
      rw [Function.update_of_ne hcount, Recorder.cachedObjects, htexture]
  · have hne : other ≠ slot := fun h => htexture (congrArg Prod.fst h)
    rw [Function.update_of_ne hne, Function.update_of_ne htexture]
    rfl

theorem step_cached (h : Cached textures s) (ht : step s a = some t) : Cached textures t := by
  cases ha : s.construction a with
  | none =>
    have hframes := (plain_step h.keepsAlive ha ht).2
    refine ⟨step_keepsAlive h.keepsAlive ht, ?_, ?_⟩
    · rw [Recorder.Paired, hframes]
      exact h.paired
    · rw [hframes]
      exact h.infos
  | some c =>
    obtain ⟨pass, -, -, hframes⟩ := construction_step h ha ht
    refine ⟨step_keepsAlive h.keepsAlive ht, fun texture sampleCount => ?_, fun texture => ?_⟩
    · rw [hframes, Recorder.frames_setCachedFrameData]
      rcases eq_or_ne texture c.slot.1 with rfl | hne
      · rw [Function.update_self]
        rcases eq_or_ne sampleCount c.slot.2 with rfl | hcount
        · simp
        · simpa [Function.update_of_ne hcount] using h.paired _ _
      · rw [Function.update_of_ne hne]
        exact h.paired texture sampleCount
    · rw [hframes, Recorder.frames_setCachedFrameData]
      rcases eq_or_ne texture c.slot.1 with rfl | hne
      · rw [Function.update_self]
        exact h.infos _
      · rw [Function.update_of_ne hne]
        exact h.infos texture

theorem init_cached : Cached textures (machine textures).init :=
  ⟨init_keepsAlive, fun _ _ => rfl, fun _ => rfl⟩

/-- The cache is filled by the constructions, and keeps what it holds. -/
theorem step_fill (h : Cached textures s) (ht : step s a = some t) : t.recorder.cachedObjects =
    Machine.fill Construction.slot Construction.fresh s.recorder.cachedObjects (s.construction a) := by
  cases ha : s.construction a with
  | none => exact cachedObjects_congr (plain_step h.keepsAlive ha ht).2
  | some c =>
    obtain ⟨pass, hpass, -, hframes⟩ := construction_step h ha ht
    rw [cachedObjects_congr hframes, cachedObjects_setCachedFrameData, hpass]
    rfl

theorem usesFresh_iff (h : Cached textures s) (ht : step s a = some t) : UsesFresh s a t ↔
    ∀ c ∈ s.construction a, Machine.Agrees Construction.slot Construction.fresh s.recorder.cachedObjects c := by
  unfold UsesFresh
  cases ha : s.construction a with
  | none => simp [(plain_step h.keepsAlive ha ht).1]
  | some c =>
    obtain ⟨pass, hpass, hbegun, -⟩ := construction_step h ha ht
    simp only [hbegun, List.drop_left, List.map_cons, List.map_nil, hpass, Option.map_some, Option.toList_some,
      List.cons.injEq, and_true, Option.mem_def, Option.some.injEq, forall_eq', Machine.Agrees]
    cases s.recorder.cachedObjects c.slot <;> simp


private theorem construction_infos (c : Construction) (h : Cached textures s) (hc : s.construction a = some c) :
    ∀ texture, (c.recorder.frames texture).1 = textures texture := by
  cases a with
  | createRenderPass cmd target r f =>
    simp only [construction] at hc
    split at hc
    · split at hc
      · cases hc
        exact h.infos
      · cases hc
    · cases hc
  | _ => cases hc

/-- In every run, the passes are begun with fresh objects if and only if any two
constructions that share a slot of the cache have targets with one key. -/
theorem usesFresh_iff_sameKeys (textures : Nat → TextureInfo) (labels : List Label) :
    (machine textures).Along UsesFresh (machine textures).init labels ↔
      ((machine textures).collect construction (machine textures).init labels).Pairwise SameKeys := by
  have hstep (s a t) (h : Cached textures s) (ht : (machine textures).step s a = some t) : Cached textures t :=
    step_cached h ht
  rw [Machine.along_iff_pairwise hstep (fun _ _ _ => step_fill) (fun _ _ _ => usesFresh_iff) init_cached
    fun _ => rfl]
  have hinfos : ∀ c ∈ (machine textures).collect construction (machine textures).init labels,
      ∀ texture, (c.recorder.frames texture).1 = textures texture :=
    Machine.forall_collect hstep (fun _ _ c h hc => construction_infos c h hc) init_cached
  refine List.Pairwise.iff_of_mem fun {c d} hc hd => imp_congr_right fun hslot => ?_
  have hswapchain : RenderPass.isSwapchainTarget c.recorder c.color0 =
      RenderPass.isSwapchainTarget d.recorder d.color0 := by
    have hc := congrArg TextureInfo.isSwapchainImage (hinfos c hc c.slot.1)
    have hd := congrArg TextureInfo.isSwapchainImage (hinfos d hd d.slot.1)
    have hcd := congrArg (fun slot => (textures slot.1).isSwapchainImage) hslot
    exact hc.trans (hcd.trans hd.symm)
  rw [Construction.fresh, Construction.fresh, hswapchain]
  exact RenderPass.freshObjects_inj

instance (s t : Encoder) (a : Label) : Decidable (UsesFresh s a t) := inferInstanceAs (Decidable (_ = _))

/-- Texture 0 is drawn to, and the others are depth textures. -/
def depthTextures (texture : Nat) : TextureInfo where
  desc := if texture = 0 then
      { storageMode := .kDevicePrivate, format := .kR8G8B8A8UNormInt, size := ⟨100, 100⟩ }
    else { format := .kD24UnormS8Uint, size := ⟨100, 100⟩ }

def depthTarget (depth : Nat) : RenderTarget where
  color0 := some { texture := 0, loadAction := .kClear }
  depth := some { texture := depth, loadAction := .kClear, storeAction := .kDontCare }

/-- Two targets with one color texture and different depth textures. -/
def depthRun : List Label :=
  [.createRenderPass 0 (depthTarget 1) true true, .createRenderPass 0 (depthTarget 2) true true]

/-- The second pass draws with the depth texture of the first. -/
theorem framebuffer_of_other_target :
    ((machine depthTextures).run depthRun).isSome ∧
      ¬ (machine depthTextures).Along UsesFresh (machine depthTextures).init depthRun := by
  decide

end Encoder
end Ogre.Hal
