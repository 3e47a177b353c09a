import Ogre.Hal.Encoder

/-! What recorded commands refer to, and what an operation on one command buffer does
to the recorder: it appends commands that refer to tracked objects only. -/
namespace Ogre.Hal
open Ogre.Core

namespace TrackedObjects

/-- Everything that is in `a` is in `b`. -/
structure Within (a b : TrackedObjects) : Prop where
  objects : a.objects ⊆ b.objects
  buffers : a.buffers ⊆ b.buffers
  textures : a.textures ⊆ b.textures

instance (a b : TrackedObjects) : Decidable (a.Within b) :=
  decidable_of_iff (a.objects ⊆ b.objects ∧ a.buffers ⊆ b.buffers ∧ a.textures ⊆ b.textures)
    ⟨fun h => ⟨h.1, h.2.1, h.2.2⟩, fun h => ⟨h.objects, h.buffers, h.textures⟩⟩

variable {a b c : TrackedObjects} {texture : Nat}

@[refl] theorem Within.refl (a : TrackedObjects) : a.Within a :=
  ⟨List.Subset.refl _, List.Subset.refl _, List.Subset.refl _⟩

theorem Within.trans (h : a.Within b) (h' : b.Within c) : a.Within c :=
  ⟨List.Subset.trans h.objects h'.objects, List.Subset.trans h.buffers h'.buffers,
    List.Subset.trans h.textures h'.textures⟩

theorem subset_track {α : Type*} [DecidableEq α] (list : List α) (object : α) : list ⊆ track list object := by
  unfold track
  split
  · exact List.Subset.refl _
  · exact List.subset_append_left _ _

/-- An object that is dropped because it equals the last one is in the list. -/
theorem mem_track {α : Type*} [DecidableEq α] (list : List α) (object : α) : object ∈ track list object := by
  unfold track
  split
  next h => exact List.mem_of_getLast? h
  next => simp

theorem mem_track_iff {α : Type*} [DecidableEq α] {list : List α} {object x : α} :
    x ∈ track list object ↔ x ∈ list ∨ x = object := by
  refine ⟨fun h => ?_, fun h => h.elim (fun h => subset_track _ _ h) fun h => h ▸ mem_track _ _⟩
  unfold track at h
  split at h
  · exact .inl h
  · simpa using h

theorem within_trackObject {object : SharedObject} : a.Within (a.trackObject object) :=
  ⟨subset_track _ _, List.Subset.refl _, List.Subset.refl _⟩

theorem within_trackBuffer {buffer : DeviceBuffer} : a.Within (a.trackBuffer buffer) :=
  ⟨List.Subset.refl _, subset_track _ _, List.Subset.refl _⟩

theorem within_trackTexture : a.Within (a.trackTexture texture) :=
  ⟨List.Subset.refl _, List.Subset.refl _, subset_track _ _⟩

end TrackedObjects

/-- The buffers that the infos of the writes own, and the textures of their images. -/
def WriteDescriptorSet.references (w : WriteDescriptorSet) : TrackedObjects :=
  match w.info with
  | some (.image texture _) => { textures := [texture] }
  | some (.buffer view) => { buffers := view.buffer.toList }
  | none => {}

/-- The objects, the buffers that are passed as shared pointers, and the textures that
the device uses when it executes the command. -/
def Command.references : Command → TrackedObjects
  | .beginRenderPass renderPass framebuffer _ =>
    { objects := [.framebuffer framebuffer.handle, .renderPass renderPass.handle], textures := framebuffer.views }
  | .bindVertexBuffers views => { buffers := views.filterMap (·.buffer) }
  | .bindIndexBuffer view _ => { buffers := view.buffer.toList }
  | .bindDescriptorSets _ _ writes =>
    { buffers := writes.flatMap (·.references.buffers), textures := writes.flatMap (·.references.textures) }
  | .inputAttachmentBarrier texture => { textures := [texture] }
  | .imageBarrier barrier => { textures := [barrier.texture] }
  | .copyImage source destination _ _ => { textures := [source, destination] }
  | .copyImageToBuffer source destination _ _ => { buffers := [destination], textures := [source] }
  | .copyBufferToImage source destination _ _ _ => { buffers := source.buffer.toList, textures := [destination] }
  | .blitImage source destination _ _ _ _ => { textures := [source, destination] }
  | .endRenderPass | .setViewport | .setScissor | .setStencilReference _ | .bindPipeline _ | .draw _ _ _
  | .drawIndexed _ _ _ | .dispatch _ _ _ | .memoryBarrier => {}

/-- The images and the buffers of the arrays. -/
def Workspace.references (w : Workspace) : TrackedObjects where
  buffers := w.buffers.filterMap (·.buffer)
  textures := w.images.map (·.1)

/-- The render pass that a command begins. -/
def Command.begins : Command → Option (VkRenderPass × VkFramebuffer)
  | .beginRenderPass renderPass framebuffer _ => some (renderPass, framebuffer)
  | _ => none

/-- What the command refers to was tracked when it was recorded. -/
def Recorded.KeepsAlive (e : Recorded) : Prop := e.command.references.Within e.tracked

instance (e : Recorded) : Decidable e.KeepsAlive := inferInstanceAs (Decidable (TrackedObjects.Within _ _))

namespace Recorder
variable {s t u : Recorder} {cmd texture : Nat} {layout : ImageLayout} {command : Command}

/-- What textures have besides their layouts. -/
def frames (s : Recorder) (texture : Nat) : TextureInfo × (SampleCount → FramebufferAndRenderPass) :=
  ((s.sources texture).toTextureInfo, (s.sources texture).frameData)

theorem desc_eq_of_frames (h : t.frames = s.frames) : t.desc = s.desc := by
  funext texture
  exact congrArg (·.1.desc) (congrFun h texture)

theorem frames_setLayoutWithoutEncoding : (s.setLayoutWithoutEncoding texture layout).frames = s.frames := by
  funext other
  unfold frames setLayoutWithoutEncoding setSource
  dsimp only
  rcases eq_or_ne other texture with rfl | hne
  · rw [Function.update_self]
  · rw [Function.update_of_ne hne]

@[simp] theorem tracked_record : (s.record cmd command).tracked = s.tracked := rfl
@[simp] theorem tracked_setLayoutWithoutEncoding :
    (s.setLayoutWithoutEncoding texture layout).tracked = s.tracked := rfl
@[simp] theorem tracked_setLayout {baseMipLevel : Nat} :
    (s.setLayout cmd texture layout baseMipLevel).tracked = s.tracked := rfl

/-- From `s` to `t` commands were recorded into one command buffer, with nothing
begun, and nothing untracked. -/
structure Encodes (cmd : Nat) (s t : Recorder) : Prop where
  frames : t.frames = s.frames
  tracked : ∀ c, (s.tracked c).Within (t.tracked c)
  recorded : ∃ entries, t.recorded = s.recorded ++ entries ∧ ∀ e ∈ entries, e.commandBuffer = cmd ∧
    e.command.begins = none ∧ e.KeepsAlive ∧ e.tracked.Within (t.tracked cmd)

namespace Encodes

@[refl] theorem refl (cmd : Nat) (s : Recorder) : Encodes cmd s s :=
  ⟨rfl, fun _ => .refl _, [], by simp⟩

theorem trans (h : Encodes cmd s t) (h' : Encodes cmd t u) : Encodes cmd s u := by
  refine ⟨h'.frames.trans h.frames, fun c => (h.tracked c).trans (h'.tracked c), ?_⟩
  obtain ⟨es, hes, hold⟩ := h.recorded
  obtain ⟨fs, hfs, hnew⟩ := h'.recorded
  refine ⟨es ++ fs, by rw [hfs, hes, List.append_assoc], fun e he => ?_⟩
  rcases List.mem_append.mp he with he | he
  · obtain ⟨hcmd, hbegins, halive, hwithin⟩ := hold e he
    exact ⟨hcmd, hbegins, halive, hwithin.trans (h'.tracked cmd)⟩
  · exact hnew e he

theorem record (command : Command) (hr : command.references.Within (s.tracked cmd)) (hb : command.begins = none) :
    Encodes cmd s (s.record cmd command) :=
  ⟨rfl, fun _ => .refl _, [⟨cmd, command, s.tracked cmd⟩], rfl, fun e he => by
    obtain rfl := List.mem_singleton.mp he
    exact ⟨rfl, hb, hr, .refl _⟩⟩

/-- A command without references. -/
theorem recordPlain (command : Command) (hr : command.references = {}) (hb : command.begins = none) :
    Encodes cmd s (s.record cmd command) :=
  record command (by rw [hr]; exact ⟨List.nil_subset _, List.nil_subset _, List.nil_subset _⟩) hb

theorem setTracked {tracked : TrackedObjects} (h : (s.tracked cmd).Within tracked) :
    Encodes cmd s (s.setTracked cmd tracked) := by
  refine ⟨rfl, fun c => ?_, [], by simp [Recorder.setTracked]⟩
  unfold Recorder.setTracked
  dsimp only
  rcases eq_or_ne c cmd with rfl | hne
  · rwa [Function.update_self]
  · rw [Function.update_of_ne hne]

theorem trackObject {object : SharedObject} : Encodes cmd s (s.trackObject cmd object) :=
  setTracked TrackedObjects.within_trackObject

theorem trackBuffer {buffer : DeviceBuffer} : Encodes cmd s (s.trackBuffer cmd buffer) :=
  setTracked TrackedObjects.within_trackBuffer

theorem trackTexture : Encodes cmd s (s.trackTexture cmd texture) := setTracked TrackedObjects.within_trackTexture

theorem trackView {view : BufferView} : Encodes cmd s (s.trackView cmd view) := by
  unfold Recorder.trackView
  split
  · exact trackBuffer
  · exact refl _ _

theorem setLayoutWithoutEncoding : Encodes cmd s (s.setLayoutWithoutEncoding texture layout) :=
  ⟨frames_setLayoutWithoutEncoding, fun _ => .refl _, [], by simp [Recorder.setLayoutWithoutEncoding, setSource]⟩

theorem setLayout (layout : ImageLayout) (baseMipLevel : Nat) (h : texture ∈ (s.tracked cmd).textures) :
    Encodes cmd s (s.setLayout cmd texture layout baseMipLevel) :=
  setLayoutWithoutEncoding.trans
    (record _ ⟨List.nil_subset _, List.nil_subset _, List.cons_subset.mpr ⟨h, List.nil_subset _⟩⟩ rfl)

end Encodes

theorem mem_trackTexture : texture ∈ ((s.trackTexture cmd texture).tracked cmd).textures := by
  unfold trackTexture setTracked
  dsimp only
  rw [Function.update_self]
  exact TrackedObjects.mem_track _ _

theorem mem_trackBuffer {buffer : DeviceBuffer} : buffer ∈ ((s.trackBuffer cmd buffer).tracked cmd).buffers := by
  unfold trackBuffer setTracked
  dsimp only
  rw [Function.update_self]
  exact TrackedObjects.mem_track _ _

theorem mem_trackObject {object : SharedObject} : object ∈ ((s.trackObject cmd object).tracked cmd).objects := by
  unfold trackObject setTracked
  dsimp only
  rw [Function.update_self]
  exact TrackedObjects.mem_track _ _

/-- A shared buffer that a view is taken from is tracked. -/
theorem mem_trackView {view : BufferView} : view.buffer.toList ⊆ ((s.trackView cmd view).tracked cmd).buffers := by
  unfold trackView BufferView.takeBuffer
  cases view.buffer with
  | none => exact List.nil_subset _
  | some buffer => simpa using mem_trackBuffer

end Recorder

namespace BlitPass
open Recorder

variable {s : Recorder} {cmd source destination texture : Nat}

/-- A command that refers to tracked textures. -/
private theorem textures_within {command : Command} {textures : List Nat} (hr : command.references = { textures })
    (h : textures ⊆ (s.tracked cmd).textures) : command.references.Within (s.tracked cmd) := by
  rw [hr]
  exact ⟨List.nil_subset _, List.nil_subset _, h⟩

private theorem trackTextures_encodes (s : Recorder) (cmd source destination : Nat) :
    Encodes cmd s ((s.trackTexture cmd source).trackTexture cmd destination) ∧
      [source, destination] ⊆ (((s.trackTexture cmd source).trackTexture cmd destination).tracked cmd).textures := by
  refine ⟨Encodes.trackTexture.trans .trackTexture, List.cons_subset.mpr ⟨?_, List.cons_subset.mpr ⟨?_, by simp⟩⟩⟩
  · exact (Encodes.trackTexture.tracked cmd).textures mem_trackTexture
  · exact mem_trackTexture

theorem onCopyTextureToTextureCommand_encodes {region : Geometry.IRect} {origin : Geometry.IPoint} :
    Encodes cmd s (onCopyTextureToTextureCommand s cmd source destination region origin) := by
  obtain ⟨htracks, hboth⟩ := trackTextures_encodes s cmd source destination
  have hs := hboth List.mem_cons_self
  have hd := hboth (List.mem_cons_of_mem _ List.mem_cons_self)
  refine htracks.trans (.trans (.setLayout .eTransferSrcOptimal 0 hs) (.trans (.setLayout .eTransferDstOptimal 0 hd)
    (.trans (.record (.copyImage source destination region origin) (textures_within rfl hboth) rfl) ?_)))
  unfold onCopyTextureToTextureCommand
  dsimp only
  split
  · exact .refl _ _
  · exact .setLayout _ _ hd

theorem addCopyTextureToTexture_encodes {source destination : Option Nat} {region : Option Geometry.IRect}
    {origin : Geometry.IPoint} :
    Encodes cmd s (addCopyTextureToTexture s cmd source destination region origin).2 := by
  unfold addCopyTextureToTexture
  split
  · split
    · exact .refl _ _
    split
    · exact .refl _ _
    dsimp only
    split
    · exact .refl _ _
    · exact onCopyTextureToTextureCommand_encodes
  · exact .refl _ _

theorem onCopyTextureToBufferCommand_encodes {destination : DeviceBuffer} {readback : Bool}
    {region : Geometry.IRect} {offset : Nat} :
    Encodes cmd s (onCopyTextureToBufferCommand s cmd source destination readback region offset) := by
  have hs : source ∈ (((s.trackTexture cmd source).trackBuffer cmd destination).tracked cmd).textures :=
    (Encodes.trackBuffer.tracked cmd).textures mem_trackTexture
  have hd : destination ∈ (((s.trackTexture cmd source).trackBuffer cmd destination).tracked cmd).buffers :=
    mem_trackBuffer
  refine Encodes.trackTexture.trans (.trans .trackBuffer (.trans (.setLayout .eTransferSrcOptimal 0 hs)
    (.trans (.record (.copyImageToBuffer source destination region offset) ?_ rfl) ?_)))
  · exact ⟨List.nil_subset _, by simpa [Command.references] using hd, by simpa [Command.references] using hs⟩
  · unfold onCopyTextureToBufferCommand
    dsimp only
    split
    · exact .recordPlain _ rfl rfl
    · exact .refl _ _

theorem addCopyTextureToBuffer_encodes {source : Option Nat} {destination : Option DeviceBuffer} {readback : Bool}
    {region : Option Geometry.IRect} {offset : Nat} :
    Encodes cmd s (addCopyTextureToBuffer s cmd source destination readback region offset).2 := by
  unfold addCopyTextureToBuffer
  split
  · dsimp only
    split
    · exact .refl _ _
    split
    · exact .refl _ _
    · exact onCopyTextureToBufferCommand_encodes
  · exact .refl _ _

theorem convertTextureToShaderRead_encodes : Encodes cmd s (convertTextureToShaderRead s cmd texture) :=
  Encodes.trackTexture.trans (.setLayout _ _ mem_trackTexture)

theorem onCopyBufferToTextureCommand_encodes {source : BufferView} {region : Geometry.IRect} {mipLevel slice : Nat}
    {convertToRead : Bool} {t : Recorder}
    (h : onCopyBufferToTextureCommand s cmd source destination region mipLevel slice convertToRead = some t) :
    Encodes cmd s t := by
  unfold onCopyBufferToTextureCommand at h
  split at h
  · cases h
  simp only [Option.some.injEq] at h
  subst h
  have hs : source.buffer.toList ⊆ (((s.trackView cmd source).trackTexture cmd destination).tracked cmd).buffers :=
    List.Subset.trans mem_trackView (Encodes.trackTexture.tracked cmd).buffers
  have hd : destination ∈ (((s.trackView cmd source).trackTexture cmd destination).tracked cmd).textures :=
    mem_trackTexture
  refine Encodes.trackView.trans (.trans .trackTexture (.trans (.setLayout .eTransferDstOptimal 0 hd)
    (.trans (.record (.copyBufferToImage source destination region mipLevel slice) ?_ rfl) ?_)))
  · exact ⟨List.nil_subset _, hs, List.cons_subset.mpr ⟨hd, List.nil_subset _⟩⟩
  · split
    · exact .setLayout _ _ hd
    · exact .refl _ _

theorem addCopyBufferToTexture_encodes {source : BufferView} {destination : Option Nat}
    {region : Option Geometry.IRect} {mipLevel slice : Nat} {convertToRead : Bool} {r : Bool × Recorder}
    (h : addCopyBufferToTexture s cmd source destination region mipLevel slice convertToRead = some r) :
    Encodes cmd s r.2 := by
  unfold addCopyBufferToTexture at h
  split at h
  · cases h
    exact .refl _ _
  dsimp only at h
  split at h
  · cases h
    exact .refl _ _
  split at h
  · cases h
    exact .refl _ _
  split at h
  · cases h
    exact .refl _ _
  split at h
  · cases h
    exact .refl _ _
  obtain ⟨t, ht, rfl⟩ := Option.map_eq_some_iff.mp h
  exact onCopyBufferToTextureCommand_encodes ht

theorem resizeTexture_encodes : Encodes cmd s (resizeTexture s cmd source destination) := by
  obtain ⟨htracks, hboth⟩ := trackTextures_encodes s cmd source destination
  have hs := hboth List.mem_cons_self
  have hd := hboth (List.mem_cons_of_mem _ List.mem_cons_self)
  exact htracks.trans (.trans (.setLayout .eTransferSrcOptimal 0 hs) (.trans (.setLayout .eTransferDstOptimal 0 hd)
    (.trans (.record _ (textures_within rfl hboth) rfl) (.setLayout _ _ hd))))

theorem mipBarrier_encodes {oldLayout newLayout : ImageLayout} {baseMipLevel levelCount : Nat}
    (h : texture ∈ (s.tracked cmd).textures) :
    Encodes cmd s (s.record cmd (mipBarrier texture oldLayout newLayout baseMipLevel levelCount)) :=
  .record _ (textures_within rfl (List.cons_subset.mpr ⟨h, List.nil_subset _⟩)) rfl

theorem insertImageMemoryBarrier_encodes {oldLayout newLayout : ImageLayout} {baseMipLevel levelCount : Nat}
    (h : texture ∈ (s.tracked cmd).textures) :
    Encodes cmd s (insertImageMemoryBarrier s cmd texture oldLayout newLayout baseMipLevel levelCount) := by
  unfold insertImageMemoryBarrier
  split
  · exact .refl _ _
  · exact mipBarrier_encodes h

theorem tracked_insertImageMemoryBarrier {oldLayout newLayout : ImageLayout} {baseMipLevel levelCount : Nat} :
    (insertImageMemoryBarrier s cmd texture oldLayout newLayout baseMipLevel levelCount).tracked = s.tracked := by
  unfold insertImageMemoryBarrier
  split <;> rfl

theorem blitMipLevels_encodes {size : Geometry.ISize} {mipLevel count : Nat}
    (h : texture ∈ (s.tracked cmd).textures) : Encodes cmd s (blitMipLevels s cmd texture size mipLevel count) := by
  induction count generalizing s size mipLevel with
  | zero => exact .refl _ _
  | succ count ih =>
    unfold blitMipLevels
    dsimp only
    split
    · exact (mipBarrier_encodes h).trans (ih h)
    · exact (mipBarrier_encodes h).trans ((Encodes.record _ (textures_within rfl (by simp [h])) rfl).trans (ih h))

theorem tracked_blitMipLevels {size : Geometry.ISize} {mipLevel count : Nat} :
    (blitMipLevels s cmd texture size mipLevel count).tracked = s.tracked := by
  induction count generalizing s size mipLevel with
  | zero => rfl
  | succ count ih =>
    unfold blitMipLevels
    dsimp only
    rw [ih]
    split <;> rfl

theorem onGenerateMipmapCommand_encodes : Encodes cmd s (onGenerateMipmapCommand s cmd texture) := by
  have htracked : texture ∈ ((s.trackTexture cmd texture).tracked cmd).textures := mem_trackTexture
  unfold onGenerateMipmapCommand
  dsimp only
  split
  · exact .refl _ _
  refine Encodes.trackTexture.trans (.trans (insertImageMemoryBarrier_encodes htracked)
    (.trans (blitMipLevels_encodes ?_) (.trans (mipBarrier_encodes ?_)
      (.trans (mipBarrier_encodes ?_) .setLayoutWithoutEncoding))))
  · rwa [tracked_insertImageMemoryBarrier]
  · rwa [tracked_blitMipLevels, tracked_insertImageMemoryBarrier]
  · rwa [tracked_record, tracked_blitMipLevels, tracked_insertImageMemoryBarrier]

theorem generateMipmap_encodes {texture : Option Nat} : Encodes cmd s (generateMipmap s cmd texture).2 := by
  unfold generateMipmap
  split
  · exact .refl _ _
  · exact onGenerateMipmapCommand_encodes

end BlitPass

namespace Workspace
variable {w : Workspace} {binding texture : Nat} {descriptorType : VkDescriptorType} {layout : ImageLayout}
  {view : BufferView} {tracked : TrackedObjects}

theorem references_empty : ({} : Workspace).references.Within tracked :=
  ⟨List.nil_subset _, List.nil_subset _, List.nil_subset _⟩

theorem references_addImage (h : w.references.Within tracked) (ht : texture ∈ tracked.textures) :
    (w.addImage binding descriptorType texture layout).references.Within tracked := by
  refine ⟨h.objects, h.buffers, fun x hx => ?_⟩
  simp only [references, addImage, List.map_append, List.map_cons, List.map_nil, List.mem_append,
    List.mem_singleton] at hx
  rcases hx with hx | rfl
  · exact h.textures hx
  · exact ht

theorem references_addBuffer (h : w.references.Within tracked) (hv : view.buffer.toList ⊆ tracked.buffers) :
    (w.addBuffer binding descriptorType view).references.Within tracked := by
  refine ⟨h.objects, fun x hx => ?_, h.textures⟩
  simp only [references, addBuffer, List.filterMap_append, List.mem_append, List.mem_filterMap,
    List.mem_singleton] at hx
  rcases hx with ⟨v, hv, hx⟩ | ⟨v, rfl, hx⟩
  · exact h.buffers (List.mem_filterMap.mpr ⟨v, hv, hx⟩)
  · exact hv (by simpa using hx)

private theorem info_image {i : WorkspaceInfo} {texture : Nat} {layout : ImageLayout}
    (h : w.info i = some (.image texture layout)) : ∃ e ∈ w.images, e.1 = texture := by
  cases i with
  | image index =>
    obtain ⟨e, he, h⟩ := Option.map_eq_some_iff.mp h
    cases h
    exact ⟨e, List.mem_of_getElem? he, rfl⟩
  | buffer index =>
    obtain ⟨_, -, h⟩ := Option.map_eq_some_iff.mp h
    cases h

private theorem info_buffer {i : WorkspaceInfo} (h : w.info i = some (.buffer view)) : view ∈ w.buffers := by
  cases i with
  | image index =>
    obtain ⟨_, -, h⟩ := Option.map_eq_some_iff.mp h
    cases h
  | buffer index =>
    obtain ⟨e, he, h⟩ := Option.map_eq_some_iff.mp h
    cases h
    exact List.mem_of_getElem? he

/-- The writes refer to what is in the arrays. -/
theorem references_writeDescriptorSets (layout descriptorSet : Option Nat) :
    (Command.bindDescriptorSets layout descriptorSet w.writeDescriptorSets).references.Within w.references := by
  have hwrite (e) (he : e ∈ w.writeDescriptorSets) : e.references.Within w.references := by
    obtain ⟨write, -, rfl⟩ := List.mem_map.mp he
    unfold WriteDescriptorSet.references
    split
    next image layout hinfo =>
      refine ⟨List.nil_subset _, List.nil_subset _, List.cons_subset.mpr ⟨?_, List.nil_subset _⟩⟩
      obtain ⟨entry, hentry, hw⟩ := info_image hinfo
      exact List.mem_map.mpr ⟨entry, hentry, hw⟩
    next view hinfo =>
      refine ⟨List.nil_subset _, fun x hx => ?_, List.nil_subset _⟩
      exact List.mem_filterMap.mpr ⟨view, info_buffer hinfo, by simpa using hx⟩
    next => exact ⟨List.nil_subset _, List.nil_subset _, List.nil_subset _⟩
  refine ⟨List.nil_subset _, fun x hx => ?_, fun x hx => ?_⟩
  · obtain ⟨e, he, hx⟩ := List.mem_flatMap.mp hx
    exact (hwrite e he).buffers hx
  · obtain ⟨e, he, hx⟩ := List.mem_flatMap.mp hx
    exact (hwrite e he).textures hx

end Workspace

/-- What the draws of a pass use is tracked by its command buffer. -/
structure RenderPass.KeepsAlive (p : RenderPass) (s : Recorder) : Prop where
  workspace : p.workspace.references.Within (s.tracked p.commandBuffer)
  colorImage : p.colorImage ∈ (s.tracked p.commandBuffer).textures

namespace RenderPass
open Recorder

variable {p : RenderPass} {s t : Recorder}

theorem KeepsAlive.mono (h : p.KeepsAlive s) (ht : ∀ c, (s.tracked c).Within (t.tracked c)) : p.KeepsAlive t :=
  ⟨h.workspace.trans (ht _), (ht _).textures h.colorImage⟩

theorem setPipeline_keepsAlive (h : p.KeepsAlive s) {pipeline : Option RenderPipeline} :
    (p.setPipeline pipeline).KeepsAlive s := by
  unfold setPipeline
  split
  · exact ⟨h.workspace, h.colorImage⟩
  dsimp only
  split
  · split
    · exact ⟨h.workspace, h.colorImage⟩
    · exact ⟨Workspace.references_addImage h.workspace h.colorImage, h.colorImage⟩
  · exact ⟨h.workspace, h.colorImage⟩

theorem setStencilReference_encodes {value : Nat} (h : p.KeepsAlive s) :
    Encodes p.commandBuffer s (p.setStencilReference s value).2 ∧
      (p.setStencilReference s value).1.KeepsAlive (p.setStencilReference s value).2 := by
  unfold setStencilReference
  split
  · exact ⟨.refl _ _, h⟩
  · exact ⟨.recordPlain _ rfl rfl, h.workspace, h.colorImage⟩

private theorem trackViews_encodes (cmd : Nat) (views : List BufferView) :
    Encodes cmd s (views.foldl (fun s view => s.trackView cmd view) s) ∧
      views.filterMap (·.buffer) ⊆ ((views.foldl (fun s view => s.trackView cmd view) s).tracked cmd).buffers := by
  induction views generalizing s with
  | nil => exact ⟨.refl _ _, List.nil_subset _⟩
  | cons view views ih =>
    obtain ⟨hencodes, hviews⟩ := ih (s := s.trackView cmd view)
    refine ⟨Encodes.trackView.trans hencodes, fun x hx => ?_⟩
    obtain ⟨v, hv, hbuffer⟩ := List.mem_filterMap.mp hx
    rcases List.mem_cons.mp hv with rfl | hv
    · exact (hencodes.tracked cmd).buffers (mem_trackView (by simpa using hbuffer))
    · exact hviews (List.mem_filterMap.mpr ⟨v, hv, hbuffer⟩)

theorem setVertexBuffers_encodes {views : List BufferView} :
    Encodes p.commandBuffer s (p.setVertexBuffers s views).2 := by
  unfold setVertexBuffers
  split
  · exact .refl _ _
  · obtain ⟨hencodes, hviews⟩ := trackViews_encodes (s := s) p.commandBuffer views
    exact hencodes.trans (.record _ ⟨List.nil_subset _, hviews, List.nil_subset _⟩ rfl)

theorem setIndexBuffer_encodes {view : BufferView} {indexType : IndexType} (h : p.KeepsAlive s) :
    Encodes p.commandBuffer s (p.setIndexBuffer s view indexType).2.2 ∧
      (p.setIndexBuffer s view indexType).2.1.KeepsAlive (p.setIndexBuffer s view indexType).2.2 := by
  unfold setIndexBuffer
  split
  · exact ⟨.refl _ _, h⟩
  split
  · exact ⟨.refl _ _, h.workspace, h.colorImage⟩
  · have hencodes : Encodes p.commandBuffer s ((s.trackView p.commandBuffer view).record p.commandBuffer
        (.bindIndexBuffer view indexType)) :=
      Encodes.trackView.trans (.record _ ⟨List.nil_subset _, mem_trackView, List.nil_subset _⟩ rfl)
    have hkept := h.mono hencodes.tracked
    exact ⟨hencodes, hkept.workspace, hkept.colorImage⟩

theorem bindBuffer_encodes {binding : Nat} {type : DescriptorType} {view : BufferView}
    {r : Bool × RenderPass × Recorder} (h : p.KeepsAlive s) (hr : p.bindBuffer s binding type view = some r) :
    Encodes p.commandBuffer s r.2.2 ∧ r.2.1.KeepsAlive r.2.2 := by
  unfold bindBuffer at hr
  split at hr
  · cases hr
    exact ⟨.refl _ _, h⟩
  split at hr
  · cases hr
  · cases hr
    have htracks : Encodes p.commandBuffer s (s.trackView p.commandBuffer view) := Encodes.trackView
    have hkept := h.mono htracks.tracked
    have hview : view.buffer.toList ⊆ ((s.trackView p.commandBuffer view).tracked p.commandBuffer).buffers := mem_trackView
    exact ⟨.trackView, Workspace.references_addBuffer hkept.workspace hview, hkept.colorImage⟩

theorem bindTexture_encodes {binding : Nat} {texture : Option Nat} {sampler : Bool} (h : p.KeepsAlive s) :
    Encodes p.commandBuffer s (p.bindTexture s binding texture sampler).2.2 ∧
      (p.bindTexture s binding texture sampler).2.1.KeepsAlive (p.bindTexture s binding texture sampler).2.2 := by
  unfold bindTexture
  split
  · exact ⟨.refl _ _, h⟩
  split
  next texture =>
    have htracks : Encodes p.commandBuffer s (s.trackTexture p.commandBuffer texture) := Encodes.trackTexture
    have hkept := h.mono htracks.tracked
    exact ⟨.trackTexture, Workspace.references_addImage hkept.workspace mem_trackTexture, hkept.colorImage⟩
  next => exact ⟨.refl _ _, h⟩

theorem recordDraw_encodes {pipeline : RenderPipeline} (h : p.KeepsAlive s) :
    Encodes p.commandBuffer s (p.recordDraw s pipeline) := by
  have hbound : Encodes p.commandBuffer s ((s.record p.commandBuffer (.bindPipeline pipeline.key)).record
      p.commandBuffer (.bindDescriptorSets (some pipeline.key) (some pipeline.key) p.workspace.writeDescriptorSets)) :=
    Encodes.trans (.recordPlain _ rfl rfl)
      (.record _ ((Workspace.references_writeDescriptorSets _ _).trans h.workspace) rfl)
  have hdraw {s : Recorder} : Encodes p.commandBuffer s (s.record p.commandBuffer
      (if p.hasIndexBuffer then .drawIndexed p.elementCount p.instanceCount p.baseVertex
        else .draw p.elementCount p.instanceCount p.baseVertex)) := by
    split <;> exact .recordPlain _ rfl rfl
  unfold recordDraw
  dsimp only
  split
  · refine hbound.trans (.trans (.record _ ?_ rfl) hdraw)
    exact ⟨List.nil_subset _, List.nil_subset _, List.cons_subset.mpr ⟨h.colorImage, List.nil_subset _⟩⟩
  · exact hbound.trans hdraw

theorem draw_encodes {variant : Option Nat} {descriptorSet : Bool} (h : p.KeepsAlive s) :
    Encodes p.commandBuffer s (p.draw s variant descriptorSet).2.2 ∧
      (p.draw s variant descriptorSet).2.1.KeepsAlive (p.draw s variant descriptorSet).2.2 := by
  unfold draw
  split
  · exact ⟨.refl _ _, h⟩
  split
  · exact ⟨.refl _ _, h⟩
  dsimp only
  split
  · exact ⟨.refl _ _, h.workspace, h.colorImage⟩
  · have hdrawn {pipeline : RenderPipeline} :
        Encodes p.commandBuffer s (RenderPass.recordDraw { p with pipeline := some pipeline } s pipeline) :=
      recordDraw_encodes (p := { p with pipeline := some pipeline }) ⟨h.workspace, h.colorImage⟩
    exact ⟨hdrawn, Workspace.references_empty, (hdrawn.tracked _).textures h.colorImage⟩

end RenderPass

def ComputePass.KeepsAlive (p : ComputePass) (s : Recorder) : Prop :=
  p.workspace.references.Within (s.tracked p.commandBuffer)

namespace ComputePass
open Recorder

variable {p : ComputePass} {s t : Recorder}

theorem setPipeline_encodes {pipeline : Nat} {descriptorSet : Bool} (h : p.KeepsAlive s) :
    Encodes p.commandBuffer s (p.setPipeline s pipeline descriptorSet).2 ∧
      (p.setPipeline s pipeline descriptorSet).1.KeepsAlive (p.setPipeline s pipeline descriptorSet).2 := by
  unfold setPipeline
  dsimp only
  split <;> exact ⟨.recordPlain _ rfl rfl, h⟩

theorem bindBuffer_encodes {binding : Nat} {type : DescriptorType} {view : BufferView}
    {r : Bool × ComputePass × Recorder} (h : p.KeepsAlive s) (hr : p.bindBuffer s binding type view = some r) :
    Encodes p.commandBuffer s r.2.2 ∧ r.2.1.KeepsAlive r.2.2 := by
  unfold bindBuffer at hr
  split at hr
  · cases hr
    exact ⟨.refl _ _, h⟩
  split at hr
  · cases hr
  · cases hr
    have hview : view.buffer.toList ⊆ ((s.trackView p.commandBuffer view).tracked p.commandBuffer).buffers := mem_trackView
    exact ⟨.trackView, Workspace.references_addBuffer (h.trans (Encodes.trackView.tracked _)) hview⟩

theorem bindTexture_encodes {binding : Nat} {type : DescriptorType} {texture : Option Nat} {sampler : Bool}
    {r : Bool × ComputePass × Recorder} (h : p.KeepsAlive s)
    (hr : p.bindTexture s binding type texture sampler = some r) :
    Encodes p.commandBuffer s r.2.2 ∧ r.2.1.KeepsAlive r.2.2 := by
  unfold bindTexture at hr
  split at hr
  · cases hr
    exact ⟨.refl _ _, h⟩
  split at hr
  · cases hr
  · cases hr
    exact ⟨.refl _ _, h⟩
  · cases hr
    exact ⟨.trackTexture, Workspace.references_addImage (h.trans (Encodes.trackTexture.tracked _)) mem_trackTexture⟩

theorem compute_encodes {gridSize : Geometry.ISize} (h : p.KeepsAlive s) :
    Encodes p.commandBuffer s (p.compute s gridSize).2.2 ∧
      (p.compute s gridSize).2.1.KeepsAlive (p.compute s gridSize).2.2 := by
  unfold compute
  dsimp only
  split
  · exact ⟨.refl _ _, Workspace.references_empty⟩
  · have hreferences := (Workspace.references_writeDescriptorSets p.pipelineLayout p.descriptorSet).trans h
    refine ⟨Encodes.trans (.record _ hreferences rfl) ?_, Workspace.references_empty⟩
    split <;> exact .recordPlain _ rfl rfl

end ComputePass
end Ogre.Hal
