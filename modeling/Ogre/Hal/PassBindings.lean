import Ogre.Hal.PassCommands

/-! Bindings of a render pass: the entries of its workspace arrays, the writes that name them,
and the writes that a draw passes on. -/
namespace Ogre.Hal
open Ogre.Core Ogre.Fml Ogre.Library

namespace Workspace
variable {w u : Workspace} {write : WriteDescriptorSet}

/-- The offsets are within the arrays. -/
structure InBounds (w : Workspace) : Prop where
  images : w.images.length ≤ kMaxBindings
  buffers : w.buffers.length ≤ kMaxBindings
  writes : w.writes.length ≤ kMaxBindings + kMaxBindings

/-- The entry at an offset, which is yet to be written. -/
def IsNext (w : Workspace) : WorkspaceInfo → Prop
  | .image index => index = w.images.length
  | .buffer index => index = w.buffers.length

/-- One write is added, which names an entry that is written with it, and what the others name
is as it was. -/
structure Adds (w u : Workspace) (write : WriteDescriptorSet) : Prop where
  added : ∃ entry, u.writes = w.writes ++ [entry] ∧ w.IsNext entry.info ∧
    ⟨entry.binding, entry.descriptorType, u.info entry.info⟩ = write
  kept : ∀ entry ∈ w.writes, u.info entry.info = w.info entry.info

/-- Every entry was written for one write, and each write names one. -/
structure Bound (w : Workspace) : Prop where
  length : w.writes.length = w.images.length + w.buffers.length
  named : ∀ entry ∈ w.writes, (w.info entry.info).isSome

theorem bound_empty : Bound {} := ⟨rfl, by simp⟩

theorem Bound.inBounds (h : w.Bound) (hi : w.images.length ≤ kMaxBindings) (hb : w.buffers.length ≤ kMaxBindings) :
    w.InBounds := ⟨hi, hb, by rw [h.length]; omega⟩

theorem Adds.writeDescriptorSets (h : w.Adds u write) : u.writeDescriptorSets = w.writeDescriptorSets ++ [write] := by
  obtain ⟨entry, hu, -, rfl⟩ := h.added
  rw [Workspace.writeDescriptorSets, hu, List.map_append, Workspace.writeDescriptorSets]
  congr 1
  apply List.map_congr_left
  intro entry he
  rw [h.kept entry he]

private theorem info_of_append {info : WorkspaceInfo} {writes : List WorkspaceWrite} (images : List (Nat × ImageLayout))
    (buffers : List BufferView) (h : (w.info info).isSome) :
    (Workspace.mk (w.images ++ images) (w.buffers ++ buffers) writes).info info = w.info info := by
  cases info with
  | image index =>
    have hlt : index < w.images.length := by simpa [info] using h
    simp [Workspace.info, List.getElem?_append_left hlt]
  | buffer index =>
    have hlt : index < w.buffers.length := by simpa [info] using h
    simp [Workspace.info, List.getElem?_append_left hlt]

theorem Bound.addImage (h : w.Bound) (binding : Nat) (type : VkDescriptorType) (texture : Nat) (layout : ImageLayout) :
    (w.addImage binding type texture layout).Bound ∧
    w.Adds (w.addImage binding type texture layout) ⟨binding, type, some (.image texture layout)⟩ := by
  have hkept : ∀ entry ∈ w.writes, (w.addImage binding type texture layout).info entry.info = w.info entry.info := by
    intro entry he
    simpa [Workspace.addImage] using info_of_append [(texture, layout)] [] (h.named entry he)
  have hnew : (w.addImage binding type texture layout).info (.image w.images.length) = some (.image texture layout) := by
    simp [Workspace.addImage, Workspace.info]
  refine ⟨⟨?_, fun entry he => ?_⟩, ⟨_, rfl, rfl, ?_⟩, hkept⟩
  · simp only [Workspace.addImage, List.length_append, List.length_singleton, h.length]
    omega
  · rcases List.mem_append.mp he with he | he
    · rw [hkept entry he]
      exact h.named entry he
    · obtain rfl := List.mem_singleton.mp he
      rw [hnew]
      rfl
  · simp only [hnew]

theorem Bound.addBuffer (h : w.Bound) (binding : Nat) (type : VkDescriptorType) (view : BufferView) :
    (w.addBuffer binding type view).Bound ∧
    w.Adds (w.addBuffer binding type view) ⟨binding, type, some (.buffer view)⟩ := by
  have hkept : ∀ entry ∈ w.writes, (w.addBuffer binding type view).info entry.info = w.info entry.info := by
    intro entry he
    simpa [Workspace.addBuffer] using info_of_append [] [view] (h.named entry he)
  have hnew : (w.addBuffer binding type view).info (.buffer w.buffers.length) = some (.buffer view) := by
    simp [Workspace.addBuffer, Workspace.info]
  refine ⟨⟨?_, fun entry he => ?_⟩, ⟨_, rfl, rfl, ?_⟩, hkept⟩
  · simp only [Workspace.addBuffer, List.length_append, List.length_singleton, h.length]
    omega
  · rcases List.mem_append.mp he with he | he
    · rw [hkept entry he]
      exact h.named entry he
    · obtain rfl := List.mem_singleton.mp he
      rw [hnew]
      rfl
  · simp only [hnew]

/-- A write is added for its own view only. -/
theorem Bound.adds_iff (h : w.Bound) (binding : Nat) (type : VkDescriptorType) (view other : BufferView) :
    w.Adds (w.addBuffer binding type view) ⟨binding, type, some (.buffer other)⟩ ↔ view = other := by
  have hadds := (h.addBuffer binding type view).2
  constructor
  · intro ho
    have hlists := List.append_cancel_left (hadds.writeDescriptorSets.symm.trans ho.writeDescriptorSets)
    simpa using hlists
  · rintro rfl
    exact hadds

end Workspace

theorem bufferInfo_eq_iff {view : BufferView} : bufferInfo view = view ↔ view.range.offset < 4294967296 := by
  constructor
  · intro h
    have hoffset : view.range.offset % 4294967296 = view.range.offset := congrArg (fun view => view.range.offset) h
    exact Nat.mod_eq_iff_lt (by decide) |>.mp hoffset
  · intro h
    simp only [bufferInfo, Nat.mod_eq_of_lt h]

namespace RenderPass
variable {s t : PassRun RenderPass} {c : Call} {calls : List Call} {debug : Bool}

def Call.isBind : Call → Bool
  | .bindBuffer _ _ _ | .bindTexture _ _ _ => true
  | _ => false

def Call.isDraw : Call → Bool
  | .draw _ _ => true
  | _ => false

/-- The writes since the last `Draw`, and whether one that returned early has `left` some before. -/
structure Since where
  made : List WriteDescriptorSet := []
  left : Bool := false

/-- What a call is to write, unless it is given nothing. -/
def write (p : RenderPass) : Call → Option WriteDescriptorSet
  | .setPipeline _ => some ⟨kMagicSubpassInputBinding, .eInputAttachment, some (.image p.colorImage .eGeneral)⟩
  | .bindBuffer binding type view =>
    view.getBuffer.map fun _ => ⟨binding, toVKDescriptorType type, some (.buffer view)⟩
  | .bindTexture binding texture sampler =>
    (texture.filter fun _ => sampler).map fun texture =>
      ⟨binding, .eCombinedImageSampler, some (.image texture .eShaderReadOnlyOptimal)⟩
  | _ => none

/-- A pipeline that uses input attachments is accepted with their binding. -/
def accepts (t : PassRun RenderPass) : Call → Bool
  | .setPipeline pipeline => pipeline.any (·.usesInputAttachments) && t.pass.pipeline.isSome
  | .bindBuffer _ _ _ | .bindTexture _ _ _ => t.answer
  | _ => false

def Since.update (s : PassRun RenderPass) (c : Call) (t : PassRun RenderPass) (g : Since) : Since :=
  match c with
  | .draw _ _ => { left := !t.answer && (g.left || !s.pass.workspace.writes.isEmpty) }
  | _ => if accepts t c then { g with made := g.made ++ (s.pass.write c).toList } else g

/-- What was passed to the device between two states. -/
def passed (s t : PassRun RenderPass) : List (List WriteDescriptorSet) :=
  (t.recorder.recorded.drop s.recorder.recorded.length).filterMap fun r => match r.command with
    | .bindDescriptorSets _ _ writes => some writes
    | _ => none

/-- The call stays within the arrays. A bind adds one write or changes nothing, a `Draw` that
gets through passes on the writes since the last one. -/
structure Binds (s : PassRun RenderPass × Since) (c : Call) (t : PassRun RenderPass × Since) : Prop where
  running : t.1.crashed = false
  inBounds : t.1.pass.workspace.InBounds
  adds : accepts t.1 c → ∃ write ∈ s.1.pass.write c, s.1.pass.workspace.Adds t.1.pass.workspace write
  keeps : accepts t.1 c = false → c.isDraw = false → t.1.pass.workspace = s.1.pass.workspace
  refuses : accepts t.1 c = false → c.isBind → t.1.pass = s.1.pass ∧ t.1.recorder = s.1.recorder
  passes : c.isDraw → passed s.1 t.1 = if t.1.answer then [s.2.made] else []

/-- There is room in the array, a buffer is bound with a view of its first 4 GiB, and a `Draw`
that gets through does not follow one that left writes behind. -/
def Bindable (s : PassRun RenderPass × Since) (c : Call) (_ : PassRun RenderPass × Since) : Prop :=
  match c with
  | .bindBuffer _ _ view => s.1.pass.workspace.buffers.length < kMaxBindings →
    view.getBuffer.isSome ∧ view.range.offset < 4294967296
  | .bindTexture _ texture sampler => s.1.pass.workspace.buffers.length < kMaxBindings →
    texture.isSome → sampler → s.1.pass.workspace.images.length < kMaxBindings
  | .draw variant descriptorSet => s.1.pass.draws variant descriptorSet → s.2.left = false
  | _ => True

/-- The workspace holds the writes since the last `Draw`, after those that were left. -/
structure Tracked (s : PassRun RenderPass) (g : Since) : Prop where
  running : s.crashed = false
  inBounds : s.pass.workspace.InBounds
  bound : s.pass.workspace.Bound
  made : g.left = false → s.pass.workspace.writeDescriptorSets = g.made
  left : g.left → g.made.length < s.pass.workspace.writes.length

private theorem update_of_accepts {g : Since} {write : WriteDescriptorSet} (ha : accepts t c)
    (hw : s.pass.write c = some write) : Since.update s c t g = { g with made := g.made ++ [write] } := by
  unfold Since.update
  split
  · cases ha
  · rw [if_pos ha, hw]
    rfl

private theorem update_of_not_accepts {g : Since} (ha : accepts t c = false) (hd : c.isDraw = false) :
    Since.update s c t g = g := by
  unfold Since.update
  split
  · cases hd
  · rw [ha]
    rfl

/-- A call that adds no write, and is not a bind that records something. -/
private theorem Tracked.keep {g : Since} (h : Tracked s g) (ha : accepts t c = false) (hd : c.isDraw = false)
    (hw : t.pass.workspace = s.pass.workspace) (hr : t.crashed = false)
    (hb : c.isBind → t.pass = s.pass ∧ t.recorder = s.recorder) :
    Binds (s, g) c (t, Since.update s c t g) ∧ Tracked t (Since.update s c t g) := by
  rw [update_of_not_accepts ha hd]
  refine ⟨⟨hr, by rw [hw]; exact h.inBounds, fun hy => ?_, fun _ _ => hw, fun _ => hb, fun hy => ?_⟩, ?_⟩
  · rw [ha] at hy
    cases hy
  · rw [hd] at hy
    cases hy
  · refine ⟨hr, ?_, ?_, ?_, ?_⟩ <;> rw [hw]
    · exact h.inBounds
    · exact h.bound
    · exact h.made
    · exact h.left

/-- A call that adds its write within the arrays. -/
private theorem Tracked.add {g : Since} {write : WriteDescriptorSet} (h : Tracked s g) (ha : accepts t c)
    (hd : c.isDraw = false) (hr : t.crashed = false) (hi : t.pass.workspace.InBounds) (hb : t.pass.workspace.Bound)
    (hw : s.pass.write c = some write) (hadds : s.pass.workspace.Adds t.pass.workspace write) :
    Binds (s, g) c (t, Since.update s c t g) ∧ Tracked t (Since.update s c t g) := by
  rw [update_of_accepts ha hw]
  refine ⟨⟨hr, hi, fun _ => ⟨write, hw, hadds⟩, fun hn => ?_, fun hn => ?_, fun hy => ?_⟩, ⟨hr, hi, hb, fun hl => ?_,
    fun hl => ?_⟩⟩
  · rw [ha] at hn
    cases hn
  · rw [ha] at hn
    cases hn
  · rw [hd] at hy
    cases hy
  · rw [hadds.writeDescriptorSets, h.made hl]
  · obtain ⟨entry, hu, -⟩ := hadds.added
    have hlt := h.left hl
    simp only [hu, List.length_append, List.length_singleton]
    omega

private theorem passed_of_eq (h : t.recorder = s.recorder) : passed s t = [] := by
  rw [passed, h, List.drop_length]
  rfl

private theorem passed_recordDraw {p : RenderPass} (pipeline : RenderPipeline)
    (h : t.recorder = p.recordDraw s.recorder pipeline) : passed s t = [p.workspace.writeDescriptorSets] := by
  rw [passed, h, recordDraw]
  cases p.pipelineUsesInputAttachments <;> cases p.hasIndexBuffer <;> simp [Recorder.record]

/-- What holds of a call that meets the condition, whatever it is. -/
private theorem of_binds {g : Since} {b : Prop} (hb : b)
    (h : Binds (s, g) c (t, Since.update s c t g) ∧ Tracked t (Since.update s c t g)) :
    (Binds (s, g) c (t, Since.update s c t g) ↔ b) ∧ (b → Tracked t (Since.update s c t g)) :=
  ⟨iff_of_true h.1 hb, fun _ => h.2⟩

private theorem setPipeline_tracked {g : Since} (pipeline : Option RenderPipeline) (h : Tracked s g) :
    Binds (s, g) (.setPipeline pipeline) (s.call (s.pass.setPipeline pipeline, s.recorder),
        Since.update s (.setPipeline pipeline) (s.call (s.pass.setPipeline pipeline, s.recorder)) g) ∧
      Tracked (s.call (s.pass.setPipeline pipeline, s.recorder))
        (Since.update s (.setPipeline pipeline) (s.call (s.pass.setPipeline pipeline, s.recorder)) g) := by
  cases pipeline with
  | none => exact h.keep rfl rfl rfl h.running (by simp [Call.isBind])
  | some pipeline =>
    cases huses : pipeline.usesInputAttachments with
    | false =>
      have hw : (s.pass.setPipeline (some pipeline)).workspace = s.pass.workspace := by simp [setPipeline, huses]
      exact h.keep (by simp [accepts, huses]) rfl hw h.running (by simp [Call.isBind])
    | true =>
      rcases Nat.lt_or_ge s.pass.workspace.images.length kMaxBindings with hlt | hge
      · have ht : s.pass.setPipeline (some pipeline) = { s.pass with
            pipeline := some pipeline
            pipelineUsesInputAttachments := true
            workspace := s.pass.workspace.addImage kMagicSubpassInputBinding .eInputAttachment s.pass.colorImage
              .eGeneral } := by
          simp [setPipeline, huses, Nat.not_le.mpr hlt]
        obtain ⟨hbound, hadds⟩ := h.bound.addImage kMagicSubpassInputBinding .eInputAttachment s.pass.colorImage .eGeneral
        rw [ht]
        refine h.add (by simp [accepts, PassRun.call, huses]) rfl h.running ?_ hbound rfl hadds
        refine hbound.inBounds ?_ h.inBounds.buffers
        simp only [Workspace.addImage, List.length_append, List.length_singleton]
        omega
      · have ht : s.pass.setPipeline (some pipeline) = { s.pass with
            pipeline := none
            pipelineUsesInputAttachments := true } := by
          simp [setPipeline, huses, hge]
        rw [ht]
        exact h.keep (by simp [accepts, PassRun.call]) rfl rfl h.running (by simp [Call.isBind])

private theorem bindBuffer_tracked {g : Since} (binding : Nat) (type : DescriptorType) (view : BufferView)
    (h : Tracked s g) (ht : t = s.callBool (s.pass.bindBuffer s.recorder binding type view)) :
    (Binds (s, g) (.bindBuffer binding type view) (t, Since.update s (.bindBuffer binding type view) t g) ↔
      (s.pass.workspace.buffers.length < kMaxBindings → view.getBuffer.isSome ∧ view.range.offset < 4294967296)) ∧
    ((s.pass.workspace.buffers.length < kMaxBindings → view.getBuffer.isSome ∧ view.range.offset < 4294967296) →
      Tracked t (Since.update s (.bindBuffer binding type view) t g)) := by
  rcases Nat.lt_or_ge s.pass.workspace.buffers.length kMaxBindings with hlt | hge
  · cases hview : view.getBuffer with
    | none =>
      have hcrash : t.crashed := by
        rw [ht]
        simp [bindBuffer, hview, Nat.not_le.mpr hlt, PassRun.callBool]
      refine ⟨iff_of_false (fun hb => ?_) (by simp [hlt]), fun hn => by simp [hlt] at hn⟩
      have hrunning := hb.running
      rw [hcrash] at hrunning
      cases hrunning
    | some buffer =>
      have hpass : t.pass.workspace = s.pass.workspace.addBuffer binding (toVKDescriptorType type) (bufferInfo view) ∧
          t.answer ∧ t.crashed = false := by
        rw [ht]
        simp [bindBuffer, hview, Nat.not_le.mpr hlt, PassRun.callBool, PassRun.call, h.running]
      obtain ⟨hw, ha, hr⟩ := hpass
      have hwrite : s.pass.write (.bindBuffer binding type view) =
          some ⟨binding, toVKDescriptorType type, some (.buffer view)⟩ := by simp [write, hview]
      have hiff := h.bound.adds_iff binding (toVKDescriptorType type) (bufferInfo view) view
      have hall (hinfo : bufferInfo view = view) := h.add (t := t) (c := .bindBuffer binding type view) ha rfl hr
        (hw ▸ (h.bound.addBuffer _ _ _).1.inBounds h.inBounds.images (by simp [Workspace.addBuffer]; omega))
        (hw ▸ (h.bound.addBuffer _ _ _).1) hwrite (hw ▸ hiff.mpr hinfo)
      simp only [hlt, forall_const, Option.isSome_some, true_and, ← bufferInfo_eq_iff]
      refine ⟨⟨fun hb => ?_, fun hinfo => (hall hinfo).1⟩, fun hinfo => (hall hinfo).2⟩
      obtain ⟨other, hother, hadds⟩ := hb.adds ha
      obtain rfl := Option.some.inj (hwrite.symm.trans hother)
      exact hiff.mp (by rwa [← hw])
  · have hsame : t = { s with answer := false } := by
      rw [ht]
      simp [bindBuffer, hge, PassRun.callBool, PassRun.call]
    apply of_binds
    · intro hlt
      omega
    · rw [hsame]
      exact h.keep rfl rfl rfl h.running fun _ => ⟨rfl, rfl⟩

private theorem bindTexture_tracked {g : Since} (binding : Nat) (texture : Option Nat) (sampler : Bool)
    (h : Tracked s g) (ht : t = s.callBool (some (s.pass.bindTexture s.recorder binding texture sampler))) :
    (Binds (s, g) (.bindTexture binding texture sampler) (t, Since.update s (.bindTexture binding texture sampler) t g) ↔
      (s.pass.workspace.buffers.length < kMaxBindings → texture.isSome → sampler →
        s.pass.workspace.images.length < kMaxBindings)) ∧
    ((s.pass.workspace.buffers.length < kMaxBindings → texture.isSome → sampler →
        s.pass.workspace.images.length < kMaxBindings) →
      Tracked t (Since.update s (.bindTexture binding texture sampler) t g)) := by
  have hrefused (hsame : t = { s with answer := false }) :
      Binds (s, g) (.bindTexture binding texture sampler) (t, Since.update s (.bindTexture binding texture sampler) t g) ∧
        Tracked t (Since.update s (.bindTexture binding texture sampler) t g) := by
    rw [hsame]
    exact h.keep rfl rfl rfl h.running fun _ => ⟨rfl, rfl⟩
  rcases Nat.lt_or_ge s.pass.workspace.buffers.length kMaxBindings with hlt | hge
  · have hroom := Nat.not_le.mpr hlt
    cases texture with
    | none =>
      apply of_binds (by simp)
      apply hrefused
      rw [ht]
      simp [bindTexture, hroom, PassRun.callBool, PassRun.call]
    | some texture =>
      cases sampler with
      | false =>
        apply of_binds (by simp)
        apply hrefused
        rw [ht]
        simp [bindTexture, hroom, PassRun.callBool, PassRun.call]
      | true =>
        have hpass : t.pass.workspace = s.pass.workspace.addImage binding .eCombinedImageSampler texture
            .eShaderReadOnlyOptimal ∧ t.answer ∧ t.crashed = false := by
          rw [ht]
          simp [bindTexture, hroom, PassRun.callBool, PassRun.call, h.running]
        obtain ⟨hw, ha, hr⟩ := hpass
        obtain ⟨hbound, hadds⟩ := h.bound.addImage binding .eCombinedImageSampler texture .eShaderReadOnlyOptimal
        have hlength : t.pass.workspace.images.length = s.pass.workspace.images.length + 1 := by
          rw [hw]
          simp [Workspace.addImage]
        have hall (hi : s.pass.workspace.images.length < kMaxBindings) := h.add (t := t)
          (c := .bindTexture binding (some texture) true) ha rfl hr
          (hw ▸ hbound.inBounds (by rw [← hw, hlength]; omega) h.inBounds.buffers) (hw ▸ hbound) rfl (hw ▸ hadds)
        simp only [hlt, forall_const, Option.isSome_some]
        refine ⟨⟨fun hb => ?_, fun hi => (hall hi).1⟩, fun hi => (hall hi).2⟩
        have hle := hb.inBounds.images
        simp only [hlength] at hle
        omega
  · apply of_binds
    · intro hlt
      omega
    · apply hrefused
      rw [ht]
      simp [bindTexture, hge, PassRun.callBool, PassRun.call]

private theorem draw_tracked {g : Since} (variant : Option Nat) (descriptorSet : Bool) (h : Tracked s g)
    (ht : t = drawCall s debug variant descriptorSet) :
    (Binds (s, g) (.draw variant descriptorSet) (t, Since.update s (.draw variant descriptorSet) t g) ↔
      (s.pass.draws variant descriptorSet → g.left = false)) ∧
    Tracked t (Since.update s (.draw variant descriptorSet) t g) := by
  cases hdraws : s.pass.draws variant descriptorSet with
  | true =>
    obtain ⟨pipeline, hdraw⟩ := draw_of_draws (s := s.recorder) hdraws
    have hstate : t.pass = s.pass.drawn ∧ t.answer ∧ t.crashed = false ∧
        t.recorder = ({ s.pass with pipeline := some pipeline } : RenderPass).recordDraw s.recorder pipeline := by
      rw [ht, drawCall, hdraw]
      simp [PassRun.call, h.running]
    obtain ⟨hpass, ha, hr, hrecorder⟩ := hstate
    have hw : t.pass.workspace = {} := by rw [hpass]; rfl
    have hg : Since.update s (.draw variant descriptorSet) t g = {} := by simp [Since.update, ha]
    have hpassed : passed s t = [s.pass.workspace.writeDescriptorSets] := passed_recordDraw pipeline hrecorder
    have hbounds : t.pass.workspace.InBounds := by
      rw [hw]
      exact Workspace.bound_empty.inBounds (Nat.zero_le _) (Nat.zero_le _)
    rw [hg]
    refine ⟨⟨fun hb _ => ?_, fun hl => ?_⟩, ?_⟩
    · have hmade : s.pass.workspace.writeDescriptorSets = g.made := by
        have hpasses := hb.passes rfl
        simpa [hpassed, ha] using hpasses
      cases hl : g.left with
      | false => rfl
      | true =>
        have hlt := h.left hl
        rw [← hmade, Workspace.writeDescriptorSets, List.length_map] at hlt
        exact (Nat.lt_irrefl _ hlt).elim
    · refine ⟨hr, hbounds, fun hy => ?_, fun _ hd => ?_, fun _ hy => ?_, fun _ => ?_⟩
      · cases hy
      · cases hd
      · cases hy
      · simp [hpassed, ha, h.made (hl rfl)]
    · refine ⟨hr, hbounds, ?_, fun _ => ?_, fun hl => ?_⟩
      · rw [hw]
        exact Workspace.bound_empty
      · rw [hw]
        rfl
      · cases hl
  | false =>
    obtain ⟨hcode, pipeline, -, hdraw⟩ := draw_of_not_draws (s := s.recorder) hdraws
    have hstate : t.pass.workspace = s.pass.workspace ∧ t.answer = false ∧ t.crashed = false ∧
        t.recorder = s.recorder := by
      rw [ht, drawCall, if_pos hcode, hdraw]
      exact ⟨rfl, rfl, h.running, rfl⟩
    obtain ⟨hw, ha, hr, hrecorder⟩ := hstate
    have hg : Since.update s (.draw variant descriptorSet) t g =
        { left := g.left || !s.pass.workspace.writes.isEmpty } := by simp [Since.update, ha]
    rw [hg]
    refine ⟨iff_of_true ⟨hr, by rw [hw]; exact h.inBounds, fun hy => ?_, fun _ hd => ?_, fun _ hy => ?_, fun _ => ?_⟩
      (by simp), ⟨hr, by rw [hw]; exact h.inBounds, by rw [hw]; exact h.bound, fun hl => ?_, fun hl => ?_⟩⟩
    · cases hy
    · cases hd
    · cases hy
    · simp [passed_of_eq hrecorder, ha]
    · have hempty : s.pass.workspace.writes = [] := by
        simp only [Bool.or_eq_false_iff, Bool.not_eq_false', List.isEmpty_iff] at hl
        exact hl.2
      rw [hw, Workspace.writeDescriptorSets, hempty]
      rfl
    · -- what was left before is still there
      rw [hw]
      simp only [Bool.or_eq_true, Bool.not_eq_true', List.isEmpty_eq_false_iff] at hl
      rcases hl with hl | hl
      · exact (Nat.zero_le _).trans_lt (h.left hl)
      · exact List.length_pos_iff.mpr hl

private theorem step_tracked {g : Since} (h : Tracked s g) (hs : step debug s c = some t) :
    (Binds (s, g) c (t, Since.update s c t g) ↔ Bindable (s, g) c (t, Since.update s c t g)) ∧
      (Bindable (s, g) c (t, Since.update s c t g) → Tracked t (Since.update s c t g)) := by
  unfold step at hs
  rw [h.running, if_neg (by simp)] at hs
  replace hs := Option.some.inj hs
  cases c with
  | setCommandLabel =>
    apply of_binds trivial
    subst hs
    exact h.keep rfl rfl (by simp) (by simp [h.running]) (by simp [Call.isBind])
  | setPipeline pipeline => exact hs ▸ of_binds trivial (setPipeline_tracked pipeline h)
  | setStencilReference value =>
    apply of_binds trivial
    subst hs
    refine h.keep rfl rfl ?_ ?_ (by simp [Call.isBind])
    · simp only [PassRun.call, setStencilReference]
      split <;> rfl
    · exact h.running
  | setBaseVertex value => exact hs ▸ of_binds trivial (h.keep rfl rfl rfl h.running (by simp [Call.isBind]))
  | setElementCount count => exact hs ▸ of_binds trivial (h.keep rfl rfl rfl h.running (by simp [Call.isBind]))
  | setInstanceCount count => exact hs ▸ of_binds trivial (h.keep rfl rfl rfl h.running (by simp [Call.isBind]))
  | setVertexBuffers views => exact hs ▸ of_binds trivial (h.keep rfl rfl rfl h.running (by simp [Call.isBind]))
  | setIndexBuffer view indexType =>
    apply of_binds trivial
    subst hs
    refine h.keep rfl rfl ?_ ?_ (by simp [Call.isBind])
    · simp only [PassRun.callBool, PassRun.call, setIndexBuffer]
      split
      · rfl
      · split <;> rfl
    · exact h.running
  | bindBuffer binding type view => exact bindBuffer_tracked binding type view h hs.symm
  | bindTexture binding texture sampler => exact bindTexture_tracked binding texture sampler h hs.symm
  | draw variant descriptorSet =>
    obtain ⟨hiff, htracked⟩ := draw_tracked variant descriptorSet h hs.symm
    exact ⟨hiff, fun _ => htracked⟩

/-- A new render pass with the writes that its calls ask for. -/
def bindMachine (debug : Bool) (commandBuffer : Nat) (renderTarget : RenderTarget) (colorImage : Nat)
    (recorder : Recorder) : Machine (PassRun RenderPass × Since) Call :=
  (callMachine debug commandBuffer renderTarget colorImage recorder).withHistory {} Since.update

/-- The calls of a pass bind what they are given if and only if they meet the condition. -/
theorem binds_iff {commandBuffer colorImage : Nat} {renderTarget : RenderTarget} {recorder : Recorder} :
    (bindMachine debug commandBuffer renderTarget colorImage recorder).Along Binds
        (bindMachine debug commandBuffer renderTarget colorImage recorder).init calls ↔
      (bindMachine debug commandBuffer renderTarget colorImage recorder).Along Bindable
        (bindMachine debug commandBuffer renderTarget colorImage recorder).init calls := by
  have hstep : ∀ s c t, Tracked s.1 s.2 → (bindMachine debug commandBuffer renderTarget colorImage recorder).step s c =
      some t → (Binds s c t ↔ Bindable s c t) ∧ (Bindable s c t → Tracked t.1 t.2) := by
    rintro ⟨s, g⟩ c ⟨t, next⟩ h hs
    obtain ⟨hs, hnext⟩ := Machine.withHistory_step hs
    simp only at hnext
    subst hnext
    exact step_tracked h hs
  refine Machine.along_iff (fun s c t h hs => (hstep s c t h hs).1) (fun s c t h hc hs => (hstep s c t h hs).2 hc) ?_
  refine ⟨rfl, Workspace.bound_empty.inBounds (Nat.zero_le _) (Nat.zero_le _), Workspace.bound_empty, fun _ => rfl, ?_⟩
  intro hl
  cases hl

/-- Its only attachment is texture 0. -/
def plainTarget : RenderTarget := { RenderTarget.empty with color0 := some { texture := 0 } }

def plainMachine : Machine (PassRun RenderPass × Since) Call := bindMachine false 0 plainTarget 0 {}

/-- The second draw passes on the input attachment of the first one, which had no descriptor set. -/
def drawnAgain : List Call :=
  [.setPipeline (some ⟨0, true⟩), .draw none false, .setPipeline (some ⟨1, false⟩), .draw none true]

private theorem bound_textures (n : Nat) {s : PassRun RenderPass × Since} (hr : s.1.crashed = false)
    (hb : s.1.pass.workspace.buffers = []) :
    ∃ t, plainMachine.runFrom s (List.replicate n (.bindTexture 1 (some 0) true)) = some t ∧
      t.1.pass.workspace.images.length = s.1.pass.workspace.images.length + n := by
  induction n generalizing s with
  | zero => exact ⟨s, rfl, rfl⟩
  | succ n ih =>
    have hroom : ¬kMaxBindings ≤ s.1.pass.workspace.buffers.length := by
      rw [hb]
      decide
    have hstep : ∃ t, plainMachine.step s (.bindTexture 1 (some 0) true) = some t ∧
        t.1.crashed = false ∧ t.1.pass.workspace.buffers = [] ∧
        t.1.pass.workspace.images.length = s.1.pass.workspace.images.length + 1 := by
      let u := s.1.callBool (some (s.1.pass.bindTexture s.1.recorder 1 (some 0) true))
      refine ⟨(u, Since.update s.1 (.bindTexture 1 (some 0) true) u s.2), ?_, hr, ?_, ?_⟩
      · simp [plainMachine, bindMachine, Machine.withHistory, callMachine, step, hr, u]
      · simpa [u, bindTexture, hroom, PassRun.callBool, PassRun.call, Workspace.addImage] using hb
      · simp [u, bindTexture, hroom, PassRun.callBool, PassRun.call, Workspace.addImage]
    obtain ⟨t, ht, hr, hb, hlength⟩ := hstep
    obtain ⟨u, hu, hul⟩ := ih hr hb
    exact ⟨u, Machine.runFrom_cons_some.mpr ⟨t, ht, hu⟩, by omega⟩

/-- One image too many, a view from 4 GiB on, an empty view, and a draw after one that returned early. -/
theorem binds_missed :
    ¬plainMachine.Along Binds plainMachine.init (List.replicate (kMaxBindings + 1) (.bindTexture 1 (some 0) true)) ∧
      ¬plainMachine.Along Binds plainMachine.init
        [.bindBuffer 1 .kUniformBuffer (.ofRaw ⟨0, 8589934592⟩ ⟨4294967296, 16⟩)] ∧
      ¬plainMachine.Along Binds plainMachine.init [.bindBuffer 1 .kUniformBuffer {}] ∧
      ¬plainMachine.Along Binds plainMachine.init drawnAgain := by
  refine ⟨fun h => ?_, fun h => ?_, fun h => ?_, fun h => ?_⟩
  · obtain ⟨t, ht, hlength⟩ := bound_textures (kMaxBindings + 1) (s := plainMachine.init) rfl rfl
    have hle := Machine.invariant_along (I := fun s => s.1.pass.workspace.images.length ≤ kMaxBindings)
      (fun _ _ _ _ hb _ => hb.inBounds.images) (Nat.zero_le _) h ht
    simp only [hlength] at hle
    exact absurd hle (by decide)
  · obtain ⟨write, hw, hadds⟩ := (h.head rfl).adds rfl
    obtain rfl := Option.some.inj hw
    exact absurd hadds.writeDescriptorSets (by decide)
  · exact absurd (h.head rfl).running (by decide)
  · exact absurd ((Machine.Along.after (drawnAgain.take 3) h rfl rfl).passes rfl) (by decide)

end RenderPass
end Ogre.Hal
