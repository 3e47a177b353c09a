import Ogre.Hal.Encoding
import Ogre.Hal.ImageLayouts

/-! The operations that keep the tracked layouts of textures those of their images. -/
namespace Ogre.Hal
open Ogre.Core Ogre.Library Ogre.Geometry

namespace Recorder
variable {textures : Nat → TextureInfo} {s t : Recorder} {l : ImageLayouts} {cmd texture other : Nat}
  {layout : ImageLayout} {command : Command}

/-- The textures are the given ones, and the recorded commands lead to the layouts. -/
structure Executed (textures : Nat → TextureInfo) (s : Recorder) (l : ImageLayouts) : Prop where
  infos : ∀ texture, (s.sources texture).toTextureInfo = textures texture
  replays : Replays (ImageLayouts.execute textures) (ImageLayouts.Expects textures) (fun _ _ _ => .eUndefined)
    (s.recorded.map (·.command)) l

theorem Executed.congr (h : Executed textures s l)
    (hs : ∀ texture, (t.sources texture).toTextureInfo = (s.sources texture).toTextureInfo)
    (hr : t.recorded = s.recorded) : Executed textures t l where
  infos texture := (hs texture).trans (h.infos texture)
  replays := hr ▸ h.replays

theorem Executed.record (cmd : Nat) (command : Command) (h : Executed textures s l) (he : ImageLayouts.Expects textures l command) :
    Executed textures (s.record cmd command) (l.execute textures command) where
  infos := h.infos
  replays := by
    rw [Recorder.record, List.map_append]
    exact h.replays.concat he

theorem sources_setLayoutWithoutEncoding_self :
    ((s.setLayoutWithoutEncoding texture layout).sources texture).layout = layout := by
  unfold setLayoutWithoutEncoding setSource
  dsimp only
  rw [Function.update_self]

theorem sources_setLayoutWithoutEncoding_of_ne (h : other ≠ texture) :
    (s.setLayoutWithoutEncoding texture layout).sources other = s.sources other :=
  Function.update_of_ne h _ _

theorem Executed.setLayoutWithoutEncoding (h : Executed textures s l) :
    Executed textures (s.setLayoutWithoutEncoding texture layout) l := by
  apply h.congr
  · intro other
    exact congrArg Prod.fst (congrFun frames_setLayoutWithoutEncoding other)
  · rfl

/-- The layouts are the tracked ones. -/
structure Tracks (textures : Nat → TextureInfo) (s : Recorder) : Prop where
  infos : ∀ texture, (s.sources texture).toTextureInfo = textures texture
  layouts : s.TracksLayouts textures

theorem Executed.tracks (h : Executed textures s l) (ha : ∀ texture level layer,
    (textures texture).HasSubresource level layer → l texture level layer = (s.sources texture).layout) :
    Tracks textures s :=
  ⟨h.infos, l, h.replays, ha⟩

theorem Tracks.executed (h : Tracks textures s) : ∃ l, Executed textures s l ∧ ∀ texture level layer,
    (textures texture).HasSubresource level layer → l texture level layer = (s.sources texture).layout := by
  obtain ⟨l, hl, ha⟩ := h.layouts
  exact ⟨l, ⟨h.infos, hl⟩, ha⟩

theorem Tracks.congr (h : Tracks textures s)
    (hs : ∀ texture, (t.sources texture).toTextureInfo = (s.sources texture).toTextureInfo ∧
      (t.sources texture).layout = (s.sources texture).layout)
    (hr : t.recorded = s.recorded) : Tracks textures t := by
  obtain ⟨l, hl, ha⟩ := h.executed
  apply (hl.congr (fun texture => (hs texture).1) hr).tracks
  intro texture level layer hsub
  rw [(hs texture).2]
  exact ha texture level layer hsub

theorem Tracks.setTracked {tracked : TrackedObjects} (h : Tracks textures s) :
    Tracks textures (s.setTracked cmd tracked) :=
  h.congr (fun _ => ⟨rfl, rfl⟩) rfl

theorem Tracks.trackView {view : BufferView} (h : Tracks textures s) : Tracks textures (s.trackView cmd view) := by
  unfold Recorder.trackView
  split
  · exact h.setTracked
  · exact h

/-- A command without transitions. -/
theorem Tracks.recordPlain (command : Command) (h : Tracks textures s) (hc : command.transitions textures = []) :
    Tracks textures (s.record cmd command) := by
  obtain ⟨l, hl, ha⟩ := h.executed
  have hexpects : ImageLayouts.Expects textures l command := by
    intro b hb
    rw [hc] at hb
    cases hb
  have hexecute : l.execute textures command = l := by rw [ImageLayouts.execute, hc, List.foldl_nil]
  apply (hl.record cmd command hexpects).tracks
  rw [hexecute]
  exact ha

/-- A barrier on all levels takes the image along with what is tracked. -/
theorem Tracks.setLayout (layout : ImageLayout) (h : Tracks textures s) :
    Tracks textures (s.setLayout cmd texture layout 0) := by
  obtain ⟨l, hl, ha⟩ := h.executed
  have hcovers {other level layer : Nat} (hsub : (textures other).HasSubresource level layer) :
      ImageBarrier.Covers ⟨texture, (s.sources texture).layout, layout, 0, (s.sources texture).desc.mipCount - 0,
        toArrayLayerCount (s.sources texture).desc.type⟩ other level layer ↔ other = texture := by
    refine ⟨fun hc => hc.1, ?_⟩
    rintro rfl
    obtain ⟨hlevel, hlayer⟩ := hsub
    rw [← h.infos other] at hlevel hlayer
    exact ⟨rfl, ⟨Nat.zero_le _, by dsimp only; omega⟩, hlayer⟩
  refine Executed.tracks (hl.setLayoutWithoutEncoding.record cmd _ ?_) ?_
  · intro b hb
    obtain rfl := List.mem_singleton.mp hb
    right
    intro other level layer hsub hc
    rw [ha other level layer hsub, hc.1]
  · intro other level layer hsub
    by_cases hother : other = texture
    · subst hother
      exact (ImageLayouts.transition_of_covers ((hcovers hsub).mpr rfl)).trans
        sources_setLayoutWithoutEncoding_self.symm
    · refine (ImageLayouts.transition_of_not_covers fun hc => hother ((hcovers hsub).mp hc)).trans ?_
      rw [ha other level layer hsub]
      exact congrArg (·.layout) (sources_setLayoutWithoutEncoding_of_ne hother).symm

end Recorder

namespace BlitPass
open Recorder
variable {textures : Nat → TextureInfo} {s t : Recorder} {cmd source destination texture : Nat}

/-- While mipmaps are generated, the levels of the first array layer are in layouts of their own. -/
private def Generating (textures : Nat → TextureInfo) (s t : Recorder) (texture : Nat) (levels : Nat → ImageLayout) :
    Prop :=
  t.sources = s.sources ∧ ∃ l, Executed textures t l ∧ ∀ other level layer,
    (textures other).HasSubresource level layer →
    l other level layer = if other = texture ∧ layer = 0 then levels level else (s.sources other).layout

private theorem Generating.mipBarrier {u : Recorder} {levels : Nat → ImageLayout} (cmd base count : Nat)
    (old new : ImageLayout) (next : Nat → ImageLayout) (h : Generating textures s u texture levels)
    (hold : ∀ level, base ≤ level → level < base + count → levels level = old)
    (hin : ∀ level, base ≤ level → level < base + count → next level = new)
    (hout : ∀ level, level < (textures texture).desc.mipCount → ¬ (base ≤ level ∧ level < base + count) →
      next level = levels level) :
    Generating textures s (u.record cmd (mipBarrier texture old new base count)) texture next := by
  obtain ⟨hsources, l, hl, hlevels⟩ := h
  refine ⟨hsources, _, hl.record cmd _ ?_, ?_⟩
  · intro b hb
    obtain rfl := List.mem_singleton.mp hb
    right
    rintro other level layer hsub ⟨rfl, hlevel, hlayer⟩
    rw [hlevels other level layer hsub, if_pos ⟨rfl, Nat.lt_one_iff.mp hlayer⟩]
    exact hold level hlevel.1 hlevel.2
  · intro other level layer hsub
    by_cases hc : ImageBarrier.Covers ⟨texture, old, new, base, count, 1⟩ other level layer
    · obtain ⟨hother, hlevel, hlayer⟩ := hc
      rw [if_pos ⟨hother, Nat.lt_one_iff.mp hlayer⟩, hin level hlevel.1 hlevel.2]
      exact ImageLayouts.transition_of_covers ⟨hother, hlevel, hlayer⟩
    · refine (ImageLayouts.transition_of_not_covers hc).trans ?_
      rw [hlevels other level layer hsub]
      by_cases hfirst : other = texture ∧ layer = 0
      · obtain ⟨rfl, rfl⟩ := hfirst
        rw [if_pos ⟨rfl, rfl⟩, if_pos ⟨rfl, rfl⟩]
        exact (hout level hsub.1 fun hlevel => hc ⟨rfl, hlevel, Nat.one_pos⟩).symm
      · rw [if_neg hfirst, if_neg hfirst]

private theorem Generating.blitImage {u : Recorder} {levels : Nat → ImageLayout} {sourceLevel destinationLevel : Nat}
    {sourceExtent destinationExtent : Geometry.ISize} (h : Generating textures s u texture levels) :
    Generating textures s (u.record cmd (.blitImage texture texture sourceLevel destinationLevel sourceExtent
      destinationExtent)) texture levels := by
  obtain ⟨hsources, l, hl, hlevels⟩ := h
  exact ⟨hsources, l, hl.record cmd _ (by intro b hb; cases hb), hlevels⟩

/-- The levels that have been read from are behind the ones that are written to. -/
private def readBelow (mipLevel level : Nat) : ImageLayout :=
  if level < mipLevel then .eTransferSrcOptimal else .eTransferDstOptimal

private theorem Generating.blitMipLevels {u : Recorder} {mipLevel : Nat} (cmd count : Nat) (size : Geometry.ISize)
    (hpos : 1 ≤ mipLevel) (h : Generating textures s u texture (readBelow (mipLevel - 1))) :
    Generating textures s (blitMipLevels u cmd texture size mipLevel count) texture
      (readBelow (mipLevel + count - 1)) := by
  induction count generalizing u size mipLevel with
  | zero => exact h
  | succ count ih =>
    have hbarrier : Generating textures s (u.record cmd (BlitPass.mipBarrier texture .eTransferDstOptimal
        .eTransferSrcOptimal (mipLevel - 1) 1)) texture (readBelow mipLevel) := by
      apply h.mipBarrier
      · intro level hlevel _
        exact if_neg (Nat.not_lt.mpr hlevel)
      · intro level _ hlevel
        exact if_pos (by omega)
      · intro level _ hlevel
        unfold readBelow
        congr 1
        exact propext ⟨fun _ => by omega, fun _ => by omega⟩
    have hnext : mipLevel + 1 + count - 1 = mipLevel + (count + 1) - 1 := by omega
    rw [← hnext]
    unfold BlitPass.blitMipLevels
    apply ih _ (Nat.le_add_left 1 mipLevel)
    dsimp only
    split
    · exact hbarrier
    · exact hbarrier.blitImage

/-- Only the first array layer of an image is taken along where mipmaps are generated. -/
def MipmapAgrees (s : Recorder) (texture : Nat) : Prop :=
  (s.desc texture).mipCount < 2 ∨ toArrayLayerCount (s.desc texture).type ≤ 1 ∨
    (s.sources texture).layout = .eShaderReadOnlyOptimal

instance (s : Recorder) (texture : Nat) : Decidable (MipmapAgrees s texture) :=
  inferInstanceAs (Decidable (_ ∨ _ ∨ _))

private theorem Generating.finish {u : Recorder} (hagrees : MipmapAgrees s texture)
    (h : Generating textures s u texture fun _ => .eShaderReadOnlyOptimal)
    (hmips : ¬ (s.desc texture).mipCount < 2) :
    Tracks textures (u.setLayoutWithoutEncoding texture .eShaderReadOnlyOptimal) := by
  obtain ⟨hsources, l, hl, hlevels⟩ := h
  apply hl.setLayoutWithoutEncoding.tracks
  intro other level layer hsub
  rw [hlevels other level layer hsub]
  by_cases hother : other = texture
  · subst hother
    rw [sources_setLayoutWithoutEncoding_self]
    rcases hagrees with hcount | hlayers | hlayout
    · exact absurd hcount hmips
    · have hlayer := hsub.2
      rw [← hl.infos other, hsources] at hlayer
      exact if_pos ⟨rfl, Nat.lt_one_iff.mp (Nat.lt_of_lt_of_le hlayer hlayers)⟩
    · rw [hlayout, ite_self]
  · rw [if_neg fun hboth => hother hboth.1, sources_setLayoutWithoutEncoding_of_ne hother, hsources]

end BlitPass
end Ogre.Hal
