import Ogre.Hal.MipmapChain
import Ogre.Hal.ResourceReclaims

/-! Textures from the allocator: who has the images that are made for them, as calls of the device
fail, and textures come to their end. -/
namespace Ogre.Hal
open Ogre.Core Ogre.Library

/-- Images and views have the numbers in which they were made. -/
structure ImageResource where
  image : Nat
  imageView : Nat
  rtImageView : Nat
  deriving DecidableEq, Repr

/-- The images and the views that were made, the resources that have them, and the views that were
destroyed with no resource. The handles are those of the sources. -/
structure TextureAllocations where
  manager : ResourceManager := {}
  images : Nat := 0
  views : Nat := 0
  held : Nat → Option ImageResource := fun _ => none
  droppedViews : List Nat := []

/-- What is left of the allocator and the context, and which calls of the device succeed. -/
structure CreateAnswers where
  isValid : Bool := true
  deviceHolder : Bool := true
  context : Bool := true
  image : Bool := true
  imageView : Bool := true
  rtImageView : Bool := true
  deriving DecidableEq, Repr

namespace TextureAllocations

/-- `Swap` on the handle of a new source. -/
def swap (s : TextureAllocations) (handle : Nat) (resource : ImageResource) : TextureAllocations :=
  { s with
    manager := (s.manager.reset handle).populate handle
    held := Function.update s.held s.manager.resources (some resource) }

/-- The constructor of `AllocatedTextureSource`, with whether the source is valid. An image is a
plain handle until the end, and views destroy themselves. -/
def allocatedTextureSource (s : TextureAllocations) (handle : Nat) (answers : CreateAnswers) :
    Bool × TextureAllocations :=
  if !answers.image then (false, s)
  else
    let image := s.images
    let s := { s with images := s.images + 1 }
    if !answers.imageView then (false, s)
    else
      let imageView := s.views
      let s := { s with views := s.views + 1 }
      if !answers.rtImageView then (false, { s with droppedViews := s.droppedViews ++ [imageView] })
      else
        let rtImageView := s.views
        let s := { s with views := s.views + 1 }
        (true, s.swap handle ⟨image, imageView, rtImageView⟩)

def onCreateTexture (s : TextureAllocations) (desc : TextureDescriptor) (handle : Nat) (answers : CreateAnswers) :
    Option TextureDescriptor × TextureAllocations :=
  if !answers.isValid then (none, s)
  else if !answers.deviceHolder then (none, s)
  else if !answers.context then (none, s)
  else
    match s.allocatedTextureSource handle answers with
    | (false, s) => (none, s)
    | (true, s) => (some desc, s)

def createTexture (s : TextureAllocations) (maxSize : Geometry.ISize) (desc : TextureDescriptor) (handle : Nat)
    (answers : CreateAnswers) : Option TextureDescriptor × TextureAllocations :=
  if desc.size.width > maxSize.width ∨ desc.size.height > maxSize.height then (none, s)
  else if desc.mipCount > desc.size.mipCount then
    s.onCreateTexture { desc with mipCount := desc.size.mipCount } handle answers
  else s.onCreateTexture desc handle answers

/-- The end of a texture, other resources and the threads of the manager are steps of the manager. -/
inductive Label
  | createTexture (maxSize : Geometry.ISize) (desc : TextureDescriptor) (handle : Nat) (answers : CreateAnswers)
  | manager (label : ResourceManager.Label)

def step (s : TextureAllocations) : Label → Option TextureAllocations
  | .createTexture maxSize desc handle answers =>
    if handle ∈ s.manager.handles.map (·.1) then none else some (s.createTexture maxSize desc handle answers).2
  | .manager label => (s.manager.step label).map fun manager => { s with manager }

def machine : Machine TextureAllocations Label := ⟨{}, step⟩

/-- The resources that are not destroyed, wherever they are. -/
def alive (m : ResourceManager) : Multiset Nat :=
  ↑(m.handles.map (·.2)) + ResourceManager.carried m.calls + ↑m.reclaimables + ↑m.waiter.collected

def destroyed (s : TextureAllocations) : List ImageResource :=
  s.manager.destroyed.filterMap fun d => s.held d.resource

def liveImages (s : TextureAllocations) : Set Nat := { i | i < s.images ∧ i ∉ s.destroyed.map (·.image) }

def liveViews (s : TextureAllocations) : Set Nat :=
  { i | i < s.views ∧ i ∉ s.droppedViews ∧ i ∉ s.destroyed.map (·.imageView) ∧ i ∉ s.destroyed.map (·.rtImageView) }

/-- One resource has the image, and is alive, or was destroyed once. -/
def Accounted (s : TextureAllocations) (image : Nat) : Prop :=
  ∃ r, (∀ other, (s.held other).map (·.image) = some image ↔ other = r) ∧
    ((alive s.manager).count r = 1 ∧ (s.manager.destroyed.map (·.resource)).count r = 0 ∨
      (alive s.manager).count r = 0 ∧ (s.manager.destroyed.map (·.resource)).count r = 1)

/-- All images are accounted for, and a texture that was not created leaves nothing behind. -/
def LeaksNothing (s : TextureAllocations) (a : Label) (t : TextureAllocations) : Prop :=
  (∀ image < t.images, t.Accounted image) ∧
    match a with
    | .createTexture maxSize desc handle answers => (s.createTexture maxSize desc handle answers).1 = none →
      t.liveImages = s.liveImages ∧ t.liveViews = s.liveViews
    | .manager _ => True

/-- The device has made an image, and not a view of it. -/
def FailsLate (_ : TextureAllocations) : Label → TextureAllocations → Prop
  | .createTexture maxSize desc _ answers, _ =>
    (desc.size.width ≤ maxSize.width ∧ desc.size.height ≤ maxSize.height) ∧
      (answers.isValid ∧ answers.deviceHolder ∧ answers.context) ∧
      answers.image ∧ ¬ (answers.imageView ∧ answers.rtImageView)
  | .manager _, _ => False

section Accounts
variable {s t : TextureAllocations} {m n : ResourceManager} {a : Label} {handle r : Nat} {answers : CreateAnswers}

theorem places_eq (m : ResourceManager) : m.places = alive m + ↑(m.destroyed.map (·.resource)) := by
  rw [ResourceManager.places, ResourceManager.handed, alive, ← add_assoc, ← add_assoc]

/-- A resource that was made is at one place, of those alive or of those destroyed. -/
theorem count_places (h : m.Inv) (hr : r < m.resources) :
    (alive m).count r = 1 ∧ (m.destroyed.map (·.resource)).count r = 0 ∨
      (alive m).count r = 0 ∧ (m.destroyed.map (·.resource)).count r = 1 := by
  have hcount : m.places.count r = 1 := by
    rw [h.counted]
    exact Multiset.count_eq_one_of_mem (Multiset.nodup_range _) (Multiset.mem_range.mpr hr)
  rw [places_eq, Multiset.count_add, Multiset.coe_count] at hcount
  omega

theorem resources_reset : (m.reset handle).resources = m.resources := by
  unfold ResourceManager.reset
  split <;> rfl

private theorem resources_proceed {stage : ResetStage} (h : m.proceed r stage = some n) :
    n.resources = m.resources := by
  cases stage with
  | locked =>
    obtain ⟨-, h⟩ := Option.ite_none_right_eq_some.mp h
    obtain rfl := Option.some.inj h
    rfl
  | released =>
    obtain rfl := Option.some.inj h
    exact ResourceManager.untouched_notify.resources
  | notified =>
    obtain rfl := Option.some.inj h
    exact ResourceManager.untouched_dropReference.resources
  | holding | pushed | dropping =>
    obtain rfl := Option.some.inj h
    rfl

/-- Numbers are not given twice. -/
theorem resources_step {label : ResourceManager.Label} (h : m.step label = some n) : m.resources ≤ n.resources := by
  cases label with
  | construct handle =>
    obtain ⟨-, h⟩ := Option.ite_none_left_eq_some.mp h
    obtain rfl := Option.some.inj h
    exact Nat.le_succ _
  | swap handle =>
    obtain rfl := Option.some.inj h
    exact resources_reset.ge.trans (Nat.le_succ _)
  | reset handle | destruct handle =>
    obtain rfl := Option.some.inj h
    exact resources_reset.ge
  | retain =>
    obtain ⟨-, h⟩ := Option.ite_none_left_eq_some.mp h
    obtain rfl := Option.some.inj h
    exact Nat.le_refl _
  | release =>
    obtain ⟨-, h⟩ := Option.ite_none_left_eq_some.mp h
    obtain rfl := Option.some.inj h
    exact (ResourceManager.untouched_dropReference (s := { m with owners := m.owners - 1 })).resources.ge
  | proceed resource stage => exact (resources_proceed (Option.ite_none_right_eq_some.mp h).2).ge
  | runWaiter => exact (ResourceManager.untouched_runWaiter h).1.resources.ge
  | wake =>
    obtain ⟨-, h⟩ := Option.ite_none_right_eq_some.mp h
    obtain rfl := Option.some.inj h
    exact Nat.le_refl _
  | runDestructor => exact (ResourceManager.untouched_runDestructor h).resources.ge

/-- Each image is with one resource, whose number is its own. -/
structure Sound (s : TextureAllocations) : Prop where
  inv : s.manager.Inv
  unused : ∀ r, s.manager.resources ≤ r → s.held r = none
  bounded : ∀ r resource, s.held r = some resource → resource.image < s.images
  owned : ∀ image < s.images, ∃ r, ∀ other, (s.held other).map (·.image) = some image ↔ other = r

theorem Sound.accounted (h : Sound s) {image : Nat} (himage : image < s.images) : s.Accounted image := by
  obtain ⟨r, hr⟩ := h.owned image himage
  refine ⟨r, hr, count_places h.inv ?_⟩
  by_contra hle
  have hheld := (hr r).mpr rfl
  rw [h.unused r (Nat.not_lt.mp hle)] at hheld
  cases hheld

theorem Sound.manager {label : ResourceManager.Label} (h : Sound s) (hs : s.manager.step label = some n) :
    Sound { s with manager := n } where
  inv := h.inv.step hs
  unused r hr := h.unused r ((resources_step hs).trans hr)
  bounded := h.bounded
  owned := h.owned

theorem held_swap {resource : ImageResource} (other : Nat) : (s.swap handle resource).held other =
    if other = s.manager.resources then some resource else s.held other :=
  Function.update_apply _ _ _ _

/-- The resource of a new texture has the image that was made last. -/
theorem Sound.swap (h : Sound s) (handle views view rtView : Nat) :
    Sound ({ s with images := s.images + 1, views }.swap handle ⟨s.images, view, rtView⟩) where
  inv := h.inv.step (a := .swap handle) rfl
  unused r hr := by
    have hlt : s.manager.resources < r := (Nat.lt_succ_of_le resources_reset.ge).trans_le hr
    rw [held_swap, if_neg hlt.ne']
    exact h.unused r hlt.le
  bounded r resource hheld := by
    rw [held_swap] at hheld
    split at hheld
    · obtain rfl := Option.some.inj hheld
      exact Nat.lt_succ_self _
    · exact (h.bounded r resource hheld).trans (Nat.lt_succ_self _)
  owned image himage := by
    rcases Nat.lt_succ_iff_lt_or_eq.mp himage with hlt | rfl
    · obtain ⟨r, hr⟩ := h.owned image hlt
      refine ⟨r, fun other => ?_⟩
      rw [held_swap]
      split
      next hnew =>
        subst hnew
        refine iff_of_false (fun heq => hlt.ne' (Option.some.inj heq)) fun heq => ?_
        have hheld := (hr r).mpr rfl
        rw [← heq, h.unused _ (Nat.le_refl _)] at hheld
        cases hheld
      next => exact hr other
    · refine ⟨s.manager.resources, fun other => ?_⟩
      rw [held_swap]
      split
      next hnew => exact iff_of_true rfl hnew
      next hne =>
        refine iff_of_false (fun heq => ?_) hne
        obtain ⟨resource, hheld, hlast⟩ := Option.map_eq_some_iff.mp heq
        exact (h.bounded other resource hheld).ne hlast

/-- What a call comes to: nothing, an image that is lost, or a texture. -/
def ComesTo (s : TextureAllocations) (handle : Nat) (late : Prop)
    (result : Option TextureDescriptor × TextureAllocations) : Prop :=
  ¬ late ∧ result = (none, s) ∨
    late ∧ result.1 = none ∧ result.2.images = s.images + 1 ∧ result.2.destroyed = s.destroyed ∨
    ¬ late ∧ ∃ texture, result = (some texture,
      { s with images := s.images + 1, views := s.views + 1 + 1 }.swap handle ⟨s.images, s.views, s.views + 1⟩)

theorem onCreateTexture_comesTo (s : TextureAllocations) (desc : TextureDescriptor) (handle : Nat)
    (answers : CreateAnswers) : ComesTo s handle ((answers.isValid ∧ answers.deviceHolder ∧ answers.context) ∧
      answers.image ∧ ¬ (answers.imageView ∧ answers.rtImageView)) (s.onCreateTexture desc handle answers) := by
  obtain ⟨isValid, deviceHolder, context, image, imageView, rtImageView⟩ := answers
  unfold ComesTo onCreateTexture allocatedTextureSource
  rcases isValid with _ | _
  · exact .inl ⟨by simp, rfl⟩
  rcases deviceHolder with _ | _
  · exact .inl ⟨by simp, rfl⟩
  rcases context with _ | _
  · exact .inl ⟨by simp, rfl⟩
  rcases image with _ | _
  · exact .inl ⟨by simp, rfl⟩
  rcases imageView with _ | _
  · exact .inr (.inl ⟨by simp, rfl, rfl, rfl⟩)
  rcases rtImageView with _ | _
  · exact .inr (.inl ⟨by simp, rfl, rfl, rfl⟩)
  · exact .inr (.inr ⟨by simp, desc, rfl⟩)

theorem createTexture_comesTo (s : TextureAllocations) (maxSize : Geometry.ISize) (desc : TextureDescriptor)
    (handle : Nat) (answers : CreateAnswers) : ComesTo s handle
      (s.FailsLate (.createTexture maxSize desc handle answers) s) (s.createTexture maxSize desc handle answers) := by
  unfold createTexture FailsLate
  dsimp only
  split
  next hsize => exact .inl ⟨by omega, rfl⟩
  next hsize =>
    have hfits : desc.size.width ≤ maxSize.width ∧ desc.size.height ≤ maxSize.height := by omega
    simp only [hfits, true_and, and_true]
    split
    · exact onCreateTexture_comesTo _ _ _ _
    · exact onCreateTexture_comesTo _ _ _ _

/-- No image that is still to be made is destroyed. -/
theorem Sound.destroyed_lt (h : Sound s) {image : Nat} (himage : image ∈ s.destroyed.map (·.image)) :
    image < s.images := by
  obtain ⟨resource, hresource, rfl⟩ := List.mem_map.mp himage
  obtain ⟨d, -, hheld⟩ := List.mem_filterMap.mp hresource
  exact h.bounded d.resource resource hheld

/-- An image that is lost stays. -/
theorem Sound.liveImages_ne (h : Sound s) (himages : t.images = s.images + 1)
    (hdestroyed : t.destroyed = s.destroyed) : t.liveImages ≠ s.liveImages := by
  intro heq
  have hlive : s.images ∈ t.liveImages :=
    ⟨himages ▸ Nat.lt_succ_self _, fun hmem => (h.destroyed_lt (hdestroyed ▸ hmem)).false⟩
  rw [heq] at hlive
  exact hlive.1.false

/-- A step leaks nothing exactly if no image comes without its views. -/
theorem Sound.step (h : Sound s) (hs : s.step a = some t) :
    (LeaksNothing s a t ↔ ¬ FailsLate s a t) ∧ (¬ FailsLate s a t → Sound t) := by
  cases a with
  | createTexture maxSize desc handle answers =>
    obtain ⟨-, hs⟩ := Option.ite_none_left_eq_some.mp hs
    obtain rfl := Option.some.inj hs
    unfold LeaksNothing
    dsimp only
    rcases s.createTexture_comesTo maxSize desc handle answers with ⟨hlate, heq⟩ |
      ⟨hlate, hnone, himages, hdestroyed⟩ | ⟨hlate, texture, heq⟩
    · rw [heq]
      exact ⟨iff_of_true ⟨fun _ himage => h.accounted himage, fun _ => ⟨rfl, rfl⟩⟩ hlate, fun _ => h⟩
    · refine ⟨iff_of_false (fun hleaks => ?_) (not_not_intro hlate), fun hlate' => absurd hlate hlate'⟩
      exact h.liveImages_ne himages hdestroyed (hleaks.2 hnone).1
    · have hsound := h.swap handle (s.views + 1 + 1) s.views (s.views + 1)
      rw [heq]
      refine ⟨iff_of_true ⟨fun _ himage => hsound.accounted himage, fun hnone => ?_⟩ hlate, fun _ => hsound⟩
      cases hnone
  | manager label =>
    obtain ⟨manager, hmanager, rfl⟩ := Option.map_eq_some_iff.mp hs
    have hsound := h.manager hmanager
    exact ⟨iff_of_true ⟨fun _ himage => hsound.accounted himage, trivial⟩ id, fun _ => hsound⟩

theorem Sound.init : Sound machine.init where
  inv := ResourceManager.Inv.init
  unused _ _ := rfl
  bounded _ _ h := by cases h
  owned _ h := absurd h (Nat.not_lt_zero _)

/-- A run leaks nothing exactly if in none of its calls an image comes without its views. -/
theorem leaksNothing_iff (labels : List Label) : machine.Along LeaksNothing machine.init labels ↔
    machine.Along (fun s a t => ¬ FailsLate s a t) machine.init labels :=
  Machine.along_iff (fun _ _ _ h hs => (h.step hs).1) (fun _ _ _ h hlate hs => (h.step hs).2 hlate) Sound.init

/-- A small texture that is flat. -/
private def flat : TextureDescriptor := { format := .kR8G8B8A8UNormInt, size := ⟨64, 64⟩ }

/-- The image is lost with either view. -/
theorem createTexture_leaks :
    ¬ machine.Along LeaksNothing machine.init [.createTexture ⟨4096, 4096⟩ flat 0 { imageView := false }] ∧
    ¬ machine.Along LeaksNothing machine.init [.createTexture ⟨4096, 4096⟩ flat 0 { rtImageView := false }] := by
  have hleaks (answers : CreateAnswers)
      (himages : (machine.init.createTexture ⟨4096, 4096⟩ flat 0 answers).2.images = 1)
      (hdestroyed : (machine.init.createTexture ⟨4096, 4096⟩ flat 0 answers).2.destroyed = [])
      (hnone : (machine.init.createTexture ⟨4096, 4096⟩ flat 0 answers).1 = none) :
      ¬ machine.Along LeaksNothing machine.init [.createTexture ⟨4096, 4096⟩ flat 0 answers] :=
    fun h => Sound.init.liveImages_ne himages hdestroyed ((h.head rfl).2 hnone).1
  exact ⟨hleaks _ rfl rfl rfl, hleaks _ rfl rfl rfl⟩

end Accounts

end TextureAllocations
end Ogre.Hal
