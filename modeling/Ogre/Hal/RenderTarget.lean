import Ogre.Core.Formats
import Ogre.Hal.VkFormats
import Ogre.Library.OrderedMap

/-! Render targets: textures that a render pass draws to, and what is done with
their contents. -/
namespace Ogre.Hal
open Ogre.Core Ogre.Library

/-- Textures have the number of their texture source, and one that is attached has
one. Clear values are only handed on, so they have numbers too. -/
structure Attachment where
  texture : Nat
  resolveTexture : Option Nat := none
  loadAction : LoadAction := .kDontCare
  storeAction : StoreAction := .kStore
  clear : Nat := 0
  deriving DecidableEq, Repr

/-- `Attachment::IsValid`, with the descriptors of the textures. -/
def Attachment.isValid (a : Attachment) (desc : Nat → TextureDescriptor) : Bool :=
  if storeActionPerformsResolve a.storeAction && a.resolveTexture.isNone then false
  else if a.resolveTexture.isSome && !storeActionPerformsResolve a.storeAction then false
  else
    let storageMode := (desc (a.resolveTexture.getD a.texture)).storageMode
    if storageMode = .kDeviceTransient then a.loadAction ≠ .kLoad && a.storeAction = .kDontCare else true

/-- A valid attachment has a resolve texture if and only if its store action resolves. -/
theorem Attachment.performsResolve_of_isValid {desc : Nat → TextureDescriptor} {a : Attachment} (h : a.isValid desc = true) :
    a.resolveTexture.isSome = storeActionPerformsResolve a.storeAction := by
  unfold Attachment.isValid at h
  cases hresolve : a.resolveTexture <;> cases hstore : storeActionPerformsResolve a.storeAction <;>
    simp_all

/-- Color attachment 0 is not in the map. -/
structure RenderTarget where
  color0 : Option Attachment := none
  colors : OrderedMap Attachment := {}
  positive : ∀ e ∈ colors.entries, 0 < e.1 := by decide
  depth : Option Attachment := none
  stencil : Option Attachment := none

namespace RenderTarget

/-- `IterateAllColorAttachments`, with the bind points. -/
def allColorAttachments (t : RenderTarget) : List (Nat × Attachment) :=
  (t.color0.map fun a => (0, a)).toList ++ t.colors.entries

/-- `IterateAllAttachments`. -/
def allAttachments (t : RenderTarget) : List Attachment :=
  t.allColorAttachments.map (·.2) ++ t.depth.toList ++ t.stencil.toList

/-- The attachment that stands for both depth and stencil. -/
def depthStencil (t : RenderTarget) : Option Attachment := t.depth <|> t.stencil

/-- `GetRenderTargetSize`. -/
def size (t : RenderTarget) (desc : Nat → TextureDescriptor) : Geometry.ISize :=
  match t.color0 with
  | some a => (desc a.texture).size
  | none => {}

/-- The setters keep only valid attachments, and `IsValid` asks for the first color. -/
def isValid (t : RenderTarget) (desc : Nat → TextureDescriptor) : Bool :=
  t.color0.isSome && t.allAttachments.all (·.isValid desc)

private theorem positive_empty : ∀ e ∈ (OrderedMap.empty : OrderedMap Attachment).entries, 0 < e.1 := by
  intro e he
  cases he

/-- A target without attachments. -/
def empty : RenderTarget where
  colors := OrderedMap.empty
  positive := positive_empty

/-- `SetColorAttachment`. An attachment that is not valid is not set. -/
def setColorAttachment (t : RenderTarget) (desc : Nat → TextureDescriptor) (attachment : Attachment) (index : Nat) :
    RenderTarget :=
  if !attachment.isValid desc then t
  else if h : index = 0 then { t with color0 := some attachment }
  else { t with
    colors := t.colors.insert index attachment
    positive := fun e he => by
      rcases OrderedMap.mem_insertEntry he with rfl | he
      · exact Nat.pos_of_ne_zero h
      · exact t.positive e he }

def setDepthAttachment (t : RenderTarget) (desc : Nat → TextureDescriptor) : Option Attachment → RenderTarget
  | none => { t with depth := none }
  | some attachment => if attachment.isValid desc then { t with depth := some attachment } else t

def setStencilAttachment (t : RenderTarget) (desc : Nat → TextureDescriptor) : Option Attachment → RenderTarget
  | none => { t with stencil := none }
  | some attachment => if attachment.isValid desc then { t with stencil := some attachment } else t

inductive Setter
  | setColorAttachment (attachment : Attachment) (index : Nat)
  | setDepthAttachment (attachment : Option Attachment)
  | setStencilAttachment (attachment : Option Attachment)
  deriving DecidableEq, Repr

def apply (desc : Nat → TextureDescriptor) (t : RenderTarget) : Setter → RenderTarget
  | .setColorAttachment attachment index => t.setColorAttachment desc attachment index
  | .setDepthAttachment attachment => t.setDepthAttachment desc attachment
  | .setStencilAttachment attachment => t.setStencilAttachment desc attachment

/-- The target after a sequence of setter calls. -/
def ofSetters (desc : Nat → TextureDescriptor) (setters : List Setter) : RenderTarget := setters.foldl (apply desc) empty

section Setters
variable {desc : Nat → TextureDescriptor} {t : RenderTarget} {attachment : Attachment} {e : Nat × Attachment}

private theorem mem_allColorAttachments :
    e ∈ t.allColorAttachments ↔ (∃ a ∈ t.color0, (0, a) = e) ∨ e ∈ t.colors.entries := by
  simp [allColorAttachments]

private theorem setColorAttachment_colors {index : Nat} (h : ∀ e ∈ t.allColorAttachments, e.2.isValid desc = true) :
    ∀ e ∈ (t.setColorAttachment desc attachment index).allColorAttachments, e.2.isValid desc = true := by
  intro e he
  unfold setColorAttachment at he
  split at he
  · exact h e he
  next hvalid =>
    have hvalid : attachment.isValid desc = true := by simpa using hvalid
    split at he
    · rcases mem_allColorAttachments.mp he with ⟨a, ha, rfl⟩ | he
      · obtain rfl := Option.some.inj ha
        exact hvalid
      · exact h e (mem_allColorAttachments.mpr (.inr he))
    · rcases mem_allColorAttachments.mp he with hcolor0 | he
      · exact h e (mem_allColorAttachments.mpr (.inl hcolor0))
      · rcases OrderedMap.mem_insertEntry he with rfl | he
        · exact hvalid
        · exact h e (mem_allColorAttachments.mpr (.inr he))

private theorem allColorAttachments_setDepthAttachment {depth : Option Attachment} :
    (t.setDepthAttachment desc depth).allColorAttachments = t.allColorAttachments := by
  unfold setDepthAttachment
  split
  · rfl
  · split <;> rfl

private theorem allColorAttachments_setStencilAttachment {stencil : Option Attachment} :
    (t.setStencilAttachment desc stencil).allColorAttachments = t.allColorAttachments := by
  unfold setStencilAttachment
  split
  · rfl
  · split <;> rfl

private theorem apply_colors (setter : Setter) (h : ∀ e ∈ t.allColorAttachments, e.2.isValid desc = true) :
    ∀ e ∈ (t.apply desc setter).allColorAttachments, e.2.isValid desc = true := by
  cases setter with
  | setColorAttachment attachment index => exact setColorAttachment_colors h
  | setDepthAttachment attachment =>
    rw [apply, allColorAttachments_setDepthAttachment]
    exact h
  | setStencilAttachment attachment =>
    rw [apply, allColorAttachments_setStencilAttachment]
    exact h

private theorem foldl_apply_colors (setters : List Setter) (h : ∀ e ∈ t.allColorAttachments, e.2.isValid desc = true) :
    ∀ e ∈ (setters.foldl (apply desc) t).allColorAttachments, e.2.isValid desc = true := by
  induction setters generalizing t with
  | nil => exact h
  | cons setter setters ih => exact ih (apply_colors setter h)

/-- The setters keep only valid attachments. -/
theorem ofSetters_colors (setters : List Setter) :
    ∀ e ∈ (ofSetters desc setters).allColorAttachments, e.2.isValid desc = true := by
  apply foldl_apply_colors
  intro e he
  simp [empty, OrderedMap.empty, allColorAttachments] at he

end Setters

end RenderTarget
end Ogre.Hal
