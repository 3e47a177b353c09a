import Mathlib.Data.Multiset.Basic
import Ogre.Hal.KHRSwapchain

/-! The swapchain implementation over hardware buffers of Android: textures go from the
pool through surfaces and transactions of the surface control to the display, and back to
the pool when another one is displayed. Textures have numbers in the order of their creation. -/
namespace Ogre.Hal
open Ogre.Library

def kMaxPendingPresents : Nat := 2

/-- `renderReady` and `presentReady` tell whether there is such a semaphore. -/
structure AHBFrameSynchronizer where
  acquire : VkFence := ⟨true, false⟩
  renderReady : Bool := false
  presentReady : Bool := false
  finalCmdBuffer : Option Nat := none
  deriving DecidableEq, Repr

/-- An entry of the texture pool, and whether its fence is valid. -/
structure AHBPoolEntry where
  texture : Nat
  renderReadyFence : Bool := false
  deriving DecidableEq, Repr

/-- A surface that was handed out: `held` until the client drops it, `presented` once a
transaction with its texture was applied. -/
structure AHBSurface where
  texture : Nat
  held : Bool := true
  presented : Bool := false
  deriving DecidableEq, Repr

/-- What a run can be asked about. Surfaces have the number of the acquisition that made them. -/
inductive AHBSwapchainEvent
  | reset (frame : Fin kMaxPendingPresents)
  | acquired (surface : Nat) (frame : Fin kMaxPendingPresents)
  | submitted (surface : Nat) (frame : Fin kMaxPendingPresents) (cmdBuffer : Nat)
  deriving DecidableEq, Repr

/-- `alive` tells that the implementation exists, `controlAlive` that the surface control
does. `transactions` are the textures of those that were applied and are not completed. -/
structure AHBSwapchainImpl where
  isValid : Bool
  alive : Bool := true
  controlAlive : Bool := true
  pool : List AHBPoolEntry := []
  created : Nat := 0
  currentlyDisplayedTexture : Option Nat := none
  frameData : Fin kMaxPendingPresents → AHBFrameSynchronizer := fun _ => {}
  frameIndex : Fin kMaxPendingPresents := ⟨0, by decide⟩
  surfaces : List AHBSurface := []
  transactions : List Nat := []
  log : List AHBSwapchainEvent := []

namespace AHBSwapchainImpl

/-- The synchronizer of the current frame. -/
def sync (s : AHBSwapchainImpl) : AHBFrameSynchronizer := s.frameData s.frameIndex

def setSync (s : AHBSwapchainImpl) (sync : AHBFrameSynchronizer) : AHBSwapchainImpl :=
  { s with frameData := Function.update s.frameData s.frameIndex sync }

def record (s : AHBSwapchainImpl) (e : AHBSwapchainEvent) : AHBSwapchainImpl := { s with log := s.log ++ [e] }

/-- What is answered to a call of `AcquireNextDrawable`. -/
structure AcquireAnswers where
  context : Bool := true
  wait : Bool := true
  reset : Bool := true
  texture : Bool := true
  semaphore : Bool := true
  deriving DecidableEq, Repr

/-- What is answered to a call of `Present`. -/
structure PresentAnswers where
  control : Bool := true
  context : Bool := true
  semaphore : Bool := true
  endCommandBuffer : Bool := true
  submit : Bool := true
  setContents : Bool := true
  apply : Bool := true
  deriving DecidableEq, Repr

/-- `AHBTexturePool::Pop`. Entries are taken from the front. -/
def pop (s : AHBSwapchainImpl) (texture : Bool) : Option AHBPoolEntry × AHBSwapchainImpl :=
  match s.pool with
  | entry :: pool => (some entry, { s with pool })
  | [] => if texture then (some { texture := s.created }, { s with created := s.created + 1 }) else (none, s)

/-- `AHBTexturePool::Push`. -/
def push (s : AHBSwapchainImpl) (texture : Option Nat) (renderReadyFence : Bool) : AHBSwapchainImpl :=
  match texture with
  | none => s
  | some texture => { s with pool := s.pool ++ [⟨texture, renderReadyFence⟩] }

/-- `ImportRenderReady`, where `CreateRenderReadySemaphore` succeeds or not. -/
def importRenderReady (s : AHBSwapchainImpl) (renderReadyFence semaphore : Bool) : Bool × AHBSwapchainImpl :=
  if !renderReadyFence then (true, s.setSync { s.sync with renderReady := false })
  else if !semaphore then (false, s)
  else (true, s.setSync { s.sync with renderReady := true })

/-- The wait has no timeout, so it does not succeed before the fence is signalled. -/
def waitForFence (s : AHBSwapchainImpl) (wait reset : Bool) : Option (Bool × AHBSwapchainImpl) :=
  if !wait then some (false, s)
  else if !s.sync.acquire.signalled then none
  else if !reset then some (false, s)
  else some (true, (s.setSync { s.sync with acquire := ⟨false, false⟩ }).record (.reset s.frameIndex))

/-- A surface for the texture. The context that `AcquireNextDrawable` holds lets it be made. -/
def wrapSwapchainImage (s : AHBSwapchainImpl) (texture : Nat) : AHBSwapchainImpl :=
  { s with surfaces := s.surfaces ++ [({ texture := texture } : AHBSurface)] }.record (.acquired s.surfaces.length s.frameIndex)

/-- `AcquireNextDrawable` with the texture of the surface, if it returns one. -/
def acquireNextDrawable (s : AHBSwapchainImpl) (a : AcquireAnswers) : Option (Option Nat × AHBSwapchainImpl) :=
  if !a.context then some (none, s)
  else
    let frameIndex := ⟨(s.frameIndex + 1) % kMaxPendingPresents, Nat.mod_lt _ (by decide)⟩
    (waitForFence { s with frameIndex } a.wait a.reset).map fun r =>
      let s := r.2
      if !r.1 || !s.isValid then (none, s)
      else match s.pop a.texture with
        | (none, s) => (none, s)
        | (some entry, s) => match s.importRenderReady entry.renderReadyFence a.semaphore with
          | (false, s) => (none, s)
          | (true, s) => (some entry.texture, s.wrapSwapchainImage entry.texture)

def addFinalCommandBuffer (s : AHBSwapchainImpl) (cmdBuffer : Nat) : AHBSwapchainImpl :=
  s.setSync { s.sync with finalCmdBuffer := some cmdBuffer }

/-- On behalf of a surface, and whether it returns the semaphore. -/
def submitSignalForPresentReady (s : AHBSwapchainImpl) (surface : Nat) (a : PresentAnswers) :
    Bool × AHBSwapchainImpl :=
  if !a.context || !a.semaphore then (false, s)
  else match s.sync.finalCmdBuffer with
    | none => (false, s)
    | some cmdBuffer =>
      if !a.endCommandBuffer then (false, s)
      else
        let s := s.setSync { s.sync with presentReady := true }
        if !a.submit then (false, s)
        else (true, (s.setSync { s.sync with acquire.submitted := true }).record
          (.submitted surface s.frameIndex cmdBuffer))

/-- `Surface::Present`, whose callback calls `Present` with the texture of the surface. -/
def present (s : AHBSwapchainImpl) (i : Nat) (surface : AHBSurface) (a : PresentAnswers) : Bool × AHBSwapchainImpl :=
  if !s.alive then (false, s)
  else if !s.controlAlive || !a.control then (false, s)
  else match s.submitSignalForPresentReady i a with
    | (false, s) => (false, s)
    | (true, s) =>
      if !a.setContents then (false, s)
      else if !a.apply then (false, s)
      else (true, { s with
        surfaces := s.surfaces.set i { surface with presented := true }
        transactions := s.transactions ++ [surface.texture] })

/-- `OnTextureUpdatedOnSurfaceControl`, if the implementation still exists. -/
def onTextureUpdatedOnSurfaceControl (s : AHBSwapchainImpl) (texture : Nat) (renderReadyFence : Bool) :
    AHBSwapchainImpl :=
  if !s.alive then s
  else if !s.controlAlive then s
  else { s with currentlyDisplayedTexture := some texture }.push s.currentlyDisplayedTexture renderReadyFence

inductive Label
  | acquireNextDrawable (answers : AcquireAnswers)
  | addFinalCommandBuffer (cmdBuffer : Nat)
  | present (surface : Nat) (answers : PresentAnswers)
  | complete (transaction : Nat) (renderReadyFence : Bool)
  | signal (frame : Fin kMaxPendingPresents)
  | dropSurface (surface : Nat)
  | destroy
  | loseControl
  deriving DecidableEq, Repr

/-- Calls do not overlap, and each transaction that was applied completes at most once. -/
def step (s : AHBSwapchainImpl) : Label → Option AHBSwapchainImpl
  | .acquireNextDrawable a => if s.alive then (s.acquireNextDrawable a).map (·.2) else none
  | .addFinalCommandBuffer cmdBuffer => if s.alive then some (s.addFinalCommandBuffer cmdBuffer) else none
  | .present i a =>
    s.surfaces[i]?.bind fun surface => if surface.held then some (s.present i surface a).2 else none
  | .complete i renderReadyFence => s.transactions[i]?.map fun texture =>
    { s with transactions := s.transactions.eraseIdx i }.onTextureUpdatedOnSurfaceControl texture renderReadyFence
  | .signal frame =>
    let sync := s.frameData frame
    if sync.acquire.submitted then
      some { s with frameData := Function.update s.frameData frame { sync with acquire.signalled := true } }
    else none
  | .dropSurface i => s.surfaces[i]?.map fun surface =>
    { s with surfaces := s.surfaces.set i { surface with held := false } }
  | .destroy => some { s with alive := false, pool := [], currentlyDisplayedTexture := none }
  | .loseControl => some { s with controlAlive := false }

def machine (isValid : Bool) : Machine AHBSwapchainImpl Label where
  init := { isValid }
  step := step

end AHBSwapchainImpl
end Ogre.Hal
