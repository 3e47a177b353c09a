import Mathlib.Logic.Function.Basic
import Ogre.Library.Machine

/-! The swapchain implementation over `VK_KHR_swapchain`: a ring of frame
synchronizers that are acquired in turn, and used by whatever is presented next. -/
namespace Ogre.Hal
open Ogre.Library

/-- The results of the device that the swapchain tells apart; `eErrorDeviceLost`
stands for all that it does not. -/
inductive VkResult
  | eSuccess
  | eSuboptimalKHR
  | eErrorOutOfDateKHR
  | eErrorDeviceLost
  deriving DecidableEq, Repr

/-- `submitted` tells whether a submission with the fence has succeeded since the last reset. -/
structure VkFence where
  signalled : Bool
  submitted : Bool
  deriving DecidableEq, Repr

def kMaxFramesInFlight : Nat := 2

abbrev Frame := Fin kMaxFramesInFlight

def Frame.next (frame : Frame) : Frame := ⟨(frame + 1) % kMaxFramesInFlight, Nat.mod_lt _ (by decide)⟩

/-- Command buffers have numbers. The fence is made signalled. -/
structure KHRFrameSynchronizer where
  acquire : VkFence := ⟨true, false⟩
  finalCmdBuffer : Option Nat := none
  hasOnscreen : Bool := false
  deriving DecidableEq, Repr

/-- What `AcquireNextDrawable` returns; surfaces have the number of the
acquisition that made them. -/
structure AcquireResult where
  surface : Option Nat := none
  outOfDate : Bool := false
  deriving DecidableEq, Repr

/-- What a run of the swapchain can be asked about: which `render_ready` semaphore an
acquired image signals, and what is submitted for a surface. -/
inductive SwapchainEvent
  | reset (frame : Frame)
  | acquired (surface : Nat) (frame : Frame)
  | submitted (surface : Nat) (frame : Frame) (cmdBuffer : Nat)
  deriving DecidableEq, Repr

/-- `images` is the number of images of the swapchain, `waiting` tells that a call of
`AcquireNextDrawable` is in its wait for the fence of the current frame. -/
structure KHRSwapchainImpl where
  images : Nat
  synchronizers : Frame → KHRFrameSynchronizer := fun _ => {}
  currentFrame : Frame := ⟨kMaxFramesInFlight - 1, by decide⟩
  waiting : Bool := false
  surfaces : Nat := 0
  log : List SwapchainEvent := []

namespace KHRSwapchainImpl

/-- The synchronizer of the current frame. -/
def sync (s : KHRSwapchainImpl) : KHRFrameSynchronizer := s.synchronizers s.currentFrame

def setSync (s : KHRSwapchainImpl) (sync : KHRFrameSynchronizer) : KHRSwapchainImpl :=
  { s with synchronizers := Function.update s.synchronizers s.currentFrame sync }

def record (s : KHRSwapchainImpl) (e : SwapchainEvent) : KHRSwapchainImpl := { s with log := s.log ++ [e] }

/-- What the device answers to a call of `AcquireNextDrawable` from its wait on. -/
structure AcquireAnswers where
  wait : Bool
  reset : Bool
  acquire : VkResult
  index : Nat
  deriving DecidableEq, Repr

/-- What is answered to a call of `Present`. -/
structure PresentAnswers where
  context : Bool
  createCommandBuffer : Option Nat
  endCommandBuffer : Bool
  submit : Bool
  deriving DecidableEq, Repr

/-- `AcquireNextDrawable` up to its wait. -/
def beginAcquire (s : KHRSwapchainImpl) (context : Bool) : KHRSwapchainImpl :=
  if !context then s else { s with currentFrame := Frame.next s.currentFrame, waiting := true }

/-- `WaitForFence`. The wait has no timeout, so it does not succeed before the fence is signalled. -/
def waitForFence (s : KHRSwapchainImpl) (wait reset : Bool) : Option (Bool × KHRSwapchainImpl) :=
  if !wait then some (false, s)
  else if !s.sync.acquire.signalled then none
  else if !reset then some (false, s)
  else some (true, (s.setSync { s.sync with acquire := ⟨false, false⟩ }).record (.reset s.currentFrame))

/-- `AcquireNextDrawable` from its wait on. -/
def finishAcquire (s : KHRSwapchainImpl) (a : AcquireAnswers) : Option (AcquireResult × KHRSwapchainImpl) :=
  (waitForFence { s with waiting := false } a.wait a.reset).map fun r =>
    let s := r.2
    if !r.1 then ({}, s)
    else match a.acquire with
      | .eSuccess =>
        if s.images ≤ a.index then ({}, s)
        else ({ surface := some s.surfaces },
          { s with surfaces := s.surfaces + 1 }.record (.acquired s.surfaces s.currentFrame))
      | .eSuboptimalKHR | .eErrorOutOfDateKHR => ({ outOfDate := true }, s)
      | .eErrorDeviceLost => ({ outOfDate := false }, s)

def addFinalCommandBuffer (s : KHRSwapchainImpl) (cmdBuffer : Nat) : KHRSwapchainImpl :=
  s.setSync { s.sync with finalCmdBuffer := some cmdBuffer, hasOnscreen := true }

/-- `Present`, called by the callback of a surface. Setting the layout of the image does not
fail, and every result of the present call counts as presented. -/
def present (s : KHRSwapchainImpl) (surface : Nat) (a : PresentAnswers) : Bool × KHRSwapchainImpl :=
  if !a.context then (false, s)
  else
    let finalCmdBuffer := if s.sync.hasOnscreen then s.sync.finalCmdBuffer else a.createCommandBuffer
    let s := s.setSync { s.sync with finalCmdBuffer, hasOnscreen := false }
    match finalCmdBuffer with
    | none => (false, s)
    | some cmdBuffer =>
      if !a.endCommandBuffer then (false, s)
      else if !a.submit then (false, s)
      else (true, (s.setSync { s.sync with acquire.submitted := true }).record
        (.submitted surface s.currentFrame cmdBuffer))

inductive Label
  | beginAcquire (context : Bool)
  | finishAcquire (answers : AcquireAnswers)
  | addFinalCommandBuffer (cmdBuffer : Nat)
  | present (surface : Nat) (answers : PresentAnswers)
  | signal (frame : Frame)
  deriving DecidableEq, Repr

/-- The calls are those of one thread; the device signals the fences of what it has executed. -/
def step (s : KHRSwapchainImpl) : Label → Option KHRSwapchainImpl
  | .beginAcquire context => if s.waiting then none else some (s.beginAcquire context)
  | .finishAcquire a => if s.waiting then (s.finishAcquire a).map (·.2) else none
  | .addFinalCommandBuffer cmdBuffer => if s.waiting then none else some (s.addFinalCommandBuffer cmdBuffer)
  | .present surface a =>
    if !s.waiting && surface < s.surfaces then some (s.present surface a).2 else none
  | .signal frame =>
    let sync := s.synchronizers frame
    if sync.acquire.submitted then
      some { s with
        synchronizers := Function.update s.synchronizers frame { sync with acquire.signalled := true } }
    else none

def machine (images : Nat) : Machine KHRSwapchainImpl Label where
  init := { images }
  step := step

end KHRSwapchainImpl
end Ogre.Hal
