import Ogre.Fml.Status
import Ogre.Hal.FenceWaiter

/-! The command queue: calls of `Submit` from any threads, the device that executes
what they submit, and the fence waiter that completes it. -/
namespace Ogre.Hal
open Ogre.Library Ogre.Fml

inductive CommandBufferStatus
  | kPending
  | kError
  | kCompleted
  deriving DecidableEq, Repr

/-- Where a call of `Submit` is. In `addedFence` the closure that was converted for
`AddFence` is still alive; in `cleanup` the locals are gone but for the guard that
`armed` tells of. -/
inductive SubmitPhase
  | notCalled
  | ending (buffers : List Nat)
  | creatingFence
  | submitting
  | addingFence
  | addedFence (added : Bool)
  | cleanup (armed : Bool) (status : Status)
  | returned (status : Status)
  deriving DecidableEq, Repr

/-- A local of the call, or the closure that it was moved into, holds the tracked
objects of the batch. -/
def SubmitPhase.holdsObjects : SubmitPhase → Bool
  | .notCalled | .cleanup _ _ | .returned _ => false
  | _ => true

/-- The call has locked the context. -/
def SubmitPhase.holdsContext : SubmitPhase → Bool
  | .creatingFence | .submitting | .addingFence | .addedFence _ => true
  | _ => false

structure SubmitCall where
  phase : SubmitPhase := .notCalled
  completionCallback : Bool := false
  deriving DecidableEq, Repr

/-- What a run of the queue can be asked about. A batch has the number of the call
that submits it; its tracked objects are released when the last vector of them is gone. -/
inductive QueueEvent
  | accepted (batch : Nat)
  | signalled (batch : Nat)
  | released (batch : Nat)
  | completionCallback (batch : Nat) (status : CommandBufferStatus)
  deriving DecidableEq, Repr

/-- The fence of a batch, and its entry in the waiter, have the number of the batch.
`moved` are the command buffers whose tracked objects were moved out of them, and
`running` is the entry whose callback has cleared its tracked objects and goes on. -/
structure CommandQueue where
  waiter : FenceWaiter := {}
  calls : Nat → SubmitCall := fun _ => {}
  batches : List Nat := []
  moved : List Nat := []
  running : Option Nat := none
  log : List QueueEvent := []

namespace CommandQueue

def record (s : CommandQueue) (e : QueueEvent) : CommandQueue := { s with log := s.log ++ [e] }

def setPhase (s : CommandQueue) (b : Nat) (phase : SubmitPhase) : CommandQueue :=
  { s with calls := Function.update s.calls b { s.calls b with phase } }

/-- The entry of the batch has a copy of the closure, with the vector in it. -/
def entryHolds (s : CommandQueue) (b : Nat) : Bool := b ∈ s.waiter.waitSet ∨ b ∈ s.waiter.erased

/-- A vector of the tracked objects of the batch was destroyed. -/
def dropObjects (s : CommandQueue) (b : Nat) : CommandQueue :=
  if (s.calls b).phase.holdsObjects || s.entryHolds b then s else s.record (.released b)

section
variable (s : CommandQueue) (b c : Nat) (phase : SubmitPhase)

@[simp] theorem setPhase_waiter : (s.setPhase b phase).waiter = s.waiter := rfl
@[simp] theorem setPhase_batches : (s.setPhase b phase).batches = s.batches := rfl
@[simp] theorem setPhase_running : (s.setPhase b phase).running = s.running := rfl
@[simp] theorem setPhase_log : (s.setPhase b phase).log = s.log := rfl
@[simp] theorem setPhase_phase : ((s.setPhase b phase).calls b).phase = phase := by simp [setPhase]

theorem setPhase_of_ne (h : c ≠ b) : (s.setPhase b phase).calls c = s.calls c := by
  simp [setPhase, h]

@[simp] theorem setPhase_entryHolds : (s.setPhase b phase).entryHolds c = s.entryHolds c := rfl

@[simp] theorem dropObjects_waiter : (s.dropObjects b).waiter = s.waiter := by unfold dropObjects; split <;> rfl
@[simp] theorem dropObjects_calls : (s.dropObjects b).calls = s.calls := by unfold dropObjects; split <;> rfl
@[simp] theorem dropObjects_batches : (s.dropObjects b).batches = s.batches := by unfold dropObjects; split <;> rfl
@[simp] theorem dropObjects_running : (s.dropObjects b).running = s.running := by unfold dropObjects; split <;> rfl

theorem dropObjects_log : (s.dropObjects b).log =
    if (s.calls b).phase.holdsObjects || s.entryHolds b then s.log else s.log ++ [.released b] := by
  unfold dropObjects
  split <;> rfl

end

/-- An early return after the guard was made. -/
def cancel (s : CommandQueue) (b : Nat) (message : String) : CommandQueue :=
  (s.setPhase b (.cleanup true ⟨.kCancelled, message⟩)).dropObjects b

/-- `Submit` up to its loop over the command buffers. -/
def submit (s : CommandQueue) (b : Nat) (buffers : List Nat) (completionCallback : Bool) : CommandQueue :=
  let phase := if buffers = [] then .returned ⟨.kInvalidArgument, "No command buffers provided."⟩
    else .ending buffers
  { s with
    calls := Function.update s.calls b { phase, completionCallback }
    batches := s.batches ++ [b] }

inductive Label
  | submit (batch : Nat) (buffers : List Nat) (completionCallback : Bool)
  | endCommandBuffer (batch : Nat) (success : Bool)
  | lockContext (batch : Nat) (alive : Bool)
  | createFence (batch : Nat) (success : Bool)
  | queueSubmit (batch : Nat) (success : Bool)
  | addFence (batch : Nat)
  | dropTemporary (batch : Nat)
  | leave (batch : Nat)
  | clearTrackedObjects (batch : Nat)
  | invokeCompletionCallback (batch : Nat)
  | signal (batch : Nat)
  | waiter (label : FenceWaiter.Label)
  deriving DecidableEq, Repr

/-- The steps of the waiter's thread and of its owner. The context, which owns the
waiter, is not destroyed while a call has locked it. -/
def waiterEnabled (s : CommandQueue) : FenceWaiter.Label → Bool
  | .addFence _ _ | .destroyEntry _ | .signal _ => false
  | .thread _ | .destroyed => s.running = none
  | .delete => s.batches.all fun b => !(s.calls b).phase.holdsContext
  | .loseDeviceHolder | .terminate | .joined => true

def stepWaiter (s : CommandQueue) (label : FenceWaiter.Label) : Option CommandQueue :=
  if s.waiterEnabled label then (s.waiter.step label).map fun w => { s with waiter := w } else none

/-- A command buffer without tracked objects cannot be ended, so it is in one batch
at most. The steps after `lockContext` are those of a call whose context is alive. -/
def step (s : CommandQueue) : Label → Option CommandQueue
  | .submit b buffers completionCallback =>
    if (s.calls b).phase = .notCalled then some (s.submit b buffers completionCallback) else none
  | .endCommandBuffer b success =>
    match (s.calls b).phase with
    | .ending (buffer :: buffers) =>
      if buffer ∈ s.moved then none
      else if success then some { s.setPhase b (.ending buffers) with moved := s.moved ++ [buffer] }
      else some (s.cancel b "Failed to end command buffer.")
    | _ => none
  | .lockContext b alive =>
    match (s.calls b).phase with
    | .ending [] =>
      if !alive then some (s.cancel b "Device lost.")
      else if s.waiter.owner ∈ [.idle, .terminating] then some (s.setPhase b .creatingFence) else none
    | _ => none
  | .createFence b success =>
    match (s.calls b).phase with
    | .creatingFence =>
      if success then some (s.setPhase b .submitting) else some (s.cancel b "Failed to create fence.")
    | _ => none
  | .queueSubmit b success =>
    match (s.calls b).phase with
    | .submitting =>
      if success then some ((s.setPhase b .addingFence).record (.accepted b))
      else some (s.cancel b "Failed to submit queue: ")
    | _ => none
  | .addFence b =>
    match (s.calls b).phase with
    | .addingFence =>
      (s.waiter.step (.addFence b true)).map fun w =>
        { s.setPhase b (.addedFence (s.waiter.addFence b true).1) with waiter := w }
    | _ => none
  | .dropTemporary b =>
    match (s.calls b).phase with
    | .addedFence true => some ((s.setPhase b (.cleanup false {})).dropObjects b)
    | .addedFence false => some (s.cancel b "Failed to add fence.")
    | _ => none
  | .leave b =>
    match (s.calls b).phase with
    | .cleanup armed status =>
      let s := s.setPhase b (.returned status)
      some (if armed && (s.calls b).completionCallback then s.record (.completionCallback b .kError) else s)
    | _ => none
  | .clearTrackedObjects b =>
    if s.running = none then
      (s.waiter.step (.destroyEntry b)).map fun w =>
        { s with waiter := w, running := some b }.dropObjects b
    else none
  | .invokeCompletionCallback b =>
    if s.running = some b then
      let s := { s with running := none }
      some (if (s.calls b).completionCallback then s.record (.completionCallback b .kCompleted) else s)
    else none
  | .signal b =>
    if .accepted b ∈ s.log then
      (s.waiter.step (.signal b)).map fun w => { s with waiter := w }.record (.signalled b)
    else none
  | .waiter label => s.stepWaiter label

def machine : Machine CommandQueue Label where
  init := {}
  step := step

end CommandQueue
end Ogre.Hal
