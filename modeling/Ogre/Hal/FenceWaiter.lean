import Mathlib.Logic.Function.Basic
import Ogre.Library.Machine

/-! The fence waiter: a thread that waits on the fences of a set and retires
their entries, among callers that add fences and terminate it. -/
namespace Ogre.Hal
open Ogre.Library

/-- Where the waiter thread is. `draining` tells the loop of `WaitUntilEmpty` from
that of `Main`, `waitSet` is the snapshot that `Wait` has taken. -/
inductive WaiterThread
  | main
  | waitUntilEmpty
  | snapshot (draining : Bool)
  | lockDevice (draining : Bool) (waitSet : List Nat)
  | waitForFences (draining : Bool) (waitSet : List Nat)
  | updateStatus (draining : Bool) (waitSet : List Nat)
  | erase (draining : Bool)
  | clear (draining : Bool) (erased : List Nat)
  | exited
  deriving DecidableEq, Repr

/-- What the owner of the waiter is doing: a call of `Terminate` that joins the
thread, or the destructor, which does so and then destroys the members. -/
inductive WaiterOwner
  | idle
  | terminating
  | deleting
  | destructing
  | destroyed
  deriving DecidableEq, Repr

/-- What a run of the waiter can be asked about. Calls of `AddFence` have numbers. -/
inductive WaiterEvent
  | accepted (entry : Nat)
  | refused (entry : Nat)
  | observedSignalled (entry : Nat)
  | invokedCallback (entry : Nat)
  | tornDown
  deriving DecidableEq, Repr

/-- An entry has the number of the call that added it, and so has its fence.
`signalled` are the fences that the device has signalled. -/
structure FenceWaiter where
  waitSet : List Nat := []
  isSignalled : Nat → Bool := fun _ => false
  terminate : Bool := false
  thread : WaiterThread := .main
  owner : WaiterOwner := .idle
  deviceHolder : Bool := true
  signalled : Nat → Bool := fun _ => false
  log : List WaiterEvent := []

namespace FenceWaiter

def record (w : FenceWaiter) (e : WaiterEvent) : FenceWaiter := { w with log := w.log ++ [e] }

/-- The loop that called `Wait` goes on. -/
def resume (w : FenceWaiter) (draining : Bool) : FenceWaiter :=
  { w with thread := if draining then .waitUntilEmpty else .main }

/-- `Wait` has returned false, and the thread ends. -/
def tearDown (w : FenceWaiter) : FenceWaiter := { w with thread := .exited }.record .tornDown

/-- The entries that are out of the wait set and not yet destroyed. -/
def erased (w : FenceWaiter) : List Nat :=
  match w.thread with
  | .clear _ erased => erased
  | _ => []

/-- The number is that of no call so far. -/
def isNew (w : FenceWaiter) (entry : Nat) : Bool :=
  .accepted entry ∉ w.log ∧ .refused entry ∉ w.log

/-- `valid` tells whether the fence and the callback are not null. -/
def addFence (w : FenceWaiter) (entry : Nat) (valid : Bool) : Bool × FenceWaiter :=
  if !valid then (false, w.record (.refused entry))
  else if w.terminate then (false, w.record (.refused entry))
  else (true, { w with waitSet := w.waitSet ++ [entry] }.record (.accepted entry))

def getFencesForWaitSet (w : FenceWaiter) (set : List Nat) : List Nat :=
  set.filter fun entry => !w.isSignalled entry

/-- `UpdateSignalledStatus`, with the answer of `vkGetFenceStatus`. -/
def updateSignalledStatus (w : FenceWaiter) (entry : Nat) (success : Bool) : FenceWaiter :=
  if w.isSignalled entry then w
  else if success then
    { w with isSignalled := Function.update w.isSignalled entry true }.record (.observedSignalled entry)
  else w

/-- One step of the waiter thread. `answer` is that of the device, where there is one:
whether `vkWaitForFences` succeeds or times out, or `vkGetFenceStatus` succeeds. -/
def runThread (w : FenceWaiter) (answer : Bool) : Option FenceWaiter :=
  match w.thread with
  | .main =>
    -- the condition variable lets the thread pass only for one of the two
    if w.waitSet = [] ∧ w.terminate = false then none
    else some { w with thread := if w.terminate then .waitUntilEmpty else .snapshot false }
  | .waitUntilEmpty => some { w with thread := if w.waitSet = [] then .exited else .snapshot true }
  | .snapshot draining => some { w with thread := .lockDevice draining w.waitSet }
  | .lockDevice draining set =>
    if w.deviceHolder then
      if w.getFencesForWaitSet set = [] then some (w.resume draining)
      else some { w with thread := .waitForFences draining set }
    else some w.tearDown
  | .waitForFences draining set =>
    if answer then some { w with thread := .updateStatus draining set } else some w.tearDown
  | .updateStatus draining (entry :: set) =>
    if answer && !w.signalled entry then none
    else some { w.updateSignalledStatus entry answer with thread := .updateStatus draining set }
  | .updateStatus draining [] => some { w with thread := .erase draining }
  | .erase draining =>
    some { w with
      waitSet := w.waitSet.filter fun entry => !w.isSignalled entry
      thread := .clear draining (w.waitSet.filter w.isSignalled) }
  | .clear draining [] => some (w.resume draining)
  | .clear _ (_ :: _) => none
  | .exited => none

/-- The destructor of an entry, with its callback: of one that the thread has
erased, or of one that is left in the wait set when that is destroyed. -/
def destroyEntry (w : FenceWaiter) (entry : Nat) : Option FenceWaiter :=
  match w.thread with
  | .clear draining erased =>
    if entry ∈ erased then
      some ({ w with thread := .clear draining (erased.erase entry) }.record (.invokedCallback entry))
    else none
  | _ =>
    if w.owner = .destructing ∧ entry ∈ w.waitSet then
      some ({ w with waitSet := w.waitSet.erase entry }.record (.invokedCallback entry))
    else none

/-- `Terminate` up to the join; the caller of the destructor is `deleting`. -/
def beginTerminate (w : FenceWaiter) (owner finished : WaiterOwner) : FenceWaiter :=
  if w.terminate then { w with owner := finished } else { w with terminate := true, owner }

inductive Label
  | addFence (entry : Nat) (valid : Bool)
  | thread (answer : Bool)
  | destroyEntry (entry : Nat)
  | signal (entry : Nat)
  | loseDeviceHolder
  | terminate
  | delete
  | joined
  | destroyed
  deriving DecidableEq, Repr

/-- The owner does not delete the waiter while it is in use, and nobody uses it
once its members are being destroyed. -/
def step (w : FenceWaiter) : Label → Option FenceWaiter
  | .addFence entry valid =>
    if w.isNew entry && w.owner ∉ [.destructing, .destroyed] then some (w.addFence entry valid).2 else none
  | .thread answer => w.runThread answer
  | .destroyEntry entry => w.destroyEntry entry
  | .signal entry => some { w with signalled := Function.update w.signalled entry true }
  | .loseDeviceHolder => some { w with deviceHolder := false }
  | .terminate =>
    match w.owner with
    | .idle => some (w.beginTerminate .terminating .idle)
    | .terminating => some w
    | _ => none
  | .delete =>
    match w.owner with
    | .idle => some (w.beginTerminate .deleting .destructing)
    | _ => none
  | .joined =>
    match w.owner, w.thread with
    | .terminating, .exited => some { w with owner := .idle }
    | .deleting, .exited => some { w with owner := .destructing }
    | _, _ => none
  | .destroyed =>
    if w.owner = .destructing ∧ w.waitSet = [] then some { w with owner := .destroyed } else none

def machine : Machine FenceWaiter Label where
  init := {}
  step := step

end FenceWaiter
end Ogre.Hal
