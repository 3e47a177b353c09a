import Mathlib.Data.List.Basic
import Ogre.Library.Machine

/-! The resource manager: handles that give their resources up on any thread, the waiter thread
that destroys what was reclaimed, and the end of the manager with its last reference. -/
namespace Ogre.Hal
open Ogre.Library

/-- Where a `Reset` is. It has locked the weak reference to the manager, takes the mutex, pushes
the resource, releases the mutex, notifies, and drops the reference; or there was no manager
any more, and it destroys the resource itself. -/
inductive ResetStage
  | locked
  | holding
  | pushed
  | released
  | notified
  | dropping
  deriving DecidableEq

namespace ResetStage

/-- The resource is still with the caller. -/
def carries : ResetStage → Bool
  | .locked | .holding | .dropping => true
  | .pushed | .released | .notified => false

/-- The caller has a strong reference to the manager. -/
def holdsManager : ResetStage → Bool
  | .dropping => false
  | .locked | .holding | .pushed | .released | .notified => true

def holdsMutex : ResetStage → Bool
  | .holding | .pushed => true
  | .locked | .released | .notified | .dropping => false

end ResetStage

/-- Where the waiter thread is in `Start`, with the resources to collect. In its wait it checks
the predicate with the mutex, and where that is false it releases the mutex and sleeps. -/
inductive ResourceWaiter
  | locking
  | checking
  | blocking
  | asleep
  | swapping
  | reading (resources : List Nat)
  | unlocking (resources : List Nat) (shouldExit : Bool)
  | clearing (resources : List Nat) (shouldExit : Bool)
  | exited
  deriving DecidableEq

namespace ResourceWaiter

def holdsMutex : ResourceWaiter → Bool
  | .checking | .blocking | .swapping | .reading _ | .unlocking _ _ => true
  | .locking | .asleep | .clearing _ _ | .exited => false

def collected : ResourceWaiter → List Nat
  | .reading resources | .unlocking resources _ | .clearing resources _ => resources
  | .locking | .checking | .blocking | .asleep | .swapping | .exited => []

end ResourceWaiter

/-- Where the manager is between its life and the end of its destructor, which calls `Terminate`
and joins the waiter. -/
inductive ManagerLife
  | alive
  | terminating
  | holding
  | flagged
  | unlocked
  | joining
  | gone
  deriving DecidableEq

def ManagerLife.holdsMutex : ManagerLife → Bool
  | .holding | .flagged => true
  | .alive | .terminating | .unlocked | .joining | .gone => false

inductive MutexHolder
  | waiter
  | caller (resource : Nat)
  | destructor
  deriving DecidableEq

/-- A destructor that was run: of which resource, by the waiter or another thread, and whether
that thread held the mutex of the reclaimables. -/
structure Destruction where
  resource : Nat
  onWaiter : Bool
  mutexHeld : Bool

/-- `owners` are the strong references outside of `Reset`. `handles` are the handles that have a
resource. Resources have the numbers in which they were made. -/
structure ResourceManager where
  owners : Nat := 1
  reclaimables : List Nat := []
  shouldExit : Bool := false
  mutex : Option MutexHolder := none
  waiter : ResourceWaiter := .locking
  life : ManagerLife := .alive
  calls : List (Nat × ResetStage) := []
  handles : List (Nat × Nat) := []
  resources : Nat := 0
  destroyed : List Destruction := []

namespace ResourceManager

/-- The use count of the shared pointers. -/
def useCount (s : ResourceManager) : Nat := s.owners + s.calls.countP fun c => c.2.holdsManager

def destroy (s : ResourceManager) (resource : Nat) (onWaiter : Bool) (thread : MutexHolder) : ResourceManager :=
  { s with destroyed := s.destroyed ++ [⟨resource, onWaiter, decide (s.mutex = some thread)⟩] }

/-- `notify_one`. The waiter is the only thread that waits. -/
def notify (s : ResourceManager) : ResourceManager :=
  if s.waiter = .asleep then { s with waiter := .locking } else s

/-- The destructor begins on the thread that drops the last reference. -/
def dropReference (s : ResourceManager) : ResourceManager :=
  if s.useCount = 0 then { s with life := .terminating } else s

/-- A handle begins to give up its resource, if it has one. -/
def reset (s : ResourceManager) (handle : Nat) : ResourceManager :=
  match s.handles.find? fun h => h.1 = handle with
  | none => s
  | some h => { s with
      handles := s.handles.erase h
      calls := (h.2, if s.useCount = 0 then .dropping else .locked) :: s.calls }

/-- A handle gets a new resource. -/
def populate (s : ResourceManager) (handle : Nat) : ResourceManager :=
  { s with handles := (handle, s.resources) :: s.handles, resources := s.resources + 1 }

def setStage (s : ResourceManager) (resource : Nat) (stage next : ResetStage) : ResourceManager :=
  { s with calls := (resource, next) :: s.calls.erase (resource, stage) }

def endCall (s : ResourceManager) (resource : Nat) (stage : ResetStage) : ResourceManager :=
  { s with calls := s.calls.erase (resource, stage) }

/-- The next step of a `Reset` that is at some stage. -/
def proceed (s : ResourceManager) (resource : Nat) (stage : ResetStage) : Option ResourceManager :=
  match stage with
  | .locked =>
    if s.mutex = none then some { s.setStage resource .locked .holding with mutex := some (.caller resource) } else none
  | .holding => some { s.setStage resource .holding .pushed with reclaimables := s.reclaimables ++ [resource] }
  | .pushed => some { s.setStage resource .pushed .released with mutex := none }
  | .released => some (s.setStage resource .released .notified).notify
  | .notified => some (s.endCall resource .notified).dropReference
  | .dropping => some ((s.endCall resource .dropping).destroy resource false (.caller resource))

/-- The next step of the waiter thread. It sleeps until it is notified. -/
def runWaiter (s : ResourceManager) : Option ResourceManager :=
  match s.waiter with
  | .locking => if s.mutex = none then some { s with mutex := some .waiter, waiter := .checking } else none
  | .checking =>
    some { s with waiter := if s.reclaimables = [] ∧ s.shouldExit = false then .blocking else .swapping }
  | .blocking => some { s with mutex := none, waiter := .asleep }
  | .asleep => none
  | .swapping => some { s with reclaimables := [], waiter := .reading s.reclaimables }
  | .reading resources => some { s with waiter := .unlocking resources s.shouldExit }
  | .unlocking resources shouldExit => some { s with mutex := none, waiter := .clearing resources shouldExit }
  | .clearing (resource :: resources) shouldExit =>
    some { s.destroy resource true .waiter with waiter := .clearing resources shouldExit }
  | .clearing [] shouldExit => some { s with waiter := if shouldExit then .exited else .locking }
  | .exited => none

/-- The next step of the destructor. At its end the members are destroyed with what they have. -/
def runDestructor (s : ResourceManager) : Option ResourceManager :=
  match s.life with
  | .alive => none
  | .terminating => if s.mutex = none then some { s with mutex := some .destructor, life := .holding } else none
  | .holding => some { s with shouldExit := true, life := .flagged }
  | .flagged => some { s with mutex := none, life := .unlocked }
  | .unlocked => some { s.notify with life := .joining }
  | .joining =>
    if s.waiter = .exited then
      some { s with
        destroyed := s.destroyed ++ s.reclaimables.map fun r => ⟨r, false, decide (s.mutex = some .destructor)⟩
        reclaimables := []
        life := .gone }
    else none
  | .gone => none

/-- A handle without a resource is constructed, reset and destroyed without an effect. `wake` is
for a wait that ends without a notification. -/
inductive Label
  | construct (handle : Nat)
  | swap (handle : Nat)
  | reset (handle : Nat)
  | destruct (handle : Nat)
  | retain
  | release
  | proceed (resource : Nat) (stage : ResetStage)
  | runWaiter
  | wake
  | runDestructor

def step (s : ResourceManager) : Label → Option ResourceManager
  | .construct handle => if handle ∈ s.handles.map (·.1) then none else some (s.populate handle)
  | .swap handle => some ((s.reset handle).populate handle)
  | .reset handle | .destruct handle => some (s.reset handle)
  | .retain => if s.useCount = 0 then none else some { s with owners := s.owners + 1 }
  | .release => if s.owners = 0 then none else some { s with owners := s.owners - 1 }.dropReference
  | .proceed resource stage => if (resource, stage) ∈ s.calls then s.proceed resource stage else none
  | .runWaiter => s.runWaiter
  | .wake => if s.waiter = .asleep then some { s with waiter := .locking } else none
  | .runDestructor => s.runDestructor

def machine : Machine ResourceManager Label := ⟨{}, step⟩

end ResourceManager
end Ogre.Hal
