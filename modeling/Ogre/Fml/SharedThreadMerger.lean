import Ogre.Fml.TaskQueueMerging
import Ogre.Library.OrderedMap

/-! The raster thread mergers that share one shared thread merger, over the task queues of
all loops. A method of a raster thread merger holds its own lock, and the method of the
shared merger that it calls holds the shared one. -/
namespace Ogre.Fml
open Ogre.Library

/-- A method of the shared merger with what the caller passes on. -/
inductive MergerMethod
  | mergeWithLease (leaseTerm : Nat)
  | unMergeNowIfLastOne
  | extendLeaseTo (leaseTerm : Nat)
  | decrementLease
  deriving DecidableEq

/-- `pending` has the mergers that are past their own checks and not yet in the shared
merger. `aborted` is set where a `CHECK` or a `DCHECK` fails. -/
structure SharedThreadMerger (α : Type) where
  taskQueues : MessageLoopTaskQueues α := {}
  enabled : Bool := true
  leaseTermByCaller : OrderedMap Nat := .empty
  pending : List (Nat × MergerMethod) := []
  aborted : Bool := false

namespace SharedThreadMerger
variable {α : Type}

/-- `Owns` of the queues, which has to have the owner. -/
def owns (s : MessageLoopTaskQueues α) (owner subsumed : Nat) : Option Bool := do
  let entry ← s.queueEntries owner
  some (decide (subsumed ∈ entry.ownerOf))

/-- `lease_term_ref--` of a `size_t`. -/
def decremented (leaseTerm : Nat) : Nat := (leaseTerm + 18446744073709551615) % 18446744073709551616

def isAllLeaseTermsZeroUnSafe (s : SharedThreadMerger α) : Bool :=
  s.leaseTermByCaller.entries.all fun item => item.2 == 0

def isMergedUnSafe (s : SharedThreadMerger α) : Bool := !s.isAllLeaseTermsZeroUnSafe

def abort (s : SharedThreadMerger α) : SharedThreadMerger α := { s with aborted := true }

/-- `CHECK` and `DCHECK`. -/
def check (condition : Bool) (s t : SharedThreadMerger α) : SharedThreadMerger α :=
  if condition then t else s.abort

variable (owner subsumed : Nat)

def unMergeNowUnSafe (s : SharedThreadMerger α) : Option (SharedThreadMerger α) :=
  if s.isAllLeaseTermsZeroUnSafe then do
    let (success, queues) ← s.taskQueues.unmerge owner subsumed
    some (check success s { s with taskQueues := queues })
  else some s.abort

def mergeWithLease (s : SharedThreadMerger α) (caller leaseTerm : Nat) : Option (SharedThreadMerger α) :=
  if leaseTerm = 0 then some s.abort
  else if s.isMergedUnSafe then some s
  else do
    let (success, queues) ← s.taskQueues.merge owner subsumed
    some (check success s
      { s with taskQueues := queues, leaseTermByCaller := s.leaseTermByCaller.insert caller leaseTerm })

def unMergeNowIfLastOne (s : SharedThreadMerger α) (caller : Nat) : Option (SharedThreadMerger α) :=
  let s := { s with leaseTermByCaller := s.leaseTermByCaller.erase caller }
  if s.leaseTermByCaller.entries.isEmpty || s.isAllLeaseTermsZeroUnSafe then s.unMergeNowUnSafe owner subsumed
  else some s

/-- The rest of `DecrementLease`, after the lease term of the caller. -/
def unMergeIfLeasesZero (s : SharedThreadMerger α) : Option (SharedThreadMerger α) :=
  if s.isAllLeaseTermsZeroUnSafe then s.unMergeNowUnSafe owner subsumed else some s

def decrementLease (s : SharedThreadMerger α) (caller : Nat) : Option (SharedThreadMerger α) :=
  match s.leaseTermByCaller.find? caller with
  | some leaseTerm =>
    if leaseTerm = 0 then some s.abort
    else
      { s with leaseTermByCaller := s.leaseTermByCaller.insert caller (decremented leaseTerm) }.unMergeIfLeasesZero
        owner subsumed
  | none => s.unMergeIfLeasesZero owner subsumed

def extendLeaseTo (s : SharedThreadMerger α) (caller leaseTerm : Nat) : SharedThreadMerger α :=
  if leaseTerm = 0 then s.abort
  else check s.isMergedUnSafe s { s with leaseTermByCaller := s.leaseTermByCaller.insert caller leaseTerm }

def call (s : SharedThreadMerger α) (caller : Nat) : MergerMethod → Option (SharedThreadMerger α)
  | .mergeWithLease leaseTerm => s.mergeWithLease owner subsumed caller leaseTerm
  | .unMergeNowIfLastOne => s.unMergeNowIfLastOne owner subsumed caller
  | .extendLeaseTo leaseTerm => some (s.extendLeaseTo caller leaseTerm)
  | .decrementLease => s.decrementLease owner subsumed caller

/-- `IsMergedUnSafe` of a raster thread merger. Queues that are the same are merged for good. -/
def rasterIsMergedUnSafe (s : SharedThreadMerger α) : Bool := decide (owner = subsumed) || s.isMergedUnSafe

def await (s : SharedThreadMerger α) (caller : Nat) (method : MergerMethod) : SharedThreadMerger α :=
  { s with pending := (caller, method) :: s.pending }

/-- What a raster thread merger checks before it calls the shared one. It returns early where
the queues are the same or the merger is disabled. -/
def enter (s : SharedThreadMerger α) (caller : Nat) (method : MergerMethod) : SharedThreadMerger α :=
  match method with
  | .mergeWithLease leaseTerm =>
    if owner = subsumed ∨ !s.enabled then s
    else if leaseTerm = 0 then s.abort
    else if s.rasterIsMergedUnSafe owner subsumed then s
    else s.await caller method
  | .unMergeNowIfLastOne => if owner = subsumed ∨ !s.enabled then s else s.await caller method
  | .extendLeaseTo leaseTerm =>
    if leaseTerm = 0 then s.abort
    else if owner = subsumed ∨ !s.enabled then s
    else s.await caller method
  | .decrementLease =>
    if owner = subsumed then s
    else if !s.rasterIsMergedUnSafe owner subsumed then s
    else if !s.enabled then s
    else s.await caller method

/-- `queues` is a call of the queues that is not one of the merger's. -/
inductive Label (α : Type)
  | enter (caller : Nat) (method : MergerMethod)
  | call (caller : Nat) (method : MergerMethod)
  | setEnabledUnSafe (enabled : Bool)
  | queues (label : MessageLoopTaskQueues.Label α)

/-- A merger is in one method at a time, and nothing is done after an abort. -/
def step (s : SharedThreadMerger α) (a : Label α) : Option (SharedThreadMerger α) :=
  if s.aborted then none
  else match a with
  | .enter caller method =>
    if caller ∈ s.pending.map (·.1) then none else some (s.enter owner subsumed caller method)
  | .call caller method =>
    if (caller, method) ∈ s.pending then
      { s with pending := s.pending.erase (caller, method) }.call owner subsumed caller method
    else none
  | .setEnabledUnSafe enabled => some { s with enabled }
  | .queues label => (s.taskQueues.step label).map fun taskQueues => { s with taskQueues }

def machine (α : Type) : Machine (SharedThreadMerger α) (Label α) := ⟨{}, step owner subsumed⟩

end SharedThreadMerger
end Ogre.Fml
