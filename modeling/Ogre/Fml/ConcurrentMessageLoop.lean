import Mathlib.Data.List.Perm.Basic
import Mathlib.Logic.Function.Basic
import Ogre.Library.Machine

/-! The concurrent message loop: its workers, the queue that they share, the tasks of each
worker, and the shutdown. What is done under the mutex of the tasks is one step. -/
namespace Ogre.Fml
open Ogre.Library

/-- Where a worker is in its loop. It sleeps in the wait until it is notified, or is about to
take the mutex. With its tasks in hand it has also read `shutdown_now`. -/
inductive Worker (α : Type)
  | sleeping
  | awake
  | running (task : Option α) (threadTasks : List α) (shutdownNow : Bool)
  | exited

namespace Worker
variable {α : Type}

def isSleeping : Worker α → Bool
  | .sleeping => true
  | _ => false

def isExited : Worker α → Bool
  | .exited => true
  | _ => false

def notified : Worker α → Worker α
  | .sleeping => .awake
  | worker => worker

end Worker

/-- `notifies` counts the calls of `notify_one` that are still to come. `ranTasks` and
`ranThreadTasks` say which worker executed what, from the queue and from its own list, and
`ranOnCaller` has what `PostTask` executed itself. -/
structure ConcurrentMessageLoop (α : Type) where
  tasks : List α := []
  threadTasks : Nat → Option (List α) := fun _ => none
  shutdown : Bool := false
  workers : Nat → Worker α := fun _ => .awake
  notifies : Nat := 0
  destroying : Bool := false
  destroyed : Bool := false
  ranTasks : List (Nat × α) := []
  ranThreadTasks : List (Nat × α) := []
  ranOnCaller : List α := []

namespace ConcurrentMessageLoop
variable {α : Type}

/-- `worker_count_` for the argument of the constructor. -/
def workerCount (count : Nat) : Nat := max count 1

def hasThreadTasksLocked (s : ConcurrentMessageLoop α) (worker : Nat) : Bool := (s.threadTasks worker).isSome

def notifyAll (s : ConcurrentMessageLoop α) : ConcurrentMessageLoop α :=
  { s with workers := fun w => (s.workers w).notified }

/-- A closure may be null. The notification follows the release of the mutex. -/
def postTask (s : ConcurrentMessageLoop α) : Option α → ConcurrentMessageLoop α
  | none => s
  | some task =>
    if s.shutdown then { s with ranOnCaller := s.ranOnCaller ++ [task] }
    else { s with tasks := s.tasks ++ [task], notifies := s.notifies + 1 }

def postTaskToAllWorkers (n : Nat) (s : ConcurrentMessageLoop α) : Option α → ConcurrentMessageLoop α
  | none => s
  | some task =>
    notifyAll { s with threadTasks := fun w =>
      if w < n then some ((s.threadTasks w).getD [] ++ [task]) else s.threadTasks w }

def terminate (s : ConcurrentMessageLoop α) : ConcurrentMessageLoop α := notifyAll { s with shutdown := true }

def setWorker (s : ConcurrentMessageLoop α) (w : Nat) (worker : Worker α) : ConcurrentMessageLoop α :=
  { s with workers := Function.update s.workers w worker }

/-- A worker has the mutex: it waits, or takes a task of the queue and all of its own. -/
def take (s : ConcurrentMessageLoop α) (w : Nat) : ConcurrentMessageLoop α :=
  if !s.tasks.isEmpty || s.shutdown || s.hasThreadTasksLocked w then
    { s with
      tasks := s.tasks.tail
      threadTasks := Function.update s.threadTasks w none
      workers := Function.update s.workers w
        (.running s.tasks.head? ((s.threadTasks w).getD []) s.shutdown) }
  else s.setWorker w .sleeping

/-- A worker executes the next of the tasks in its hands, or is done with them. -/
def proceed (s : ConcurrentMessageLoop α) (w : Nat) : Option (ConcurrentMessageLoop α) :=
  match s.workers w with
  | .running (some task) threadTasks shutdownNow =>
    some { s.setWorker w (.running none threadTasks shutdownNow) with ranTasks := s.ranTasks ++ [(w, task)] }
  | .running none (task :: threadTasks) shutdownNow =>
    some { s.setWorker w (.running none threadTasks shutdownNow) with
      ranThreadTasks := s.ranThreadTasks ++ [(w, task)] }
  | .running none [] shutdownNow => some (s.setWorker w (if shutdownNow then .exited else .awake))
  | .sleeping | .awake | .exited => none

/-- `notify_one` wakes a worker that sleeps, where there is one. -/
def notifyOne (n : Nat) (s : ConcurrentMessageLoop α) (worker : Option Nat) : Option (ConcurrentMessageLoop α) :=
  match s.notifies, worker with
  | 0, _ => none
  | k + 1, some w => if w < n ∧ (s.workers w).isSleeping then some { s.setWorker w .awake with notifies := k } else none
  | k + 1, none => if ∀ w < n, !(s.workers w).isSleeping then some { s with notifies := k } else none

/-- `wake` is for a wait that ends without a notification. The destructor terminates the loop,
and is done when all workers have exited. -/
inductive Label (α : Type)
  | postTask (task : Option α)
  | notifyOne (worker : Option Nat)
  | postTaskToAllWorkers (task : Option α)
  | wake (worker : Nat)
  | take (worker : Nat)
  | proceed (worker : Nat)
  | terminate
  | destroy
  | join

def apply (n : Nat) (s : ConcurrentMessageLoop α) : Label α → Option (ConcurrentMessageLoop α)
  | .postTask task => some (s.postTask task)
  | .notifyOne worker => s.notifyOne n worker
  | .postTaskToAllWorkers task => some (s.postTaskToAllWorkers n task)
  | .wake w => if (s.workers w).isSleeping then some (s.setWorker w .awake) else none
  | .take w =>
    match s.workers w with
    | .awake => if w < n then some (s.take w) else none
    | .sleeping | .running _ _ _ | .exited => none
  | .proceed w => s.proceed w
  | .terminate => some s.terminate
  | .destroy => if s.destroying then none else some { s.terminate with destroying := true }
  | .join => if s.destroying ∧ ∀ w < n, (s.workers w).isExited then some { s with destroyed := true } else none

/-- Nothing is done with a loop that is destroyed. -/
def step (n : Nat) (s : ConcurrentMessageLoop α) (a : Label α) : Option (ConcurrentMessageLoop α) :=
  if s.destroyed then none else s.apply n a

def machine (count : Nat) (α : Type) : Machine (ConcurrentMessageLoop α) (Label α) := ⟨{}, step (workerCount count)⟩

end ConcurrentMessageLoop
end Ogre.Fml
