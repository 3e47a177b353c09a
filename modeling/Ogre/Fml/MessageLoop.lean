import Ogre.Fml.TaskConservation

/-! A message loop and the threads that post to it. A post reads the terminated flag and
registers its task later, under the lock of the queues, so other steps come in between. -/
namespace Ogre.Fml
open Ogre.Library

inductive FlushType
  | kSingle
  | kAll
  deriving DecidableEq, Repr

/-- Where the loop's own thread is in `DoRun`. The last flush is the one after `Run`. -/
inductive Phase
  | idle
  | running
  | flushing (type : FlushType) (now : Int) (last : Bool)
  | disposing
  | returned
  deriving DecidableEq, Repr

structure Post (α : Type) where
  task : α
  targetTime : Int
  deriving DecidableEq, Repr

/-- `posting` has the posts that were not turned away and are not registered yet. -/
structure MessageLoopImpl (α : Type) where
  taskQueue : MessageLoopTaskQueues α
  queueId : Nat
  terminated : Bool := false
  phase : Phase := .idle
  posting : List (Post α) := []

namespace MessageLoopImpl
variable {α : Type}

/-- The loop creates its queue and is the wakeable of it. -/
def new (taskQueue : MessageLoopTaskQueues α) : Option (MessageLoopImpl α) := do
  let queue := taskQueue.createTaskQueue
  let taskQueue ← queue.2.setWakeable queue.1
  some { taskQueue, queueId := queue.1 }

/-- `PostTask` up to its check. A task that is turned away is destroyed in the call. -/
def postTask (s : MessageLoopImpl α) (post : Post α) : MessageLoopImpl α :=
  if s.terminated then s else { s with posting := s.posting ++ [post] }

/-- The rest of a `PostTask` call. -/
def registerTask (s : MessageLoopImpl α) (i : Nat) : Option (MessageLoopImpl α) := do
  let post ← s.posting[i]?
  let taskQueue ← s.taskQueue.registerTask s.queueId post.task post.targetTime .kUnspecified
  some { s with taskQueue, posting := s.posting.eraseIdx i }

/-- The flag is set, and `Terminate` lets `Run` return. -/
def doTerminate (s : MessageLoopImpl α) : MessageLoopImpl α := { s with terminated := true }

/-- A loop that is terminated is not run. -/
def doRun (s : MessageLoopImpl α) : Option (MessageLoopImpl α) :=
  match s.phase with
  | .idle | .returned => some { s with phase := if s.terminated then .returned else .running }
  | _ => none

/-- `Run` calls `RunExpiredTasksNow`, or `RunSingleExpiredTaskNow`. -/
def runExpiredTasks (s : MessageLoopImpl α) (type : FlushType) (now : Int) : Option (MessageLoopImpl α) :=
  match s.phase with
  | .running => some { s with phase := .flushing type now false }
  | _ => none

/-- `Run` has returned, and `DoRun` goes on with the last flush. -/
def runReturns (s : MessageLoopImpl α) (now : Int) : Option (MessageLoopImpl α) :=
  match s.phase with
  | .running => some { s with terminated := true, phase := .flushing .kAll now true }
  | _ => none

/-- One turn of the loop of `FlushTasks`, with the task that it runs. -/
def flushTask (s : MessageLoopImpl α) : Option (Option (DelayedTask α) × MessageLoopImpl α) :=
  match s.phase with
  | .flushing type now last => do
    let (task, taskQueue) ← s.taskQueue.getNextTaskToRun s.queueId now
    let ended := task.isNone || type = .kSingle
    some (task, { s with
      taskQueue
      phase := if ended then if last then .disposing else .running else s.phase })
  | _ => none

def disposeTasks (s : MessageLoopImpl α) : Option (MessageLoopImpl α) :=
  match s.phase with
  | .disposing => do
    let taskQueue ← s.taskQueue.disposeTasks s.queueId
    some { s with taskQueue, phase := .returned }
  | _ => none

inductive Label (α : Type)
  | postTask (post : Post α)
  | registerTask (i : Nat)
  | doTerminate
  | doRun
  | runExpiredTasks (type : FlushType) (now : Int)
  | runReturns (now : Int)
  | flushTask
  | disposeTasks

def step (s : MessageLoopImpl α) : Label α → Option (MessageLoopImpl α)
  | .postTask post => some (s.postTask post)
  | .registerTask i => s.registerTask i
  | .doTerminate => some s.doTerminate
  | .doRun => s.doRun
  | .runExpiredTasks type now => s.runExpiredTasks type now
  | .runReturns now => s.runReturns now
  | .flushTask => s.flushTask.map (·.2)
  | .disposeTasks => s.disposeTasks

/-- What became of the closures that were posted. -/
structure Fates (α : Type) where
  posted : Multiset α := 0
  run : Multiset α := 0
  destroyedInPost : Multiset α := 0
  destroyedByRun : Multiset α := 0

/-- The closures that the queue of the loop holds. -/
def held (s : MessageLoopImpl α) : Multiset α := (s.taskQueue.pending s.queueId).map (·.task)

def Fates.update (s : MessageLoopImpl α) (a : Label α) (_ : MessageLoopImpl α) (g : Fates α) : Fates α :=
  match a with
  | .postTask post =>
    if s.terminated then { g with posted := post.task ::ₘ g.posted, destroyedInPost := post.task ::ₘ g.destroyedInPost }
    else { g with posted := post.task ::ₘ g.posted }
  | .flushTask => match s.flushTask with
    | some (some task, _) => { g with run := task.task ::ₘ g.run }
    | _ => g
  | .disposeTasks => { g with destroyedByRun := s.held + g.destroyedByRun }
  | _ => g

/-- The loop from its construction on, with the fates of the closures. -/
def machine (loop : MessageLoopImpl α) : Machine (MessageLoopImpl α × Fates α) (Label α) :=
  (⟨loop, step⟩ : Machine _ _).withHistory {} Fates.update

end MessageLoopImpl
end Ogre.Fml
