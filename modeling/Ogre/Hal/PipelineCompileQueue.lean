import Ogre.Hal.PipelineRequests

/-! The queue of compile jobs, the calls of threads that are in it, and the task runner
that it posts to. The mutex of the queue is held by the call that is `locked`, and a
critical section that calls nothing is one step. -/
namespace Ogre.Hal.Descriptors
open Ogre.Library

namespace PipelineCompileQueue

/-- A closure that is posted to the runner: a job, or `DoOneJob` on a weak queue. -/
inductive WorkerTask (ι : Type)
  | job (job : ι)
  | doOneJob
  deriving DecidableEq, Repr

/-- What a call does next. -/
inductive Point (ι : Type)
  | postingTask (task : WorkerTask ι)
  | lockingQueue
  | takingNextJob
  | callingJob (job : ι)
  | inJob
  | finishingAllJobs
  deriving DecidableEq, Repr

/-- `strong` calls hold a reference to the queue. -/
structure Call (ι : Type) where
  point : Point ι
  locked : Bool := false
  strong : Bool := false
  destructor : Bool := false
  deriving DecidableEq, Repr

end PipelineCompileQueue

open PipelineCompileQueue in
/-- `owned` while a client holds a reference, `shutdown` once the loop of the runner is
shut down. `accepted` and `executed` are the jobs that were posted and called, with
whether the caller held the mutex. -/
structure PipelineCompileQueue (ι : Type) where
  pendingJobs : List (PipelineDescriptor × ι) := []
  prioritiesElevated : Nat := 0
  tasks : List (WorkerTask ι) := []
  calls : List (Call ι) := []
  owned : Bool := true
  destructing : Bool := false
  destroyed : Bool := false
  shutdown : Bool := false
  accepted : List ι := []
  executed : List (ι × Bool) := []
  deriving DecidableEq, Repr

namespace PipelineCompileQueue
variable {ι : Type}

inductive Label (ι : Type)
  | postJobForDescriptor (desc : PipelineDescriptor) (job : Option ι)
  | performJobEagerly (desc : PipelineDescriptor)
  | runTask (task : Nat)
  | advance (call begin : Nat)
  | release
  | destroy
  | shutdown
  deriving DecidableEq, Repr

def mutexFree (q : PipelineCompileQueue ι) : Bool := q.calls.all (!·.locked)

/-- Whether a weak reference can be locked. -/
def alive (q : PipelineCompileQueue ι) : Bool := q.owned || q.calls.any (·.strong)

def enter (q : PipelineCompileQueue ι) (call : Call ι) : PipelineCompileQueue ι :=
  { q with calls := call :: q.calls }

/-- The critical section of `PostJobForDescriptor`. A job for a descriptor that is
pending is posted with the mutex held. -/
def postJobForDescriptor (q : PipelineCompileQueue ι) (desc : PipelineDescriptor) (job : ι) :
    PipelineCompileQueue ι :=
  if q.pendingJobs.any fun e => e.1.isEqual desc then
    { q with accepted := q.accepted ++ [job] }.enter
      { point := .postingTask (.job job), locked := true, strong := true }
  else
    { q with pendingJobs := q.pendingJobs ++ [(desc, job)], accepted := q.accepted ++ [job] }.enter
      { point := .postingTask .doOneJob, strong := true }

/-- The map has no order, and any entry may be at its beginning. -/
def takeNextJob (q : PipelineCompileQueue ι) (begin : Nat) : Option (Option ι × PipelineCompileQueue ι) :=
  if q.pendingJobs.isEmpty then some (none, q)
  else q.pendingJobs[begin]?.map fun e => (some e.2, { q with pendingJobs := q.pendingJobs.eraseIdx begin })

def takeJob (q : PipelineCompileQueue ι) (desc : PipelineDescriptor) : Option ι × PipelineCompileQueue ι :=
  match q.pendingJobs.find? fun e => e.1.isEqual desc with
  | none => (none, q)
  | some found => (some found.2,
      { q with
        pendingJobs := q.pendingJobs.eraseP fun e => e.1.isEqual desc
        prioritiesElevated := q.prioritiesElevated + 1 })

def performJobEagerly (q : PipelineCompileQueue ι) (desc : PipelineDescriptor) : PipelineCompileQueue ι :=
  match q.takeJob desc with
  | (none, q) => q
  | (some job, q) => q.enter { point := .callingJob job, strong := true }

def execute (q : PipelineCompileQueue ι) (call : Call ι) (job : ι) : PipelineCompileQueue ι :=
  { q with executed := q.executed ++ [(job, call.locked)] }.enter { call with point := .inJob }

/-- The end of `DoOneJob`: the destructor looks for more jobs, all others return. -/
def leave (q : PipelineCompileQueue ι) (call : Call ι) : PipelineCompileQueue ι :=
  if call.destructor then q.enter { call with point := .finishingAllJobs } else q

/-- The job that the next step of the call calls. -/
def Call.job (shutdown : Bool) (call : Call ι) : Option ι :=
  match call.point with
  | .callingJob job => some job
  | .postingTask (.job job) => if shutdown then some job else none
  | _ => none

/-- One step of a call that is taken out of `q`. A runner that is shut down executes
tasks on the thread that posts them, with what that thread holds. -/
def advance (q : PipelineCompileQueue ι) (call : Call ι) (begin : Nat) : Option (PipelineCompileQueue ι) :=
  match call.point with
  | .postingTask task =>
    if q.shutdown then
      match task with
      | .job job => some (q.execute call job)
      | .doOneJob => some (q.enter { call with point := .lockingQueue })
    else some { q with tasks := q.tasks ++ [task] }
  | .lockingQueue =>
    if q.alive || call.strong then some (q.enter { call with point := .takingNextJob, strong := true }) else some q
  | .takingNextJob =>
    if q.mutexFree then
      (q.takeNextJob begin).map fun
        | (some job, q) => q.enter { call with point := .callingJob job }
        | (none, q) => q.leave call
    else none
  | .callingJob job => some (q.execute call job)
  | .inJob => some (q.leave call)
  | .finishingAllJobs =>
    if q.mutexFree then
      if q.pendingJobs.isEmpty then some { q with destroyed := true }
      else some (q.enter { call with point := .takingNextJob })
    else none

/-- A worker begins a task. -/
def workerPoint : WorkerTask ι → Point ι
  | .job job => .callingJob job
  | .doOneJob => .lockingQueue

/-- Clients call the queue while they own it, and it is destroyed when nothing refers to it. -/
def step (q : PipelineCompileQueue ι) : Label ι → Option (PipelineCompileQueue ι)
  | .postJobForDescriptor desc job =>
    match job with
    | none => if q.owned then some q else none
    | some job => if q.owned && q.mutexFree then some (q.postJobForDescriptor desc job) else none
  | .performJobEagerly desc => if q.owned && q.mutexFree then some (q.performJobEagerly desc) else none
  | .runTask i => q.tasks[i]?.map fun task =>
      { q with tasks := q.tasks.eraseIdx i }.enter { point := workerPoint task }
  | .advance i begin => q.calls[i]?.bind fun call => { q with calls := q.calls.eraseIdx i }.advance call begin
  | .release => if q.owned then some { q with owned := false } else none
  | .destroy =>
    if !q.alive && !q.destructing then
      some ({ q with destructing := true }.enter { point := .finishingAllJobs, destructor := true })
    else none
  | .shutdown => some { q with shutdown := true }

def machine (ι : Type) : Machine (PipelineCompileQueue ι) (Label ι) where
  init := {}
  step := step

end PipelineCompileQueue
end Ogre.Hal.Descriptors
