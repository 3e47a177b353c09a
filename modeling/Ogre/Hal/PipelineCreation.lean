import Ogre.Hal.PipelineCompileQueue

/-! The pipeline library with its compile queue, its futures, and the cache that is
persisted. A thread that holds the mutex of the queue from one step to another holds
that of the library as well. Futures are returned at once, and in the source when the
call has posted or run its generation task. -/
namespace Ogre.Hal.Descriptors
open Ogre.Library

/-- What a generation task captures. -/
structure GenerationTask where
  request : Request
  promise : Nat
  nextKey : Int
  deriving DecidableEq, Repr

/-- The promise of a `PipelineFuture`, with the values that it was set to: null, or
the pipeline with a key. -/
structure Promise where
  descriptor : Request
  values : List (Option Int) := []
  deriving DecidableEq, Repr

/-- A thread that waits for a future, after it has or has not asked the compile queue. -/
structure Wait where
  future : Nat
  asked : Bool
  deriving DecidableEq, Repr

/-- `tasks` are generation tasks that are on the runner or called by `GetPipeline`.
`built` are the tasks whose pipelines were created, and so are in the pipeline cache,
`persisted` those in the data that a persist has read last. -/
structure PipelineLibrary where
  isValid : Bool := true
  pipelines : List (Request × Nat) := []
  pipelineKey : Int := 1
  cacheDirty : Bool := false
  framesAcquired : Nat := 0
  compileQueue : PipelineCompileQueue GenerationTask := {}
  tasks : List GenerationTask := []
  promises : List Promise := []
  owned : Bool := true
  persistTasks : Nat := 0
  persisting : Bool := false
  built : List GenerationTask := []
  persisted : List GenerationTask := []
  returned : List (Request × Nat) := []
  waiting : List Wait := []
  deriving DecidableEq, Repr

/-- What a persist gets from the cache: nothing where the directory is not valid, the data are
empty, a query fails or there is no memory for them; a part of the data, or all of them. -/
inductive CacheAnswer
  | nothing
  | incomplete (part : List GenerationTask)
  | complete
  deriving DecidableEq, Repr

def CacheAnswer.data (built : List GenerationTask) : CacheAnswer → Option (List GenerationTask)
  | nothing => none
  | incomplete part => some (built.filter (· ∈ part))
  | complete => some built

namespace PipelineLibrary

/-- Choices of the environment are whether the library is valid, what is created and what is read. -/
inductive Label
  | getPipeline (request : Request) (async : Bool)
  | runTask (task : Nat) (created : Bool)
  | runQueueTask (task : Nat)
  | advanceCall (call begin : Nat) (created : Bool)
  | waitAndGet (future : Nat) (queue : Bool)
  | didAcquireSurfaceFrame
  | readCache (answer : CacheAnswer)
  | finishPersist
  | release
  | destroyQueue
  | shutdown
  deriving DecidableEq, Repr

def addTask (l : PipelineLibrary) (task : GenerationTask) (async : Bool) : PipelineLibrary :=
  match task.request with
  | .render descriptor =>
    if async then { l with compileQueue := l.compileQueue.postJobForDescriptor descriptor task }
    else { l with tasks := l.tasks ++ [task] }
  | .compute _ => { l with tasks := l.tasks ++ [task] }

/-- A new promise, whose future the call returns. -/
def addPromise (l : PipelineLibrary) (request : Request) (values : List (Option Int)) : PipelineLibrary :=
  { l with
    cacheDirty := true
    promises := l.promises ++ [{ descriptor := request, values }]
    returned := l.returned ++ [(request, l.promises.length)] }

/-- The entry and the key of a new pipeline. -/
def addEntry (l : PipelineLibrary) (request : Request) (future : Nat) : PipelineLibrary :=
  { l with pipelines := l.pipelines ++ [(request, future)], pipelineKey := l.pipelineKey + 1 }

def getPipeline (l : PipelineLibrary) (request : Request) (async : Bool) : PipelineLibrary :=
  match l.pipelines.find? fun e => e.1.isEqual request with
  | some found => { l with returned := l.returned ++ [(request, found.2)] }
  | none =>
    if l.isValid then
      ((l.addPromise request []).addEntry request l.promises.length).addTask
        { request, promise := l.promises.length, nextKey := l.pipelineKey } async
    else l.addPromise request [none]

def setValue (l : PipelineLibrary) (promise : Nat) (value : Option Int) : PipelineLibrary :=
  { l with promises := l.promises.modify promise fun p => { p with values := p.values ++ [value] } }

/-- Whether the task creates a pipeline: the library is there, the descriptor is
complete, and the device creates it. -/
def creates (l : PipelineLibrary) (task : GenerationTask) (created : Bool) : Bool :=
  l.owned && created && task.request.creationInputs.isSome

/-- A generation task, on a weak reference to the library. -/
def generate (l : PipelineLibrary) (task : GenerationTask) (created : Bool) : PipelineLibrary :=
  if l.creates task created then
    { l with built := l.built ++ [task] }.setValue task.promise (some task.nextKey)
  else l.setValue task.promise none

def didAcquireSurfaceFrame (l : PipelineLibrary) : PipelineLibrary :=
  if l.framesAcquired + 1 = 50 then
    if l.cacheDirty then { l with cacheDirty := false, persistTasks := l.persistTasks + 1, framesAcquired := 0 }
    else { l with framesAcquired := 0 }
  else { l with framesAcquired := l.framesAcquired + 1 }

/-- The data that a persist reads, if it finds the cache. -/
def cacheData (l : PipelineLibrary) (answer : CacheAnswer) : Option (List GenerationTask) :=
  if l.owned && l.isValid then answer.data l.built else none

/-- A persist task up to where it has read the data; one that gets none ends there. -/
def readCache (l : PipelineLibrary) (answer : CacheAnswer) : PipelineLibrary :=
  match l.cacheData answer with
  | none => { l with persistTasks := l.persistTasks - 1 }
  | some data => { l with persistTasks := l.persistTasks - 1, persisting := true, persisted := data }

/-- `WaitAndGet` on the handle of a render pipeline, up to where it blocks. -/
def waitAndGet (l : PipelineLibrary) (future : Nat) (queue : Bool) : Option PipelineLibrary :=
  l.promises[future]?.bind fun promise =>
    match promise.descriptor with
    | .compute _ => none
    | .render descriptor =>
      if queue then
        if l.owned && l.compileQueue.mutexFree then
          some { l with
            compileQueue := l.compileQueue.performJobEagerly descriptor
            waiting := l.waiting ++ [⟨future, true⟩] }
        else none
      else some { l with waiting := l.waiting ++ [⟨future, false⟩] }

/-- A step of the compile queue, with the job that it calls. -/
def withQueue (l : PipelineLibrary) (label : PipelineCompileQueue.Label GenerationTask) : Option PipelineLibrary :=
  (l.compileQueue.step label).map fun queue => { l with compileQueue := queue }

def step (l : PipelineLibrary) : Label → Option PipelineLibrary
  | .getPipeline request async =>
    if l.owned && l.compileQueue.mutexFree then some (l.getPipeline request async) else none
  | .runTask i created => l.tasks[i]?.map fun task => { l with tasks := l.tasks.eraseIdx i }.generate task created
  | .runQueueTask i => l.withQueue (.runTask i)
  | .advanceCall i begin created =>
    (l.withQueue (.advance i begin)).map fun l' =>
      (l.compileQueue.calls[i]?.bind (·.job l.compileQueue.shutdown)).elim l' fun task => l'.generate task created
  | .waitAndGet future queue => l.waitAndGet future queue
  | .didAcquireSurfaceFrame => if l.owned then some l.didAcquireSurfaceFrame else none
  | .readCache answer => if l.persistTasks = 0 || l.persisting then none else some (l.readCache answer)
  | .finishPersist => if l.persisting then some { l with persisting := false } else none
  | .release => if l.owned then (l.withQueue .release).map fun l' => { l' with owned := false } else none
  | .destroyQueue => l.withQueue .destroy
  | .shutdown => l.withQueue .shutdown

def machine (isValid : Bool) : Machine PipelineLibrary Label where
  init := { isValid }
  step := step

end PipelineLibrary
end Ogre.Hal.Descriptors
