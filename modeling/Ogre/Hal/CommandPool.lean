import Ogre.Library.Machine

/-! The command pools of one context: the pools that threads have got, the command
buffers that clients hold, the pools that wait for their reset on the resource manager's
thread, and the recycler. Device pools and device command buffers have numbers in the
order in which the device made them. -/
namespace Ogre.Hal
open Ogre.Library

/-- `thread` is the thread that got the pool first, `alive` until the destructor has run. -/
structure CommandPool where
  pool : Option Nat
  unusedCommandBuffers : List Nat := []
  collectedBuffers : List Nat := []
  thread : Nat
  alive : Bool := true
  deriving DecidableEq, Repr

def CommandPool.buffers (c : CommandPool) : List Nat := c.collectedBuffers ++ c.unusedCommandBuffers

/-- `Destroy`, and what the destructor leaves. -/
def CommandPool.destroy (c : CommandPool) : CommandPool :=
  { c with pool := none, unusedCommandBuffers := [], collectedBuffers := [] }

/-- A command buffer that was handed out. With tracked objects it keeps its pool alive. -/
structure HeldCommandBuffer where
  buffer : Nat
  pool : Nat
  tracked : Bool
  deriving DecidableEq, Repr

/-- `origin` is the command pool that it comes from. -/
structure BackgroundCommandPool where
  pool : Nat
  buffers : List Nat
  unusedCount : Nat
  origin : Nat
  deriving DecidableEq, Repr

structure RecycledData where
  pool : Nat
  buffers : List Nat
  deriving DecidableEq, Repr

def kUnusedCommandBufferLimit : Nat := 16

/-- `threadLocal` are the entries of the context in the maps of all threads, `allPools`
its entries in the global map, and `references` the shared pointers that callers of `Get`
have. `homes` are the device pools of the buffers that were allocated. The last fields
record what was freed, which buffers were handed out since their pool was reset, those
that were handed out twice in that time, the pools that were reclaimed, the pools whose
global entry was erased or replaced, and that the context tore its pools down. -/
structure CommandPools where
  contextAlive : Bool := true
  pools : List CommandPool := []
  threadLocal : List (Nat × Nat) := []
  allPools : List (Nat × Nat) := []
  references : List Nat := []
  held : List HeldCommandBuffer := []
  background : List BackgroundCommandPool := []
  recycled : List RecycledData := []
  devicePools : Nat := 0
  homes : List Nat := []
  freed : List Nat := []
  freedPools : List Nat := []
  handedOut : List Nat := []
  handedOutTwice : List Nat := []
  reclaimed : List Nat := []
  dropped : List Nat := []
  tornDown : Bool := false
  deriving DecidableEq, Repr

namespace CommandPools

inductive Label
  | get (thread : Nat) (created : Bool)
  | dropReference (pool : Nat)
  | createCommandBuffer (pool : Nat) (tracked allocated : Bool)
  | collectCommandBuffer (held : Nat)
  | freeCommandBuffer (held : Nat)
  | dispose (thread : Nat)
  | exitThread (thread : Nat)
  | destroyThreadLocalPools (thread : Nat)
  | reclaim (task : Nat)
  | expireContext
  | destroyRecycler
  deriving DecidableEq, Repr

/-- Whether a shared pointer to the pool exists. -/
def referenced (s : CommandPools) (p : Nat) : Bool :=
  s.threadLocal.any (·.2 = p) || s.references.contains p || s.held.any fun c => c.tracked && c.pool = p

/-- `~CommandPool`. The weak pointer to the context, which is that of the recycler, is
taken not to lock once the context is gone. -/
def destruct (s : CommandPools) (p : Nat) (c : CommandPool) : CommandPools :=
  let s := { s with pools := s.pools.set p { c.destroy with alive := false } }
  match c.pool with
  | none => { s with freed := s.freed ++ c.buffers }
  | some pool =>
    if s.contextAlive then
      { s with background := s.background ++ [⟨pool, c.buffers, c.unusedCommandBuffers.length, p⟩] }
    else { s with freed := s.freed ++ c.buffers, freedPools := s.freedPools ++ [pool] }

/-- After a shared pointer to the pool is gone. -/
def release (s : CommandPools) (p : Nat) : CommandPools :=
  match s.pools[p]? with
  | none => s
  | some c => if c.alive && !s.referenced p then s.destruct p c else s

/-- `Destroy` on a pool that can be locked. -/
def destroy (s : CommandPools) (p : Nat) : CommandPools :=
  match s.pools[p]? with
  | none => s
  | some c =>
    if c.alive then
      { s with
        pools := s.pools.set p c.destroy
        freed := s.freed ++ c.buffers
        freedPools := s.freedPools ++ c.pool.toList }
    else s

/-- `Create`: a recycled pool, or one that the device creates. -/
def create (s : CommandPools) (created : Bool) : Option RecycledData × CommandPools :=
  match s.recycled.getLast? with
  | some data => (some data, { s with recycled := s.recycled.dropLast })
  | none =>
    if created then (some ⟨s.devicePools, []⟩, { s with devicePools := s.devicePools + 1 }) else (none, s)

/-- The rest of `Get`, with the entries of the thread. -/
def addPool (s : CommandPools) (thread : Nat) (data : RecycledData) : CommandPools :=
  { s with
    pools := s.pools ++ [{ pool := some data.pool, unusedCommandBuffers := data.buffers, thread }]
    threadLocal := s.threadLocal ++ [(thread, s.pools.length)]
    allPools := s.allPools.filter (·.1 ≠ thread) ++ [(thread, s.pools.length)]
    dropped := s.dropped ++ (s.allPools.filter (·.1 = thread)).map (·.2)
    references := s.references ++ [s.pools.length] }

def get (s : CommandPools) (thread : Nat) (created : Bool) : CommandPools :=
  if s.contextAlive then
    match s.threadLocal.find? (·.1 = thread) with
    | some e => { s with references := s.references ++ [e.2] }
    | none => match s.create created with
      | (some data, s) => s.addPool thread data
      | (none, s) => s
  else s

def handOut (s : CommandPools) (buffer pool : Nat) (tracked : Bool) : CommandPools :=
  { s with
    held := s.held ++ [⟨buffer, pool, tracked⟩]
    handedOut := s.handedOut ++ [buffer]
    handedOutTwice := if s.handedOut.contains buffer then s.handedOutTwice ++ [buffer] else s.handedOutTwice }

/-- `CreateCommandBuffer`, on behalf of tracked objects or of a caller. -/
def createCommandBuffer (s : CommandPools) (p : Nat) (tracked allocated : Bool) : CommandPools :=
  match s.pools[p]? with
  | none => s
  | some c =>
    match s.contextAlive, c.pool with
    | true, some pool =>
      match c.unusedCommandBuffers.getLast? with
      | some buffer =>
        { s with pools := s.pools.set p { c with unusedCommandBuffers := c.unusedCommandBuffers.dropLast } }.handOut
          buffer p tracked
      | none =>
        if allocated then { s with homes := s.homes ++ [pool] }.handOut s.homes.length p tracked else s
    | _, _ => s

/-- A pool that was destroyed has freed its buffers. -/
def collect (s : CommandPools) (p buffer : Nat) : CommandPools :=
  match s.pools[p]? with
  | none => s
  | some c =>
    match c.pool with
    | none => { s with freed := s.freed ++ [buffer] }
    | some _ => { s with pools := s.pools.set p { c with collectedBuffers := c.collectedBuffers ++ [buffer] } }

def eraseThreadLocal (s : CommandPools) (thread : Nat) : CommandPools :=
  match s.threadLocal.find? (·.1 = thread) with
  | none => s
  | some e => { s with threadLocal := s.threadLocal.filter (·.1 ≠ thread) }.release e.2

def dispose (s : CommandPools) (thread : Nat) : CommandPools :=
  let s := s.eraseThreadLocal thread
  { s with
    allPools := s.allPools.filter (·.1 ≠ thread)
    dropped := s.dropped ++ (s.allPools.filter (·.1 = thread)).map (·.2) }

def destroyThreadLocalPools (s : CommandPools) (thread : Nat) : CommandPools :=
  let s := s.eraseThreadLocal thread
  { s.allPools.foldl (fun s e => s.destroy e.2) s with allPools := [], tornDown := !s.contextAlive }

/-- `Reclaim`, with the reset of the pool. -/
def reclaim (s : CommandPools) (task : BackgroundCommandPool) : CommandPools :=
  if s.contextAlive then
    let trim := kUnusedCommandBufferLimit < task.unusedCount
    { s with
      freed := if trim then s.freed ++ task.buffers else s.freed
      handedOut := s.handedOut.filter fun b => s.homes[b]? ≠ some task.pool
      recycled := s.recycled ++ [⟨task.pool, if trim then [] else task.buffers⟩]
      reclaimed := s.reclaimed ++ [task.origin] }
  else { s with freed := s.freed ++ task.buffers, freedPools := s.freedPools ++ [task.pool] }

/-- The destructor of tracked objects, or `CollectCommandBuffer` by a caller. -/
def collectHeld (s : CommandPools) (i : Nat) (c : HeldCommandBuffer) : CommandPools :=
  let s := { s with held := s.held.eraseIdx i }.collect c.pool c.buffer
  if c.tracked then s.release c.pool else s

def step (s : CommandPools) : Label → Option CommandPools
  | .get thread created => some (s.get thread created)
  | .dropReference p =>
    if s.references.contains p then some ({ s with references := s.references.erase p }.release p) else none
  | .createCommandBuffer p tracked allocated =>
    if s.references.contains p then some (s.createCommandBuffer p tracked allocated) else none
  | .collectCommandBuffer i =>
    s.held[i]?.bind fun c => if c.tracked || s.references.contains c.pool then some (s.collectHeld i c) else none
  | .freeCommandBuffer i =>
    s.held[i]?.bind fun c =>
      if c.tracked then none
      else some { s with held := s.held.eraseIdx i, freed := s.freed ++ [c.buffer] }
  | .dispose thread => some (s.dispose thread)
  | .exitThread thread => some (s.eraseThreadLocal thread)
  | .destroyThreadLocalPools thread => some (s.destroyThreadLocalPools thread)
  | .reclaim i => s.background[i]?.map fun task => { s with background := s.background.eraseIdx i }.reclaim task
  | .expireContext => some { s with contextAlive := false }
  | .destroyRecycler =>
    if s.contextAlive then none
    else some { s with
      recycled := []
      freed := s.freed ++ s.recycled.flatMap (·.buffers)
      freedPools := s.freedPools ++ s.recycled.map (·.pool) }

def machine : Machine CommandPools Label where
  init := {}
  step := step

end CommandPools
end Ogre.Hal
