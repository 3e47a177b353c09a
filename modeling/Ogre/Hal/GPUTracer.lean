import Ogre.Core.BufferView
import Ogre.Library.Machine

/-! The GPU tracer: timestamps of the command buffers of a frame go to the query pool of the
current trace state, and the pool is read when the last of these buffers has completed. -/
namespace Ogre.Hal
open Ogre.Core Ogre.Library

def kTraceStatesSize : Nat := 16

def kPoolSize : Nat := 128

instance : NeZero kTraceStatesSize := ⟨by decide⟩

abbrev TraceIndex := Fin kTraceStatesSize

def TraceIndex.next (i : TraceIndex) : TraceIndex := ⟨(i + 1) % kTraceStatesSize, Nat.mod_lt _ (by decide)⟩

structure GPUTraceState where
  currentIndex : Nat := 0
  pendingBuffers : Nat := 0
  deriving DecidableEq, Repr

structure GPUProbe where
  index : Option TraceIndex := none
  destroyed : Bool := false
  deriving DecidableEq, Repr

/-- Probes are named by the order of their creation. A call of `OnFenceComplete` that found no
pending buffer is in `completed` until it reads the pool, and in `readBack` until it is done. -/
structure GPUTracer where
  enabled : Bool
  inFrame : Bool := false
  rasterThreadId : Option Nat := none
  currentState : TraceIndex := 0
  traceStates : TraceIndex → GPUTraceState := fun _ => {}
  statesToReset : List TraceIndex := []
  probes : List GPUProbe := []
  completed : List (TraceIndex × Nat) := []
  readBack : List TraceIndex := []

/-- What the tracer records into a command buffer. -/
inductive QueryCommand
  | resetQueryPool (state : TraceIndex)
  | writeTimestamp (state : TraceIndex) (query : Nat)
  deriving DecidableEq, Repr

namespace GPUTracer

def probe (s : GPUTracer) (p : Nat) : Option GPUProbe := s.probes[p]?.filter (!·.destroyed)

def markFrameStart (s : GPUTracer) (thread : Nat) : GPUTracer :=
  if !s.enabled then s else { s with inFrame := true, rasterThreadId := some thread }

/-- That the next state has no pending buffers is only a debug check. -/
def markFrameEnd (s : GPUTracer) : GPUTracer :=
  let s := { s with inFrame := false }
  if !s.enabled then s
  else { s with
    currentState := s.currentState.next
    traceStates := Function.update s.traceStates s.currentState.next {} }

def createGPUProbe (s : GPUTracer) : GPUTracer := { s with probes := s.probes ++ [{}] }

/-- Only the raster thread records, and only in a frame. -/
def records (s : GPUTracer) (thread : Nat) : Bool := s.enabled && s.rasterThreadId = some thread && s.inFrame

def recordCmdBufferStart (s : GPUTracer) (p thread : Nat) : Option (List QueryCommand × GPUTracer) := do
  let probe ← s.probe p
  if !s.records thread then some ([], s)
  else
    let resets := s.statesToReset.map .resetQueryPool
    let s := { s with statesToReset := [] }
    let state := s.traceStates s.currentState
    if state.currentIndex ≥ kPoolSize then some (resets, s)
    else some (resets ++ [.writeTimestamp s.currentState state.currentIndex], { s with
      probes := s.probes.set p { probe with index := some s.currentState }
      traceStates := Function.update s.traceStates s.currentState
        ⟨state.currentIndex + 1, sizeAdd state.pendingBuffers 1⟩ })

def recordCmdBufferEnd (s : GPUTracer) (p thread : Nat) : Option (List QueryCommand × GPUTracer) := do
  let probe ← s.probe p
  if !s.records thread || probe.index.isNone then some ([], s)
  else
    let state := s.traceStates s.currentState
    if state.currentIndex ≥ kPoolSize then some ([], s)
    else some ([.writeTimestamp s.currentState state.currentIndex], { s with
      traceStates := Function.update s.traceStates s.currentState { state with currentIndex := state.currentIndex + 1 } })

/-- `OnFenceComplete` up to the end of its first lock. The count is a `size_t`. -/
def onFenceComplete (s : GPUTracer) (i : TraceIndex) : GPUTracer :=
  if !s.enabled then s
  else
    let state := s.traceStates i
    let pending := sizeAdd state.pendingBuffers 18446744073709551615
    let s := { s with traceStates := Function.update s.traceStates i { state with pendingBuffers := pending } }
    if pending = 0 then { s with completed := s.completed ++ [(i, state.currentIndex)] } else s

def destroyProbe (s : GPUTracer) (p : Nat) : Option GPUTracer := do
  let probe ← s.probe p
  let s := { s with probes := s.probes.set p { probe with destroyed := true } }
  match probe.index with
  | none => some s
  | some i => some (s.onFenceComplete i)

/-- The pool is read, unless the context is gone. -/
def getQueryPoolResults (s : GPUTracer) (k : Nat) (context : Bool) :
    Option (Option (TraceIndex × Nat) × GPUTracer) := do
  let (i, queryCount) ← s.completed[k]?
  let s := { s with completed := s.completed.eraseIdx k }
  if context then some (some (i, queryCount), { s with readBack := s.readBack ++ [i] }) else some (none, s)

/-- The rest of `OnFenceComplete`. -/
def recordForReset (s : GPUTracer) (k : Nat) : Option GPUTracer := do
  let i ← s.readBack[k]?
  some { s with readBack := s.readBack.eraseIdx k, statesToReset := s.statesToReset ++ [i] }

inductive Label
  | markFrameStart (thread : Nat)
  | markFrameEnd
  | createGPUProbe
  | recordCmdBufferStart (p thread : Nat)
  | recordCmdBufferEnd (p thread : Nat)
  | destroyProbe (p : Nat)
  | getQueryPoolResults (k : Nat) (context : Bool)
  | recordForReset (k : Nat)
  deriving DecidableEq, Repr

def step (s : GPUTracer) : Label → Option GPUTracer
  | .markFrameStart thread => some (s.markFrameStart thread)
  | .markFrameEnd => some s.markFrameEnd
  | .createGPUProbe => some s.createGPUProbe
  | .recordCmdBufferStart p thread => (s.recordCmdBufferStart p thread).map (·.2)
  | .recordCmdBufferEnd p thread => (s.recordCmdBufferEnd p thread).map (·.2)
  | .destroyProbe p => s.destroyProbe p
  | .getQueryPoolResults k context => (s.getQueryPoolResults k context).map (·.2)
  | .recordForReset k => s.recordForReset k

/-- The commands that a call records. -/
def commands (s : GPUTracer) : Label → List QueryCommand
  | .recordCmdBufferStart p thread => ((s.recordCmdBufferStart p thread).map (·.1)).getD []
  | .recordCmdBufferEnd p thread => ((s.recordCmdBufferEnd p thread).map (·.1)).getD []
  | _ => []

/-- The states whose pools are reset or read back by a call. -/
def usedPools (s : GPUTracer) (a : Label) : List TraceIndex :=
  match a with
  | .getQueryPoolResults k context => (((s.getQueryPoolResults k context).bind (·.1)).map (·.1)).toList
  | _ => (s.commands a).filterMap fun
    | .resetQueryPool i => some i
    | .writeTimestamp _ _ => none

/-- The states that a call writes timestamps to. -/
def timestampStates (s : GPUTracer) (a : Label) : List TraceIndex :=
  (s.commands a).filterMap fun
    | .resetQueryPool _ => none
    | .writeTimestamp i _ => some i

/-- The probes that recorded a start into a state and have not completed. -/
abbrev PendingProbes := TraceIndex → Finset Nat

def PendingProbes.update (s : GPUTracer) (a : Label) (_ : GPUTracer) (g : PendingProbes) : PendingProbes :=
  match a with
  | .recordCmdBufferStart p _ => fun i => if (s.timestampStates a).contains i then insert p (g i) else g i
  | .destroyProbe p => fun i => (g i).erase p
  | _ => g

/-- The tracer from its construction on, with the probes that are pending. -/
def machine (enabled : Bool) : Machine (GPUTracer × PendingProbes) Label :=
  (⟨{ enabled }, step⟩ : Machine _ _).withHistory (fun _ => ∅) PendingProbes.update

end GPUTracer
end Ogre.Hal
