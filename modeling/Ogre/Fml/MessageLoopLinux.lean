import Ogre.Fml.MessageLoop

/-! The message loop of Linux: its thread waits for a timer that each wake-up sets anew. What other threads do to the
queues comes between any two steps of the loop. -/
namespace Ogre.Fml
open Ogre.Library

/-- `struct timespec`. -/
structure TimeSpec where
  tvSec : Nat
  tvNsec : Nat
  deriving DecidableEq, Repr

def TimeSpec.nanoseconds (t : TimeSpec) : Nat := t.tvSec * 1000000000 + t.tvNsec

/-- A timer of the kernel with an absolute time, and how many of its expirations were read since it was set. -/
structure TimerFd where
  value : TimeSpec := ⟨0, 0⟩
  interval : TimeSpec := ⟨0, 0⟩
  read : Nat := 0
  deriving DecidableEq, Repr

namespace TimerFd

/-- The expirations up to a time. A timer whose value is zero is disarmed. -/
def expirations (timer : TimerFd) (now : Nat) : Nat :=
  if timer.value.nanoseconds = 0 || now < timer.value.nanoseconds then 0
  else if timer.interval.nanoseconds = 0 then 1
  else (now - timer.value.nanoseconds) / timer.interval.nanoseconds + 1

def isReadable (timer : TimerFd) (now : Nat) : Bool := timer.read < timer.expirations now

end TimerFd

/-- An `int64_t` as `uint64_t`. -/
def uint64OfInt64 (n : Int) : Nat := if n < 0 then (n + 18446744073709551616).toNat else n.toNat

/-- `TimerRearm`. Expirations that were not read before are lost. -/
def timerRearm (timePoint : Int) : TimerFd :=
  let nanoSecs := max (uint64OfInt64 timePoint) 1
  let spec := ⟨nanoSecs / 1000000000, nanoSecs % 1000000000⟩
  { value := spec, interval := spec }

/-- `TimerDrain`. The timer does not block. -/
def timerDrain (timer : TimerFd) (now : Nat) : Bool × TimerFd :=
  if timer.isReadable now then (true, { timer with read := timer.expirations now }) else (false, timer)

/-- Where the thread is in `MessageLoopLinux::Run`. -/
inductive Stage
  | entering
  | looping
  | waiting
  | woken
  | drained
  deriving DecidableEq, Repr

/-- `invoking` is for a closure that terminates the loop, between its removal from the queue and its call of
`Terminate`. The time is that of the monotonic clock. -/
structure MessageLoopLinux (α : Type) where
  impl : MessageLoopImpl α
  timer : TimerFd := {}
  running : Bool := false
  stage : Stage := .entering
  invoking : Bool := false
  now : Nat := 0

namespace MessageLoopLinux
variable {α : Type}

/-- The loop has heard what it was asked for. -/
def heard (impl : MessageLoopImpl α) : MessageLoopImpl α :=
  { impl with taskQueue :=
    { impl.taskQueue with wakeUps := Function.update impl.taskQueue.wakeUps impl.queueId none } }

def new (taskQueue : MessageLoopTaskQueues α) (now : Nat) : Option (MessageLoopLinux α) :=
  (MessageLoopImpl.new taskQueue).map fun impl => { impl := heard impl, now }

/-- `WakeUp`, where the queues called it. They hold their lock meanwhile. -/
def wakeUp (s : MessageLoopLinux α) (impl : MessageLoopImpl α) : MessageLoopLinux α :=
  { s with
    impl := heard impl
    timer := match impl.taskQueue.wakeUps impl.queueId with
      | some timePoint => timerRearm timePoint
      | none => s.timer }

/-- The thread is at a place of `Run`. -/
def isAt (s : MessageLoopLinux α) (stage : Stage) : Bool := s.impl.phase = .running && s.stage = stage

/-- Only the thread of a loop takes tasks of it for itself and disposes of them. -/
def ofLoop (id : Nat) : MessageLoopTaskQueues.Label α → Bool
  | .getNextTaskToRun q _ | .disposeTasks q | .dispose q | .setWakeable q => q = id
  | _ => false

/-- `queues` is for calls by others, `epollFails` for errors of `epoll_wait`, and in a `tick` time passes. -/
inductive Label (α : Type)
  | postTask (post : Post α)
  | registerTask (i : Nat)
  | queues (a : MessageLoopTaskQueues.Label α)
  | doRun
  | enterRun
  | checkRunning
  | epollWait
  | epollFails
  | timerDrain
  | runExpiredTasksNow
  | flushTask
  | doTerminate
  | disposeTasks
  | tick (d : Nat)

section
variable (terminates : α → Bool)

def step (s : MessageLoopLinux α) : Label α → Option (MessageLoopLinux α)
  | .postTask post => some { s with impl := s.impl.postTask post }
  | .registerTask i => (s.impl.registerTask i).map s.wakeUp
  | .queues a =>
    if ofLoop s.impl.queueId a then none
    else (s.impl.taskQueue.step a).map fun taskQueue => s.wakeUp { s.impl with taskQueue }
  | .doRun => if s.invoking then none else s.impl.doRun.map fun impl => { s with impl, stage := .entering }
  | .enterRun => if s.isAt .entering then some { s with running := true, stage := .looping } else none
  | .checkRunning =>
    if s.isAt .looping then
      if s.running then some { s with stage := .waiting }
      else (s.impl.runReturns s.now).map fun impl => { s with impl }
    else none
  | .epollWait => if s.isAt .waiting && s.timer.isReadable s.now then some { s with stage := .woken } else none
  | .epollFails => if s.isAt .waiting then some { s with running := false, stage := .looping } else none
  | .timerDrain =>
    if s.isAt .woken then
      let drained := Ogre.Fml.timerDrain s.timer s.now
      some { s with timer := drained.2, stage := if drained.1 then .drained else .looping }
    else none
  | .runExpiredTasksNow =>
    if s.isAt .drained then (s.impl.runExpiredTasks .kAll s.now).map fun impl => { s with impl, stage := .looping }
    else none
  | .flushTask =>
    if s.invoking then none
    else s.impl.flushTask.map fun r => { s.wakeUp r.2 with invoking := r.1.any fun task => terminates task.task }
  | .doTerminate =>
    if s.invoking then
      some { s with impl := s.impl.doTerminate, running := false, timer := timerRearm s.now, invoking := false }
    else none
  | .disposeTasks => if s.invoking then none else s.impl.disposeTasks.map s.wakeUp
  | .tick d => some { s with now := s.now + d }

end

end MessageLoopLinux
end Ogre.Fml
