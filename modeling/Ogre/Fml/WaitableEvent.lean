import Ogre.Library.ConditionVariable
import Ogre.Library.Machine

/-! Waitable events that are reset with a wait, and such that are reset by hand. What is done under
the mutex is one step, up to the wait for the condition variable, and from there on. -/
namespace Ogre.Fml
open Ogre.Library

/-- A thread in `Wait`, or in `WaitWithTimeout`. -/
structure AutoResetWaiter where
  thread : Nat
  timed : Bool
  deriving DecidableEq

/-- `signals` and `successes` count the calls of `Signal`, and the waits that came back without a
timeout. -/
structure AutoResetWaitableEvent where
  signaled : Bool := false
  cv : ConditionVariable AutoResetWaiter := {}
  signals : Nat := 0
  successes : Nat := 0

namespace AutoResetWaitableEvent

def signal (s : AutoResetWaitableEvent) (notified : Option AutoResetWaiter) : Option AutoResetWaitableEvent :=
  (s.cv.notifyOne notified).map fun cv => { s with signaled := true, cv, signals := s.signals + 1 }

/-- The end of a wait that is not a timeout. -/
def succeed (s : AutoResetWaitableEvent) : AutoResetWaitableEvent :=
  { s with signaled := false, successes := s.successes + 1 }

def block (s : AutoResetWaitableEvent) (w : AutoResetWaiter) : AutoResetWaitableEvent := { s with cv := s.cv.block w }

/-- `Wait`, from its beginning or from the condition variable on. -/
def wait (s : AutoResetWaitableEvent) (thread : Nat) : AutoResetWaitableEvent :=
  if s.signaled then s.succeed else s.block ⟨thread, false⟩

def waitWithTimeout (s : AutoResetWaitableEvent) (thread : Nat) : AutoResetWaitableEvent :=
  if s.signaled then s.succeed else s.block ⟨thread, true⟩

/-- `WaitWithTimeout` from the condition variable on, which tells of a timeout or not, and where it
does not, the time may have come nonetheless. -/
def resumeWithTimeout (s : AutoResetWaitableEvent) (thread : Nat) (timeout elapsed : Bool) : AutoResetWaitableEvent :=
  if timeout then s
  else if s.signaled then s.succeed
  else if elapsed then s
  else s.block ⟨thread, true⟩

/-- A waiter that wakes without a notification does so for no reason, or for its timeout. -/
inductive Label
  | signal (notified : Option AutoResetWaiter)
  | wait (thread : Nat)
  | waitWithTimeout (thread : Nat)
  | wake (w : AutoResetWaiter)
  | resume (w : AutoResetWaiter) (notified timeout elapsed : Bool)

/-- The threads that are in a wait. -/
def threads (s : AutoResetWaitableEvent) : List Nat :=
  s.cv.blocked.map (·.thread) ++ s.cv.woken.map (·.1.thread)

def step (s : AutoResetWaitableEvent) : Label → Option AutoResetWaitableEvent
  | .signal notified => s.signal notified
  | .wait thread => if thread ∈ s.threads then none else some (s.wait thread)
  | .waitWithTimeout thread => if thread ∈ s.threads then none else some (s.waitWithTimeout thread)
  | .wake w => (s.cv.wake w false).map fun cv => { s with cv }
  | .resume w notified timeout elapsed => (s.cv.leave w notified).map fun cv =>
    if w.timed then { s with cv }.resumeWithTimeout w.thread timeout elapsed else { s with cv }.wait w.thread

def machine : Machine AutoResetWaitableEvent Label := ⟨{}, step⟩

/-- While the event is signaled and a thread is blocked in `Wait`, a notification is on its way. -/
def Attended (s : AutoResetWaitableEvent) : Prop :=
  s.signaled → (∃ w ∈ s.cv.blocked, w.timed = false) → s.cv.Notified

/-- No wait succeeds without a signal, and no signal is lost. -/
structure LosesNone (s : AutoResetWaitableEvent) : Prop where
  counted : s.successes ≤ s.signals
  attended : s.Attended

/-- The wait of the only thread that is notified tells of a timeout, while the event is signaled
and another thread is blocked in `Wait`. -/
def TimesOutNotified (s : AutoResetWaitableEvent) (a : Label) (_ : AutoResetWaitableEvent) : Prop :=
  ∃ w elapsed, a = .resume w true true elapsed ∧ w.timed ∧ s.signaled ∧ (∃ v ∈ s.cv.blocked, v.timed = false) ∧
    ∀ v, (v, true) ∉ s.cv.woken.erase (w, true)

section Runs
variable {s t : AutoResetWaitableEvent} {a : Label} {thread : Nat} {timeout elapsed : Bool}

/-- A signal that is not taken yet is counted. -/
def Counted (s : AutoResetWaitableEvent) : Prop := s.successes + s.signaled.toNat ≤ s.signals

theorem Counted.le (h : Counted s) : s.successes ≤ s.signals := Nat.le_trans (Nat.le_add_right _ _) h

theorem Counted.succeed (h : Counted s) (hs : s.signaled) : Counted s.succeed := by
  unfold Counted at h
  rw [hs] at h
  exact h

/-- A look at the event takes the signal, or blocks. -/
private theorem Counted.look (h : Counted s) (w : AutoResetWaiter) :
    Counted (if s.signaled then s.succeed else s.block w) := by
  split
  next hs => exact h.succeed hs
  · exact h

theorem Counted.wait (h : Counted s) : Counted (s.wait thread) := h.look _

theorem Counted.waitWithTimeout (h : Counted s) : Counted (s.waitWithTimeout thread) := h.look _

theorem Counted.resumeWithTimeout (h : Counted s) : Counted (s.resumeWithTimeout thread timeout elapsed) := by
  unfold AutoResetWaitableEvent.resumeWithTimeout
  split
  · exact h
  split
  next hs => exact h.succeed hs
  split
  · exact h
  · exact h

theorem Counted.step (h : Counted s) (hs : s.step a = some t) : Counted t := by
  cases a with
  | signal notified =>
    obtain ⟨cv, -, rfl⟩ := Option.map_eq_some_iff.mp hs
    exact Nat.succ_le_succ h.le
  | wait thread =>
    obtain ⟨-, hs⟩ := Option.ite_none_left_eq_some.mp hs
    obtain rfl := Option.some.inj hs
    exact h.wait
  | waitWithTimeout thread =>
    obtain ⟨-, hs⟩ := Option.ite_none_left_eq_some.mp hs
    obtain rfl := Option.some.inj hs
    exact h.waitWithTimeout
  | wake w =>
    obtain ⟨cv, -, rfl⟩ := Option.map_eq_some_iff.mp hs
    exact h
  | resume w notified timeout elapsed =>
    obtain ⟨cv, -, rfl⟩ := Option.map_eq_some_iff.mp hs
    have hcv : Counted { s with cv } := h
    split
    · exact hcv.resumeWithTimeout
    · exact hcv.wait

theorem attended_of_not (h : s.signaled = false) : s.Attended := fun hs => by simp [h] at hs

/-- After a look at the event it is not signaled. -/
private theorem signaled_look (w : AutoResetWaiter) :
    (if s.signaled then s.succeed else s.block w).signaled = false := by
  split
  · rfl
  next hs => exact Bool.eq_false_iff.mpr hs

theorem signaled_wait : (s.wait thread).signaled = false := signaled_look _

theorem signaled_waitWithTimeout : (s.waitWithTimeout thread).signaled = false := signaled_look _

theorem signaled_resumeWithTimeout : (s.resumeWithTimeout thread false elapsed).signaled = false := by
  unfold resumeWithTimeout
  rw [if_neg Bool.false_ne_true]
  split
  · rfl
  next hs =>
    split
    · exact Bool.eq_false_iff.mpr hs
    · exact Bool.eq_false_iff.mpr hs

/-- A timeout leaves the event without a look. -/
private theorem attended_timeout {w : AutoResetWaiter} {notified : Bool} (h : s.Attended) (hw : w.timed)
    {cv : ConditionVariable AutoResetWaiter} (hcv : s.cv.leave w notified = some cv) :
    Attended { s with cv } ↔ ¬ TimesOutNotified s (.resume w notified true elapsed) t := by
  cases notified with
  | false =>
    refine iff_of_true (fun hs hblocked => ?_) ?_
    · obtain ⟨v, hv, hwaits⟩ := hblocked
      rw [(ConditionVariable.leave_eq_some.mp hcv).2.symm] at hv
      exact (h hs ⟨v, hv, hwaits⟩).leave hcv
    · rintro ⟨v, e, ha, -⟩
      cases ha
  | true =>
    obtain ⟨-, rfl⟩ := ConditionVariable.leave_eq_some.mp hcv
    constructor
    · rintro hattended ⟨v, e, ha, -, hs, hblocked, hnone⟩
      cases ha
      obtain ⟨u, hu⟩ := hattended hs hblocked
      exact hnone u hu
    · intro hnot hs hblocked
      by_contra hnone
      exact hnot ⟨w, elapsed, rfl, hw, hs, hblocked, fun v hv => hnone ⟨v, hv⟩⟩

theorem attended_step (h : s.Attended) (hs : s.step a = some t) : t.Attended ↔ ¬ TimesOutNotified s a t := by
  have hnot (hother : ∀ w elapsed, a ≠ .resume w true true elapsed) : ¬ TimesOutNotified s a t :=
    fun ⟨w, elapsed, ha, _⟩ => hother w elapsed ha
  cases a with
  | signal notified =>
    obtain ⟨cv, hcv, rfl⟩ := Option.map_eq_some_iff.mp hs
    refine iff_of_true (fun _ hblocked => ?_) (hnot (by simp))
    rcases ConditionVariable.notified_of_notifyOne hcv with hempty | hnotified
    · obtain ⟨w, hw, -⟩ := hblocked
      rw [hempty] at hw
      cases hw
    · exact hnotified
  | wait thread =>
    obtain ⟨-, hs⟩ := Option.ite_none_left_eq_some.mp hs
    obtain rfl := Option.some.inj hs
    exact iff_of_true (attended_of_not signaled_wait) (hnot (by simp))
  | waitWithTimeout thread =>
    obtain ⟨-, hs⟩ := Option.ite_none_left_eq_some.mp hs
    obtain rfl := Option.some.inj hs
    exact iff_of_true (attended_of_not signaled_waitWithTimeout) (hnot (by simp))
  | wake w =>
    obtain ⟨cv, hcv, rfl⟩ := Option.map_eq_some_iff.mp hs
    refine iff_of_true (fun hsignaled ⟨v, hv, hwaits⟩ => ?_) (hnot (by simp))
    exact (h hsignaled ⟨v, ConditionVariable.mem_blocked_of_wake hcv hv, hwaits⟩).wake hcv
  | resume w notified timeout elapsed =>
    obtain ⟨cv, hcv, rfl⟩ := Option.map_eq_some_iff.mp hs
    split
    next hw =>
      cases timeout with
      | true => exact attended_timeout h hw hcv
      | false => exact iff_of_true (attended_of_not signaled_resumeWithTimeout) (hnot (by simp))
    next hw =>
      refine iff_of_true (attended_of_not signaled_wait) ?_
      rintro ⟨v, e, ha, htimed, -⟩
      cases ha
      exact hw htimed

theorem counted_init : Counted machine.init := Nat.le_refl 0

/-- In a run no signal is lost exactly if no notification goes to a wait that times out, with
another thread left in `Wait`. -/
theorem losesNone_iff (labels : List Label) :
    machine.Along (fun _ _ t => LosesNone t) machine.init labels ↔
      machine.Along (fun s a t => ¬ TimesOutNotified s a t) machine.init labels := by
  refine Machine.along_iff (I := fun s => Counted s ∧ s.Attended) ?_ ?_ ⟨counted_init, attended_of_not rfl⟩
  · intro s a t h hs
    rw [← attended_step h.2 hs]
    exact ⟨fun ht => ht.attended, fun ht => ⟨(h.1.step hs).le, ht⟩⟩
  · intro s a t h hc hs
    exact ⟨h.1.step hs, (attended_step h.2 hs).mpr hc⟩

theorem successes_le {labels : List Label} (hr : machine.run labels = some s) : s.successes ≤ s.signals :=
  (Machine.invariant (I := Counted) (fun _ _ _ h hs => h.step hs) counted_init hr).le

/-- One thread waits with a timeout and one without. The signal goes to the first, whose time comes
before it is run. -/
def timedOut : List Label :=
  [.waitWithTimeout 1, .wait 2, .signal (some ⟨1, true⟩), .resume ⟨1, true⟩ true true true]

/-- The second thread stays blocked with the event signaled. -/
theorem losesNone_timedOut :
    (∃ s, machine.run timedOut = some s ∧ s.signaled ∧ s.cv.blocked = [⟨2, false⟩] ∧ s.cv.woken = []) ∧
    ¬ machine.Along (fun _ _ t => LosesNone t) machine.init timedOut := by
  have hr : machine.run timedOut = some _ := rfl
  refine ⟨⟨_, hr, rfl, rfl, rfl⟩, fun h => ?_⟩
  have hlast := Machine.Along.after (timedOut.take 3) h rfl rfl
  obtain ⟨w, hw⟩ := hlast.attended rfl ⟨⟨2, false⟩, List.mem_singleton.mpr rfl, rfl⟩
  cases hw

end Runs

end AutoResetWaitableEvent

/-- A thread in `Wait` or in `WaitWithTimeout`, with the `signal_id_` that it began with. `began` counts
the calls of `Signal` before that. -/
structure ManualResetWaiter where
  thread : Nat
  timed : Bool
  lastSignalId : UInt32
  began : Nat
  deriving DecidableEq

structure ManualResetWaitableEvent where
  signaled : Bool := false
  signalId : UInt32 := 0
  cv : ConditionVariable ManualResetWaiter := {}
  signals : Nat := 0

namespace ManualResetWaitableEvent

def signal (s : ManualResetWaitableEvent) : ManualResetWaitableEvent where
  signaled := true
  signalId := s.signalId + 1
  cv := s.cv.notifyAll
  signals := s.signals + 1

def reset (s : ManualResetWaitableEvent) : ManualResetWaitableEvent := { s with signaled := false }

def block (s : ManualResetWaitableEvent) (w : ManualResetWaiter) : ManualResetWaitableEvent :=
  { s with cv := s.cv.block w }

/-- The waiter that a thread becomes. -/
def waiter (s : ManualResetWaitableEvent) (thread : Nat) (timed : Bool) : ManualResetWaiter :=
  ⟨thread, timed, s.signalId, s.signals⟩

/-- `Wait` up to the condition variable, with whether it comes back. -/
def wait (s : ManualResetWaitableEvent) (thread : Nat) : Bool × ManualResetWaitableEvent :=
  if s.signaled then (true, s) else (false, s.block (s.waiter thread false))

/-- `Wait` from the condition variable on. -/
def resume (s : ManualResetWaitableEvent) (w : ManualResetWaiter) : Bool × ManualResetWaitableEvent :=
  if s.signalId = w.lastSignalId then (false, s.block w) else (true, s)

/-- The condition of `WaitWithTimeout`. -/
def condition (s : ManualResetWaitableEvent) (w : ManualResetWaiter) : Bool :=
  s.signaled || decide (s.signalId ≠ w.lastSignalId)

/-- `WaitWithTimeoutImpl` up to the condition variable, with what it comes back with, if it does. -/
def waitWithTimeout (s : ManualResetWaitableEvent) (thread : Nat) : Option Bool × ManualResetWaitableEvent :=
  if s.condition (s.waiter thread true) then (some false, s) else (none, s.block (s.waiter thread true))

def resumeWithTimeout (s : ManualResetWaitableEvent) (w : ManualResetWaiter) (timeout elapsed : Bool) :
    Option Bool × ManualResetWaitableEvent :=
  if timeout then (some true, s)
  else if s.condition w then (some false, s)
  else if elapsed then (some true, s)
  else (none, s.block w)

inductive Label
  | signal
  | reset
  | wait (thread : Nat)
  | waitWithTimeout (thread : Nat)
  | wake (w : ManualResetWaiter)
  | resume (w : ManualResetWaiter) (notified timeout elapsed : Bool)

def threads (s : ManualResetWaitableEvent) : List Nat :=
  s.cv.blocked.map (·.thread) ++ s.cv.woken.map (·.1.thread)

def step (s : ManualResetWaitableEvent) : Label → Option ManualResetWaitableEvent
  | .signal => some s.signal
  | .reset => some s.reset
  | .wait thread => if thread ∈ s.threads then none else some (s.wait thread).2
  | .waitWithTimeout thread => if thread ∈ s.threads then none else some (s.waitWithTimeout thread).2
  | .wake w => (s.cv.wake w false).map fun cv => { s with cv }
  | .resume w notified timeout elapsed => (s.cv.leave w notified).map fun cv =>
    if w.timed then ({ s with cv }.resumeWithTimeout w timeout elapsed).2 else ({ s with cv }.resume w).2

def machine : Machine ManualResetWaitableEvent Label := ⟨{}, step⟩

/-- `Wait` comes back only signaled, or after a signal, and does so where it was notified. -/
def ReleasesAll (s : ManualResetWaitableEvent) (a : Label) (_ : ManualResetWaitableEvent) : Prop :=
  match a with
  | .wait thread => (s.wait thread).1 = true → s.signaled
  | .resume w notified _ _ => w.timed = false →
    (notified = true → (s.resume w).1 = true) ∧ ((s.resume w).1 = true → w.began < s.signals)
  | _ => True

/-- A thread that was notified in `Wait` looks as many signals after it began as `signal_id_` has values,
or a multiple of that. -/
def LooksLate (s : ManualResetWaitableEvent) (a : Label) (_ : ManualResetWaitableEvent) : Prop :=
  ∃ w timeout elapsed, a = .resume w true timeout elapsed ∧ w.timed = false ∧ (s.signals - w.began) % 4294967296 = 0

section Runs
variable {s t : ManualResetWaitableEvent} {a : Label} {w : ManualResetWaiter}

/-- What a waiter knows of the signals. -/
structure Knows (signals : Nat) (w : ManualResetWaiter) : Prop where
  lastSignalId : w.lastSignalId = UInt32.ofNat w.began
  began : w.began ≤ signals

theorem Knows.mono {signals : Nat} (h : Knows signals w) : Knows (signals + 1) w :=
  ⟨h.lastSignalId, Nat.le_succ_of_le h.began⟩

/-- The signals are counted as far as 32 bits go, and who is notified has seen one. -/
structure Inv (s : ManualResetWaitableEvent) : Prop where
  signalId : s.signalId = UInt32.ofNat s.signals
  blocked : ∀ w ∈ s.cv.blocked, Knows s.signals w
  woken : ∀ w notified, (w, notified) ∈ s.cv.woken → Knows s.signals w ∧ (notified = true → w.began < s.signals)

/-- The number tells signals apart up to its width. -/
theorem Inv.signalId_eq_iff (h : Inv s) (hw : Knows s.signals w) :
    s.signalId = w.lastSignalId ↔ (s.signals - w.began) % 4294967296 = 0 := by
  have hle := hw.began
  rw [h.signalId, hw.lastSignalId, ← UInt32.toNat_inj, UInt32.toNat_ofNat', UInt32.toNat_ofNat']
  omega

theorem Inv.signal (h : Inv s) : Inv s.signal where
  signalId := by
    change s.signalId + 1 = UInt32.ofNat (s.signals + 1)
    rw [h.signalId, UInt32.ofNat_add]
    rfl
  blocked _ hw := by cases hw
  woken w notified hmem := by
    rcases List.mem_append.mp hmem with hmem | hmem
    · obtain ⟨v, hv, heq⟩ := List.mem_map.mp hmem
      obtain ⟨rfl, rfl⟩ := Prod.mk.inj heq
      have hknows := h.blocked v hv
      exact ⟨hknows.mono, fun _ => Nat.lt_succ_of_le hknows.began⟩
    · obtain ⟨hknows, hbegan⟩ := h.woken w notified hmem
      exact ⟨hknows.mono, fun hnotified => Nat.lt_succ_of_lt (hbegan hnotified)⟩

theorem Inv.block (h : Inv s) (hw : Knows s.signals w) : Inv (s.block w) where
  signalId := h.signalId
  blocked v hv := by
    rcases List.mem_cons.mp hv with rfl | hv
    · exact hw
    · exact h.blocked v hv
  woken := h.woken

theorem Inv.waiter (h : Inv s) (thread : Nat) (timed : Bool) : Knows s.signals (s.waiter thread timed) :=
  ⟨h.signalId, Nat.le_refl _⟩

theorem Inv.wake {cv : ConditionVariable ManualResetWaiter} (h : Inv s) (hcv : s.cv.wake w false = some cv) :
    Inv { s with cv } := by
  obtain ⟨hmem, rfl⟩ := ConditionVariable.wake_eq_some.mp hcv
  refine ⟨h.signalId, fun v hv => h.blocked v (List.mem_of_mem_erase hv), fun v notified hv => ?_⟩
  rcases List.mem_cons.mp hv with heq | hv
  · obtain ⟨rfl, rfl⟩ := Prod.mk.inj heq
    exact ⟨h.blocked v hmem, fun hnotified => by cases hnotified⟩
  · exact h.woken v notified hv

theorem Inv.leave {cv : ConditionVariable ManualResetWaiter} {notified : Bool} (h : Inv s)
    (hcv : s.cv.leave w notified = some cv) :
    Inv { s with cv } ∧ Knows s.signals w ∧ (notified = true → w.began < s.signals) := by
  obtain ⟨hmem, rfl⟩ := ConditionVariable.leave_eq_some.mp hcv
  refine ⟨⟨h.signalId, h.blocked, fun v other hv => ?_⟩, h.woken w notified hmem⟩
  exact h.woken v other (List.mem_of_mem_erase hv)

theorem Inv.step (h : Inv s) (hs : s.step a = some t) : Inv t := by
  cases a with
  | signal =>
    obtain rfl := Option.some.inj hs
    exact h.signal
  | reset =>
    obtain rfl := Option.some.inj hs
    exact ⟨h.signalId, h.blocked, h.woken⟩
  | wait thread =>
    obtain ⟨-, hs⟩ := Option.ite_none_left_eq_some.mp hs
    obtain rfl := Option.some.inj hs
    unfold wait
    split
    · exact h
    · exact h.block (h.waiter thread false)
  | waitWithTimeout thread =>
    obtain ⟨-, hs⟩ := Option.ite_none_left_eq_some.mp hs
    obtain rfl := Option.some.inj hs
    unfold waitWithTimeout
    split
    · exact h
    · exact h.block (h.waiter thread true)
  | wake w =>
    obtain ⟨cv, hcv, rfl⟩ := Option.map_eq_some_iff.mp hs
    exact h.wake hcv
  | resume w notified timeout elapsed =>
    obtain ⟨cv, hcv, rfl⟩ := Option.map_eq_some_iff.mp hs
    obtain ⟨hleft, hknows, -⟩ := h.leave hcv
    unfold resumeWithTimeout resume
    repeat' split
    all_goals first | exact hleft | exact hleft.block hknows

theorem init_inv : Inv machine.init where
  signalId := rfl
  blocked _ hw := by cases hw
  woken _ _ hw := by cases hw

theorem resume_returns : (s.resume w).1 = true ↔ s.signalId ≠ w.lastSignalId := by
  unfold resume
  split
  next heq => exact iff_of_false Bool.false_ne_true (not_not_intro heq)
  next hne => exact iff_of_true rfl hne

/-- A notified thread is released exactly if it does not look too late. -/
theorem releasesAll_iff (h : Inv s) (hs : s.step a = some t) : ReleasesAll s a t ↔ ¬ LooksLate s a t := by
  have hnot (hother : ∀ w timeout elapsed, a ≠ .resume w true timeout elapsed) : ¬ LooksLate s a t :=
    fun ⟨w, timeout, elapsed, ha, _⟩ => hother w timeout elapsed ha
  cases a with
  | signal | reset | waitWithTimeout | wake => exact iff_of_true trivial (hnot (by simp))
  | wait thread =>
    refine iff_of_true (fun hreturns => ?_) (hnot (by simp))
    unfold wait at hreturns
    split at hreturns
    next hs => exact hs
    · cases hreturns
  | resume w notified timeout elapsed =>
    obtain ⟨cv, hcv, -⟩ := Option.map_eq_some_iff.mp hs
    obtain ⟨-, hknows, hbegan⟩ := h.leave hcv
    have hlate := h.signalId_eq_iff hknows
    unfold ReleasesAll
    dsimp only
    rw [resume_returns, ne_eq, hlate]
    constructor
    · rintro hreleases ⟨v, _, _, ha, hwaits, hzero⟩
      cases ha
      exact (hreleases hwaits).1 rfl hzero
    · refine fun hnot hwaits => ⟨?_, fun hne => ?_⟩
      · rintro rfl hzero
        exact hnot ⟨w, timeout, elapsed, rfl, hwaits, hzero⟩
      · have hle := hknows.began
        omega

/-- In a run all that wait are released exactly if none of them looks as many signals late as the number
does not tell apart. -/
theorem releasesAll_runs (labels : List Label) : machine.Along ReleasesAll machine.init labels ↔
    machine.Along (fun s a t => ¬ LooksLate s a t) machine.init labels :=
  Machine.along_iff (I := Inv) (fun _ _ _ h hs => releasesAll_iff h hs) (fun _ _ _ h _ hs => h.step hs) init_inv

/-- A thread that has waited through some signals, and was not run since. -/
def overdue (others : Nat) : ManualResetWaitableEvent where
  signaled := true
  signalId := UInt32.ofNat (others + 1)
  cv := ⟨[], [(⟨0, false, 0, 0⟩, true)]⟩
  signals := others + 1

theorem step_overdue (others : Nat) : machine.step (overdue others) .signal = some (overdue (others + 1)) := by
  have hid : UInt32.ofNat (others + 1) + 1 = UInt32.ofNat (others + 1 + 1) := (UInt32.ofNat_add (others + 1) 1).symm
  change some (signal (overdue others)) = _
  unfold signal overdue
  dsimp only
  rw [hid]
  rfl

theorem runFrom_overdue (n others : Nat) :
    machine.runFrom (overdue others) (List.replicate n .signal) = some (overdue (others + n)) := by
  induction n generalizing others with
  | zero => rfl
  | succ n ih =>
    refine Machine.runFrom_cons_some.mpr ⟨_, step_overdue others, ?_⟩
    rw [ih, Nat.add_right_comm, Nat.add_assoc]

/-- A thread waits, and is run again after as many signals as the number has values. -/
def wrapped : List Label :=
  .wait 0 :: .signal :: (List.replicate 4294967295 .signal ++ [.resume ⟨0, false, 0, 0⟩ true false false])

/-- It is blocked again. -/
theorem releasesAll_wrapped : ¬ machine.Along ReleasesAll machine.init wrapped := by
  intro h
  have hfirst : machine.Along ReleasesAll (overdue 0)
      (List.replicate 4294967295 .signal ++ [.resume ⟨0, false, 0, 0⟩ true false false]) := (h.tail rfl).tail rfl
  have hlast := hfirst.after _ (runFrom_overdue 4294967295 0) rfl
  exact absurd ((hlast rfl).1 rfl) (by decide)

end Runs

end ManualResetWaitableEvent
end Ogre.Fml
