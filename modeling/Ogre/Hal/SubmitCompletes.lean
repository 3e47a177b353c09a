import Ogre.Hal.SubmitSteps
import Ogre.Library.Fairness

/-! That a call of `Submit` returns, and its completion callback is invoked, in a run in which
the threads go on and the fences end. -/
namespace Ogre.Hal.CommandQueue
open Ogre.Library Ogre.Fml
variable {s t : CommandQueue} {a : Label} {b n : Nat} {given : Bool} {buffers : List Nat} {e : machine.Endless}

/-- A call that has begun can go on until it returns. -/
theorem exists_callStep (h : Known s) (hu : Unshared s b buffers) (hp : 0 < callRank (s.calls b).phase) :
    ∃ a t, Label.ofCall b a ∧ s.step a = some t := by
  cases hphase : (s.calls b).phase with
  | notCalled => simp [hphase, callRank] at hp
  | returned status => simp [hphase, callRank] at hp
  | ending all =>
    cases all with
    | nil => exact ⟨.lockContext b false, _, rfl, by simp only [CommandQueue.step, hphase]; rfl⟩
    | cons x rest =>
      have hx : x ∉ s.moved := hu.fresh x (by rw [hphase]; exact List.mem_cons_self)
      exact ⟨.endCommandBuffer b true, _, rfl, by simp only [CommandQueue.step, hphase, hx, if_false]; rfl⟩
  | creatingFence => exact ⟨.createFence b true, _, rfl, by simp only [CommandQueue.step, hphase]; rfl⟩
  | submitting => exact ⟨.queueSubmit b true, _, rfl, by simp only [CommandQueue.step, hphase]; rfl⟩
  | addedFence added =>
    cases added
    · exact ⟨.dropTemporary b, _, rfl, by simp only [CommandQueue.step, hphase]; rfl⟩
    · exact ⟨.dropTemporary b, _, rfl, by simp only [CommandQueue.step, hphase]; rfl⟩
  | cleanup armed status => exact ⟨.leave b, _, rfl, by simp only [CommandQueue.step, hphase]; rfl⟩
  | addingFence =>
    have hk := h.inv.batch b
    have hnew : s.waiter.isNew b = true := by
      rw [FenceWaiter.isNew_iff, List.count_eq_zero, List.count_eq_zero]
      constructor
      · intro haccepted
        have hlate := (hk.late haccepted).2
        rw [hphase] at hlate
        simp [SubmitPhase.holdsObjects] at hlate
      · intro hrefused
        have hrank := (h.refused b hrefused).2
        rw [hphase] at hrank
        simp [callRank] at hrank
    have howner : s.waiter.owner ∉ [WaiterOwner.destructing, .destroyed] := by
      rcases hk.inUse (by rw [hphase]; rfl) with howner | howner <;> simp [howner]
    have hw : s.waiter.step (.addFence b true) = some (s.waiter.addFence b true).2 := by
      simp [FenceWaiter.step, hnew, howner]
    exact ⟨.addFence b, _, rfl, by simp only [CommandQueue.step, hphase, hw, Option.map_some]; rfl⟩

theorem known (h0 : e.state 0 = machine.init) (n : Nat) : Known (e.state n) :=
  Machine.Endless.invariant (fun _ _ _ h hs => h.step hs) (h0 ▸ known_init) n

/-- No two calls of `Submit` are given the same command buffer, and no call is given one twice. -/
def Distinct (e : machine.Endless) (n : Nat) (buffers : List Nat) : Prop :=
  buffers.Nodup ∧ ∀ m, m ≠ n → ∀ c all callback, e.label m = .submit c all callback → ∀ x ∈ buffers, x ∉ all

theorem unsubmitted (h0 : e.state 0 = machine.init) (hd : Distinct e n buffers) {m : Nat} (hm : m ≤ n) :
    Unsubmitted (e.state m) buffers := by
  induction m with
  | zero =>
    rw [h0]
    constructor <;> simp [machine, remaining]
  | succ m ih => exact (ih (Nat.le_of_succ_le hm)).step (e.step m) (hd.2 m (Nat.ne_of_lt hm))

theorem unshared (h0 : e.state 0 = machine.init) (hb : e.label n = .submit b buffers given) (hd : Distinct e n buffers)
    {m : Nat} (hm : n < m) : Unshared (e.state m) b buffers := by
  induction m, hm using Nat.le_induction with
  | base =>
    have hs := e.step n
    rw [hb] at hs
    exact (unsubmitted h0 hd le_rfl).submit hd.1 hs
  | succ m hm ih => exact ih.step (e.step m) (hd.2 m (Nat.ne_of_gt hm))

/-- The calls and the waiter's thread go on while they can, and a fence that is signalled is seen so. -/
structure GoesOn (e : machine.Endless) : Prop where
  calls : ∀ b, e.WeakFair (Label.ofCall b)
  waiterThread : e.WeakFair Label.ofWaiterThread
  answers : ∀ n answer draining entry set, e.label n = .waiter (.thread answer) →
    (e.state n).waiter.thread = .updateStatus draining (entry :: set) → (e.state n).waiter.signalled entry = true →
    answer = true

/-- A call that has begun returns. -/
theorem returns (h0 : e.state 0 = machine.init) (hb : e.label n = .submit b buffers given) (hd : Distinct e n buffers)
    (hfair : GoesOn e) : ∃ m, n < m ∧ ∃ status, ((e.state m).calls b).phase = .returned status := by
  by_cases hdone : callRank ((e.state (n + 1)).calls b).phase = 0
  · have hcalled := (unshared h0 hb hd (Nat.lt_succ_self n)).called
    refine ⟨n + 1, Nat.lt_succ_self n, ?_⟩
    cases hp : ((e.state (n + 1)).calls b).phase with
    | returned status => exact ⟨status, rfl⟩
    | notCalled => exact absurd hp hcalled
    | _ => simp [hp, callRank] at hdone
  have hreturned : ∀ s : CommandQueue, Unshared s b buffers → callRank (s.calls b).phase = 0 →
      ∃ status, (s.calls b).phase = .returned status := by
    intro s hu hzero
    cases hp : (s.calls b).phase with
    | returned status => exact ⟨status, rfl⟩
    | notCalled => exact absurd hp hu.called
    | _ => simp [hp, callRank] at hzero
  have hleads : ∃ m, n + 1 < m ∧ ∃ status, ((e.state m).calls b).phase = .returned status := by
    apply (hfair.calls b).leads_to_of_rank (P := fun s => Known s ∧ Unshared s b buffers ∧ 0 < callRank (s.calls b).phase)
      (Q := fun s => ∃ status, (s.calls b).phase = .returned status) (fun s => callRank (s.calls b).phase)
    · intro s hp
      exact exists_callStep hp.1 hp.2.1 hp.2.2
    · intro m hm hp ha
      obtain ⟨-, hu, hp⟩ := hp
      have hnext := unshared h0 hb hd (Nat.lt_succ_of_le (Nat.le_of_succ_le hm))
      rcases Nat.eq_zero_or_pos (callRank ((e.state (m + 1)).calls b).phase) with hzero | hpos
      · exact .inr (hreturned _ hnext hzero)
      · exact .inl ⟨⟨known h0 _, hnext, hpos⟩, (advances_of_step (e.step m) ha).rank⟩
    · intro m hm hp ha
      obtain ⟨-, hu, hp⟩ := hp
      have hnext := unshared h0 hb hd (Nat.lt_succ_of_le (Nat.le_of_succ_le hm))
      have hcalls := calls_of_step (e.step m) hu.called ha
      refine .inl ⟨⟨known h0 _, hnext, ?_⟩, ?_⟩
      · rw [hcalls]
        exact hp
      · rw [hcalls]
    · exact ⟨known h0 _, unshared h0 hb hd (Nat.lt_succ_self n), Nat.pos_of_ne_zero hdone⟩
  obtain ⟨m, hm, hq⟩ := hleads
  exact ⟨m, (Nat.lt_succ_self n).trans hm, hq⟩

/-- The entry of the batch is with the waiter, whose thread can get to it. -/
structure Waiting (s : CommandQueue) (b : Nat) : Prop where
  known : Known s
  present : s.waiter.Present b
  signalled : s.waiter.signalled b = true
  alive : .tornDown ∉ s.waiter.log

/-- How far the waiter's thread is from the callback of the batch. A callback that it is in comes first. -/
def waitRank (s : CommandQueue) (b : Nat) : ℕ ×ₗ ℕ :=
  toLex (s.waiter.stage b, 2 * s.waiter.left + if s.running = none then 0 else 1)

private theorem signalled_of_step (hs : s.step a = some t) (hb : s.waiter.signalled b = true) :
    t.waiter.signalled b = true := by
  rcases (waiter_of_step hs).2 with hw | ⟨l, hw, -⟩
  · rw [hw]
    exact hb
  · exact FenceWaiter.signalled_of_step hw hb

theorem exists_waiterStep (h : Waiting s b) : ∃ a t, Label.ofWaiterThread a ∧ s.step a = some t := by
  cases hrunning : s.running with
  | some c => exact ⟨.invokeCompletionCallback c, _, trivial, by simp only [CommandQueue.step, hrunning, if_true]; rfl⟩
  | none =>
    cases herased : s.waiter.erased with
    | nil =>
      obtain ⟨answer, w, hw⟩ := FenceWaiter.exists_runThread h.known.inv.control h.present h.alive herased
      refine ⟨.waiter (.thread answer), { s with waiter := w }, trivial, ?_⟩
      simp [CommandQueue.step, stepWaiter, waiterEnabled, hrunning, FenceWaiter.step, hw]
    | cons c rest =>
      obtain ⟨d, ht⟩ : ∃ d, s.waiter.thread = .clear d (c :: rest) := by
        unfold FenceWaiter.erased at herased
        split at herased
        next d set ht => exact ⟨d, by rw [ht, herased]⟩
        next => cases herased
      obtain ⟨w, hw⟩ : ∃ w, s.waiter.destroyEntry c = some w :=
        ⟨_, by simp only [FenceWaiter.destroyEntry, ht, List.mem_cons_self, if_true]; rfl⟩
      exact ⟨.clearTrackedObjects c, _, trivial,
        by simp only [CommandQueue.step, hrunning, if_true, FenceWaiter.step, hw, Option.map_some]; rfl⟩

/-- A step of the waiter's thread gets it closer to the callback, or into it. -/
theorem waiterStep_closer (h : Waiting s b) (hs : s.step a = some t) (ha : a.ofWaiterThread)
    (hanswer : ∀ answer d set, a = .waiter (.thread answer) → s.waiter.thread = .updateStatus d (b :: set) → answer = true)
    (halive : .tornDown ∉ t.waiter.log) : (Waiting t b ∧ t.waitRank b < s.waitRank b) ∨ t.running = some b := by
  have hknown := h.known.step hs
  have hsignalled := signalled_of_step hs h.signalled
  unfold Label.ofWaiterThread at ha
  split at ha
  next answer =>
    obtain ⟨henabled, hs⟩ := Option.ite_none_right_eq_some.mp hs
    obtain ⟨w, hw, rfl⟩ := Option.map_eq_some_iff.mp hs
    have hidle : s.running = none := by simpa [waiterEnabled] using henabled
    obtain ⟨hpresent, hcloser⟩ := FenceWaiter.closer_of_runThread (h.known.seen b) h.present
      (fun d set ht => hanswer answer d set rfl ht) halive hw
    refine .inl ⟨⟨hknown, hpresent, hsignalled, halive⟩, ?_⟩
    rw [waitRank, waitRank, Prod.Lex.toLex_lt_toLex]
    refine hcloser.imp id fun hsame => ⟨hsame.1, ?_⟩
    have hleft : w.left < s.waiter.left := hsame.2
    change 2 * w.left + (if s.running = none then 0 else 1) < 2 * s.waiter.left + if s.running = none then 0 else 1
    omega
  next c =>
    obtain ⟨hidle, hs⟩ := Option.ite_none_right_eq_some.mp hs
    obtain ⟨w, hw, rfl⟩ := Option.map_eq_some_iff.mp hs
    by_cases hc : b = c
    · subst hc
      exact .inr (dropObjects_running _ _)
    · obtain ⟨hpresent, hstage, hleft⟩ := FenceWaiter.closer_of_destroyEntry h.known.inv.control h.present h.alive hc hw
      refine .inl ⟨⟨hknown, by simpa using hpresent, hsignalled, halive⟩, ?_⟩
      rw [waitRank, waitRank, Prod.Lex.toLex_lt_toLex]
      refine .inr ⟨by simpa using hstage, ?_⟩
      simp only [dropObjects_waiter, dropObjects_running, hidle, if_true, reduceCtorEq, if_false]
      omega
  next c =>
    obtain ⟨hrunning, hs⟩ := Option.ite_none_right_eq_some.mp hs
    obtain rfl := Option.some.inj hs
    refine .inl ⟨⟨hknown, ?_, hsignalled, halive⟩, ?_⟩
    · split <;> exact h.present
    · rw [waitRank, waitRank, Prod.Lex.toLex_lt_toLex]
      split <;> exact .inr ⟨rfl, by simp [record, hrunning]⟩
  next => cases ha

/-- No other step gets the waiter's thread away from the callback. -/
theorem otherStep_kept (h : Waiting s b) (hs : s.step a = some t) (ha : ¬ a.ofWaiterThread)
    (halive : .tornDown ∉ t.waiter.log) : Waiting t b ∧ t.waitRank b ≤ s.waitRank b := by
  have hknown := h.known.step hs
  have hsignalled := signalled_of_step hs h.signalled
  obtain ⟨hrunning, hwaiter⟩ := waiter_of_step hs
  have hrunning := hrunning.resolve_left ha
  have hthread : t.waiter.thread = s.waiter.thread ∧ t.waiter.isSignalled = s.waiter.isSignalled ∧
      ∀ x ∈ s.waiter.waitSet, x ∈ t.waiter.waitSet := by
    rcases hwaiter with hw | ⟨l, hw, hl | ⟨c, rfl, -⟩ | ⟨hl, -⟩⟩
    · rw [hw]
      exact ⟨rfl, rfl, fun _ => id⟩
    · have hstill := FenceWaiter.still_of_step hw hl
      exact ⟨hstill.thread, hstill.isSignalled, fun x hx => hstill.waitSet ▸ hx⟩
    · obtain ⟨-, hv⟩ := FenceWaiter.step_addFence hw
      rw [hv]
      exact FenceWaiter.addFence_still
    · exact absurd hl ha
  obtain ⟨hstage, hleft⟩ := FenceWaiter.stage_still (b := b) hthread.1 hthread.2.1
  refine ⟨⟨hknown, h.present.still hthread.1 hthread.2.2, hsignalled, halive⟩, ?_⟩
  rw [waitRank, waitRank, hstage, hleft, hrunning]

/-- A fence that the waiter has accepted is signalled some time, with the waiter's thread not torn
down by an error, or the waiter is destroyed. -/
def FenceEnds (e : machine.Endless) (b : Nat) : Prop :=
  ∀ n, .accepted b ∈ (e.state n).waiter.log → ∃ m, n ≤ m ∧ ((e.state m).waiter.owner = .destroyed ∨
    (e.state m).waiter.signalled b = true ∧ ∀ k, .tornDown ∉ (e.state k).waiter.log)

private theorem runs_callback (hfair : GoesOn e) (h : Waiting (e.state n) b) (halive : ∀ k, .tornDown ∉ (e.state k).waiter.log) :
    ∃ m, n < m ∧ (e.state m).running = some b := by
  apply hfair.waiterThread.leads_to_of_rank (P := fun s => Waiting s b) (Q := fun s => s.running = some b)
    (fun s => s.waitRank b)
  · intro s hs
    exact exists_waiterStep hs
  · intro m _ hm ha
    refine waiterStep_closer hm (e.step m) ha (fun answer d set hlabel ht => ?_) (halive _)
    exact hfair.answers m answer d b set hlabel ht hm.signalled
  · intro m _ hm ha
    exact .inl (otherStep_kept hm (e.step m) ha (halive _))
  · exact h

/-- Only the completion callback comes after the tracked objects. -/
private theorem completes_of_running (h0 : e.state 0 = machine.init) (hfair : GoesOn e) (hr : (e.state n).running = some b) :
    ∃ m, n < m ∧ (e.state m).completed b = true := by
  apply hfair.waiterThread.leads_to (P := fun s => s.running = some b) (Q := fun s => s.completed b = true)
  · intro s hs
    exact ⟨.invokeCompletionCallback b, _, trivial, if_pos hs⟩
  · intro m hm ha
    obtain ⟨-, hinvoked, -⟩ := ((known h0 m).inv.batch b).running hm
    have hstep := e.step m
    unfold Label.ofWaiterThread at ha
    split at ha
    next answer hlabel =>
      rw [hlabel] at hstep
      obtain ⟨henabled, -⟩ := Option.ite_none_right_eq_some.mp hstep
      simp [waiterEnabled, hm] at henabled
    next c hlabel =>
      rw [hlabel] at hstep
      obtain ⟨hidle, -⟩ := Option.ite_none_right_eq_some.mp hstep
      rw [hm] at hidle
      cases hidle
    next c hlabel =>
      rw [hlabel] at hstep
      obtain ⟨-, hs⟩ := Option.ite_none_right_eq_some.mp hstep
      rw [← Option.some.inj hs]
      split <;> simp [completed, record, hinvoked]
    next => cases ha
  · intro m hm ha
    rw [(waiter_of_step (e.step m)).1.resolve_left ha]
    exact hm
  · exact hr

/-- A callback that has run to its end does not run again. -/
theorem completed_of_step (h : Known s) (hc : s.completed b = true) (hs : s.step a = some t) : t.completed b = true := by
  obtain ⟨hinvoked, hrunning⟩ := of_decide_eq_true hc
  obtain ⟨hthread, hwaiter⟩ := waiter_of_step hs
  refine decide_eq_true ⟨?_, fun ht => ?_⟩
  · rcases hwaiter with hw | ⟨l, hw, -⟩
    · rw [hw]
      exact hinvoked
    · obtain ⟨new, hlog, -⟩ := FenceWaiter.log_of_step hw
      rw [hlog]
      exact List.mem_append_left _ hinvoked
  · rcases hthread with ha | hsame
    · unfold Label.ofWaiterThread at ha
      split at ha
      next answer =>
        obtain ⟨-, hs⟩ := Option.ite_none_right_eq_some.mp hs
        obtain ⟨w, -, rfl⟩ := Option.map_eq_some_iff.mp hs
        exact hrunning ht
      next c =>
        obtain ⟨-, hs⟩ := Option.ite_none_right_eq_some.mp hs
        obtain ⟨w, hw, rfl⟩ := Option.map_eq_some_iff.mp hs
        rw [dropObjects_running] at ht
        obtain rfl : c = b := Option.some.inj ht
        have hplace := (FenceWaiter.destroyEntry_cases hw).1
        exact (h.inv.ledger.mem_iff.mp (hplace.imp_right And.right).symm).2 hinvoked
      next c =>
        obtain ⟨-, hs⟩ := Option.ite_none_right_eq_some.mp hs
        obtain rfl := Option.some.inj hs
        split at ht <;> cases ht
      next => cases ha
    · rw [hsame] at ht
      exact hrunning ht

/-- The callback of a batch whose fence the waiter has accepted runs to its end. -/
theorem completes (h0 : e.state 0 = machine.init) (hfair : GoesOn e) (hends : FenceEnds e b)
    (haccepted : ∀ m, n ≤ m → .accepted b ∈ (e.state m).waiter.log) : ∃ m, n ≤ m ∧ (e.state m).completed b = true := by
  obtain ⟨m, hm, hend⟩ := hends n (haccepted n le_rfl)
  have hknown := known h0 m
  by_cases hinvoked : .invokedCallback b ∈ (e.state m).waiter.log
  · by_cases hrunning : (e.state m).running = some b
    · obtain ⟨k, hk, hdone⟩ := completes_of_running h0 hfair hrunning
      exact ⟨k, hm.trans hk.le, hdone⟩
    · exact ⟨m, hm, decide_eq_true ⟨hinvoked, hrunning⟩⟩
  have hpresent : (e.state m).waiter.Present b := hknown.inv.ledger.mem_iff.mpr ⟨haccepted m hm, hinvoked⟩
  rcases hend with hdestroyed | ⟨hsignalled, halive⟩
  · have hempty := hknown.inv.control.destroyed hdestroyed
    have hexited := hknown.inv.control.destructing (.inr hdestroyed)
    rcases hpresent with hb | hb
    · simp [hempty] at hb
    · simp [FenceWaiter.erased, hexited] at hb
  · obtain ⟨k, hk, hrunning⟩ := runs_callback hfair ⟨hknown, hpresent, hsignalled, halive m⟩ halive
    obtain ⟨j, hj, hdone⟩ := completes_of_running h0 hfair hrunning
    exact ⟨j, hm.trans (hk.le.trans hj.le), hdone⟩

/-- A call with command buffers has begun. It ends well or is cancelled. -/
structure Called (s : CommandQueue) (b : Nat) (given : Bool) : Prop where
  callback : (s.calls b).completionCallback = given
  begun : (s.calls b).phase ≠ .notCalled
  code : ∀ status, (s.calls b).phase = .returned status → status.code = .kOk ∨ status.code = .kCancelled

theorem called_submit (hs : s.step (.submit b buffers given) = some t) (hbuffers : buffers ≠ []) : Called t b given := by
  obtain ⟨-, hs⟩ := Option.ite_none_right_eq_some.mp hs
  obtain rfl := Option.some.inj hs
  constructor <;> simp [CommandQueue.submit, hbuffers]

theorem Called.step (h : Called s b given) (hk : Known s) (hs : s.step a = some t) : Called t b given := by
  by_cases ha : a.ofCall b
  · have hadvances := advances_of_step hs ha
    refine ⟨hadvances.callback.trans h.callback, hadvances.called, fun status hstatus => ?_⟩
    obtain ⟨armed, hp⟩ := hadvances.ended status hstatus
    exact ((hk.told b).guarded armed status hp).1
  · have hcalls := calls_of_step hs h.begun ha
    refine ⟨?_, ?_, ?_⟩
    · rw [hcalls]
      exact h.callback
    · rw [hcalls]
      exact h.begun
    · rw [hcalls]
      exact h.code

/-- What the completion callback was told and what `Submit` has returned go together. -/
structure Reported (s : CommandQueue) (b : Nat) (given : Bool) : Prop where
  once : s.reports b = [] ∨ given = true ∧ (s.reports b = [.kError] ∨ s.reports b = [.kCompleted])
  completed : .kCompleted ∈ s.reports b → .accepted b ∈ s.log ∧ .accepted b ∈ s.waiter.log
  error : .kError ∈ s.reports b → .accepted b ∉ s.waiter.log
  returned : ∀ status, (s.calls b).phase = .returned status → given = true →
    (status.ok = false ↔ .kError ∈ s.reports b)

/-- A cancelled batch is not with the waiter, so its callback is told of one thing at most. -/
theorem Known.reported (h : Known s) (hc : Called s b given) : Reported s b given := by
  have htold := (h.told b).reported
  have hexclusive : cancelled (s.calls b).phase = true → .accepted b ∉ s.waiter.log := by
    intro hcancelled haccepted
    cases hp : (s.calls b).phase with
    | returned status =>
      rw [hp] at hcancelled
      have hok := ((h.told b).returned status hp).mpr haccepted
      simp [cancelled, hok] at hcancelled
    | _ => simp [hp, cancelled] at hcancelled
  have hnever : cancelled (s.calls b).phase = true → s.completed b = false :=
    fun hcancelled => h.inv.not_completed (hexclusive hcancelled)
  rw [due, hc.callback] at htold
  refine ⟨?_, ?_, ?_, ?_⟩
  · rw [htold]
    cases given with
    | false => exact .inl rfl
    | true =>
      cases hcancelled : cancelled (s.calls b).phase with
      | true => exact .inr ⟨rfl, .inl (by simp [hnever hcancelled])⟩
      | false => cases s.completed b <;> simp
  · intro hmem
    have hdone : s.completed b = true := by
      rw [htold] at hmem
      by_contra hdone
      cases given <;> simp [hdone] at hmem
    have haccepted := h.inv.accepted_of_invoked (of_decide_eq_true hdone).1
    exact ⟨((h.inv.batch b).late haccepted).1, haccepted⟩
  · intro hmem
    apply hexclusive
    rw [htold] at hmem
    by_contra hcancelled
    cases given <;> simp [hcancelled] at hmem
  · intro status hp hgiven
    have hcode := hc.code status hp
    rw [htold, hgiven, hp]
    rcases hcode with hcode | hcode <;> simp [cancelled, Status.ok, hcode]

/-- At the end of any run the reports of a call are in order. -/
theorem reported_of_run {before after : List Label} (hr : machine.run (before ++ .submit b buffers given :: after) = some s)
    (hbuffers : buffers ≠ []) : Reported s b given := by
  obtain ⟨u, hu, hr⟩ := Machine.runFrom_append.mp hr
  obtain ⟨v, hv, hr⟩ := Machine.runFrom_cons_some.mp hr
  have hknown := Machine.invariant (M := machine) (I := Known) (fun _ _ _ h hs => h.step hs) known_init hu
  have hend := Machine.invariant (M := machine) (I := fun s => Known s ∧ Called s b given)
    (fun _ _ _ h hs => ⟨h.1.step hs, h.2.step h.1 hs⟩)
    ⟨hknown.step (a := .submit b buffers given) hv, called_submit hv hbuffers⟩ hr
  exact hend.1.reported hend.2

theorem called (h0 : e.state 0 = machine.init) (hb : e.label n = .submit b buffers given) (hbuffers : buffers ≠ []) {m : Nat}
    (hm : n < m) : Called (e.state m) b given := by
  induction m, hm using Nat.le_induction with
  | base =>
    have hs := e.step n
    rw [hb] at hs
    exact called_submit hs hbuffers
  | succ m hm ih => exact ih.step (known h0 m) (e.step m)

/-- A call of `Submit` with command buffers tells its completion callback at most once, that the batch
is completed only if the queue and the waiter have accepted it, and of an error exactly if it returns
one. If the command buffers are its own, the threads go on and the fence ends, it returns, and has
told its callback in the end. -/
theorem submit_reports (h0 : e.state 0 = machine.init) (hb : e.label n = .submit b buffers given) (hbuffers : buffers ≠ []) :
    (∀ m, n < m → Reported (e.state m) b given) ∧
      (Distinct e n buffers → GoesOn e → FenceEnds e b → ∃ status m, n < m ∧ ∀ k, m ≤ k →
        ((e.state k).calls b).phase = .returned status ∧
        (e.state k).reports b = if given then [if status.ok then .kCompleted else .kError] else []) := by
  refine ⟨fun m hm => (known h0 m).reported (called h0 hb hbuffers hm), fun hd hfair hends => ?_⟩
  obtain ⟨m, hm, status, hp⟩ := returns h0 hb hd hfair
  have hreturned : ∀ k, m ≤ k → ((e.state k).calls b).phase = .returned status :=
    fun k hk => Machine.Endless.stable (e := e) (I := fun s => (s.calls b).phase = .returned status)
      (fun _ _ _ h hs => returned_of_step hs h) hp hk
  have hdue : ∀ k, m ≤ k → (e.state k).reports b = if given then
      (if status.code = .kCancelled then [.kError] else []) ++ if (e.state k).completed b then [.kCompleted] else [] else [] := by
    intro k hk
    rw [((known h0 k).told b).reported, due, (called h0 hb hbuffers (hm.trans_le hk)).callback, hreturned k hk]
    simp only [cancelled, decide_eq_true_eq]
  have haccepted : ∀ k, m ≤ k → (status.code = .kOk ↔ .accepted b ∈ (e.state k).waiter.log) :=
    fun k hk => ((known h0 k).told b).returned status (hreturned k hk)
  rcases (called h0 hb hbuffers hm).code status hp with hcode | hcode
  · obtain ⟨k, hk, hdone⟩ := completes h0 hfair hends fun k hk => (haccepted k hk).mp hcode
    refine ⟨status, k, hm.trans_le hk, fun j hj => ⟨hreturned j (hk.trans hj), ?_⟩⟩
    have hstays : (e.state j).completed b = true := by
      have hstable := Machine.Endless.stable (e := e) (I := fun s => Known s ∧ s.completed b = true)
        (fun _ _ _ h hs => ⟨h.1.step hs, completed_of_step h.1 h.2 hs⟩) ⟨known h0 k, hdone⟩ hj
      exact hstable.2
    rw [hdue j (hk.trans hj), hstays]
    simp [hcode, Status.ok]
  · refine ⟨status, m, hm, fun k hk => ⟨hreturned k hk, ?_⟩⟩
    have hnever : (e.state k).completed b = false := by
      apply (known h0 k).inv.not_completed
      rw [← haccepted k hk, hcode]
      simp
    rw [hdue k hk, hnever]
    simp [hcode, Status.ok]

/-- The batch of one buffer, after which the waiter has nothing to do and the device is lost for good. -/
def thenIdle : List Label := runInOrder ++ [.waiter (.thread true), .waiter .loseDeviceHolder]

/-- In a run that only stutters in the end, fairness is about what is enabled there. -/
private theorem weakFair_of_idle {A : Label → Prop} {k : Nat} (hend : ∀ m, k ≤ m → e.state m = s)
    (hidle : ∀ a, A a → s.step a = none) : e.WeakFair A := by
  intro n henabled
  obtain ⟨a, t, ha, ht⟩ := henabled (max n k) (le_max_left n k)
  rw [hend _ (le_max_right n k)] at ht
  exact nomatch (hidle a ha).symm.trans ht

private theorem mem_waiterLog_of_step {event : WaiterEvent} (hs : s.step a = some t) (hevent : event ∈ s.waiter.log) :
    event ∈ t.waiter.log := by
  rcases (waiter_of_step hs).2 with hw | ⟨l, hw, -⟩
  · rw [hw]
    exact hevent
  · obtain ⟨new, hlog, -⟩ := FenceWaiter.log_of_step hw
    rw [hlog]
    exact List.mem_append_left _ hevent

/-- Where every call has returned and the waiter has nothing to do, nothing has to go on. -/
private theorem goesOn_of_idle {k : Nat} (hend : ∀ m, k ≤ m → e.state m = s) (hcalls : ∀ b, callRank (s.calls b).phase = 0)
    (hrunning : s.running = none) (hthread : s.waiter.thread = .main) (hempty : s.waiter.waitSet = [])
    (hterminate : s.waiter.terminate = false) (hanswers : ∀ n answer, e.label n = .waiter (.thread answer) → answer = true) :
    GoesOn e where
  calls b := by
    refine weakFair_of_idle hend fun a ha => ?_
    by_contra hsome
    obtain ⟨t, ht⟩ := Option.ne_none_iff_exists'.mp hsome
    have hlower := (advances_of_step ht ha).rank
    rw [hcalls b] at hlower
    cases hlower
  waiterThread := by
    refine weakFair_of_idle hend fun a ha => ?_
    unfold Label.ofWaiterThread at ha
    split at ha
    · simp [CommandQueue.step, stepWaiter, waiterEnabled, hrunning, FenceWaiter.step, FenceWaiter.runThread, hthread, hempty,
        hterminate]
    · simp [CommandQueue.step, hrunning, FenceWaiter.step, FenceWaiter.destroyEntry, hthread, hempty]
    · simp [CommandQueue.step, hrunning]
    · cases ha
  answers n answer _ _ _ hlabel _ _ := hanswers n answer hlabel

theorem submit_reports_inOrder : ∃ e : machine.Endless, ∃ status m, 0 < m ∧ ∀ k, m ≤ k →
    ((e.state k).calls 0).phase = .returned status ∧
      (e.state k).reports 0 = [if status.ok then .kCompleted else .kError] := by
  obtain ⟨s, hr, hidle, hcalls, hrunning, hthread, hempty, hterminate, hsignalled, halive⟩ :
      ∃ s, machine.run thenIdle = some s ∧ machine.step s (.waiter .loseDeviceHolder) = some s ∧
        (∀ b, callRank (s.calls b).phase = 0) ∧ s.running = none ∧ s.waiter.thread = .main ∧ s.waiter.waitSet = [] ∧
        s.waiter.terminate = false ∧ s.waiter.signalled 0 = true ∧ .tornDown ∉ s.waiter.log :=
    ⟨_, rfl, rfl, fun b => by cases b <;> rfl, rfl, rfl, rfl, rfl, rfl, by decide⟩
  obtain ⟨e, h0, hlabels, hend⟩ := Machine.exists_endless hr hidle
  have hstates : ∀ m, thenIdle.length ≤ m → e.state m = s := fun m hm => (hend m hm).1
  have hsubmit : e.label 0 = .submit 0 [0] true := hlabels 0 (by decide)
  have hothers : ∀ n, n ≠ 0 → e.label n ∈ thenIdle.tail := by
    intro n hn
    obtain ⟨n, rfl⟩ := Nat.exists_eq_succ_of_ne_zero hn
    by_cases hlt : n + 1 < thenIdle.length
    · rw [hlabels (n + 1) hlt]
      exact List.getElem_mem (l := thenIdle.tail) (n := n) (by simpa using Nat.lt_pred_of_succ_lt hlt)
    · rw [(hend (n + 1) (Nat.le_of_not_lt hlt)).2]
      decide
  have hdistinct : Distinct e 0 [0] := by
    refine ⟨by simp, fun m hm c all callback hlabel => ?_⟩
    have hmem := hothers m hm
    rw [hlabel] at hmem
    simp [thenIdle, runInOrder] at hmem
  have hanswers : ∀ n answer, e.label n = .waiter (.thread answer) → answer = true := by
    intro n answer hlabel
    have hmem : e.label n ∈ thenIdle.tail := hothers n fun hn => by simp [hn, hsubmit] at hlabel
    rw [hlabel] at hmem
    simpa [thenIdle, runInOrder] using hmem
  have hends : FenceEnds e 0 := by
    refine fun n _ => ⟨max n thenIdle.length, le_max_left _ _, .inr ⟨?_, fun k htorn => halive ?_⟩⟩
    · rw [hstates _ (le_max_right _ _)]
      exact hsignalled
    · have hkept := Machine.Endless.stable (e := e) (I := fun s => .tornDown ∈ s.waiter.log)
        (fun _ _ _ h hs => mem_waiterLog_of_step hs h) htorn (le_max_left k thenIdle.length)
      rw [hstates _ (le_max_right _ _)] at hkept
      exact hkept
  exact ⟨e, (submit_reports h0 hsubmit (by simp)).2 hdistinct
    (goesOn_of_idle hstates hcalls hrunning hthread hempty hterminate hanswers) hends⟩

end Ogre.Hal.CommandQueue
