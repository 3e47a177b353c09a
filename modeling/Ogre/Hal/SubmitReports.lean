import Ogre.Hal.SubmitLifetime

/-! What the completion callback of a batch is told, and what `Submit` returns for it. -/
namespace Ogre.Hal.CommandQueue
open Ogre.Library Ogre.Fml
variable {s t : CommandQueue} {a : Label} {b : Nat} {given : Bool}

/-- What an event of the log tells the completion callback of the batch. -/
def reportOf (b : Nat) : QueueEvent → Option CommandBufferStatus
  | .completionCallback batch status => if batch = b then some status else none
  | .accepted _ | .signalled _ | .released _ => none

/-- The calls of the completion callback of the batch, with what they were told. -/
def reports (s : CommandQueue) (b : Nat) : List CommandBufferStatus := s.log.filterMap (reportOf b)

/-- The batch that a step is about, if it is one of a call or of a callback. -/
def Label.batch : Label → Option Nat
  | .submit b _ _ | .endCommandBuffer b _ | .lockContext b _ | .createFence b _ | .queueSubmit b _ | .addFence b
  | .dropTemporary b | .leave b | .clearTrackedObjects b | .invokeCompletionCallback b => some b
  | .signal _ | .waiter _ => none

/-- What the steps that are not about a batch leave of it. -/
structure Untouched (s t : CommandQueue) (b : Nat) : Prop where
  call : t.calls b = s.calls b
  reports : t.reports b = s.reports b
  queued : .accepted b ∈ t.log ↔ .accepted b ∈ s.log
  accepted : .accepted b ∈ t.waiter.log ↔ .accepted b ∈ s.waiter.log
  invoked : .invokedCallback b ∈ t.waiter.log ↔ .invokedCallback b ∈ s.waiter.log
  running : t.running = some b ↔ s.running = some b

theorem reports_append {l : List QueueEvent} (h : t.log = s.log ++ l) :
    t.reports b = s.reports b ++ l.filterMap (reportOf b) := by
  rw [reports, h, List.filterMap_append]
  rfl

/-- A step of the call of another batch. -/
private theorem Untouched.of_log {l : List QueueEvent} (hcall : t.calls b = s.calls b) (hw : t.waiter = s.waiter)
    (hrunning : t.running = s.running) (hlog : t.log = s.log ++ l) (hl : ∀ e ∈ l, e ≠ .accepted b ∧ reportOf b e = none) :
    Untouched s t b where
  call := hcall
  reports := by
    rw [reports_append hlog, List.filterMap_eq_nil_iff.mpr fun e he => (hl e he).2, List.append_nil]
  queued := by
    rw [hlog, List.mem_append]
    exact or_iff_left fun he => (hl _ he).1 rfl
  accepted := by rw [hw]
  invoked := by rw [hw]
  running := by rw [hrunning]

private theorem untouched_setPhase {c : Nat} {phase : SubmitPhase} (hc : c ≠ b) : Untouched s (s.setPhase c phase) b :=
  .of_log (l := []) (setPhase_of_ne _ _ _ _ hc.symm) rfl rfl (List.append_nil _).symm (by simp)

theorem dropObjects_append {c : Nat} : ∃ l, (s.dropObjects c).log = s.log ++ l ∧ ∀ e ∈ l, e = .released c := by
  rw [dropObjects_log]
  split
  · exact ⟨[], by simp⟩
  · exact ⟨[.released c], by simp⟩

@[simp] theorem reports_setPhase {c : Nat} {phase : SubmitPhase} : (s.setPhase c phase).reports b = s.reports b := rfl

@[simp] theorem reports_dropObjects {c : Nat} : (s.dropObjects c).reports b = s.reports b := by
  obtain ⟨l, hlog, hl⟩ := dropObjects_append (s := s) (c := c)
  have hsilent : l.filterMap (reportOf b) = [] := by
    apply List.filterMap_eq_nil_iff.mpr
    intro e he
    rw [hl e he]
    rfl
  rw [reports_append hlog, hsilent, List.append_nil]

private theorem untouched_dropObjects {c : Nat} {phase : SubmitPhase} (hc : c ≠ b) :
    Untouched s ((s.setPhase c phase).dropObjects c) b := by
  obtain ⟨l, hlog, hl⟩ := dropObjects_append (s := s.setPhase c phase) (c := c)
  refine .of_log (by simpa using setPhase_of_ne _ _ _ _ hc.symm) (by simp) (by simp) hlog fun e he => ?_
  rw [hl e he]
  exact ⟨by simp, rfl⟩

/-- A step of the waiter that is not about the batch. -/
private theorem Untouched.of_waiter {w : FenceWaiter} (hsame : FenceWaiter.SameEntry s.waiter w b) :
    Untouched s { s with waiter := w } b :=
  ⟨rfl, rfl, Iff.rfl, hsame.accepted, hsame.invoked, Iff.rfl⟩

theorem Label.Fails.batch_eq (ha : a.Fails b) : a.batch = some b := by
  cases a <;> first | exact congrArg some ha.1 | cases ha

theorem untouched_of_step (hs : s.step a = some t) (ha : a.batch ≠ some b) : Untouched s t b := by
  have hne {c : Nat} (hc : a.batch = some c) : c ≠ b := by
    rintro rfl
    exact ha hc
  cases effect_of_step hs with
  | submitted c buffers callback hp =>
    exact .of_log (l := []) (by simp [CommandQueue.submit, (hne rfl).symm]) rfl rfl (List.append_nil _).symm (by simp)
  | ended c buffer buffers hp =>
    exact .of_log (l := []) (setPhase_of_ne _ _ _ _ (hne rfl).symm) rfl rfl (List.append_nil _).symm (by simp)
  | locked c hp ho => exact untouched_setPhase (hne rfl)
  | fenceCreated c hp => exact untouched_setPhase (hne rfl)
  | accepted c hp =>
    exact .of_log (setPhase_of_ne _ _ _ _ (hne rfl).symm) rfl rfl rfl (by simp [hne rfl, reportOf])
  | fenceAdded c w hp hw =>
    have hc : c ≠ b := hne rfl
    obtain ⟨-, rfl⟩ := FenceWaiter.step_addFence hw
    have hlog := FenceWaiter.addFence_log (w := s.waiter) (b := c)
    refine ⟨setPhase_of_ne _ _ _ _ hc.symm, rfl, Iff.rfl, ?_, ?_, Iff.rfl⟩
    · simp only [hlog, List.mem_append, List.mem_singleton]
      refine or_iff_left fun heq => ?_
      split at heq
      · exact hc (WaiterEvent.accepted.inj heq).symm
      · cases heq
    · simp only [hlog, List.mem_append, List.mem_singleton]
      refine or_iff_left fun heq => ?_
      split at heq <;> cases heq
  | dropped c hp => exact untouched_dropObjects (hne rfl)
  | refused c message hp => exact untouched_dropObjects (hne rfl)
  | failed c message a ha hp hcalled => exact untouched_dropObjects (hne ha.batch_eq)
  | left c armed status hp =>
    split
    · exact .of_log (setPhase_of_ne _ _ _ _ (hne rfl).symm) rfl rfl rfl (by simp [reportOf, hne rfl])
    · exact untouched_setPhase (hne rfl)
  | cleared c w hidle hw =>
    have hc : c ≠ b := hne rfl
    obtain ⟨-, hlog, -⟩ := FenceWaiter.destroyEntry_cases hw
    obtain ⟨l, hdropped, hl⟩ := dropObjects_append (s := { s with waiter := w, running := some c }) (c := c)
    refine ⟨by simp, ?_, ?_, ?_, ?_, ?_⟩
    · rw [reports_dropObjects]
      rfl
    · rw [hdropped, List.mem_append]
      refine or_iff_left fun he => ?_
      cases hl _ he
    · simp [hlog]
    · simp [hlog, hc.symm]
    · simp [hidle, hc]
  | invoked c hrunning =>
    have hc : c ≠ b := hne rfl
    split
    · refine ⟨rfl, ?_, ?_, Iff.rfl, Iff.rfl, by simp [record, hrunning, hc]⟩
      · exact (reports_append rfl).trans (by simp [reportOf, hc, reports])
      · simp [record]
    · exact ⟨rfl, rfl, Iff.rfl, Iff.rfl, Iff.rfl, by simp [hrunning, hc]⟩
  | signalled c w hw =>
    obtain rfl := Option.some.inj hw
    refine ⟨rfl, ?_, by simp [record], Iff.rfl, Iff.rfl, Iff.rfl⟩
    exact (reports_append rfl).trans (by simp [reportOf, reports])
  | waited l w henabled hw =>
    refine .of_waiter (FenceWaiter.sameEntry_step hw fun e valid => ?_).1
    refine ⟨?_, ?_, ?_⟩ <;> rintro rfl <;> cases henabled

/-- The guard has told the callback of an error. -/
def cancelled : SubmitPhase → Bool
  | .returned status => status.code = .kCancelled
  | .notCalled | .ending _ | .creatingFence | .submitting | .addingFence | .addedFence _ | .cleanup _ _ => false

/-- The callback of the entry has run to its end. -/
def completed (s : CommandQueue) (b : Nat) : Bool := .invokedCallback b ∈ s.waiter.log ∧ s.running ≠ some b

/-- What the completion callback has to have been told so far. -/
def due (s : CommandQueue) (b : Nat) : List CommandBufferStatus :=
  if (s.calls b).completionCallback then
    (if cancelled (s.calls b).phase then [.kError] else []) ++ if s.completed b then [.kCompleted] else []
  else []

/-- The guard is armed for the statuses that are errors, and the waiter has accepted the others. -/
structure Told (s : CommandQueue) (b : Nat) : Prop where
  guarded : ∀ armed status, (s.calls b).phase = .cleanup armed status →
    (status.code = .kOk ∨ status.code = .kCancelled) ∧ (armed = true ↔ status.code = .kCancelled) ∧
      (status.code = .kOk ↔ .accepted b ∈ s.waiter.log)
  returned : ∀ status, (s.calls b).phase = .returned status → (status.code = .kOk ↔ .accepted b ∈ s.waiter.log)
  reported : s.reports b = s.due b

theorem due_congr (hcallback : (t.calls b).completionCallback = (s.calls b).completionCallback)
    (hcancelled : cancelled (t.calls b).phase = cancelled (s.calls b).phase) (hcompleted : t.completed b = s.completed b) :
    t.due b = s.due b := by
  rw [due, due, hcallback, hcancelled, hcompleted]

theorem Told.untouched (h : Told s b) (hu : Untouched s t b) : Told t b where
  guarded := by
    rw [hu.call, hu.accepted]
    exact h.guarded
  returned := by
    rw [hu.call, hu.accepted]
    exact h.returned
  reported := by
    rw [hu.reports, h.reported]
    symm
    apply due_congr
    · rw [hu.call]
    · rw [hu.call]
    · rw [completed, completed, decide_eq_decide, hu.invoked, ne_eq, hu.running]

/-- The waiter invokes the callbacks of accepted entries only. -/
theorem Inv.accepted_of_invoked (h : Inv s) (hb : .invokedCallback b ∈ s.waiter.log) : .accepted b ∈ s.waiter.log := by
  have hconserved := h.ledger.conserved b
  rw [← List.count_pos_iff] at hb ⊢
  omega

theorem Inv.not_completed (h : Inv s) (hb : .accepted b ∉ s.waiter.log) : s.completed b = false := by
  rw [completed, decide_eq_false_iff_not]
  exact fun hc => hb (h.accepted_of_invoked hc.1)

/-- A step of the call that neither ends it nor tells anyone. -/
private theorem Told.onward (h : Told s b) (hs : cancelled (s.calls b).phase = false)
    (hcallback : (t.calls b).completionCallback = (s.calls b).completionCallback)
    (ht : beforeQueue (t.calls b).phase = true ∨ (t.calls b).phase = .addingFence ∨
      ∃ added, (t.calls b).phase = .addedFence added)
    (hreports : t.reports b = s.reports b) (hcompleted : t.completed b = s.completed b) : Told t b where
  guarded armed status hp := by
    rcases ht with ht | ht | ⟨added, ht⟩
    · rw [hp] at ht
      cases ht
    · rw [hp] at ht
      cases ht
    · rw [hp] at ht
      cases ht
  returned status hp := by
    rcases ht with ht | ht | ⟨added, ht⟩
    · rw [hp] at ht
      cases ht
    · rw [hp] at ht
      cases ht
    · rw [hp] at ht
      cases ht
  reported := by
    rw [hreports, h.reported]
    refine (due_congr hcallback ?_ hcompleted).symm
    rw [hs]
    rcases ht with ht | ht | ⟨added, ht⟩
    · cases hp : (t.calls b).phase with
      | returned status =>
        rw [hp] at ht
        cases ht
      | _ => rfl
    · rw [ht]
      rfl
    · rw [ht]
      rfl

/-- An early return arms the guard, and the waiter does not have the batch. -/
private theorem Told.cancel (h : Told s b) (hs : cancelled (s.calls b).phase = false) (hn : .accepted b ∉ s.waiter.log)
    {m : String} : Told (s.cancel b m) b where
  guarded armed status hp := by
    have hphase : ((s.cancel b m).calls b).phase = .cleanup true ⟨.kCancelled, m⟩ := by
      simp [CommandQueue.cancel]
    rw [hphase] at hp
    obtain ⟨rfl, rfl⟩ := SubmitPhase.cleanup.inj hp
    refine ⟨.inr rfl, iff_of_true rfl rfl, iff_of_false (by simp) ?_⟩
    rw [cancel_waiter]
    exact hn
  returned status hp := by
    simp [CommandQueue.cancel] at hp
  reported := by
    have hreports : (s.cancel b m).reports b = s.reports b := by
      simp only [CommandQueue.cancel, reports_dropObjects, reports_setPhase]
    rw [hreports, h.reported]
    refine (due_congr ?_ ?_ ?_).symm
    · simp [CommandQueue.cancel, setPhase]
    · rw [hs]
      simp [CommandQueue.cancel, cancelled]
    · simp [completed]

private theorem told_submit (h : Inv s) (ht : Told s b) (hp : (s.calls b).phase = .notCalled) {buffers : List Nat} :
    Told (s.submit b buffers given) b := by
  have hn : .accepted b ∉ s.waiter.log := (h.batch b).unknown (by rw [hp]; rfl)
  have hdone : (s.submit b buffers given).completed b = false := h.not_completed hn
  have hphase : ((s.submit b buffers given).calls b).phase = if buffers = [] then
      .returned ⟨.kInvalidArgument, "No command buffers provided."⟩ else .ending buffers := by
    simp [CommandQueue.submit]
  have hsilent : s.reports b = [] := by
    rw [ht.reported, due, hp, h.not_completed hn]
    simp [cancelled]
  refine ⟨?_, ?_, ?_⟩
  · intro armed status hcleanup
    rw [hphase] at hcleanup
    split at hcleanup <;> cases hcleanup
  · intro status hreturned
    rw [hphase] at hreturned
    split at hreturned
    · cases hreturned
      exact iff_of_false (by simp) hn
    · cases hreturned
  · have hcancelled : cancelled ((s.submit b buffers given).calls b).phase = false := by
      rw [hphase]
      split <;> rfl
    rw [due, hcancelled, hdone]
    refine Eq.trans hsilent ?_
    simp

/-- The closure that was converted for `AddFence` goes, and the guard with it if the waiter has its copy. -/
private theorem told_dropTemporary (h : Inv s) (ht : Told s b) (hp : (s.calls b).phase = .addedFence true) :
    Told ((s.setPhase b (.cleanup false {})).dropObjects b) b := by
  have hacc : .accepted b ∈ s.waiter.log := ((h.batch b).added true hp).2.mp rfl
  refine ⟨?_, ?_, ?_⟩
  · intro armed status hcleanup
    simp only [dropObjects_calls, setPhase_phase] at hcleanup
    obtain ⟨rfl, rfl⟩ := SubmitPhase.cleanup.inj hcleanup
    exact ⟨.inl rfl, by simp, iff_of_true rfl (by simpa using hacc)⟩
  · intro status hreturned
    simp at hreturned
  · rw [reports_dropObjects, reports_setPhase, ht.reported]
    refine (due_congr (by simp [setPhase]) ?_ (by simp [completed])).symm
    simp [cancelled, hp]

private theorem told_leave (h : Inv s) (ht : Told s b) {armed : Bool} {status : Status}
    (hp : (s.calls b).phase = .cleanup armed status) (hs : s.step (.leave b) = some t) : Told t b := by
  obtain ⟨-, harmed, haccepted⟩ := ht.guarded armed status hp
  simp only [CommandQueue.step, hp] at hs
  obtain rfl := Option.some.inj hs
  have hcallback : ((s.setPhase b (.returned status)).calls b).completionCallback = (s.calls b).completionCallback := by
    simp [setPhase]
  have hdue : s.due b = if (s.calls b).completionCallback && s.completed b then [.kCompleted] else [] := by
    rw [due, hp]
    cases (s.calls b).completionCallback <;> simp [cancelled]
  have hnext : ∀ u : CommandQueue, u.calls = (s.setPhase b (.returned status)).calls → u.waiter = s.waiter →
      u.running = s.running → u.reports b = (if (s.calls b).completionCallback then
        (if status.code = .kCancelled then [.kError] else []) ++ if s.completed b then [.kCompleted] else [] else []) →
      Told u b := by
    intro u hcalls hw hrunning hreports
    refine ⟨?_, ?_, ?_⟩
    · rw [hcalls, setPhase_phase]
      intro armed' status' heq
      cases heq
    · rw [hcalls, setPhase_phase, hw]
      intro status' heq
      obtain rfl := SubmitPhase.returned.inj heq
      exact haccepted
    · rw [hreports, due, completed, completed, hcalls, setPhase_phase, hcallback, hw, hrunning]
      simp only [cancelled, decide_eq_true_eq]
  split
  next htell =>
    obtain ⟨rfl, hgiven⟩ := Bool.and_eq_true_iff.mp htell
    have hkind : status.code = .kCancelled := harmed.mp rfl
    have hn : s.completed b = false := h.not_completed (haccepted.not.mp (by simp [hkind]))
    rw [hcallback] at hgiven
    refine hnext _ rfl rfl rfl ?_
    have hreports : ((s.setPhase b (.returned status)).record (.completionCallback b .kError)).reports b =
        s.reports b ++ [.kError] := (reports_append rfl).trans (by simp [reportOf])
    rw [hreports, ht.reported, hdue, hn]
    simp [hgiven, hkind]
  next hquiet =>
    refine hnext _ rfl rfl rfl ?_
    rw [reports_setPhase, ht.reported, hdue]
    cases hgiven : (s.calls b).completionCallback with
    | false => simp
    | true =>
      have hdisarmed : armed ≠ true := by
        rw [hcallback, hgiven, Bool.and_true] at hquiet
        exact hquiet
      have hkind : status.code ≠ .kCancelled := harmed.not.mp hdisarmed
      simp [hkind]

private theorem told_addFence (h : Inv s) (ht : Told s b) (hp : (s.calls b).phase = .addingFence) {w : FenceWaiter}
    (hw : s.waiter.step (.addFence b true) = some w) {added : Bool} :
    Told { s.setPhase b (.addedFence added) with waiter := w } b := by
  obtain ⟨hnew, rfl⟩ := FenceWaiter.step_addFence hw
  obtain ⟨haccepted, -⟩ := FenceWaiter.isNew_iff.mp hnew
  have hn : .accepted b ∉ s.waiter.log := List.count_eq_zero.mp haccepted
  have hninvoked : .invokedCallback b ∉ s.waiter.log := fun hi => hn (h.accepted_of_invoked hi)
  refine ht.onward (by rw [hp]; rfl) (by simp [setPhase]) (.inr (.inr ⟨added, by simp⟩)) rfl ?_
  rw [h.not_completed hn, completed, decide_eq_false_iff_not, FenceWaiter.addFence_log, List.mem_append, List.mem_singleton]
  rintro ⟨hi | hi, -⟩
  · exact hninvoked hi
  · split at hi <;> cases hi

/-- The callback of the entry goes on to the completion callback. -/
private theorem told_clearTrackedObjects (h : Inv s) (ht : Told s b) {w : FenceWaiter}
    (hw : s.waiter.destroyEntry b = some w) : Told ({ s with waiter := w, running := some b }.dropObjects b) b := by
  obtain ⟨hplace, hlog, -⟩ := FenceWaiter.destroyEntry_cases hw
  have hpresent := h.ledger.mem_iff.mp (hplace.imp_right And.right).symm
  have hdone : s.completed b = false := by
    rw [completed, decide_eq_false_iff_not]
    exact fun hc => hpresent.2 hc.1
  have haccepted : .accepted b ∈ w.log ↔ .accepted b ∈ s.waiter.log := by simp [hlog]
  refine ⟨?_, ?_, ?_⟩
  · simpa [haccepted] using ht.guarded
  · simpa [haccepted] using ht.returned
  · have hreports : ({ s with waiter := w, running := some b } : CommandQueue).reports b = s.reports b := rfl
    rw [reports_dropObjects, hreports, ht.reported]
    refine (due_congr (by simp) (by simp) ?_).symm
    rw [hdone, completed]
    simp

private theorem told_invokeCompletionCallback (h : Inv s) (ht : Told s b) (hrunning : s.running = some b)
    (hs : s.step (.invokeCompletionCallback b) = some t) : Told t b := by
  obtain ⟨haccepted, hinvoked, -⟩ := (h.batch b).running hrunning
  obtain ⟨-, hs⟩ := Option.ite_none_right_eq_some.mp hs
  obtain rfl := Option.some.inj hs
  have hbefore : s.completed b = false := by simp [completed, hrunning]
  have hcancelled : cancelled (s.calls b).phase = false := by
    cases hp : (s.calls b).phase with
    | returned status => simp [cancelled, (ht.returned status hp).mpr haccepted]
    | _ => rfl
  have hsilent : s.reports b = [] := by
    rw [ht.reported, due, hbefore, hcancelled]
    simp
  split
  next hgiven =>
    refine ⟨ht.guarded, ht.returned, ?_⟩
    refine Eq.trans (reports_append (s := s) rfl) ?_
    rw [hsilent, due]
    simp [record, reportOf, completed, hcancelled, show (s.calls b).completionCallback = true from hgiven, hinvoked]
  next hquiet =>
    refine ⟨ht.guarded, ht.returned, ?_⟩
    refine Eq.trans hsilent ?_
    rw [due, if_neg hquiet]

theorem told_step (h : Inv s) (ht : Told s b) (hs : s.step a = some t) : Told t b := by
  by_cases hbatch : a.batch = some b
  case neg => exact ht.untouched (untouched_of_step hs hbatch)
  have hk := h.batch b
  cases effect_of_step hs with
  | submitted c buffers callback hp =>
    obtain rfl := Option.some.inj hbatch
    exact told_submit h ht hp
  | ended c buffer buffers hp =>
    obtain rfl := Option.some.inj hbatch
    exact ht.onward (by rw [hp]; rfl) (by simp [setPhase]) (.inl (by simp [beforeQueue])) rfl rfl
  | locked c hp ho =>
    obtain rfl := Option.some.inj hbatch
    exact ht.onward (by rw [hp]; rfl) (by simp [setPhase]) (.inl (by simp [beforeQueue])) rfl rfl
  | fenceCreated c hp =>
    obtain rfl := Option.some.inj hbatch
    exact ht.onward (by rw [hp]; rfl) (by simp [setPhase]) (.inl (by simp [beforeQueue])) rfl rfl
  | accepted c hp =>
    obtain rfl := Option.some.inj hbatch
    refine ht.onward (by rw [hp]; rfl) (by simp [record, setPhase]) (.inr (.inl (by simp [record]))) ?_ rfl
    exact (reports_append rfl).trans (by simp [reportOf])
  | fenceAdded c w hp hw =>
    obtain rfl := Option.some.inj hbatch
    exact told_addFence h ht hp hw
  | dropped c hp =>
    obtain rfl := Option.some.inj hbatch
    exact told_dropTemporary h ht hp
  | refused c message hp =>
    obtain rfl := Option.some.inj hbatch
    have hadded := (hk.added false hp).2
    exact ht.cancel (by rw [hp]; rfl) (hadded.not.mp (by simp))
  | failed c message a ha hp hcalled =>
    obtain rfl := Option.some.inj (ha.batch_eq.symm.trans hbatch)
    have hquiet : cancelled (s.calls c).phase = false := by
      cases hphase : (s.calls c).phase with
      | returned status => simp [hphase, beforeQueue] at hp
      | _ => rfl
    exact ht.cancel hquiet (hk.unknown hp)
  | left c armed status hp =>
    obtain rfl := Option.some.inj hbatch
    exact told_leave h ht hp hs
  | cleared c w hidle hw =>
    obtain rfl := Option.some.inj hbatch
    exact told_clearTrackedObjects h ht hw
  | invoked c hrunning =>
    obtain rfl := Option.some.inj hbatch
    exact told_invokeCompletionCallback h ht hrunning hs
  | signalled c w hw => cases hbatch
  | waited l w henabled hw => cases hbatch

end Ogre.Hal.CommandQueue
