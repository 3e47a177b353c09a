import Ogre.Hal.FenceWaiterProgress
import Ogre.Hal.SubmitReports

/-! What each step of the queue does to the calls of `Submit`, their command buffers and the waiter. -/
namespace Ogre.Hal.CommandQueue
open Ogre.Library Ogre.Fml
variable {s t : CommandQueue} {a : Label} {b c : Nat} {given : Bool} {buffers : List Nat}

/-- The steps of a call once it has begun. -/
def Label.ofCall (b : Nat) : Label → Prop
  | .endCommandBuffer batch _ | .lockContext batch _ | .createFence batch _ | .queueSubmit batch _ | .addFence batch
  | .dropTemporary batch | .leave batch => batch = b
  | .submit _ _ _ | .clearTrackedObjects _ | .invokeCompletionCallback _ | .signal _ | .waiter _ => False

/-- The steps of the thread that waits, and that invokes the callbacks. -/
def Label.ofWaiterThread : Label → Prop
  | .waiter (.thread _) | .clearTrackedObjects _ | .invokeCompletionCallback _ => True
  | _ => False

theorem Label.Fails.eq_of_ofCall (hfails : a.Fails c) (ha : a.ofCall b) : c = b := by
  cases a <;> first | exact hfails.1.symm.trans ha | cases hfails

/-- How much of the call is left. -/
def callRank : SubmitPhase → Nat
  | .ending buffers => buffers.length + 6
  | .creatingFence => 5
  | .submitting => 4
  | .addingFence => 3
  | .addedFence _ => 2
  | .cleanup _ _ => 1
  | .notCalled | .returned _ => 0

def remaining : SubmitPhase → List Nat
  | .ending buffers => buffers
  | .notCalled | .creatingFence | .submitting | .addingFence | .addedFence _ | .cleanup _ _ | .returned _ => []

/-- A step of a call leaves less of it, and takes its next command buffer or none. -/
structure Advances (s t : CommandQueue) (b : Nat) : Prop where
  rank : callRank (t.calls b).phase < callRank (s.calls b).phase
  called : (t.calls b).phase ≠ .notCalled
  taken : remaining (t.calls b).phase = [] ∧ t.moved = s.moved ∨
    ∃ buffer buffers, (s.calls b).phase = .ending (buffer :: buffers) ∧ (t.calls b).phase = .ending buffers ∧
      t.moved = s.moved ++ [buffer]
  callback : (t.calls b).completionCallback = (s.calls b).completionCallback
  ended : ∀ status, (t.calls b).phase = .returned status → ∃ armed, (s.calls b).phase = .cleanup armed status

theorem moved_dropObjects : (s.dropObjects b).moved = s.moved := by
  unfold dropObjects
  split <;> rfl

private theorem advances_cancel {m : String} (hb : 1 < callRank (s.calls b).phase) : Advances s (s.cancel b m) b := by
  have hphase : ((s.cancel b m).calls b).phase = .cleanup true ⟨.kCancelled, m⟩ := by simp [cancel]
  refine ⟨?_, ?_, .inl ⟨?_, moved_dropObjects⟩, by simp [cancel, setPhase], ?_⟩
  · rw [hphase]
    exact hb
  · rw [hphase]
    intro hcall
    cases hcall
  · rw [hphase]
    rfl
  · rw [hphase]
    intro status hreturned
    cases hreturned

private theorem advances_setPhase {phase : SubmitPhase} (hb : callRank phase < callRank (s.calls b).phase)
    (hcalled : phase ≠ .notCalled) (hremaining : remaining phase = []) (hcalls : t.calls = (s.setPhase b phase).calls)
    (hmoved : t.moved = s.moved)
    (hended : ∀ status, phase = .returned status → ∃ armed, (s.calls b).phase = .cleanup armed status) :
    Advances s t b := by
  have hphase : (t.calls b).phase = phase := by rw [hcalls, setPhase_phase]
  refine ⟨?_, ?_, .inl ⟨?_, hmoved⟩, by simp [hcalls, setPhase], ?_⟩
  · rw [hphase]
    exact hb
  · rw [hphase]
    exact hcalled
  · rw [hphase]
    exact hremaining
  · rw [hphase]
    exact hended

theorem advances_of_step (hs : s.step a = some t) (ha : a.ofCall b) : Advances s t b := by
  cases effect_of_step hs with
  | submitted c buffers callback hp => cases ha
  | ended c buffer buffers hp =>
    obtain rfl : c = b := ha
    refine ⟨?_, ?_, .inr ⟨buffer, buffers, hp, ?_, rfl⟩, by simp [setPhase], ?_⟩ <;> simp [hp, callRank]
  | locked c hp ho =>
    obtain rfl : c = b := ha
    exact advances_setPhase (by simp [hp, callRank]) (by simp) rfl rfl rfl (fun _ he => by cases he)
  | fenceCreated c hp =>
    obtain rfl : c = b := ha
    exact advances_setPhase (by simp [hp, callRank]) (by simp) rfl rfl rfl (fun _ he => by cases he)
  | accepted c hp =>
    obtain rfl : c = b := ha
    exact advances_setPhase (by simp [hp, callRank]) (by simp) rfl rfl rfl (fun _ he => by cases he)
  | fenceAdded c w hp hw =>
    obtain rfl : c = b := ha
    exact advances_setPhase (by simp [hp, callRank]) (by simp) rfl rfl rfl (fun _ he => by cases he)
  | dropped c hp =>
    obtain rfl : c = b := ha
    exact advances_setPhase (by simp [hp, callRank]) (by simp) rfl (dropObjects_calls _ _) moved_dropObjects
      (fun _ he => by cases he)
  | refused c message hp =>
    obtain rfl : c = b := ha
    exact advances_cancel (by simp [hp, callRank])
  | failed c message a hfails hp hcalled =>
    obtain rfl : c = b := hfails.eq_of_ofCall ha
    apply advances_cancel
    cases hphase : (s.calls c).phase <;> simp_all [beforeQueue, callRank]
  | left c armed status hp =>
    obtain rfl : c = b := ha
    have hended : ∀ other, SubmitPhase.returned status = .returned other →
        ∃ armed, (s.calls c).phase = .cleanup armed other := by
      intro other heq
      rw [← SubmitPhase.returned.inj heq]
      exact ⟨armed, hp⟩
    split
    · exact advances_setPhase (by simp [hp, callRank]) (by simp) rfl rfl rfl hended
    · exact advances_setPhase (by simp [hp, callRank]) (by simp) rfl rfl rfl hended
  | cleared c w hidle hw => cases ha
  | invoked c hrunning => cases ha
  | signalled c w hw => cases ha
  | waited l w henabled hw => cases ha

/-- No other step changes a call that has begun. -/
theorem calls_of_step (hs : s.step a = some t) (hb : (s.calls b).phase ≠ .notCalled) (ha : ¬ a.ofCall b) :
    t.calls b = s.calls b := by
  by_cases hbatch : a.batch = some b
  case neg => exact (untouched_of_step hs hbatch).call
  cases a with
  | submit c buffers callback =>
    obtain rfl := Option.some.inj hbatch
    obtain ⟨hp, -⟩ := Option.ite_none_right_eq_some.mp hs
    exact absurd hp hb
  | clearTrackedObjects c =>
    obtain ⟨-, hs⟩ := Option.ite_none_right_eq_some.mp hs
    obtain ⟨w, -, rfl⟩ := Option.map_eq_some_iff.mp hs
    simp
  | invokeCompletionCallback c =>
    obtain ⟨-, hs⟩ := Option.ite_none_right_eq_some.mp hs
    obtain rfl := Option.some.inj hs
    split <;> rfl
  | signal c => cases hbatch
  | waiter l => cases hbatch
  | _ => exact absurd (Option.some.inj hbatch) ha

theorem called_of_step (hs : s.step a = some t) (hb : (s.calls b).phase ≠ .notCalled) : (t.calls b).phase ≠ .notCalled := by
  by_cases ha : a.ofCall b
  · exact (advances_of_step hs ha).called
  · rw [calls_of_step hs hb ha]
    exact hb

/-- A call that has returned stays so. -/
theorem returned_of_step {status : Status} (hs : s.step a = some t) (hb : (s.calls b).phase = .returned status) :
    (t.calls b).phase = .returned status := by
  have hcalled : (s.calls b).phase ≠ .notCalled := by simp [hb]
  rw [calls_of_step hs hcalled fun ha => ?_]
  · exact hb
  · have hlower := (advances_of_step hs ha).rank
    rw [hb] at hlower
    cases hlower

/-- A step that is of no call takes no command buffer. -/
theorem moved_of_step (hs : s.step a = some t) (ha : ∀ b, ¬ a.ofCall b) : t.moved = s.moved := by
  cases a with
  | submit c buffers callback =>
    obtain ⟨-, hs⟩ := Option.ite_none_right_eq_some.mp hs
    obtain rfl := Option.some.inj hs
    rfl
  | clearTrackedObjects c =>
    obtain ⟨-, hs⟩ := Option.ite_none_right_eq_some.mp hs
    obtain ⟨w, -, rfl⟩ := Option.map_eq_some_iff.mp hs
    exact moved_dropObjects
  | invokeCompletionCallback c =>
    obtain ⟨-, hs⟩ := Option.ite_none_right_eq_some.mp hs
    obtain rfl := Option.some.inj hs
    split <;> rfl
  | signal c =>
    obtain ⟨-, hs⟩ := Option.ite_none_right_eq_some.mp hs
    obtain ⟨w, -, rfl⟩ := Option.map_eq_some_iff.mp hs
    rfl
  | waiter l =>
    obtain ⟨-, hs⟩ := Option.ite_none_right_eq_some.mp hs
    obtain ⟨w, -, rfl⟩ := Option.map_eq_some_iff.mp hs
    rfl
  | _ => exact absurd rfl (ha _)

/-- The command buffers that are still to be ended by the call are its own. -/
structure Unshared (s : CommandQueue) (b : Nat) (buffers : List Nat) : Prop where
  called : (s.calls b).phase ≠ .notCalled
  others : ∀ c, c ≠ b → ∀ x ∈ buffers, x ∉ remaining (s.calls c).phase
  own : remaining (s.calls b).phase ⊆ buffers
  nodup : (remaining (s.calls b).phase).Nodup
  fresh : ∀ x ∈ remaining (s.calls b).phase, x ∉ s.moved

/-- Nobody has submitted the command buffers so far. -/
def Unsubmitted (s : CommandQueue) (buffers : List Nat) : Prop :=
  (∀ x ∈ buffers, x ∉ s.moved) ∧ ∀ c, ∀ x ∈ buffers, x ∉ remaining (s.calls c).phase

/-- What is left of a call has been there before, or is that of a new call. -/
theorem remaining_of_step (hs : s.step a = some t) : remaining (t.calls c).phase <:+ remaining (s.calls c).phase ∨
    ∃ all callback, a = .submit c all callback ∧ remaining (t.calls c).phase = all := by
  by_cases hc : a.ofCall c
  · rcases (advances_of_step hs hc).taken with ⟨hnone, -⟩ | ⟨buffer, buffers, hp, hpt, -⟩
    · rw [hnone]
      exact .inl (List.nil_suffix)
    · rw [hp, hpt]
      exact .inl (List.suffix_cons _ _)
  by_cases hcalled : (s.calls c).phase = .notCalled
  · by_cases hbatch : a.batch = some c
    · cases a with
      | submit d all callback =>
        obtain rfl := Option.some.inj hbatch
        obtain ⟨-, hs⟩ := Option.ite_none_right_eq_some.mp hs
        obtain rfl := Option.some.inj hs
        refine .inr ⟨all, callback, rfl, ?_⟩
        by_cases hall : all = [] <;> simp [CommandQueue.submit, hall, remaining]
      | clearTrackedObjects d =>
        obtain ⟨-, hs⟩ := Option.ite_none_right_eq_some.mp hs
        obtain ⟨w, -, rfl⟩ := Option.map_eq_some_iff.mp hs
        simp
      | invokeCompletionCallback d =>
        obtain ⟨-, hs⟩ := Option.ite_none_right_eq_some.mp hs
        obtain rfl := Option.some.inj hs
        refine .inl ?_
        split <;> exact List.suffix_refl _
      | signal d => cases hbatch
      | waiter l => cases hbatch
      | _ => exact absurd (Option.some.inj hbatch) hc
    · rw [(untouched_of_step hs hbatch).call]
      exact .inl (List.suffix_refl _)
  · rw [calls_of_step hs hcalled hc]
    exact .inl (List.suffix_refl _)

/-- The buffers that a step takes are at the head of what was left of a call. -/
theorem mem_moved_of_step {x : Nat} (hs : s.step a = some t) (hx : x ∈ t.moved) :
    x ∈ s.moved ∨ ∃ c rest, (s.calls c).phase = .ending (x :: rest) ∧ (t.calls c).phase = .ending rest := by
  by_cases ha : ∃ c, a.ofCall c
  · obtain ⟨c, hc⟩ := ha
    rcases (advances_of_step hs hc).taken with ⟨-, hmoved⟩ | ⟨buffer, buffers, hp, hpt, hmoved⟩
    · exact .inl (hmoved ▸ hx)
    · rw [hmoved] at hx
      rcases List.mem_append.mp hx with hx | hx
      · exact .inl hx
      · rw [List.mem_singleton.mp hx]
        exact .inr ⟨c, buffers, hp, hpt⟩
  · rw [moved_of_step hs fun c hc => ha ⟨c, hc⟩] at hx
    exact .inl hx

theorem Unsubmitted.step (h : Unsubmitted s buffers) (hs : s.step a = some t)
    (ha : ∀ c all callback, a = .submit c all callback → ∀ x ∈ buffers, x ∉ all) : Unsubmitted t buffers := by
  constructor
  · intro x hx hmoved
    rcases mem_moved_of_step hs hmoved with hmoved | ⟨c, rest, hp, -⟩
    · exact h.1 x hx hmoved
    · exact h.2 c x hx (by rw [hp]; exact List.mem_cons_self)
  · intro c x hx hmem
    rcases remaining_of_step (c := c) hs with hsuffix | ⟨all, callback, rfl, hall⟩
    · exact h.2 c x hx (hsuffix.subset hmem)
    · exact ha c all callback rfl x hx (hall ▸ hmem)

theorem Unsubmitted.submit (h : Unsubmitted s buffers) (hnodup : buffers.Nodup)
    (hs : s.step (.submit b buffers given) = some t) : Unshared t b buffers := by
  obtain ⟨-, hs⟩ := Option.ite_none_right_eq_some.mp hs
  obtain rfl := Option.some.inj hs
  have hall : remaining ((s.submit b buffers given).calls b).phase = buffers := by
    by_cases hnil : buffers = [] <;> simp [CommandQueue.submit, hnil, remaining]
  refine ⟨?_, ?_, ?_, ?_, ?_⟩
  · by_cases hnil : buffers = [] <;> simp [CommandQueue.submit, hnil]
  · intro c hc x hx
    simp only [CommandQueue.submit, Function.update_of_ne hc]
    exact h.2 c x hx
  · rw [hall]
    exact List.Subset.refl _
  · rw [hall]
    exact hnodup
  · rw [hall]
    exact h.1

theorem Unshared.step (h : Unshared s b buffers) (hs : s.step a = some t)
    (ha : ∀ c all callback, a = .submit c all callback → ∀ x ∈ buffers, x ∉ all) : Unshared t b buffers := by
  have hcalled := called_of_step hs h.called
  have hsuffix : remaining (t.calls b).phase <:+ remaining (s.calls b).phase := by
    rcases remaining_of_step (c := b) hs with hsuffix | ⟨all, callback, rfl, -⟩
    · exact hsuffix
    · obtain ⟨hp, -⟩ := Option.ite_none_right_eq_some.mp hs
      exact absurd hp h.called
  refine ⟨hcalled, ?_, fun x hx => h.own (hsuffix.subset hx), h.nodup.sublist hsuffix.sublist, ?_⟩
  · intro c hc x hx hmem
    rcases remaining_of_step (c := c) hs with hkept | ⟨all, callback, rfl, hall⟩
    · exact h.others c hc x hx (hkept.subset hmem)
    · exact ha c all callback rfl x hx (hall ▸ hmem)
  · intro x hx hmoved
    rcases mem_moved_of_step hs hmoved with hmoved | ⟨c, rest, hp, hpt⟩
    · exact h.fresh x (hsuffix.subset hx) hmoved
    · by_cases hc : c = b
      · subst hc
        have hnodup := h.nodup
        rw [hp, remaining, List.nodup_cons] at hnodup
        rw [hpt] at hx
        exact hnodup.1 hx
      · exact h.others c hc x (h.own (hsuffix.subset hx)) (by rw [hp]; exact List.mem_cons_self)

/-- What a step of the queue is for the waiter. -/
theorem waiter_of_step (hs : s.step a = some t) : (a.ofWaiterThread ∨ t.running = s.running) ∧
    (t.waiter = s.waiter ∨ ∃ l, s.waiter.step l = some t.waiter ∧
      (l.ofOthers = true ∨ (∃ c, l = .addFence c true ∧ a = .addFence c) ∨
        a.ofWaiterThread ∧ ∀ c valid, l ≠ .addFence c valid)) := by
  cases effect_of_step hs with
  | submitted c buffers callback hp => exact ⟨.inr rfl, .inl rfl⟩
  | ended c buffer buffers hp => exact ⟨.inr rfl, .inl rfl⟩
  | locked c hp ho => exact ⟨.inr rfl, .inl rfl⟩
  | fenceCreated c hp => exact ⟨.inr rfl, .inl rfl⟩
  | accepted c hp => exact ⟨.inr rfl, .inl rfl⟩
  | fenceAdded c w hp hw => exact ⟨.inr rfl, .inr ⟨_, hw, .inr (.inl ⟨c, rfl, rfl⟩)⟩⟩
  | dropped c hp => exact ⟨.inr (dropObjects_running _ _), .inl (dropObjects_waiter _ _)⟩
  | refused c message hp => exact ⟨.inr cancel_running, .inl cancel_waiter⟩
  | failed c message a ha hp hcalled => exact ⟨.inr cancel_running, .inl cancel_waiter⟩
  | left c armed status hp => split <;> exact ⟨.inr rfl, .inl rfl⟩
  | cleared c w hidle hw =>
    rw [dropObjects_waiter]
    refine ⟨.inl trivial, .inr ⟨_, hw, .inr (.inr ⟨trivial, ?_⟩)⟩⟩
    intro d valid heq
    cases heq
  | invoked c hrunning => split <;> exact ⟨.inl trivial, .inl rfl⟩
  | signalled c w hw => exact ⟨.inr rfl, .inr ⟨_, hw, .inl rfl⟩⟩
  | waited l w henabled hw =>
    refine ⟨.inr rfl, .inr ⟨l, hw, ?_⟩⟩
    cases l with
    | addFence d valid => cases henabled
    | destroyEntry d => cases henabled
    | thread answer =>
      refine .inr (.inr ⟨trivial, ?_⟩)
      intro d valid heq
      cases heq
    | _ => exact .inl rfl

/-- The refusals of the waiter come from calls that add a fence. -/
private theorem refused_of_step (hs : s.step a = some t) (hb : .refused b ∈ t.waiter.log) :
    .refused b ∈ s.waiter.log ∨ a = .addFence b := by
  rcases (waiter_of_step hs).2 with hw | ⟨l, hw, hl⟩
  · exact .inl (hw ▸ hb)
  · obtain ⟨new, hlog, hnew⟩ := FenceWaiter.log_of_step hw
    rw [hlog] at hb
    rcases List.mem_append.mp hb with hb | hb
    · exact .inl hb
    · obtain ⟨valid, rfl⟩ := hnew b hb
      rcases hl with hl | ⟨c, hc, rfl⟩ | ⟨-, hl⟩
      · cases hl
      · obtain ⟨rfl, -⟩ := FenceWaiter.Label.addFence.inj hc
        exact .inr rfl
      · exact absurd rfl (hl b valid)

/-- What is known of the queue in all of its states. -/
structure Known (s : CommandQueue) : Prop where
  inv : Inv s
  told : ∀ b, Told s b
  seen : ∀ b, s.waiter.Seen b
  refused : ∀ b, .refused b ∈ s.waiter.log → (s.calls b).phase ≠ .notCalled ∧ callRank (s.calls b).phase ≤ 2

theorem known_init : Known {} where
  inv := inv_init
  told b := ⟨by simp, by simp, by simp [reports, due]⟩
  seen b := FenceWaiter.seen_init
  refused b h := by simp at h

theorem Known.step (h : Known s) (hs : s.step a = some t) : Known t where
  inv := h.inv.step hs
  told b := told_step h.inv (h.told b) hs
  seen b := by
    rcases (waiter_of_step hs).2 with hw | ⟨l, hw, -⟩
    · rw [hw]
      exact h.seen b
    · exact (h.seen b).step h.inv.ledger hw
  refused b hb := by
    by_cases ha : a.ofCall b
    · have hadvances := advances_of_step hs ha
      refine ⟨hadvances.called, ?_⟩
      rcases refused_of_step hs hb with hb | rfl
      · exact (hadvances.rank.trans_le (h.refused b hb).2).le
      · have hp : (s.calls b).phase = .addingFence := by
          simp only [CommandQueue.step] at hs
          split at hs
          · assumption
          · cases hs
        have hrank := hadvances.rank
        rw [hp] at hrank
        exact Nat.le_of_lt_succ hrank
    · have hold : .refused b ∈ s.waiter.log := by
        rcases refused_of_step hs hb with hb | rfl
        · exact hb
        · exact absurd rfl ha
      obtain ⟨hcalled, hrank⟩ := h.refused b hold
      rw [calls_of_step hs hcalled ha]
      exact ⟨hcalled, hrank⟩

end Ogre.Hal.CommandQueue
