import Mathlib.Data.Prod.Lex
import Ogre.Hal.FenceDelivery

/-! How the thread of the fence waiter gets to an entry whose fence is signalled. -/
namespace Ogre.Hal.FenceWaiter
variable {w v : FenceWaiter} {a : Label} {b : Nat} {answer : Bool}

/-- The entries that the thread goes through in this pass. -/
def snapshot (w : FenceWaiter) : List Nat :=
  match w.thread with
  | .lockDevice _ set | .waitForFences _ set | .updateStatus _ set => set
  | .main | .waitUntilEmpty | .snapshot _ | .erase _ | .clear _ _ | .exited => []

/-- The thread is between a look at the fences and the next change of the wait set. -/
def looking (w : FenceWaiter) : Bool :=
  match w.thread with
  | .updateStatus _ _ | .erase _ => true
  | .main | .waitUntilEmpty | .snapshot _ | .lockDevice _ _ | .waitForFences _ _ | .clear _ _ | .exited => false

/-- The entry is in the wait set, or about to be destroyed. -/
def Present (w : FenceWaiter) (b : Nat) : Prop := b ∈ w.waitSet ∨ b ∈ w.erased

/-- The thread sees entries of the wait set only, and takes out what it has seen signalled. -/
structure Seen (w : FenceWaiter) (b : Nat) : Prop where
  known : w.isSignalled b = true → .accepted b ∈ w.log
  taken : b ∈ w.snapshot → .accepted b ∈ w.log
  removed : b ∈ w.waitSet → w.isSignalled b = true → w.looking = true

theorem seen_init : Seen {} b := by
  constructor <;> simp [snapshot]

theorem Ledger.accepted_of_mem (h : Ledger w) (hb : b ∈ w.waitSet) : .accepted b ∈ w.log := by
  have hconserved := h.conserved b
  rw [← List.count_pos_iff] at hb ⊢
  omega

theorem addFence_still {entry : Nat} {valid : Bool} : (w.addFence entry valid).2.thread = w.thread ∧
    (w.addFence entry valid).2.isSignalled = w.isSignalled ∧ ∀ x ∈ w.waitSet, x ∈ (w.addFence entry valid).2.waitSet := by
  unfold FenceWaiter.addFence
  split
  · exact ⟨rfl, rfl, fun _ => id⟩
  split
  · exact ⟨rfl, rfl, fun _ => id⟩
  · exact ⟨rfl, rfl, fun x hx => List.mem_append_left _ hx⟩

theorem destroyEntry_log {entry : Nat} (hs : w.destroyEntry entry = some v) : v.log = w.log ++ [.invokedCallback entry] := by
  cases destroys_of_destroyEntry hs <;> rfl

/-- The log grows, and a refusal in it comes from a call of `AddFence`. -/
theorem log_of_step (hs : w.step a = some v) :
    ∃ l, v.log = w.log ++ l ∧ ∀ b, .refused b ∈ l → ∃ valid, a = .addFence b valid := by
  by_cases ha : a.ofOthers = true
  case pos => exact ⟨[], by simp [(still_of_step hs ha).log], by simp⟩
  cases a with
  | addFence entry valid =>
    obtain ⟨-, hs⟩ := Option.ite_none_right_eq_some.mp hs
    obtain rfl := Option.some.inj hs
    have hentry : ∀ b, .refused b ∈ [WaiterEvent.refused entry] → ∃ v, Label.addFence entry valid = .addFence b v := by
      intro b hb
      obtain rfl : b = entry := by simpa using hb
      exact ⟨valid, rfl⟩
    unfold FenceWaiter.addFence
    split
    · exact ⟨_, rfl, hentry⟩
    split
    · exact ⟨_, rfl, hentry⟩
    · exact ⟨_, rfl, by simp⟩
  | thread answer =>
    have hs : w.runThread answer = some v := hs
    cases moves_of_runThread hs with
    | moves t _ _ _ _ _ => exact ⟨[], by simp, by simp⟩
    | observes d entry set _ _ => exact ⟨[.observedSignalled entry], rfl, by simp⟩
    | erases d _ => exact ⟨[], by simp, by simp⟩
    | tearsDown _ _ => exact ⟨[.tornDown], rfl, by simp⟩
  | destroyEntry entry => exact ⟨_, (destroyEntry_log hs), by simp⟩
  | _ => exact absurd rfl ha

/-- No step takes back the signal of a fence. -/
theorem signalled_of_step (hs : w.step a = some v) (hb : w.signalled b = true) : v.signalled b = true := by
  by_cases ha : a.ofOthers = true
  case pos => exact (still_of_step hs ha).signalled b hb
  cases a with
  | addFence entry valid =>
    obtain ⟨-, hs⟩ := Option.ite_none_right_eq_some.mp hs
    obtain rfl := Option.some.inj hs
    unfold FenceWaiter.addFence
    split
    · exact hb
    split <;> exact hb
  | thread answer =>
    have hs : w.runThread answer = some v := hs
    cases moves_of_runThread hs <;> exact hb
  | destroyEntry entry =>
    have hs : w.destroyEntry entry = some v := hs
    cases destroys_of_destroyEntry hs <;> exact hb
  | _ => exact absurd rfl ha

private theorem Seen.resume (h : Seen w b) (hl : w.looking = false) (d : Bool) : Seen (w.resume d) b where
  known := h.known
  taken hb := by
    cases d <;> simp [FenceWaiter.resume, snapshot] at hb
  removed hb hs := by
    rw [h.removed hb hs] at hl
    cases hl

private theorem Seen.tearDown (h : Seen w b) (hl : w.looking = false) : Seen w.tearDown b where
  known hs := List.mem_append_left _ (h.known hs)
  taken hb := by simp [FenceWaiter.tearDown, record, snapshot] at hb
  removed hb hs := by
    rw [h.removed hb hs] at hl
    cases hl

theorem Seen.runThread (h : Seen w b) (hledger : Ledger w) (hr : w.runThread answer = some v) : Seen v b := by
  have quiet (hl : w.looking = false) : b ∈ w.waitSet → w.isSignalled b = true → False := by
    intro hb hs
    rw [h.removed hb hs] at hl
    cases hl
  unfold FenceWaiter.runThread at hr
  split at hr
  next ht =>
    obtain ⟨-, hr⟩ := Option.ite_none_left_eq_some.mp hr
    obtain rfl := Option.some.inj hr
    refine ⟨h.known, fun hb => ?_, fun hb hs => (quiet (by simp [looking, ht]) hb hs).elim⟩
    by_cases hterminate : w.terminate = true <;> simp [FenceWaiter.snapshot, hterminate] at hb
  next ht =>
    obtain rfl := Option.some.inj hr
    refine ⟨h.known, fun hb => ?_, fun hb hs => (quiet (by simp [looking, ht]) hb hs).elim⟩
    by_cases hempty : w.waitSet = [] <;> simp [FenceWaiter.snapshot, hempty] at hb
  next d ht =>
    obtain rfl := Option.some.inj hr
    exact ⟨h.known, fun hb => hledger.accepted_of_mem hb, fun hb hs => (quiet (by simp [looking, ht]) hb hs).elim⟩
  next d set ht =>
    have hl : w.looking = false := by simp [looking, ht]
    have htaken : ∀ x, x ∈ w.snapshot ↔ x ∈ set := by simp [FenceWaiter.snapshot, ht]
    split at hr
    · split at hr
      · obtain rfl := Option.some.inj hr
        exact h.resume hl d
      · obtain rfl := Option.some.inj hr
        exact ⟨h.known, fun hb => h.taken ((htaken b).mpr hb), fun hb hs => (quiet hl hb hs).elim⟩
    · obtain rfl := Option.some.inj hr
      exact h.tearDown hl
  next d set ht =>
    have hl : w.looking = false := by simp [looking, ht]
    have htaken : ∀ x, x ∈ w.snapshot ↔ x ∈ set := by simp [FenceWaiter.snapshot, ht]
    split at hr
    · obtain rfl := Option.some.inj hr
      exact ⟨h.known, fun hb => h.taken ((htaken b).mpr hb), fun hb hs => (quiet hl hb hs).elim⟩
    · obtain rfl := Option.some.inj hr
      exact h.tearDown hl
  next d entry set ht =>
    have htaken : ∀ x, x ∈ w.snapshot ↔ x = entry ∨ x ∈ set := by simp [FenceWaiter.snapshot, ht]
    obtain ⟨-, hr⟩ := Option.ite_none_left_eq_some.mp hr
    obtain rfl := Option.some.inj hr
    have hrest : b ∈ set → .accepted b ∈ w.log := fun hb => h.taken ((htaken b).mpr (.inr hb))
    unfold updateSignalledStatus
    split
    · exact ⟨h.known, hrest, fun _ _ => rfl⟩
    split
    · refine ⟨fun hs => List.mem_append_left _ ?_, fun hb => List.mem_append_left _ (hrest hb), fun _ _ => rfl⟩
      by_cases hb : b = entry
      · exact h.taken ((htaken b).mpr (.inl hb))
      · exact h.known (by simpa [record, hb] using hs)
    · exact ⟨h.known, hrest, fun _ _ => rfl⟩
  next d ht =>
    obtain rfl := Option.some.inj hr
    exact ⟨h.known, fun hb => by simp [FenceWaiter.snapshot] at hb, fun _ _ => rfl⟩
  next d ht =>
    obtain rfl := Option.some.inj hr
    refine ⟨h.known, fun hb => by simp [FenceWaiter.snapshot] at hb, fun hb hs => ?_⟩
    have hunseen := (List.mem_filter.mp hb).2
    simp [show w.isSignalled b = true from hs] at hunseen
  next d ht =>
    obtain rfl := Option.some.inj hr
    exact h.resume (by simp [looking, ht]) d
  next => cases hr
  next => cases hr

/-- Where neither the thread nor what it knows changes. -/
private theorem Seen.same (h : Seen w b) (ht : v.thread = w.thread) (his : v.isSignalled = w.isSignalled)
    (hlog : ∀ e ∈ w.log, e ∈ v.log) (hset : b ∈ v.waitSet → b ∈ w.waitSet) : Seen v b where
  known hs := hlog _ (h.known (his ▸ hs))
  taken hb := hlog _ (h.taken (by simpa [FenceWaiter.snapshot, ht] using hb))
  removed hb hs := by
    have hlooking := h.removed (hset hb) (his ▸ hs)
    simpa [looking, ht] using hlooking

theorem Seen.step (h : Seen w b) (hledger : Ledger w) (hs : w.step a = some v) : Seen v b := by
  by_cases ha : a.ofOthers = true
  case pos =>
    have hstill := still_of_step hs ha
    exact h.same hstill.thread hstill.isSignalled (fun e he => hstill.log ▸ he) fun hb => hstill.waitSet ▸ hb
  cases a with
  | addFence entry valid =>
    obtain ⟨hallowed, hs⟩ := Option.ite_none_right_eq_some.mp hs
    obtain rfl := Option.some.inj hs
    have hrefuse : Seen (w.record (.refused entry)) b :=
      h.same rfl rfl (fun e he => List.mem_append_left _ he) id
    unfold FenceWaiter.addFence
    split
    · exact hrefuse
    split
    · exact hrefuse
    have hnew : w.isNew entry = true := (Bool.and_eq_true_iff.mp hallowed).1
    have hunknown : .accepted entry ∉ w.log := List.count_eq_zero.mp (isNew_iff.mp hnew).1
    refine ⟨fun hk => List.mem_append_left _ (h.known hk), fun hb => List.mem_append_left _ (h.taken hb), fun hb hk => ?_⟩
    rcases List.mem_append.mp hb with hb | hb
    · exact h.removed hb hk
    · rw [List.mem_singleton.mp hb] at hk
      have hentry : b = entry := List.mem_singleton.mp hb
      exact absurd (hentry ▸ h.known (hentry ▸ hk)) hunknown
  | thread answer => exact h.runThread hledger hs
  | destroyEntry entry =>
    have hs : w.destroyEntry entry = some v := hs
    cases destroys_of_destroyEntry hs with
    | erased d set ht _ =>
      refine ⟨fun hk => List.mem_append_left _ (h.known hk), fun hb => by simp [record, FenceWaiter.snapshot] at hb,
        fun hb hk => ?_⟩
      have hlooking := h.removed hb hk
      simp [looking, ht] at hlooking
    | waiting _ _ => exact h.same rfl rfl (fun e he => List.mem_append_left _ he) fun hb => List.mem_of_mem_erase hb
  | _ => exact absurd rfl ha

/-- How far the thread is from the entry. A pass that has not seen its fence comes before the next. -/
def stage (w : FenceWaiter) (b : Nat) : Nat :=
  match w.thread with
  | .clear _ erased => if b ∈ erased then 0 else 8
  | .erase _ => if w.isSignalled b then 1 else 9
  | .updateStatus _ set => if b ∈ set ∨ w.isSignalled b then 2 else 10
  | .waitForFences _ set => if b ∈ set then 3 else 11
  | .lockDevice _ set => if b ∈ set then 4 else 12
  | .snapshot _ => 5
  | .waitUntilEmpty => 6
  | .main => 7
  | .exited => 13

/-- What is left of the pass over a list. -/
def left (w : FenceWaiter) : Nat :=
  match w.thread with
  | .clear _ set | .updateStatus _ set => set.length
  | .main | .waitUntilEmpty | .snapshot _ | .lockDevice _ _ | .waitForFences _ _ | .erase _ | .exited => 0

/-- The thread has got closer to the entry. -/
def Closer (v w : FenceWaiter) (b : Nat) : Prop := v.stage b < w.stage b ∨ v.stage b = w.stage b ∧ v.left < w.left

private theorem closer_resume {d : Bool} (h : 7 < w.stage b) : Closer (w.resume d) w b := by
  refine .inl (lt_of_le_of_lt ?_ h)
  cases d <;> simp [FenceWaiter.resume, stage]

theorem waitSet_updateSignalledStatus {entry : Nat} : (w.updateSignalledStatus entry answer).waitSet = w.waitSet := by
  unfold updateSignalledStatus
  split
  · rfl
  split <;> rfl

/-- An entry is seen signalled that was before, and one that is looked at when the device says so. -/
theorem isSignalled_updateSignalledStatus {entry : Nat} (h : w.isSignalled b = true ∨ b = entry ∧ answer = true) :
    (w.updateSignalledStatus entry answer).isSignalled b = true := by
  unfold updateSignalledStatus
  split
  next hseen =>
    rcases h with hs | ⟨rfl, -⟩
    · exact hs
    · exact hseen
  split
  · by_cases hentry : b = entry
    · simp [record, hentry]
    · simpa [record, hentry] using h
  next hanswer => exact h.resolve_right fun h => hanswer h.2

/-- With each look the thread has fewer entries before it, and knows no less. -/
private theorem closer_of_look {d : Bool} {entry : Nat} {set : List Nat}
    (ht : w.thread = .updateStatus d (entry :: set)) (hanswer : b = entry → answer = true) :
    Closer { w.updateSignalledStatus entry answer with thread := .updateStatus d set } w b := by
  have hleft : left { w.updateSignalledStatus entry answer with thread := .updateStatus d set } < w.left := by
    simp [left, ht]
  have hstage : stage { w.updateSignalledStatus entry answer with thread := .updateStatus d set } b ≤ w.stage b := by
    simp only [stage, ht, List.mem_cons]
    by_cases hs : (w.updateSignalledStatus entry answer).isSignalled b = true
    · rw [if_pos (.inr hs)]
      split <;> omega
    · have hw : w.isSignalled b ≠ true := fun hw => hs (isSignalled_updateSignalledStatus (.inl hw))
      have hne : b ≠ entry := fun hentry => hs (isSignalled_updateSignalledStatus (.inr ⟨hentry, hanswer hentry⟩))
      simp [hs, hw, hne]
  exact (lt_or_eq_of_le hstage).imp id fun heq => ⟨heq, hleft⟩

/-- While the thread destroys entries it does nothing else. -/
theorem erased_of_runThread (hr : w.runThread answer = some v) : w.erased = [] := by
  cases ht : w.thread with
  | clear d set =>
    cases set with
    | nil => simp [erased, ht]
    | cons entry set => simp [FenceWaiter.runThread, ht] at hr
  | _ => simp [erased, ht]

/-- A thread that is not torn down, and sees the signal of the fence where it looks, gets closer. -/
theorem closer_of_runThread (h : Seen w b) (hpresent : Present w b)
    (hanswer : ∀ d set, w.thread = .updateStatus d (b :: set) → answer = true) (halive : .tornDown ∉ v.log)
    (hr : w.runThread answer = some v) : Present v b ∧ Closer v w b := by
  have hb : b ∈ w.waitSet := by
    rcases hpresent with hb | hb
    · exact hb
    · rw [erased_of_runThread hr] at hb
      cases hb
  have htorn : w.tearDown ≠ v := by
    rintro rfl
    exact halive (List.mem_append_right _ (List.mem_singleton.mpr rfl))
  have hunseen (hl : w.looking = false) : w.isSignalled b = false := by
    rw [Bool.eq_false_iff]
    intro hs
    rw [h.removed hb hs] at hl
    cases hl
  unfold FenceWaiter.runThread at hr
  split at hr
  next ht =>
    obtain ⟨-, hr⟩ := Option.ite_none_left_eq_some.mp hr
    obtain rfl := Option.some.inj hr
    refine ⟨.inl hb, .inl ?_⟩
    by_cases hterminate : w.terminate = true <;> simp [stage, ht, hterminate]
  next ht =>
    obtain rfl := Option.some.inj hr
    refine ⟨.inl hb, .inl ?_⟩
    simp [stage, ht, List.ne_nil_of_mem hb]
  next d ht =>
    obtain rfl := Option.some.inj hr
    exact ⟨.inl hb, .inl (by simp [stage, ht, hb])⟩
  next d set ht =>
    split at hr
    · split at hr
      next hnone =>
        obtain rfl := Option.some.inj hr
        have hset : b ∉ set := by
          intro hset
          have hfence : b ∈ w.getFencesForWaitSet set :=
            List.mem_filter.mpr ⟨hset, by simp [hunseen (by simp [looking, ht])]⟩
          rw [hnone] at hfence
          cases hfence
        exact ⟨.inl hb, closer_resume (by simp [stage, ht, hset])⟩
      next =>
        obtain rfl := Option.some.inj hr
        refine ⟨.inl hb, .inl ?_⟩
        by_cases hset : b ∈ set <;> simp [stage, ht, hset]
    · exact absurd (Option.some.inj hr) htorn
  next d set ht =>
    split at hr
    · obtain rfl := Option.some.inj hr
      refine ⟨.inl hb, .inl ?_⟩
      by_cases hset : b ∈ set <;> simp [stage, ht, hset, hunseen (by simp [looking, ht])]
    · exact absurd (Option.some.inj hr) htorn
  next d entry set ht =>
    obtain ⟨-, hr⟩ := Option.ite_none_left_eq_some.mp hr
    obtain rfl := Option.some.inj hr
    have hset : b ∈ (w.updateSignalledStatus entry answer).waitSet := by rwa [waitSet_updateSignalledStatus]
    exact ⟨.inl hset, closer_of_look ht fun hentry => hanswer d set (hentry ▸ ht)⟩
  next d ht =>
    obtain rfl := Option.some.inj hr
    refine ⟨.inl hb, .inl ?_⟩
    by_cases hs : w.isSignalled b = true <;> simp [stage, ht, hs]
  next d ht =>
    obtain rfl := Option.some.inj hr
    by_cases hs : w.isSignalled b = true
    · have herased : b ∈ w.waitSet.filter w.isSignalled := List.mem_filter.mpr ⟨hb, hs⟩
      refine ⟨.inr herased, .inl ?_⟩
      simp [stage, ht, hs, hb]
    · refine ⟨.inl (List.mem_filter.mpr ⟨hb, by simpa using hs⟩), .inl ?_⟩
      simp [stage, ht, hs]
  next d ht =>
    obtain rfl := Option.some.inj hr
    exact ⟨.inl hb, closer_resume (by simp [stage, ht])⟩
  next => cases hr
  next => cases hr

/-- The thread can go on to an entry, unless it has been torn down or destroys entries. -/
theorem exists_runThread (hc : Control w) (hpresent : Present w b) (halive : .tornDown ∉ w.log) (hnone : w.erased = []) :
    ∃ answer v, w.runThread answer = some v := by
  have hb : b ∈ w.waitSet := by
    rcases hpresent with hb | hb
    · exact hb
    · rw [hnone] at hb
      cases hb
  have hne : w.waitSet ≠ [] := List.ne_nil_of_mem hb
  cases ht : w.thread with
  | main => exact ⟨true, _, by simp only [FenceWaiter.runThread, ht, hne, false_and, if_false]; rfl⟩
  | waitUntilEmpty => exact ⟨true, _, by simp only [FenceWaiter.runThread, ht]; rfl⟩
  | snapshot d => exact ⟨true, _, by simp only [FenceWaiter.runThread, ht]; rfl⟩
  | lockDevice d set =>
    by_cases hd : w.deviceHolder = true
    · by_cases hf : w.getFencesForWaitSet set = []
      · exact ⟨true, _, by simp only [FenceWaiter.runThread, ht, hd, hf, if_true]; rfl⟩
      · exact ⟨true, _, by simp only [FenceWaiter.runThread, ht, hd, hf, if_true, if_false]; rfl⟩
    · exact ⟨true, _, by simp only [FenceWaiter.runThread, ht, hd]; rfl⟩
  | waitForFences d set => exact ⟨true, _, by simp only [FenceWaiter.runThread, ht, if_true]; rfl⟩
  | updateStatus d set =>
    cases set with
    | nil => exact ⟨true, _, by simp only [FenceWaiter.runThread, ht]; rfl⟩
    | cons entry set => exact ⟨false, _, by simp only [FenceWaiter.runThread, ht, Bool.false_and]; rfl⟩
  | erase d => exact ⟨true, _, by simp only [FenceWaiter.runThread, ht]; rfl⟩
  | clear d set =>
    obtain rfl : set = [] := by simpa [erased, ht] using hnone
    exact ⟨true, _, by simp only [FenceWaiter.runThread, ht]; rfl⟩
  | exited =>
    rcases hc.ended ht with htorn | ⟨-, hempty⟩
    · exact absurd htorn halive
    · exact absurd hempty hne

theorem Present.still (h : Present w b) (ht : v.thread = w.thread) (hset : ∀ x ∈ w.waitSet, x ∈ v.waitSet) :
    Present v b := by
  refine h.imp (hset b) fun hb => ?_
  rwa [erased, ht, ← erased]

theorem stage_still (ht : v.thread = w.thread) (his : v.isSignalled = w.isSignalled) :
    v.stage b = w.stage b ∧ v.left = w.left := by
  constructor
  · rw [stage, ht, his, stage]
  · rw [left, ht, left]

/-- The entries that are destroyed before it bring the thread closer to the last of them. -/
theorem closer_of_destroyEntry {c : Nat} (hc : Control w) (hpresent : Present w b) (halive : .tornDown ∉ w.log) (hne : b ≠ c)
    (hs : w.destroyEntry c = some v) : Present v b ∧ v.stage b = w.stage b ∧ v.left < w.left := by
  cases destroys_of_destroyEntry hs with
  | erased d set ht hmem =>
    refine ⟨hpresent.imp id fun hb => ?_, ?_, ?_⟩
    · have hb : b ∈ set := by simpa [erased, ht] using hb
      exact (List.mem_erase_of_ne hne).mpr hb
    · simp [record, stage, ht, List.mem_erase_of_ne hne]
    · have hpos := List.length_pos_of_mem hmem
      simp only [record, left, ht, List.length_erase_of_mem hmem]
      omega
  | waiting howner hmem =>
    rcases hc.ended (hc.destructing (.inl howner)) with htorn | ⟨-, hempty⟩
    · exact absurd htorn halive
    · exact absurd hempty (List.ne_nil_of_mem hmem)

end Ogre.Hal.FenceWaiter
