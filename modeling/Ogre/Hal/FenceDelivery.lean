import Mathlib.Data.List.Count
import Ogre.Hal.FenceWaiter
import Ogre.Library.History

/-! The callbacks of the fences that the waiter accepts: each of them is invoked
once, and not before its fence was seen signalled. -/
namespace Ogre.Hal.FenceWaiter
open Ogre.Library

/-- The thread is in the loop of `WaitUntilEmpty`. -/
def draining (w : FenceWaiter) : Bool :=
  match w.thread with
  | .main | .exited => false
  | .waitUntilEmpty => true
  | .snapshot d | .lockDevice d _ | .waitForFences d _ | .updateStatus d _ | .erase d | .clear d _ => d

/-- A callback comes after its fence was seen signalled, or after the thread ended early. -/
def CallbackAfter (before : List WaiterEvent) (e : WaiterEvent) : Prop :=
  ∀ entry, e = .invokedCallback entry → .observedSignalled entry ∈ before ∨ .tornDown ∈ before

/-- Where the entries are, and what was seen of their fences. An accepted entry
is in one place, or its callback was invoked. -/
structure Ledger (w : FenceWaiter) : Prop where
  conserved : ∀ e, w.waitSet.count e + w.erased.count e + w.log.count (.invokedCallback e) =
    w.log.count (.accepted e)
  asked : ∀ e, w.log.count (.accepted e) + w.log.count (.refused e) ≤ 1
  seen : ∀ e, w.isSignalled e = true → .observedSignalled e ∈ w.log
  erasedSeen : ∀ e ∈ w.erased, w.isSignalled e = true
  genuine : ∀ e, .observedSignalled e ∈ w.log → w.signalled e = true
  ordered : EachAfter CallbackAfter w.log

/-- Where the thread and the owner can be. -/
structure Control (w : FenceWaiter) : Prop where
  terminated : w.draining = true → w.terminate = true
  ended : w.thread = .exited → .tornDown ∈ w.log ∨ w.terminate = true ∧ w.waitSet = []
  idle : w.owner = .idle → w.terminate = true → w.thread = .exited
  joining : w.owner = .terminating ∨ w.owner = .deleting → w.terminate = true
  destructing : w.owner = .destructing ∨ w.owner = .destroyed → w.thread = .exited
  destroyed : w.owner = .destroyed → w.waitSet = []

theorem ledger_init : Ledger {} where
  conserved e := by simp [erased]
  asked e := by simp
  seen e h := by cases h
  erasedSeen e h := by simp [erased] at h
  genuine e h := by simp at h
  ordered := eachAfter_nil

theorem control_init : Control {} where
  terminated h := by cases h
  ended h := by cases h
  idle _ h := by cases h
  joining h := by simp at h
  destructing h := by simp at h
  destroyed h := by cases h

variable {w v : FenceWaiter}

/-- Nothing that the ledger is about changes. -/
theorem Ledger.of_eq (h : Ledger w) (hset : v.waitSet = w.waitSet) (her : v.erased = w.erased)
    (his : v.isSignalled = w.isSignalled) (hlog : v.log = w.log)
    (hsig : ∀ e, w.signalled e = true → v.signalled e = true) : Ledger v where
  conserved e := by rw [hset, her, hlog]; exact h.conserved e
  asked e := by rw [hlog]; exact h.asked e
  seen e he := by rw [hlog]; exact h.seen e (his ▸ he)
  erasedSeen e he := by rw [his]; exact h.erasedSeen e (her ▸ he)
  genuine e he := hsig e (h.genuine e (hlog ▸ he))
  ordered := hlog ▸ h.ordered

/-- Something is seen, of no entry or of one whose fence is signalled. -/
theorem Ledger.observe (h : Ledger w) {x : WaiterEvent} (hset : v.waitSet = w.waitSet)
    (her : v.erased = w.erased) (hlog : v.log = w.log ++ [x]) (hsig : v.signalled = w.signalled)
    (hx : (x = .tornDown ∧ v.isSignalled = w.isSignalled) ∨ ∃ e, x = .observedSignalled e ∧
      w.signalled e = true ∧ v.isSignalled = Function.update w.isSignalled e true) : Ledger v where
  conserved e := by
    rw [hset, her, hlog, List.count_append, List.count_append, h.conserved e |>.symm]
    rcases hx with ⟨rfl, -⟩ | ⟨e', rfl, -⟩ <;> simp
  asked e := by
    rw [hlog, List.count_append, List.count_append]
    rcases hx with ⟨rfl, -⟩ | ⟨e', rfl, -⟩ <;> simpa using h.asked e
  seen e he := by
    rw [hlog, List.mem_append]
    rcases hx with ⟨rfl, his⟩ | ⟨e', rfl, -, his⟩
    · exact .inl (h.seen e (his ▸ he))
    · by_cases hee : e = e'
      · exact .inr (by simp [hee])
      · exact .inl (h.seen e (by simpa [his, hee] using he))
  erasedSeen e he := by
    have := h.erasedSeen e (her ▸ he)
    rcases hx with ⟨-, his⟩ | ⟨e', -, -, his⟩ <;> rw [his]
    · exact this
    · by_cases hee : e = e'
      · simp [hee]
      · simpa [hee] using this
  genuine e he := by
    rw [hsig]
    rw [hlog, List.mem_append, List.mem_singleton] at he
    rcases he with he | he
    · exact h.genuine e he
    · rcases hx with ⟨rfl, -⟩ | ⟨e', rfl, hs, -⟩
      · cases he
      · exact WaiterEvent.observedSignalled.inj he ▸ hs
  ordered := by
    rw [hlog, eachAfter_concat]
    refine ⟨h.ordered, fun e he => ?_⟩
    rcases hx with ⟨rfl, -⟩ | ⟨e', rfl, -⟩ <;> cases he

/-- The signalled entries of the wait set become the erased ones. -/
theorem Ledger.erase (h : Ledger w) (hno : w.erased = []) (draining : Bool) :
    Ledger { w with
      waitSet := w.waitSet.filter fun entry => !w.isSignalled entry
      thread := .clear draining (w.waitSet.filter w.isSignalled) } where
  conserved e := by
    rw [← h.conserved e, hno]
    simp only [erased, List.count_nil, Nat.add_zero]
    congr 1
    by_cases hs : w.isSignalled e = true
    · have hout : (w.waitSet.filter fun entry => !w.isSignalled entry).count e = 0 :=
        List.count_eq_zero_of_not_mem (by simp [hs])
      rw [hout, Nat.zero_add]
      exact List.count_filter hs
    · have hout : (w.waitSet.filter w.isSignalled).count e = 0 :=
        List.count_eq_zero_of_not_mem (by simp [hs])
      rw [hout, Nat.add_zero]
      exact List.count_filter (by simpa using hs)
  asked := h.asked
  seen := h.seen
  erasedSeen e he := (List.mem_filter.mp he).2
  genuine := h.genuine
  ordered := h.ordered

/-- An entry is destroyed, and its callback invoked. -/
theorem Ledger.invoke (h : Ledger w) {e : Nat} (hlog : v.log = w.log ++ [.invokedCallback e])
    (hcount : ∀ x, v.waitSet.count x + v.erased.count x + (if x = e then 1 else 0) =
      w.waitSet.count x + w.erased.count x)
    (hsub : ∀ x ∈ v.erased, x ∈ w.erased) (his : v.isSignalled = w.isSignalled)
    (hsig : v.signalled = w.signalled) (hafter : CallbackAfter w.log (.invokedCallback e)) : Ledger v where
  conserved x := by
    have := hcount x
    rw [hlog, List.count_append, List.count_append, ← h.conserved x, ← this]
    by_cases hx : x = e
    · subst hx; simp; omega
    · have hne : ¬ e = x := fun he => hx he.symm
      simp [hx, hne]
  asked x := by
    rw [hlog, List.count_append, List.count_append]
    simpa using h.asked x
  seen x hx := by
    rw [hlog]
    exact List.mem_append_left _ (h.seen x (his ▸ hx))
  erasedSeen x hx := by
    rw [his]
    exact h.erasedSeen x (hsub x hx)
  genuine x hx := by
    rw [hsig]
    rw [hlog, List.mem_append] at hx
    exact hx.elim (h.genuine x) fun hx => by simp at hx
  ordered := by
    rw [hlog, eachAfter_concat]
    exact ⟨h.ordered, hafter⟩

theorem isNew_iff {e : Nat} :
    w.isNew e = true ↔ w.log.count (.accepted e) = 0 ∧ w.log.count (.refused e) = 0 := by
  simp [isNew, List.count_eq_zero]

/-- A call of `AddFence` puts its entry in the wait set, or refuses it. -/
theorem Ledger.addFence (h : Ledger w) {e : Nat} (hn : w.isNew e = true) (valid : Bool) :
    Ledger (w.addFence e valid).2 := by
  obtain ⟨hacc, href⟩ := isNew_iff.mp hn
  have hasked (x : Nat) (y : WaiterEvent) (hy : y = .accepted e ∨ y = .refused e) :
      (w.log ++ [y]).count (.accepted x) + (w.log ++ [y]).count (.refused x) ≤ 1 := by
    have := h.asked x
    by_cases hx : x = e
    · subst hx
      rcases hy with rfl | rfl <;> simp [hacc, href]
    · have hne : ¬ e = x := fun he => hx he.symm
      rcases hy with rfl | rfl <;> simpa [hne] using this
  have refuse : Ledger (w.record (.refused e)) := by
    refine ⟨fun x => ?_, fun x => ?_, fun x hx => List.mem_append_left _ (h.seen x hx), h.erasedSeen,
      fun x hx => h.genuine x (by simpa [record] using hx), eachAfter_concat.mpr ⟨h.ordered, by simp [CallbackAfter]⟩⟩
    · simpa [record, erased] using h.conserved x
    · exact hasked x _ (.inr rfl)
  unfold FenceWaiter.addFence
  split
  · exact refuse
  split
  · exact refuse
  refine ⟨fun x => ?_, fun x => ?_, fun x hx => List.mem_append_left _ (h.seen x hx), h.erasedSeen,
    fun x hx => h.genuine x (by simpa [record] using hx), eachAfter_concat.mpr ⟨h.ordered, by simp [CallbackAfter]⟩⟩
  · have := h.conserved x
    simp only [record, erased, List.count_append, List.count_singleton] at this ⊢
    simp
    omega
  · exact hasked x _ (.inl rfl)

/-- What one step of the thread does: it goes on to `t`, with or without a fence seen
signalled, it takes the signalled entries out of the wait set, or it tears itself down. -/
inductive Moves (w : FenceWaiter) : FenceWaiter → Prop
  | moves (t : WaiterThread) (hne : w.thread ≠ .exited) (hw : w.erased = [])
      (ht : ({ w with thread := t } : FenceWaiter).erased = [])
      (hd : ({ w with thread := t } : FenceWaiter).draining = true → w.terminate = true ∨ w.draining = true)
      (hx : t = .exited → w.draining = true ∧ w.waitSet = []) : Moves w { w with thread := t }
  | observes (d : Bool) (entry : Nat) (set : List Nat) (ht : w.thread = .updateStatus d (entry :: set))
      (hs : w.signalled entry = true) : Moves w
        { w.record (.observedSignalled entry) with
          isSignalled := Function.update w.isSignalled entry true, thread := .updateStatus d set }
  | erases (d : Bool) (ht : w.thread = .erase d) : Moves w
      { w with
        waitSet := w.waitSet.filter fun entry => !w.isSignalled entry
        thread := .clear d (w.waitSet.filter w.isSignalled) }
  | tearsDown (hne : w.thread ≠ .exited) (hw : w.erased = []) : Moves w w.tearDown

theorem moves_of_runThread {answer : Bool} (hr : w.runThread answer = some v) : Moves w v := by
  have back (d : Bool) (hne : w.thread ≠ .exited) (hw : w.erased = []) (hd : w.draining = d) :
      Moves w (w.resume d) := by
    cases d with
    | true => exact .moves .waitUntilEmpty hne hw rfl (fun _ => .inr hd) fun he => by cases he
    | false => exact .moves .main hne hw rfl (fun he => by cases he) fun he => by cases he
  unfold FenceWaiter.runThread at hr
  split at hr
  next ht =>
    split at hr
    · cases hr
    · cases hr
      split
      next hterm =>
        exact .moves .waitUntilEmpty (by simp [ht]) (by simp [erased, ht]) rfl (fun _ => .inl hterm) (by simp)
      next hterm =>
        exact .moves (.snapshot false) (by simp [ht]) (by simp [erased, ht]) rfl (fun hd => by cases hd) (by simp)
  next ht =>
    cases hr
    have hd : w.draining = true := by simp [draining, ht]
    refine .moves _ (by simp [ht]) (by simp [erased, ht]) (by split <;> rfl) (fun _ => .inr hd) fun he => ⟨hd, ?_⟩
    simpa using he
  next d ht =>
    cases hr
    exact .moves _ (by simp [ht]) (by simp [erased, ht]) rfl (fun hd => .inr (by simpa [draining, ht] using hd)) (by simp)
  next d set ht =>
    have hw : w.erased = [] := by simp [erased, ht]
    split at hr
    · split at hr
      · cases hr
        exact back d (by simp [ht]) hw (by simp [draining, ht])
      · cases hr
        exact .moves _ (by simp [ht]) hw rfl (fun hd => .inr (by simpa [draining, ht] using hd)) (by simp)
    · cases hr
      exact .tearsDown (by simp [ht]) hw
  next d set ht =>
    have hw : w.erased = [] := by simp [erased, ht]
    split at hr
    · cases hr
      exact .moves _ (by simp [ht]) hw rfl (fun hd => .inr (by simpa [draining, ht] using hd)) (by simp)
    · cases hr
      exact .tearsDown (by simp [ht]) hw
  next d entry set ht =>
    have hnext : Moves w { w with thread := .updateStatus d set } :=
      .moves _ (by simp [ht]) (by simp [erased, ht]) rfl (fun hd => .inr (by simpa [draining, ht] using hd)) (by simp)
    split at hr
    · cases hr
    next hguard =>
      cases hr
      unfold updateSignalledStatus
      split
      · exact hnext
      split
      next ha => exact .observes d entry set ht (by simpa [ha] using hguard)
      next => exact hnext
  next d ht =>
    cases hr
    exact .moves _ (by simp [ht]) (by simp [erased, ht]) rfl (fun hd => .inr (by simpa [draining, ht] using hd)) (by simp)
  next d ht =>
    cases hr
    exact .erases d ht
  next d ht =>
    cases hr
    exact back d (by simp [ht]) (by simp [erased, ht]) (by simp [draining, ht])
  next => cases hr
  next => cases hr

/-- Where an entry is destroyed: among those that the thread has erased, or with the wait set. -/
inductive Destroys (w : FenceWaiter) (entry : Nat) : FenceWaiter → Prop
  | erased (d : Bool) (set : List Nat) (ht : w.thread = .clear d set) (hmem : entry ∈ set) : Destroys w entry
      ({ w with thread := .clear d (set.erase entry) }.record (.invokedCallback entry))
  | waiting (howner : w.owner = .destructing) (hmem : entry ∈ w.waitSet) : Destroys w entry
      ({ w with waitSet := w.waitSet.erase entry }.record (.invokedCallback entry))

theorem destroys_of_destroyEntry {entry : Nat} (hr : w.destroyEntry entry = some v) : Destroys w entry v := by
  unfold FenceWaiter.destroyEntry at hr
  split at hr
  next d set ht =>
    obtain ⟨hmem, hr⟩ := Option.ite_none_right_eq_some.mp hr
    obtain rfl := Option.some.inj hr
    exact .erased d set ht hmem
  next =>
    obtain ⟨⟨howner, hmem⟩, hr⟩ := Option.ite_none_right_eq_some.mp hr
    obtain rfl := Option.some.inj hr
    exact .waiting howner hmem

/-- What one step of the thread does to the entries and the log. -/
theorem Ledger.runThread (h : Ledger w) {answer : Bool} (hr : w.runThread answer = some v) : Ledger v := by
  cases moves_of_runThread hr with
  | moves t _ hw ht _ _ => exact h.of_eq rfl (ht.trans hw.symm) rfl rfl fun _ hs => hs
  | observes d entry set ht hs =>
    have hw : w.erased = [] := by simp [erased, ht]
    exact h.observe rfl hw.symm rfl rfl (.inr ⟨entry, rfl, hs, rfl⟩)
  | erases d ht => exact h.erase (by simp [erased, ht]) d
  | tearsDown _ hw => exact h.observe rfl hw.symm rfl rfl (.inl ⟨rfl, rfl⟩)

private theorem count_erase_add {l : List Nat} {e : Nat} (h : e ∈ l) (x : Nat) :
    (l.erase e).count x + (if x = e then 1 else 0) = l.count x := by
  by_cases hx : x = e
  · subst hx
    have := List.count_pos_iff.mpr h
    rw [List.count_erase_self, if_pos rfl]
    omega
  · rw [List.count_erase_of_ne hx, if_neg hx, Nat.add_zero]

theorem Ledger.destroyEntry (h : Ledger w) (hc : Control w) {e : Nat} (hr : w.destroyEntry e = some v) :
    Ledger v := by
  cases destroys_of_destroyEntry hr with
  | erased d set ht hmem =>
    have he : w.erased = set := by simp [erased, ht]
    refine h.invoke rfl (fun x => ?_) (fun x hx => ?_) rfl rfl fun x hx => ?_
    · rw [he, Nat.add_assoc]
      exact congrArg _ (count_erase_add hmem x)
    · rw [he]
      exact List.mem_of_mem_erase hx
    · obtain rfl := WaiterEvent.invokedCallback.inj hx
      exact .inl (h.seen e (h.erasedSeen e (he ▸ hmem)))
  | waiting howner hmem =>
    refine h.invoke rfl (fun x => ?_) (fun x hx => hx) rfl rfl fun x _ => ?_
    · have := count_erase_add hmem x
      simp only [record, erased]
      omega
    · have hne : w.waitSet ≠ [] := List.ne_nil_of_mem hmem
      have hend := hc.ended (hc.destructing (.inl howner))
      exact .inr (hend.resolve_right fun h => hne h.2)

/-- Nothing that the thread works with changes. -/
structure Still (w v : FenceWaiter) : Prop where
  thread : v.thread = w.thread
  isSignalled : v.isSignalled = w.isSignalled
  waitSet : v.waitSet = w.waitSet
  log : v.log = w.log
  signalled : ∀ x, w.signalled x = true → v.signalled x = true

/-- The steps that leave the wait set and the thread alone. -/
def Label.ofOthers : Label → Bool
  | .signal _ | .loseDeviceHolder | .terminate | .delete | .joined | .destroyed => true
  | .addFence _ _ | .thread _ | .destroyEntry _ => false

private theorem still_beginTerminate {owner finished : WaiterOwner} : Still w (w.beginTerminate owner finished) := by
  unfold beginTerminate
  split <;> exact ⟨rfl, rfl, rfl, rfl, fun _ => id⟩

theorem still_of_step {a : Label} (hs : w.step a = some v) (ha : a.ofOthers = true) : Still w v := by
  cases a with
  | addFence entry valid => cases ha
  | thread answer => cases ha
  | destroyEntry entry => cases ha
  | signal entry =>
    obtain rfl := Option.some.inj hs
    refine ⟨rfl, rfl, rfl, rfl, fun x hx => ?_⟩
    by_cases hentry : x = entry <;> simp [hentry, hx]
  | loseDeviceHolder =>
    obtain rfl := Option.some.inj hs
    exact ⟨rfl, rfl, rfl, rfl, fun _ => id⟩
  | terminate =>
    simp only [FenceWaiter.step] at hs
    split at hs
    · obtain rfl := Option.some.inj hs
      exact still_beginTerminate
    · obtain rfl := Option.some.inj hs
      exact ⟨rfl, rfl, rfl, rfl, fun _ => id⟩
    · cases hs
  | delete =>
    simp only [FenceWaiter.step] at hs
    split at hs
    · obtain rfl := Option.some.inj hs
      exact still_beginTerminate
    · cases hs
  | joined =>
    simp only [FenceWaiter.step] at hs
    split at hs
    · obtain rfl := Option.some.inj hs
      exact ⟨rfl, rfl, rfl, rfl, fun _ => id⟩
    · obtain rfl := Option.some.inj hs
      exact ⟨rfl, rfl, rfl, rfl, fun _ => id⟩
    · cases hs
  | destroyed =>
    simp only [FenceWaiter.step] at hs
    split at hs
    · obtain rfl := Option.some.inj hs
      exact ⟨rfl, rfl, rfl, rfl, fun _ => id⟩
    · cases hs

theorem Ledger.step (h : Ledger w) (hc : Control w) {a : Label} (hs : w.step a = some v) : Ledger v := by
  by_cases ha : a.ofOthers = true
  case pos =>
    have hstill := still_of_step hs ha
    have herased : v.erased = w.erased := by rw [erased, hstill.thread, ← erased]
    exact h.of_eq hstill.waitSet herased hstill.isSignalled hstill.log hstill.signalled
  cases a with
  | addFence e valid =>
    obtain ⟨hnew, hs⟩ := Option.ite_none_right_eq_some.mp hs
    obtain rfl := Option.some.inj hs
    exact h.addFence (Bool.and_eq_true_iff.mp hnew).1 valid
  | thread answer => exact h.runThread hs
  | destroyEntry e => exact h.destroyEntry hc hs
  | _ => exact absurd rfl ha

/-- The thread moves, so the owner has not seen it end. -/
private theorem Control.move (h : Control w) (hne : w.thread ≠ .exited) (ho : v.owner = w.owner)
    (ht : v.terminate = w.terminate) (hd : v.draining = true → v.terminate = true)
    (he : v.thread = .exited → .tornDown ∈ v.log ∨ v.terminate = true ∧ v.waitSet = []) : Control v where
  terminated := hd
  ended := he
  idle hi hv := (hne (h.idle (ho ▸ hi) (ht ▸ hv))).elim
  joining hj := by rw [ht]; exact h.joining (ho ▸ hj)
  destructing hj := (hne (h.destructing (ho ▸ hj))).elim
  destroyed hj := (hne (h.destructing (.inr (ho ▸ hj)))).elim

theorem Control.runThread (h : Control w) {answer : Bool} (hr : w.runThread answer = some v) : Control v := by
  cases moves_of_runThread hr with
  | moves t hne _ _ hd hx =>
    refine h.move hne rfl rfl (fun hv => (hd hv).elim id h.terminated) fun he => ?_
    obtain ⟨hdraining, hempty⟩ := hx he
    exact .inr ⟨h.terminated hdraining, hempty⟩
  | observes d entry set ht _ =>
    exact h.move (by simp [ht]) rfl rfl (fun hd => h.terminated (by simpa [draining, ht] using hd)) (by simp)
  | erases d ht =>
    exact h.move (by simp [ht]) rfl rfl (fun hd => h.terminated (by simpa [draining, ht] using hd)) (by simp)
  | tearsDown hne _ =>
    exact h.move hne rfl rfl (fun hd => by cases hd) fun _ => .inl (List.mem_append_right _ (by simp))

/-- An owner that terminates the waiter finds it terminated, and then ended, or joins the thread. -/
private theorem Control.beginTerminate (h : Control w) (hi : w.owner = .idle) {owner finished : WaiterOwner}
    (ho : owner = .terminating ∨ owner = .deleting) (hf : finished = .idle ∨ finished = .destructing) :
    Control (w.beginTerminate owner finished) := by
  unfold FenceWaiter.beginTerminate
  split
  next ht =>
    have hx := h.idle hi ht
    refine ⟨h.terminated, h.ended, fun _ _ => hx, fun _ => ht, fun _ => hx, fun hd => ?_⟩
    rcases hf with rfl | rfl <;> cases hd
  next ht =>
    have hne : w.thread = .exited → .tornDown ∈ w.log := fun hx => (h.ended hx).resolve_right fun h => ht h.1
    refine ⟨fun _ => rfl, fun hx => .inl (hne hx), fun hi => ?_, fun _ => rfl, fun hd => ?_, fun hd => ?_⟩ <;>
      rcases ho with rfl | rfl <;> simp_all

/-- Once the waiter is terminated the wait set does not grow. -/
private theorem Control.addFence (h : Control w) (ho : w.owner ≠ .destroyed) (e : Nat) (valid : Bool) :
    Control (w.addFence e valid).2 := by
  have refuse : Control (w.record (.refused e)) :=
    ⟨h.terminated, fun hx => (h.ended hx).imp_left (List.mem_append_left _), h.idle, h.joining,
      h.destructing, h.destroyed⟩
  unfold FenceWaiter.addFence
  split
  · exact refuse
  split
  · exact refuse
  next ht =>
    refine ⟨h.terminated, fun hx => ?_, h.idle, h.joining, h.destructing, fun hd => (ho hd).elim⟩
    exact .inl (List.mem_append_left _ ((h.ended hx).resolve_right fun hx => ht hx.1))

private theorem Control.destroyEntry (h : Control w) {e : Nat} (hr : w.destroyEntry e = some v) :
    Control v := by
  cases destroys_of_destroyEntry hr with
  | erased d set ht _ =>
    exact h.move (by simp [ht]) rfl rfl (fun hd => h.terminated (by simpa [draining, record, ht] using hd))
      (by simp [record])
  | waiting _ hmem =>
    have hne : w.waitSet ≠ [] := List.ne_nil_of_mem hmem
    refine ⟨h.terminated, fun hx => ?_, h.idle, h.joining, h.destructing, fun hd => ?_⟩
    · exact .inl (List.mem_append_left _ ((h.ended hx).resolve_right fun hx => hne hx.2))
    · exact (hne (h.destroyed hd)).elim

theorem Control.step (h : Control w) {a : Label} (hs : w.step a = some v) : Control v := by
  cases a with
  | addFence e valid =>
    simp only [FenceWaiter.step] at hs
    split at hs
    next hn =>
      obtain rfl := Option.some.inj hs
      exact h.addFence (by simp_all) e valid
    next => cases hs
  | thread answer => exact h.runThread hs
  | destroyEntry e => exact h.destroyEntry hs
  | signal e =>
    obtain rfl := Option.some.inj hs
    exact ⟨h.terminated, h.ended, h.idle, h.joining, h.destructing, h.destroyed⟩
  | loseDeviceHolder =>
    obtain rfl := Option.some.inj hs
    exact ⟨h.terminated, h.ended, h.idle, h.joining, h.destructing, h.destroyed⟩
  | terminate =>
    simp only [FenceWaiter.step] at hs
    split at hs
    next ho => exact Option.some.inj hs ▸ h.beginTerminate ho (.inl rfl) (.inl rfl)
    next => exact Option.some.inj hs ▸ h
    next => cases hs
  | delete =>
    simp only [FenceWaiter.step] at hs
    split at hs
    next ho => exact Option.some.inj hs ▸ h.beginTerminate ho (.inr rfl) (.inr rfl)
    next => cases hs
  | joined =>
    simp only [FenceWaiter.step] at hs
    split at hs
    next ho ht =>
      obtain rfl := Option.some.inj hs
      exact ⟨h.terminated, h.ended, fun _ _ => ht, by simp, by simp, by simp⟩
    next ho ht =>
      obtain rfl := Option.some.inj hs
      exact ⟨h.terminated, h.ended, by simp, by simp, fun _ => ht, by simp⟩
    next => cases hs
  | destroyed =>
    simp only [FenceWaiter.step] at hs
    split at hs
    next hd =>
      obtain rfl := Option.some.inj hs
      exact ⟨h.terminated, h.ended, by simp, by simp, fun _ => h.destructing (.inl hd.1), fun _ => hd.2⟩
    next => cases hs

theorem run_delivers {labels : List Label} (hr : machine.run labels = some w) : Ledger w ∧ Control w :=
  Machine.invariant (M := machine) (I := fun w => Ledger w ∧ Control w)
    (fun _ _ _ h hs => ⟨h.1.step h.2 hs, h.2.step hs⟩) ⟨ledger_init, control_init⟩ hr

/-- The callback of a fence that was accepted is invoked once by the time the
waiter is destroyed, never twice, and not before the fence was observed signalled
unless the thread has torn itself down; that of a refused fence is not invoked. -/
theorem callbacks_exactly_once {labels : List Label} (hr : machine.run labels = some w) (e : Nat) :
    (w.owner = .destroyed → .accepted e ∈ w.log → w.log.count (.invokedCallback e) = 1) ∧
      w.log.count (.invokedCallback e) ≤ 1 ∧
      (.refused e ∈ w.log → .invokedCallback e ∉ w.log) ∧
      (∀ before after, w.log = before ++ .invokedCallback e :: after →
        .observedSignalled e ∈ before ∨ .tornDown ∈ before) ∧
      (.observedSignalled e ∈ w.log → w.signalled e = true) := by
  obtain ⟨h, hc⟩ := run_delivers hr
  have hcons := h.conserved e
  have hasked := h.asked e
  refine ⟨fun hd ha => ?_, by omega, fun hrefused hinvoked => ?_, fun before after hl => ?_, h.genuine e⟩
  · have hset : w.waitSet = [] := hc.destroyed hd
    have hthread : w.thread = .exited := hc.destructing (.inr hd)
    have hpos := List.count_pos_iff.mpr ha
    simp only [hset, erased, hthread, List.count_nil] at hcons
    omega
  · have := List.count_pos_iff.mpr hrefused
    have := List.count_pos_iff.mpr hinvoked
    omega
  · exact h.ordered before _ after hl e rfl

/-- One fence is signalled and retired, one is left to the destructor by an error of the device. -/
def runWithError : List Label :=
  [.addFence 0 true, .thread true, .thread true, .thread true, .signal 0, .thread true, .thread true,
    .thread true, .thread true, .destroyEntry 0, .thread true, .addFence 1 true, .thread true, .thread true,
    .thread true, .thread false, .delete, .joined, .destroyEntry 1, .destroyed]

theorem callbacks_exactly_once_on_error : ∃ w, machine.run runWithError = some w ∧ w.owner = .destroyed ∧
    .tornDown ∈ w.log ∧ w.log.count (.invokedCallback 0) = 1 ∧ w.log.count (.invokedCallback 1) = 1 := by
  have hr : machine.run runWithError = some _ := rfl
  exact ⟨_, hr, rfl, by decide, (callbacks_exactly_once hr 0).1 rfl (by decide),
    (callbacks_exactly_once hr 1).1 rfl (by decide)⟩

end Ogre.Hal.FenceWaiter
