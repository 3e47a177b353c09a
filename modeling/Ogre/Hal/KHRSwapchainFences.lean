import Ogre.Hal.KHRSwapchain

/-! Which fences `AcquireNextDrawable` waits on: a frame comes back with a fence that
nothing will signal if it was left with its fence reset and nothing submitted. -/
namespace Ogre.Hal
open Ogre.Library

/-- The fence is signalled, or it is that of a submission since it was last reset. -/
def VkFence.alive (fence : VkFence) : Bool := fence.signalled || fence.submitted

namespace Frame

theorem next_ne (frame : Frame) : frame.next ≠ frame := by revert frame; decide

/-- The ring has two frames. -/
@[simp] theorem next_next (frame : Frame) : frame.next.next = frame := by revert frame; decide

end Frame

namespace KHRSwapchainImpl
variable {s t u : KHRSwapchainImpl} {a : Label} {labels : List Label} {images : Nat}

/-- A wait that is going on can return. -/
def WaitsAlive (s : KHRSwapchainImpl) : Prop := s.waiting = true → s.sync.acquire.alive = true

/-- The acquisition that leaves a frame with its fence reset, and nothing submitted
with it since, is the last one. -/
def LeavesAlive (s : KHRSwapchainImpl) (a : Label) (rest : List Label) : Prop :=
  a = .beginAcquire true → s.sync.acquire.alive = false → .beginAcquire true ∉ rest

instance (s : KHRSwapchainImpl) (a : Label) (rest : List Label) : Decidable (s.LeavesAlive a rest) :=
  inferInstanceAs (Decidable (_ → _ → _))

/-- The frame that the next acquisition will wait for. -/
def nextSync (s : KHRSwapchainImpl) : KHRFrameSynchronizer := s.synchronizers s.currentFrame.next

/-- A step on the current frame, after which no call waits. -/
structure OnCurrent (s t : KHRSwapchainImpl) : Prop where
  frame : t.currentFrame = s.currentFrame
  others : ∀ frame ≠ s.currentFrame, t.synchronizers frame = s.synchronizers frame
  waiting : t.waiting = false

theorem OnCurrent.nextSync (h : OnCurrent s t) : t.nextSync = s.nextSync := by
  unfold KHRSwapchainImpl.nextSync
  rw [h.frame, h.others _ (Frame.next_ne _)]

private theorem setSync_others (sync : KHRFrameSynchronizer) {frame : Frame} (h : frame ≠ s.currentFrame) :
    (s.setSync sync).synchronizers frame = s.synchronizers frame := Function.update_of_ne h _ _

theorem waitForFence_onCurrent {wait reset : Bool} {r : Bool × KHRSwapchainImpl} (hw : s.waiting = false)
    (h : s.waitForFence wait reset = some r) : OnCurrent s r.2 := by
  unfold waitForFence at h
  split at h
  · exact Option.some.inj h ▸ ⟨rfl, fun _ _ => rfl, hw⟩
  split at h
  · cases h
  split at h
  · exact Option.some.inj h ▸ ⟨rfl, fun _ _ => rfl, hw⟩
  · exact Option.some.inj h ▸ ⟨rfl, fun _ hf => setSync_others _ hf, hw⟩

theorem finishAcquire_onCurrent {answers : AcquireAnswers} {r : AcquireResult × KHRSwapchainImpl}
    (h : s.finishAcquire answers = some r) : OnCurrent s r.2 := by
  obtain ⟨⟨ok, v⟩, hv, rfl⟩ := Option.map_eq_some_iff.mp h
  have hcur := waitForFence_onCurrent rfl hv
  have hcur : OnCurrent s v := ⟨hcur.frame, hcur.others, hcur.waiting⟩
  dsimp only
  split
  · exact hcur
  split
  · split
    · exact hcur
    · exact ⟨hcur.frame, hcur.others, hcur.waiting⟩
  · exact hcur
  · exact hcur
  · exact hcur

theorem present_onCurrent (hw : s.waiting = false) (surface : Nat) (answers : PresentAnswers) :
    OnCurrent s (s.present surface answers).2 := by
  unfold present
  split
  · exact ⟨rfl, fun _ _ => rfl, hw⟩
  dsimp only
  generalize (if s.sync.hasOnscreen then s.sync.finalCmdBuffer else answers.createCommandBuffer) = final
  have hset : OnCurrent s (s.setSync { s.sync with finalCmdBuffer := final, hasOnscreen := false }) :=
    ⟨rfl, fun _ hf => setSync_others _ hf, hw⟩
  cases final with
  | none => exact hset
  | some cmdBuffer =>
    dsimp only
    split
    · exact hset
    split
    · exact hset
    · exact ⟨rfl, fun _ hf => (setSync_others (s := s.setSync _) _ hf).trans (setSync_others _ hf), hw⟩

/-- Until the next acquisition, nothing but a signal happens to the frame it will wait for. -/
theorem step_nextSync (hs : s.step a = some t) (ha : a ≠ .beginAcquire true) (hw : s.WaitsAlive) :
    t.nextSync.acquire.alive = s.nextSync.acquire.alive ∧ t.currentFrame = s.currentFrame ∧ t.WaitsAlive := by
  have current (h : OnCurrent s t) : t.nextSync.acquire.alive = s.nextSync.acquire.alive ∧
      t.currentFrame = s.currentFrame ∧ t.WaitsAlive :=
    ⟨by rw [h.nextSync], h.frame, fun hw => by simp [h.waiting] at hw⟩
  cases a with
  | beginAcquire context =>
    cases context with
    | true => exact (ha rfl).elim
    | false =>
      simp only [step] at hs
      split at hs
      · cases hs
      · exact Option.some.inj hs ▸ ⟨rfl, rfl, hw⟩
  | finishAcquire answers =>
    simp only [step] at hs
    split at hs
    · obtain ⟨r, hr, rfl⟩ := Option.map_eq_some_iff.mp hs
      exact current (finishAcquire_onCurrent hr)
    · cases hs
  | addFinalCommandBuffer cmdBuffer =>
    simp only [step] at hs
    split at hs
    · cases hs
    next hn =>
      obtain rfl := Option.some.inj hs
      exact current ⟨rfl, fun _ hf => setSync_others _ hf, Bool.eq_false_iff.mpr hn⟩
  | present surface answers =>
    simp only [step] at hs
    split at hs
    next hn => exact current (Option.some.inj hs ▸ present_onCurrent (by simp_all) surface answers)
    next => cases hs
  | signal frame =>
    simp only [step] at hs
    split at hs
    next hsub =>
      obtain rfl := Option.some.inj hs
      have hsame (f : Frame) : (Function.update s.synchronizers frame
          { s.synchronizers frame with acquire.signalled := true } f).acquire.alive =
          (s.synchronizers f).acquire.alive := by
        by_cases hf : f = frame
        · subst hf
          simp [VkFence.alive, hsub]
        · rw [Function.update_of_ne hf]
      exact ⟨hsame _, rfl, fun hn => (hsame _).trans (hw hn)⟩
    next => cases hs

/-- An acquisition waits for the frame that was next, and the one that it leaves is next. -/
theorem step_beginAcquire (hs : s.step (.beginAcquire true) = some t) :
    (t.WaitsAlive ↔ s.nextSync.acquire.alive = true) ∧ t.nextSync = s.sync := by
  simp only [step] at hs
  split at hs
  · cases hs
  · obtain rfl := Option.some.inj hs
    simp [beginAcquire, WaitsAlive, sync, nextSync]

/-- By induction on the labels: a dead fence of the frame that is next is met by the
next acquisition, one of the frame that is left by the acquisition after that. -/
theorem alongWith_iff (hw : s.WaitsAlive) (hr : (machine images).runFrom s labels = some u) :
    (machine images).Along (fun _ _ t => t.WaitsAlive) s labels ↔
      (s.nextSync.acquire.alive = false → .beginAcquire true ∉ labels) ∧
        (machine images).AlongWith LeavesAlive s labels := by
  induction labels generalizing s with
  | nil => simp [Machine.AlongWith]
  | cons a labels ih =>
    obtain ⟨t, ht, hrt⟩ := Machine.runFrom_cons_some.mp hr
    rw [Machine.along_cons ht, Machine.alongWith_cons ht]
    by_cases ha : a = .beginAcquire true
    · subst ha
      obtain ⟨hwait, hnext⟩ := step_beginAcquire ht
      have hdead : (s.nextSync.acquire.alive = false → Label.beginAcquire true ∉ .beginAcquire true :: labels) ↔
          s.nextSync.acquire.alive = true := by simp
      have hleave : s.LeavesAlive (.beginAcquire true) labels ↔
          (s.sync.acquire.alive = false → .beginAcquire true ∉ labels) := by simp [LeavesAlive]
      rw [hwait, hdead, hleave]
      refine and_congr_right fun halive => ?_
      rw [ih (hwait.mpr halive) hrt, hnext]
    · obtain ⟨hnext, -, hwt⟩ := step_nextSync ht ha hw
      have hleave : s.LeavesAlive a labels := fun h => (ha h).elim
      have hmem : Label.beginAcquire true ∉ a :: labels ↔ .beginAcquire true ∉ labels := by
        simp [Ne.symm ha]
      rw [ih hwt hrt, hnext, hmem]
      simp [hwt, hleave]

/-- `AcquireNextDrawable` waits only on fences that are signalled or were submitted since
their reset if and only if no acquisition but the last leaves a frame with neither. -/
theorem waits_alive_iff (hr : (machine images).run labels = some u) :
    (machine images).Along (fun _ _ t => t.WaitsAlive) (machine images).init labels ↔
      (machine images).AlongWith LeavesAlive (machine images).init labels := by
  have hinit : (machine images).init.nextSync.acquire.alive = true := rfl
  rw [alongWith_iff (fun h => by cases h) hr, hinit]
  simp

/-- Two frames, each acquired, presented and signalled. -/
def runPresented : List Label :=
  [.beginAcquire true, .finishAcquire ⟨true, true, .eSuccess, 0⟩, .present 0 ⟨true, some 7, true, true⟩,
    .signal ⟨0, by decide⟩, .beginAcquire true, .finishAcquire ⟨true, true, .eSuccess, 1⟩,
    .present 1 ⟨true, some 8, true, true⟩, .beginAcquire true, .finishAcquire ⟨true, true, .eSuccess, 2⟩]

theorem waits_alive_iff_presented : ∃ s, (machine 3).run runPresented = some s ∧
    (machine 3).Along (fun _ _ t => t.WaitsAlive) (machine 3).init runPresented := by
  have hr : (machine 3).run runPresented = some _ := rfl
  exact ⟨_, hr, (waits_alive_iff hr).mpr (by decide)⟩

/-- The first surface is dropped. -/
def runDropped : List Label :=
  [.beginAcquire true, .finishAcquire ⟨true, true, .eSuccess, 0⟩, .beginAcquire true,
    .finishAcquire ⟨true, true, .eSuccess, 1⟩, .present 1 ⟨true, some 7, true, true⟩, .beginAcquire true]

/-- The third acquisition waits for a fence that was reset and never submitted. -/
theorem dropped_surface_blocks : ∃ s, (machine 3).run runDropped = some s ∧ ¬ s.WaitsAlive :=
  ⟨_, rfl, by unfold WaitsAlive; decide⟩

end KHRSwapchainImpl
end Ogre.Hal
