import Ogre.Hal.AHBTextureOwners
import Ogre.Hal.FinalCommandBuffers
import Ogre.Hal.KHRFramePairing

/-! The final command buffers of both swapchains, for clients that hold one surface at a time. -/
namespace Ogre.Hal
open Ogre.Library FinalEvent

namespace KHRSwapchainImpl
variable {s t : KHRSwapchainImpl} {a : Label} {labels : List Label} {images : Nat} {events : List FinalEvent}

/-- A `Present` submits a buffer that it creates, unless the current frame has one. -/
def finalEvent (s : KHRSwapchainImpl) : SwapchainEvent → Option FinalEvent
  | .reset _ => none
  | .acquired surface _ => some (.acquired surface)
  | .submitted surface _ cmdBuffer => some (.submitted surface cmdBuffer !s.sync.hasOnscreen)

/-- What the log of `t` has that the log of `s` has not. -/
def logged (s t : KHRSwapchainImpl) : List FinalEvent := (t.log.drop s.log.length).filterMap s.finalEvent

def finalEvents (s : KHRSwapchainImpl) (a : Label) (t : KHRSwapchainImpl) (events : List FinalEvent) :
    List FinalEvent :=
  match a with
  | .beginAcquire _ => events ++ [.released]
  | .addFinalCommandBuffer cmdBuffer => events ++ [.added cmdBuffer]
  | .finishAcquire _ | .present _ _ | .signal _ => events ++ s.logged t

def presentsHeld (s : KHRSwapchainImpl × List FinalEvent) : Label → Bool
  | .present surface _ => outstanding s.2 == some surface
  | _ => true

/-- The swapchain with the calls of its client, which presents the surface that it holds. -/
def finalMachine (images : Nat) : Machine (KHRSwapchainImpl × List FinalEvent) Label :=
  ((machine images).withHistory [] finalEvents).restrict presentsHeld

/-- What a `Present` takes from the current frame and submits was added for its surface. -/
def AddsFinal (s : KHRSwapchainImpl × List FinalEvent) (a : Label) (_ : KHRSwapchainImpl × List FinalEvent) : Prop :=
  match a with
  | .present _ answers => s.1.submits answers → s.1.sync.hasOnscreen → AddsFresh s.2
  | _ => True

private theorem logged_of_log (log : List SwapchainEvent) (h : t.log = s.log ++ log) :
    s.logged t = log.filterMap s.finalEvent := by
  rw [logged, h, List.drop_left]

private theorem logged_of_eq (h : t.log = s.log) : s.logged t = [] := by
  rw [logged, h, List.drop_length, List.filterMap_nil]

private theorem sync_setSync (sync : KHRFrameSynchronizer) : (s.setSync sync).sync = sync := Function.update_self ..

/-- An acquisition leaves the buffer of its frame alone, and is for a new surface or for none. -/
private theorem finishAcquire_final {answers : AcquireAnswers} {r : AcquireResult × KHRSwapchainImpl}
    (h : s.finishAcquire answers = some r) :
    r.2.sync.finalCmdBuffer = s.sync.finalCmdBuffer ∧ r.2.sync.hasOnscreen = s.sync.hasOnscreen ∧
      (r.2.surfaces = s.surfaces ∧ s.logged r.2 = [] ∨
        r.2.surfaces = s.surfaces + 1 ∧ s.logged r.2 = [.acquired s.surfaces]) := by
  obtain ⟨⟨ok, v⟩, hv, rfl⟩ := Option.map_eq_some_iff.mp h
  unfold waitForFence at hv
  split at hv
  · obtain ⟨rfl, rfl⟩ := Prod.mk.inj (Option.some.inj hv)
    exact ⟨rfl, rfl, .inl ⟨rfl, logged_of_eq rfl⟩⟩
  · split at hv
    · cases hv
    · split at hv
      · obtain ⟨rfl, rfl⟩ := Prod.mk.inj (Option.some.inj hv)
        exact ⟨rfl, rfl, .inl ⟨rfl, logged_of_eq rfl⟩⟩
      · obtain ⟨rfl, rfl⟩ := Prod.mk.inj (Option.some.inj hv)
        have hreset {t : KHRSwapchainImpl} (ht : t.log = s.log ++ [.reset s.currentFrame]) : s.logged t = [] :=
          logged_of_log [.reset s.currentFrame] ht
        simp only [Bool.not_true, Bool.false_eq_true, if_false]
        cases answers.acquire with
        | eSuccess =>
          simp only
          split
          · exact ⟨by simp [sync, record, setSync], by simp [sync, record, setSync], .inl ⟨rfl, hreset rfl⟩⟩
          · refine ⟨by simp [sync, record, setSync], by simp [sync, record, setSync], .inr ⟨rfl, ?_⟩⟩
            apply logged_of_log [.reset s.currentFrame, .acquired s.surfaces s.currentFrame]
            simp [record, setSync]
        | eSuboptimalKHR =>
          exact ⟨by simp [sync, record, setSync], by simp [sync, record, setSync], .inl ⟨rfl, hreset rfl⟩⟩
        | eErrorOutOfDateKHR =>
          exact ⟨by simp [sync, record, setSync], by simp [sync, record, setSync], .inl ⟨rfl, hreset rfl⟩⟩
        | eErrorDeviceLost =>
          exact ⟨by simp [sync, record, setSync], by simp [sync, record, setSync], .inl ⟨rfl, hreset rfl⟩⟩

/-- A `Present` with a context takes the buffer of the frame, whether it submits it or not. -/
private theorem present_final (surface : Nat) (answers : PresentAnswers) :
    (s.present surface answers).2.surfaces = s.surfaces ∧
      (s.submits answers = false ∧ s.logged (s.present surface answers).2 = [] ∧
        ((s.present surface answers).2.sync.hasOnscreen →
          s.sync.hasOnscreen ∧ (s.present surface answers).2.sync.finalCmdBuffer = s.sync.finalCmdBuffer) ∨
      s.submits answers ∧ (s.present surface answers).2.sync.hasOnscreen = false ∧ ∃ cmdBuffer,
        s.logged (s.present surface answers).2 = [.submitted surface cmdBuffer !s.sync.hasOnscreen] ∧
          (s.sync.hasOnscreen → s.sync.finalCmdBuffer = some cmdBuffer)) := by
  unfold present submits
  cases answers.context with
  | false => exact ⟨rfl, .inl ⟨rfl, logged_of_eq rfl, fun h => ⟨h, rfl⟩⟩⟩
  | true =>
    simp only [Bool.not_true, Bool.false_eq_true, if_false]
    cases hfinal : (if s.sync.hasOnscreen then s.sync.finalCmdBuffer else answers.createCommandBuffer) with
    | none => exact ⟨rfl, .inl ⟨rfl, logged_of_eq rfl, by simp [sync_setSync]⟩⟩
    | some cmdBuffer =>
      cases answers.endCommandBuffer with
      | false => exact ⟨rfl, .inl ⟨rfl, logged_of_eq rfl, by simp [sync_setSync]⟩⟩
      | true =>
        cases answers.submit with
        | false => exact ⟨rfl, .inl ⟨rfl, logged_of_eq rfl, by simp [sync_setSync]⟩⟩
        | true =>
          refine ⟨rfl, .inr ⟨rfl, by simp [sync, record, setSync], cmdBuffer, ?_, fun hon => ?_⟩⟩
          · exact logged_of_log [.submitted surface s.currentFrame cmdBuffer] rfl
          · rwa [if_pos hon] at hfinal

private theorem step_linked (h : Linked events s.surfaces s.sync.finalCmdBuffer s.sync.hasOnscreen)
    (ha : presentsHeld (s, events) a) (hs : s.step a = some t) :
    Linked (finalEvents s a t events) t.surfaces t.sync.finalCmdBuffer t.sync.hasOnscreen ∧
      (Fresh (finalEvents s a t events) ↔ Fresh events ∧ AddsFinal (s, events) a (t, finalEvents s a t events)) := by
  cases a with
  | beginAcquire context =>
    simp only [step, Option.ite_none_left_eq_some, Option.some.injEq] at hs
    obtain ⟨-, rfl⟩ := hs
    have hsurfaces : (s.beginAcquire context).surfaces = s.surfaces := by cases context <;> rfl
    rw [hsurfaces]
    exact ⟨h.release, (fresh_concat_of_none rfl).trans (and_iff_left trivial).symm⟩
  | finishAcquire answers =>
    simp only [step, Option.ite_none_right_eq_some, Option.map_eq_some_iff] at hs
    obtain ⟨-, r, hr, rfl⟩ := hs
    obtain ⟨hfinal, honscreen, ⟨hsurfaces, hlog⟩ | ⟨hsurfaces, hlog⟩⟩ := finishAcquire_final hr
    · simp only [finalEvents, hlog, List.append_nil, hsurfaces, hfinal, honscreen]
      exact ⟨h, (and_iff_left trivial).symm⟩
    · simp only [finalEvents, hlog, hsurfaces]
      exact ⟨h.acquire, (fresh_concat_of_none rfl).trans (and_iff_left trivial).symm⟩
  | addFinalCommandBuffer cmdBuffer =>
    simp only [step, Option.ite_none_left_eq_some, Option.some.injEq] at hs
    obtain ⟨-, rfl⟩ := hs
    have hfinal : (s.addFinalCommandBuffer cmdBuffer).sync.finalCmdBuffer = some cmdBuffer := by
      simp [addFinalCommandBuffer, sync, setSync]
    rw [hfinal]
    exact ⟨h.add, (fresh_concat_of_none rfl).trans (and_iff_left trivial).symm⟩
  | present surface answers =>
    simp only [step, Option.ite_none_right_eq_some, Option.some.injEq] at hs
    obtain ⟨-, rfl⟩ := hs
    have hheld : outstanding events = some surface := by simpa [presentsHeld] using ha
    obtain ⟨hsurfaces, ⟨hn, hlog, hsame⟩ | ⟨hy, honscreen, cmdBuffer, hlog, hfinal⟩⟩ :=
      present_final (s := s) surface answers
    · simp only [finalEvents, hlog, List.append_nil, hsurfaces, AddsFinal, hn]
      exact ⟨h.mono hsame, by simp⟩
    · simp only [finalEvents, hlog, hsurfaces, honscreen, AddsFinal, hy, forall_const]
      refine ⟨h.submit (by simp), ?_⟩
      cases hon : s.sync.hasOnscreen with
      | false => exact (fresh_concat_of_none rfl).trans (and_iff_left (by simp)).symm
      | true =>
        rw [hon, hfinal hon] at h
        simpa using h.fresh_iff hheld
  | signal frame =>
    simp only [step, Option.ite_none_right_eq_some, Option.some.injEq] at hs
    obtain ⟨-, rfl⟩ := hs
    simp only [finalEvents, logged_of_eq, List.append_nil]
    refine ⟨?_, (and_iff_left trivial).symm⟩
    rcases eq_or_ne s.currentFrame frame with rfl | hne
    · simpa [sync] using h
    · simpa [sync, Function.update_of_ne hne] using h

/-- In every run the buffers are fresh if and only if each `Present` that takes one from its
frame had one added for its surface. -/
theorem finalBuffers_iff {s : KHRSwapchainImpl × List FinalEvent} (hr : (finalMachine images).run labels = some s) :
    Fresh s.2 ↔ (finalMachine images).Along AddsFinal (finalMachine images).init labels := by
  let I (s : KHRSwapchainImpl × List FinalEvent) : Prop :=
    Linked s.2 s.1.surfaces s.1.sync.finalCmdBuffer s.1.sync.hasOnscreen
  have hi : I (finalMachine images).init := linked_nil
  have hkept := Machine.kept_iff_along_withHistory (I := I) (G := fun s => Fresh s.2) (C := AddsFinal)
    (fun _ _ _ _ h ha hs => step_linked h ha hs) hi hr
  exact hkept.trans (and_iff_right fresh_nil)

end KHRSwapchainImpl

namespace AHBSwapchainImpl
variable {s t : AHBSwapchainImpl} {a : Label} {labels : List Label} {isValid : Bool} {events : List FinalEvent}

def finalEvent : AHBSwapchainEvent → Option FinalEvent
  | .reset _ => none
  | .acquired surface _ => some (.acquired surface)
  | .submitted surface _ cmdBuffer => some (.submitted surface cmdBuffer false)

/-- What the log of `t` has that the log of `s` has not. -/
def logged (s t : AHBSwapchainImpl) : List FinalEvent := (t.log.drop s.log.length).filterMap finalEvent

def finalEvents (s : AHBSwapchainImpl) (a : Label) (t : AHBSwapchainImpl) (events : List FinalEvent) :
    List FinalEvent :=
  match a with
  | .acquireNextDrawable _ => events ++ [.released] ++ s.logged t
  | .addFinalCommandBuffer cmdBuffer => events ++ [.added cmdBuffer]
  | .dropSurface surface => if outstanding events == some surface then events ++ [.released] else events
  | .present _ _ | .complete _ _ | .signal _ | .destroy | .loseControl => events ++ s.logged t

def presentsHeld (s : AHBSwapchainImpl × List FinalEvent) : Label → Bool
  | .present surface _ => outstanding s.2 == some surface
  | _ => true

/-- The swapchain with the calls of its client, which presents the surface that it holds. -/
def finalMachine (isValid : Bool) : Machine (AHBSwapchainImpl × List FinalEvent) Label :=
  ((machine isValid).withHistory [] finalEvents).restrict presentsHeld

/-- Nothing stops a `Present` before its submission has succeeded. -/
def submits (s : AHBSwapchainImpl) (a : PresentAnswers) : Bool :=
  s.alive && s.controlAlive && a.control && a.context && a.semaphore && s.sync.finalCmdBuffer.isSome &&
    a.endCommandBuffer && a.submit

/-- What a `Present` submits was added for its surface. -/
def AddsFinal (s : AHBSwapchainImpl × List FinalEvent) (a : Label) (_ : AHBSwapchainImpl × List FinalEvent) : Prop :=
  match a with
  | .present _ answers => s.1.submits answers → AddsFresh s.2
  | _ => True

private theorem logged_of_log (log : List AHBSwapchainEvent) (h : t.log = s.log ++ log) :
    s.logged t = log.filterMap finalEvent := by
  rw [logged, h, List.drop_left]

private theorem logged_of_eq (h : t.log = s.log) : s.logged t = [] := by
  rw [logged, h, List.drop_length, List.filterMap_nil]

private theorem sync_setSync (sync : AHBFrameSynchronizer) : (s.setSync sync).sync = sync := Function.update_self ..

/-- What is submitted is the buffer of the frame, which stays there. -/
private theorem submit_final (surface : Nat) (answers : PresentAnswers) {r : Bool × AHBSwapchainImpl}
    (h : s.submitSignalForPresentReady surface answers = r) :
    r.2.surfaces = s.surfaces ∧ r.2.sync.finalCmdBuffer = s.sync.finalCmdBuffer ∧
      (r.1 = false ∧ r.2.log = s.log ∨ r.1 = true ∧ ∃ cmdBuffer, s.sync.finalCmdBuffer = some cmdBuffer ∧
        r.2.log = s.log ++ [.submitted surface s.frameIndex cmdBuffer]) := by
  subst h
  unfold submitSignalForPresentReady
  split
  · exact ⟨rfl, rfl, .inl ⟨rfl, rfl⟩⟩
  · cases hfinal : s.sync.finalCmdBuffer with
    | none => exact ⟨rfl, hfinal, .inl ⟨rfl, rfl⟩⟩
    | some cmdBuffer =>
      cases answers.endCommandBuffer with
      | false => exact ⟨rfl, hfinal, .inl ⟨rfl, rfl⟩⟩
      | true =>
        cases answers.submit with
        | false =>
          refine ⟨rfl, ?_, .inl ⟨rfl, rfl⟩⟩
          simpa [sync_setSync] using hfinal
        | true =>
          refine ⟨rfl, ?_, .inr ⟨rfl, cmdBuffer, rfl, rfl⟩⟩
          simpa [sync, record, setSync] using hfinal

private theorem present_final (i : Nat) (surface : AHBSurface) (answers : PresentAnswers) :
    (s.present i surface answers).2.surfaces.length = s.surfaces.length ∧
      (s.present i surface answers).2.sync.finalCmdBuffer = s.sync.finalCmdBuffer ∧
      (s.submits answers = false ∧ s.logged (s.present i surface answers).2 = [] ∨
        s.submits answers ∧ ∃ cmdBuffer, s.sync.finalCmdBuffer = some cmdBuffer ∧
          s.logged (s.present i surface answers).2 = [.submitted i cmdBuffer false]) := by
  have hfst := submit_fst (s := s) (a := answers) i
  unfold present submits
  cases s.alive with
  | false => exact ⟨rfl, rfl, .inl ⟨rfl, logged_of_eq rfl⟩⟩
  | true =>
    cases hcontrol : s.controlAlive && answers.control with
    | false =>
      have hnot : (!s.controlAlive || !answers.control) = true := by rw [← Bool.not_and, hcontrol]; rfl
      rw [if_neg (by simp), if_pos hnot]
      exact ⟨rfl, rfl, .inl ⟨by simp only [Bool.true_and, hcontrol, Bool.false_and], logged_of_eq rfl⟩⟩
    | true =>
      have hyes : ¬(!s.controlAlive || !answers.control) = true := by simp [← Bool.not_and, hcontrol]
      rw [if_neg (by simp), if_neg hyes]
      simp only [hcontrol, Bool.true_and]
      generalize hr : s.submitSignalForPresentReady i answers = r at hfst
      obtain ⟨hsurfaces, hfinal, hlog⟩ := submit_final i answers hr
      obtain ⟨b, u⟩ := r
      rw [← hfst]
      have hpresented : ∀ t : AHBSwapchainImpl, t.surfaces.length = u.surfaces.length → t.sync = u.sync →
          t.log = u.log → t.surfaces.length = s.surfaces.length ∧ t.sync.finalCmdBuffer = s.sync.finalCmdBuffer ∧
          (b = false ∧ s.logged t = [] ∨ b = true ∧ ∃ cmdBuffer, s.sync.finalCmdBuffer = some cmdBuffer ∧
            s.logged t = [.submitted i cmdBuffer false]) := by
        intro t hts htsync htlog
        refine ⟨by rw [hts, hsurfaces], by rw [htsync, hfinal], ?_⟩
        rcases hlog with ⟨hb, hlog⟩ | ⟨hb, cmdBuffer, hc, hlog⟩
        · exact .inl ⟨hb, logged_of_eq (htlog.trans hlog)⟩
        · exact .inr ⟨hb, cmdBuffer, hc, logged_of_log _ (htlog.trans hlog)⟩
      cases b with
      | false => exact hpresented u rfl rfl rfl
      | true =>
        cases answers.setContents with
        | false => exact hpresented u rfl rfl rfl
        | true =>
          cases answers.apply with
          | false => exact hpresented u rfl rfl rfl
          | true => exact hpresented _ (by simp) rfl rfl

/-- No surface is acquired, and nothing is submitted. -/
private def Silent (s t : AHBSwapchainImpl) : Prop :=
  t.surfaces = s.surfaces ∧ ∃ log, t.log = s.log ++ log ∧ log.filterMap finalEvent = []

private theorem silent_of_eq (hs : t.surfaces = s.surfaces) (hl : t.log = s.log) : s.Silent t :=
  ⟨hs, [], by simp [hl], rfl⟩

private theorem Silent.trans {u : AHBSwapchainImpl} (h : s.Silent t) (h' : t.Silent u) : s.Silent u := by
  obtain ⟨hs, log, hl, he⟩ := h
  obtain ⟨hs', log', hl', he'⟩ := h'
  exact ⟨hs'.trans hs, log ++ log', by rw [hl', hl, List.append_assoc], by rw [List.filterMap_append, he, he']; rfl⟩

private theorem silent_waitForFence {wait reset : Bool} {r : Bool × AHBSwapchainImpl}
    (h : s.waitForFence wait reset = some r) : s.Silent r.2 := by
  unfold waitForFence at h
  split at h
  · cases h
    exact silent_of_eq rfl rfl
  · split at h
    · cases h
    · split at h <;> cases h
      · exact silent_of_eq rfl rfl
      · exact ⟨rfl, [.reset s.frameIndex], rfl, rfl⟩

private theorem silent_pop (created : Bool) : s.Silent (s.pop created).2 := by
  unfold pop
  split
  · exact silent_of_eq rfl rfl
  · split
    · exact silent_of_eq rfl rfl
    · exact silent_of_eq rfl rfl

private theorem silent_importRenderReady (fence semaphore : Bool) : s.Silent (s.importRenderReady fence semaphore).2 := by
  unfold importRenderReady
  split
  · exact silent_of_eq rfl rfl
  · split
    · exact silent_of_eq rfl rfl
    · exact silent_of_eq rfl rfl

/-- An acquisition is for a new surface or for none. -/
private theorem acquire_final {answers : AcquireAnswers} {r : Option Nat × AHBSwapchainImpl}
    (h : s.acquireNextDrawable answers = some r) :
    r.2.surfaces.length = s.surfaces.length ∧ s.logged r.2 = [] ∨
      r.2.surfaces.length = s.surfaces.length + 1 ∧ s.logged r.2 = [.acquired s.surfaces.length] := by
  have hsilent {t : AHBSwapchainImpl} (ht : s.Silent t) :
      t.surfaces.length = s.surfaces.length ∧ s.logged t = [] ∨
        t.surfaces.length = s.surfaces.length + 1 ∧ s.logged t = [.acquired s.surfaces.length] := by
    obtain ⟨hs, log, hl, he⟩ := ht
    exact .inl ⟨congrArg List.length hs, (logged_of_log log hl).trans he⟩
  unfold acquireNextDrawable at h
  split at h
  · cases h
    exact hsilent (silent_of_eq rfl rfl)
  · obtain ⟨w, hw, hr⟩ := Option.map_eq_some_iff.mp h
    have hnext := silent_waitForFence hw
    have hwait : s.Silent w.2 := Silent.trans (silent_of_eq rfl rfl) hnext
    simp only at hr
    split at hr
    · cases hr
      exact hsilent hwait
    · have hpop := hwait.trans (silent_pop (s := w.2) answers.texture)
      split at hr
      next u hu =>
        cases hr
        rw [hu] at hpop
        exact hsilent hpop
      next entry u hu =>
        rw [hu] at hpop
        have himport := hpop.trans (silent_importRenderReady (s := u) entry.renderReadyFence answers.semaphore)
        split at hr
        next v hv =>
          cases hr
          rw [hv] at himport
          exact hsilent himport
        next v hv =>
          cases hr
          replace himport : s.Silent v := by rwa [hv] at himport
          obtain ⟨hs, log, hl, he⟩ := himport
          refine .inr ⟨by simp [wrapSwapchainImage, record, hs], ?_⟩
          have hlog : (v.wrapSwapchainImage entry.texture).log =
              s.log ++ (log ++ [.acquired s.surfaces.length v.frameIndex]) := by
            simp [wrapSwapchainImage, record, hl, hs]
          rw [logged_of_log _ hlog, List.filterMap_append, he]
          rfl

private theorem step_linked (h : Linked events s.surfaces.length s.sync.finalCmdBuffer true)
    (ha : presentsHeld (s, events) a) (hs : s.step a = some t) :
    Linked (finalEvents s a t events) t.surfaces.length t.sync.finalCmdBuffer true ∧
      (Fresh (finalEvents s a t events) ↔ Fresh events ∧ AddsFinal (s, events) a (t, finalEvents s a t events)) := by
  have hquiet (hl : s.logged t = []) (hn : t.surfaces.length = s.surfaces.length)
      (hf : t.sync.finalCmdBuffer = s.sync.finalCmdBuffer) :
      Linked (events ++ s.logged t) t.surfaces.length t.sync.finalCmdBuffer true ∧
        (Fresh (events ++ s.logged t) ↔ Fresh events ∧ True) := by
    rw [hl, hn, hf, List.append_nil]
    exact ⟨h, (and_iff_left trivial).symm⟩
  cases a with
  | acquireNextDrawable answers =>
    simp only [step, Option.ite_none_right_eq_some, Option.map_eq_some_iff] at hs
    obtain ⟨-, r, hr, rfl⟩ := hs
    rcases acquire_final hr with ⟨hn, hl⟩ | ⟨hn, hl⟩
    · simp only [finalEvents, hl, hn, List.append_nil]
      exact ⟨h.release, (fresh_concat_of_none rfl).trans (and_iff_left trivial).symm⟩
    · simp only [finalEvents, hl, hn]
      have hreleased : Linked (events ++ [.released]) s.surfaces.length none false := h.release
      refine ⟨hreleased.acquire, ?_⟩
      exact (fresh_concat_of_none rfl).trans ((fresh_concat_of_none rfl).trans (and_iff_left trivial).symm)
  | addFinalCommandBuffer cmdBuffer =>
    simp only [step, Option.ite_none_right_eq_some, Option.some.injEq] at hs
    obtain ⟨-, rfl⟩ := hs
    have hfinal : (s.addFinalCommandBuffer cmdBuffer).sync.finalCmdBuffer = some cmdBuffer := by
      simp [addFinalCommandBuffer, sync, setSync]
    rw [hfinal]
    exact ⟨h.add, (fresh_concat_of_none rfl).trans (and_iff_left trivial).symm⟩
  | present i answers =>
    obtain ⟨surface, -, hs⟩ := Option.bind_eq_some_iff.mp hs
    simp only [Option.ite_none_right_eq_some, Option.some.injEq] at hs
    obtain ⟨-, rfl⟩ := hs
    have hheld : outstanding events = some i := by simpa [presentsHeld] using ha
    obtain ⟨hn, hf, ⟨hno, hl⟩ | ⟨hy, cmdBuffer, hc, hl⟩⟩ := present_final (s := s) i surface answers
    · simpa [finalEvents, AddsFinal, hno] using hquiet hl hn hf
    · simp only [finalEvents, hl, hn, hf, AddsFinal, hy, forall_const]
      rw [hc] at h ⊢
      exact ⟨h.submit fun _ => ⟨rfl, rfl⟩, h.fresh_iff hheld⟩
  | complete i renderReadyFence =>
    obtain ⟨texture, -, rfl⟩ := Option.map_eq_some_iff.mp hs
    have hsame : ∀ u : AHBSwapchainImpl, u.log = s.log → u.surfaces = s.surfaces → u.sync = s.sync →
        (u.onTextureUpdatedOnSurfaceControl texture renderReadyFence).log = s.log ∧
          (u.onTextureUpdatedOnSurfaceControl texture renderReadyFence).surfaces = s.surfaces ∧
          (u.onTextureUpdatedOnSurfaceControl texture renderReadyFence).sync = s.sync := by
      intro u hl hs hsync
      unfold onTextureUpdatedOnSurfaceControl
      split
      · exact ⟨hl, hs, hsync⟩
      · split
        · exact ⟨hl, hs, hsync⟩
        · cases u.currentlyDisplayedTexture <;> exact ⟨hl, hs, hsync⟩
    obtain ⟨hl, hsurfaces, hsync⟩ := hsame { s with transactions := s.transactions.eraseIdx i } rfl rfl rfl
    exact hquiet (logged_of_eq hl) (congrArg List.length hsurfaces) (congrArg (·.finalCmdBuffer) hsync)
  | signal frame =>
    simp only [step, Option.ite_none_right_eq_some, Option.some.injEq] at hs
    obtain ⟨-, rfl⟩ := hs
    refine hquiet (logged_of_eq rfl) rfl ?_
    rcases eq_or_ne s.frameIndex frame with rfl | hne
    · simp [sync]
    · simp [sync, Function.update_of_ne hne]
  | dropSurface i =>
    obtain ⟨surface, -, rfl⟩ := Option.map_eq_some_iff.mp hs
    have hn : (s.surfaces.set i { surface with held := false }).length = s.surfaces.length := List.length_set
    simp only [finalEvents, hn]
    split
    · exact ⟨h.release, (fresh_concat_of_none rfl).trans (and_iff_left trivial).symm⟩
    · exact ⟨h, (and_iff_left trivial).symm⟩
  | destroy =>
    obtain rfl := Option.some.inj hs
    exact hquiet (logged_of_eq rfl) rfl rfl
  | loseControl =>
    obtain rfl := Option.some.inj hs
    exact hquiet (logged_of_eq rfl) rfl rfl

/-- In every run the buffers are fresh if and only if each `Present` that submits one had it
added for its surface. -/
theorem finalBuffers_iff {s : AHBSwapchainImpl × List FinalEvent} (hr : (finalMachine isValid).run labels = some s) :
    Fresh s.2 ↔ (finalMachine isValid).Along AddsFinal (finalMachine isValid).init labels := by
  let I (s : AHBSwapchainImpl × List FinalEvent) : Prop :=
    Linked s.2 s.1.surfaces.length s.1.sync.finalCmdBuffer true
  have hi : I (finalMachine isValid).init := linked_nil
  have hkept := Machine.kept_iff_along_withHistory (I := I) (G := fun s => Fresh s.2) (C := AddsFinal)
    (fun _ _ _ _ h ha hs => step_linked h ha hs) hi hr
  exact hkept.trans (and_iff_right fresh_nil)

end AHBSwapchainImpl

/-- What either swapchain submits is fresh in exactly the runs in which every `Present` that
submits from its slot is preceded by a buffer that was added for its surface. -/
theorem finalBuffers_fresh (images : Nat) (isValid : Bool) :
    (∀ labels s, (KHRSwapchainImpl.finalMachine images).run labels = some s →
      (Fresh s.2 ↔ (KHRSwapchainImpl.finalMachine images).Along KHRSwapchainImpl.AddsFinal
        (KHRSwapchainImpl.finalMachine images).init labels)) ∧
    ∀ labels s, (AHBSwapchainImpl.finalMachine isValid).run labels = some s →
      (Fresh s.2 ↔ (AHBSwapchainImpl.finalMachine isValid).Along AHBSwapchainImpl.AddsFinal
        (AHBSwapchainImpl.finalMachine isValid).init labels) :=
  ⟨fun _ _ => KHRSwapchainImpl.finalBuffers_iff, fun _ _ => AHBSwapchainImpl.finalBuffers_iff⟩

instance (events : List FinalEvent) : Decidable (AddsFresh events) :=
  inferInstanceAs (Decidable (∃ cmdBuffer ∈ pending events, cmdBuffer ∉ addedSubmissions events))

instance (s t : KHRSwapchainImpl × List FinalEvent) (a : KHRSwapchainImpl.Label) :
    Decidable (KHRSwapchainImpl.AddsFinal s a t) :=
  match a with
  | .present _ answers =>
    inferInstanceAs (Decidable (s.1.submits answers → s.1.sync.hasOnscreen → AddsFresh s.2))
  | .beginAcquire _ | .finishAcquire _ | .addFinalCommandBuffer _ | .signal _ => .isTrue trivial

instance (s t : AHBSwapchainImpl × List FinalEvent) (a : AHBSwapchainImpl.Label) :
    Decidable (AHBSwapchainImpl.AddsFinal s a t) :=
  match a with
  | .present _ answers => inferInstanceAs (Decidable (s.1.submits answers → AddsFresh s.2))
  | .acquireNextDrawable _ | .addFinalCommandBuffer _ | .complete _ _ | .signal _ | .dropSurface _ | .destroy |
    .loseControl => .isTrue trivial

/-- Three frames that are presented, the second one with a buffer that its `Present` creates.
`late` is added after the first `Present`, and `third` for the third surface. -/
def khrFrames (late third : List Nat) : List KHRSwapchainImpl.Label :=
  [.beginAcquire true, .finishAcquire ⟨true, true, .eSuccess, 0⟩, .addFinalCommandBuffer 7,
    .present 0 ⟨true, none, true, true⟩] ++ late.map .addFinalCommandBuffer ++
  [.signal ⟨0, Nat.zero_lt_two⟩, .beginAcquire true, .finishAcquire ⟨true, true, .eSuccess, 1⟩,
    .present 1 ⟨true, some 20, true, true⟩, .signal ⟨1, Nat.one_lt_two⟩, .beginAcquire true,
    .finishAcquire ⟨true, true, .eSuccess, 0⟩] ++ third.map .addFinalCommandBuffer ++
  [.present 2 ⟨true, some 21, true, true⟩]

/-- Three frames that are presented, with `third` added for the third surface. -/
def ahbFrames (third : List Nat) : List AHBSwapchainImpl.Label :=
  [.acquireNextDrawable {}, .addFinalCommandBuffer 7, .present 0 {}, .signal ⟨1, Nat.one_lt_two⟩,
    .acquireNextDrawable {}, .addFinalCommandBuffer 8, .present 1 {}, .signal ⟨0, Nat.zero_lt_two⟩,
    .acquireNextDrawable {}] ++ third.map .addFinalCommandBuffer ++ [.present 2 {}]

theorem finalBuffers_frames :
    (∃ s, (KHRSwapchainImpl.finalMachine 3).run (khrFrames [] [9]) = some s ∧
      addedSubmissions s.2 = [7, 9] ∧ Fresh s.2) ∧
    ∃ s, (AHBSwapchainImpl.finalMachine true).run (ahbFrames [9]) = some s ∧
      addedSubmissions s.2 = [7, 8, 9] ∧ Fresh s.2 := by
  have hkhr : (KHRSwapchainImpl.finalMachine 3).run (khrFrames [] [9]) = some _ := rfl
  have hahb : (AHBSwapchainImpl.finalMachine true).run (ahbFrames [9]) = some _ := rfl
  refine ⟨⟨_, hkhr, rfl, ?_⟩, _, hahb, rfl, ?_⟩
  · exact ((finalBuffers_fresh 3 true).1 _ _ hkhr).mpr (by decide +kernel)
  · exact ((finalBuffers_fresh 3 true).2 _ _ hahb).mpr (by decide +kernel)

/-- Without a buffer for the third surface, the one of the first surface is submitted again by
the one swapchain, and what was added after the first `Present` by the other. -/
theorem finalBuffers_stale :
    (∃ s, (KHRSwapchainImpl.finalMachine 3).run (khrFrames [9] []) = some s ∧
      .submitted 2 9 false ∈ s.2 ∧ ¬Fresh s.2) ∧
    ∃ s, (AHBSwapchainImpl.finalMachine true).run (ahbFrames []) = some s ∧
      addedSubmissions s.2 = [7, 8, 7] ∧ ¬Fresh s.2 := by
  have hkhr : (KHRSwapchainImpl.finalMachine 3).run (khrFrames [9] []) = some (_, [.released, .acquired 0, .added 7,
    .submitted 0 7 false, .added 9, .released, .acquired 1, .submitted 1 20 true, .released, .acquired 2] ++
    [.submitted 2 9 false]) := rfl
  have hahb : (AHBSwapchainImpl.finalMachine true).run (ahbFrames []) = some _ := rfl
  refine ⟨⟨_, hkhr, by decide, fun h => ?_⟩, _, hahb, rfl, fun h => ?_⟩
  · have hadded : FinalEvent.added 9 ∈ since 2 [.released, .acquired 0, .added 7, .submitted 0 7 false, .added 9,
        .released, .acquired 1, .submitted 1 20 true, .released, .acquired 2] := (fresh_concat.mp h).2.1
    revert hadded
    decide
  · have honce : [7, 8, 7].Nodup := h.once
    revert honce
    decide

end Ogre.Hal
