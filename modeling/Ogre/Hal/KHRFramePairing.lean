import Mathlib.Data.List.Infix
import Ogre.Hal.KHRSwapchainFences

/-! Which frame a surface is presented with: the one that is current when it is
presented, which need not be the one that it was acquired in. -/
namespace Ogre.Hal
open Ogre.Library

namespace SwapchainEvent

def frame : SwapchainEvent → Frame
  | reset frame | acquired _ frame | submitted _ frame _ => frame

/-- What the log has about the frame. -/
def on (log : List SwapchainEvent) (frame : Frame) : List SwapchainEvent := log.filter (·.frame = frame)

/-- A submission is for the acquisition that its frame was last used for: the semaphore that it
waits on was handed to that acquisition last, and the fence was not submitted since its reset. -/
def PairedAfter (log : List SwapchainEvent) : SwapchainEvent → Prop
  | submitted surface frame _ => [.reset frame, .acquired surface frame] <:+ on log frame
  | _ => True

end SwapchainEvent

namespace KHRSwapchainImpl
open SwapchainEvent
variable {s t u : KHRSwapchainImpl} {a : Label} {labels : List Label} {images : Nat}

/-- What is submitted in the step is submitted with the frame of its acquisition. -/
def Pairs (s : KHRSwapchainImpl) (_ : Label) (t : KHRSwapchainImpl) : Prop :=
  ∀ e ∈ t.log.drop s.log.length, PairedAfter s.log e

/-- Nothing stops a `Present` before its submission has succeeded. -/
def submits (s : KHRSwapchainImpl) (a : PresentAnswers) : Bool :=
  a.context && (if s.sync.hasOnscreen then s.sync.finalCmdBuffer else a.createCommandBuffer).isSome &&
    a.endCommandBuffer && a.submit

/-- How many calls of `AcquireNextDrawable` have begun with a context, and in which of them
each surface was acquired. -/
structure Turns where
  begun : Nat := 0
  acquiredIn : List Nat := []

def Turns.update (s : KHRSwapchainImpl) (a : Label) (t : KHRSwapchainImpl) (g : Turns) : Turns :=
  match a with
  | .beginAcquire true => { g with begun := g.begun + 1 }
  | _ => if s.surfaces < t.surfaces then { g with acquiredIn := g.acquiredIn ++ [g.begun] } else g

/-- The calls of `AcquireNextDrawable` that began since the one that acquired the surface went
round all frames, and nothing was submitted for the surface before. -/
def PresentsInTurn (s : KHRSwapchainImpl × Turns) (a : Label) (_ : KHRSwapchainImpl × Turns) : Prop :=
  match a with
  | .present surface answers => s.1.submits answers →
    (∀ turn ∈ s.2.acquiredIn[surface]?, kMaxFramesInFlight ∣ s.2.begun - turn) ∧
      ∀ frame cmdBuffer, .submitted surface frame cmdBuffer ∉ s.1.log
  | _ => True

/-- The frame of the calls that have begun by then. -/
def frameOf (begun : Nat) : Frame := ⟨(begun + 1) % kMaxFramesInFlight, Nat.mod_lt _ (by decide)⟩

/-- What the log and the turns say of the frames, as long as surfaces are presented in turn:
the frame of a surface that was not submitted waits for that submission. -/
structure Paired (s : KHRSwapchainImpl) (g : Turns) : Prop where
  current : s.currentFrame = frameOf g.begun
  length : g.acquiredIn.length = s.surfaces
  turns : ∀ turn ∈ g.acquiredIn, turn ≤ g.begun
  acquired : ∀ surface frame, .acquired surface frame ∈ s.log → ∃ turn ∈ g.acquiredIn[surface]?, frame = frameOf turn
  submitted : ∀ surface frame cmdBuffer, .submitted surface frame cmdBuffer ∈ s.log → surface < s.surfaces ∧
    ∀ frame, ¬[.reset frame, .acquired surface frame] <:+ on s.log frame
  outstanding : ∀ surface turn, g.acquiredIn[surface]? = some turn →
    (∀ frame cmdBuffer, .submitted surface frame cmdBuffer ∉ s.log) →
    [.reset (frameOf turn), .acquired surface (frameOf turn)] <:+ on s.log (frameOf turn) ∧
      (s.synchronizers (frameOf turn)).acquire = ⟨false, false⟩

private theorem frameOf_eq {m n : Nat} (h : m ≤ n) : frameOf m = frameOf n ↔ kMaxFramesInFlight ∣ n - m := by
  have hval : frameOf m = frameOf n ↔ (m + 1) % kMaxFramesInFlight = (n + 1) % kMaxFramesInFlight := Fin.ext_iff
  rw [hval, kMaxFramesInFlight]
  omega

private theorem next_frameOf (n : Nat) : (frameOf n).next = frameOf (n + 1) :=
  Fin.ext (Nat.mod_add_mod (n + 1) kMaxFramesInFlight 1)

private theorem last_of_suffix {α : Type*} {x y e : α} {l : List α} (h : [x, y] <:+ l ++ [e]) : y = e := by
  obtain ⟨k, hk⟩ := h
  have hk : (k ++ [x]) ++ [y] = l ++ [e] := by simpa using hk
  exact List.singleton_inj.mp (List.append_inj' hk rfl).2

private theorem on_append {log : List SwapchainEvent} {e : SwapchainEvent} {f : Frame} (h : e.frame = f) :
    on (log ++ [e]) f = on log f ++ [e] := by
  simp [on, h]

private theorem on_append_of_ne {log : List SwapchainEvent} {e : SwapchainEvent} {f : Frame} (h : e.frame ≠ f) :
    on (log ++ [e]) f = on log f := by
  simp [on, h]

/-- A step that the log does not tell of, and that leaves a fence alone that waits for a submission. -/
private theorem Paired.quiet {g g' : Turns} (h : s.Paired g) (hcurrent : t.currentFrame = frameOf g'.begun)
    (hbegun : g.begun ≤ g'.begun) (hacquired : g'.acquiredIn = g.acquiredIn) (hlog : t.log = s.log)
    (hsurfaces : t.surfaces = s.surfaces)
    (hfence : ∀ frame, (s.synchronizers frame).acquire = ⟨false, false⟩ →
      (t.synchronizers frame).acquire = ⟨false, false⟩) : t.Paired g' := by
  refine ⟨hcurrent, ?_, fun turn ht => ?_, ?_, ?_, fun surface turn ht hn => ?_⟩
  · rw [hacquired, hsurfaces, h.length]
  · exact (h.turns turn (hacquired ▸ ht)).trans hbegun
  · rw [hlog, hacquired]
    exact h.acquired
  · rw [hlog, hsurfaces]
    exact h.submitted
  · rw [hlog] at hn ⊢
    obtain ⟨hsuffix, hf⟩ := h.outstanding surface turn (hacquired ▸ ht) hn
    exact ⟨hsuffix, hfence _ hf⟩

private theorem Paired.reset {g : Turns} (h : s.Paired g) (hsignalled : s.sync.acquire.signalled) :
    ((s.setSync { s.sync with acquire := ⟨false, false⟩ }).record (.reset s.currentFrame)).Paired g := by
  refine ⟨h.current, h.length, h.turns, fun surface frame hm => ?_, fun surface frame cmdBuffer hm => ?_,
    fun surface turn ht hn => ?_⟩
  · exact h.acquired surface frame (by simpa [record, setSync] using hm)
  · obtain ⟨hlt, hlast⟩ := h.submitted surface frame cmdBuffer (by simpa [record, setSync] using hm)
    refine ⟨hlt, fun f hsuffix => ?_⟩
    simp only [record, setSync] at hsuffix
    rcases eq_or_ne s.currentFrame f with heq | hne
    · rw [on_append (e := .reset s.currentFrame) heq] at hsuffix
      cases last_of_suffix hsuffix
    · rw [on_append_of_ne (e := .reset s.currentFrame) hne] at hsuffix
      exact hlast f hsuffix
  · obtain ⟨hsuffix, hf⟩ := h.outstanding surface turn ht (by simpa [record, setSync] using hn)
    -- a frame that waits for a submission is not signalled
    have hne : frameOf turn ≠ s.currentFrame := by
      intro heq
      rw [heq] at hf
      rw [sync, hf] at hsignalled
      cases hsignalled
    refine ⟨?_, ?_⟩
    · simpa only [record, setSync, on_append_of_ne (e := .reset s.currentFrame) hne.symm] using hsuffix
    · simpa only [record, setSync, Function.update_of_ne hne] using hf

/-- A surface is acquired in the frame that was just reset. -/
private theorem Paired.acquire {g : Turns} (h : s.Paired g) (hfence : s.sync.acquire = ⟨false, false⟩)
    (hreset : [SwapchainEvent.reset s.currentFrame] <:+ on s.log s.currentFrame) :
    ({ s with surfaces := s.surfaces + 1 }.record (.acquired s.surfaces s.currentFrame)).Paired
      { g with acquiredIn := g.acquiredIn ++ [g.begun] } := by
  have hold {surface turn : Nat} (ht : g.acquiredIn[surface]? = some turn) :
      (g.acquiredIn ++ [g.begun])[surface]? = some turn := by
    rw [List.getElem?_append_left (List.getElem?_eq_some_iff.mp ht).1, ht]
  refine ⟨h.current, by simp [record, h.length], fun turn ht => ?_, fun surface frame hm => ?_,
    fun surface frame cmdBuffer hm => ?_, fun surface turn ht hn => ?_⟩
  · rcases List.mem_append.mp ht with ht | ht
    · exact h.turns turn ht
    · exact (List.mem_singleton.mp ht).le
  · rcases List.mem_append.mp hm with hm | hm
    · obtain ⟨turn, ht, hf⟩ := h.acquired surface frame hm
      exact ⟨turn, hold ht, hf⟩
    · obtain ⟨rfl, rfl⟩ : surface = s.surfaces ∧ frame = s.currentFrame := by simpa using hm
      exact ⟨g.begun, by simp [← h.length], h.current⟩
  · obtain ⟨hlt, hlast⟩ := h.submitted surface frame cmdBuffer (by simpa [record] using hm)
    refine ⟨hlt.trans (Nat.lt_succ_self _), fun f hsuffix => ?_⟩
    simp only [record] at hsuffix
    rcases eq_or_ne s.currentFrame f with heq | hne
    · rw [on_append (e := .acquired s.surfaces s.currentFrame) heq] at hsuffix
      obtain ⟨rfl, -⟩ := SwapchainEvent.acquired.inj (last_of_suffix hsuffix)
      exact hlt.false
    · rw [on_append_of_ne (e := .acquired s.surfaces s.currentFrame) hne] at hsuffix
      exact hlast f hsuffix
  · simp only [record] at hn ⊢
    rcases Nat.lt_or_ge surface g.acquiredIn.length with hlt | hge
    · rw [List.getElem?_append_left hlt] at ht
      obtain ⟨hsuffix, hf⟩ := h.outstanding surface turn ht fun frame cmdBuffer hm => hn frame cmdBuffer (by simp [hm])
      have hne : s.currentFrame ≠ frameOf turn := by
        intro heq
        rw [← heq] at hsuffix
        obtain ⟨k, hk⟩ := hreset
        rw [← hk] at hsuffix
        cases last_of_suffix hsuffix
      exact ⟨by rwa [on_append_of_ne (e := .acquired s.surfaces s.currentFrame) hne], hf⟩
    · have hsurface : surface = g.acquiredIn.length := by
        have hlt := (List.getElem?_eq_some_iff.mp ht).1
        rw [List.length_append, List.length_singleton] at hlt
        omega
      obtain rfl : g.begun = turn := by simpa [hsurface] using ht
      rw [← h.current, hsurface, h.length]
      refine ⟨?_, hfence⟩
      rw [on_append (e := .acquired s.surfaces s.currentFrame) (f := s.currentFrame) rfl]
      obtain ⟨k, hk⟩ := hreset
      exact ⟨k, by rw [← hk]; simp⟩

private theorem mem_of_suffix {log : List SwapchainEvent} {surface : Nat} {f : Frame}
    (h : [.reset f, .acquired surface f] <:+ on log f) : .acquired surface f ∈ log :=
  List.mem_of_mem_filter (h.subset (List.mem_cons_of_mem _ (List.mem_singleton_self _)))

/-- A frame was last used for one surface. -/
private theorem suffix_inj {log : List SwapchainEvent} {x y : Nat} {f : Frame}
    (hx : [.reset f, .acquired x f] <:+ on log f) (hy : [.reset f, .acquired y f] <:+ on log f) : x = y := by
  obtain ⟨k, hk⟩ := hx
  have hk : (k ++ [.reset f]) ++ [.acquired x f] = on log f := by simpa using hk
  rw [← hk] at hy
  exact (SwapchainEvent.acquired.inj (last_of_suffix hy)).1.symm

/-- The surface is submitted in its frame. -/
private theorem Paired.submit {g : Turns} {surface cmdBuffer : Nat} (h : s.Paired g)
    (hsuffix : [.reset s.currentFrame, .acquired surface s.currentFrame] <:+ on s.log s.currentFrame)
    (hsurface : surface < s.surfaces) (sync : KHRFrameSynchronizer) :
    ((s.setSync sync).record (.submitted surface s.currentFrame cmdBuffer)).Paired g := by
  have hlast {other : Nat} {f : Frame}
      (ho : [.reset f, .acquired other f] <:+ on (s.log ++ [.submitted surface s.currentFrame cmdBuffer]) f) :
      s.currentFrame ≠ f ∧ [.reset f, .acquired other f] <:+ on s.log f := by
    rcases eq_or_ne s.currentFrame f with heq | hne
    · rw [on_append (e := .submitted surface s.currentFrame cmdBuffer) heq] at ho
      cases last_of_suffix ho
    · rw [on_append_of_ne (e := .submitted surface s.currentFrame cmdBuffer) hne] at ho
      exact ⟨hne, ho⟩
  refine ⟨h.current, h.length, h.turns, fun other frame hm => ?_, fun other frame cmdBuffer' hm => ?_,
    fun other turn ht hn => ?_⟩
  · exact h.acquired other frame (by simpa [record, setSync] using hm)
  · rcases List.mem_append.mp hm with hm | hm
    · obtain ⟨hlt, hnot⟩ := h.submitted other frame cmdBuffer' hm
      exact ⟨hlt, fun f ho => hnot f (hlast ho).2⟩
    · obtain ⟨rfl, -⟩ : other = surface ∧ _ := by simpa using hm
      refine ⟨hsurface, fun f ho => ?_⟩
      obtain ⟨hne, ho⟩ := hlast ho
      -- the surface has one frame
      obtain ⟨turn, ht, hf⟩ := h.acquired other f (mem_of_suffix ho)
      obtain ⟨turn', ht', hf'⟩ := h.acquired other s.currentFrame (mem_of_suffix hsuffix)
      obtain rfl : turn = turn' := Option.some.inj (ht.symm.trans ht')
      exact hne (hf'.trans hf.symm)
  · simp only [record, setSync] at hn ⊢
    obtain ⟨ho, hfence⟩ := h.outstanding other turn ht fun frame cmdBuffer hm => hn frame cmdBuffer (by simp [hm])
    have hne : frameOf turn ≠ s.currentFrame := by
      intro heq
      rw [heq] at ho
      obtain rfl := suffix_inj hsuffix ho
      exact hn s.currentFrame cmdBuffer (by simp)
    rw [on_append_of_ne (e := .submitted surface s.currentFrame cmdBuffer) (Ne.symm hne), Function.update_of_ne hne]
    exact ⟨ho, hfence⟩

/-- What a step does that the log does not tell of. -/
private structure Quiet (s t : KHRSwapchainImpl) : Prop where
  current : t.currentFrame = s.currentFrame
  log : t.log = s.log
  surfaces : t.surfaces = s.surfaces
  fences : ∀ frame, (t.synchronizers frame).acquire = (s.synchronizers frame).acquire

private theorem Quiet.paired {g : Turns} (hq : Quiet s t) (h : s.Paired g) : t.Paired g :=
  h.quiet (hq.current.trans h.current) le_rfl rfl hq.log hq.surfaces fun frame hf => (hq.fences frame).trans hf

private theorem pairs_of_log (h : t.log = s.log) : s.Pairs a t := by
  intro e he
  rw [h, List.drop_length] at he
  cases he

private theorem quiet_setSync {sync : KHRFrameSynchronizer} (h : sync.acquire = s.sync.acquire) :
    Quiet s (s.setSync sync) := by
  refine ⟨rfl, rfl, rfl, fun frame => ?_⟩
  rcases eq_or_ne frame s.currentFrame with rfl | hne
  · simp only [setSync, Function.update_self]
    exact h
  · simp only [setSync, Function.update_of_ne hne]

/-- A `Present` submits with the frame that is current, or does nothing that the log tells of. -/
private theorem present_cases (surface : Nat) (answers : PresentAnswers) :
    s.submits answers = false ∧ Quiet s (s.present surface answers).2 ∨
      s.submits answers ∧ ∃ u sync cmdBuffer, Quiet s u ∧
        (s.present surface answers).2 = (u.setSync sync).record (.submitted surface u.currentFrame cmdBuffer) := by
  unfold present submits
  generalize (if s.sync.hasOnscreen then s.sync.finalCmdBuffer else answers.createCommandBuffer) = final
  have hq : Quiet s (s.setSync { s.sync with finalCmdBuffer := final, hasOnscreen := false }) := quiet_setSync rfl
  cases answers.context with
  | false => exact .inl ⟨rfl, rfl, rfl, rfl, fun _ => rfl⟩
  | true =>
    cases final with
    | none => exact .inl ⟨rfl, hq⟩
    | some cmdBuffer =>
      cases answers.endCommandBuffer with
      | false => exact .inl ⟨rfl, hq⟩
      | true =>
        cases answers.submit with
        | false => exact .inl ⟨rfl, hq⟩
        | true => exact .inr ⟨rfl, _, _, cmdBuffer, hq, rfl⟩

private theorem update_of_surfaces {g : Turns} (ha : a ≠ .beginAcquire true) (ht : t.surfaces = s.surfaces) :
    Turns.update s a t g = g := by
  unfold Turns.update
  split
  · exact (ha rfl).elim
  · exact if_neg (by rw [ht]; exact Nat.lt_irrefl _)

private theorem paired_finishAcquire {g : Turns} {answers : AcquireAnswers} {r : AcquireResult × KHRSwapchainImpl}
    (h : s.Paired g) (hr : s.finishAcquire answers = some r) :
    s.Pairs (.finishAcquire answers) r.2 ∧ r.2.Paired (Turns.update s (.finishAcquire answers) r.2 g) := by
  have hidle : ({ s with waiting := false } : KHRSwapchainImpl).Paired g := 
    Quiet.paired (s := s) ⟨rfl, rfl, rfl, fun _ => rfl⟩ h
  have hsame {t : KHRSwapchainImpl} (ht : t.surfaces = s.surfaces) : Turns.update s (.finishAcquire answers) t g = g :=
    update_of_surfaces (by simp) ht
  have hnew {t : KHRSwapchainImpl} (ht : t.surfaces = s.surfaces + 1) : Turns.update s (.finishAcquire answers) t g =
      { g with acquiredIn := g.acquiredIn ++ [g.begun] } := if_pos (by rw [ht]; exact Nat.lt_succ_self _)
  obtain ⟨⟨ok, v⟩, hv, rfl⟩ := Option.map_eq_some_iff.mp hr
  unfold waitForFence at hv
  split at hv
  · obtain ⟨rfl, rfl⟩ := Prod.mk.inj (Option.some.inj hv)
    exact ⟨pairs_of_log rfl, (hsame rfl).symm ▸ hidle⟩
  · split at hv
    · cases hv
    next hsignalled =>
      split at hv
      · obtain ⟨rfl, rfl⟩ := Prod.mk.inj (Option.some.inj hv)
        exact ⟨pairs_of_log rfl, (hsame rfl).symm ▸ hidle⟩
      · obtain ⟨rfl, rfl⟩ := Prod.mk.inj (Option.some.inj hv)
        have hreset := hidle.reset (by simpa using hsignalled)
        have hpairs {t : KHRSwapchainImpl} (ht : t.log = s.log ++ [.reset s.currentFrame]) :
            s.Pairs (.finishAcquire answers) t := by
          intro e he
          rw [ht, List.drop_left, List.mem_singleton] at he
          exact he ▸ trivial
        simp only [Bool.not_true, Bool.false_eq_true, if_false]
        cases answers.acquire with
        | eSuccess =>
          simp only
          split
          next => exact ⟨hpairs rfl, (hsame rfl).symm ▸ hreset⟩
          next =>
            refine ⟨fun e he => ?_, ?_⟩
            · simp only [record, setSync, List.append_assoc, List.drop_left] at he
              rcases List.mem_cons.mp he with rfl | he
              · trivial
              · exact List.mem_singleton.mp he ▸ trivial
            · rw [hnew rfl]
              refine hreset.acquire ?_ ?_
              · simp [sync, record, setSync]
              · simp only [record, setSync]
                rw [on_append (e := .reset s.currentFrame) (f := s.currentFrame) rfl]
                exact List.suffix_append _ _
        | eSuboptimalKHR => exact ⟨hpairs rfl, (hsame rfl).symm ▸ hreset⟩
        | eErrorOutOfDateKHR => exact ⟨hpairs rfl, (hsame rfl).symm ▸ hreset⟩
        | eErrorDeviceLost => exact ⟨hpairs rfl, (hsame rfl).symm ▸ hreset⟩

private theorem paired_present {g : Turns} {surface : Nat} {answers : PresentAnswers} (h : s.Paired g)
    (hsurface : surface < s.surfaces) :
    (s.Pairs (.present surface answers) (s.present surface answers).2 ↔
      PresentsInTurn (s, g) (.present surface answers) ((s.present surface answers).2, g)) ∧
    (s.Pairs (.present surface answers) (s.present surface answers).2 → (s.present surface answers).2.Paired g) := by
  rcases present_cases (s := s) surface answers with ⟨hn, hq⟩ | ⟨hy, u, sync, cmdBuffer, hq, ht⟩
  · refine ⟨iff_of_true (pairs_of_log hq.log) fun happ => ?_, fun _ => hq.paired h⟩
    rw [hn] at happ
    cases happ
  · obtain ⟨turn, hturn⟩ : ∃ turn, g.acquiredIn[surface]? = some turn :=
      ⟨_, List.getElem?_eq_getElem (h.length ▸ hsurface)⟩
    have hframe : s.currentFrame = frameOf turn ↔ kMaxFramesInFlight ∣ g.begun - turn := by
      rw [h.current, eq_comm, frameOf_eq (h.turns turn (List.mem_of_getElem? hturn))]
    have hpairs : s.Pairs (.present surface answers) (s.present surface answers).2 ↔
        [.reset s.currentFrame, .acquired surface s.currentFrame] <:+ on s.log s.currentFrame := by
      have hlog : (s.present surface answers).2.log = s.log ++ [.submitted surface s.currentFrame cmdBuffer] := by
        rw [ht, ← hq.log, ← hq.current]
        rfl
      rw [Pairs, hlog, List.drop_left, List.forall_mem_singleton]
      rfl
    rw [hpairs]
    refine ⟨⟨fun hsuffix _ => ⟨fun turn' hturn' => ?_, fun frame cmdBuffer hm => ?_⟩, fun hin => ?_⟩, fun hsuffix => ?_⟩
    · obtain rfl : turn = turn' := Option.some.inj (hturn.symm.trans hturn')
      obtain ⟨turn', ht', hf⟩ := h.acquired surface s.currentFrame (mem_of_suffix hsuffix)
      obtain rfl : turn = turn' := Option.some.inj (hturn.symm.trans ht')
      exact hframe.mp hf
    · exact (h.submitted surface frame cmdBuffer hm).2 _ hsuffix
    · obtain ⟨hdvd, hn⟩ := hin hy
      rw [hframe.mpr (hdvd turn hturn)]
      exact (h.outstanding surface turn hturn hn).1
    · rw [ht]
      refine (hq.paired h).submit ?_ (hq.surfaces ▸ hsurface) sync
      rwa [hq.current, hq.log]

/-- A step pairs if and only if it presents in turn, and then keeps the invariant. -/
private theorem step_paired {g : Turns} (h : s.Paired g) (hs : s.step a = some t) :
    (s.Pairs a t ↔ PresentsInTurn (s, g) a (t, Turns.update s a t g)) ∧
      (s.Pairs a t → t.Paired (Turns.update s a t g)) := by
  cases a with
  | beginAcquire context =>
    simp only [step, Option.ite_none_left_eq_some, Option.some.injEq] at hs
    obtain ⟨-, rfl⟩ := hs
    cases context with
    | false =>
      have hg : Turns.update s (.beginAcquire false) (s.beginAcquire false) g = g := update_of_surfaces (by simp) rfl
      rw [hg]
      exact ⟨iff_of_true (pairs_of_log rfl) trivial, fun _ => h⟩
    | true =>
      refine ⟨iff_of_true (pairs_of_log rfl) trivial, fun _ => h.quiet ?_ (Nat.le_succ _) rfl rfl rfl fun _ hf => hf⟩
      simp only [beginAcquire, Bool.not_true, Bool.false_eq_true, if_false, h.current, Turns.update]
      exact next_frameOf _
  | finishAcquire answers =>
    simp only [step, Option.ite_none_right_eq_some, Option.map_eq_some_iff] at hs
    obtain ⟨-, r, hr, rfl⟩ := hs
    obtain ⟨hpairs, hpaired⟩ := paired_finishAcquire h hr
    exact ⟨iff_of_true hpairs trivial, fun _ => hpaired⟩
  | addFinalCommandBuffer cmdBuffer =>
    simp only [step, Option.ite_none_left_eq_some, Option.some.injEq] at hs
    obtain ⟨-, rfl⟩ := hs
    have hq : Quiet s (s.addFinalCommandBuffer cmdBuffer) := quiet_setSync rfl
    have hg : Turns.update s (.addFinalCommandBuffer cmdBuffer) (s.addFinalCommandBuffer cmdBuffer) g = g :=
      update_of_surfaces (by simp) rfl
    rw [hg]
    exact ⟨iff_of_true (pairs_of_log hq.log) trivial, fun _ => hq.paired h⟩
  | present surface answers =>
    simp only [step, Option.ite_none_right_eq_some, Option.some.injEq] at hs
    obtain ⟨hsurface, rfl⟩ := hs
    have hg : Turns.update s (.present surface answers) (s.present surface answers).2 g = g := by
      refine update_of_surfaces (by simp) ?_
      rcases present_cases (s := s) surface answers with ⟨-, hq⟩ | ⟨-, u, sync, cmdBuffer, hq, ht⟩
      · exact hq.surfaces
      · rw [ht]
        exact hq.surfaces
    rw [hg]
    exact paired_present h (by simp_all)
  | signal frame =>
    simp only [step, Option.ite_none_right_eq_some, Option.some.injEq] at hs
    obtain ⟨hsubmitted, ht⟩ := hs
    have hg : Turns.update s (.signal frame) t g = g := update_of_surfaces (by simp) (ht ▸ rfl)
    rw [hg]
    subst ht
    refine ⟨iff_of_true (pairs_of_log rfl) trivial, fun _ => h.quiet h.current le_rfl rfl rfl rfl fun f hf => ?_⟩
    -- what waits for a submission was not submitted
    have hne : f ≠ frame := by
      rintro rfl
      rw [hf] at hsubmitted
      cases hsubmitted
    simpa only [Function.update_of_ne hne] using hf

instance (log : List SwapchainEvent) (e : SwapchainEvent) : Decidable (PairedAfter log e) := by
  unfold PairedAfter
  cases e <;> infer_instance

instance (s t : KHRSwapchainImpl) (a : Label) : Decidable (s.Pairs a t) :=
  inferInstanceAs (Decidable (∀ e ∈ t.log.drop s.log.length, PairedAfter s.log e))

/-- The submissions are made with the frames of their acquisitions if and only if surfaces are
presented in turn. -/
theorem pairs_iff : (machine images).Along Pairs (machine images).init labels ↔
    ((machine images).withHistory {} Turns.update).Along PresentsInTurn
      ((machine images).withHistory {} Turns.update).init labels := by
  have hinit : (machine images).init.Paired {} := by
    refine ⟨rfl, rfl, ?_, ?_, ?_, ?_⟩ <;> simp [machine]
  refine Machine.along_withHistory.symm.trans (Machine.along_iff (I := fun s => s.1.Paired s.2) ?_ ?_ hinit)
  · rintro ⟨s, g⟩ a ⟨t, g'⟩ h hs
    obtain ⟨hstep, hg⟩ := Machine.withHistory_step hs
    simp only at hg
    subst hg
    exact (step_paired h hstep).1
  · rintro ⟨s, g⟩ a ⟨t, g'⟩ h hc hs
    obtain ⟨hstep, hg⟩ := Machine.withHistory_step hs
    simp only at hg
    subst hg
    exact (step_paired h hstep).2 ((step_paired h hstep).1.mpr hc)

/-- Two surfaces are outstanding, and the first one is presented in the frame of the second. -/
theorem pairs_outstanding : ¬(machine 3).Along Pairs (machine 3).init
    [.beginAcquire true, .finishAcquire ⟨true, true, .eSuccess, 0⟩, .beginAcquire true,
      .finishAcquire ⟨true, true, .eSuccess, 1⟩, .present 0 ⟨true, some 7, true, true⟩] := by
  decide +kernel

end KHRSwapchainImpl
end Ogre.Hal
