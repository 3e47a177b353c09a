import Mathlib.Data.List.Nodup
import Ogre.Fml.Status
import Ogre.Library.Machine

/-! Calls of `Submit` one after the other, over command buffers that may come again. -/
namespace Ogre.Hal
open Ogre.Fml Ogre.Library

/-- The command buffers whose tracked objects were moved out, the command buffers of the
submissions that the queue accepted, and whether a call went through a null pointer,
after which there are no more calls. -/
structure SubmittedBuffers where
  taken : List Nat := []
  accepted : List (List Nat) := []
  dereferencedNull : Bool := false
  deriving DecidableEq, Repr

/-- A command buffer in a call of `Submit`, and how the device answers to its end. -/
structure EndedBuffer where
  buffer : Nat
  success : Bool := true
  deriving DecidableEq, Repr

/-- The answers to a call after its loop. -/
structure SubmitAnswers where
  contextAlive : Bool := true
  fenceCreated : Bool := true
  queueAccepts : Bool := true
  fenceAdded : Bool := true
  deriving DecidableEq, Repr

namespace SubmittedBuffers

inductive LoopResult
  | dereferencedNull
  | failed
  | ended (vkBuffers : List Nat)
  deriving DecidableEq, Repr

/-- The loop of `Submit`. `EndCommandBuffer` goes through the tracked objects, which are
moved out of a buffer that was ended. -/
def endCommandBuffers (s : SubmittedBuffers) (vkBuffers : List Nat) :
    List EndedBuffer → LoopResult × SubmittedBuffers
  | [] => (.ended vkBuffers, s)
  | e :: rest =>
    if e.buffer ∈ s.taken then (.dereferencedNull, { s with dereferencedNull := true })
    else if e.success then
      endCommandBuffers { s with taken := s.taken ++ [e.buffer] } (vkBuffers ++ [e.buffer]) rest
    else (.failed, s)

def submit (s : SubmittedBuffers) (buffers : List EndedBuffer) (answers : SubmitAnswers) :
    Option Status × SubmittedBuffers :=
  if buffers.isEmpty then (some ⟨.kInvalidArgument, "No command buffers provided."⟩, s)
  else match s.endCommandBuffers [] buffers with
    | (.dereferencedNull, s) => (none, s)
    | (.failed, s) => (some ⟨.kCancelled, "Failed to end command buffer."⟩, s)
    | (.ended vkBuffers, s) =>
      if !answers.contextAlive then (some ⟨.kCancelled, "Device lost."⟩, s)
      else if !answers.fenceCreated then (some ⟨.kCancelled, "Failed to create fence."⟩, s)
      else if !answers.queueAccepts then (some ⟨.kCancelled, "Failed to submit queue: "⟩, s)
      else
        let s := { s with accepted := s.accepted ++ [vkBuffers] }
        if !answers.fenceAdded then (some ⟨.kCancelled, "Failed to add fence."⟩, s) else (some {}, s)

/-- `Track` and `AllocateDescriptorSets` go through the tracked objects as well. -/
inductive Label
  | submit (buffers : List EndedBuffer) (answers : SubmitAnswers)
  | track (buffer : Nat)
  deriving DecidableEq, Repr

def step (s : SubmittedBuffers) (label : Label) : Option SubmittedBuffers :=
  if s.dereferencedNull then none
  else match label with
    | .submit buffers answers => some (s.submit buffers answers).2
    | .track buffer => some { s with dereferencedNull := buffer ∈ s.taken }

def machine : Machine SubmittedBuffers Label where
  init := {}
  step := step

/-- The buffers of a call up to the first that cannot be ended. -/
def reached : List EndedBuffer → List Nat
  | [] => []
  | e :: rest => e.buffer :: if e.success then reached rest else []

/-- The call reaches no buffer twice, and none that was ended before. -/
def ReachesFresh (s : SubmittedBuffers) (label : Label) (_ : SubmittedBuffers) : Prop :=
  match label with
  | .submit buffers _ => (reached buffers).Nodup ∧ ∀ b ∈ reached buffers, b ∉ s.taken
  | .track buffer => buffer ∉ s.taken

/-- No buffer is in two places of accepted submissions, and no call went through null. -/
def SubmitsOnce (s : SubmittedBuffers) : Prop := s.accepted.flatten.Nodup ∧ s.dereferencedNull = false

/-- Buffers were ended once, and accepted after they were ended. -/
structure Taken (s : SubmittedBuffers) : Prop where
  nodup : s.taken.Nodup
  accepted : s.accepted.flatten.Nodup
  subset : s.accepted.flatten ⊆ s.taken

variable {s t : SubmittedBuffers} {vkBuffers : List Nat} {buffers : List EndedBuffer} {result : LoopResult}

/-- What the loop has ended is new to the taken buffers, and it stops at null if and only
if a buffer that it reaches was taken. -/
theorem endCommandBuffers_spec (h : s.endCommandBuffers vkBuffers buffers = (result, t)) (hs : s.dereferencedNull = false)
    (hnodup : s.taken.Nodup) : ∃ new, t.taken = s.taken ++ new ∧ t.taken.Nodup ∧ t.accepted = s.accepted ∧
      (∀ all, result = .ended all → all = vkBuffers ++ new) ∧
      (t.dereferencedNull = true ↔ result = .dereferencedNull) ∧
      (t.dereferencedNull = false ↔ (reached buffers).Nodup ∧ ∀ b ∈ reached buffers, b ∉ s.taken) := by
  induction buffers generalizing s vkBuffers with
  | nil =>
    obtain ⟨rfl, rfl⟩ := Prod.mk.inj h
    exact ⟨[], by simp [hnodup, hs, reached]⟩
  | cons e rest ih =>
    rw [endCommandBuffers] at h
    split at h
    next htaken =>
      obtain ⟨rfl, rfl⟩ := Prod.mk.inj h
      exact ⟨[], by simp [hnodup, reached, htaken]⟩
    next hfresh =>
      split at h
      next hsuccess =>
        have hnext : (s.taken ++ [e.buffer]).Nodup := by
          rw [List.nodup_append]
          simpa [hnodup] using fun b hb => by rintro rfl; exact hfresh hb
        obtain ⟨new, htaken, hnodup', haccepted, hall, hnull, hfine⟩ := ih h hs hnext
        refine ⟨e.buffer :: new, by simp [htaken], hnodup', haccepted, fun all ha => by simp [hall all ha], hnull, ?_⟩
        rw [hfine]
        simp only [reached, hsuccess, if_true, List.nodup_cons, List.mem_append, not_or, List.mem_cons,
          forall_eq_or_imp]
        grind
      next hfail =>
        obtain ⟨rfl, rfl⟩ := Prod.mk.inj h
        exact ⟨[], by simp [hnodup, hs, reached, hfail, hfresh]⟩

/-- What a call does with the buffers that its loop has ended. -/
theorem submit_cases (answers : SubmitAnswers) (buffers : List EndedBuffer) (s : SubmittedBuffers) :
    buffers = [] ∧ (s.submit buffers answers).2 = s ∨
      ∃ result u, s.endCommandBuffers [] buffers = (result, u) ∧
        ((s.submit buffers answers).2 = u ∨
          ∃ vkBuffers, result = .ended vkBuffers ∧
            (s.submit buffers answers).2 = { u with accepted := u.accepted ++ [vkBuffers] }) := by
  unfold submit
  split
  next hnil => exact .inl ⟨List.isEmpty_iff.mp hnil, rfl⟩
  next =>
    refine .inr ⟨_, _, rfl, ?_⟩
    split
    next heq => exact .inl (by rw [heq])
    next heq => exact .inl (by rw [heq])
    next vkBuffers u heq =>
      rw [heq]
      split
      · exact .inl rfl
      split
      · exact .inl rfl
      split
      · exact .inl rfl
      · exact .inr ⟨vkBuffers, rfl, by split <;> rfl⟩

theorem submit_taken (h : s.Taken) (hs : s.dereferencedNull = false) (answers : SubmitAnswers)
    (buffers : List EndedBuffer) : (s.submit buffers answers).2.Taken ∧
      ((s.submit buffers answers).2.dereferencedNull = false ↔
        (reached buffers).Nodup ∧ ∀ b ∈ reached buffers, b ∉ s.taken) := by
  rcases submit_cases answers buffers s with ⟨rfl, heq⟩ | ⟨result, u, hloop, hcases⟩
  · rw [heq]
    exact ⟨h, by simp [hs, reached]⟩
  obtain ⟨new, htaken, hnodup, haccepted, hall, -, hfine⟩ := endCommandBuffers_spec hloop hs h.nodup
  rcases hcases with heq | ⟨vkBuffers, hended, heq⟩
  · rw [heq]
    refine ⟨⟨hnodup, haccepted ▸ h.accepted, ?_⟩, hfine⟩
    rw [haccepted, htaken]
    exact List.subset_append_of_subset_left _ h.subset
  · rw [heq]
    have hnew : vkBuffers = new := hall vkBuffers hended
    have hflatten : (u.accepted ++ [vkBuffers]).flatten = s.accepted.flatten ++ new := by simp [haccepted, hnew]
    have hdisjoint := List.nodup_append.mp (htaken ▸ hnodup)
    refine ⟨⟨hnodup, ?_, ?_⟩, hfine⟩
    · rw [hflatten, List.nodup_append]
      exact ⟨h.accepted, hdisjoint.2.1, fun a ha b hb => hdisjoint.2.2 a (h.subset ha) b hb⟩
    · rw [hflatten]
      change _ ⊆ u.taken
      rw [htaken]
      exact List.append_subset.mpr ⟨List.subset_append_of_subset_left _ h.subset, List.subset_append_right _ _⟩

theorem step_taken {label : Label} (h : s.Taken) (hs : s.step label = some t) :
    t.Taken ∧ (t.dereferencedNull = false ↔ s.dereferencedNull = false ∧ s.ReachesFresh label t) := by
  simp only [step, Option.ite_none_left_eq_some] at hs
  obtain ⟨hlive, hs⟩ := hs
  have hlive : s.dereferencedNull = false := Bool.eq_false_iff.mpr hlive
  rw [and_iff_right hlive]
  cases label with
  | submit buffers answers =>
    obtain rfl := Option.some.inj hs
    exact submit_taken h hlive answers buffers
  | track buffer =>
    obtain rfl := Option.some.inj hs
    exact ⟨⟨h.nodup, h.accepted, h.subset⟩, by simp [ReachesFresh]⟩

/-- No command buffer is in two places of the accepted submissions, and no call goes
through moved tracked objects, if and only if no call reaches a buffer that was ended. -/
theorem submitsOnce_iff {labels : List Label} (hr : machine.run labels = some s) :
    s.SubmitsOnce ↔ machine.Along ReachesFresh machine.init labels := by
  have hinit : Taken {} := ⟨List.nodup_nil, List.nodup_nil, List.Subset.refl _⟩
  have htaken : s.Taken := machine.invariant (fun _ _ _ h hs => (step_taken h hs).1) hinit hr
  have hnull := machine.kept_iff_along (G := fun s => s.dereferencedNull = false) (C := ReachesFresh)
    (fun _ _ _ h hs => (step_taken h hs).1) (fun _ _ _ h hs => (step_taken h hs).2) hinit hr
  rw [SubmitsOnce, and_iff_right htaken.accepted, hnull]
  exact and_iff_right rfl

instance (s t : SubmittedBuffers) (label : Label) : Decidable (s.ReachesFresh label t) := by
  unfold ReachesFresh
  cases label <;> infer_instance

/-- A buffer that cannot be ended is submitted again, after a batch whose fence is not created. -/
def retriedBuffers : List Label :=
  [.submit [⟨1, true⟩, ⟨2, false⟩] {}, .submit [⟨3, true⟩] { fenceCreated := false }, .submit [⟨2, true⟩] {}]

theorem submitsOnce_retriedBuffers : ∃ s, machine.run retriedBuffers = some s ∧ s.accepted = [[2]] ∧ s.SubmitsOnce := by
  have hr : machine.run retriedBuffers = some _ := rfl
  exact ⟨_, hr, rfl, (submitsOnce_iff hr).mpr (by decide)⟩

/-- A buffer that was accepted is submitted again. -/
def acceptedAgain : List Label := [.submit [⟨1, true⟩] {}, .submit [⟨1, true⟩] {}]

theorem resubmission_dereferences_null : ¬ ∀ labels s, machine.run labels = some s → s.SubmitsOnce := by
  intro h
  have hr : machine.run acceptedAgain = some _ := rfl
  exact absurd (h _ _ hr).2 (by decide)

end SubmittedBuffers
end Ogre.Hal
