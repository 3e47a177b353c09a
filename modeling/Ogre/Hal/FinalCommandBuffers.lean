import Mathlib.Data.List.Nodup
import Mathlib.Data.List.TakeWhile
import Ogre.Library.History

/-! Final command buffers of a swapchain: which of them are submitted for the surface that is
presented, told from the calls of the client. -/
namespace Ogre.Hal
open Ogre.Library

/-- Surfaces have the number of the acquisition that made them, `released` is the point from
which on the client holds no surface, and `created` is true of a buffer that a `Present` made
for its own submission. -/
inductive FinalEvent
  | released
  | acquired (surface : Nat)
  | added (cmdBuffer : Nat)
  | submitted (surface cmdBuffer : Nat) (created : Bool)
  deriving DecidableEq, Repr

namespace FinalEvent
variable {events : List FinalEvent} {e : FinalEvent} {surface cmdBuffer surfaces : Nat} {final final' : Option Nat}
  {armed armed' created : Bool}

/-- The surface that the client holds. -/
def outstanding (events : List FinalEvent) : Option Nat :=
  events.foldl (fun surface e => match e with
    | released => none
    | acquired next => some next
    | added _ | submitted _ _ _ => surface) none

/-- The last buffer that was added, unless a surface was acquired or a buffer submitted since. -/
def pending (events : List FinalEvent) : Option Nat :=
  events.foldl (fun cmdBuffer e => match e with
    | released => cmdBuffer
    | added next => some next
    | acquired _ | submitted _ _ _ => none) none

/-- The events from the acquisition of the surface on. -/
def since (surface : Nat) (events : List FinalEvent) : List FinalEvent :=
  events.dropWhile fun e => e ≠ acquired surface

def addedSubmission : FinalEvent → Option Nat
  | submitted _ cmdBuffer false => some cmdBuffer
  | _ => none

/-- The buffers that were added and are submitted, one for each submission. -/
def addedSubmissions (events : List FinalEvent) : List Nat := events.filterMap addedSubmission

/-- A buffer that the `Present` did not create was added since the surface was acquired. -/
def AddedSince (events : List FinalEvent) : FinalEvent → Prop
  | submitted surface cmdBuffer false => added cmdBuffer ∈ since surface events
  | _ => True

/-- Every submission has a buffer of its own frame, and no buffer that was added is submitted twice. -/
structure Fresh (events : List FinalEvent) : Prop where
  since : EachAfter AddedSince events
  once : (addedSubmissions events).Nodup

/-- A buffer was added since the acquisition and since the last submission, and it is not one
that was submitted before. -/
def AddsFresh (events : List FinalEvent) : Prop :=
  ∃ cmdBuffer ∈ pending events, cmdBuffer ∉ addedSubmissions events

theorem fresh_nil : Fresh [] := ⟨eachAfter_nil, List.nodup_nil⟩

theorem fresh_concat : Fresh (events ++ [e]) ↔
    Fresh events ∧ AddedSince events e ∧ ∀ cmdBuffer ∈ addedSubmission e, cmdBuffer ∉ addedSubmissions events := by
  have honce : (addedSubmissions (events ++ [e])).Nodup ↔ (addedSubmissions events).Nodup ∧
      ∀ cmdBuffer ∈ addedSubmission e, cmdBuffer ∉ addedSubmissions events := by
    rw [addedSubmissions, List.filterMap_append]
    cases h : addedSubmission e with
    | none => simp [h, addedSubmissions]
    | some cmdBuffer =>
      have hl : [e].filterMap addedSubmission = [cmdBuffer] := by simp [h]
      rw [hl, ← List.concat_eq_append, List.nodup_concat, and_comm]
      simp [addedSubmissions]
  constructor
  · rintro ⟨hs, ho⟩
    obtain ⟨hs, he⟩ := eachAfter_concat.mp hs
    obtain ⟨ho, hn⟩ := honce.mp ho
    exact ⟨⟨hs, ho⟩, he, hn⟩
  · rintro ⟨⟨hs, ho⟩, he, hn⟩
    exact ⟨eachAfter_concat.mpr ⟨hs, he⟩, honce.mpr ⟨ho, hn⟩⟩

/-- What is not a submission of a buffer that was added leaves the events fresh. -/
theorem fresh_concat_of_none (h : addedSubmission e = none) : Fresh (events ++ [e]) ↔ Fresh events := by
  have hsince : AddedSince events e := by
    unfold AddedSince
    split
    · cases h
    · trivial
  rw [fresh_concat, h]
  simp [hsince]

private theorem outstanding_concat (e : FinalEvent) : outstanding (events ++ [e]) = match e with
    | released => none
    | acquired next => some next
    | added _ | submitted _ _ _ => outstanding events := by
  rw [outstanding, List.foldl_append]
  rfl

private theorem pending_concat (e : FinalEvent) : pending (events ++ [e]) = match e with
    | released => pending events
    | added next => some next
    | acquired _ | submitted _ _ _ => none := by
  rw [pending, List.foldl_append]
  rfl

private theorem since_concat (h : acquired surface ∈ events) :
    since surface (events ++ [e]) = since surface events ++ [e] := by
  rw [since, List.dropWhile_append, if_neg]
  · rfl
  · intro hempty
    have hall := List.dropWhile_eq_nil_iff.mp (List.isEmpty_iff.mp hempty) _ h
    simp at hall

/-- How the slot of the current frame stands to the calls, where `final` is its buffer and
`armed` tells that a `Present` would take it: what is pending is there, and what is there was
submitted or is pending. -/
structure Linked (events : List FinalEvent) (surfaces : Nat) (final : Option Nat) (armed : Bool) : Prop where
  numbered : ∀ surface, acquired surface ∈ events → surface < surfaces
  held : ∀ surface ∈ outstanding events, acquired surface ∈ events
  waiting : ∀ surface ∈ outstanding events, armed → ∀ cmdBuffer ∈ pending events,
    final = some cmdBuffer ∧ added cmdBuffer ∈ since surface events
  taken : ∀ surface ∈ outstanding events, armed → ∀ cmdBuffer ∈ final, added cmdBuffer ∈ since surface events →
    pending events = some cmdBuffer ∨ cmdBuffer ∈ addedSubmissions events

theorem linked_nil : Linked [] surfaces final armed := by
  constructor <;> simp [outstanding]

/-- The slot is left alone, or no longer taken. -/
theorem Linked.mono (h : Linked events surfaces final armed) (ha : armed' → armed ∧ final' = final) :
    Linked events surfaces final' armed' := by
  refine ⟨h.numbered, h.held, fun surface hs harmed => ?_, fun surface hs harmed => ?_⟩
  · obtain ⟨harmed, rfl⟩ := ha harmed
    exact h.waiting surface hs harmed
  · obtain ⟨harmed, rfl⟩ := ha harmed
    exact h.taken surface hs harmed

/-- The client holds no surface, whatever slot is the next one. -/
theorem Linked.release (h : Linked events surfaces final armed) :
    Linked (events ++ [released]) surfaces final' armed' := by
  have hnone : outstanding (events ++ [released]) = none := outstanding_concat _
  refine ⟨fun surface hs => h.numbered surface (by simpa using hs), ?_, ?_, ?_⟩ <;> simp [hnone]

theorem Linked.acquire (h : Linked events surfaces final armed) :
    Linked (events ++ [acquired surfaces]) (surfaces + 1) final' armed' := by
  have hout : outstanding (events ++ [acquired surfaces]) = some surfaces := outstanding_concat _
  have hpending : pending (events ++ [acquired surfaces]) = none := pending_concat _
  have hsince : since surfaces (events ++ [acquired surfaces]) = [acquired surfaces] := by
    rw [since, List.dropWhile_append_of_pos]
    · simp
    · intro e he
      simp only [ne_eq, decide_eq_true_eq]
      rintro rfl
      exact (h.numbered surfaces he).false
  refine ⟨fun surface hs => ?_, ?_, ?_, ?_⟩
  · rcases List.mem_append.mp hs with hs | hs
    · exact (h.numbered surface hs).trans (Nat.lt_succ_self _)
    · obtain rfl : surface = surfaces := by simpa using hs
      exact Nat.lt_succ_self _
  · simp [hout]
  · simp [hpending]
  · simp [hout, hsince]

theorem Linked.add (h : Linked events surfaces final armed) :
    Linked (events ++ [added cmdBuffer]) surfaces (some cmdBuffer) armed' := by
  have hout : outstanding (events ++ [added cmdBuffer]) = outstanding events := outstanding_concat _
  have hpending : pending (events ++ [added cmdBuffer]) = some cmdBuffer := pending_concat _
  refine ⟨fun surface hs => h.numbered surface (by simpa using hs), fun surface hs => ?_,
    fun surface hs _ next hn => ?_, fun surface _ _ next hn _ => .inl ?_⟩
  · exact List.mem_append_left _ (h.held surface (hout ▸ hs))
  · obtain rfl : cmdBuffer = next := Option.some.inj (hpending ▸ hn)
    rw [since_concat (h.held surface (hout ▸ hs))]
    exact ⟨rfl, by simp⟩
  · rw [hpending, hn]

/-- What is submitted leaves the slot, or stays there and was submitted. -/
theorem Linked.submit (h : Linked events surfaces final armed)
    (ha : armed' → final' = some cmdBuffer ∧ created = false) :
    Linked (events ++ [submitted surface cmdBuffer created]) surfaces final' armed' := by
  have hout : outstanding (events ++ [submitted surface cmdBuffer created]) = outstanding events := outstanding_concat _
  have hpending : pending (events ++ [submitted surface cmdBuffer created]) = none := pending_concat _
  refine ⟨fun surface hs => h.numbered surface (by simpa using hs), fun surface hs => ?_, ?_,
    fun surface hs harmed next hn _ => .inr ?_⟩
  · exact List.mem_append_left _ (h.held surface (hout ▸ hs))
  · simp [hpending]
  · obtain ⟨rfl, rfl⟩ := ha harmed
    obtain rfl : cmdBuffer = next := Option.some.inj hn
    simp [addedSubmissions, addedSubmission]

/-- A submission from the slot keeps the events fresh if and only if a fresh buffer was added. -/
theorem Linked.fresh_iff (h : Linked events surfaces (some cmdBuffer) true) (hs : outstanding events = some surface) :
    Fresh (events ++ [submitted surface cmdBuffer false]) ↔ Fresh events ∧ AddsFresh events := by
  rw [fresh_concat]
  apply and_congr_right
  intro _
  constructor
  · rintro ⟨hadded, hn⟩
    have hn : cmdBuffer ∉ addedSubmissions events := hn cmdBuffer rfl
    rcases h.taken surface hs rfl cmdBuffer rfl hadded with hp | hm
    · exact ⟨cmdBuffer, hp, hn⟩
    · exact (hn hm).elim
  · rintro ⟨next, hp, hn⟩
    obtain ⟨heq, hadded⟩ := h.waiting surface hs rfl next hp
    obtain rfl := Option.some.inj heq
    refine ⟨hadded, fun other ho => ?_⟩
    obtain rfl : cmdBuffer = other := Option.some.inj ho
    exact hn

end FinalEvent
end Ogre.Hal
