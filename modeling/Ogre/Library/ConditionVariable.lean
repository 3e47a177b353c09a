import Mathlib.Data.List.Basic

/-! Condition variables: the waiters that are blocked on one, and those that are past it again and
come to look at what they have waited for. -/
namespace Ogre.Library

/-- Waiters that are woken come with whether they were notified. -/
structure ConditionVariable (ω : Type*) where
  blocked : List ω := []
  woken : List (ω × Bool) := []

namespace ConditionVariable
variable {ω : Type*}

/-- Some waiter was notified, and has not looked yet. -/
def Notified (c : ConditionVariable ω) : Prop := ∃ w, (w, true) ∈ c.woken

def block (c : ConditionVariable ω) (w : ω) : ConditionVariable ω := { c with blocked := w :: c.blocked }

def notifyAll (c : ConditionVariable ω) : ConditionVariable ω where
  blocked := []
  woken := c.blocked.map (·, true) ++ c.woken

variable [DecidableEq ω]

/-- A waiter that is blocked goes on, with a notification or without. -/
def wake (c : ConditionVariable ω) (w : ω) (notified : Bool) : Option (ConditionVariable ω) :=
  if w ∈ c.blocked then some ⟨c.blocked.erase w, (w, notified) :: c.woken⟩ else none

/-- Any of those that are blocked is notified, if there are any. -/
def notifyOne (c : ConditionVariable ω) : Option ω → Option (ConditionVariable ω)
  | none => if c.blocked = [] then some c else none
  | some w => c.wake w true

/-- A waiter that is woken looks. -/
def leave (c : ConditionVariable ω) (w : ω) (notified : Bool) : Option (ConditionVariable ω) :=
  if (w, notified) ∈ c.woken then some { c with woken := c.woken.erase (w, notified) } else none

variable {c d : ConditionVariable ω} {w v : ω} {notified : Bool} {chosen : Option ω}

theorem wake_eq_some :
    c.wake w notified = some d ↔ w ∈ c.blocked ∧ ⟨c.blocked.erase w, (w, notified) :: c.woken⟩ = d := by
  simp [wake]

theorem leave_eq_some :
    c.leave w notified = some d ↔ (w, notified) ∈ c.woken ∧ { c with woken := c.woken.erase (w, notified) } = d := by
  simp [leave]

/-- Nobody is left without a notification, unless nobody was there. -/
theorem notified_of_notifyOne (h : c.notifyOne chosen = some d) : d.blocked = [] ∨ d.Notified := by
  cases chosen with
  | none =>
    obtain ⟨hempty, rfl⟩ : c.blocked = [] ∧ c = d := by simpa [notifyOne] using h
    exact .inl hempty
  | some w =>
    obtain ⟨-, rfl⟩ := wake_eq_some.mp h
    exact .inr ⟨w, List.mem_cons_self⟩

theorem mem_blocked_of_wake (h : c.wake w notified = some d) (hv : v ∈ d.blocked) : v ∈ c.blocked := by
  obtain ⟨-, rfl⟩ := wake_eq_some.mp h
  exact List.mem_of_mem_erase hv

theorem Notified.wake (hc : c.Notified) (h : c.wake w notified = some d) : d.Notified := by
  obtain ⟨-, rfl⟩ := wake_eq_some.mp h
  exact hc.imp fun _ => List.mem_cons_of_mem _

/-- A waiter that was not notified takes no notification away. -/
theorem Notified.leave (hc : c.Notified) (h : c.leave w false = some d) : d.Notified := by
  obtain ⟨-, rfl⟩ := leave_eq_some.mp h
  obtain ⟨v, hv⟩ := hc
  exact ⟨v, (List.mem_erase_of_ne (by simp)).mpr hv⟩

end ConditionVariable
end Ogre.Library
