import Ogre.Library.Custody
import Ogre.Library.Machine

/-! Closures that are invoked at the end of a scope, and the guards that hand them on to one another. -/
namespace Ogre.Fml
open Ogre.Library

/-- A guard with its closure, if that is not empty. -/
structure ScopedCleanupClosure (κ : Type) where
  closure : Option κ := none
  deriving DecidableEq, Repr

namespace ScopedCleanupClosure
variable {κ : Type}

/-- `SetClosure` and `Release`, with what they return. -/
def setClosure (guard : ScopedCleanupClosure κ) (closure : Option κ) : Option κ × ScopedCleanupClosure κ :=
  (guard.closure, { closure })

def release (guard : ScopedCleanupClosure κ) : Option κ × ScopedCleanupClosure κ :=
  (guard.closure, { closure := none })

/-- `Reset`, with what it invokes. -/
def reset (guard : ScopedCleanupClosure κ) : Option κ × ScopedCleanupClosure κ :=
  match guard.closure with
  | some closure => (some closure, { closure := none })
  | none => (none, guard)

end ScopedCleanupClosure

/-- The guards that are alive, by their addresses, how many closures were installed in them, and
which were invoked, and handed back to a caller. Closures have the numbers in which they were installed. -/
structure CleanupClosures where
  guards : Nat → Option (ScopedCleanupClosure Nat) := fun _ => none
  installed : Nat := 0
  invoked : List Nat := []
  handedBack : List Nat := []

namespace CleanupClosures

def setGuard (s : CleanupClosures) (address : Nat) (guard : Option (ScopedCleanupClosure Nat)) : CleanupClosures :=
  { s with guards := Function.update s.guards address guard }

/-- A closure that a caller passes, which may be empty. -/
def install (s : CleanupClosures) (isSet : Bool) : Option Nat × CleanupClosures :=
  if isSet then (some s.installed, { s with installed := s.installed + 1 }) else (none, s)

def construct (s : CleanupClosures) (address : Nat) : CleanupClosures := s.setGuard address (some {})

def constructClosure (s : CleanupClosures) (address : Nat) (isSet : Bool) : CleanupClosures :=
  let (closure, s) := s.install isSet
  s.setGuard address (some { closure })

/-- The move constructor and the move assignment: what the other guard releases is assigned, and what was
there before is not looked at. -/
def move (s : CleanupClosures) (address : Nat) (other : ScopedCleanupClosure Nat) (otherAddress : Nat) :
    CleanupClosures :=
  let (closure, other) := other.release
  (s.setGuard otherAddress (some other)).setGuard address (some { closure })

def setClosure (s : CleanupClosures) (address : Nat) (guard : ScopedCleanupClosure Nat) (isSet : Bool) :
    CleanupClosures :=
  let (closure, s) := s.install isSet
  let (old, guard) := guard.setClosure closure
  { s.setGuard address (some guard) with handedBack := s.handedBack ++ old.toList }

def release (s : CleanupClosures) (address : Nat) (guard : ScopedCleanupClosure Nat) : CleanupClosures :=
  let (closure, guard) := guard.release
  { s.setGuard address (some guard) with handedBack := s.handedBack ++ closure.toList }

def reset (s : CleanupClosures) (address : Nat) (guard : ScopedCleanupClosure Nat) : CleanupClosures :=
  let (closure, guard) := guard.reset
  { s.setGuard address (some guard) with invoked := s.invoked ++ closure.toList }

def destruct (s : CleanupClosures) (address : Nat) (guard : ScopedCleanupClosure Nat) : CleanupClosures :=
  (s.reset address guard).setGuard address none

inductive Label
  | construct (address : Nat)
  | constructClosure (address : Nat) (isSet : Bool)
  | moveConstruct (address other : Nat)
  | moveAssign (address other : Nat)
  | setClosure (address : Nat) (isSet : Bool)
  | release (address : Nat)
  | reset (address : Nat)
  | destruct (address : Nat)
  deriving DecidableEq, Repr

/-- Guards are constructed where there are none, and used while they are alive. -/
def step (s : CleanupClosures) : Label → Option CleanupClosures
  | .construct address => if (s.guards address).isSome then none else some (s.construct address)
  | .constructClosure address isSet =>
    if (s.guards address).isSome then none else some (s.constructClosure address isSet)
  | .moveConstruct address other =>
    if (s.guards address).isSome then none else (s.guards other).map fun guard => s.move address guard other
  | .moveAssign address other =>
    if (s.guards address).isNone then none else (s.guards other).map fun guard => s.move address guard other
  | .setClosure address isSet => (s.guards address).map fun guard => s.setClosure address guard isSet
  | .release address => (s.guards address).map fun guard => s.release address guard
  | .reset address => (s.guards address).map fun guard => s.reset address guard
  | .destruct address => (s.guards address).map fun guard => s.destruct address guard

def machine : Machine CleanupClosures Label := ⟨{}, step⟩

/-- The closure of the guard at an address. -/
def closure (s : CleanupClosures) (address : Nat) : Option Nat := (s.guards address).bind (·.closure)

/-- One guard has the closure, which was neither invoked nor handed back; or none has it, and it was
either invoked or handed back, once. -/
def Accounted (s : CleanupClosures) (closure : Nat) : Prop :=
  (∃ address, ∀ other, s.closure other = some closure ↔ other = address) ∧
      s.invoked.count closure + s.handedBack.count closure = 0 ∨
    (∀ address, s.closure address ≠ some closure) ∧ s.invoked.count closure + s.handedBack.count closure = 1

/-- No closure is lost, and none is invoked or handed back twice. -/
def ExactlyOnce (s : CleanupClosures) : Prop := ∀ closure < s.installed, s.Accounted closure

/-- A guard that has a closure is assigned another guard. -/
def Overwrites (s : CleanupClosures) (a : Label) (_ : CleanupClosures) : Prop :=
  ∃ address other, a = .moveAssign address other ∧ address ≠ other ∧ s.closure address ≠ none

/-- Who has the closures. -/
def custody (s : CleanupClosures) : Custody Nat where
  held := s.closure
  made := s.installed
  gone := ↑(s.invoked ++ s.handedBack)

section Runs
variable {s t : CleanupClosures} {a : Label} {address other : Nat} {guard : ScopedCleanupClosure Nat} {isSet : Bool}

theorem closure_setGuard {guard : Option (ScopedCleanupClosure Nat)} :
    (s.setGuard address guard).closure = Function.update s.closure address (guard.bind (·.closure)) := by
  funext x
  unfold closure setGuard
  by_cases hx : x = address
  · subst hx
    simp
  · simp [hx]

theorem closure_of_guards (h : s.guards address = some guard) : s.closure address = guard.closure := by
  rw [closure, h]
  rfl

theorem closure_of_none (h : s.guards address = none) : s.closure address = none := by
  rw [closure, h]
  rfl

/-- A guard that comes with no closure, or goes without one, makes no difference. -/
theorem custody_setGuard {guard : Option (ScopedCleanupClosure Nat)} (h : s.closure address = none)
    (hguard : guard.bind (·.closure) = none) : (s.setGuard address guard).custody = s.custody := by
  refine Custody.ext ?_ rfl rfl rfl
  change (s.setGuard address guard).closure = s.closure
  rw [closure_setGuard, hguard, ← h]
  exact Function.update_eq_self address s.closure

theorem custody_constructClosure : (s.constructClosure address true).custody =
    s.custody.make.put address := by
  refine Custody.ext ?_ rfl rfl rfl
  exact closure_setGuard

theorem custody_move (h : s.guards other = some guard) : (s.move address guard other).custody =
    (s.custody.take other).put address := by
  refine Custody.ext ?_ rfl rfl rfl
  change (setGuard _ _ _).closure = _
  rw [closure_setGuard, closure_setGuard]
  change _ = Function.update (Function.update s.closure other none) address (s.closure other)
  rw [closure_of_guards h]
  rfl

/-- A closure that is taken out goes to those that were invoked or handed back. -/
private theorem gone_take (h : s.guards address = some guard) : (s.custody.take address).dispose.gone =
    ↑(guard.closure.toList ++ (s.invoked ++ s.handedBack)) := by
  have hclosure : (s.custody.take address).inTransit = guard.closure := closure_of_guards h
  cases hguard : guard.closure with
  | none => exact Custody.unheld_none (hclosure.trans hguard)
  | some closure => exact Custody.unheld_some (hclosure.trans hguard)

theorem custody_release (h : s.guards address = some guard) : (s.release address guard).custody =
    (s.custody.take address).dispose := by
  refine Custody.ext closure_setGuard rfl rfl ?_
  rw [gone_take h]
  refine Multiset.coe_eq_coe.mpr ?_
  change (s.invoked ++ (s.handedBack ++ guard.closure.toList)).Perm _
  rw [← List.append_assoc]
  exact List.perm_append_comm

theorem custody_reset (h : s.guards address = some guard) : (s.reset address guard).custody =
    (s.custody.take address).dispose := by
  have hreset : guard.reset = guard.release := by
    obtain ⟨_ | closure⟩ := guard <;> rfl
  unfold reset
  rw [hreset]
  refine Custody.ext closure_setGuard rfl rfl ?_
  rw [gone_take h]
  refine Multiset.coe_eq_coe.mpr ?_
  change ((s.invoked ++ guard.closure.toList) ++ s.handedBack).Perm _
  rw [← List.append_assoc]
  exact List.perm_append_comm.append_right _

theorem custody_setClosure (h : s.guards address = some guard) : (s.setClosure address guard true).custody =
    (s.custody.take address).dispose.make.put address := by
  refine Custody.ext ?_ rfl rfl ?_
  · change (setGuard _ _ _).closure = Function.update (Function.update s.closure address none) address _
    rw [closure_setGuard, Function.update_idem]
    rfl
  · have hgone := congrArg Custody.gone (custody_release h)
    exact hgone

/-- Without a closure to set, `SetClosure` is `Release`. -/
theorem setClosure_false : s.setClosure address guard false = s.release address guard := rfl

theorem custody_destruct (h : s.guards address = some guard) : (s.destruct address guard).custody =
    (s.custody.take address).dispose := by
  rw [← custody_reset h]
  refine custody_setGuard ?_ rfl
  have hheld := congrFun (congrArg Custody.held (custody_reset h)) address
  exact hheld.trans (Custody.held_take.trans (if_pos rfl))

/-- What is taken from one guard is put into another that has no closure, or into the same. -/
theorem sound_move (h : s.custody.Sound) (hother : s.guards other = some guard)
    (hempty : address = other ∨ s.closure address = none) : (s.move address guard other).custody.Sound := by
  rw [custody_move hother]
  refine (h.take rfl other).put ?_
  rw [Custody.held_take]
  split
  · rfl
  next hne => exact hempty.resolve_left hne

theorem sound_step (h : s.custody.Sound) (hs : s.step a = some t) (ha : ¬ Overwrites s a t) : t.custody.Sound := by
  cases a with
  | construct address =>
    obtain ⟨hfresh, hs⟩ := Option.ite_none_left_eq_some.mp hs
    obtain rfl := Option.some.inj hs
    rw [construct, custody_setGuard (closure_of_none (Option.not_isSome_iff_eq_none.mp hfresh)) rfl]
    exact h
  | constructClosure address isSet =>
    obtain ⟨hfresh, hs⟩ := Option.ite_none_left_eq_some.mp hs
    obtain rfl := Option.some.inj hs
    have hempty := closure_of_none (Option.not_isSome_iff_eq_none.mp hfresh)
    cases isSet with
    | false =>
      have hcustody : (s.constructClosure address false).custody = s.custody := custody_setGuard hempty rfl
      exact hcustody ▸ h
    | true =>
      rw [custody_constructClosure]
      exact (h.make rfl).put hempty
  | moveConstruct address other =>
    obtain ⟨hfresh, hs⟩ := Option.ite_none_left_eq_some.mp hs
    obtain ⟨guard, hother, rfl⟩ := Option.map_eq_some_iff.mp hs
    exact sound_move h hother (.inr (closure_of_none (Option.not_isSome_iff_eq_none.mp hfresh)))
  | moveAssign address other =>
    obtain ⟨-, hs⟩ := Option.ite_none_left_eq_some.mp hs
    obtain ⟨guard, hother, rfl⟩ := Option.map_eq_some_iff.mp hs
    refine sound_move h hother ?_
    by_contra hneither
    exact ha ⟨address, other, rfl, not_or.mp hneither⟩
  | setClosure address isSet =>
    obtain ⟨guard, hguard, rfl⟩ := Option.map_eq_some_iff.mp hs
    have hreleased := (h.take rfl address).dispose
    cases isSet with
    | false => exact setClosure_false ▸ custody_release hguard ▸ hreleased
    | true =>
      rw [custody_setClosure hguard]
      exact (hreleased.make rfl).put (Custody.held_take.trans (if_pos rfl))
  | release address =>
    obtain ⟨guard, hguard, rfl⟩ := Option.map_eq_some_iff.mp hs
    exact custody_release hguard ▸ (h.take rfl address).dispose
  | reset address =>
    obtain ⟨guard, hguard, rfl⟩ := Option.map_eq_some_iff.mp hs
    exact custody_reset hguard ▸ (h.take rfl address).dispose
  | destruct address =>
    obtain ⟨guard, hguard, rfl⟩ := Option.map_eq_some_iff.mp hs
    exact custody_destruct hguard ▸ (h.take rfl address).dispose

theorem exactlyOnce_of_sound (h : s.custody.Sound) : s.ExactlyOnce := by
  intro closure hinstalled
  have hplace := h.held_or_gone rfl hinstalled
  rwa [custody, Multiset.coe_count, List.count_append] at hplace

/-- The closure that is overwritten is nowhere any more. -/
theorem not_exactlyOnce (h : s.custody.Sound) (hs : s.step a = some t) (ha : Overwrites s a t) : ¬ t.ExactlyOnce := by
  obtain ⟨address, other, rfl, hne, hset⟩ := ha
  obtain ⟨-, hs⟩ := Option.ite_none_left_eq_some.mp hs
  obtain ⟨guard, hother, rfl⟩ := Option.map_eq_some_iff.mp hs
  obtain ⟨closure, hclosure⟩ := Option.ne_none_iff_exists'.mp hset
  have htaken : (s.custody.take other).held address = some closure := by
    rw [Custody.held_take, if_neg hne]
    exact hclosure
  obtain ⟨hnobody, hgone⟩ := (h.take rfl other).lost_put htaken
  have hinstalled : closure < s.installed := (h.made closure).mpr (.inl ⟨address, hclosure⟩)
  have hcount : s.invoked.count closure + s.handedBack.count closure = 0 := by
    rw [← List.count_append]
    exact List.count_eq_zero.mpr hgone
  rw [← custody_move hother] at hnobody
  intro hall
  rcases hall closure hinstalled with ⟨⟨holder, hholder⟩, -⟩ | ⟨-, hone⟩
  · exact hnobody holder ((hholder holder).mpr rfl)
  · have hzero : (s.move address guard other).invoked.count closure +
        (s.move address guard other).handedBack.count closure = 0 := hcount
    omega

theorem sound_init : machine.init.custody.Sound where
  unique _ _ _ h := by cases h
  nodup := Multiset.nodup_zero
  apart _ _ h := by cases h
  made token := by
    refine iff_of_false (Nat.not_lt_zero token) ?_
    rintro (⟨i, hi⟩ | hgone)
    · cases hi
    · exact absurd hgone (Multiset.notMem_zero token)

/-- In a run all closures are invoked or handed back once, at the latest with their guard, exactly if no
guard that has one is assigned another guard. -/
theorem exactlyOnce_iff (labels : List Label) : machine.Along (fun _ _ t => t.ExactlyOnce) machine.init labels ↔
    machine.Along (fun s a t => ¬ Overwrites s a t) machine.init labels := by
  refine Machine.along_iff (I := fun s => s.custody.Sound) ?_ (fun _ _ _ h ha hs => sound_step h hs ha) sound_init
  intro s a t h hs
  constructor
  · exact fun hall ha => not_exactlyOnce h hs ha hall
  · exact fun ha => exactlyOnce_of_sound (sound_step h hs ha)

/-- A guard with a closure is assigned an empty one. -/
theorem exactlyOnce_overwritten :
    ¬ machine.Along (fun _ _ t => t.ExactlyOnce) machine.init
      [.constructClosure 1 true, .construct 2, .moveAssign 1 2, .destruct 1, .destruct 2] := by
  intro h
  have hlost := Machine.Along.after [Label.constructClosure 1 true, .construct 2] h rfl rfl
  have hfirst := sound_step sound_init (a := .constructClosure 1 true) rfl (by rintro ⟨_, _, ⟨⟩, _⟩)
  have hsecond := sound_step hfirst (a := .construct 2) rfl (by rintro ⟨_, _, ⟨⟩, _⟩)
  exact not_exactlyOnce hsecond rfl ⟨1, 2, rfl, by decide, by decide⟩ hlost

end Runs

end CleanupClosures
end Ogre.Fml
