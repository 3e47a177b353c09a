import Ogre.Fml.RefPtrLifetimes

/-! Weak pointers, whose flags are reference counted. Over the flags, a weak pointer is nothing but the factory that
it came from. -/
namespace Ogre.Fml
open Ogre.Library

/-- A `WeakPtrFactory` in a variable, which has the flag; `dying` is after the body of its destructor. -/
structure WeakPtrFactory where
  ptr : Nat
  dying : Bool := false
  deriving DecidableEq

/-- The flags are the objects of the memory, with `isValid` for each of them; a variable is the `flag_` of a factory
or of a weak pointer, which has its `ptr_`. -/
structure WeakPtrs (τ : Type) where
  memory : Memory τ := {}
  isValid : List Bool := []
  ptr : Nat → Option Nat := fun _ => none
  factories : Nat → Option WeakPtrFactory := fun _ => none
  faults : Nat := 0

namespace WeakPtrs
variable {τ : Type}

inductive Label (τ : Type)
  /-- `WeakPtrFactory(ptr)` -/
  | factory (t : τ) (n ptr : Nat)
  /-- `GetWeakPtr` -/
  | getWeakPtr (t : τ) (dst n : Nat)
  /-- `WeakPtr()` -/
  | null (t : τ) (dst : Nat)
  | copy (t : τ) (dst src : Nat)
  | move (t : τ) (dst src : Nat)
  | assign (t : τ) (dst src : Nat)
  | moveAssign (t : τ) (dst src : Nat)
  | reset (t : τ) (dst : Nat)
  /-- `~WeakPtr()` -/
  | destruct (t : τ) (dst : Nat)
  /-- The body of `~WeakPtrFactory()`. -/
  | invalidate (t : τ) (n : Nat)
  /-- The end of `~WeakPtrFactory()`, which destructs `flag_`. -/
  | destructFactory (t : τ) (n : Nat)
  | proceed (t : τ)

/-- `get()` of the weak pointer in a variable. -/
def get (w : WeakPtrs τ) (n : Nat) : Option Nat :=
  match w.memory.get (.var n) with
  | none => none
  | some flag => if w.isValid[flag]? = some true then w.ptr n else none

/-- `flag_->Invalidate()` -/
def invalidateFlag (w : WeakPtrs τ) (n : Nat) : WeakPtrs τ :=
  match w.memory.get (.var n) with
  | none => { w with faults := w.faults + 1 }
  | some flag =>
    { w with
      isValid := w.isValid.set flag false
      faults := w.faults + if w.isValid[flag]? = some true then 0 else 1 }

/-- Whether the next step of a thread is the destructor of a flag that is valid. -/
def destroysValid (w : WeakPtrs τ) (t : τ) : Bool :=
  match w.memory.frames t with
  | .destroy flag _ :: _ => w.isValid[flag]? == some true
  | _ => false

variable [DecidableEq τ] [Fintype τ]

/-- A step of the `RefPtr` in a variable. -/
def start (bits : Nat) (w : WeakPtrs τ) (t : τ) (op : Operation) : Option (WeakPtrs τ) :=
  (w.memory.step bits (.start t op)).map fun memory => { w with memory }

def setPtr (w : WeakPtrs τ) (n : Nat) (ptr : Option Nat) : WeakPtrs τ := { w with ptr := Function.update w.ptr n ptr }

def setFactory (w : WeakPtrs τ) (n : Nat) (factory : Option WeakPtrFactory) : WeakPtrs τ :=
  { w with factories := Function.update w.factories n factory }

def step (bits : Nat) (w : WeakPtrs τ) : Label τ → Option (WeakPtrs τ)
  | .factory t n ptr =>
    if w.factories n = none then
      (w.start bits t (.make n 0)).map fun v => { v.setFactory n (some ⟨ptr, false⟩) with isValid := w.isValid ++ [true] }
    else none
  | .getWeakPtr t dst n =>
    match w.factories n with
    | some ⟨ptr, false⟩ =>
      if w.factories dst = none then (w.start bits t (.copy dst (.var n) [])).map fun v => v.setPtr dst (some ptr)
      else none
    | _ => none
  | .null t dst =>
    if w.factories dst = none then (w.start bits t (.null dst)).map fun v => v.setPtr dst none else none
  | .copy t dst src =>
    if w.factories dst = none ∧ w.factories src = none then
      (w.start bits t (.copy dst (.var src) [])).map fun v => v.setPtr dst (w.ptr src)
    else none
  | .move t dst src =>
    if w.factories dst = none ∧ w.factories src = none then
      (w.start bits t (.move dst (.var src) [])).map fun v => v.setPtr dst (w.ptr src)
    else none
  | .assign t dst src =>
    if w.factories dst = none ∧ w.factories src = none then
      (w.start bits t (.assign (.var dst) (.var src) [])).map fun v => v.setPtr dst (w.ptr src)
    else none
  | .moveAssign t dst src =>
    if w.factories dst = none ∧ w.factories src = none then
      (w.start bits t (.moveAssign (.var dst) (.var src) [])).map fun v => v.setPtr dst (w.ptr src)
    else none
  | .reset t dst => if w.factories dst = none then w.start bits t (.reset (.var dst) []) else none
  | .destruct t dst => if w.factories dst = none then w.start bits t (.destruct dst) else none
  | .invalidate t n =>
    match w.factories n with
    | some ⟨ptr, false⟩ =>
      if w.memory.Free t ∧ w.memory.Exclusive t (.destruct n) then
        some ((w.invalidateFlag n).setFactory n (some ⟨ptr, true⟩))
      else none
    | _ => none
  | .destructFactory t n =>
    match w.factories n with
    | some ⟨_, true⟩ => (w.start bits t (.destruct n)).map fun v => v.setFactory n none
    | _ => none
  | .proceed t => (w.memory.step bits (.proceed t)).map fun memory =>
    { w with memory, faults := w.faults + if w.destroysValid t then 1 else 0 }

def machine (τ : Type) [DecidableEq τ] [Fintype τ] (bits : Nat) : Machine (WeakPtrs τ) (Label τ) := ⟨{}, step bits⟩

end WeakPtrs

/-- What weak pointers are for: the factories that were made, with their objects as long as they are there, and the
factory that a variable's weak pointer came from. A factory's own variable has its number. -/
structure WeakOrigins where
  alive : List (Option Nat) := []
  origin : Nat → Option Nat := fun _ => none

namespace WeakOrigins

def set (s : WeakOrigins) (n : Nat) (origin : Option Nat) : WeakOrigins :=
  { s with origin := Function.update s.origin n origin }

/-- The object of the factory, as long as that is there. -/
def get (s : WeakOrigins) (n : Nat) : Option Nat := (s.origin n).bind fun k => s.alive[k]?.join

def kill (s : WeakOrigins) (n : Nat) : WeakOrigins :=
  match s.origin n with
  | none => s
  | some k => { s with alive := s.alive.set k none }

def step {τ : Type} (s : WeakOrigins) : WeakPtrs.Label τ → WeakOrigins
  | .factory _ n ptr => { (s.set n (some s.alive.length)) with alive := s.alive ++ [some ptr] }
  | .getWeakPtr _ dst src | .copy _ dst src | .assign _ dst src => s.set dst (s.origin src)
  | .null _ dst | .reset _ dst | .destruct _ dst | .destructFactory _ dst => s.set dst none
  | .move _ dst src => (s.set dst (s.origin src)).set src none
  | .moveAssign _ dst src => (s.set src none).set dst (s.origin src)
  | .invalidate _ n => s.kill n
  | .proceed _ => s

/-- What is left of a run. -/
def after {τ : Type} : List (WeakPtrs.Label τ) → WeakOrigins := List.foldl step {}

end WeakOrigins
end Ogre.Fml
