import Ogre.Library.Holders
import Ogre.Library.Machine

/-! Reference counted objects and the pointers to them, on any number of threads. A step of a thread is one access
to a reference count, or what the thread does with pointers that no other thread uses meanwhile. -/
namespace Ogre.Fml
open Ogre.Library

/-- Where a `RefPtr` is: in a variable, or in an object that has it as a member. -/
inductive Slot
  | var (n : Nat)
  | member (object index : Nat)
  deriving DecidableEq

/-- `RefCountedThreadSafeBase`, with the number of the object's members that are `RefPtr`s, and how often the
object was destroyed. -/
structure RefCounted where
  refCount : Nat := 1
  adoptionRequired : Bool := true
  destructionStarted : Bool := false
  members : Nat
  destroyed : Nat := 0

namespace RefCounted

/-- What `AddRef` and `Release` assert. -/
def mayBeShared (o : RefCounted) : Bool := !o.adoptionRequired && !o.destructionStarted

def addRef (bits : Nat) (o : RefCounted) : RefCounted := { o with refCount := (o.refCount + 1) % 2 ^ bits }

def hasOneRef (o : RefCounted) : Bool := o.refCount == 1

/-- `Release` is true for the caller that is to delete the object, which is who releases the last reference. -/
def release (bits : Nat) (o : RefCounted) : RefCounted :=
  { o with
    refCount := (o.refCount + (2 ^ bits - 1)) % 2 ^ bits
    destructionStarted := o.destructionStarted || o.hasOneRef }

def adopt (o : RefCounted) : RefCounted := { o with adoptionRequired := false }

/-- What the destructor of the base asserts. -/
def mayBeDestroyed (o : RefCounted) : Bool := !o.adoptionRequired && o.destructionStarted

def destroy (o : RefCounted) : RefCounted := { o with destroyed := o.destroyed + 1 }

end RefCounted

/-- What a thread does with `RefPtr`s. A member is used through `via`, pointers that stay as they are meanwhile. -/
inductive Operation
  /-- `RefPtr()` -/
  | null (dst : Nat)
  /-- `MakeRefCounted` -/
  | make (dst members : Nat)
  /-- `RefPtr(const RefPtr&)`, `RefPtr(src.get())` and `Clone` -/
  | copy (dst : Nat) (src : Slot) (via : List Slot)
  /-- `RefPtr(RefPtr&&)` -/
  | move (dst : Nat) (src : Slot) (via : List Slot)
  /-- `operator=(const RefPtr&)` -/
  | assign (dst src : Slot) (via : List Slot)
  /-- `operator=(RefPtr&&)` -/
  | moveAssign (dst src : Slot) (via : List Slot)
  /-- `operator=(nullptr)` -/
  | reset (dst : Slot) (via : List Slot)
  | swap (dst src : Slot) (via : List Slot)
  /-- `~RefPtr()` -/
  | destruct (dst : Nat)

/-- Where a thread is in an operation. -/
inductive Frame
  /-- The copy constructor, before `AddRef`. -/
  | construct (dst : Nat) (src : Slot) (p : Option Nat) (via : List Slot)
  /-- The copy assignment, before `AddRef`. -/
  | assign (dst src : Slot) (p : Option Nat) (via : List Slot)
  /-- The copy assignment, after `AddRef`. -/
  | store (dst : Slot) (p : Option Nat) (via : List Slot)
  /-- The move assignment, whose temporary is to be swapped. -/
  | swap (temp : Option Nat) (dst : Slot) (via : List Slot)
  /-- `AdoptRef` of a new object. -/
  | adopt (dst o : Nat)
  /-- Before the `Release` of a pointer that nobody else has. -/
  | release (p : Option Nat)
  /-- The destructor of an object, with as many members left. -/
  | destroy (o left : Nat)

namespace Operation

def writes : Operation → List Slot
  | .null dst | .make dst _ | .copy dst _ _ | .destruct dst => [.var dst]
  | .move dst src _ => [.var dst, src]
  | .assign dst _ _ | .reset dst _ => [dst]
  | .moveAssign dst src _ | .swap dst src _ => [dst, src]

def reads : Operation → List Slot
  | .null _ | .make _ _ | .destruct _ => []
  | .copy _ src via | .assign _ src via => src :: via
  | .move _ _ via | .moveAssign _ _ via | .reset _ via | .swap _ _ via => via

/-- The variable of which the operation makes a `RefPtr`. -/
def constructs : Operation → Option Nat
  | .null dst | .make dst _ | .copy dst _ _ | .move dst _ _ => some dst
  | .assign _ _ _ | .moveAssign _ _ _ | .reset _ _ | .swap _ _ _ | .destruct _ => none

def via : Operation → List Slot
  | .null _ | .make _ _ | .destruct _ => []
  | .copy _ _ via | .move _ _ via | .assign _ _ via | .moveAssign _ _ via | .reset _ via | .swap _ _ via => via

/-- The pointers that the operation needs to be there. -/
def uses : Operation → List Slot
  | .null _ | .make _ _ => []
  | .copy _ src via | .move _ src via => src :: via
  | .assign dst src via | .moveAssign dst src via | .swap dst src via => dst :: src :: via
  | .reset dst via => dst :: via
  | .destruct dst => [.var dst]

end Operation

namespace Frame

/-- What the rest of the operation writes, and what it needs to stay as it is. -/
def writes : Frame → List Slot
  | .construct dst _ _ _ | .adopt dst _ => [.var dst]
  | .assign dst _ _ _ | .store dst _ _ | .swap _ dst _ => [dst]
  | .release _ | .destroy _ _ => []

def reads : Frame → List Slot
  | .construct _ src _ via | .assign _ src _ via => src :: via
  | .store _ _ via | .swap _ _ via => via
  | .adopt _ _ | .release _ | .destroy _ _ => []

/-- The object that the thread has a reference to, besides those in slots. -/
def held : Frame → Option Nat
  | .store _ p _ | .swap p _ _ | .release p => p
  | .adopt _ o => some o
  | .construct _ _ _ _ | .assign _ _ _ _ | .destroy _ _ => none

theorem held_construct {dst : Nat} {src : Slot} {p : Option Nat} {via : List Slot} :
    (Frame.construct dst src p via).held = none := rfl

theorem held_assign {dst src : Slot} {p : Option Nat} {via : List Slot} :
    (Frame.assign dst src p via).held = none := rfl

theorem held_store {dst : Slot} {p : Option Nat} {via : List Slot} : (Frame.store dst p via).held = p := rfl

theorem held_swap {dst : Slot} {p : Option Nat} {via : List Slot} : (Frame.swap p dst via).held = p := rfl

theorem held_adopt {dst o : Nat} : (Frame.adopt dst o).held = some o := rfl

theorem held_release {p : Option Nat} : (Frame.release p).held = p := rfl

theorem held_destroy {o left : Nat} : (Frame.destroy o left).held = none := rfl

/-- The variable that is to become a `RefPtr`. -/
def constructs : Frame → Option Nat
  | .construct dst _ _ _ | .adopt dst _ => some dst
  | .assign _ _ _ _ | .store _ _ _ | .swap _ _ _ | .release _ | .destroy _ _ => none

/-- The pointers that the rest of the operation needs to be there. -/
def uses : Frame → List Slot
  | .construct _ src _ via => src :: via
  | .assign dst src _ via => dst :: src :: via
  | .store dst _ via | .swap _ dst via => dst :: via
  | .adopt _ _ | .release _ | .destroy _ _ => []

def via : Frame → List Slot
  | .construct _ _ _ via | .assign _ _ _ via | .store _ _ via | .swap _ _ via => via
  | .adopt _ _ | .release _ | .destroy _ _ => []

/-- What was read of a pointer that is to be copied. -/
def copies : Frame → Option (Slot × Option Nat)
  | .construct _ src p _ | .assign _ src p _ => some (src, p)
  | .store _ _ _ | .swap _ _ _ | .adopt _ _ | .release _ | .destroy _ _ => none

def adopting : Frame → Option Nat
  | .adopt _ o => some o
  | _ => none

def destroying : Frame → Option Nat
  | .destroy o _ => some o
  | _ => none

/-- How many members of an object this destructor has left. -/
def left (o : Nat) : Frame → Nat
  | .destroy object left => if object = o then left else 0
  | _ => 0

end Frame

/-- `faults` counts the assertions that failed, and the accesses to objects that are destroyed. -/
structure Memory (τ : Type) where
  pointers : Slot → Option (Option Nat) := fun _ => none
  objects : List RefCounted := []
  frames : τ → List Frame := fun _ => []
  faults : Nat := 0

namespace Memory
variable {τ : Type} {m : Memory τ} {s : Slot} {v : Option (Option Nat)} {o : Nat} {asserted : RefCounted → Bool}
  {f : RefCounted → RefCounted} {bits : Nat} {p : Option Nat}

def get (m : Memory τ) (s : Slot) : Option Nat := (m.pointers s).join

def set (m : Memory τ) (s : Slot) (v : Option (Option Nat)) : Memory τ :=
  { m with pointers := Function.update m.pointers s v }

@[simp] theorem get_set : (m.set s v).get = Function.update m.get s v.join := by
  funext other
  by_cases h : other = s
  · subst h
    simp [get, set]
  · simp [get, set, h]

@[simp] theorem objects_set : (m.set s v).objects = m.objects := rfl

@[simp] theorem frames_set : (m.set s v).frames = m.frames := rfl

@[simp] theorem faults_set : (m.set s v).faults = m.faults := rfl

def access (m : Memory τ) (o : Nat) (asserted : RefCounted → Bool) (f : RefCounted → RefCounted) : Memory τ :=
  match m.objects[o]? with
  | none => { m with faults := m.faults + 1 }
  | some object =>
    { m with
      objects := m.objects.set o (f object)
      faults := m.faults + if asserted object ∧ object.destroyed = 0 then 0 else 1 }

@[simp] theorem pointers_access : (m.access o asserted f).pointers = m.pointers := by
  unfold access
  split <;> rfl

@[simp] theorem get_access : (m.access o asserted f).get = m.get := by
  unfold get
  rw [pointers_access]

@[simp] theorem frames_access : (m.access o asserted f).frames = m.frames := by
  unfold access
  split <;> rfl

/-- The access to an object for which what it asserts is true. -/
theorem access_eq {asserted : RefCounted → Bool} {f : RefCounted → RefCounted} {object : RefCounted}
    (h : m.objects[o]? = some object) (ha : asserted object) (hd : object.destroyed = 0) :
    m.access o asserted f = { m with objects := m.objects.set o (f object) } := by
  unfold access
  rw [h]
  simp [ha, hd]

def addRef (bits : Nat) (m : Memory τ) : Option Nat → Memory τ
  | none => m
  | some o => m.access o RefCounted.mayBeShared (RefCounted.addRef bits)

@[simp] theorem pointers_addRef : (m.addRef bits p).pointers = m.pointers := by
  cases p with
  | none => rfl
  | some o => exact pointers_access

@[simp] theorem get_addRef : (m.addRef bits p).get = m.get := by
  cases p with
  | none => rfl
  | some o => exact get_access

@[simp] theorem frames_addRef : (m.addRef bits p).frames = m.frames := by
  cases p with
  | none => rfl
  | some o => exact frames_access

def adopt (m : Memory τ) (o : Nat) : Memory τ := m.access o RefCounted.adoptionRequired RefCounted.adopt

def destroy (m : Memory τ) (o : Nat) : Memory τ := m.access o RefCounted.mayBeDestroyed RefCounted.destroy

/-- `new`, where the members are null at first. -/
def make (m : Memory τ) (members : Nat) : Memory τ :=
  { m with
    pointers := fun
      | .member o i => if o = m.objects.length ∧ i < members then some none else m.pointers (.member o i)
      | .var n => m.pointers (.var n)
    objects := m.objects ++ [{ members }] }

section Threads
variable [DecidableEq τ] {t : τ} {next : List Frame}

/-- The thread goes on with these frames. -/
def goOn (m : Memory τ) (t : τ) (next : List Frame) : Memory τ :=
  { m with frames := Function.update m.frames t next }

@[simp] theorem pointers_goOn : (m.goOn t next).pointers = m.pointers := rfl

@[simp] theorem get_goOn : (m.goOn t next).get = m.get := rfl

@[simp] theorem objects_goOn : (m.goOn t next).objects = m.objects := rfl

@[simp] theorem faults_goOn : (m.goOn t next).faults = m.faults := rfl

/-- `Release`, and `delete` where it was the last reference. -/
def release (bits : Nat) (m : Memory τ) (t : τ) (o : Nat) (rest : List Frame) : Memory τ :=
  let released := m.access o (fun object => object.mayBeShared && object.refCount != 0) (RefCounted.release bits)
  match m.objects[o]? with
  | none => released.goOn t rest
  | some object => released.goOn t (if object.hasOneRef then .destroy o object.members :: rest else rest)

/-- The next step of a thread. -/
def execute (bits : Nat) (m : Memory τ) (t : τ) (rest : List Frame) : Frame → Memory τ
  | .construct dst _ p _ => ((m.addRef bits p).set (.var dst) (some p)).goOn t rest
  | .assign dst _ p via => (m.addRef bits p).goOn t (.store dst p via :: rest)
  | .store dst p _ | .swap p dst _ => (m.set dst (some p)).goOn t (.release (m.get dst) :: rest)
  | .adopt dst o => ((m.adopt o).set (.var dst) (some (some o))).goOn t rest
  | .release none => m.goOn t rest
  | .release (some o) => m.release bits t o rest
  | .destroy o 0 => (m.destroy o).goOn t rest
  | .destroy o (left + 1) =>
    (m.set (.member o left) none).goOn t (.release (m.get (.member o left)) :: .destroy o left :: rest)

/-- The first step of an operation. -/
def start (m : Memory τ) (t : τ) : Operation → Memory τ
  | .null dst => m.set (.var dst) (some none)
  | .make dst members => (m.make members).goOn t (.adopt dst m.objects.length :: m.frames t)
  | .copy dst src via => m.goOn t (.construct dst src (m.get src) via :: m.frames t)
  | .move dst src _ => (m.set (.var dst) (some (m.get src))).set src (some none)
  | .assign dst src via =>
    if m.get src = m.get dst then m else m.goOn t (.assign dst src (m.get src) via :: m.frames t)
  | .moveAssign dst src via => (m.set src (some none)).goOn t (.swap (m.get src) dst via :: m.frames t)
  | .reset dst via => m.goOn t (.swap none dst via :: m.frames t)
  | .swap dst src _ => (m.set dst (some (m.get src))).set src (some (m.get dst))
  | .destruct dst => (m.set (.var dst) none).goOn t (.release (m.get (.var dst)) :: m.frames t)

/-- Whether there is a pointer among `via` to the object, or it is the object that is held, where the slot is a
member of one. -/
def Reached (m : Memory τ) (held : Option Nat) (via : List Slot) : Slot → Prop
  | .var _ => True
  | .member o _ => held = some o ∨ ∃ v ∈ via, m.get v = some o

instance (m : Memory τ) (held : Option Nat) (via : List Slot) : (s : Slot) → Decidable (m.Reached held via s)
  | .var _ => .isTrue trivial
  | .member o _ => inferInstanceAs (Decidable (held = some o ∨ ∃ v ∈ via, m.get v = some o))

/-- A `RefPtr` that there is, and that is reached. -/
def Usable (m : Memory τ) (via : List Slot) (s : Slot) : Prop := (m.pointers s).isSome ∧ m.Reached none via s

instance (m : Memory τ) (via : List Slot) (s : Slot) : Decidable (m.Usable via s) :=
  inferInstanceAs (Decidable (_ ∧ _))

/-- Whether the operation is one on pointers that there are, and constructs one that there is not. -/
def Valid (m : Memory τ) (op : Operation) : Prop :=
  (∀ dst ∈ op.constructs, m.pointers (.var dst) = none) ∧ ∀ s ∈ op.uses, m.Usable op.via s

instance (m : Memory τ) (op : Operation) : Decidable (m.Valid op) := inferInstanceAs (Decidable (_ ∧ _))

/-- What a thread uses is used by others at most to read it, and then it only reads it too. -/
def Exclusive (m : Memory τ) (t : τ) (op : Operation) : Prop :=
  ∀ u ≠ t, ∀ frame ∈ (m.frames u).head?,
    (∀ s ∈ op.writes, s ∉ frame.writes ∧ s ∉ frame.reads) ∧ ∀ s ∈ op.reads, s ∉ frame.writes

/-- A thread begins an operation outside of any other, or in the destructor of an object. -/
def Free (m : Memory τ) (t : τ) : Prop := ∀ frame ∈ (m.frames t).head?, frame.destroying.isSome

instance (m : Memory τ) (t : τ) : Decidable (m.Free t) :=
  inferInstanceAs (Decidable (∀ frame ∈ (m.frames t).head?, _))

variable [Fintype τ]

instance (m : Memory τ) (t : τ) (op : Operation) : Decidable (m.Exclusive t op) :=
  inferInstanceAs (Decidable (∀ u, u ≠ t → ∀ frame ∈ (m.frames u).head?, _ ∧ _))

inductive Label (τ : Type)
  | start (t : τ) (op : Operation)
  | proceed (t : τ)

def step (bits : Nat) (m : Memory τ) : Label τ → Option (Memory τ)
  | .start t op => if m.Free t ∧ m.Valid op ∧ m.Exclusive t op then some (m.start t op) else none
  | .proceed t =>
    match m.frames t with
    | [] => none
    | frame :: rest => some (m.execute bits t rest frame)

def machine (τ : Type) [DecidableEq τ] [Fintype τ] (bits : Nat) : Machine (Memory τ) (Label τ) := ⟨{}, step bits⟩

end Threads
end Memory
end Ogre.Fml
