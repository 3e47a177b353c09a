import Mathlib.Logic.Function.Basic
import Ogre.Fml.Status
import Ogre.Library.Machine

/-! Descriptor pools: the cache of descriptor sets that each of them keeps by
pipeline key, and the recycler that hands a cache on to a later pool. -/
namespace Ogre.Hal
open Ogre.Fml Ogre.Library

/-- A `vk::DescriptorSet`; the null handle is 0. -/
abbrev DescriptorSet := Nat

def kMaxRecycledPools : Nat := 32

/-- The device: the number of pools it has created, which numbers them, and for
each set that is allocated the pool it is from and its layout. -/
structure DescriptorDevice (L : Type*) where
  pools : Nat := 0
  sets : DescriptorSet → Option (Nat × L) := fun _ => none

/-- What `vkAllocateDescriptorSets` answers. -/
inductive AllocateResult
  | success (set : DescriptorSet)
  | errorOutOfPoolMemory
  | error
  deriving DecidableEq, Repr

def AllocateResult.isSuccess : AllocateResult → Bool
  | .success _ => true
  | _ => false

/-- The answers of the device to the calls that one allocation may make, in
their order: a pool if there is none, a set, another pool, a set. -/
structure Answers where
  createFirst : Bool := true
  first : AllocateResult
  createSecond : Bool := true
  second : AllocateResult := .error
  deriving DecidableEq, Repr

/-- The answer that decides: the second where the first sends the caller for a pool. -/
def Answers.last (a : Answers) : AllocateResult :=
  if a.first = .errorOutOfPoolMemory then a.second else a.first

namespace DescriptorDevice
variable {L : Type*}

/-- `DescriptorPoolRecycler::Create`, which `Get` is. -/
def createPool (d : DescriptorDevice L) (created : Bool) : Option Nat × DescriptorDevice L :=
  if created then (some d.pools, { d with pools := d.pools + 1 }) else (none, d)

def allocate (d : DescriptorDevice L) (pool : Nat) (layout : L) :
    AllocateResult → DescriptorSet × DescriptorDevice L
  | .success set => (set, { d with sets := Function.update d.sets set (some (pool, layout)) })
  | _ => (0, d)

/-- The sets of a pool go with it. -/
def destroyPools (d : DescriptorDevice L) (pools : List Nat) : DescriptorDevice L :=
  { d with sets := fun set => (d.sets set).filter fun x => x.1 ∉ pools }

/-- The device hands out handles that are not null and not in use. -/
def Provides (d : DescriptorDevice L) (a : Answers) : Bool :=
  let new : AllocateResult → Bool
    | .success set => set != 0 && (d.sets set).isNone
    | _ => true
  new a.first && new a.second

end DescriptorDevice

/-- Used and un-used descriptor sets; the last of each is at its back. -/
structure DescriptorCache where
  unused : List DescriptorSet := []
  used : List DescriptorSet := []

/-- What `Reclaim` does to each cache: every used set is unused again. -/
def DescriptorCache.recycle (c : DescriptorCache) : DescriptorCache := ⟨c.unused ++ c.used, []⟩

abbrev DescriptorCacheMap := Int → Option DescriptorCache

structure DescriptorPool where
  descriptorSets : DescriptorCacheMap := fun _ => none
  pools : List Nat := []

namespace DescriptorPool
variable {L : Type*}

def put (P : DescriptorPool) (key : Int) (cache : DescriptorCache) : DescriptorPool :=
  { P with descriptorSets := Function.update P.descriptorSets key (some cache) }

/-- The set at the back of the unused list becomes a used one. -/
def takeUnused (P : DescriptorPool) (key : Int) : Option (DescriptorSet × DescriptorPool) :=
  (P.descriptorSets key).bind fun cache => cache.unused.getLast?.map fun set =>
    (set, P.put key { unused := cache.unused.dropLast, used := cache.used ++ [set] })

/-- `try_emplace` and `push_back`. -/
def pushUsed (P : DescriptorPool) (key : Int) (set : DescriptorSet) : DescriptorPool :=
  let cache := (P.descriptorSets key).getD {}
  P.put key { cache with used := cache.used ++ [set] }

def createNewPool (P : DescriptorPool) (device : DescriptorDevice L) (created : Bool) :
    Status × DescriptorPool × DescriptorDevice L :=
  match device.createPool created with
  | (none, device) => (⟨.kUnknown, "Failed to create descriptor pool"⟩, P, device)
  | (some pool, device) => ({}, { P with pools := P.pools ++ [pool] }, device)

/-- `pools_.back()` is undefined, none here, where there is no pool. -/
def allocateDescriptorSets (P : DescriptorPool) (device : DescriptorDevice L) (layout : L)
    (key : Int) (answers : Answers) :
    Option (StatusOr DescriptorSet × DescriptorPool × DescriptorDevice L) :=
  match P.takeUnused key with
  | some (set, P) => some (.ok set, P, device)
  | none =>
    let (P, device) := if P.pools = [] then (P.createNewPool device answers.createFirst).2
      else (P, device)
    P.pools.getLast?.bind fun pool =>
      let (set, device) := device.allocate pool layout answers.first
      if answers.first = .errorOutOfPoolMemory then
        -- the status of this creation is dropped, and the last pool may be the full one
        let (P, device) := (P.createNewPool device answers.createSecond).2
        P.pools.getLast?.map fun pool =>
          let (set, device) := device.allocate pool layout answers.second
          (result answers.second set, P.pushUsed key set, device)
      else some (result answers.first set, P.pushUsed key set, device)
where
  result : AllocateResult → DescriptorSet → StatusOr DescriptorSet
    | .success _, set => .ok set
    | _, _ => .error ⟨.kUnknown, ""⟩

end DescriptorPool

/-- One device, its context with the recycler, and the `DescriptorPool` objects
that exist, by number. `raw` are the pools that callers of `Get` hold. -/
structure DescriptorPools (L : Type*) where
  device : DescriptorDevice L := {}
  context : Bool := true
  objects : Nat → Option DescriptorPool := fun _ => none
  created : Nat := 0
  recycled : List Nat := []
  raw : List Nat := []
  undefined : Bool := false

namespace DescriptorPools
variable {L : Type*}

/-- `Destroy` and `pop_back` of the last entry, whose destructor then finds no pools. -/
def popRecycled (s : DescriptorPools L) : DescriptorPools L :=
  match s.recycled.getLast? with
  | none => s
  | some o => { s with
      device := s.device.destroyPools ((s.objects o).elim [] DescriptorPool.pools)
      objects := Function.update s.objects o none
      recycled := s.recycled.dropLast }

/-- The `while` loop of `Reclaim`; the length of the list is fuel enough. -/
def trimRecycled : Nat → DescriptorPools L → DescriptorPools L
  | 0, s => s
  | n + 1, s => if kMaxRecycledPools ≤ s.recycled.length then trimRecycled n s.popRecycled else s

/-- The objects of the caller's maps and pools are moved into a new entry. -/
def reclaim (s : DescriptorPools L) (descriptorSets : DescriptorCacheMap)
    (pools : List Nat) : DescriptorPools L :=
  if s.context then
    let s := trimRecycled s.recycled.length s
    { s with
      objects := Function.update s.objects s.created
        (some ⟨fun key => (descriptorSets key).map DescriptorCache.recycle, pools⟩)
      created := s.created + 1
      recycled := s.recycled ++ [s.created] }
  else { s with device := s.device.destroyPools pools }

/-- The destructor; nothing reads the object once its members are moved. -/
def destroy (s : DescriptorPools L) (o : Nat) (P : DescriptorPool) : DescriptorPools L :=
  let s := if P.pools = [] then s
    else if s.context then s.reclaim P.descriptorSets P.pools
    else { s with device := s.device.destroyPools P.pools }
  { s with objects := Function.update s.objects o none }

/-- `DescriptorPoolRecycler::Get`. -/
def get (s : DescriptorPools L) (created : Bool) : Option Nat × DescriptorPools L :=
  if s.context then
    match s.device.createPool created with
    | (none, device) => (none, { s with device })
    | (some pool, device) => (some pool, { s with device, raw := s.raw ++ [pool] })
  else (none, s)

def getDescriptorPool (s : DescriptorPools L) : Nat × DescriptorPools L :=
  match s.recycled.getLast? with
  | some o => (o, { s with recycled := s.recycled.dropLast })
  | none => (s.created, { s with
      objects := Function.update s.objects s.created (some {})
      created := s.created + 1 })

/-- The object of a number, if it is one that callers hold. -/
def held (s : DescriptorPools L) (o : Nat) : Option DescriptorPool :=
  if o ∈ s.recycled then none else s.objects o

/-- What callers do. They give `Reclaim` pools that they got from `Get`, and hold
the context while they allocate. -/
inductive Call (L : Type*)
  | getDescriptorPool
  | get (created : Bool)
  | allocate (o : Nat) (layout : L) (key : Int) (answers : Answers)
  | destroy (o : Nat)
  | reclaim (pools : List Nat)
  | expireContext

/-- The result of `AllocateDescriptorSets` on an object and the state it leaves. -/
def allocate (s : DescriptorPools L) (o : Nat) (P : DescriptorPool) (layout : L) (key : Int)
    (answers : Answers) : Option (StatusOr DescriptorSet) × DescriptorPools L :=
  match P.allocateDescriptorSets s.device layout key answers with
  | none => (none, { s with undefined := true })
  | some (result, P, device) =>
    (some result, { s with device, objects := Function.update s.objects o (some P) })

def step (s : DescriptorPools L) (c : Call L) : Option (DescriptorPools L) :=
  if s.undefined then none else
  match c with
  | .getDescriptorPool => some s.getDescriptorPool.2
  | .get created => some (s.get created).2
  | .allocate o layout key answers =>
    if s.context && s.device.Provides answers then
      (s.held o).map fun P => (s.allocate o P layout key answers).2
    else none
  | .destroy o => (s.held o).map (s.destroy o)
  | .reclaim pools =>
    if pools.Nodup ∧ ∀ p ∈ pools, p ∈ s.raw then
      some { s.reclaim (fun _ => none) pools with raw := s.raw.filter (· ∉ pools) }
    else none
  | .expireContext => some { s with context := false }

def machine : Machine (DescriptorPools L) (Call L) where
  init := {}
  step := step

end DescriptorPools
end Ogre.Hal
