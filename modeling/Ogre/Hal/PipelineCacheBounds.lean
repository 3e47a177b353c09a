import Ogre.Hal.PipelineCacheData

/-! Which part of the cache file is read back and passed to the driver, whatever is in the file. -/
namespace Ogre.Hal
open Ogre.Library

/-- `pInitialData` with `initialDataSize`. -/
structure PipelineCacheCreateInfo where
  initialData : Option NonOwnedMapping := none
  deriving DecidableEq, Repr

structure PipelineCache where
  cache : Option Nat := none
  isValid : Bool := false
  deriving DecidableEq, Repr

/-- The cache with what the driver was asked to create it from. `created` and `fresh` are what the
driver answers with data and without. -/
def newPipelineCache (caps : Option VkPhysicalDeviceProperties) (device : Bool) (cacheDirectory : CacheDirectory)
    (created fresh : Option Nat) : PipelineCache × List PipelineCacheCreateInfo :=
  match caps, device with
  | some props, true =>
    let cacheInfo : PipelineCacheCreateInfo := { initialData := pipelineCacheDataRetrieve cacheDirectory props }
    match created with
    | some cache => ({ cache, isValid := true }, [cacheInfo])
    | none => ({ cache := fresh, isValid := fresh.isSome }, [cacheInfo, {}])
  | _, _ => ({}, [])

def onDiskHeader (file : List UInt8) : PipelineCacheHeaderVK := (PipelineCacheHeaderVK.layout.decode file).1

/-- The file is read, its header is all there and is for the device, and it tells of some data. -/
structure AcceptsFile (cacheDirectory : CacheDirectory) (props : VkPhysicalDeviceProperties) (file : List UInt8) :
    Prop where
  isValid : cacheDirectory.isValid = true
  read : cacheDirectory.files kPipelineCacheFileName = some file
  header : PipelineCacheHeaderVK.sizeof ≤ file.length
  compatible : (onDiskHeader file).isCompatibleWith (.new props 0) = true
  dataSize : (onDiskHeader file).dataSize ≠ 0

/-- The bytes are some of those after the header of the file. -/
def NonOwnedMapping.IsInside (m : NonOwnedMapping) (cacheDirectory : CacheDirectory) : Prop :=
  cacheDirectory.files kPipelineCacheFileName = some m.memory ∧ PipelineCacheHeaderVK.sizeof ≤ m.offset ∧
    m.offset + m.size ≤ m.memory.length

/-- What is read back is inside the file, and so is all that the driver is asked to create a cache from. -/
def ReadsInside (cacheDirectory : CacheDirectory) (props : VkPhysicalDeviceProperties) : Prop :=
  (∀ m, pipelineCacheDataRetrieve cacheDirectory props = some m → m.IsInside cacheDirectory) ∧
  ∀ device created fresh, ∀ info ∈ (newPipelineCache (some props) device cacheDirectory created fresh).2,
    ∀ m, info.initialData = some m → m.IsInside cacheDirectory

variable {cacheDirectory : CacheDirectory} {props : VkPhysicalDeviceProperties} {m : NonOwnedMapping}
  {file : List UInt8}

theorem pipelineCacheDataRetrieve_eq_some : pipelineCacheDataRetrieve cacheDirectory props = some m ↔
    ∃ file, AcceptsFile cacheDirectory props file ∧
      m = ⟨file, PipelineCacheHeaderVK.sizeof, (onDiskHeader file).dataSize.toNat⟩ := by
  constructor
  · intro h
    unfold pipelineCacheDataRetrieve at h
    split at h
    · cases h
    next hvalid =>
      obtain ⟨file, hfile, h⟩ := Option.bind_eq_some_iff.mp h
      split at h
      · cases h
      next hlength =>
        dsimp only at h
        split at h
        · cases h
        next hcompatible =>
          split at h
          · cases h
          next hsize =>
            exact ⟨file, ⟨by simpa using hvalid, hfile, Nat.not_lt.mp hlength,
              by simpa [onDiskHeader] using hcompatible, hsize⟩, (Option.some.inj h).symm⟩
  · rintro ⟨file, ⟨hvalid, hfile, hlength, hcompatible, hsize⟩, rfl⟩
    unfold pipelineCacheDataRetrieve
    rw [hvalid, hfile]
    dsimp only [Option.bind_eq_bind, Option.bind_some]
    rw [if_neg (by decide), if_neg (Nat.not_lt.mpr hlength)]
    change (if !(onDiskHeader file).isCompatibleWith (.new props 0) then none else _) = _
    rw [hcompatible, if_neg (by decide)]
    exact if_neg hsize

/-- Nothing but what is read back is passed on. -/
private theorem newPipelineCache_initialData {device : Bool} {created fresh : Option Nat}
    {info : PipelineCacheCreateInfo} (hm : info.initialData = some m)
    (h : info ∈ (newPipelineCache (some props) device cacheDirectory created fresh).2) :
    pipelineCacheDataRetrieve cacheDirectory props = some m := by
  unfold newPipelineCache at h
  split at h
  next props' hprops =>
    obtain rfl := Option.some.inj hprops
    split at h
    · obtain rfl := List.mem_singleton.mp h
      exact hm
    · rcases List.mem_cons.mp h with rfl | h
      · exact hm
      · obtain rfl := List.mem_singleton.mp h
        cases hm
  next => cases h

/-- The size of the data is nowhere compared with that of the file. -/
theorem readsInside_iff (cacheDirectory : CacheDirectory) (props : VkPhysicalDeviceProperties) :
    ReadsInside cacheDirectory props ↔ ∀ file, AcceptsFile cacheDirectory props file →
      (onDiskHeader file).dataSize.toNat ≤ file.length - PipelineCacheHeaderVK.sizeof := by
  constructor
  · intro h file haccepts
    obtain ⟨-, -, hle⟩ := h.1 _ (pipelineCacheDataRetrieve_eq_some.mpr ⟨file, haccepts, rfl⟩)
    dsimp only at hle
    omega
  · intro h
    have hinside (m : NonOwnedMapping) (hm : pipelineCacheDataRetrieve cacheDirectory props = some m) :
        m.IsInside cacheDirectory := by
      obtain ⟨file, haccepts, rfl⟩ := pipelineCacheDataRetrieve_eq_some.mp hm
      have hsize := h file haccepts
      have hheader := haccepts.header
      refine ⟨haccepts.read, Nat.le_refl _, ?_⟩
      dsimp only
      omega
    exact ⟨hinside, fun device created fresh info hinfo m hm => hinside m (newPipelineCache_initialData hm hinfo)⟩

/-- A file of which all of the data is lost. -/
def truncatedDirectory : CacheDirectory where
  isValid := true
  files _ := some (PipelineCacheHeaderVK.layout.encode (.new someDevice 4096, .replicate 4 0))

theorem readsInside_truncated : ¬ ReadsInside truncatedDirectory someDevice := by
  intro h
  have hheader : onDiskHeader (PipelineCacheHeaderVK.layout.encode (.new someDevice 4096, .replicate 4 0)) =
      .new someDevice 4096 := by
    rw [onDiskHeader, ← List.append_nil (PipelineCacheHeaderVK.layout.encode _),
      PipelineCacheHeaderVK.layout.decode_append]
  have haccepts : AcceptsFile truncatedDirectory someDevice
      (PipelineCacheHeaderVK.layout.encode (.new someDevice 4096, .replicate 4 0)) := by
    refine ⟨rfl, rfl, (PipelineCacheHeaderVK.layout.length_encode _).ge, ?_, ?_⟩
    · rw [hheader]
      exact PipelineCacheHeaderVK.isCompatibleWith_new.mpr rfl
    · rw [hheader]
      decide
  obtain ⟨-, -, hle⟩ := h.1 _ (pipelineCacheDataRetrieve_eq_some.mpr ⟨_, haccepts, rfl⟩)
  rw [hheader, PipelineCacheHeaderVK.layout.length_encode] at hle
  exact absurd hle (by decide)

end Ogre.Hal
