import Ogre.Core.Allocation
import Ogre.Fml.File
import Ogre.Library.Codec

/-! The pipeline cache file: a header that tells which device and driver the data is from,
and the data as the device gave it out. -/
namespace Ogre.Hal
open Ogre.Core Ogre.Library

structure VkPhysicalDeviceProperties where
  driverVersion : UInt32
  vendorID : UInt32
  deviceID : UInt32
  pipelineCacheUUID : Vector UInt8 16
  deriving DecidableEq

/-- `abi` is the size of a pointer. -/
structure PipelineCacheHeaderVK where
  magic : UInt32 := 0xC0DEF00D
  driverVersion : UInt32 := 0
  vendorId : UInt32 := 0
  deviceId : UInt32 := 0
  abi : UInt32 := 8
  uuid : Vector UInt8 16 := .replicate 16 0
  dataSize : UInt64 := 0
  deriving DecidableEq

namespace PipelineCacheHeaderVK

def new (props : VkPhysicalDeviceProperties) (dataSize : UInt64) : PipelineCacheHeaderVK where
  driverVersion := props.driverVersion
  vendorId := props.vendorID
  deviceId := props.deviceID
  uuid := props.pipelineCacheUUID
  dataSize := dataSize

def isCompatibleWith (h o : PipelineCacheHeaderVK) : Bool :=
  h.magic = o.magic ∧ h.driverVersion = o.driverVersion ∧ h.vendorId = o.vendorId ∧ h.deviceId = o.deviceId ∧
    h.abi = o.abi ∧ h.uuid = o.uuid

/-- The members in memory, with the four bytes that align the last one. -/
def layout : Codec (PipelineCacheHeaderVK × Vector UInt8 4) :=
  (Codec.uint32.pair <| Codec.uint32.pair <| Codec.uint32.pair <| Codec.uint32.pair <| Codec.uint32.pair <|
    (Codec.array 16).pair <| (Codec.array 4).pair Codec.uint64).imap
    (fun (magic, driverVersion, vendorId, deviceId, abi, uuid, padding, dataSize) =>
      (⟨magic, driverVersion, vendorId, deviceId, abi, uuid, dataSize⟩, padding))
    (fun (h, padding) => (h.magic, h.driverVersion, h.vendorId, h.deviceId, h.abi, h.uuid, padding, h.dataSize))
    fun _ => rfl

def sizeof : Nat := layout.width

example : sizeof = 48 := rfl

/-- The headers of two devices are compatible where everything that is stored of them agrees. -/
theorem isCompatibleWith_new {props other : VkPhysicalDeviceProperties} {m n : UInt64} :
    (new props m).isCompatibleWith (new other n) ↔ props = other := by
  obtain ⟨driverVersion, vendorID, deviceID, pipelineCacheUUID⟩ := props
  obtain ⟨driverVersion', vendorID', deviceID', pipelineCacheUUID'⟩ := other
  simp [isCompatibleWith, new]

end PipelineCacheHeaderVK

inductive CacheDataResult
  | eSuccess
  | eIncomplete
  | eErrorOutOfHostMemory
  | eErrorOutOfDeviceMemory
  deriving DecidableEq, Repr

/-- What `getPipelineCacheData` answers when it is asked for the size and then for the data,
of which it writes no more than there is room for. -/
structure CacheDataAnswers where
  sizeResult : CacheDataResult
  size : UInt64
  dataResult : CacheDataResult
  data : List UInt8
  data_le : data.length ≤ size.toNat

/-- A part of some memory. -/
structure NonOwnedMapping where
  memory : List UInt8
  offset : Nat
  size : Nat
  deriving DecidableEq, Repr

/-- The bytes, unless some of them lie outside of the memory. -/
def NonOwnedMapping.bytes (m : NonOwnedMapping) : Option (List UInt8) :=
  if m.offset + m.size ≤ m.memory.length then some ((m.memory.drop m.offset).take m.size) else none

/-- A write into a buffer, which is undefined outside of it. -/
def writeBytes (buffer : List UInt8) (offset : Nat) (bytes : List UInt8) : Option (List UInt8) :=
  if offset + bytes.length ≤ buffer.length then
    some (buffer.take offset ++ bytes ++ buffer.drop (offset + bytes.length))
  else none

structure CacheDirectory where
  isValid : Bool
  files : String → Option (List UInt8)

def kPipelineCacheFileName : String := "flutter.ogre.vkcache"

/-- A file is replaced as a whole, or not at all. -/
def CacheDirectory.writeAtomically (directory : CacheDirectory) (fileName : String) (data : List UInt8)
    (written : Bool) : Bool × CacheDirectory :=
  (written, if written then { directory with files := Function.update directory.files fileName (some data) } else directory)

/-- That is what a write by way of a temporary file comes to, but for that file. -/
theorem CacheDirectory.writeAtomically_refines {os : Fml.Posix} {directory : Fml.Directory} {fileName : String}
    {data : Fml.Mapping} {bytes : List UInt8} (hbytes : data.mapping = some bytes) :
    ∃ written after, Fml.writeAtomically os directory (some fileName) data = some (written, after) ∧
      ∀ other, other ≠ Fml.tempFileName fileName → after.files other =
        (CacheDirectory.writeAtomically ⟨directory.isValid, directory.files⟩ fileName bytes written).2.files other := by
  obtain ⟨⟨written, after⟩, hresult, hall⟩ := Fml.writeAtomically_some os directory fileName hbytes
  refine ⟨written, after, hresult, fun other htemp => ?_⟩
  rcases eq_or_ne other fileName with rfl | hne
  · cases written with
    | false => exact hall.nothing rfl other rfl
    | true =>
      obtain ⟨name, hname, written, hwritten, hfile⟩ := hall.all rfl
      obtain rfl := Option.some.inj hname
      obtain rfl := Option.some.inj (hbytes.symm.trans hwritten)
      exact hfile.trans (Function.update_self other (some bytes) directory.files).symm
  · have hother : after.files other = directory.files other :=
      hall.others other (fun h => hne (Option.some.inj h).symm) fun h => htemp (Option.some.inj h).symm
    rw [hother]
    cases written with
    | false => rfl
    | true => exact (Function.update_of_ne hne (some bytes) directory.files).symm

/-- What the calls of `PipelineCacheDataPersist` come back with. The padding of the header is
whatever is there. -/
structure PersistAnswers where
  cache : CacheDataAnswers
  realloc : Realloc
  padding : Vector UInt8 4
  written : Bool

/-- The second half of `PipelineCacheDataPersist`, with the staging buffer. There is no result
where memory outside of the buffer is used. -/
def stageAndWrite (answers : PersistAnswers) (cacheDirectory : CacheDirectory) (props : VkPhysicalDeviceProperties)
    (buffer : List UInt8) : Option (Bool × CacheDirectory) := do
  let buffer ← writeBytes buffer PipelineCacheHeaderVK.sizeof answers.cache.data
  let dataSize := UInt64.ofNat answers.cache.data.length
  match answers.cache.dataResult with
  | .eSuccess | .eIncomplete =>
    let header := PipelineCacheHeaderVK.new props dataSize
    let buffer ← writeBytes buffer 0 (PipelineCacheHeaderVK.layout.encode (header, answers.padding))
    let data ← NonOwnedMapping.bytes ⟨buffer, 0, (UInt64.ofNat PipelineCacheHeaderVK.sizeof + dataSize).toNat⟩
    some (cacheDirectory.writeAtomically kPipelineCacheFileName data answers.written)
  | _ => some (false, cacheDirectory)

def pipelineCacheDataPersist (answers : PersistAnswers) (cacheDirectory : CacheDirectory)
    (props : VkPhysicalDeviceProperties) : Option (Bool × CacheDirectory) :=
  if !cacheDirectory.isValid then some (false, cacheDirectory)
  else if answers.cache.sizeResult ≠ .eSuccess then some (false, cacheDirectory)
  else if answers.cache.size = 0 then some (true, cacheDirectory)
  else
    let length := bytes (UInt64.ofNat PipelineCacheHeaderVK.sizeof + answers.cache.size)
    match Allocation.new.truncate answers.realloc length false with
    | (false, _) => some (false, cacheDirectory)
    | (true, allocation) => stageAndWrite answers cacheDirectory props allocation.buffer

def pipelineCacheDataRetrieve (cacheDirectory : CacheDirectory) (props : VkPhysicalDeviceProperties) :
    Option NonOwnedMapping := do
  if !cacheDirectory.isValid then none
  else
    let onDiskData ← cacheDirectory.files kPipelineCacheFileName
    if onDiskData.length < PipelineCacheHeaderVK.sizeof then none
    else
      let onDiskHeader := (PipelineCacheHeaderVK.layout.decode onDiskData).1
      if !onDiskHeader.isCompatibleWith (.new props 0) then none
      else if onDiskHeader.dataSize = 0 then none
      else some ⟨onDiskData, PipelineCacheHeaderVK.sizeof, onDiskHeader.dataSize.toNat⟩

private theorem writeAtomically_cases {cacheDirectory directory : CacheDirectory} {fileName : String} {data : List UInt8}
    {written : Bool} (h : cacheDirectory.writeAtomically fileName data written = (true, directory)) :
    directory.isValid = cacheDirectory.isValid ∧ directory.files fileName = some data := by
  obtain ⟨rfl, rfl⟩ := Prod.mk.inj h
  exact ⟨rfl, Function.update_self _ _ _⟩

theorem writeBytes_eq_some {buffer bytes new : List UInt8} {offset : Nat} :
    writeBytes buffer offset bytes = some new ↔
      offset + bytes.length ≤ buffer.length ∧ buffer.take offset ++ bytes ++ buffer.drop (offset + bytes.length) = new := by
  simp [writeBytes]

/-- Bytes written in front of others that are written already. -/
private theorem writeBytes_front {buffer first second b c : List UInt8} (hb : writeBytes buffer first.length second = some b)
    (hc : writeBytes b 0 first = some c) :
    first.length + second.length ≤ buffer.length ∧ c = first ++ second ++ buffer.drop (first.length + second.length) := by
  obtain ⟨hle, rfl⟩ := writeBytes_eq_some.mp hb
  obtain ⟨-, rfl⟩ := writeBytes_eq_some.mp hc
  refine ⟨hle, ?_⟩
  have htake : (buffer.take first.length).length = first.length := by
    rw [List.length_take]
    omega
  rw [List.take_zero, List.nil_append, Nat.zero_add, List.append_assoc, List.drop_left' htake, List.append_assoc]

/-- The header and the data fill the mapping that is written to the file. -/
private theorem staged_file {buffer b c data file : List UInt8} {dataSize : UInt64} {header : PipelineCacheHeaderVK}
    {padding : Vector UInt8 4} (hlt : buffer.length < 2 ^ 64)
    (hb : writeBytes buffer PipelineCacheHeaderVK.sizeof data = some b)
    (hc : writeBytes b 0 (PipelineCacheHeaderVK.layout.encode (header, padding)) = some c)
    (hs : dataSize = UInt64.ofNat data.length)
    (hf : NonOwnedMapping.bytes ⟨c, 0, (UInt64.ofNat PipelineCacheHeaderVK.sizeof + dataSize).toNat⟩ = some file) :
    dataSize.toNat = data.length ∧ file = PipelineCacheHeaderVK.layout.encode (header, padding) ++ data := by
  have hsizeof : (PipelineCacheHeaderVK.layout.encode (header, padding)).length = PipelineCacheHeaderVK.sizeof :=
    PipelineCacheHeaderVK.layout.length_encode _
  rw [← hsizeof] at hb
  obtain ⟨hle, rfl⟩ := writeBytes_front hb hc
  rw [hsizeof] at hle
  have h48 : PipelineCacheHeaderVK.sizeof = 48 := rfl
  have hsize : dataSize.toNat = data.length := by
    rw [hs, UInt64.toNat_ofNat', Nat.mod_eq_of_lt]
    omega
  have htotal : (UInt64.ofNat PipelineCacheHeaderVK.sizeof + dataSize).toNat =
      (PipelineCacheHeaderVK.layout.encode (header, padding) ++ data).length := by
    rw [UInt64.toNat_add, hsize, List.length_append, hsizeof, h48]
    apply Nat.mod_eq_of_lt
    change 48 + data.length < 2 ^ 64
    omega
  refine ⟨hsize, ?_⟩
  rw [htotal, NonOwnedMapping.bytes] at hf
  split at hf
  · rw [List.drop_zero, List.take_left'] at hf
    · exact (Option.some.inj hf).symm
    · rfl
  · cases hf

private theorem stageAndWrite_cases {answers : PersistAnswers} {cacheDirectory directory : CacheDirectory}
    {props : VkPhysicalDeviceProperties} {buffer : List UInt8} (hlt : buffer.length < 2 ^ 64)
    (h : stageAndWrite answers cacheDirectory props buffer = some (true, directory)) :
    ∃ (dataSize : UInt64) (file : List UInt8), dataSize.toNat = answers.cache.data.length ∧
      file = PipelineCacheHeaderVK.layout.encode (.new props dataSize, answers.padding) ++ answers.cache.data ∧
      cacheDirectory.writeAtomically kPipelineCacheFileName file answers.written = (true, directory) := by
  obtain ⟨b, hb, h⟩ := Option.bind_eq_some_iff.mp h
  dsimp only at h
  split at h
  case h_1 | h_2 =>
    obtain ⟨c, hc, h⟩ := Option.bind_eq_some_iff.mp h
    obtain ⟨file, hfile, h⟩ := Option.bind_eq_some_iff.mp h
    obtain ⟨hs, hf⟩ := staged_file hlt hb hc rfl hfile
    exact ⟨_, file, hs, hf, Option.some.inj h⟩
  · simp at h

/-- The file that is written is the header with the bytes of the second query after it. -/
theorem pipelineCacheDataPersist_cases {answers : PersistAnswers} {cacheDirectory directory : CacheDirectory}
    {props : VkPhysicalDeviceProperties}
    (h : pipelineCacheDataPersist answers cacheDirectory props = some (true, directory)) (hne : answers.cache.data ≠ []) :
    directory.isValid = true ∧ ∃ dataSize : UInt64, dataSize.toNat = answers.cache.data.length ∧
      directory.files kPipelineCacheFileName =
        some (PipelineCacheHeaderVK.layout.encode (.new props dataSize, answers.padding) ++ answers.cache.data) := by
  unfold pipelineCacheDataPersist at h
  split at h
  · simp at h
  next hv =>
    split at h
    · simp at h
    split at h
    next hzero =>
      have hle := answers.cache.data_le
      rw [hzero] at hle
      exact absurd (List.length_eq_zero_iff.mp (Nat.le_zero.mp hle)) hne
    dsimp only at h
    split at h
    · simp at h
    next allocation _ =>
      obtain ⟨dataSize, file, hs, hf, hw⟩ := stageAndWrite_cases allocation.buffer_lt h
      obtain ⟨hvalid, hfile⟩ := writeAtomically_cases hw
      exact ⟨hvalid.trans (by simpa using hv), dataSize, hs, hfile.trans (congrArg some hf)⟩

theorem pipelineCacheDataRetrieve_eq {directory : CacheDirectory} {props : VkPhysicalDeviceProperties} {dataSize : UInt64}
    {padding : Vector UInt8 4} {data : List UInt8} (hv : directory.isValid = true)
    (hf : directory.files kPipelineCacheFileName =
      some (PipelineCacheHeaderVK.layout.encode (.new props dataSize, padding) ++ data))
    (hs : dataSize.toNat = data.length) (hne : data ≠ []) (other : VkPhysicalDeviceProperties) :
    pipelineCacheDataRetrieve directory other = if props = other then
      some ⟨PipelineCacheHeaderVK.layout.encode (.new props dataSize, padding) ++ data,
        PipelineCacheHeaderVK.sizeof, data.length⟩ else none := by
  have hlength : PipelineCacheHeaderVK.sizeof ≤
      (PipelineCacheHeaderVK.layout.encode (.new props dataSize, padding) ++ data).length := by
    rw [List.length_append, PipelineCacheHeaderVK.layout.length_encode]
    exact Nat.le_add_right _ _
  have hpos : dataSize ≠ 0 := by
    rintro rfl
    exact hne (List.length_eq_zero_iff.mp hs.symm)
  unfold pipelineCacheDataRetrieve
  rw [hv, hf]
  dsimp only [Option.bind_eq_bind, Option.bind_some]
  rw [PipelineCacheHeaderVK.layout.decode_append, if_neg (not_lt.mpr hlength)]
  rw [if_neg (by decide)]
  by_cases heq : props = other
  · have hc : PipelineCacheHeaderVK.isCompatibleWith (.new props dataSize) (.new other 0) = true :=
      PipelineCacheHeaderVK.isCompatibleWith_new.mpr heq
    have hsize : (PipelineCacheHeaderVK.new props dataSize).dataSize = dataSize := rfl
    rw [hc, if_neg (by decide), hsize, if_neg hpos, if_pos heq, hs]
  · have hc : PipelineCacheHeaderVK.isCompatibleWith (.new props dataSize) (.new other 0) = false := by
      rw [← Bool.not_eq_true]
      exact fun h => heq (PipelineCacheHeaderVK.isCompatibleWith_new.mp h)
    rw [hc, if_pos (by decide), if_neg heq]

private theorem writeBytes_of_le {buffer bytes : List UInt8} {offset : Nat} (h : offset + bytes.length ≤ buffer.length) :
    ∃ new, writeBytes buffer offset bytes = some new ∧ new.length = buffer.length := by
  refine ⟨_, writeBytes_eq_some.mpr ⟨h, rfl⟩, ?_⟩
  rw [List.length_append, List.length_append, List.length_take, List.length_drop]
  omega

private theorem stageAndWrite_isSome {answers : PersistAnswers} {cacheDirectory : CacheDirectory}
    {props : VkPhysicalDeviceProperties} {buffer : List UInt8}
    (hroom : PipelineCacheHeaderVK.sizeof + answers.cache.data.length ≤ buffer.length) :
    (stageAndWrite answers cacheDirectory props buffer).isSome := by
  obtain ⟨b, hb, hblength⟩ := writeBytes_of_le hroom
  obtain ⟨dataSize, hsize⟩ : ∃ dataSize, UInt64.ofNat answers.cache.data.length = dataSize := ⟨_, rfl⟩
  have hheader : 0 + (PipelineCacheHeaderVK.layout.encode (.new props dataSize, answers.padding)).length ≤ b.length := by
    rw [PipelineCacheHeaderVK.layout.length_encode, hblength, Nat.zero_add]
    exact (Nat.le_add_right _ _).trans hroom
  obtain ⟨c, hc, hclength⟩ := writeBytes_of_le hheader
  have hdata : 0 + (UInt64.ofNat PipelineCacheHeaderVK.sizeof + dataSize).toNat ≤ c.length := by
    rw [hclength, hblength, Nat.zero_add, UInt64.toNat_add, ← hsize, UInt64.toNat_ofNat']
    refine (Nat.mod_le _ _).trans ((Nat.add_le_add_left (Nat.mod_le _ _) _).trans hroom)
  unfold stageAndWrite
  rw [hb, Option.bind_eq_bind, Option.bind_some]
  dsimp only
  rw [hsize]
  split
  case h_1 | h_2 =>
    rw [hc, Option.bind_some, NonOwnedMapping.bytes, if_pos hdata]
    rfl
  · rfl

/-- The staging buffer is never left while the sizes are exact in a `double`. -/
theorem pipelineCacheDataPersist_isSome (answers : PersistAnswers) (cacheDirectory : CacheDirectory)
    (props : VkPhysicalDeviceProperties) (hlt : PipelineCacheHeaderVK.sizeof + answers.cache.size.toNat < 2 ^ 53) :
    (pipelineCacheDataPersist answers cacheDirectory props).isSome := by
  have hlength : (bytes (UInt64.ofNat PipelineCacheHeaderVK.sizeof + answers.cache.size)).toNat =
      PipelineCacheHeaderVK.sizeof + answers.cache.size.toNat := by
    have hsum : (UInt64.ofNat PipelineCacheHeaderVK.sizeof + answers.cache.size).toNat =
        PipelineCacheHeaderVK.sizeof + answers.cache.size.toNat :=
      (UInt64.toNat_add _ _).trans (Nat.mod_eq_of_lt (hlt.trans (by decide)))
    rw [bytes, hsum, roundToDouble_eq hlt, UInt64.toNat_ofNat', Nat.mod_eq_of_lt (hlt.trans (by decide))]
  unfold pipelineCacheDataPersist
  split
  · rfl
  split
  · rfl
  split
  · rfl
  dsimp only
  split
  · rfl
  next allocation htruncate =>
    apply stageAndWrite_isSome
    have hroom := Allocation.truncate_room htruncate
    rw [hlength] at hroom
    exact (Nat.add_le_add_left answers.cache.data_le _).trans hroom

/-- What was written comes back for the same device and driver, and for no other. -/
theorem retrieve_persisted (answers : PersistAnswers) (cacheDirectory directory : CacheDirectory)
    (props : VkPhysicalDeviceProperties)
    (h : pipelineCacheDataPersist answers cacheDirectory props = some (true, directory)) (hne : answers.cache.data ≠ []) :
    (pipelineCacheDataRetrieve directory props).bind (·.bytes) = some answers.cache.data ∧
      ∀ other : VkPhysicalDeviceProperties,
        other.driverVersion ≠ props.driverVersion ∨ other.vendorID ≠ props.vendorID ∨
          other.deviceID ≠ props.deviceID ∨ other.pipelineCacheUUID ≠ props.pipelineCacheUUID →
        pipelineCacheDataRetrieve directory other = none := by
  obtain ⟨hv, dataSize, hs, hf⟩ := pipelineCacheDataPersist_cases h hne
  have hretrieve := pipelineCacheDataRetrieve_eq hv hf hs hne
  have hheader : (PipelineCacheHeaderVK.layout.encode (.new props dataSize, answers.padding)).length =
      PipelineCacheHeaderVK.sizeof := PipelineCacheHeaderVK.layout.length_encode _
  constructor
  · rw [hretrieve props, if_pos rfl, Option.bind_some, NonOwnedMapping.bytes, List.length_append, hheader,
      if_pos le_rfl, List.drop_left' hheader, List.take_length]
  · intro other hother
    rw [hretrieve other, if_neg]
    rintro rfl
    simp at hother

/-- The driver has less to give out the second time, and more follows in the staging buffer. -/
def incompleteAnswers : PersistAnswers where
  cache := ⟨.eSuccess, 5, .eIncomplete, [1, 2, 3], by decide⟩
  realloc := ⟨fun _ size => some (.replicate size.toNat 0xFF), fun _ _ _ h => Option.some.inj h ▸ List.length_replicate⟩
  padding := .replicate 4 0xAA
  written := true

def emptyDirectory : CacheDirectory := ⟨true, fun _ => none⟩

def someDevice : VkPhysicalDeviceProperties := ⟨7, 0x13B5, 0x92020010, .ofFn fun i => UInt8.ofNat i⟩

theorem retrieve_persisted_incomplete : ∃ directory,
    pipelineCacheDataPersist incompleteAnswers emptyDirectory someDevice = some (true, directory) ∧
    (pipelineCacheDataRetrieve directory someDevice).bind (·.bytes) = some [1, 2, 3] ∧
    pipelineCacheDataRetrieve directory { someDevice with driverVersion := 8 } = none := by
  have h : pipelineCacheDataPersist incompleteAnswers emptyDirectory someDevice = some (true, _) := rfl
  have hr := retrieve_persisted incompleteAnswers emptyDirectory _ someDevice h (by decide)
  exact ⟨_, h, hr.1, hr.2 { someDevice with driverVersion := 8 } (by decide)⟩

end Ogre.Hal
