import Ogre.Hal.VkFormats
import Mathlib.Data.List.Basic

/-! Which physical device is picked, and which of its queues. -/
namespace Ogre.Hal

inductive RequiredCommonDeviceExtension
  | kKHRSwapchain
  deriving DecidableEq, Repr

inductive RequiredAndroidDeviceExtension
  | kANDROIDExternalMemoryAndroidHardwareBuffer
  | kKHRSamplerYcbcrConversion
  | kKHRExternalMemory
  | kEXTQueueFamilyForeign
  | kKHRDedicatedAllocation
  deriving DecidableEq, Repr

inductive OptionalAndroidDeviceExtension
  | kKHRExternalFenceFd
  | kKHRExternalFence
  | kKHRExternalSemaphoreFd
  | kKHRExternalSemaphore
  deriving DecidableEq, Repr

inductive OptionalDeviceExtension
  | kEXTPipelineCreationFeedback
  | kVKKHRPortabilitySubset
  | kEXTImageCompressionControl
  deriving DecidableEq, Repr

def RequiredCommonDeviceExtension.name : RequiredCommonDeviceExtension → String
  | .kKHRSwapchain => "VK_KHR_swapchain"

def RequiredAndroidDeviceExtension.name : RequiredAndroidDeviceExtension → String
  | .kANDROIDExternalMemoryAndroidHardwareBuffer => "VK_ANDROID_external_memory_android_hardware_buffer"
  | .kKHRSamplerYcbcrConversion => "VK_KHR_sampler_ycbcr_conversion"
  | .kKHRExternalMemory => "VK_KHR_external_memory"
  | .kEXTQueueFamilyForeign => "VK_EXT_queue_family_foreign"
  | .kKHRDedicatedAllocation => "VK_KHR_dedicated_allocation"

def OptionalAndroidDeviceExtension.name : OptionalAndroidDeviceExtension → String
  | .kKHRExternalFenceFd => "VK_KHR_external_fence_fd"
  | .kKHRExternalFence => "VK_KHR_external_fence"
  | .kKHRExternalSemaphoreFd => "VK_KHR_external_semaphore_fd"
  | .kKHRExternalSemaphore => "VK_KHR_external_semaphore"

def OptionalDeviceExtension.name : OptionalDeviceExtension → String
  | .kEXTPipelineCreationFeedback => "VK_EXT_pipeline_creation_feedback"
  | .kVKKHRPortabilitySubset => "VK_KHR_portability_subset"
  | .kEXTImageCompressionControl => "VK_EXT_image_compression_control"

/-- Sets of flags, as masks of bits. -/
abbrev VkFlags := BitVec 32

namespace VkFlags

def eColorAttachment : VkFlags := 0x80
def eDepthStencilAttachment : VkFlags := 0x200

def e1 : VkFlags := 1
def e4 : VkFlags := 4

def eGraphics : VkFlags := 1
def eCompute : VkFlags := 2
def eTransfer : VkFlags := 4

end VkFlags

structure QueueFamilyProperties where
  queueFlags : VkFlags
  queueCount : Nat
  deriving DecidableEq, Repr

/-- The features that are asked about. Those of image compression are unlinked where the extension
is not enabled. -/
structure PhysicalDeviceFeatures where
  fillModeNonSolid : Bool := false
  samplerYcbcrConversion : Bool := false
  imageCompressionControl : Option Bool := none
  uniformAndStorageBuffer16BitAccess : Bool := false
  deriving DecidableEq, Repr

/-- A device; there are no extensions where they cannot be enumerated. -/
structure PhysicalDevice where
  optimalTilingFeatures : VkFormat → VkFlags
  framebufferColorSampleCounts : VkFlags
  queueFamilies : List QueueFamilyProperties
  extensions : Option (List String)
  features : PhysicalDeviceFeatures := {}

/-- `onAndroid` is `FML_OS_ANDROID`. -/
structure Capabilities where
  useEmbedderExtensions : Bool
  embedderDeviceExtensions : List String
  onAndroid : Bool
  deriving DecidableEq, Repr

structure EmbedderData where
  physicalDevice : PhysicalDevice
  deviceExtensions : List String

namespace Capabilities

/-- The capabilities that `Setup` creates. -/
def forSetup (embedderData : Option EmbedderData) (onAndroid : Bool) : Capabilities where
  useEmbedderExtensions := embedderData.isSome
  embedderDeviceExtensions := embedderData.elim [] (·.deviceExtensions)
  onAndroid := onAndroid

def requiredExtensions (caps : Capabilities) : List String :=
  [RequiredCommonDeviceExtension.kKHRSwapchain].map (·.name) ++
    if caps.onAndroid then
      [RequiredAndroidDeviceExtension.kANDROIDExternalMemoryAndroidHardwareBuffer, .kKHRSamplerYcbcrConversion,
        .kKHRExternalMemory, .kEXTQueueFamilyForeign, .kKHRDedicatedAllocation].map (·.name)
    else []

def optionalExtensions (caps : Capabilities) : List String :=
  [OptionalDeviceExtension.kEXTPipelineCreationFeedback, .kVKKHRPortabilitySubset,
    .kEXTImageCompressionControl].map (·.name) ++
    if caps.onAndroid then
      [OptionalAndroidDeviceExtension.kKHRExternalFenceFd, .kKHRExternalFence, .kKHRExternalSemaphoreFd,
        .kKHRExternalSemaphore].map (·.name)
    else []

def getEnabledDeviceExtensions (caps : Capabilities) (device : PhysicalDevice) : Option (List String) :=
  (if caps.useEmbedderExtensions then some caps.embedderDeviceExtensions else device.extensions).bind fun exts =>
    if caps.requiredExtensions.all (· ∈ exts) then
      some (caps.requiredExtensions ++ caps.optionalExtensions.filter (· ∈ exts))
    else none

def hasSuitableColorFormat (device : PhysicalDevice) (format : VkFormat) : Bool :=
  device.optimalTilingFeatures format &&& .eColorAttachment ≠ 0

def hasSuitableDepthStencilFormat (device : PhysicalDevice) (format : VkFormat) : Bool :=
  device.optimalTilingFeatures format &&& .eDepthStencilAttachment ≠ 0

def physicalDeviceSupportsRequiredFormats (device : PhysicalDevice) : Bool :=
  hasSuitableColorFormat device .eR8G8B8A8Unorm &&
    (hasSuitableDepthStencilFormat device .eD32SfloatS8Uint || hasSuitableDepthStencilFormat device .eD24UnormS8Uint)

def hasRequiredProperties (device : PhysicalDevice) : Bool :=
  device.framebufferColorSampleCounts &&& (.e1 ||| .e4) ≠ 0

/-- The flags of all families that have queues. -/
def queueFlags (families : List QueueFamilyProperties) : VkFlags :=
  families.foldl (fun flags queue => if queue.queueCount = 0 then flags else flags ||| queue.queueFlags) 0

def hasRequiredQueues (device : PhysicalDevice) : Bool :=
  queueFlags device.queueFamilies &&& (.eGraphics ||| .eCompute ||| .eTransfer) ≠ 0

def getEnabledDeviceFeatures (caps : Capabilities) (device : PhysicalDevice) : Option PhysicalDeviceFeatures :=
  if !physicalDeviceSupportsRequiredFormats device then none
  else if !hasRequiredProperties device then none
  else if !hasRequiredQueues device then none
  else (caps.getEnabledDeviceExtensions device).map fun enabled => {
    fillModeNonSolid := device.features.fillModeNonSolid
    samplerYcbcrConversion := RequiredAndroidDeviceExtension.kKHRSamplerYcbcrConversion.name ∈ enabled &&
      device.features.samplerYcbcrConversion
    imageCompressionControl := if OptionalDeviceExtension.kEXTImageCompressionControl.name ∈ enabled then
      some (device.features.imageCompressionControl.getD false) else none
    uniformAndStorageBuffer16BitAccess := device.features.uniformAndStorageBuffer16BitAccess }

end Capabilities

def pickPhysicalDevice (caps : Capabilities) (devices : List PhysicalDevice) : Option PhysicalDevice :=
  devices.find? fun device => (caps.getEnabledDeviceFeatures device).isSome

structure QueueIndex where
  family : Nat := 0
  index : Nat := 0
  deriving DecidableEq, Repr

def pickQueue (device : PhysicalDevice) (flags : VkFlags) : Option QueueIndex :=
  (device.queueFamilies.findIdx? fun family => family.queueFlags &&& flags ≠ 0).map fun i => { family := i }

/-- The queues for graphics, transfers and computations. Transfers fall back to the first. -/
def pickQueues (device : PhysicalDevice) : Option (List QueueIndex) := do
  let graphicsQueue ← pickQueue device .eGraphics
  let transferQueue := (pickQueue device .eTransfer).getD graphicsQueue
  let computeQueue ← pickQueue device .eCompute
  some [graphicsQueue, transferQueue, computeQueue]

namespace PhysicalDevice

/-- A family with queues that have the flag. -/
def HasQueues (device : PhysicalDevice) (flag : VkFlags) : Prop :=
  ∃ family ∈ device.queueFamilies, family.queueFlags &&& flag ≠ 0 ∧ 0 < family.queueCount

/-- Graphics and computations, one sample and four, the formats and the extensions. -/
structure Suitable (onAndroid : Bool) (device : PhysicalDevice) : Prop where
  graphics : device.HasQueues .eGraphics
  compute : device.HasQueues .eCompute
  single : device.framebufferColorSampleCounts &&& .e1 ≠ 0
  multi : device.framebufferColorSampleCounts &&& .e4 ≠ 0
  formats : Capabilities.physicalDeviceSupportsRequiredFormats device
  extensions : ∃ exts, device.extensions = some exts ∧
    ∀ name ∈ (Capabilities.forSetup none onAndroid).requiredExtensions, name ∈ exts

/-- All of the queues are there. -/
def NamesQueues (device : PhysicalDevice) : Prop :=
  ∃ queues, pickQueues device = some queues ∧ ∀ queue ∈ queues, ∃ family,
    device.queueFamilies[queue.family]? = some family ∧ queue.index < family.queueCount

/-- One sample and four, and queues in the first family that has a flag: there is one for graphics
and for computations, and there may be one for transfers. -/
structure FirstFamilies (device : PhysicalDevice) : Prop where
  single : device.framebufferColorSampleCounts &&& .e1 ≠ 0
  multi : device.framebufferColorSampleCounts &&& .e4 ≠ 0
  graphics : ∃ family, device.queueFamilies.find? (·.queueFlags &&& .eGraphics ≠ 0) = some family ∧
    0 < family.queueCount
  compute : ∃ family, device.queueFamilies.find? (·.queueFlags &&& .eCompute ≠ 0) = some family ∧
    0 < family.queueCount
  transfer : ∀ family, device.queueFamilies.find? (·.queueFlags &&& .eTransfer ≠ 0) = some family →
    0 < family.queueCount

end PhysicalDevice

/-- The device that is picked is suitable and all its queues are there, and one is picked if some
device is suitable. -/
def SelectsSuitable (onAndroid : Bool) (devices : List PhysicalDevice) : Prop :=
  (∀ device, pickPhysicalDevice (.forSetup none onAndroid) devices = some device →
    device.Suitable onAndroid ∧ device.NamesQueues) ∧
  ((∃ device ∈ devices, device.Suitable onAndroid) →
    ∃ device, pickPhysicalDevice (.forSetup none onAndroid) devices = some device ∧ device.Suitable onAndroid)

/-- The first device that passes the checks has more than they ask for. -/
def FirstPassing (onAndroid : Bool) (devices : List PhysicalDevice) : Prop :=
  ∀ before device after, devices = before ++ device :: after →
    (∀ other ∈ before, (Capabilities.forSetup none onAndroid).getEnabledDeviceFeatures other = none) →
    ((Capabilities.forSetup none onAndroid).getEnabledDeviceFeatures device).isSome → device.FirstFamilies

variable {device : PhysicalDevice} {onAndroid : Bool} {devices : List PhysicalDevice}

namespace VkFlags
variable {flags mask : VkFlags}

/-- A flag that is there is among more flags, and in a larger mask. -/
private theorem and_ne_zero_of_or (more others : VkFlags) (h : flags &&& mask ≠ 0) :
    (flags ||| more) &&& (mask ||| others) ≠ 0 := by
  intro hzero
  apply h
  apply BitVec.eq_of_getLsbD_eq
  intro i hi
  have hbit := congrArg (·.getLsbD i) hzero
  simp only [BitVec.getLsbD_and, BitVec.getLsbD_or] at hbit ⊢
  revert hbit
  cases flags.getLsbD i <;> cases mask.getLsbD i <;> simp

end VkFlags

namespace Capabilities

/-- Flags are only added. -/
private theorem foldl_queueFlags (families : List QueueFamilyProperties) (flags : VkFlags) : ∃ more,
    families.foldl (fun flags queue => if queue.queueCount = 0 then flags else flags ||| queue.queueFlags) flags =
      flags ||| more := by
  induction families generalizing flags with
  | nil => exact ⟨0, by simp⟩
  | cons first rest ih =>
    rw [List.foldl_cons]
    split
    · exact ih flags
    · obtain ⟨more, hmore⟩ := ih (flags ||| first.queueFlags)
      exact ⟨first.queueFlags ||| more, by rw [hmore, BitVec.or_assoc]⟩

private theorem queueFlags_of_mem {families : List QueueFamilyProperties} {family : QueueFamilyProperties}
    (hmem : family ∈ families) (hcount : family.queueCount ≠ 0) :
    ∃ more, queueFlags families = family.queueFlags ||| more := by
  obtain ⟨before, after, rfl⟩ := List.append_of_mem hmem
  obtain ⟨flags, hflags⟩ := foldl_queueFlags before 0
  obtain ⟨more, hmore⟩ := foldl_queueFlags after (0 ||| flags ||| family.queueFlags)
  refine ⟨0 ||| flags ||| more, ?_⟩
  rw [queueFlags, List.foldl_append, hflags, List.foldl_cons, if_neg hcount, hmore,
    BitVec.or_comm _ family.queueFlags, BitVec.or_assoc]

/-- Queues for graphics are enough. -/
private theorem hasRequiredQueues_of_hasQueues (h : device.HasQueues .eGraphics) : hasRequiredQueues device := by
  obtain ⟨family, hmem, hflag, hcount⟩ := h
  obtain ⟨more, hmore⟩ := queueFlags_of_mem hmem (Nat.ne_of_gt hcount)
  have hany := VkFlags.and_ne_zero_of_or 0 .eTransfer (VkFlags.and_ne_zero_of_or more .eCompute hflag)
  simpa [hasRequiredQueues, hmore] using hany

/-- What the checks come to without an embedder. -/
private theorem getEnabledDeviceFeatures_isSome :
    ((forSetup none onAndroid).getEnabledDeviceFeatures device).isSome ↔
      physicalDeviceSupportsRequiredFormats device ∧ hasRequiredProperties device ∧ hasRequiredQueues device ∧
      ∃ exts, device.extensions = some exts ∧ ∀ name ∈ (forSetup none onAndroid).requiredExtensions, name ∈ exts := by
  have hextensions : ((forSetup none onAndroid).getEnabledDeviceExtensions device).isSome ↔
      ∃ exts, device.extensions = some exts ∧ ∀ name ∈ (forSetup none onAndroid).requiredExtensions, name ∈ exts := by
    unfold getEnabledDeviceExtensions
    cases device.extensions with
    | none => simp [forSetup]
    | some exts =>
      rw [if_neg (by simp [forSetup]), Option.bind_some]
      by_cases hall : (forSetup none onAndroid).requiredExtensions.all (· ∈ exts)
      · rw [if_pos hall]
        exact iff_of_true rfl ⟨exts, rfl, by simpa using hall⟩
      · rw [if_neg hall]
        refine iff_of_false (by simp) ?_
        rintro ⟨other, hother, hothers⟩
        obtain rfl := Option.some.inj hother
        exact hall (by simpa using hothers)
  unfold getEnabledDeviceFeatures
  rw [← hextensions]
  cases physicalDeviceSupportsRequiredFormats device <;> cases hasRequiredProperties device <;>
    cases hasRequiredQueues device <;> simp

end Capabilities

/-- The index of the first that has a property, and the first itself. -/
private theorem find?_eq_findIdx? {α : Type} (p : α → Bool) (l : List α) :
    l.find? p = (l.findIdx? p).bind fun i => l[i]? := by
  induction l with
  | nil => rfl
  | cons a l ih =>
    rw [List.find?_cons, List.findIdx?_cons]
    cases p a with
    | true => rfl
    | false =>
      rw [ih]
      cases l.findIdx? p <;> rfl

/-- A queue that is picked is there if the first family with the flag has queues. -/
private theorem pickQueue_spec (device : PhysicalDevice) (flags : VkFlags) :
    (pickQueue device flags = none ∧ device.queueFamilies.find? (·.queueFlags &&& flags ≠ 0) = none) ∨
    ∃ queue family, pickQueue device flags = some queue ∧ queue.index = 0 ∧
      device.queueFamilies[queue.family]? = some family ∧
      device.queueFamilies.find? (·.queueFlags &&& flags ≠ 0) = some family := by
  rw [pickQueue, find?_eq_findIdx?]
  cases hi : device.queueFamilies.findIdx? (fun family => decide (family.queueFlags &&& flags ≠ 0)) with
  | none => exact .inl ⟨rfl, rfl⟩
  | some i =>
    obtain ⟨hlt, -⟩ := List.findIdx?_eq_some_iff_getElem.mp hi
    exact .inr ⟨{ family := i }, device.queueFamilies[i], rfl, rfl, List.getElem?_eq_getElem hlt,
      List.getElem?_eq_getElem hlt⟩

namespace PhysicalDevice

private theorem firstFamilies_of_namesQueues (hqueues : device.NamesQueues)
    (hsingle : device.framebufferColorSampleCounts &&& .e1 ≠ 0)
    (hmulti : device.framebufferColorSampleCounts &&& .e4 ≠ 0) : device.FirstFamilies := by
  obtain ⟨queues, hqueues, hall⟩ := hqueues
  obtain ⟨graphics, hgraphics, hrest⟩ := Option.bind_eq_some_iff.mp hqueues
  obtain ⟨compute, hcompute, hlist⟩ := Option.bind_eq_some_iff.mp hrest
  obtain rfl := Option.some.inj hlist
  have hpicked {flags : VkFlags} {queue : QueueIndex} (hpick : pickQueue device flags = some queue)
      (hmem : queue ∈ [graphics, (pickQueue device .eTransfer).getD graphics, compute]) :
      ∃ family, device.queueFamilies.find? (·.queueFlags &&& flags ≠ 0) = some family ∧ 0 < family.queueCount := by
    rcases pickQueue_spec device flags with ⟨hnone, -⟩ | ⟨other, family, hother, hindex, hfamily, hfind⟩
    · rw [hnone] at hpick
      cases hpick
    · obtain rfl := Option.some.inj (hother.symm.trans hpick)
      obtain ⟨there, hthere, hlt⟩ := hall other hmem
      obtain rfl := Option.some.inj (hfamily.symm.trans hthere)
      exact ⟨family, hfind, by omega⟩
  refine ⟨hsingle, hmulti, hpicked hgraphics (by simp), hpicked hcompute (by simp), ?_⟩
  intro family hfamily
  rcases pickQueue_spec device .eTransfer with ⟨-, hnone⟩ | ⟨queue, -, hqueue, -, -, -⟩
  · rw [hnone] at hfamily
    cases hfamily
  · obtain ⟨other, hother, hpos⟩ := hpicked hqueue (by simp [hqueue])
    obtain rfl := Option.some.inj (hother.symm.trans hfamily)
    exact hpos

private theorem FirstFamilies.namesQueues (h : device.FirstFamilies) : device.NamesQueues := by
  have hpicked {flags : VkFlags} (hfirst : ∃ family,
      device.queueFamilies.find? (·.queueFlags &&& flags ≠ 0) = some family ∧ 0 < family.queueCount) :
      ∃ queue family, pickQueue device flags = some queue ∧ device.queueFamilies[queue.family]? = some family ∧
        queue.index < family.queueCount := by
    obtain ⟨first, hfirst, hpos⟩ := hfirst
    rcases pickQueue_spec device flags with ⟨-, hnone⟩ | ⟨queue, family, hqueue, hindex, hfamily, hfind⟩
    · rw [hnone] at hfirst
      cases hfirst
    · obtain rfl := Option.some.inj (hfirst.symm.trans hfind)
      exact ⟨queue, first, hqueue, hfamily, by omega⟩
  obtain ⟨graphics, first, hgraphics, hfirst, hfirstpos⟩ := hpicked h.graphics
  obtain ⟨compute, second, hcompute, hsecond, hsecondpos⟩ := hpicked h.compute
  refine ⟨[graphics, (pickQueue device .eTransfer).getD graphics, compute], ?_, ?_⟩
  · rw [pickQueues, hgraphics, hcompute]
    rfl
  · intro queue hmem
    simp only [List.mem_cons, List.not_mem_nil, or_false] at hmem
    rcases hmem with rfl | rfl | rfl
    · exact ⟨first, hfirst, hfirstpos⟩
    · rcases pickQueue_spec device .eTransfer with ⟨hnone, -⟩ | ⟨transfer, family, htransfer, -, -, hfind⟩
      · rw [hnone]
        exact ⟨first, hfirst, hfirstpos⟩
      · obtain ⟨queue, there, hqueue, hthere, hpos⟩ := hpicked ⟨family, hfind, h.transfer family hfind⟩
        rw [hqueue]
        exact ⟨there, hthere, hpos⟩
    · exact ⟨second, hsecond, hsecondpos⟩

private theorem hasQueues_of_first {flag : VkFlags} (h : ∃ family,
    device.queueFamilies.find? (·.queueFlags &&& flag ≠ 0) = some family ∧ 0 < family.queueCount) :
    device.HasQueues flag := by
  obtain ⟨family, hfind, hpos⟩ := h
  exact ⟨family, List.mem_of_find?_eq_some hfind, by simpa using List.find?_some hfind, hpos⟩

/-- A suitable device passes the checks. -/
private theorem Suitable.passes (h : device.Suitable onAndroid) :
    ((Capabilities.forSetup none onAndroid).getEnabledDeviceFeatures device).isSome := by
  refine Capabilities.getEnabledDeviceFeatures_isSome.mpr ⟨h.formats, ?_,
    Capabilities.hasRequiredQueues_of_hasQueues h.graphics, h.extensions⟩
  simpa [Capabilities.hasRequiredProperties] using VkFlags.and_ne_zero_of_or 0 .e4 h.single

private theorem suitable_iff (h : ((Capabilities.forSetup none onAndroid).getEnabledDeviceFeatures device).isSome) :
    device.Suitable onAndroid ∧ device.NamesQueues ↔ device.FirstFamilies := by
  obtain ⟨hformats, -, -, hextensions⟩ := Capabilities.getEnabledDeviceFeatures_isSome.mp h
  constructor
  · rintro ⟨hsuitable, hqueues⟩
    exact firstFamilies_of_namesQueues hqueues hsuitable.single hsuitable.multi
  · intro hfirst
    exact ⟨⟨hasQueues_of_first hfirst.graphics, hasQueues_of_first hfirst.compute, hfirst.single, hfirst.multi,
      hformats, hextensions⟩, hfirst.namesQueues⟩

end PhysicalDevice

/-- Exactly the lists are selected from as they should be in which the first device that passes the
checks has both sample counts, and queues in its first families. -/
theorem selectsSuitable_iff (onAndroid : Bool) (devices : List PhysicalDevice) :
    SelectsSuitable onAndroid devices ↔ FirstPassing onAndroid devices := by
  constructor
  · intro h before device after hdevices hbefore hpasses
    have hpick : pickPhysicalDevice (.forSetup none onAndroid) devices = some device := by
      refine List.find?_eq_some_iff_append.mpr ⟨hpasses, before, after, hdevices, fun other hother => ?_⟩
      rw [hbefore other hother]
      rfl
    exact (PhysicalDevice.suitable_iff hpasses).mp (h.1 device hpick)
  · intro h
    have hpicked (device : PhysicalDevice)
        (hpick : pickPhysicalDevice (.forSetup none onAndroid) devices = some device) :
        device.Suitable onAndroid ∧ device.NamesQueues := by
      obtain ⟨hpasses, before, after, hdevices, hbefore⟩ := List.find?_eq_some_iff_append.mp hpick
      refine (PhysicalDevice.suitable_iff hpasses).mpr (h before device after hdevices (fun other hother => ?_) hpasses)
      simpa using hbefore other hother
    refine ⟨hpicked, ?_⟩
    rintro ⟨suitable, hmem, hsuitable⟩
    have hsome : (pickPhysicalDevice (.forSetup none onAndroid) devices).isSome :=
      List.find?_isSome.mpr ⟨suitable, hmem, hsuitable.passes⟩
    obtain ⟨device, hpick⟩ := Option.isSome_iff_exists.mp hsome
    exact ⟨device, hpick, (hpicked device hpick).1⟩

/-- A device that has all but maybe some sample counts and queues. -/
private def deviceWith (sampleCounts : VkFlags) (queueFamilies : List QueueFamilyProperties) : PhysicalDevice where
  optimalTilingFeatures _ := .eColorAttachment ||| .eDepthStencilAttachment
  framebufferColorSampleCounts := sampleCounts
  queueFamilies := queueFamilies
  extensions := some ["VK_KHR_swapchain"]

/-- Devices with one sample, with computations alone, and with a first family that has no queues are
picked, also in front of a suitable device. -/
theorem selectsSuitable_unsuitable :
    ¬ SelectsSuitable false [deviceWith 1 [⟨7, 1⟩]] ∧
    ¬ SelectsSuitable false [deviceWith 5 [⟨2, 1⟩]] ∧
    ¬ SelectsSuitable false [deviceWith 1 [⟨7, 1⟩], deviceWith 5 [⟨7, 1⟩]] ∧
    ¬ SelectsSuitable false [deviceWith 5 [⟨7, 0⟩, ⟨7, 1⟩]] := by
  refine ⟨fun h => ?_, fun h => ?_, fun h => ?_, fun h => ?_⟩
  · exact (h.1 _ rfl).1.multi (by decide)
  · obtain ⟨family, hmem, hflag, -⟩ := (h.1 _ rfl).1.graphics
    obtain rfl := List.mem_singleton.mp hmem
    exact hflag (by decide)
  · exact (h.1 _ rfl).1.multi (by decide)
  · obtain ⟨queues, hqueues, hall⟩ := (h.1 _ rfl).2
    obtain rfl := Option.some.inj hqueues
    obtain ⟨family, hfamily, hpos⟩ := hall _ List.mem_cons_self
    obtain rfl := Option.some.inj hfamily
    exact absurd hpos (by decide)

end Ogre.Hal
