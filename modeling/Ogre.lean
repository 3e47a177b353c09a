import Ogre.Hal.HostBufferRuns
import Ogre.Hal.HostBufferFailures
import Ogre.Hal.DescriptorFailures
import Ogre.Hal.PipelineSets
import Ogre.Hal.FenceDelivery
import Ogre.Hal.SubmitLifetime
import Ogre.Hal.SubmitOnce
import Ogre.Hal.SubmitCompletes
import Ogre.Hal.KHRFramePairing
import Ogre.Hal.AHBTextureOwners
import Ogre.Hal.TrackedReferences
import Ogre.Hal.PipelineJobsUnlocked
import Ogre.Hal.PipelinePersistence
import Ogre.Hal.CommandBufferOwners
import Ogre.Hal.CommandPoolTeardown
import Ogre.Hal.LayoutRuns
import Ogre.Fml.TaskWakeups
import Ogre.Fml.TaskOrder
import Ogre.Fml.MessageLoopTermination
import Ogre.Fml.MessageLoopLinux
import Ogre.Fml.MessageLoopProgress
import Ogre.Fml.Thread
import Ogre.Fml.TimerWakeups
import Ogre.Fml.ThreadMerging
import Ogre.Fml.ConcurrentShutdown
import Ogre.Fml.ConcurrentProgress
import Ogre.Fml.AsciiTrie
import Ogre.Fml.Base32
import Ogre.Fml.CommandLine
import Ogre.Hal.PipelineCacheBounds
import Ogre.Hal.GPUTracerFrames
import Ogre.Hal.AttachmentOrder
import Ogre.Hal.BlitTargets
import Ogre.Hal.TextureUpload
import Ogre.Hal.MipmapChain
import Ogre.Hal.ComputeGrid
import Ogre.Hal.ComputeBindings
import Ogre.Hal.PipelineRemoval
import Ogre.Hal.DeviceSelection
import Ogre.Hal.SwapchainFinalBuffers
import Ogre.Hal.PassResets
import Ogre.Hal.ResourceReclaims
import Ogre.Core.AllocationRuns
import Ogre.Fml.CommandLineLookups
import Ogre.Fml.MergeNotifications
import Ogre.Fml.WaitableEvent
import Ogre.Geometry.Rational
import Ogre.Geometry.RectSets
import Ogre.Hal.AHBTextureSource
import Ogre.Hal.TextureCreation
import Ogre.Geometry.SaturatedMath
import Ogre.Fml.Closure
import Ogre.Fml.RefPtr
import Ogre.Fml.RefPtrSafety
import Ogre.Fml.RefPtrLifetimes
import Ogre.Fml.WeakPtr
import Ogre.Fml.WeakPtrOrigins
import Ogre.Fml.Paths
import Ogre.Fml.StringConversion
