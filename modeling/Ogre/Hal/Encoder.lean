import Ogre.Hal.BlitPass
import Ogre.Hal.ComputePass
import Ogre.Library.Machine

/-! Encoding: any sequence of calls of render, blit and compute passes over any textures,
recorded into any command buffers. -/
namespace Ogre.Hal
open Ogre.Core Ogre.Library

/-- Passes have the number of their creation. -/
structure Encoder where
  recorder : Recorder := {}
  renderPasses : List RenderPass := []
  computePasses : List ComputePass := []

namespace Encoder

inductive Label
  | createRenderPass (cmd : Nat) (target : RenderTarget) (createRenderPass createFramebuffer : Bool)
  | setPipeline (pass : Nat) (pipeline : Option RenderPipeline)
  | setStencilReference (pass value : Nat)
  | setBaseVertex (pass value : Nat)
  | setElementCount (pass count : Nat)
  | setInstanceCount (pass count : Nat)
  | setViewport (pass : Nat)
  | setScissor (pass : Nat)
  | setVertexBuffers (pass : Nat) (views : List BufferView)
  | setIndexBuffer (pass : Nat) (view : BufferView) (indexType : IndexType)
  | bindBuffer (pass binding : Nat) (type : DescriptorType) (view : BufferView)
  | bindTexture (pass binding : Nat) (texture : Option Nat) (sampler : Bool)
  | draw (pass : Nat) (variant : Option Nat) (descriptorSet : Bool)
  | encodeCommands (pass : Nat)
  | copyTextureToTexture (cmd : Nat) (source destination : Option Nat) (sourceRegion : Option Geometry.IRect)
      (destinationOrigin : Geometry.IPoint)
  | copyTextureToBuffer (cmd : Nat) (source : Option Nat) (destination : Option DeviceBuffer) (readback : Bool)
      (sourceRegion : Option Geometry.IRect) (destinationOffset : Nat)
  | copyBufferToTexture (cmd : Nat) (source : BufferView) (destination : Option Nat)
      (destinationRegion : Option Geometry.IRect) (mipLevel slice : Nat) (convertToRead : Bool)
  | resizeTexture (cmd source destination : Nat)
  | convertTextureToShaderRead (cmd texture : Nat)
  | generateMipmap (cmd : Nat) (texture : Option Nat)
  | createComputePass (cmd : Nat) (maxWorkgroupSize : Int × Int)
  | computeSetPipeline (pass pipeline : Nat) (descriptorSet : Bool)
  | computeBindBuffer (pass binding : Nat) (type : DescriptorType) (view : BufferView)
  | computeBindTexture (pass binding : Nat) (type : DescriptorType) (texture : Option Nat) (sampler : Bool)
  | compute (pass : Nat) (gridSize : Geometry.ISize)
  | addMemoryBarrier (pass : Nat)

def onRenderPass (s : Encoder) (pass : Nat) (f : RenderPass → Option (RenderPass × Recorder)) : Option Encoder :=
  (s.renderPasses[pass]?.bind f).map fun r =>
    { s with recorder := r.2, renderPasses := s.renderPasses.set pass r.1 }

def onComputePass (s : Encoder) (pass : Nat) (f : ComputePass → Option (ComputePass × Recorder)) :
    Option Encoder :=
  (s.computePasses[pass]?.bind f).map fun r =>
    { s with recorder := r.2, computePasses := s.computePasses.set pass r.1 }

def addRenderPass (s : Encoder) (r : Option RenderPass × Recorder) : Encoder :=
  { s with recorder := r.2, renderPasses := s.renderPasses ++ r.1.toList }

/-- A target is drawn to if it is valid. A call that would dereference nothing has no step. -/
def step (s : Encoder) : Label → Option Encoder
  | .createRenderPass cmd target createRenderPass createFramebuffer =>
    match target.color0 with
    | some color0 =>
      if target.isValid s.recorder.desc then
        some (s.addRenderPass
          (RenderPass.create s.recorder cmd target color0 createRenderPass createFramebuffer))
      else none
    | none => none
  | .setPipeline pass pipeline =>
    s.onRenderPass pass fun p => some (p.setPipeline pipeline, s.recorder)
  | .setStencilReference pass value =>
    s.onRenderPass pass fun p => some (p.setStencilReference s.recorder value)
  | .setBaseVertex pass value =>
    s.onRenderPass pass fun p => some ({ p with baseVertex := value }, s.recorder)
  | .setElementCount pass count =>
    s.onRenderPass pass fun p => some ({ p with elementCount := count }, s.recorder)
  | .setInstanceCount pass count =>
    s.onRenderPass pass fun p => some ({ p with instanceCount := count }, s.recorder)
  | .setViewport pass =>
    s.onRenderPass pass fun p => some (p, s.recorder.record p.commandBuffer .setViewport)
  | .setScissor pass =>
    s.onRenderPass pass fun p => some (p, s.recorder.record p.commandBuffer .setScissor)
  | .setVertexBuffers pass views =>
    s.onRenderPass pass fun p => some (p, (p.setVertexBuffers s.recorder views).2)
  | .setIndexBuffer pass view indexType =>
    s.onRenderPass pass fun p => some (p.setIndexBuffer s.recorder view indexType).2
  | .bindBuffer pass binding type view =>
    s.onRenderPass pass fun p => (p.bindBuffer s.recorder binding type view).map (·.2)
  | .bindTexture pass binding texture sampler =>
    s.onRenderPass pass fun p => some (p.bindTexture s.recorder binding texture sampler).2
  | .draw pass variant descriptorSet =>
    s.onRenderPass pass fun p => some (p.draw s.recorder variant descriptorSet).2
  | .encodeCommands pass =>
    s.onRenderPass pass fun p => some (p, s.recorder.record p.commandBuffer .endRenderPass)
  | .copyTextureToTexture cmd source destination sourceRegion destinationOrigin =>
    some { s with recorder :=
      (BlitPass.addCopyTextureToTexture s.recorder cmd source destination sourceRegion destinationOrigin).2 }
  | .copyTextureToBuffer cmd source destination readback sourceRegion destinationOffset =>
    some { s with recorder := (BlitPass.addCopyTextureToBuffer s.recorder cmd source destination readback
      sourceRegion destinationOffset).2 }
  | .copyBufferToTexture cmd source destination destinationRegion mipLevel slice convertToRead =>
    (BlitPass.addCopyBufferToTexture s.recorder cmd source destination destinationRegion mipLevel slice
      convertToRead).map fun r => { s with recorder := r.2 }
  | .resizeTexture cmd source destination =>
    some { s with recorder := BlitPass.resizeTexture s.recorder cmd source destination }
  | .convertTextureToShaderRead cmd texture =>
    some { s with recorder := BlitPass.convertTextureToShaderRead s.recorder cmd texture }
  | .generateMipmap cmd texture =>
    some { s with recorder := (BlitPass.generateMipmap s.recorder cmd texture).2 }
  | .createComputePass cmd maxWorkgroupSize =>
    some { s with computePasses := s.computePasses ++ [{ commandBuffer := cmd, maxWorkgroupSize }] }
  | .computeSetPipeline pass pipeline descriptorSet =>
    s.onComputePass pass fun p => some (p.setPipeline s.recorder pipeline descriptorSet)
  | .computeBindBuffer pass binding type view =>
    s.onComputePass pass fun p => (p.bindBuffer s.recorder binding type view).map (·.2)
  | .computeBindTexture pass binding type texture sampler =>
    s.onComputePass pass fun p => (p.bindTexture s.recorder binding type texture sampler).map (·.2)
  | .compute pass gridSize =>
    s.onComputePass pass fun p => some (p.compute s.recorder gridSize).2
  | .addMemoryBarrier pass =>
    s.onComputePass pass fun p => some (p, s.recorder.record p.commandBuffer .memoryBarrier)

/-- No texture has a layout or frame data at the beginning. -/
def machine (textures : Nat → TextureInfo) : Machine Encoder Label where
  init := { recorder := { sources := fun texture => { textures texture with } } }
  step := step

end Encoder
end Ogre.Hal
