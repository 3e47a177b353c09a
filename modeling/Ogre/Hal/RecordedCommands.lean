import Ogre.Hal.Recording

/-! The commands that operations of a recorder add to those that were recorded before. -/
namespace Ogre.Hal.Recorder
open Ogre.Core
variable {s t u : Recorder} {cmd texture : Nat} {command : Command} {commands later : List Command}

/-- The commands that were recorded since `s`. -/
def Adds (s t : Recorder) (commands : List Command) : Prop :=
  t.recorded.map (·.command) = s.recorded.map (·.command) ++ commands

theorem Adds.refl : s.Adds s [] := (List.append_nil _).symm

theorem Adds.trans (h : s.Adds t commands) (ht : t.Adds u later) : s.Adds u (commands ++ later) := by
  rw [Adds, ht, h, List.append_assoc]

/-- There is one list of such commands. -/
theorem Adds.unique (h : s.Adds t commands) (ht : s.Adds t later) : commands = later :=
  List.append_cancel_left (h.symm.trans ht)

theorem Adds.congr (h : s.Adds t commands) (hu : u.recorded = t.recorded) : s.Adds u commands := by
  rw [Adds, hu]
  exact h

theorem adds_record : s.Adds (s.record cmd command) [command] := by
  rw [Adds, record, List.map_append]
  rfl

theorem Adds.record (cmd : Nat) (command : Command) (h : s.Adds t commands) :
    s.Adds (t.record cmd command) (commands ++ [command]) :=
  h.trans adds_record

/-- The barrier that a layout is set with. -/
def layoutBarrier (s : Recorder) (texture : Nat) (newLayout : ImageLayout) (baseMipLevel : Nat) : ImageBarrier where
  texture := texture
  oldLayout := (s.sources texture).layout
  newLayout := newLayout
  baseMipLevel := baseMipLevel
  levelCount := (s.desc texture).mipCount - baseMipLevel
  layerCount := toArrayLayerCount (s.desc texture).type

theorem Adds.setLayout (cmd texture : Nat) (newLayout : ImageLayout) (baseMipLevel : Nat) (h : s.Adds t commands) :
    s.Adds (t.setLayout cmd texture newLayout baseMipLevel)
      (commands ++ [.imageBarrier (t.layoutBarrier texture newLayout baseMipLevel)]) :=
  h.trans adds_record

theorem Adds.trackTexture (h : s.Adds t commands) : s.Adds (t.trackTexture cmd texture) commands := h.congr rfl

theorem Adds.trackBuffer {buffer : DeviceBuffer} (h : s.Adds t commands) : s.Adds (t.trackBuffer cmd buffer) commands :=
  h.congr rfl

theorem Adds.trackView {view : BufferView} (h : s.Adds t commands) : s.Adds (t.trackView cmd view) commands := by
  apply h.congr
  unfold Recorder.trackView
  split <;> rfl

end Ogre.Hal.Recorder
