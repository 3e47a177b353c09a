import Ogre.Core.TextureSizes
import Ogre.Hal.LayoutTracking
import Ogre.Hal.RecordedCommands
import Ogre.Library.Machine

/-! Uploads of contents to a texture: what is recorded and submitted for them, and which layout
the texture is tracked in when a step of that fails. -/
namespace Ogre.Hal
open Ogre.Core Ogre.Library Ogre.Geometry Recorder

inductive TextureCoordinateSystem
  | kRenderToTexture
  | kUploadFromHost
  deriving DecidableEq, Repr

structure TextureVK where
  source : Option Nat
  desc : TextureDescriptor
  coordinateSystem : TextureCoordinateSystem := .kRenderToTexture
  isOpaque : Bool := false
  deriving DecidableEq, Repr

def TextureVK.isSliceValid (texture : TextureVK) (slice : Nat) : Bool :=
  match texture.desc.type with
  | .kTexture2D | .kTexture2DMultisample | .kTextureExternalOES => slice = 0
  | .kTextureCube => slice ≤ 5

/-- What the calls of `Submit` come back with. -/
structure SubmissionAnswers where
  ended : Bool
  context : Bool
  fence : Bool
  submitted : Bool
  addedFence : Bool
  deriving DecidableEq, Repr

/-- What the calls of `OnSetContents` come back with. -/
structure UploadAnswers where
  context : Bool
  stagingBuffer : Option DeviceBuffer
  commandBuffer : Option Nat
  submit : SubmissionAnswers
  deriving DecidableEq, Repr

/-- A texture, and the layouts of all images after the submissions that the device has accepted. -/
structure TextureUploads where
  texture : TextureVK
  recorder : Recorder
  layouts : ImageLayouts
  submissions : Nat := 0

/-- The commands that were recorded since `s`. -/
def Recorder.commandsSince (t s : Recorder) : List Command :=
  (t.recorded.drop s.recorded.length).map (·.command)

theorem Recorder.Adds.commandsSince {s t : Recorder} {commands : List Command} (h : s.Adds t commands) :
    t.commandsSince s = commands := by
  rw [Recorder.commandsSince, List.map_drop, h]
  exact List.drop_left' (List.length_map _)

namespace TextureUploads

/-- `TextureVK::GetLayout`. -/
def getLayout (s : TextureUploads) : ImageLayout :=
  s.texture.source.elim .eUndefined fun source => (s.recorder.sources source).layout

/-- `Submit` with one command buffer and without a callback. -/
def submit (s : TextureUploads) (commands : List Command) (answers : SubmissionAnswers) : Bool × TextureUploads :=
  if !answers.ended then (false, s)
  else if !answers.context then (false, s)
  else if !answers.fence then (false, s)
  else if !answers.submitted then (false, s)
  else
    let infos (texture : Nat) := (s.recorder.sources texture).toTextureInfo
    let s := { s with layouts := commands.foldl (·.execute infos ·) s.layouts, submissions := s.submissions + 1 }
    if !answers.addedFence then (false, s) else (true, s)

/-- The commands of an upload, with the transitions before and after. -/
def recordUpload (s : TextureUploads) (source cmd : Nat) (stagingBuffer : DeviceBuffer) (length slice : Nat) :
    Recorder :=
  let recorder := (s.recorder.trackBuffer cmd stagingBuffer).trackTexture cmd source
  let recorder := recorder.setLayout cmd source .eTransferDstOptimal 0
  let recorder := recorder.record cmd (.copyBufferToImage (.ofShared stagingBuffer ⟨0, length⟩) source
    (IRect.makeSize s.texture.desc.size) 0 slice)
  recorder.setLayout cmd source .eShaderReadOnlyOptimal 0

/-- The command buffer is a new one, so it holds what is recorded here. -/
def onSetContents (s : TextureUploads) (contents : Bool) (length slice : Nat) (answers : UploadAnswers) :
    Bool × TextureUploads :=
  match s.texture.source with
  | none => (false, s)
  | some source =>
    if !contents then (false, s)
    else if length ≠ s.texture.desc.getByteSizeOfBaseMipLevel then (false, s)
    else if !answers.context then (false, s)
    else match answers.stagingBuffer, answers.commandBuffer with
      | none, _ => (false, s)
      | some _, none => (false, s)
      | some stagingBuffer, some cmd =>
        let recorder := s.recordUpload source cmd stagingBuffer length slice
        { s with recorder }.submit (recorder.commandsSince s.recorder) answers.submit

/-- What is uploaded: a pointer with a length, or a mapping with its own. -/
inductive Contents
  | pointer (isSet : Bool) (length : Nat)
  | mapping (mapping : Option (Bool × Nat))
  deriving DecidableEq, Repr

/-- A call of one of the two overloads of `SetContents`. -/
structure Call where
  contents : Contents
  slice : Nat
  isOpaque : Bool
  answers : UploadAnswers
  deriving DecidableEq, Repr

/-- Where the overloads differ. -/
def upload (s : TextureUploads) (slice : Nat) (answers : UploadAnswers) : Contents → Bool × TextureUploads
  | .pointer isSet length => s.onSetContents isSet length slice answers
  | .mapping none => (false, s)
  | .mapping (some (isSet, length)) => s.onSetContents isSet length slice answers

def setContents (s : TextureUploads) (call : Call) : Bool × TextureUploads :=
  if !s.texture.isSliceValid call.slice then (false, s)
  else
    let result := s.upload call.slice call.answers call.contents
    if !result.1 then (false, result.2)
    else
      let texture := { result.2.texture with coordinateSystem := .kUploadFromHost, isOpaque := call.isOpaque }
      (true, { result.2 with texture })

/-- The calls on one texture, one after the other. -/
def machine (start : TextureUploads) : Machine TextureUploads Call where
  init := start
  step s call := some (s.setContents call).2

/-- The length of what is given, where something is. -/
def Contents.given : Contents → Option Nat
  | .pointer isSet length => if isSet then some length else none
  | .mapping none => none
  | .mapping (some (isSet, length)) => if isSet then some length else none

/-- Whether a call gets as far as to record its commands. -/
def records (s : TextureUploads) (call : Call) : Bool :=
  s.texture.isSliceValid call.slice && s.texture.source.isSome &&
    call.contents.given = some s.texture.desc.getByteSizeOfBaseMipLevel && call.answers.context &&
    call.answers.stagingBuffer.isSome && call.answers.commandBuffer.isSome

/-- Whether the device accepts the submission. -/
def accepts (answers : SubmissionAnswers) : Bool :=
  answers.ended && answers.context && answers.fence && answers.submitted

/-- All of the image is in the layout that is tracked. -/
def Tracks (s : TextureUploads) : Prop :=
  ∀ source, s.texture.source = some source → ∀ level layer, (s.recorder.sources source).HasSubresource level layer →
    s.layouts source level layer = (s.recorder.sources source).layout

/-- The layout that is tracked is that of the image, and a call that fails before its submission
is accepted changes nothing of the texture. -/
def LeavesTexture (s : TextureUploads) (call : Call) (t : TextureUploads) : Prop :=
  t.Tracks ∧ ((s.setContents call).1 = false → t.submissions = s.submissions →
    t.getLayout = s.getLayout ∧ t.texture = s.texture)

/-- Commands that are recorded and not accepted leave the layout as it was, which is the one to
be read by shaders. -/
def LosesNothing (s : TextureUploads) (call : Call) (_ : TextureUploads) : Prop :=
  s.records call → accepts call.answers.submit = false → s.getLayout = .eShaderReadOnlyOptimal

/-- What a call does to the texture: nothing before it records commands, and from then on the
tracked layout is that of the last of them. -/
structure Settles (s : TextureUploads) (call : Call) (t : TextureUploads) : Prop where
  infos : ∀ texture, (t.recorder.sources texture).toTextureInfo = (s.recorder.sources texture).toTextureInfo
  refused : s.records call = false → t = s
  recorded : s.records call → t.getLayout = .eShaderReadOnlyOptimal
  lost : s.records call → accepts call.answers.submit = false → t.layouts = s.layouts ∧ t.submissions = s.submissions
  accepted : s.records call → accepts call.answers.submit → t.Tracks ∧ t.submissions = s.submissions + 1
  failed : (s.setContents call).1 = false → t.texture = s.texture
  returned : (s.setContents call).1 = (s.records call && accepts call.answers.submit && call.answers.submit.addedFence)

variable {s t : TextureUploads} {source cmd length slice : Nat} {stagingBuffer : DeviceBuffer} {call : Call}

private theorem infos_setLayout {r : Recorder} (cmd : Nat) {texture other : Nat} {layout : ImageLayout} :
    ((r.setLayout cmd texture layout 0).sources other).toTextureInfo = (r.sources other).toTextureInfo :=
  congrArg Prod.fst (congrFun frames_setLayoutWithoutEncoding other)

private theorem infos_recordUpload (other : Nat) :
    ((s.recordUpload source cmd stagingBuffer length slice).sources other).toTextureInfo =
      (s.recorder.sources other).toTextureInfo :=
  (infos_setLayout cmd).trans
    (infos_setLayout (r := (s.recorder.trackBuffer cmd stagingBuffer).trackTexture cmd source) cmd)

private theorem layout_recordUpload :
    ((s.recordUpload source cmd stagingBuffer length slice).sources source).layout = .eShaderReadOnlyOptimal :=
  sources_setLayoutWithoutEncoding_self

/-- What is recorded between two transitions of a whole image. -/
private theorem adds_transitions (r : Recorder) (cmd source : Nat) (command : Command) : ∃ first second,
    r.Adds (((r.setLayout cmd source .eTransferDstOptimal 0).record cmd command).setLayout cmd source
        .eShaderReadOnlyOptimal 0) [.imageBarrier first, command, .imageBarrier second] ∧
    second.newLayout = .eShaderReadOnlyOptimal ∧
    ∀ level layer, (r.sources source).HasSubresource level layer → second.Covers source level layer := by
  have hcopied := ((Adds.refl (s := r)).setLayout cmd source .eTransferDstOptimal 0).record cmd command
  refine ⟨_, _, hcopied.setLayout cmd source .eShaderReadOnlyOptimal 0, rfl, ?_⟩
  intro level layer hsub
  have hinfo : (((r.setLayout cmd source .eTransferDstOptimal 0).record cmd command).sources source).toTextureInfo =
      (r.sources source).toTextureInfo := infos_setLayout cmd
  rw [TextureInfo.HasSubresource, ← hinfo] at hsub
  exact ⟨rfl, ⟨Nat.zero_le _, by simpa [layoutBarrier, Recorder.desc] using hsub.1⟩, hsub.2⟩

/-- An upload that is executed leaves the whole image to be read by shaders. -/
private theorem layouts_recordUpload {level layer : Nat} {infos : Nat → TextureInfo}
    (h : (s.recorder.sources source).HasSubresource level layer) :
    ((s.recordUpload source cmd stagingBuffer length slice).commandsSince s.recorder).foldl
      (·.execute infos ·) s.layouts source level layer = .eShaderReadOnlyOptimal := by
  obtain ⟨first, second, hadds, hlayout, hcovers⟩ := adds_transitions
    ((s.recorder.trackBuffer cmd stagingBuffer).trackTexture cmd source) cmd source
    (.copyBufferToImage (.ofShared stagingBuffer ⟨0, length⟩) source (IRect.makeSize s.texture.desc.size) 0 slice)
  have htracked : s.recorder.Adds ((s.recorder.trackBuffer cmd stagingBuffer).trackTexture cmd source) [] :=
    Adds.refl.trackBuffer.trackTexture
  have hcommands : (s.recordUpload source cmd stagingBuffer length slice).commandsSince s.recorder = _ :=
    (htracked.trans hadds).commandsSince
  rw [hcommands]
  exact (ImageLayouts.transition_of_covers (hcovers level layer h)).trans hlayout

private theorem submit_of_not_accepts {commands : List Command} {answers : SubmissionAnswers}
    (h : accepts answers = false) : s.submit commands answers = (false, s) := by
  obtain ⟨ended, context, fence, submitted, addedFence⟩ := answers
  cases ended <;> cases context <;> cases fence <;> cases submitted <;> first | rfl | cases h

private theorem submit_of_accepts {commands : List Command} {answers : SubmissionAnswers} (h : accepts answers) :
    s.submit commands answers = (answers.addedFence, { s with
      layouts := commands.foldl (·.execute (fun texture => (s.recorder.sources texture).toTextureInfo) ·) s.layouts,
      submissions := s.submissions + 1 }) := by
  obtain ⟨ended, context, fence, submitted, addedFence⟩ := answers
  simp only [accepts, Bool.and_eq_true] at h
  obtain ⟨⟨⟨rfl, rfl⟩, rfl⟩, rfl⟩ := h
  cases addedFence <;> rfl

private theorem onSetContents_null {answers : UploadAnswers} :
    s.onSetContents false length slice answers = (false, s) := by
  unfold onSetContents
  split <;> rfl

private theorem upload_eq {answers : UploadAnswers} {contents : Contents} : s.upload slice answers contents =
    contents.given.elim (false, s) fun length => s.onSetContents true length slice answers := by
  rcases contents with ⟨_ | _, _⟩ | _ | ⟨_ | _, _⟩
  · exact onSetContents_null
  · rfl
  · rfl
  · exact onSetContents_null
  · rfl

/-- A call is refused before it records its commands, or it submits them. -/
private theorem onSetContents_cases (s : TextureUploads) (length slice : Nat) (answers : UploadAnswers) :
    (s.onSetContents true length slice answers = (false, s) ∧
      (s.texture.source.isSome && length = s.texture.desc.getByteSizeOfBaseMipLevel && answers.context &&
        answers.stagingBuffer.isSome && answers.commandBuffer.isSome) = false) ∨
    ∃ source cmd stagingBuffer, s.texture.source = some source ∧
      (s.texture.source.isSome && length = s.texture.desc.getByteSizeOfBaseMipLevel && answers.context &&
        answers.stagingBuffer.isSome && answers.commandBuffer.isSome) = true ∧
      s.onSetContents true length slice answers =
        { s with recorder := s.recordUpload source cmd stagingBuffer length slice }.submit
          ((s.recordUpload source cmd stagingBuffer length slice).commandsSince s.recorder) answers.submit := by
  obtain ⟨context, staging, cmdBuffer, submit⟩ := answers
  cases hsource : s.texture.source with
  | none => exact .inl (by simp [onSetContents, hsource])
  | some source =>
    by_cases hlength : length = s.texture.desc.getByteSizeOfBaseMipLevel
    · rcases context with _ | _
      · exact .inl (by simp [onSetContents, hsource, hlength])
      rcases staging with _ | stagingBuffer
      · exact .inl (by simp [onSetContents, hsource, hlength])
      rcases cmdBuffer with _ | cmd
      · exact .inl (by simp [onSetContents, hsource, hlength])
      · exact .inr ⟨source, cmd, stagingBuffer, rfl, by simp [hlength], by simp [onSetContents, hsource, hlength]⟩
    · exact .inl (by simp [onSetContents, hsource, hlength])

private theorem setContents_cases (s : TextureUploads) (call : Call) :
    (s.setContents call = (false, s) ∧ s.records call = false) ∨
    ∃ source cmd stagingBuffer length, s.texture.source = some source ∧ s.records call ∧
      s.setContents call =
        let result := { s with recorder := s.recordUpload source cmd stagingBuffer length call.slice }.submit
          ((s.recordUpload source cmd stagingBuffer length call.slice).commandsSince s.recorder) call.answers.submit
        if !result.1 then (false, result.2) else (true, { result.2 with texture :=
          { result.2.texture with coordinateSystem := .kUploadFromHost, isOpaque := call.isOpaque } }) := by
  unfold setContents records
  cases hslice : s.texture.isSliceValid call.slice with
  | false => exact .inl ⟨rfl, rfl⟩
  | true =>
    rw [upload_eq]
    cases hgiven : call.contents.given with
    | none => exact .inl ⟨rfl, by simp⟩
    | some length =>
      rcases onSetContents_cases s length call.slice call.answers with
        ⟨heq, hrecords⟩ | ⟨source, cmd, stagingBuffer, hsource, hrecords, heq⟩
      · exact .inl ⟨by simp [heq], by simpa using hrecords⟩
      · exact .inr ⟨source, cmd, stagingBuffer, length, hsource, by simpa using hrecords, by simp [heq]⟩

/-- Once a submission is accepted, all of the image is in the layout that is tracked. -/
private theorem tracks_recordUpload {u : TextureUploads} (hsource : s.texture.source = some source)
    (hu : u.texture.source = s.texture.source)
    (hrecorder : u.recorder = s.recordUpload source cmd stagingBuffer length slice)
    (hlayouts : u.layouts = ((s.recordUpload source cmd stagingBuffer length slice).commandsSince s.recorder).foldl
      (·.execute (fun texture => (u.recorder.sources texture).toTextureInfo) ·) s.layouts) : u.Tracks := by
  intro other hother level layer hsub
  obtain rfl : source = other := Option.some.inj ((hu.trans hsource).symm.trans hother)
  rw [hrecorder, infos_recordUpload] at hsub
  rw [hlayouts, layouts_recordUpload hsub, hrecorder, layout_recordUpload]

theorem settles : Settles s call (s.setContents call).2 := by
  rcases setContents_cases s call with
    ⟨heq, hrecords⟩ | ⟨source, cmd, stagingBuffer, length, hsource, hrecords, heq⟩
  · rw [heq]
    have hnot : ¬ s.records call := by simp [hrecords]
    exact ⟨fun _ => rfl, fun _ => rfl, fun h => absurd h hnot, fun h => absurd h hnot, fun h => absurd h hnot,
      fun _ => rfl, by rw [heq, hrecords]; rfl⟩
  have hnot : ¬ s.records call = false := by simp [hrecords]
  have hlayout : ((s.recordUpload source cmd stagingBuffer length call.slice).sources source).layout =
      .eShaderReadOnlyOptimal := layout_recordUpload
  cases haccepts : accepts call.answers.submit with
  | false =>
    rw [submit_of_not_accepts haccepts] at heq
    rw [heq]
    refine ⟨infos_recordUpload, fun h => absurd h hnot, fun _ => ?_, fun _ _ => ⟨rfl, rfl⟩,
      fun _ h => by simp [haccepts] at h, fun _ => rfl, by rw [heq, hrecords, haccepts]; rfl⟩
    simpa [getLayout, hsource] using hlayout
  | true =>
    rw [submit_of_accepts haccepts] at heq
    cases hfence : call.answers.submit.addedFence with
    | false =>
      rw [hfence] at heq
      rw [heq]
      refine ⟨infos_recordUpload, fun h => absurd h hnot, fun _ => ?_,
        fun _ h => by simp [haccepts] at h, fun _ _ => ⟨?_, rfl⟩,
        fun _ => rfl, by rw [heq, hrecords, haccepts, hfence]; rfl⟩
      · simpa [getLayout, hsource] using hlayout
      · exact tracks_recordUpload hsource rfl rfl rfl
    | true =>
      rw [hfence] at heq
      rw [heq]
      refine ⟨infos_recordUpload, fun h => absurd h hnot, fun _ => ?_,
        fun _ h => by simp [haccepts] at h, fun _ _ => ⟨?_, rfl⟩,
        ?_, by rw [heq, hrecords, haccepts, hfence]; rfl⟩
      · simpa [getLayout, hsource] using hlayout
      · exact tracks_recordUpload hsource rfl rfl rfl
      · intro h
        rw [heq] at h
        cases h

private theorem Tracks.lost (hs : s.Tracks) (ht : Settles s call t) (htexture : t.texture = s.texture)
    (hlayouts : t.layouts = s.layouts) (hlayout : t.getLayout = s.getLayout) : t.Tracks := by
  intro source hsource level layer hsub
  rw [htexture] at hsource
  rw [ht.infos] at hsub
  simp only [getLayout, htexture, hsource, Option.elim_some] at hlayout
  rw [hlayouts, hlayout]
  exact hs source hsource level layer hsub

private theorem leavesTexture_iff (hs : s.Tracks) (ht : Settles s call t) :
    LeavesTexture s call t ↔ LosesNothing s call t := by
  constructor
  · intro h hrecords haccepts
    have hreturned := ht.returned
    rw [haccepts, Bool.and_false, Bool.false_and] at hreturned
    rw [← (h.2 hreturned (ht.lost hrecords haccepts).2).1]
    exact ht.recorded hrecords
  · intro h
    cases hrecords : s.records call with
    | false =>
      obtain rfl := ht.refused hrecords
      exact ⟨hs, fun _ _ => ⟨rfl, rfl⟩⟩
    | true =>
      cases haccepts : accepts call.answers.submit with
      | false =>
        have hlayout : t.getLayout = s.getLayout := (ht.recorded hrecords).trans (h hrecords haccepts).symm
        have htexture : t.texture = s.texture := ht.failed (by rw [ht.returned, haccepts, Bool.and_false]; rfl)
        exact ⟨hs.lost ht htexture (ht.lost hrecords haccepts).1 hlayout, fun _ _ => ⟨hlayout, htexture⟩⟩
      | true =>
        obtain ⟨htracks, hsubmissions⟩ := ht.accepted hrecords haccepts
        exact ⟨htracks, fun _ hkept => by omega⟩

/-- Every call settles the texture, and exactly the runs that lose no recorded commands keep its
tracked layout that of its image and undo nothing that they should. -/
theorem uploads_settle (hs : s.Tracks) (calls : List Call) :
    (machine s).Along Settles s calls ∧
    ((machine s).Along LeavesTexture s calls ↔ (machine s).Along LosesNothing s calls) := by
  have hstep {s t u : TextureUploads} {call : Call} (h : (machine u).step s call = some t) : Settles s call t := by
    obtain rfl := Option.some.inj h
    exact settles
  constructor
  · apply Machine.along_of_invariant (I := fun _ => True) (C := fun _ _ _ => True)
    · intro s call t _ _ h
      exact ⟨hstep h, trivial⟩
    · trivial
    · exact Machine.along_of_forall fun _ _ _ _ => trivial
  · apply Machine.along_iff (I := Tracks)
    · intro s call t hi h
      exact leavesTexture_iff hi (hstep h)
    · intro s call t hi hc h
      exact ((leavesTexture_iff hi (hstep h)).mpr hc).1
    · exact hs

/-- A new texture of 4 by 4 pixels, whose image has no layout yet. -/
private def newTexture : TextureUploads where
  texture := { source := some 0, desc := { format := .kR8G8B8A8UNormInt, size := ⟨4, 4⟩ } }
  recorder := { sources _ := { desc := { format := .kR8G8B8A8UNormInt, size := ⟨4, 4⟩ } } }
  layouts _ _ _ := .eUndefined

/-- An upload of all its bytes, which the queue may accept. -/
private def wholeUpload (submitted : Bool) : Call where
  contents := .pointer true 64
  slice := 0
  isOpaque := true
  answers := ⟨true, some ⟨0, 64⟩, some 0, ⟨true, true, true, submitted, true⟩⟩

private theorem newTexture_tracks : newTexture.Tracks := fun _ _ _ _ _ => rfl

theorem uploads_settle_newTexture : newTexture.Tracks ∧
    (machine newTexture).Along LeavesTexture newTexture [wholeUpload true, wholeUpload false] := by
  refine ⟨newTexture_tracks, (uploads_settle newTexture_tracks _).2.mpr ⟨?_, ?_, trivial⟩⟩
  · intro _ h
    cases h
  · intro _ _
    rfl

/-- The queue does not accept the first upload, and the texture is tracked to be read by shaders. -/
theorem uploads_settle_not_submitted : newTexture.Tracks ∧
    ¬ (machine newTexture).Along LeavesTexture newTexture [wholeUpload false] := by
  refine ⟨newTexture_tracks, fun h => ?_⟩
  have htracked := (h.1.2 rfl rfl).1
  revert htracked
  decide

end TextureUploads
end Ogre.Hal
