import Ogre.Hal.CommandQueue
import Ogre.Hal.FenceDelivery

/-! How long the tracked objects of a batch live, across `Submit`, the device and the
fence waiter. -/
namespace Ogre.Hal

namespace FenceWaiter
variable {w v : FenceWaiter} {b : Nat}

/-- What a step that is not about an entry leaves of it. -/
structure SameEntry (w v : FenceWaiter) (b : Nat) : Prop where
  signalled : v.signalled b = w.signalled b
  accepted : .accepted b ∈ v.log ↔ .accepted b ∈ w.log
  invoked : .invokedCallback b ∈ v.log ↔ .invokedCallback b ∈ w.log

theorem SameEntry.of_log (hs : v.signalled = w.signalled) (hl : v.log = w.log) : SameEntry w v b :=
  ⟨by rw [hs], by rw [hl], by rw [hl]⟩

private theorem SameEntry.of_record {e : WaiterEvent} (hs : v.signalled = w.signalled)
    (hl : v.log = w.log ++ [e]) (he : e ≠ .accepted b ∧ e ≠ .invokedCallback b) : SameEntry w v b :=
  ⟨by rw [hs], by simp [hl, he.1.symm], by simp [hl, he.2.symm]⟩

private theorem sameEntry_tearDown : SameEntry w w.tearDown b :=
  .of_record rfl rfl (by simp)

theorem sameEntry_runThread {answer : Bool} (h : w.runThread answer = some v) :
    SameEntry w v b ∧ v.owner = w.owner := by
  cases moves_of_runThread h with
  | moves t _ _ _ _ _ => exact ⟨.of_log rfl rfl, rfl⟩
  | observes d entry set _ _ => exact ⟨.of_record rfl rfl (by simp), rfl⟩
  | erases d _ => exact ⟨.of_log rfl rfl, rfl⟩
  | tearsDown _ _ => exact ⟨sameEntry_tearDown, rfl⟩

/-- A callback is invoked for an erased entry, or for one that the destructor finds. -/
theorem destroyEntry_cases (h : w.destroyEntry b = some v) :
    (b ∈ w.erased ∨ w.owner = .destructing ∧ b ∈ w.waitSet) ∧
      v.log = w.log ++ [.invokedCallback b] ∧ v.signalled = w.signalled ∧ v.owner = w.owner := by
  cases destroys_of_destroyEntry h with
  | erased d set ht hmem => exact ⟨.inl (by simpa [erased, ht] using hmem), rfl, rfl, rfl⟩
  | waiting howner hmem => exact ⟨.inr ⟨howner, hmem⟩, rfl, rfl, rfl⟩

/-- An entry that was added is in the waiter until its callback is invoked. -/
theorem Ledger.mem_iff (h : Ledger w) :
    b ∈ w.waitSet ∨ b ∈ w.erased ↔ .accepted b ∈ w.log ∧ .invokedCallback b ∉ w.log := by
  have hc := h.conserved b
  have ha := h.asked b
  simp only [← List.count_pos_iff]
  omega

/-- The fence of an erased entry is signalled. -/
theorem Ledger.signalled_of_erased (h : Ledger w) (hb : b ∈ w.erased) : w.signalled b = true :=
  h.genuine b (h.seen b (h.erasedSeen b hb))

/-- The owner has not begun to delete the waiter. -/
def InUse (w : FenceWaiter) : Prop := w.owner = .idle ∨ w.owner = .terminating

private theorem sameEntry_beginTerminate (owner finished : WaiterOwner) :
    SameEntry w (w.beginTerminate owner finished) b := by
  unfold beginTerminate
  split <;> exact .of_log rfl rfl

theorem sameEntry_step {a : Label} (h : w.step a = some v)
    (ha : ∀ e valid, a ≠ .addFence e valid ∧ a ≠ .destroyEntry e ∧ a ≠ .signal e) :
    SameEntry w v b ∧ (a ≠ .delete → w.InUse → v.InUse) := by
  cases a with
  | addFence e valid => exact ((ha e valid).1 rfl).elim
  | destroyEntry e => exact ((ha e true).2.1 rfl).elim
  | signal e => exact ((ha e true).2.2 rfl).elim
  | thread answer =>
    obtain ⟨hsame, ho⟩ := sameEntry_runThread h
    exact ⟨hsame, fun _ hu => by simpa [InUse, ho] using hu⟩
  | loseDeviceHolder => exact Option.some.inj h ▸ ⟨.of_log rfl rfl, fun _ hu => hu⟩
  | terminate =>
    simp only [step] at h
    split at h
    · refine Option.some.inj h ▸ ⟨sameEntry_beginTerminate _ _, fun _ _ => ?_⟩
      unfold beginTerminate
      split
      · exact .inl rfl
      · exact .inr rfl
    · exact Option.some.inj h ▸ ⟨.of_log rfl rfl, fun _ hu => hu⟩
    · cases h
  | delete =>
    simp only [step] at h
    split at h
    · exact Option.some.inj h ▸ ⟨sameEntry_beginTerminate _ _, fun hd => (hd rfl).elim⟩
    · cases h
  | joined =>
    simp only [step] at h
    split at h
    · exact Option.some.inj h ▸ ⟨.of_log rfl rfl, fun _ _ => .inl rfl⟩
    next hd _ => exact Option.some.inj h ▸ ⟨.of_log rfl rfl, fun _ hu => by simp [InUse, hd] at hu⟩
    · cases h
  | destroyed =>
    simp only [step] at h
    split at h
    next hd => exact Option.some.inj h ▸ ⟨.of_log rfl rfl, fun _ hu => by simp [InUse, hd.1] at hu⟩
    · cases h

/-- What a call of `AddFence` in the steps of the waiter does. -/
theorem step_addFence (h : w.step (.addFence b true) = some v) :
    w.isNew b = true ∧ v = (w.addFence b true).2 := by
  simp only [step] at h
  split at h
  next hn => exact ⟨by simp_all, (Option.some.inj h).symm⟩
  next => cases h

theorem addFence_log : (w.addFence b true).2.log =
    w.log ++ [if (w.addFence b true).1 then .accepted b else .refused b] := by
  unfold addFence
  cases w.terminate <;> rfl

theorem addFence_frame : (w.addFence b true).2.signalled = w.signalled ∧
    (w.addFence b true).2.owner = w.owner := by
  unfold addFence
  cases w.terminate <;> exact ⟨rfl, rfl⟩

end FenceWaiter

namespace CommandQueue
open Ogre.Library Ogre.Fml
variable {s t : CommandQueue} {a : Label} {b c : Nat}

/-- What an event of the log asks of those before it: the objects of an accepted batch
are released after its fence was signalled, and before its callback is told so. -/
def InOrder (before : List QueueEvent) : QueueEvent → Prop
  | .released b => .accepted b ∈ before → .signalled b ∈ before
  | .completionCallback b .kCompleted => .released b ∈ before
  | _ => True

def TrackedLifetime (s : CommandQueue) : Prop := EachAfter InOrder s.log

/-- A refused closure is destroyed, or an entry, when the fence of its batch is signalled,
and a completion callback is invoked when `Submit` has destroyed its own closure. -/
def KeepsLifetime (s : CommandQueue) : Label → Prop
  | .dropTemporary b => (s.calls b).phase = .addedFence false → s.waiter.signalled b = true
  | .clearTrackedObjects b => s.waiter.signalled b = true
  | .invokeCompletionCallback b =>
    (s.calls b).completionCallback = true → (s.calls b).phase ≠ .addedFence true
  | _ => True

instance (s : CommandQueue) : (a : Label) → Decidable (KeepsLifetime s a)
  | .dropTemporary _ | .invokeCompletionCallback _ => inferInstanceAs (Decidable (_ → _))
  | .clearTrackedObjects _ => inferInstanceAs (Decidable (_ = _))
  | .submit _ _ _ | .endCommandBuffer _ _ | .lockContext _ _ | .createFence _ _ | .queueSubmit _ _
  | .addFence _ | .leave _ | .signal _ | .waiter _ => .isTrue trivial

/-- The call has not got as far as the queue. -/
def beforeQueue : SubmitPhase → Bool
  | .notCalled | .ending _ | .creatingFence | .submitting => true
  | _ => false

/-- The steps of a call that make it return early. -/
def Label.Fails (b : Nat) : Label → Prop
  | .endCommandBuffer batch success | .lockContext batch success | .createFence batch success
  | .queueSubmit batch success => batch = b ∧ success = false
  | .submit _ _ _ | .addFence _ | .dropTemporary _ | .leave _ | .clearTrackedObjects _ | .invokeCompletionCallback _
  | .signal _ | .waiter _ => False

/-- What a step does. -/
inductive Effect (s : CommandQueue) : Label → CommandQueue → Prop
  | submitted (b : Nat) (buffers : List Nat) (completionCallback : Bool) (hp : (s.calls b).phase = .notCalled) :
      Effect s (.submit b buffers completionCallback) (s.submit b buffers completionCallback)
  | ended (b buffer : Nat) (buffers : List Nat) (hp : (s.calls b).phase = .ending (buffer :: buffers)) :
      Effect s (.endCommandBuffer b true) { s.setPhase b (.ending buffers) with moved := s.moved ++ [buffer] }
  | locked (b : Nat) (hp : (s.calls b).phase = .ending []) (ho : s.waiter.owner ∈ [.idle, .terminating]) :
      Effect s (.lockContext b true) (s.setPhase b .creatingFence)
  | fenceCreated (b : Nat) (hp : (s.calls b).phase = .creatingFence) :
      Effect s (.createFence b true) (s.setPhase b .submitting)
  | accepted (b : Nat) (hp : (s.calls b).phase = .submitting) :
      Effect s (.queueSubmit b true) ((s.setPhase b .addingFence).record (.accepted b))
  | fenceAdded (b : Nat) (w : FenceWaiter) (hp : (s.calls b).phase = .addingFence)
      (hw : s.waiter.step (.addFence b true) = some w) :
      Effect s (.addFence b) { s.setPhase b (.addedFence (s.waiter.addFence b true).1) with waiter := w }
  | dropped (b : Nat) (hp : (s.calls b).phase = .addedFence true) :
      Effect s (.dropTemporary b) ((s.setPhase b (.cleanup false {})).dropObjects b)
  | refused (b : Nat) (message : String) (hp : (s.calls b).phase = .addedFence false) :
      Effect s (.dropTemporary b) (s.cancel b message)
  | failed (b : Nat) (message : String) (a : Label) (ha : a.Fails b) (hp : beforeQueue (s.calls b).phase = true)
      (hcalled : (s.calls b).phase ≠ .notCalled) : Effect s a (s.cancel b message)
  | left (b : Nat) (armed : Bool) (status : Status) (hp : (s.calls b).phase = .cleanup armed status) :
      Effect s (.leave b) (if armed && ((s.setPhase b (.returned status)).calls b).completionCallback
        then (s.setPhase b (.returned status)).record (.completionCallback b .kError)
        else s.setPhase b (.returned status))
  | cleared (b : Nat) (w : FenceWaiter) (hidle : s.running = none) (hw : s.waiter.step (.destroyEntry b) = some w) :
      Effect s (.clearTrackedObjects b) ({ s with waiter := w, running := some b }.dropObjects b)
  | invoked (b : Nat) (hrunning : s.running = some b) :
      Effect s (.invokeCompletionCallback b) (if (s.calls b).completionCallback
        then { s with running := none }.record (.completionCallback b .kCompleted)
        else { s with running := none })
  | signalled (b : Nat) (w : FenceWaiter) (hw : s.waiter.step (.signal b) = some w) :
      Effect s (.signal b) ({ s with waiter := w }.record (.signalled b))
  | waited (l : FenceWaiter.Label) (w : FenceWaiter) (henabled : s.waiterEnabled l = true)
      (hw : s.waiter.step l = some w) : Effect s (.waiter l) { s with waiter := w }

theorem effect_of_step (hs : s.step a = some t) : Effect s a t := by
  cases a with
  | submit b buffers callback =>
    obtain ⟨hp, hs⟩ := Option.ite_none_right_eq_some.mp hs
    exact Option.some.inj hs ▸ .submitted b buffers callback hp
  | endCommandBuffer b success =>
    simp only [CommandQueue.step] at hs
    split at hs
    next buffer buffers hp =>
      split at hs
      · cases hs
      cases success with
      | true => exact Option.some.inj hs ▸ .ended b buffer buffers hp
      | false => exact Option.some.inj hs ▸ .failed b _ _ ⟨rfl, rfl⟩ (by rw [hp]; rfl) (by simp [hp])
    next => cases hs
  | lockContext b alive =>
    simp only [CommandQueue.step] at hs
    split at hs
    next hp =>
      cases alive with
      | false => exact Option.some.inj hs ▸ .failed b _ _ ⟨rfl, rfl⟩ (by rw [hp]; rfl) (by simp [hp])
      | true =>
        obtain ⟨ho, hs⟩ := Option.ite_none_right_eq_some.mp hs
        exact Option.some.inj hs ▸ .locked b hp ho
    next => cases hs
  | createFence b success =>
    simp only [CommandQueue.step] at hs
    split at hs
    next hp =>
      cases success with
      | true => exact Option.some.inj hs ▸ .fenceCreated b hp
      | false => exact Option.some.inj hs ▸ .failed b _ _ ⟨rfl, rfl⟩ (by rw [hp]; rfl) (by simp [hp])
    next => cases hs
  | queueSubmit b success =>
    simp only [CommandQueue.step] at hs
    split at hs
    next hp =>
      cases success with
      | true => exact Option.some.inj hs ▸ .accepted b hp
      | false => exact Option.some.inj hs ▸ .failed b _ _ ⟨rfl, rfl⟩ (by rw [hp]; rfl) (by simp [hp])
    next => cases hs
  | addFence b =>
    simp only [CommandQueue.step] at hs
    split at hs
    next hp =>
      obtain ⟨w, hw, rfl⟩ := Option.map_eq_some_iff.mp hs
      exact .fenceAdded b w hp hw
    next => cases hs
  | dropTemporary b =>
    simp only [CommandQueue.step] at hs
    split at hs
    next hp => exact Option.some.inj hs ▸ .dropped b hp
    next hp => exact Option.some.inj hs ▸ .refused b _ hp
    next => cases hs
  | leave b =>
    simp only [CommandQueue.step] at hs
    split at hs
    next armed status hp => exact Option.some.inj hs ▸ .left b armed status hp
    next => cases hs
  | clearTrackedObjects b =>
    obtain ⟨hidle, hs⟩ := Option.ite_none_right_eq_some.mp hs
    obtain ⟨w, hw, rfl⟩ := Option.map_eq_some_iff.mp hs
    exact .cleared b w hidle hw
  | invokeCompletionCallback b =>
    obtain ⟨hrunning, hs⟩ := Option.ite_none_right_eq_some.mp hs
    exact Option.some.inj hs ▸ .invoked b hrunning
  | signal b =>
    obtain ⟨-, hs⟩ := Option.ite_none_right_eq_some.mp hs
    obtain ⟨w, hw, rfl⟩ := Option.map_eq_some_iff.mp hs
    exact .signalled b w hw
  | waiter l =>
    obtain ⟨henabled, hs⟩ := Option.ite_none_right_eq_some.mp hs
    obtain ⟨w, hw, rfl⟩ := Option.map_eq_some_iff.mp hs
    exact .waited l w henabled hw

/-- What is known of a batch from the place of its call and of its entry. -/
structure BatchOk (s : CommandQueue) (b : Nat) : Prop where
  signalled : s.waiter.signalled b = true ↔ .signalled b ∈ s.log
  early : beforeQueue (s.calls b).phase = true → .accepted b ∉ s.log
  adding : (s.calls b).phase = .addingFence → .accepted b ∈ s.log
  added : ∀ added, (s.calls b).phase = .addedFence added →
    .accepted b ∈ s.log ∧ (added = true ↔ .accepted b ∈ s.waiter.log)
  late : .accepted b ∈ s.waiter.log → .accepted b ∈ s.log ∧
    ((s.calls b).phase = .addedFence true ∨ (s.calls b).phase.holdsObjects = false)
  observed : (s.calls b).phase = .addedFence true → .invokedCallback b ∈ s.waiter.log →
    s.waiter.signalled b = true
  held : (s.calls b).phase = .notCalled ∨ (s.calls b).phase.holdsObjects = true ∨ s.entryHolds b = true →
    .released b ∉ s.log
  running : s.running = some b → .accepted b ∈ s.waiter.log ∧ .invokedCallback b ∈ s.waiter.log ∧
    ((s.calls b).phase.holdsObjects = false → .released b ∈ s.log)
  inUse : (s.calls b).phase.holdsContext = true → s.waiter.InUse
  listed : (s.calls b).phase ≠ .notCalled → b ∈ s.batches

structure Inv (s : CommandQueue) : Prop where
  ledger : s.waiter.Ledger
  control : s.waiter.Control
  batch : ∀ b, BatchOk s b

theorem inv_init : Inv {} where
  ledger := FenceWaiter.ledger_init
  control := FenceWaiter.control_init
  batch b := by constructor <;> simp [SubmitPhase.holdsObjects, SubmitPhase.holdsContext]

/-- The batch whose fence or whose objects an event is about. -/
def eventBatch : QueueEvent → Option Nat
  | .accepted b | .signalled b | .released b => some b
  | .completionCallback _ _ => none

theorem entryHolds_iff (h : s.waiter.Ledger) :
    s.entryHolds b = true ↔ .accepted b ∈ s.waiter.log ∧ .invokedCallback b ∉ s.waiter.log := by
  rw [← h.mem_iff]
  simp [entryHolds]

/-- A step that is about another batch. -/
theorem BatchOk.frame (h : BatchOk s c) (hl : s.waiter.Ledger) (hlt : t.waiter.Ledger)
    (hcall : t.calls c = s.calls c) (hw : FenceWaiter.SameEntry s.waiter t.waiter c)
    (hlog : ∃ l, t.log = s.log ++ l ∧ ∀ e ∈ l, eventBatch e ≠ some c)
    (hrun : t.running = some c → s.running = some c) (hbat : ∀ b ∈ s.batches, b ∈ t.batches)
    (huse : (s.calls c).phase.holdsContext = true → s.waiter.InUse → t.waiter.InUse) : BatchOk t c := by
  obtain ⟨l, hlog, hne⟩ := hlog
  have old (e : QueueEvent) (he : eventBatch e = some c) : e ∈ t.log ↔ e ∈ s.log := by
    rw [hlog, List.mem_append, or_iff_left fun hm => hne e hm he]
  have hentry : t.entryHolds c = true ↔ s.entryHolds c = true := by
    rw [entryHolds_iff hl, entryHolds_iff hlt, hw.accepted, hw.invoked]
  constructor
  · rw [hw.signalled, old _ rfl, h.signalled]
  · rw [hcall, old _ rfl]; exact h.early
  · rw [hcall, old _ rfl]; exact h.adding
  · rw [hcall, old _ rfl, hw.accepted]; exact h.added
  · rw [hcall, old _ rfl, hw.accepted]; exact h.late
  · rw [hcall, hw.invoked, hw.signalled]; exact h.observed
  · rw [hcall, hentry, old _ rfl]; exact h.held
  · rw [hcall, old _ rfl, hw.accepted, hw.invoked]; exact fun hr => h.running (hrun hr)
  · rw [hcall]; exact fun hc => huse hc (h.inUse hc)
  · rw [hcall]; exact fun hc => hbat c (h.listed hc)

/-- A step of a call leaves the waiter alone, and what is known of the other batches. -/
theorem Inv.ofCall (h : Inv s) (b : Nat) (hw : t.waiter = s.waiter) (hcalls : ∀ c, c ≠ b → t.calls c = s.calls c)
    (hlog : ∃ l, t.log = s.log ++ l ∧ ∀ e ∈ l, ∀ c, eventBatch e = some c → c = b) (hrun : t.running = s.running)
    (hbat : ∀ b ∈ s.batches, b ∈ t.batches) (hb : BatchOk t b) : Inv t where
  ledger := hw ▸ h.ledger
  control := hw ▸ h.control
  batch c := by
    by_cases hc : c = b
    · exact hc ▸ hb
    · obtain ⟨l, hlog, hl⟩ := hlog
      refine (h.batch c).frame h.ledger (hw ▸ h.ledger) (hcalls c hc) (by rw [hw]; exact .of_log rfl rfl)
        ⟨l, hlog, fun e he hec => hc (hl e he c hec)⟩ (by rw [hrun]; exact id) hbat ?_
      rw [hw]
      exact fun _ => id

/-- The waiter knows nothing of a batch that has not got as far as the queue. -/
theorem BatchOk.unknown (h : BatchOk s b) (hp : beforeQueue (s.calls b).phase = true) :
    .accepted b ∉ s.waiter.log := fun ha => h.early hp (h.late ha).1

theorem BatchOk.unreleased (h : BatchOk s b) (hp : beforeQueue (s.calls b).phase = true) :
    .released b ∉ s.log := by
  refine h.held ?_
  cases hphase : (s.calls b).phase <;> simp_all [beforeQueue, SubmitPhase.holdsObjects]

/-- A step on the way to the queue. -/
theorem Inv.onward (h : Inv s) (hp : beforeQueue (s.calls b).phase = true) (hw : t.waiter = s.waiter)
    (hcalls : ∀ c, c ≠ b → t.calls c = s.calls c) (hlog : t.log = s.log) (hrun : t.running = s.running)
    (hbat : ∀ b ∈ s.batches, b ∈ t.batches) (hpt : beforeQueue (t.calls b).phase = true)
    (hb : b ∈ t.batches) (huse : (t.calls b).phase.holdsContext = true → s.waiter.InUse) : Inv t := by
  have hk := h.batch b
  refine h.ofCall b hw hcalls ⟨[], by simp [hlog], by simp⟩ hrun hbat ?_
  constructor
  · rw [hw, hlog]; exact hk.signalled
  · rw [hlog]; exact fun _ => hk.early hp
  · intro hq; simp [hq, beforeQueue] at hpt
  · intro _ hq; simp [hq, beforeQueue] at hpt
  · rw [hw]; exact fun ha => (hk.unknown hp ha).elim
  · intro hq; simp [hq, beforeQueue] at hpt
  · rw [hlog]; exact fun _ => hk.unreleased hp
  · rw [hw, hrun]; exact fun hr => (hk.unknown hp (hk.running hr).1).elim
  · rw [hw]; exact huse
  · exact fun _ => hb

@[simp] theorem cancel_waiter {m : String} : (s.cancel b m).waiter = s.waiter := by simp [cancel]
@[simp] theorem cancel_running {m : String} : (s.cancel b m).running = s.running := by simp [cancel]
@[simp] theorem cancel_batches {m : String} : (s.cancel b m).batches = s.batches := by simp [cancel]

/-- An early return releases the objects that the waiter has not been given. -/
theorem cancel_log {m : String} (h : Inv s) (hn : .accepted b ∉ s.waiter.log) :
    (s.cancel b m).log = s.log ++ [.released b] := by
  have he : s.entryHolds b = false := by
    rw [Bool.eq_false_iff]
    exact fun he => hn ((entryHolds_iff h.ledger).mp he).1
  simp [cancel, dropObjects_log, SubmitPhase.holdsObjects, he]

theorem Inv.cancel (h : Inv s) (hn : .accepted b ∉ s.waiter.log) (hp : (s.calls b).phase ≠ .notCalled)
    (m : String) : Inv (s.cancel b m) := by
  have hk := h.batch b
  have hlog := cancel_log (m := m) h hn
  have hphase : ((s.cancel b m).calls b).phase = .cleanup true ⟨.kCancelled, m⟩ := by
    simp [CommandQueue.cancel]
  refine h.ofCall b (by simp) (fun c hc => by simp [CommandQueue.cancel, setPhase_of_ne, hc])
    ⟨_, hlog, by simp [eventBatch]⟩ (by simp) (by simp) ?_
  constructor
  · simpa [hlog] using hk.signalled
  · simp [hphase, beforeQueue]
  · simp [hphase]
  · simp [hphase]
  · simpa using fun ha => (hn ha).elim
  · simp [hphase]
  · simpa [hphase, SubmitPhase.holdsObjects, CommandQueue.entryHolds] using
      fun he => (hn ((h.ledger.mem_iff).mp he).1).elim
  · simpa using fun hr => (hn (hk.running hr).1).elim
  · simp [hphase, SubmitPhase.holdsContext]
  · simpa using fun _ => hk.listed hp

/-- The queue has accepted the batch. -/
theorem Inv.queueSubmit (h : Inv s) (hp : (s.calls b).phase = .submitting) :
    Inv ((s.setPhase b .addingFence).record (.accepted b)) := by
  have hk := h.batch b
  have hearly : beforeQueue (s.calls b).phase = true := by rw [hp]; rfl
  have hphase : (((s.setPhase b .addingFence).record (.accepted b)).calls b).phase = .addingFence :=
    setPhase_phase ..
  refine h.ofCall b rfl (fun c hc => setPhase_of_ne _ _ _ _ hc) ⟨_, rfl, by simp [eventBatch]⟩ rfl (by simp [record]) ?_
  constructor
  · simpa [record] using hk.signalled
  · simp [hphase, beforeQueue]
  · simp [record]
  · simp [hphase]
  · exact fun ha => (hk.unknown hearly ha).elim
  · simp [hphase]
  · simpa [record] using fun _ => hk.unreleased hearly
  · exact fun hr => (hk.unknown hearly (hk.running hr).1).elim
  · exact fun _ => hk.inUse (by rw [hp]; rfl)
  · exact fun _ => hk.listed (by rw [hp]; simp)

/-- The waiter has accepted the fence of the batch, or has refused it. -/
theorem Inv.addFence (h : Inv s) (hp : (s.calls b).phase = .addingFence) {w : FenceWaiter}
    (hs : s.waiter.step (.addFence b true) = some w) :
    Inv { s.setPhase b (.addedFence (s.waiter.addFence b true).1) with waiter := w } := by
  have hk := h.batch b
  have hl := h.ledger.step h.control hs
  obtain ⟨hnew, rfl⟩ := FenceWaiter.step_addFence hs
  obtain ⟨hacc, -⟩ := FenceWaiter.isNew_iff.mp hnew
  have hn : .accepted b ∉ s.waiter.log := List.count_eq_zero.mp hacc
  have hni : .invokedCallback b ∉ s.waiter.log := by
    have := h.ledger.conserved b
    exact List.count_eq_zero.mp (by omega)
  have hwlog := FenceWaiter.addFence_log (w := s.waiter) (b := b)
  have hframe := FenceWaiter.addFence_frame (w := s.waiter) (b := b)
  set w := (s.waiter.addFence b true).2
  set r := (s.waiter.addFence b true).1
  refine ⟨hl, h.control.step hs, fun c => ?_⟩
  by_cases hc : c = b
  · subst hc
    constructor
    · simpa [hframe.1] using hk.signalled
    · simp [beforeQueue]
    · simp
    · cases hr : r <;> simp_all [hk.adding hp]
    · cases hr : r <;> simp_all [hk.adding hp]
    · cases hr : r <;> simp_all
    · exact fun _ => hk.held (.inr (.inl (by rw [hp]; rfl)))
    · exact fun hr => (hn (hk.running hr).1).elim
    · simpa [FenceWaiter.InUse, hframe.2] using fun _ => hk.inUse (by rw [hp]; rfl)
    · exact fun _ => hk.listed (by rw [hp]; simp)
  · refine (h.batch c).frame h.ledger hl (setPhase_of_ne _ _ _ _ hc) ⟨?_, ?_, ?_⟩ ⟨[], by simp, by simp⟩ id
      (by simp) fun _ => ?_
    · simp [hframe.1]
    · cases hr : r <;> simp_all
    · cases hr : r <;> simp_all
    · simp [FenceWaiter.InUse, hframe.2]

/-- The closure that the waiter has copied is destroyed. -/
theorem Inv.dropTemporary (h : Inv s) (hp : (s.calls b).phase = .addedFence true) :
    Inv ((s.setPhase b (.cleanup false {})).dropObjects b) := by
  have hk := h.batch b
  have hphase : (((s.setPhase b (.cleanup false {})).dropObjects b).calls b).phase = .cleanup false {} := by
    simp
  have hlog : ((s.setPhase b (.cleanup false {})).dropObjects b).log =
      if s.entryHolds b then s.log else s.log ++ [.released b] := by
    simp [dropObjects_log, SubmitPhase.holdsObjects]
  have hacc := (hk.added true hp).2.mp rfl
  refine h.ofCall b (by simp) (fun c hc => by simp [setPhase_of_ne, hc]) ?_ (by simp) (by simp) ?_
  · rw [hlog]
    split
    · exact ⟨[], by simp, by simp⟩
    · exact ⟨_, rfl, by simp [eventBatch]⟩
  constructor
  · rw [hlog]; split <;> simpa using hk.signalled
  · simp [beforeQueue]
  · simp
  · simp
  · rw [hlog, hphase]
    refine fun _ => ⟨?_, .inr rfl⟩
    split <;> simp [(hk.added true hp).1]
  · simp
  · rw [hlog, hphase]
    intro he
    have he : s.entryHolds b = true := by
      simpa [SubmitPhase.holdsObjects, CommandQueue.entryHolds] using he
    rw [if_pos he]
    exact hk.held (.inr (.inl (by rw [hp]; rfl)))
  · intro hr
    obtain ⟨ha, hi, -⟩ := hk.running (by simpa using hr)
    refine ⟨by simpa using ha, by simpa using hi, fun _ => ?_⟩
    have he : ¬ s.entryHolds b = true := fun he => ((entryHolds_iff h.ledger).mp he).2 hi
    rw [hlog, if_neg he]
    simp
  · simp [SubmitPhase.holdsContext]
  · simpa using hk.listed (by rw [hp]; simp)

/-- A call that is done, or that never began, leaves what is known of its batch. -/
theorem Inv.finish (h : Inv s) (hp : (s.calls b).phase.holdsObjects = false) {status : Status}
    (hpt : (t.calls b).phase = .returned status) (hw : t.waiter = s.waiter)
    (hcalls : ∀ c, c ≠ b → t.calls c = s.calls c)
    (hlog : t.log = s.log ∨ t.log = s.log ++ [.completionCallback b .kError]) (hrun : t.running = s.running)
    (hbat : ∀ b ∈ s.batches, b ∈ t.batches) (hb : b ∈ t.batches) : Inv t := by
  have hk := h.batch b
  have old (e : QueueEvent) (he : ∀ status, e ≠ .completionCallback b status) : e ∈ t.log ↔ e ∈ s.log := by
    rcases hlog with hlog | hlog <;> simp [hlog, he]
  refine h.ofCall b hw hcalls ?_ hrun hbat ?_
  · rcases hlog with hlog | hlog
    · exact ⟨[], by simp [hlog], by simp⟩
    · exact ⟨_, hlog, by simp [eventBatch]⟩
  constructor
  · rw [hw, old _ (by simp), hk.signalled]
  · simp [hpt, beforeQueue]
  · simp [hpt]
  · simp [hpt]
  · rw [hw, hpt, old _ (by simp)]
    exact fun ha => ⟨(hk.late ha).1, .inr rfl⟩
  · simp [hpt]
  · rw [old _ (by simp)]
    intro he
    refine hk.held (.inr (.inr ?_))
    simpa [hpt, SubmitPhase.holdsObjects, CommandQueue.entryHolds, hw] using he
  · rw [hw, hrun, old _ (by simp)]
    exact fun hr => ⟨(hk.running hr).1, (hk.running hr).2.1, fun _ => (hk.running hr).2.2 hp⟩
  · simp [hpt, SubmitPhase.holdsContext]
  · exact fun _ => hb

private theorem clear_log {w : FenceWaiter} (hl : w.Ledger) (hwlog : w.log = s.waiter.log ++ [.invokedCallback b]) :
    ({ s with waiter := w, running := some b } : CommandQueue).entryHolds b = false ∧
      ({ s with waiter := w, running := some b }.dropObjects b).log =
        if (s.calls b).phase.holdsObjects then s.log else s.log ++ [.released b] := by
  have hgone : ({ s with waiter := w, running := some b } : CommandQueue).entryHolds b = false := by
    rw [Bool.eq_false_iff]
    exact fun he => ((entryHolds_iff hl).mp he).2 (by simp [hwlog])
  exact ⟨hgone, by simp [dropObjects_log, hgone]⟩

/-- The first half of the callback of an entry: its tracked objects are cleared. -/
theorem Inv.clearTrackedObjects (h : Inv s) {w : FenceWaiter} (hs : s.waiter.destroyEntry b = some w) :
    Inv ({ s with waiter := w, running := some b }.dropObjects b) := by
  have hk := h.batch b
  have hl := h.ledger.step (a := .destroyEntry b) h.control hs
  obtain ⟨hplace, hwlog, hsig, howner⟩ := FenceWaiter.destroyEntry_cases hs
  have hacc : .accepted b ∈ s.waiter.log :=
    (h.ledger.mem_iff.mp (hplace.imp_right And.right).symm).1
  obtain ⟨hgone, hlog⟩ := clear_log (s := s) hl hwlog
  have hold (e : QueueEvent) (he : e ≠ .released b) :
      e ∈ ({ s with waiter := w, running := some b }.dropObjects b).log ↔ e ∈ s.log := by
    rw [hlog]
    split <;> simp [he]
  refine ⟨by simpa using hl, by simpa using h.control.step (a := .destroyEntry b) hs, fun c => ?_⟩
  by_cases hc : c = b
  · subst hc
    constructor
    · simpa [hsig, hold] using hk.signalled
    · simpa [hold] using hk.early
    · simpa [hold] using hk.adding
    · simpa [hold, hwlog] using hk.added
    · simpa [hold, hwlog] using hk.late
    · intro hp _
      have huse := hk.inUse (by rw [show (s.calls c).phase = _ by simpa using hp]; rfl)
      rcases hplace with hplace | hplace
      · simpa [hsig] using h.ledger.signalled_of_erased hplace
      · simp [FenceWaiter.InUse, hplace.1] at huse
    · intro he
      have he : (s.calls c).phase.holdsObjects = true := by
        rcases he with he | he | he
        · have hp : (s.calls c).phase = .notCalled := by simpa using he
          exact (hk.unknown (by rw [hp]; rfl) hacc).elim
        · simpa using he
        · simp [CommandQueue.entryHolds] at he hgone
          simp_all
      rw [hlog, if_pos he]
      exact hk.held (.inr (.inl he))
    · refine fun _ => ⟨by simp [hwlog, hacc], by simp [hwlog], fun hp => ?_⟩
      rw [hlog]
      simp [show (s.calls c).phase.holdsObjects = false by simpa using hp]
    · simpa [FenceWaiter.InUse, howner] using hk.inUse
    · simpa using hk.listed
  · refine (h.batch c).frame h.ledger (by simpa using hl) (by simp) ⟨by simp [hsig], by simp [hwlog], ?_⟩ ?_
      (by simp [Ne.symm hc]) (by simp) (by simp [FenceWaiter.InUse, howner])
    · simp [hwlog, hc]
    · rw [hlog]
      split
      · exact ⟨[], by simp, by simp⟩
      · exact ⟨_, rfl, by simp [eventBatch, Ne.symm hc]⟩

/-- The second half of the callback of an entry. -/
theorem Inv.invokeCompletionCallback (h : Inv s) (hn : t.running = none) (hw : t.waiter = s.waiter)
    (hcalls : t.calls = s.calls) (hbat : t.batches = s.batches)
    (hlog : t.log = s.log ∨ ∃ status, t.log = s.log ++ [.completionCallback b status]) : Inv t := by
  refine ⟨hw ▸ h.ledger, hw ▸ h.control, fun c => ?_⟩
  refine (h.batch c).frame h.ledger (hw ▸ h.ledger) (by rw [hcalls]) (by rw [hw]; exact .of_log rfl rfl) ?_
    (by simp [hn]) (by simp [hbat]) (by simp [hw])
  rcases hlog with hlog | ⟨status, hlog⟩
  · exact ⟨[], by simp [hlog], by simp⟩
  · exact ⟨_, hlog, by simp [eventBatch]⟩

theorem Inv.signal (h : Inv s) : Inv ({ s with
    waiter := { s.waiter with signalled := Function.update s.waiter.signalled b true } }.record (.signalled b)) := by
  have hl := h.ledger.step (a := .signal b) h.control rfl
  refine ⟨hl, h.control.step (a := .signal b) rfl, fun c => ?_⟩
  have hk := h.batch c
  by_cases hc : c = b
  · subst hc
    obtain ⟨-, hearly, hadding, hadded, hlate, hobs, hheld, hrun, huse, hlisted⟩ := hk
    constructor
    · simp [record]
    · simpa [record] using hearly
    · simpa [record] using hadding
    · simpa [record] using hadded
    · simpa [record] using hlate
    · simp [record]
    · exact fun he hr => hheld he (by simpa [record] using hr)
    · simpa [record] using hrun
    · exact huse
    · exact hlisted
  · exact hk.frame h.ledger hl rfl ⟨by simp [record, hc], Iff.rfl, Iff.rfl⟩
      ⟨_, rfl, by simp [eventBatch, Ne.symm hc]⟩ id (fun _ => id) fun _ => id

theorem Inv.stepWaiter (h : Inv s) {l : FenceWaiter.Label} (hs : s.stepWaiter l = some t) :
    Inv t ∧ t.log = s.log := by
  unfold CommandQueue.stepWaiter at hs
  split at hs
  next hen =>
    obtain ⟨w, hw, rfl⟩ := Option.map_eq_some_iff.mp hs
    have hl := h.ledger.step h.control hw
    have hlabel : ∀ e valid, l ≠ .addFence e valid ∧ l ≠ .destroyEntry e ∧ l ≠ .signal e :=
      by rintro e valid; refine ⟨?_, ?_, ?_⟩ <;> rintro rfl <;> cases hen
    refine ⟨⟨hl, h.control.step hw, fun c => ?_⟩, rfl⟩
    obtain ⟨hsame, hin⟩ := FenceWaiter.sameEntry_step (b := c) hw hlabel
    refine (h.batch c).frame h.ledger hl rfl hsame ⟨[], by simp, by simp⟩ id (fun _ => id) fun hc hu => ?_
    refine hin ?_ hu
    rintro rfl
    have hlisted := (h.batch c).listed fun hp => by simp [hp, SubmitPhase.holdsContext] at hc
    have hfree := List.all_eq_true.mp hen c hlisted
    simp [hc] at hfree
  next => cases hs

theorem Inv.step (h : Inv s) (hs : s.step a = some t) : Inv t := by
  have hk := fun b => h.batch b
  cases effect_of_step hs with
  | submitted b buffers callback hp =>
    by_cases hb : buffers = []
    · exact h.finish (b := b) (by rw [hp]; rfl) (by simp [CommandQueue.submit, hb]; rfl) rfl
        (fun c hc => by simp [CommandQueue.submit, hc]) (.inl rfl) rfl (by simp [CommandQueue.submit]; tauto)
        (by simp [CommandQueue.submit])
    · exact h.onward (b := b) (by rw [hp]; rfl) rfl (fun c hc => by simp [CommandQueue.submit, hc]) rfl rfl
        (by simp [CommandQueue.submit]; tauto) (by simp [CommandQueue.submit, hb, beforeQueue])
        (by simp [CommandQueue.submit]) (by simp [CommandQueue.submit, hb, SubmitPhase.holdsContext])
  | ended b buffer buffers hp =>
    exact h.onward (b := b) (by rw [hp]; rfl) rfl (fun c hc => setPhase_of_ne _ _ _ _ hc) rfl rfl (fun _ => id)
      (by simp [beforeQueue]) ((hk b).listed (by simp [hp])) (by simp [SubmitPhase.holdsContext])
  | locked b hp ho =>
    exact h.onward (b := b) (by rw [hp]; rfl) rfl (fun c hc => setPhase_of_ne _ _ _ _ hc) rfl rfl (fun _ => id)
      (by simp [beforeQueue]) ((hk b).listed (by simp [hp])) fun _ => by simpa [FenceWaiter.InUse] using ho
  | fenceCreated b hp =>
    exact h.onward (b := b) (by rw [hp]; rfl) rfl (fun c hc => setPhase_of_ne _ _ _ _ hc) rfl rfl (fun _ => id)
      (by simp [beforeQueue]) ((hk b).listed (by simp [hp])) fun _ => (hk b).inUse (by rw [hp]; rfl)
  | accepted b hp => exact h.queueSubmit hp
  | fenceAdded b w hp hw => exact h.addFence hp hw
  | dropped b hp => exact h.dropTemporary hp
  | refused b message hp =>
    have hn : .accepted b ∉ s.waiter.log := fun ha => by simpa using ((hk b).added false hp).2.mpr ha
    exact h.cancel hn (by simp [hp]) _
  | failed b message a ha hp hcalled => exact h.cancel ((hk b).unknown hp) hcalled _
  | left b armed status hp =>
    have hb := (hk b).listed (by simp [hp])
    split
    · exact h.finish (b := b) (by rw [hp]; rfl) (setPhase_phase ..) rfl (fun c hc => setPhase_of_ne _ _ _ _ hc)
        (.inr rfl) rfl (fun _ => id) hb
    · exact h.finish (b := b) (by rw [hp]; rfl) (setPhase_phase ..) rfl (fun c hc => setPhase_of_ne _ _ _ _ hc)
        (.inl rfl) rfl (fun _ => id) hb
  | cleared b w hidle hw => exact h.clearTrackedObjects hw
  | invoked b hrunning =>
    split
    · exact h.invokeCompletionCallback rfl rfl rfl rfl (.inr ⟨_, rfl⟩)
    · exact h.invokeCompletionCallback (b := b) rfl rfl rfl rfl (.inl rfl)
  | signalled b w hw => exact Option.some.inj hw ▸ h.signal
  | waited l w henabled hw => exact (h.stepWaiter hs).1

private theorem lifetime_same (hlog : t.log = s.log) (hc : KeepsLifetime s a) :
    TrackedLifetime t ↔ TrackedLifetime s ∧ KeepsLifetime s a := by
  unfold TrackedLifetime
  rw [hlog]
  exact (and_iff_left hc).symm

private theorem lifetime_concat {e : QueueEvent} (hlog : t.log = s.log ++ [e])
    (hc : InOrder s.log e ↔ KeepsLifetime s a) : TrackedLifetime t ↔ TrackedLifetime s ∧ KeepsLifetime s a := by
  unfold TrackedLifetime
  rw [hlog, eachAfter_concat, hc]

/-- The objects of a batch that the queue has not seen can be released. -/
private theorem lifetime_cancel (h : Inv s) (hp : beforeQueue (s.calls b).phase = true) (hc : KeepsLifetime s a)
    (m : String) : TrackedLifetime (s.cancel b m) ↔ TrackedLifetime s ∧ KeepsLifetime s a :=
  lifetime_concat (cancel_log h ((h.batch b).unknown hp))
    (iff_of_true (fun ha => ((h.batch b).early hp ha).elim) hc)

private theorem Label.Fails.keepsLifetime (ha : a.Fails b) : KeepsLifetime s a := by
  cases a <;> trivial

/-- The steps that keep the lifetimes in order are those that meet the condition. -/
theorem lifetime_step (h : Inv s) (hs : s.step a = some t) :
    TrackedLifetime t ↔ TrackedLifetime s ∧ KeepsLifetime s a := by
  have hk := fun b => h.batch b
  cases effect_of_step hs with
  | submitted b buffers callback hp => exact lifetime_same rfl trivial
  | ended b buffer buffers hp => exact lifetime_same rfl trivial
  | locked b hp ho => exact lifetime_same rfl trivial
  | fenceCreated b hp => exact lifetime_same rfl trivial
  | accepted b hp => exact lifetime_concat rfl (iff_of_true trivial trivial)
  | fenceAdded b w hp hw => exact lifetime_same rfl trivial
  | dropped b hp =>
    -- the objects are released here if the callback of the entry was faster
    have hc : KeepsLifetime s (.dropTemporary b) := by simp [KeepsLifetime, hp]
    have hlog := (s.setPhase b (.cleanup false {})).dropObjects_log b
    by_cases he : s.entryHolds b = true
    · exact lifetime_same (by simpa [SubmitPhase.holdsObjects, he] using hlog) hc
    · refine lifetime_concat (by simpa [SubmitPhase.holdsObjects, he] using hlog) (iff_of_true ?_ hc)
      have hacc := ((hk b).added true hp).2.mp rfl
      have hinv : .invokedCallback b ∈ s.waiter.log := by
        by_contra hn
        exact he ((entryHolds_iff h.ledger).mpr ⟨hacc, hn⟩)
      exact fun _ => (hk b).signalled.mp ((hk b).observed hp hinv)
  | refused b message hp =>
    have hn : .accepted b ∉ s.waiter.log := fun ha => by simpa using ((hk b).added false hp).2.mpr ha
    refine lifetime_concat (cancel_log h hn) ?_
    simp [InOrder, KeepsLifetime, hp, ((hk b).added false hp).1, (hk b).signalled]
  | failed b message a ha hp hcalled => exact lifetime_cancel h hp ha.keepsLifetime _
  | left b armed status hp =>
    split
    · exact lifetime_concat rfl (iff_of_true trivial trivial)
    · exact lifetime_same rfl trivial
  | cleared b w hidle hw =>
    obtain ⟨hplace, hwlog, -⟩ := FenceWaiter.destroyEntry_cases hw
    have hacc : .accepted b ∈ s.waiter.log := (h.ledger.mem_iff.mp (hplace.imp_right And.right).symm).1
    obtain ⟨-, hlog⟩ := clear_log (s := s) (h.ledger.step (a := .destroyEntry b) h.control hw) hwlog
    by_cases hp : (s.calls b).phase.holdsObjects = true
    · refine lifetime_same (by simpa [hp] using hlog) ?_
      have hadded := ((hk b).late hacc).2.resolve_right (by simp [hp])
      have huse := (hk b).inUse (by rw [hadded]; rfl)
      rcases hplace with hplace | hplace
      · exact h.ledger.signalled_of_erased hplace
      · simp [FenceWaiter.InUse, hplace.1] at huse
    · refine lifetime_concat (by simpa [hp] using hlog) ?_
      simp [InOrder, KeepsLifetime, ((hk b).late hacc).1, (hk b).signalled]
  | invoked b hrunning =>
    obtain ⟨hacc, -, hrel⟩ := (hk b).running hrunning
    split
    next hc =>
      refine lifetime_concat rfl ⟨fun hm _ hp => ?_, fun hp => ?_⟩
      · exact (hk b).held (.inr (.inl (by rw [hp]; rfl))) hm
      · exact hrel (((hk b).late hacc).2.resolve_left (hp hc))
    next hc => exact lifetime_same rfl fun h => (hc h).elim
  | signalled b w hw => exact lifetime_concat rfl (iff_of_true trivial trivial)
  | waited l w henabled hw => exact lifetime_same (h.stepWaiter hs).2 trivial

/-- The objects of every batch that was accepted live until its fence is signalled,
and no longer than until its callback is invoked, if and only if no step destroys the
last vector of them early or keeps the one of `Submit` too long. -/
theorem trackedLifetime_iff {labels : List Label} (hr : machine.run labels = some s) :
    TrackedLifetime s ↔ machine.Along (fun s a _ => KeepsLifetime s a) machine.init labels :=
  (Machine.kept_iff_along (M := machine) (I := Inv) (fun _ _ _ h hs => h.step hs)
    (fun _ _ _ h hs => lifetime_step h hs) inv_init hr).trans (and_iff_right eachAfter_nil)

/-- A batch of one buffer whose fence is signalled after `Submit` has returned. -/
def runInOrder : List Label :=
  [.submit 0 [0] true, .endCommandBuffer 0 true, .lockContext 0 true, .createFence 0 true, .queueSubmit 0 true,
    .addFence 0, .dropTemporary 0, .leave 0, .waiter (.thread true), .waiter (.thread true), .waiter (.thread true),
    .signal 0, .waiter (.thread true), .waiter (.thread true), .waiter (.thread true), .waiter (.thread true),
    .clearTrackedObjects 0, .invokeCompletionCallback 0]

theorem trackedLifetime_iff_in_order : ∃ s, machine.run runInOrder = some s ∧ TrackedLifetime s ∧
    .completionCallback 0 .kCompleted ∈ s.log := by
  have hr : machine.run runInOrder = some _ := rfl
  exact ⟨_, hr, (trackedLifetime_iff hr).mpr (by decide), by decide⟩

/-- The waiter is terminated while a call of `Submit` is between the queue and the waiter. -/
def runRefused : List Label :=
  [.submit 0 [0] true, .endCommandBuffer 0 true, .lockContext 0 true, .createFence 0 true, .queueSubmit 0 true,
    .waiter .terminate, .addFence 0, .dropTemporary 0, .leave 0]

/-- The waiter thread retires the fence before `Submit` has destroyed its own closure. -/
def runOvertaken : List Label :=
  [.submit 0 [0] true, .endCommandBuffer 0 true, .lockContext 0 true, .createFence 0 true, .queueSubmit 0 true,
    .addFence 0, .signal 0, .waiter (.thread true), .waiter (.thread true), .waiter (.thread true),
    .waiter (.thread true), .waiter (.thread true), .waiter (.thread true), .waiter (.thread true),
    .clearTrackedObjects 0, .invokeCompletionCallback 0, .dropTemporary 0, .leave 0]

/-- The objects of an accepted batch are released before its fence is signalled, or are
still held when its callback is told that it is completed. -/
theorem submit_releases_out_of_order :
    (∃ s, machine.run runRefused = some s ∧ ¬ TrackedLifetime s) ∧
      ∃ s, machine.run runOvertaken = some s ∧ ¬ TrackedLifetime s := by
  refine ⟨⟨_, rfl, fun h => ?_⟩, ⟨_, rfl, fun h => ?_⟩⟩
  · have hsignalled := h [.accepted 0] (.released 0) [.completionCallback 0 .kError] rfl (by simp)
    simp at hsignalled
  · have hreleased := h [.accepted 0, .signalled 0] (.completionCallback 0 .kCompleted) [.released 0] rfl
    simp [InOrder] at hreleased

end CommandQueue
end Ogre.Hal
