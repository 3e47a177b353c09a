import Mathlib.Algebra.Order.Group.Multiset
import Mathlib.Tactic.Abel
import Ogre.Hal.AHBSwapchain
import Ogre.Library.ListSums

/-! Where the textures of the swapchain over hardware buffers are. -/
namespace Ogre.Hal
open Ogre.Library

/-- The texture of a surface that is not presented yet. -/
def AHBSurface.outstanding (surface : AHBSurface) : Multiset Nat :=
  if surface.held && !surface.presented then {surface.texture} else 0

namespace AHBSwapchainImpl
variable {s t : AHBSwapchainImpl} {i : Nat} {surface : AHBSurface} {fence : Bool} {a : PresentAnswers}

/-- The textures of the pool, of the surfaces that are not presented yet, of the transactions
that are not completed, and the one on display. -/
def places (s : AHBSwapchainImpl) : Multiset Nat :=
  ↑(s.pool.map (·.texture)) + (s.surfaces.map (·.outstanding)).sum + ↑s.transactions +
    ↑s.currentlyDisplayedTexture.toList

/-- Every texture is in at most one place, and one that is handed out is neither on display nor
queued for display. -/
structure OwnsOnce (s : AHBSwapchainImpl) (_ : Label) (t : AHBSwapchainImpl) : Prop where
  once : t.places.Nodup
  handedOut : ∀ surface ∈ t.surfaces.drop s.surfaces.length,
    surface.texture ∉ t.transactions ∧ t.currentlyDisplayedTexture ≠ some surface.texture

/-- Nothing stops a `Present` from applying its transaction. -/
def applies (s : AHBSwapchainImpl) (a : PresentAnswers) : Bool :=
  s.alive && s.controlAlive && a.control && a.context && a.semaphore && s.sync.finalCmdBuffer.isSome &&
    a.endCommandBuffer && a.submit && a.setContents && a.apply

/-- A surface is not presented again while its texture is somewhere else. -/
def PresentsOnce (s : AHBSwapchainImpl) (label : Label) (_ : AHBSwapchainImpl) : Prop :=
  match label with
  | .present i a => ∀ surface ∈ s.surfaces[i]?, surface.presented → s.applies a → surface.texture ∉ s.places
  | _ => True

/-- Textures that are around were created. -/
structure Numbered (s : AHBSwapchainImpl) : Prop where
  places : ∀ x ∈ s.places, x < s.created
  surfaces : ∀ surface ∈ s.surfaces, surface.texture < s.created

/-- What does not touch a texture. -/
private structure Untouched (s t : AHBSwapchainImpl) : Prop where
  pool : t.pool = s.pool
  created : t.created = s.created
  displayed : t.currentlyDisplayedTexture = s.currentlyDisplayedTexture
  surfaces : t.surfaces = s.surfaces
  transactions : t.transactions = s.transactions

private theorem Untouched.places (h : s.Untouched t) : t.places = s.places := by
  rw [AHBSwapchainImpl.places, h.pool, h.surfaces, h.transactions, h.displayed, AHBSwapchainImpl.places]

private theorem Untouched.trans {u : AHBSwapchainImpl} (h : s.Untouched t) (h' : t.Untouched u) : s.Untouched u :=
  ⟨h'.pool.trans h.pool, h'.created.trans h.created, h'.displayed.trans h.displayed, h'.surfaces.trans h.surfaces,
    h'.transactions.trans h.transactions⟩

private theorem untouched : s.Untouched s := ⟨rfl, rfl, rfl, rfl, rfl⟩

/-- What a step does to the surfaces, and to the places: none is doubled, except for those of a
texture that is created or of a surface that is presented again. -/
private structure Moves (s : AHBSwapchainImpl) (label : Label) (t : AHBSwapchainImpl) : Prop where
  old : ∀ surface ∈ t.surfaces, surface.texture ∈ s.surfaces.map (·.texture) ∨ surface.texture ∈ t.places
  new : ∀ surface ∈ t.surfaces.drop s.surfaces.length, surface.outstanding = {surface.texture}
  created : s.created ≤ t.created
  places : (s.PresentsOnce label t ∧
      (t.places ≤ s.places ∨ t.places = s.created ::ₘ s.places ∧ s.created < t.created)) ∨
    ∃ i a surface, label = .present i a ∧ s.surfaces[i]? = some surface ∧ surface.presented ∧ s.applies a ∧
      t.places = surface.texture ::ₘ s.places

private theorem no_new {x : AHBSurface} (h : t.surfaces.length = s.surfaces.length) :
    x ∉ t.surfaces.drop s.surfaces.length := by
  rw [← h, List.drop_length]
  exact List.not_mem_nil

private theorem Untouched.moves {label : Label} (h : s.Untouched t) (hp : s.PresentsOnce label t) : s.Moves label t where
  old _ hs := .inl (List.mem_map_of_mem (h.surfaces ▸ hs))
  new _ hs := (no_new (congrArg List.length h.surfaces) hs).elim
  created := h.created.ge
  places := .inl ⟨hp, .inl h.places.le⟩

private theorem untouched_setSync (sync : AHBFrameSynchronizer) : s.Untouched (s.setSync sync) := ⟨rfl, rfl, rfl, rfl, rfl⟩

private theorem untouched_record (e : AHBSwapchainEvent) : s.Untouched (s.record e) := ⟨rfl, rfl, rfl, rfl, rfl⟩

private theorem untouched_importRenderReady (fence semaphore : Bool) : s.Untouched (s.importRenderReady fence semaphore).2 := by
  unfold importRenderReady
  split
  · exact untouched_setSync _
  · split
    · exact untouched
    · exact untouched_setSync _

private theorem untouched_waitForFence {wait reset : Bool} {r : Bool × AHBSwapchainImpl}
    (h : s.waitForFence wait reset = some r) : s.Untouched r.2 := by
  unfold waitForFence at h
  split at h
  · cases h
    exact untouched
  · split at h
    · cases h
    · split at h <;> cases h
      · exact untouched
      · exact (untouched_setSync _).trans (untouched_record _)

private theorem untouched_submit (i : Nat) : s.Untouched (s.submitSignalForPresentReady i a).2 := by
  unfold submitSignalForPresentReady
  split
  · exact untouched
  · split
    · exact untouched
    · split
      · exact untouched
      · simp only
        split
        · exact untouched_setSync _
        · exact ((untouched_setSync _).trans (untouched_setSync _)).trans (untouched_record _)

/-- A texture that is popped was in the pool, or is created. -/
private theorem pop_some {created : Bool} {entry : AHBPoolEntry} (h : s.pop created = (some entry, t)) :
    t.surfaces = s.surfaces ∧ (entry.texture ::ₘ t.places = s.places ∧ t.created = s.created ∨
      t.places = s.places ∧ entry.texture = s.created ∧ t.created = s.created + 1) := by
  unfold pop at h
  split at h
  next first pool hpool =>
    obtain ⟨hentry, rfl⟩ := Prod.mk.inj h
    obtain rfl := Option.some.inj hentry
    refine ⟨rfl, .inl ⟨?_, rfl⟩⟩
    simp only [places, hpool, List.map_cons, ← Multiset.cons_coe, Multiset.cons_add]
  next =>
    split at h <;> cases h
    exact ⟨rfl, .inr ⟨rfl, rfl, rfl⟩⟩

private theorem pop_none {created : Bool} (h : s.pop created = (none, t)) : s.Untouched t := by
  unfold pop at h
  split at h
  · cases h
  · split at h <;> cases h
    exact untouched

private theorem places_wrapSwapchainImage (texture : Nat) :
    (s.wrapSwapchainImage texture).places = texture ::ₘ s.places := by
  simp only [places, wrapSwapchainImage, record, List.map_append, List.sum_append, List.map_cons, List.map_nil,
    List.sum_singleton, AHBSurface.outstanding, Bool.not_false, Bool.and_self, if_true, ← Multiset.singleton_add]
  abel

private theorem moves_acquireNextDrawable {b : AcquireAnswers} {r : Option Nat × AHBSwapchainImpl}
    (h : s.acquireNextDrawable b = some r) : s.Moves (.acquireNextDrawable b) r.2 := by
  unfold acquireNextDrawable at h
  split at h
  · cases h
    exact untouched.moves trivial
  · obtain ⟨w, hw, hr⟩ := Option.map_eq_some_iff.mp h
    have hstart : s.Untouched w.2 := by
      obtain ⟨hpool, hcreated, hdisplayed, hsurfaces, htransactions⟩ := untouched_waitForFence hw
      exact ⟨hpool, hcreated, hdisplayed, hsurfaces, htransactions⟩
    simp only at hr
    split at hr
    · cases hr
      exact hstart.moves trivial
    · split at hr
      next u hpop =>
        cases hr
        exact (hstart.trans (pop_none hpop)).moves trivial
      next entry u hpop =>
        obtain ⟨hsurfaces, hplaces⟩ := pop_some hpop
        have himport := untouched_importRenderReady (s := u) entry.renderReadyFence b.semaphore
        rw [hstart.places, hstart.created] at hplaces
        replace hsurfaces := hsurfaces.trans hstart.surfaces
        split at hr
        next v hv =>
          cases hr
          replace himport : u.Untouched v := by rwa [hv] at himport
          refine ⟨fun x hx => .inl ?_, fun x hx => ?_, ?_, .inl ⟨trivial, .inl ?_⟩⟩
          · exact List.mem_map_of_mem (hsurfaces ▸ himport.surfaces ▸ hx)
          · exact (no_new (by rw [himport.surfaces, hsurfaces]) hx).elim
          · rw [himport.created]
            rcases hplaces with ⟨-, hc⟩ | ⟨-, -, hc⟩ <;> omega
          · rw [himport.places]
            rcases hplaces with ⟨hp, -⟩ | ⟨hp, -, -⟩
            · exact hp ▸ Multiset.le_cons_self _ _
            · exact hp.le
        next v hv =>
          cases hr
          replace himport : u.Untouched v := by rwa [hv] at himport
          have hnew : (v.wrapSwapchainImage entry.texture).places = entry.texture ::ₘ u.places := by
            rw [places_wrapSwapchainImage, himport.places]
          have hlist : (v.wrapSwapchainImage entry.texture).surfaces = s.surfaces ++ [({ texture := entry.texture } : AHBSurface)] := by
            rw [← hsurfaces, ← himport.surfaces]
            rfl
          have hcreated : (v.wrapSwapchainImage entry.texture).created = u.created := himport.created
          refine ⟨fun x hx => ?_, fun x hx => ?_, ?_, .inl ⟨trivial, ?_⟩⟩
          · rcases List.mem_append.mp (hlist ▸ hx) with hx | hx
            · exact .inl (List.mem_map_of_mem hx)
            · obtain rfl := List.mem_singleton.mp hx
              exact .inr (hnew ▸ Multiset.mem_cons_self _ _)
          · rw [hlist, List.drop_left, List.mem_singleton] at hx
            subst hx
            rfl
          · rw [hcreated]
            rcases hplaces with ⟨-, hc⟩ | ⟨-, -, hc⟩ <;> omega
          · rw [hnew, hcreated]
            rcases hplaces with ⟨hp, -⟩ | ⟨hp, htexture, hc⟩
            · exact .inl hp.le
            · exact .inr ⟨by rw [htexture, hp], by omega⟩

/-- A surface takes its texture with it, wherever it goes. -/
private theorem places_set (hs : s.surfaces[i]? = some surface) (presented : AHBSurface) :
    ({ s with surfaces := s.surfaces.set i presented } : AHBSwapchainImpl).places + surface.outstanding =
      s.places + presented.outstanding := by
  simp only [places]
  rw [sum_set _ hs, sum_eraseIdx _ hs]
  abel

private theorem texture_of_set {x : AHBSurface} (other : AHBSurface) (hs : s.surfaces[i]? = some surface)
    (ht : other.texture = surface.texture) (hx : x ∈ s.surfaces.set i other) : x.texture ∈ s.surfaces.map (·.texture) := by
  rcases List.mem_or_eq_of_mem_set hx with hx | rfl
  · exact List.mem_map_of_mem hx
  · exact ht ▸ List.mem_map_of_mem (List.mem_of_getElem? hs)

theorem submit_fst (i : Nat) : (s.submitSignalForPresentReady i a).1 =
    (a.context && a.semaphore && s.sync.finalCmdBuffer.isSome && a.endCommandBuffer && a.submit) := by
  unfold submitSignalForPresentReady
  cases a.context <;> cases a.semaphore <;> try rfl
  cases s.sync.finalCmdBuffer <;> cases a.endCommandBuffer <;> try rfl
  cases a.submit <;> rfl

/-- A `Present` that goes through puts the texture in a transaction. -/
private theorem present_cases (i : Nat) (surface : AHBSurface) :
    s.applies a = false ∧ s.Untouched (s.present i surface a).2 ∨
      s.applies a ∧ ∃ u, s.Untouched u ∧ (s.present i surface a).2 = { u with
        surfaces := u.surfaces.set i { surface with presented := true }
        transactions := u.transactions ++ [surface.texture] } := by
  have hu := untouched_submit (s := s) (a := a) i
  have hfst := submit_fst (s := s) (a := a) i
  unfold present applies
  cases s.alive with
  | false => exact .inl ⟨rfl, untouched⟩
  | true =>
    cases hcontrol : s.controlAlive && a.control with
    | false =>
      have hnot : (!s.controlAlive || !a.control) = true := by rw [← Bool.not_and, hcontrol]; rfl
      refine .inl ⟨by simp only [Bool.true_and, hcontrol, Bool.false_and], ?_⟩
      rw [if_neg (by simp), if_pos hnot]
      exact untouched
    | true =>
      have hyes : ¬(!s.controlAlive || !a.control) = true := by simp [← Bool.not_and, hcontrol]
      rw [if_neg (by simp), if_neg hyes]
      generalize s.submitSignalForPresentReady i a = r at hu hfst
      obtain ⟨b, u⟩ := r
      cases b with
      | false => exact .inl ⟨by simp_all, hu⟩
      | true =>
        simp only at hu hfst
        cases hset : a.setContents with
        | false => exact .inl ⟨by simp, hu⟩
        | true =>
          cases happly : a.apply with
          | false => exact .inl ⟨by simp, hu⟩
          | true => exact .inr ⟨by simp_all, u, hu, rfl⟩

private theorem moves_present (hs : s.surfaces[i]? = some surface) (hheld : surface.held) :
    s.Moves (.present i a) (s.present i surface a).2 := by
  rcases present_cases (s := s) (a := a) i surface with ⟨hn, hu⟩ | ⟨hy, u, hu, ht⟩
  · refine hu.moves fun x hx _ happ => ?_
    rw [hn] at happ
    cases happ
  · rw [ht]
    have hset := places_set (s := u) (hu.surfaces ▸ hs) { surface with presented := true }
    have htaken : ({ u with surfaces := u.surfaces.set i { surface with presented := true }
                            transactions := u.transactions ++ [surface.texture] } : AHBSwapchainImpl).places =
        surface.texture ::ₘ ({ u with surfaces := u.surfaces.set i { surface with presented := true } } :
          AHBSwapchainImpl).places := by
      simp only [places, ← Multiset.coe_add, Multiset.coe_singleton, ← Multiset.singleton_add]
      abel
    have hdone : ({ surface with presented := true } : AHBSurface).outstanding = 0 := by simp [AHBSurface.outstanding]
    rw [hu.places, hdone, add_zero] at hset
    refine ⟨fun x hx => .inl ?_, fun x hx => ?_, hu.created.ge, ?_⟩
    · rw [hu.surfaces] at hx
      exact texture_of_set { surface with presented := true } hs rfl hx
    · exact (no_new (by simp [hu.surfaces]) hx).elim
    · rw [htaken]
      cases hp : surface.presented with
      | false =>
        refine .inl ⟨fun x hx hpresented _ => ?_, .inl (Eq.le ?_)⟩
        · obtain rfl : surface = x := Option.some.inj (hs.symm.trans hx)
          rw [hp] at hpresented
          cases hpresented
        · rw [← hset, AHBSurface.outstanding, hp, hheld, add_comm]
          rfl
      | true =>
        have hout : surface.outstanding = 0 := by simp [AHBSurface.outstanding, hp]
        rw [hout, add_zero] at hset
        exact .inr ⟨i, a, surface, rfl, hs, hp, hy, by rw [hset]⟩

private theorem places_push (texture : Option Nat) : (s.push texture fence).places = s.places + ↑texture.toList := by
  cases texture with
  | none => simp [push]
  | some texture =>
    simp only [push, places, List.map_append, List.map_cons, List.map_nil, ← Multiset.coe_add, Option.toList_some]
    abel

private theorem moves_complete {texture : Nat} (hi : s.transactions[i]? = some texture) :
    s.Moves (.complete i fence) ({ s with transactions := s.transactions.eraseIdx i }.onTextureUpdatedOnSurfaceControl
      texture fence) := by
  obtain ⟨hlt, htexture⟩ := List.getElem?_eq_some_iff.mp hi
  have htaken : (s.transactions : Multiset Nat) = texture ::ₘ ↑(s.transactions.eraseIdx i) := by
    rw [Multiset.cons_coe, Multiset.coe_eq_coe, ← htexture]
    exact (List.getElem_cons_eraseIdx_perm hlt).symm
  have hle : ({ s with transactions := s.transactions.eraseIdx i } : AHBSwapchainImpl).places ≤ s.places := by
    simp only [places, htaken]
    gcongr
    exact Multiset.le_cons_self _ _
  unfold onTextureUpdatedOnSurfaceControl
  split
  · exact ⟨fun x hx => .inl (List.mem_map_of_mem hx), fun x hx => (no_new rfl hx).elim, le_rfl, .inl ⟨trivial, .inl hle⟩⟩
  · split
    · exact ⟨fun x hx => .inl (List.mem_map_of_mem hx), fun x hx => (no_new rfl hx).elim, le_rfl, .inl ⟨trivial, .inl hle⟩⟩
    · refine ⟨fun x hx => .inl (List.mem_map_of_mem ?_), fun x hx => (no_new ?_ hx).elim, ?_, .inl ⟨trivial, .inl (Eq.le ?_)⟩⟩
      · cases hd : s.currentlyDisplayedTexture <;> simpa only [hd, push] using hx
      · cases s.currentlyDisplayedTexture <;> rfl
      · cases s.currentlyDisplayedTexture <;> exact le_rfl
      · rw [places_push]
        simp only [places, htaken, Option.toList_some, Multiset.coe_singleton, ← Multiset.singleton_add]
        abel

private theorem moves_dropSurface (hs : s.surfaces[i]? = some surface) :
    s.Moves (.dropSurface i) { s with surfaces := s.surfaces.set i { surface with held := false } } := by
  have hset := places_set hs { surface with held := false }
  have hdone : ({ surface with held := false } : AHBSurface).outstanding = 0 := by simp [AHBSurface.outstanding]
  rw [hdone, add_zero] at hset
  refine ⟨fun x hx => .inl (texture_of_set { surface with held := false } hs rfl hx),
    fun x hx => (no_new (List.length_set ..) hx).elim, le_rfl, .inl ⟨trivial, .inl ?_⟩⟩
  exact hset ▸ Multiset.le_add_right _ _

private theorem step_moves {label : Label} (hs : s.step label = some t) : s.Moves label t := by
  cases label with
  | acquireNextDrawable b =>
    simp only [step, Option.ite_none_right_eq_some, Option.map_eq_some_iff] at hs
    obtain ⟨-, r, hr, rfl⟩ := hs
    exact moves_acquireNextDrawable hr
  | addFinalCommandBuffer cmdBuffer =>
    simp only [step, Option.ite_none_right_eq_some, Option.some.injEq] at hs
    exact hs.2 ▸ (untouched_setSync _).moves trivial
  | present i a =>
    obtain ⟨surface, hi, hs⟩ := Option.bind_eq_some_iff.mp hs
    simp only [Option.ite_none_right_eq_some, Option.some.injEq] at hs
    exact hs.2 ▸ moves_present hi hs.1
  | complete i fence =>
    obtain ⟨texture, hi, rfl⟩ := Option.map_eq_some_iff.mp hs
    exact moves_complete hi
  | signal frame =>
    simp only [step, Option.ite_none_right_eq_some, Option.some.injEq] at hs
    exact hs.2 ▸ Untouched.moves ⟨rfl, rfl, rfl, rfl, rfl⟩ trivial
  | dropSurface i =>
    obtain ⟨surface, hi, rfl⟩ := Option.map_eq_some_iff.mp hs
    exact moves_dropSurface hi
  | destroy =>
    obtain rfl := Option.some.inj hs
    refine ⟨fun x hx => .inl (List.mem_map_of_mem hx), fun x hx => (no_new rfl hx).elim, le_rfl, .inl ⟨trivial, .inl ?_⟩⟩
    simp only [places, List.map_nil, Option.toList_none, Multiset.coe_nil, zero_add, add_zero, add_assoc]
    exact (Multiset.le_add_left _ _).trans' (add_le_add_right (Multiset.le_add_right _ _) _)
  | loseControl => exact Option.some.inj hs ▸ Untouched.moves ⟨rfl, rfl, rfl, rfl, rfl⟩ trivial

/-- Textures have one place each, and those that are around were created. -/
private structure Owns (s : AHBSwapchainImpl) : Prop where
  once : s.places.Nodup
  created : ∀ x ∈ s.places, x < s.created
  surfaces : ∀ surface ∈ s.surfaces, surface.texture < s.created

private theorem Moves.iff {label : Label} (h : s.Moves label t) (ho : s.Owns) :
    t.places.Nodup ↔ s.PresentsOnce label t := by
  rcases h.places with ⟨hp, hle | ⟨hplaces, -⟩⟩ | ⟨i, a, surface, rfl, hi, hpresented, happ, hplaces⟩
  · exact iff_of_true (Multiset.nodup_of_le hle ho.once) hp
  · refine iff_of_true (hplaces ▸ Multiset.nodup_cons.mpr ⟨fun hm => ?_, ho.once⟩) hp
    exact (ho.created _ hm).false
  · rw [hplaces, Multiset.nodup_cons, and_iff_left ho.once]
    constructor
    · intro hn x hx _ _
      obtain rfl : surface = x := Option.some.inj (hi.symm.trans hx)
      exact hn
    · exact fun h => h surface hi hpresented happ

private theorem Moves.owns {label : Label} (h : s.Moves label t) (ho : s.Owns) (hn : t.places.Nodup) : t.Owns := by
  have hcreated : ∀ x ∈ t.places, x < t.created := fun x hx => by
    rcases h.places with ⟨-, hle | ⟨hplaces, hlt⟩⟩ | ⟨i, a, surface, -, hi, -, -, hplaces⟩
    · exact (ho.created x (Multiset.mem_of_le hle hx)).trans_le h.created
    · rcases Multiset.mem_cons.mp (hplaces ▸ hx) with rfl | hx
      · exact hlt
      · exact (ho.created x hx).trans_le h.created
    · rcases Multiset.mem_cons.mp (hplaces ▸ hx) with rfl | hx
      · exact (ho.surfaces surface (List.mem_of_getElem? hi)).trans_le h.created
      · exact (ho.created x hx).trans_le h.created
  refine ⟨hn, hcreated, fun surface hs => ?_⟩
  rcases h.old surface hs with hold | hplace
  · obtain ⟨x, hx, hxt⟩ := List.mem_map.mp hold
    exact hxt ▸ (ho.surfaces x hx).trans_le h.created
  · exact hcreated _ hplace

private theorem Moves.handedOut {label : Label} (h : s.Moves label t) (hn : t.places.Nodup) :
    ∀ surface ∈ t.surfaces.drop s.surfaces.length,
      surface.texture ∉ t.transactions ∧ t.currentlyDisplayedTexture ≠ some surface.texture := by
  intro surface hs
  have hmem : surface.texture ∈ (t.surfaces.map (·.outstanding)).sum := by
    obtain ⟨i, hi⟩ := List.mem_iff_getElem?.mp (List.mem_of_mem_drop hs)
    rw [sum_eraseIdx _ hi, h.new surface hs]
    exact Multiset.mem_add.mpr (.inl (Multiset.mem_singleton_self _))
  rw [AHBSwapchainImpl.places, Multiset.nodup_add, Multiset.nodup_add] at hn
  obtain ⟨⟨-, -, htransactions⟩, -, hdisplayed⟩ := hn
  refine ⟨fun hm => ?_, fun hd => ?_⟩
  · exact Multiset.disjoint_left.mp htransactions (Multiset.mem_add.mpr (.inr hmem)) hm
  · exact Multiset.disjoint_left.mp hdisplayed (Multiset.mem_add.mpr (.inl (Multiset.mem_add.mpr (.inr hmem)))) (by simp [hd])

theorem ownsOnce_iff {isValid : Bool} {labels : List Label} :
    (machine isValid).Along OwnsOnce (machine isValid).init labels ↔
      (machine isValid).Along PresentsOnce (machine isValid).init labels := by
  have hinit : (machine isValid).init.Owns := by
    refine ⟨?_, fun x hx => ?_, fun x hx => ?_⟩
    · exact Multiset.nodup_zero
    · cases Multiset.notMem_zero x hx
    · cases hx
  refine Machine.along_iff (fun s label t ho hs => ?_) (fun s label t ho hp hs => ?_) hinit
  · have hm := step_moves hs
    rw [← hm.iff ho]
    exact ⟨fun h => h.once, fun hn => ⟨hn, hm.handedOut hn⟩⟩
  · have hm := step_moves hs
    exact hm.owns ho ((hm.iff ho).mpr hp)

instance (s t : AHBSwapchainImpl) (label : Label) : Decidable (s.OwnsOnce label t) :=
  decidable_of_iff (t.places.Nodup ∧ ∀ surface ∈ t.surfaces.drop s.surfaces.length,
    surface.texture ∉ t.transactions ∧ t.currentlyDisplayedTexture ≠ some surface.texture)
    ⟨fun h => ⟨h.1, h.2⟩, fun h => ⟨h.once, h.handedOut⟩⟩

/-- The first surface is presented again, in the frame of the second one, and the third one
gets the texture that is on display. -/
def presentedTwice : List Label :=
  [.acquireNextDrawable {}, .addFinalCommandBuffer 0, .present 0 {}, .acquireNextDrawable {}, .addFinalCommandBuffer 1,
    .present 0 {}, .complete 0 true, .complete 0 true, .signal ⟨1, by decide⟩, .acquireNextDrawable {}]

theorem ownsOnce_presentedTwice : ¬(machine true).Along OwnsOnce (machine true).init presentedTwice ∧
    ∃ s, (machine true).run presentedTwice = some s ∧ s.currentlyDisplayedTexture = some 0 ∧
      s.surfaces[2]? = some { texture := 0 } := by
  have hr : (machine true).run presentedTwice = some _ := rfl
  exact ⟨by decide +kernel, _, hr, rfl, rfl⟩

end AHBSwapchainImpl
end Ogre.Hal
