import Mathlib.Algebra.Order.Group.Multiset
import Mathlib.Data.Multiset.Range
import Mathlib.Tactic.Abel
import Ogre.Hal.CommandPool
import Ogre.Library.ListSums

/-! Where command buffers and device pools are. -/
namespace Ogre.Hal
open Ogre.Library

namespace CommandPools
variable {s t : CommandPools} {p i : Nat} {c : CommandPool} {hand : Multiset Nat}

/-- The places of command buffers: clients, pools, tasks, the recycler, and the freed ones. -/
def buffers (s : CommandPools) : Multiset Nat :=
  ↑(s.held.map (·.buffer)) + (s.pools.map fun c => (c.buffers : Multiset Nat)).sum +
    (s.background.map fun b => (b.buffers : Multiset Nat)).sum +
    (s.recycled.map fun r => (r.buffers : Multiset Nat)).sum + ↑s.freed

def poolHandles (s : CommandPools) : Multiset Nat :=
  (s.pools.map fun c => (c.pool.toList : Multiset Nat)).sum + ↑(s.background.map (·.pool)) +
    ↑(s.recycled.map (·.pool)) + ↑s.freedPools

/-- The buffers were allocated from the pool. -/
def FromPool (s : CommandPools) (pool : Nat) (buffers : List Nat) : Prop :=
  ∀ b ∈ buffers, s.homes[b]? = some pool

/-- Everything has one place, with `hand` for buffers between two places. -/
structure Owned (s : CommandPools) (hand : Multiset Nat) : Prop where
  buffers : s.buffers + hand = Multiset.range s.homes.length
  poolHandles : s.poolHandles = Multiset.range s.devicePools
  pools : ∀ c ∈ s.pools, ∀ pool ∈ c.pool, s.FromPool pool c.buffers
  held : ∀ h ∈ s.held, ∃ c, s.pools[h.pool]? = some c ∧ ∀ pool ∈ c.pool, s.homes[h.buffer]? = some pool
  background : ∀ b ∈ s.background, s.FromPool b.pool b.buffers
  recycled : ∀ r ∈ s.recycled, s.FromPool r.pool r.buffers
  unused : ∀ c ∈ s.pools, ∀ b ∈ c.unusedCommandBuffers, b ∉ s.handedOut
  reset : ∀ r ∈ s.recycled, ∀ b ∈ r.buffers, b ∉ s.handedOut
  handedOut : ∀ b ∈ s.handedOut, b < s.homes.length
  twice : s.handedOutTwice = []
  reclaimed : (s.reclaimed ++ s.background.map (·.origin)).Nodup
  origins : ∀ p ∈ s.reclaimed ++ s.background.map (·.origin), ∃ c, s.pools[p]? = some c ∧ c.alive = false

/-- What threads, callers and the global map refer to is not part of the invariant. -/
theorem Owned.withReferences {contextAlive tornDown : Bool} {threadLocal allPools : List (Nat × Nat)}
    {references dropped : List Nat} (h : s.Owned hand) :
    Owned { s with contextAlive, tornDown, threadLocal, allPools, references, dropped } hand :=
  ⟨h.buffers, h.poolHandles, h.pools, h.held, h.background, h.recycled, h.unused, h.reset, h.handedOut, h.twice,
    h.reclaimed, h.origins⟩

/-- What is left in the pools when one of them has neither a device pool nor buffers any more. -/
private structure Emptied (s : CommandPools) (left : List CommandPool) (c : CommandPool) : Prop where
  buffers : (left.map fun c => (c.buffers : Multiset Nat)).sum + c.buffers =
    (s.pools.map fun c => (c.buffers : Multiset Nat)).sum
  poolHandles : (left.map fun c => (c.pool.toList : Multiset Nat)).sum + c.pool.toList =
    (s.pools.map fun c => (c.pool.toList : Multiset Nat)).sum
  pools : ∀ c ∈ left, ∀ pool ∈ c.pool, s.FromPool pool c.buffers
  held : ∀ h ∈ s.held, ∃ c, left[h.pool]? = some c ∧ ∀ pool ∈ c.pool, s.homes[h.buffer]? = some pool
  unused : ∀ c ∈ left, ∀ b ∈ c.unusedCommandBuffers, b ∉ s.handedOut

private theorem Owned.emptied (h : s.Owned hand) (hc : s.pools[p]? = some c) (alive : Bool) :
    Emptied s (s.pools.set p { c.destroy with alive }) c where
  buffers := sum_set_add _ hc (by simp [CommandPool.destroy, CommandPool.buffers])
  poolHandles := sum_set_add _ hc (by simp [CommandPool.destroy])
  pools d hd pool hpool := by
    rcases List.mem_or_eq_of_mem_set hd with hd | rfl
    · exact h.pools d hd pool hpool
    · simp [CommandPool.destroy] at hpool
  held g hg := by
    rcases eq_or_ne p g.pool with rfl | hne
    · exact ⟨_, List.getElem?_set_self (List.getElem?_eq_some_iff.mp hc).1, by simp [CommandPool.destroy]⟩
    · rw [List.getElem?_set_ne hne]
      exact h.held g hg
  unused d hd := by
    rcases List.mem_or_eq_of_mem_set hd with hd | rfl
    · exact h.unused d hd
    · simp [CommandPool.destroy]

/-- The pools that were reclaimed, or are going to be, stay dead. -/
private theorem Owned.origins_set (h : s.Owned hand) (hc : s.pools[p]? = some c) {d : CommandPool}
    (hd : c.alive = false → d.alive = false) : ∀ o ∈ s.reclaimed ++ s.background.map (·.origin),
      ∃ c, (s.pools.set p d)[o]? = some c ∧ c.alive = false := by
  intro o ho
  obtain ⟨e, he, hdead⟩ := h.origins o ho
  rcases eq_or_ne p o with rfl | hne
  · obtain rfl : c = e := Option.some.inj (hc.symm.trans he)
    exact ⟨d, List.getElem?_set_self (List.getElem?_eq_some_iff.mp hc).1, hd hdead⟩
  · exact ⟨e, (List.getElem?_set_ne hne).trans he, hdead⟩

theorem Owned.destroy (h : s.Owned hand) (p : Nat) : (s.destroy p).Owned hand := by
  unfold CommandPools.destroy
  cases hc : s.pools[p]? with
  | none => exact h
  | some c =>
    simp only
    split
    next halive =>
      have he : Emptied s (s.pools.set p c.destroy) c := h.emptied hc c.alive
      refine ⟨?_, ?_, he.pools, he.held, h.background, h.recycled, he.unused, h.reset, h.handedOut, h.twice, h.reclaimed,
        h.origins_set hc id⟩
      · rw [← h.buffers, CommandPools.buffers, CommandPools.buffers, ← he.buffers, ← Multiset.coe_add]
        abel
      · rw [← h.poolHandles, CommandPools.poolHandles, CommandPools.poolHandles, ← he.poolHandles, ← Multiset.coe_add]
        abel
    next => exact h

/-- A pool that is destructed goes to the background, or frees what it has. -/
theorem Owned.destruct (h : s.Owned hand) (hc : s.pools[p]? = some c) (halive : c.alive) : (s.destruct p c).Owned hand := by
  have he := h.emptied hc false
  have horigins := h.origins_set hc (d := { c.destroy with alive := false }) fun _ => rfl
  unfold CommandPools.destruct
  cases hpool : c.pool with
  | none =>
    have hp := he.poolHandles
    rw [hpool, Option.toList_none, Multiset.coe_nil, add_zero] at hp
    refine ⟨?_, ?_, he.pools, he.held, h.background, h.recycled, he.unused, h.reset, h.handedOut, h.twice, h.reclaimed,
      horigins⟩
    · rw [← h.buffers, CommandPools.buffers, CommandPools.buffers, ← he.buffers, ← Multiset.coe_add]
      abel
    · rw [← h.poolHandles, CommandPools.poolHandles, CommandPools.poolHandles, ← hp]
  | some pool =>
    have hp := he.poolHandles
    rw [hpool, Option.toList_some] at hp
    simp only
    split
    next hcontext =>
      have hnew : p ∉ s.reclaimed ++ s.background.map (·.origin) := by
        intro hmem
        obtain ⟨d, hd, hdead⟩ := h.origins p hmem
        obtain rfl : c = d := Option.some.inj (hc.symm.trans hd)
        simp [halive] at hdead
      refine ⟨?_, ?_, he.pools, he.held, fun b hb => ?_, h.recycled, he.unused, h.reset, h.handedOut, h.twice, ?_,
        fun o ho => ?_⟩
      · rw [← h.buffers, CommandPools.buffers, CommandPools.buffers, ← he.buffers, List.map_append, List.sum_append]
        simp only [List.map_cons, List.map_nil, List.sum_singleton]
        abel
      · rw [← h.poolHandles, CommandPools.poolHandles, CommandPools.poolHandles, ← hp, List.map_append,
          ← Multiset.coe_add]
        simp only [List.map_cons, List.map_nil]
        abel
      · rcases List.mem_append.mp hb with hb | hb
        · exact h.background b hb
        · obtain rfl := List.mem_singleton.mp hb
          exact h.pools c (List.mem_of_getElem? hc) pool hpool
      · rw [List.map_append, ← List.append_assoc, List.nodup_append]
        refine ⟨h.reclaimed, List.nodup_singleton _, fun a ha b hb => ?_⟩
        obtain rfl := List.mem_singleton.mp hb
        rintro rfl
        exact hnew ha
      · rw [List.map_append, ← List.append_assoc, List.mem_append] at ho
        rcases ho with ho | ho
        · exact horigins o ho
        · obtain rfl := List.mem_singleton.mp ho
          exact ⟨_, List.getElem?_set_self (List.getElem?_eq_some_iff.mp hc).1, rfl⟩
    next =>
      refine ⟨?_, ?_, he.pools, he.held, h.background, h.recycled, he.unused, h.reset, h.handedOut, h.twice,
        h.reclaimed, horigins⟩
      · rw [← h.buffers, CommandPools.buffers, CommandPools.buffers, ← he.buffers, ← Multiset.coe_add]
        abel
      · rw [← h.poolHandles, CommandPools.poolHandles, CommandPools.poolHandles, ← hp, ← Multiset.coe_add]
        abel

theorem Owned.release (h : s.Owned hand) (p : Nat) : (s.release p).Owned hand := by
  unfold CommandPools.release
  cases hc : s.pools[p]? with
  | none => exact h
  | some c =>
    simp only
    split
    next halive => exact h.destruct hc (by simp_all)
    next => exact h

theorem Owned.eraseThreadLocal (h : s.Owned hand) (thread : Nat) : (s.eraseThreadLocal thread).Owned hand := by
  unfold CommandPools.eraseThreadLocal
  cases s.threadLocal.find? (·.1 = thread) with
  | none => exact h
  | some e => exact h.withReferences.release e.2

/-- A new pool with what was taken from the recycler, or with a new device pool. -/
private theorem Owned.addPool (h : s.Owned hand) {thread n : Nat} {data : RecycledData} {left : List RecycledData}
    (hbuffers : (left.map fun r => (r.buffers : Multiset Nat)).sum + data.buffers =
      (s.recycled.map fun r => (r.buffers : Multiset Nat)).sum)
    (hpools : ↑(left.map (·.pool)) + {data.pool} + Multiset.range s.devicePools =
      ↑(s.recycled.map (·.pool)) + Multiset.range n)
    (hleft : left ⊆ s.recycled) (hfrom : s.FromPool data.pool data.buffers)
    (hreset : ∀ b ∈ data.buffers, b ∉ s.handedOut) :
    (CommandPools.addPool { s with recycled := left, devicePools := n } thread data).Owned hand := by
  have hold {i : Nat} {d : CommandPool} (hd : s.pools[i]? = some d) (c : CommandPool) :
      (s.pools ++ [c])[i]? = some d := by
    rw [List.getElem?_append_left (List.getElem?_eq_some_iff.mp hd).1, hd]
  refine ⟨?_, ?_, fun c hc pool hpool => ?_, fun g hg => ?_, h.background, fun r hr => h.recycled r (hleft hr),
    fun c hc => ?_, fun r hr => h.reset r (hleft hr), h.handedOut, h.twice, h.reclaimed, fun o ho => ?_⟩
  · refine Eq.trans ?_ h.buffers
    rw [CommandPools.buffers, CommandPools.buffers, ← hbuffers]
    simp only [CommandPools.addPool, List.map_append, List.sum_append, List.map_cons, List.map_nil, List.sum_singleton,
      CommandPool.buffers, List.nil_append]
    abel
  · apply add_right_cancel (b := (↑(s.recycled.map (·.pool)) : Multiset Nat))
    calc _ = ↑(left.map (·.pool)) + {data.pool} + s.poolHandles := by
          simp only [CommandPools.poolHandles, CommandPools.addPool, List.map_append, List.sum_append, List.map_cons,
            List.map_nil, List.sum_singleton, Option.toList_some, Multiset.coe_singleton]
          abel
      _ = _ := by rw [h.poolHandles, hpools, add_comm]; rfl
  · rcases List.mem_append.mp hc with hc | hc
    · exact h.pools c hc pool hpool
    · obtain rfl := List.mem_singleton.mp hc
      obtain rfl := Option.some.inj hpool
      exact hfrom
  · obtain ⟨c, hc, hhome⟩ := h.held g hg
    exact ⟨c, hold hc _, hhome⟩
  · rcases List.mem_append.mp hc with hc | hc
    · exact h.unused c hc
    · obtain rfl := List.mem_singleton.mp hc
      exact hreset
  · obtain ⟨c, hc, hdead⟩ := h.origins o ho
    exact ⟨c, hold hc _, hdead⟩

/-- A device pool with reset buffers, on its way from the recycler or the device to a new pool. -/
theorem Owned.getNew {thread : Nat} {created : Bool} (h : s.Owned hand) {data : RecycledData} {t : CommandPools}
    (hcreate : s.create created = (some data, t)) : (t.addPool thread data).Owned hand := by
  unfold CommandPools.create at hcreate
  split at hcreate
  next last hlast =>
    obtain ⟨heq, rfl⟩ := Prod.mk.inj hcreate
    obtain rfl := Option.some.inj heq
    have hsplit := List.dropLast_append_getLast? last hlast
    have hmem : last ∈ s.recycled := List.mem_of_getLast? hlast
    refine h.addPool ?_ ?_ (List.dropLast_subset _) (h.recycled last hmem) (h.reset last hmem)
    · conv_rhs => rw [← hsplit]
      simp
    · conv_rhs => rw [← hsplit, List.map_append, ← Multiset.coe_add]
      rfl
  next =>
    split at hcreate
    next =>
      obtain ⟨heq, rfl⟩ := Prod.mk.inj hcreate
      obtain rfl := Option.some.inj heq
      refine h.addPool (by simp) ?_ (List.Subset.refl _) (by simp [FromPool]) (by simp)
      rw [Multiset.range_succ, ← Multiset.singleton_add]
      abel
    next => simp at hcreate

theorem Owned.get (h : s.Owned hand) (thread : Nat) (created : Bool) : (s.get thread created).Owned hand := by
  unfold CommandPools.get
  split
  next =>
    split
    · exact h.withReferences
    · split
      next data t hcreate => exact h.getNew hcreate
      next t hcreate =>
        unfold CommandPools.create at hcreate
        split at hcreate
        · simp at hcreate
        · split at hcreate
          · simp at hcreate
          · obtain ⟨-, rfl⟩ := Prod.mk.inj hcreate
            exact h
  next => exact h

private theorem mem_sum_map {α : Type} {f : α → Multiset Nat} {l : List α} {x : α} {b : Nat} (hx : x ∈ l) (hb : b ∈ f x) :
    b ∈ (l.map f).sum := by
  obtain ⟨i, hi⟩ := List.mem_iff_getElem?.mp hx
  rw [sum_eraseIdx f hi]
  exact Multiset.mem_add.mpr (.inl hb)

/-- A buffer in the hand is in no pool, and not in the recycler. -/
private theorem Owned.hand_apart {buffer : Nat} (h : s.Owned {buffer}) :
    (∀ c ∈ s.pools, buffer ∉ c.buffers) ∧ ∀ r ∈ s.recycled, buffer ∉ r.buffers := by
  have hnodup : (s.buffers + {buffer}).Nodup := h.buffers ▸ Multiset.nodup_range _
  have hnot : buffer ∉ s.buffers := by
    rw [add_comm, Multiset.singleton_add, Multiset.nodup_cons] at hnodup
    exact hnodup.1
  simp only [CommandPools.buffers, Multiset.mem_add, not_or] at hnot
  exact ⟨fun c hc hb => hnot.1.1.1.2 (mem_sum_map hc (Multiset.mem_coe.mpr hb)),
    fun r hr hb => hnot.1.2 (mem_sum_map hr (Multiset.mem_coe.mpr hb))⟩

/-- The buffer in the hand goes to a client. -/
private theorem Owned.handOut {buffer : Nat} {tracked : Bool} (h : s.Owned {buffer}) (hfresh : buffer ∉ s.handedOut)
    (hc : s.pools[p]? = some c) (hhome : ∀ pool ∈ c.pool, s.homes[buffer]? = some pool) :
    (s.handOut buffer p tracked).Owned 0 := by
  obtain ⟨hpools, hrecycled⟩ := h.hand_apart
  have hlt : buffer < s.homes.length := by
    rw [← Multiset.mem_range, ← h.buffers]
    simp
  refine ⟨?_, h.poolHandles, h.pools, fun g hg => ?_, h.background, h.recycled, fun d hd b hb => ?_, fun r hr b hb => ?_,
    fun b hb => ?_, ?_, h.reclaimed, h.origins⟩
  · refine Eq.trans ?_ h.buffers
    simp only [CommandPools.handOut, CommandPools.buffers, List.map_append, List.map_cons, List.map_nil,
      ← Multiset.coe_add, Multiset.coe_singleton]
    abel
  · rcases List.mem_append.mp hg with hg | hg
    · exact h.held g hg
    · obtain rfl := List.mem_singleton.mp hg
      exact ⟨c, hc, hhome⟩
  · have hne : b ≠ buffer := by
      rintro rfl
      exact hpools d hd (List.mem_append_right _ hb)
    simpa [CommandPools.handOut, hne] using h.unused d hd b hb
  · have hne : b ≠ buffer := by
      rintro rfl
      exact hrecycled r hr hb
    simpa [CommandPools.handOut, hne] using h.reset r hr b hb
  · rcases List.mem_append.mp hb with hb | hb
    · exact h.handedOut b hb
    · obtain rfl := List.mem_singleton.mp hb
      exact hlt
  · simp [CommandPools.handOut, hfresh, h.twice]

/-- A pool that keeps its device pool, and exchanges buffers with the hand. -/
private theorem Owned.setPool {hand' : Multiset Nat} {d : CommandPool} (h : s.Owned hand) (hc : s.pools[p]? = some c)
    (hpool : d.pool = c.pool) (halive : d.alive = c.alive)
    (hbuffers : (d.buffers : Multiset Nat) + hand' = c.buffers + hand)
    (hfrom : ∀ pool ∈ d.pool, s.FromPool pool d.buffers) (hunused : ∀ b ∈ d.unusedCommandBuffers, b ∉ s.handedOut) :
    Owned { s with pools := s.pools.set p d } hand' := by
  have hself := List.getElem?_set_self (a := d) (List.getElem?_eq_some_iff.mp hc).1
  refine ⟨?_, ?_, fun e he => ?_, fun g hg => ?_, h.background, h.recycled, fun e he => ?_, h.reset, h.handedOut, h.twice,
    h.reclaimed, h.origins_set hc (halive ▸ id)⟩
  · have heq := h.buffers
    rw [CommandPools.buffers, sum_eraseIdx _ hc] at heq
    rw [CommandPools.buffers, sum_set _ hc]
    refine Eq.trans ?_ heq
    have hmove (x y z u v : Multiset Nat) : x + (↑d.buffers + y) + z + u + v + hand' =
        x + y + z + u + v + (↑d.buffers + hand') := by abel
    rw [hmove, hbuffers]
    abel
  · refine Eq.trans ?_ h.poolHandles
    rw [CommandPools.poolHandles, CommandPools.poolHandles, sum_set _ hc, sum_eraseIdx _ hc, hpool]
  · rcases List.mem_or_eq_of_mem_set he with he | rfl
    · exact h.pools e he
    · exact hfrom
  · obtain ⟨e, he, hhome⟩ := h.held g hg
    rcases eq_or_ne p g.pool with rfl | hne
    · obtain rfl : c = e := Option.some.inj (hc.symm.trans he)
      exact ⟨d, hself, hpool ▸ hhome⟩
    · exact ⟨e, (List.getElem?_set_ne hne).trans he, hhome⟩
  · rcases List.mem_or_eq_of_mem_set he with he | rfl
    · exact h.unused e he
    · exact hunused

/-- The last unused buffer is taken out of its pool. -/
private theorem Owned.takeUnused {buffer : Nat} (h : s.Owned 0) (hc : s.pools[p]? = some c)
    (hlast : c.unusedCommandBuffers.getLast? = some buffer) :
    Owned { s with pools := s.pools.set p { c with unusedCommandBuffers := c.unusedCommandBuffers.dropLast } }
      {buffer} := by
  have hmem := List.mem_of_getElem? hc
  have hsplit := List.dropLast_append_getLast? buffer hlast
  have hdrop {b : Nat} (hb : b ∈ c.unusedCommandBuffers.dropLast) : b ∈ c.unusedCommandBuffers :=
    List.dropLast_subset _ hb
  refine h.setPool hc rfl rfl ?_ (fun pool hpool b hb => h.pools c hmem pool hpool b ?_)
    fun b hb => h.unused c hmem b (hdrop hb)
  · rw [add_zero, CommandPool.buffers, CommandPool.buffers, ← Multiset.coe_singleton, Multiset.coe_add,
      List.append_assoc, hsplit]
  · exact (List.mem_append.mp hb).elim (List.mem_append_left _) fun hb => List.mem_append_right _ (hdrop hb)

/-- A buffer that the device allocates. -/
private theorem Owned.allocate (h : s.Owned 0) (pool : Nat) :
    Owned { s with homes := s.homes ++ [pool] } {s.homes.length} := by
  have hhome {b v : Nat} (hb : s.homes[b]? = some v) : (s.homes ++ [pool])[b]? = some v := by
    rw [List.getElem?_append_left (List.getElem?_eq_some_iff.mp hb).1, hb]
  refine ⟨?_, h.poolHandles, fun c hc v hv b hb => hhome (h.pools c hc v hv b hb), fun g hg => ?_,
    fun t ht b hb => hhome (h.background t ht b hb), fun r hr b hb => hhome (h.recycled r hr b hb), h.unused, h.reset,
    fun b hb => ?_, h.twice, h.reclaimed, h.origins⟩
  · rw [List.length_append, List.length_singleton, Multiset.range_succ, ← h.buffers, add_zero, add_comm,
      Multiset.singleton_add]
    rfl
  · obtain ⟨c, hc, hold⟩ := h.held g hg
    exact ⟨c, hc, fun v hv => hhome (hold v hv)⟩
  · rw [List.length_append]
    exact Nat.lt_add_right 1 (h.handedOut b hb)

theorem Owned.createCommandBuffer (h : s.Owned 0) (p : Nat) (tracked allocated : Bool) :
    (s.createCommandBuffer p tracked allocated).Owned 0 := by
  unfold CommandPools.createCommandBuffer
  cases hc : s.pools[p]? with
  | none => exact h
  | some c =>
    simp only
    split
    next pool hcontext hpool =>
      have hmem := List.mem_of_getElem? hc
      split
      next buffer hlast =>
        have hbuffer : buffer ∈ c.unusedCommandBuffers := List.mem_of_getLast? hlast
        refine (h.takeUnused hc hlast).handOut (h.unused c hmem buffer hbuffer)
          (List.getElem?_set_self (List.getElem?_eq_some_iff.mp hc).1) fun v hv => ?_
        exact h.pools c hmem v hv buffer (List.mem_append_right _ hbuffer)
      next =>
        split
        · refine (h.allocate pool).handOut (fun hout => Nat.lt_irrefl _ (h.handedOut _ hout)) hc fun v hv => ?_
          rw [hpool] at hv
          obtain rfl := Option.some.inj hv
          simp
        · exact h
    next => exact h

/-- A buffer is taken from a client. -/
private theorem Owned.takeHeld (h : s.Owned 0) {g : HeldCommandBuffer} (hg : s.held[i]? = some g) :
    Owned { s with held := s.held.eraseIdx i } {g.buffer} := by
  obtain ⟨hi, rfl⟩ := List.getElem?_eq_some_iff.mp hg
  refine ⟨?_, h.poolHandles, h.pools, fun g hg => h.held g (List.mem_of_mem_eraseIdx hg), h.background, h.recycled,
    h.unused, h.reset, h.handedOut, h.twice, h.reclaimed, h.origins⟩
  have hheld := Multiset.coe_eq_coe.mpr ((List.getElem_cons_eraseIdx_perm hi).map (·.buffer))
  refine Eq.trans ?_ h.buffers
  rw [CommandPools.buffers, CommandPools.buffers, ← hheld, List.map_cons, ← Multiset.cons_coe, ← Multiset.singleton_add]
  abel

private theorem Owned.freeHand {buffer : Nat} (h : s.Owned {buffer}) :
    Owned { s with freed := s.freed ++ [buffer] } 0 := by
  refine ⟨?_, h.poolHandles, h.pools, h.held, h.background, h.recycled, h.unused, h.reset, h.handedOut, h.twice,
    h.reclaimed, h.origins⟩
  refine Eq.trans ?_ h.buffers
  rw [CommandPools.buffers, CommandPools.buffers, ← Multiset.coe_add, Multiset.coe_singleton]
  abel

theorem Owned.free (h : s.Owned 0) {g : HeldCommandBuffer} (hg : s.held[i]? = some g) :
    Owned { s with held := s.held.eraseIdx i, freed := s.freed ++ [g.buffer] } 0 :=
  (h.takeHeld hg).freeHand

/-- A buffer that a client holds goes to its pool. -/
theorem Owned.collect (h : s.Owned 0) {g : HeldCommandBuffer} (hg : s.held[i]? = some g) :
    ({ s with held := s.held.eraseIdx i }.collect g.pool g.buffer).Owned 0 := by
  obtain ⟨c, hc, hhome⟩ := h.held g (List.mem_of_getElem? hg)
  have hhand := h.takeHeld hg
  have hmem := List.mem_of_getElem? hc
  unfold CommandPools.collect
  simp only [hc]
  split
  next => exact hhand.freeHand
  next pool hpool =>
    refine hhand.setPool hc rfl rfl ?_ (fun v hv b hb => ?_) (h.unused c hmem)
    · simp only [CommandPool.buffers, ← Multiset.coe_add, ← Multiset.coe_singleton]
      abel
    · simp only [CommandPool.buffers, List.mem_append, List.mem_singleton] at hb
      rcases hb with (hb | rfl) | hb
      · exact h.pools c hmem v hv b (List.mem_append_left _ hb)
      · exact hhome v hv
      · exact h.pools c hmem v hv b (List.mem_append_right _ hb)

private theorem reclaimed_perm {task : BackgroundCommandPool} (ht : s.background[i]? = some task) :
    (s.reclaimed ++ [task.origin] ++ (s.background.eraseIdx i).map (·.origin)).Perm
      (s.reclaimed ++ s.background.map (·.origin)) := by
  obtain ⟨hi, rfl⟩ := List.getElem?_eq_some_iff.mp ht
  rw [List.append_assoc]
  exact ((List.getElem_cons_eraseIdx_perm hi).map (·.origin)).append_left _

theorem Owned.reclaim (h : s.Owned 0) {task : BackgroundCommandPool} (ht : s.background[i]? = some task) :
    ({ s with background := s.background.eraseIdx i }.reclaim task).Owned 0 := by
  have hmem := List.mem_of_getElem? ht
  have hback (b) (hb : b ∈ s.background.eraseIdx i) : s.FromPool b.pool b.buffers :=
    h.background b (List.mem_of_mem_eraseIdx hb)
  have hperm := reclaimed_perm ht
  have hpools : (↑(s.background.map (·.pool)) : Multiset Nat) =
      {task.pool} + ↑((s.background.eraseIdx i).map (·.pool)) := by
    obtain ⟨hi, rfl⟩ := List.getElem?_eq_some_iff.mp ht
    rw [← Multiset.coe_eq_coe.mpr ((List.getElem_cons_eraseIdx_perm hi).map (·.pool))]
    rfl
  have horigins : ∀ o ∈ s.reclaimed ++ [task.origin] ++ (s.background.eraseIdx i).map (·.origin),
      ∃ c, s.pools[o]? = some c ∧ c.alive = false := fun o ho => h.origins o (hperm.mem_iff.mp ho)
  have hbuffers := h.buffers
  rw [CommandPools.buffers, sum_eraseIdx _ ht] at hbuffers
  unfold CommandPools.reclaim
  split
  next hcontext =>
    refine ⟨?_, ?_, h.pools, h.held, hback, fun r hr => ?_, fun c hc b hb hout => ?_, fun r hr b hb hout => ?_,
      fun b hb => h.handedOut b (List.mem_filter.mp hb).1, h.twice, hperm.nodup_iff.mpr h.reclaimed, horigins⟩
    · refine Eq.trans ?_ hbuffers
      simp only [CommandPools.buffers, List.map_append, List.sum_append, List.map_cons, List.map_nil, List.sum_singleton]
      split
      · rw [← Multiset.coe_add, Multiset.coe_nil]
        abel
      · abel
    · refine Eq.trans ?_ h.poolHandles
      simp only [CommandPools.poolHandles, hpools, List.map_append, List.map_cons, List.map_nil, ← Multiset.coe_add,
        Multiset.coe_singleton]
      abel
    · rcases List.mem_append.mp hr with hr | hr
      · exact h.recycled r hr
      · obtain rfl := List.mem_singleton.mp hr
        simp only
        split
        · simp [FromPool]
        · exact h.background task hmem
    · exact h.unused c hc b hb (List.mem_filter.mp hout).1
    · obtain ⟨hout, hother⟩ := List.mem_filter.mp hout
      rcases List.mem_append.mp hr with hr | hr
      · exact h.reset r hr b hb hout
      · obtain rfl := List.mem_singleton.mp hr
        simp only at hb
        split at hb
        · simp at hb
        · simp [h.background task hmem b hb] at hother
  next =>
    have hsub := List.nodup_append.mp (hperm.nodup_iff.mpr h.reclaimed)
    refine ⟨?_, ?_, h.pools, h.held, hback, h.recycled, h.unused, h.reset, h.handedOut, h.twice, ?_, fun o ho => ?_⟩
    · refine Eq.trans ?_ hbuffers
      rw [CommandPools.buffers, ← Multiset.coe_add]
      abel
    · refine Eq.trans ?_ h.poolHandles
      rw [CommandPools.poolHandles, CommandPools.poolHandles, hpools, ← Multiset.coe_add, Multiset.coe_singleton]
      abel
    · refine (hperm.nodup_iff.mpr h.reclaimed).sublist ?_
      exact (List.sublist_append_left _ _).append_right _
    · refine horigins o ?_
      rcases List.mem_append.mp ho with ho | ho
      · exact List.mem_append_left _ (List.mem_append_left _ ho)
      · exact List.mem_append_right _ ho

private theorem coe_flatMap {α : Type} (f : α → List Nat) (l : List α) :
    (↑(l.flatMap f) : Multiset Nat) = (l.map fun x => (f x : Multiset Nat)).sum := by
  induction l with
  | nil => rfl
  | cons x l ih => rw [List.flatMap_cons, ← Multiset.coe_add, ih, List.map_cons, List.sum_cons]

theorem Owned.destroyRecycler (h : s.Owned 0) : Owned { s with
    recycled := []
    freed := s.freed ++ s.recycled.flatMap (·.buffers)
    freedPools := s.freedPools ++ s.recycled.map (·.pool) } 0 := by
  refine ⟨?_, ?_, h.pools, h.held, h.background, by simp, h.unused, by simp, h.handedOut, h.twice, h.reclaimed,
    h.origins⟩
  · refine Eq.trans ?_ h.buffers
    simp only [CommandPools.buffers, ← Multiset.coe_add, coe_flatMap, List.map_nil, List.sum_nil]
    abel
  · refine Eq.trans ?_ h.poolHandles
    simp only [CommandPools.poolHandles, ← Multiset.coe_add, List.map_nil, Multiset.coe_nil]
    abel

end CommandPools
end Ogre.Hal
