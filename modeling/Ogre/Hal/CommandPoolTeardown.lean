import Ogre.Hal.CommandPool

/-! Which pools still have device objects after the pools of all threads were destroyed. -/
namespace Ogre.Hal
open Ogre.Library

/-- `Destroy` on a weak pointer to the pool. -/
def CommandPool.surrender (c : CommandPool) : CommandPool := if c.alive then c.destroy else c

namespace CommandPools
variable {s t : CommandPools} {p q thread : Nat} {c : CommandPool}

/-- Every pool that is alive has given up its device pool and its buffers. -/
def GivenUp (s : CommandPools) : Prop := ∀ c ∈ s.pools, c.alive → c.pool = none ∧ c.buffers = []

/-- Pools have given up after `DestroyThreadLocalPools`, and for good if the context is gone. -/
def TearsDown (_ : CommandPools) (label : Label) (t : CommandPools) : Prop :=
  match label with
  | .destroyThreadLocalPools _ => t.GivenUp
  | _ => t.tornDown → t.GivenUp

/-- No pool whose global entry was erased or replaced is alive when all pools are destroyed. -/
def DroppedAreGone (s : CommandPools) (label : Label) (_ : CommandPools) : Prop :=
  match label with
  | .destroyThreadLocalPools _ => ∀ p ∈ s.dropped, ∀ c ∈ s.pools[p]?, c.alive = false
  | _ => True

/-- A pool with a device pool is in the global map, unless its entry was dropped. -/
structure Registered (s : CommandPools) : Prop where
  empty : ∀ c ∈ s.pools, c.pool = none → c.buffers = []
  registered : ∀ p c, s.pools[p]? = some c → c.alive → c.pool ≠ none → p ∈ s.allPools.map (·.2) ∨ p ∈ s.dropped
  allPools : ∀ e ∈ s.allPools, ∃ c, s.pools[e.2]? = some c ∧ c.thread = e.1 ∧ (c.alive → c.pool ≠ none)
  threadLocal : ∀ e ∈ s.threadLocal, ∃ c, s.pools[e.2]? = some c ∧ c.thread = e.1
  dropped : ∀ p ∈ s.dropped, p ∉ s.allPools.map (·.2) ∧ p ∉ s.threadLocal.map (·.2) ∧
    ∃ c, s.pools[p]? = some c ∧ (c.alive → c.pool ≠ none)
  tornDown : s.tornDown → s.contextAlive = false ∧ s.GivenUp

theorem registered_init : Registered {} := by constructor <;> simp

/-- Other fields do not matter. -/
private theorem Registered.same (h : s.Registered) (hp : t.pools = s.pools) (ha : t.allPools = s.allPools)
    (hl : t.threadLocal = s.threadLocal) (hd : t.dropped = s.dropped) (hc : t.contextAlive = s.contextAlive)
    (ht : t.tornDown = s.tornDown) : t.Registered := by
  refine ⟨?_, ?_, ?_, ?_, ?_, ?_⟩
  · rw [hp]; exact h.empty
  · rw [hp, ha, hd]; exact h.registered
  · rw [ha, hp]; exact h.allPools
  · rw [hl, hp]; exact h.threadLocal
  · rw [hd, ha, hl, hp]; exact h.dropped
  · rw [ht, hc, GivenUp, hp]; exact h.tornDown

/-- A pool that changes, but not its thread, and that has a device pool while it is alive as before. -/
private theorem Registered.set {d : CommandPool} (h : s.Registered) (hc : s.pools[p]? = some c) (hthread : d.thread = c.thread)
    (hempty : d.pool = none → d.buffers = []) (hpool : d.pool ≠ none → c.pool ≠ none) (halive : d.alive → c.alive)
    (hkept : d.alive → c.pool ≠ none → d.pool ≠ none) (hfree : d.alive → c.pool = none → d.buffers = c.buffers) :
    Registered { s with pools := s.pools.set p d } := by
  have hself : (s.pools.set p d)[p]? = some d := List.getElem?_set_self (List.getElem?_eq_some_iff.mp hc).1
  refine ⟨fun e he => ?_, fun q e he ha hp => ?_, fun e he => ?_, fun e he => ?_, fun q hq => ?_, fun ht => ?_⟩
  · rcases List.mem_or_eq_of_mem_set he with he | rfl
    · exact h.empty e he
    · exact hempty
  · rcases eq_or_ne p q with rfl | hne
    · obtain rfl : d = e := Option.some.inj (hself.symm.trans he)
      exact h.registered p c hc (halive ha) (hpool hp)
    · exact h.registered q e ((List.getElem?_set_ne hne).symm.trans he) ha hp
  · obtain ⟨e', he', hthread', hp⟩ := h.allPools e he
    rcases eq_or_ne p e.2 with rfl | hne
    · obtain rfl : c = e' := Option.some.inj (hc.symm.trans he')
      exact ⟨d, hself, hthread.trans hthread', fun ha => hkept ha (hp (halive ha))⟩
    · exact ⟨e', (List.getElem?_set_ne hne).trans he', hthread', hp⟩
  · obtain ⟨e', he', hthread'⟩ := h.threadLocal e he
    rcases eq_or_ne p e.2 with rfl | hne
    · obtain rfl : c = e' := Option.some.inj (hc.symm.trans he')
      exact ⟨d, hself, hthread.trans hthread'⟩
    · exact ⟨e', (List.getElem?_set_ne hne).trans he', hthread'⟩
  · obtain ⟨ha, hl, e', he', hp⟩ := h.dropped q hq
    refine ⟨ha, hl, ?_⟩
    rcases eq_or_ne p q with rfl | hne
    · obtain rfl : c = e' := Option.some.inj (hc.symm.trans he')
      exact ⟨d, hself, fun ha => hkept ha (hp (halive ha))⟩
    · exact ⟨e', (List.getElem?_set_ne hne).trans he', hp⟩
  · obtain ⟨hcontext, hgiven⟩ := h.tornDown ht
    refine ⟨hcontext, fun e he ha => ?_⟩
    rcases List.mem_or_eq_of_mem_set he with he | rfl
    · exact hgiven e he ha
    · have hnone := (hgiven c (List.mem_of_getElem? hc) (halive ha)).1
      have he : e.pool = none := by
        by_contra hne
        exact hpool hne hnone
      exact ⟨he, hempty he⟩

private theorem Registered.release (h : s.Registered) (p : Nat) : (s.release p).Registered := by
  unfold CommandPools.release
  cases hc : s.pools[p]? with
  | none => exact h
  | some c =>
    simp only
    split
    next =>
      have hset : Registered { s with pools := s.pools.set p { c.destroy with alive := false } } :=
        h.set hc rfl (fun _ => rfl) (fun hne => (hne rfl).elim) (by simp) (by simp) (by simp)
      unfold CommandPools.destruct
      cases c.pool with
      | none => exact hset.same rfl rfl rfl rfl rfl rfl
      | some pool =>
        simp only
        split <;> exact hset.same rfl rfl rfl rfl rfl rfl
    next => exact h

private theorem release_rest (p : Nat) : (s.release p).threadLocal = s.threadLocal ∧ (s.release p).dropped = s.dropped ∧
    (s.release p).allPools = s.allPools ∧ (s.release p).contextAlive = s.contextAlive := by
  unfold CommandPools.release CommandPools.destruct
  cases s.pools[p]? with
  | none => exact ⟨rfl, rfl, rfl, rfl⟩
  | some c =>
    simp only
    split
    next =>
      cases c.pool with
      | none => exact ⟨rfl, rfl, rfl, rfl⟩
      | some pool =>
        simp only
        split <;> exact ⟨rfl, rfl, rfl, rfl⟩
    next => exact ⟨rfl, rfl, rfl, rfl⟩

private theorem release_pools (hne : p ≠ q) : (s.release p).pools[q]? = s.pools[q]? := by
  unfold CommandPools.release CommandPools.destruct
  cases s.pools[p]? with
  | none => rfl
  | some c =>
    simp only
    split
    next =>
      cases c.pool with
      | none => exact List.getElem?_set_ne hne
      | some pool =>
        simp only
        split <;> exact List.getElem?_set_ne hne
    next => rfl

private theorem eraseThreadLocal_rest (thread : Nat) : (s.eraseThreadLocal thread).dropped = s.dropped ∧
    (s.eraseThreadLocal thread).allPools = s.allPools ∧
    (s.eraseThreadLocal thread).contextAlive = s.contextAlive := by
  unfold CommandPools.eraseThreadLocal
  cases s.threadLocal.find? (·.1 = thread) with
  | none => exact ⟨rfl, rfl, rfl⟩
  | some e => exact (release_rest e.2).2

private theorem eraseThreadLocal_threadLocal : ∀ e ∈ (s.eraseThreadLocal thread).threadLocal, e.1 ≠ thread := by
  intro e he
  unfold CommandPools.eraseThreadLocal at he
  cases hf : s.threadLocal.find? (·.1 = thread) with
  | none =>
    rw [hf] at he
    simpa using List.find?_eq_none.mp hf e he
  | some f =>
    simp only [hf] at he
    rw [(release_rest f.2).1] at he
    simpa using (List.mem_filter.mp he).2

/-- Only a pool of the thread can go with the entry of the thread. -/
private theorem eraseThreadLocal_pools (hp : p ∉ s.threadLocal.map (·.2)) :
    (s.eraseThreadLocal thread).pools[p]? = s.pools[p]? := by
  unfold CommandPools.eraseThreadLocal
  cases hf : s.threadLocal.find? (·.1 = thread) with
  | none => rfl
  | some e =>
    refine release_pools fun he => hp ?_
    exact he ▸ List.mem_map_of_mem (List.mem_of_find?_eq_some hf)

private theorem Registered.eraseThreadLocal (h : s.Registered) (thread : Nat) :
    (s.eraseThreadLocal thread).Registered := by
  unfold CommandPools.eraseThreadLocal
  cases s.threadLocal.find? (·.1 = thread) with
  | none => exact h
  | some e =>
    refine Registered.release ?_ e.2
    refine ⟨h.empty, h.registered, h.allPools, fun f hf => ?_, fun p hp => ?_, h.tornDown⟩
    · exact h.threadLocal f (List.mem_of_mem_filter hf)
    · obtain ⟨ha, hl, hc⟩ := h.dropped p hp
      exact ⟨ha, fun hm => hl (List.map_subset _ (List.filter_subset_self _) hm), hc⟩

/-- The global entry of a thread can be dropped once the thread has no entry of its own. -/
private theorem Registered.drop (h : s.Registered) (hthread : ∀ e ∈ s.threadLocal, e.1 ≠ thread) :
    Registered { s with
      allPools := s.allPools.filter (·.1 ≠ thread)
      dropped := s.dropped ++ (s.allPools.filter (·.1 = thread)).map (·.2) } := by
  refine ⟨h.empty, fun p c hc ha hp => ?_, fun e he => h.allPools e (List.mem_of_mem_filter he), h.threadLocal,
    fun p hp => ?_, h.tornDown⟩
  · rcases h.registered p c hc ha hp with hm | hm
    · obtain ⟨e, he, rfl⟩ := List.mem_map.mp hm
      by_cases heq : e.1 = thread
      · exact .inr (List.mem_append_right _ (List.mem_map_of_mem (List.mem_filter.mpr ⟨he, by simpa using heq⟩)))
      · exact .inl (List.mem_map_of_mem (List.mem_filter.mpr ⟨he, by simpa using heq⟩))
    · exact .inr (List.mem_append_left _ hm)
  · rcases List.mem_append.mp hp with hp | hp
    · obtain ⟨ha, hl, hc⟩ := h.dropped p hp
      exact ⟨fun hm => ha (List.map_subset _ (List.filter_subset_self _) hm), hl, hc⟩
    · obtain ⟨e, he, rfl⟩ := List.mem_map.mp hp
      obtain ⟨he, heq⟩ := List.mem_filter.mp he
      obtain ⟨c, hc, hct, hp⟩ := h.allPools e he
      replace heq : e.1 = thread := by simpa using heq
      refine ⟨fun hm => ?_, fun hm => ?_, c, hc, hp⟩
      -- another entry with the pool would be one of the same thread
      · obtain ⟨f, hf, hfe⟩ := List.mem_map.mp hm
        obtain ⟨hf, hne⟩ := List.mem_filter.mp hf
        obtain ⟨d, hd, hdt, -⟩ := h.allPools f hf
        obtain rfl : c = d := Option.some.inj (hc.symm.trans (hfe ▸ hd))
        simp only [ne_eq, decide_not, Bool.not_eq_eq_eq_not, Bool.not_true, decide_eq_false_iff_not] at hne
        exact hne (hdt.symm.trans (hct.trans heq))
      · obtain ⟨f, hf, hfe⟩ := List.mem_map.mp hm
        obtain ⟨d, hd, hdt⟩ := h.threadLocal f hf
        obtain rfl : c = d := Option.some.inj (hc.symm.trans (hfe ▸ hd))
        exact hthread f hf (hdt.symm.trans (hct.trans heq))

/-- A new pool of the thread, in both maps. -/
private theorem Registered.add (h : s.Registered) (hcontext : s.contextAlive) (hthread : c.thread = thread)
    (hpool : c.pool ≠ none) :
    Registered { s with
      pools := s.pools ++ [c]
      threadLocal := s.threadLocal ++ [(thread, s.pools.length)]
      allPools := s.allPools ++ [(thread, s.pools.length)] } := by
  have hold {q : Nat} {d : CommandPool} (hd : s.pools[q]? = some d) : (s.pools ++ [c])[q]? = some d := by
    rw [List.getElem?_append_left (List.getElem?_eq_some_iff.mp hd).1, hd]
  have hnew : (s.pools ++ [c])[s.pools.length]? = some c := by simp
  refine ⟨fun d hd => ?_, fun q d hd ha hp => ?_, fun e he => ?_, fun e he => ?_, fun q hq => ?_, fun ht => ?_⟩
  · rcases List.mem_append.mp hd with hd | hd
    · exact h.empty d hd
    · obtain rfl := List.mem_singleton.mp hd
      exact fun hnone => (hpool hnone).elim
  · rcases Nat.lt_or_ge q s.pools.length with hlt | hge
    · rw [List.getElem?_append_left hlt] at hd
      refine (h.registered q d hd ha hp).imp_left fun hm => ?_
      simp only [List.map_append, List.mem_append, hm, true_or]
    · have hlt := (List.getElem?_eq_some_iff.mp hd).1
      obtain rfl : q = s.pools.length := by simp at hlt; omega
      simp
  · rcases List.mem_append.mp he with he | he
    · obtain ⟨d, hd, hrest⟩ := h.allPools e he
      exact ⟨d, hold hd, hrest⟩
    · obtain rfl := List.mem_singleton.mp he
      exact ⟨c, hnew, hthread, fun _ => hpool⟩
  · rcases List.mem_append.mp he with he | he
    · obtain ⟨d, hd, hrest⟩ := h.threadLocal e he
      exact ⟨d, hold hd, hrest⟩
    · obtain rfl := List.mem_singleton.mp he
      exact ⟨c, hnew, hthread⟩
  · obtain ⟨ha, hl, d, hd, hp⟩ := h.dropped q hq
    have hne : q ≠ s.pools.length := Nat.ne_of_lt (List.getElem?_eq_some_iff.mp hd).1
    refine ⟨?_, ?_, d, hold hd, hp⟩
    · simpa [hne] using ha
    · simpa [hne] using hl
  · rw [(h.tornDown ht).1] at hcontext
    cases hcontext

private theorem Registered.get (h : s.Registered) (thread : Nat) (created : Bool) :
    (s.get thread created).Registered := by
  unfold CommandPools.get
  split
  next hcontext =>
    cases hf : s.threadLocal.find? (·.1 = thread) with
    | some e => exact h.same rfl rfl rfl rfl rfl rfl
    | none =>
      have hthread : ∀ e ∈ s.threadLocal, e.1 ≠ thread := fun e he => by simpa using List.find?_eq_none.mp hf e he
      have hadd (data : RecycledData) := (h.drop hthread).add hcontext
        (c := { pool := some data.pool, unusedCommandBuffers := data.buffers, thread }) rfl (by simp)
      simp only [CommandPools.create]
      cases s.recycled.getLast? with
      | some data => exact (hadd data).same rfl rfl rfl rfl rfl rfl
      | none =>
        cases created with
        | true => exact (hadd ⟨s.devicePools, []⟩).same rfl rfl rfl rfl rfl rfl
        | false => exact h.same rfl rfl rfl rfl rfl rfl
  next => exact h

private theorem Registered.createCommandBuffer (h : s.Registered) (p : Nat) (tracked allocated : Bool) :
    (s.createCommandBuffer p tracked allocated).Registered := by
  unfold CommandPools.createCommandBuffer
  cases hc : s.pools[p]? with
  | none => exact h
  | some c =>
    simp only
    split
    next pool hcontext hp =>
      split
      next buffer hlast =>
        have hset : Registered { s with
            pools := s.pools.set p { c with unusedCommandBuffers := c.unusedCommandBuffers.dropLast } } :=
          h.set hc rfl (fun hnone => by simp [hp] at hnone) id id (fun _ => id) (fun _ hnone => by simp [hp] at hnone)
        exact hset.same rfl rfl rfl rfl rfl rfl
      next =>
        split
        · exact h.same rfl rfl rfl rfl rfl rfl
        · exact h
    next => exact h

private theorem Registered.collect (h : s.Registered) (p buffer : Nat) : (s.collect p buffer).Registered := by
  unfold CommandPools.collect
  cases hc : s.pools[p]? with
  | none => exact h
  | some c =>
    simp only
    split
    next => exact h.same rfl rfl rfl rfl rfl rfl
    next pool hp =>
      exact h.set hc rfl (fun hnone => by simp [hp] at hnone) id id (fun _ => id) (fun _ hnone => by simp [hp] at hnone)

private theorem destroy_pools (p : Nat) :
    (s.destroy p).pools[q]? = if q = p then s.pools[q]?.map CommandPool.surrender else s.pools[q]? := by
  unfold CommandPools.destroy
  rcases eq_or_ne q p with rfl | hne
  · rw [if_pos rfl]
    cases hc : s.pools[q]? with
    | none => exact hc
    | some c =>
      simp only [Option.map_some, CommandPool.surrender]
      split
      · exact List.getElem?_set_self (List.getElem?_eq_some_iff.mp hc).1
      · exact hc
  · rw [if_neg hne]
    cases s.pools[p]? with
    | none => rfl
    | some c =>
      simp only
      split
      · exact List.getElem?_set_ne (Ne.symm hne)
      · rfl

private theorem destroy_rest (p : Nat) : (s.destroy p).dropped = s.dropped ∧
    (s.destroy p).threadLocal = s.threadLocal ∧ (s.destroy p).contextAlive = s.contextAlive := by
  unfold CommandPools.destroy
  cases s.pools[p]? with
  | none => exact ⟨rfl, rfl, rfl⟩
  | some c =>
    simp only
    split <;> exact ⟨rfl, rfl, rfl⟩

private theorem surrender_surrender : c.surrender.surrender = c.surrender := by
  unfold CommandPool.surrender
  split <;> simp_all [CommandPool.destroy]

private theorem destroyAll_pools (es : List (Nat × Nat)) : (es.foldl (fun s e => s.destroy e.2) s).pools[q]? =
    if q ∈ es.map (·.2) then s.pools[q]?.map CommandPool.surrender else s.pools[q]? := by
  induction es generalizing s with
  | nil => simp
  | cons e es ih =>
    rw [List.foldl_cons, ih, destroy_pools, List.map_cons]
    rcases eq_or_ne q e.2 with heq | hne
    · simp [heq, Option.map_map, Function.comp_def, surrender_surrender]
    · rw [if_neg hne]
      exact if_congr (by simp only [List.mem_cons, hne, false_or]) rfl rfl

private theorem destroyAll_rest (es : List (Nat × Nat)) :
    (es.foldl (fun s e => s.destroy e.2) s).dropped = s.dropped ∧
      (es.foldl (fun s e => s.destroy e.2) s).threadLocal = s.threadLocal ∧
      (es.foldl (fun s e => s.destroy e.2) s).contextAlive = s.contextAlive := by
  induction es generalizing s with
  | nil => exact ⟨rfl, rfl, rfl⟩
  | cons e es ih =>
    obtain ⟨hd, hl, hc⟩ := destroy_rest (s := s) e.2
    rw [List.foldl_cons]
    exact ⟨ih.1.trans hd, ih.2.1.trans hl, ih.2.2.trans hc⟩

/-- What is left of a pool when all pools are destroyed. -/
private theorem destroyThreadLocalPools_pools (thread q : Nat) :
    (s.destroyThreadLocalPools thread).pools[q]? = if q ∈ s.allPools.map (·.2)
      then (s.eraseThreadLocal thread).pools[q]?.map CommandPool.surrender
      else (s.eraseThreadLocal thread).pools[q]? := by
  rw [CommandPools.destroyThreadLocalPools, ← (eraseThreadLocal_rest (s := s) thread).2.1]
  exact destroyAll_pools _

/-- All pools have given up if and only if those that were dropped are gone. -/
private theorem Registered.givenUp_iff (h : s.Registered) (thread : Nat) :
    (s.destroyThreadLocalPools thread).GivenUp ↔ ∀ p ∈ s.dropped, ∀ c ∈ s.pools[p]?, c.alive = false := by
  obtain ⟨hdropped, hall, -⟩ := eraseThreadLocal_rest (s := s) thread
  have hu := h.eraseThreadLocal thread
  constructor
  · intro hgiven p hp c hc
    obtain ⟨ha, hl, d, hd, hpool⟩ := h.dropped p hp
    obtain rfl : c = d := Option.some.inj (hc.symm.trans hd)
    have ht : (s.destroyThreadLocalPools thread).pools[p]? = some c := by
      rw [destroyThreadLocalPools_pools, if_neg ha, eraseThreadLocal_pools hl, hd]
    by_contra halive
    rw [Bool.not_eq_false] at halive
    exact hpool halive (hgiven c (List.mem_of_getElem? ht) halive).1
  · intro hgone c hc halive
    obtain ⟨q, hq⟩ := List.mem_iff_getElem?.mp hc
    rw [destroyThreadLocalPools_pools] at hq
    split at hq
    next =>
      obtain ⟨d, -, rfl⟩ := Option.map_eq_some_iff.mp hq
      unfold CommandPool.surrender at halive ⊢
      split
      next => exact ⟨rfl, rfl⟩
      next hd => simp [hd] at halive
    next hm =>
      by_cases hpool : c.pool = none
      · exact ⟨hpool, hu.empty c (List.mem_of_getElem? hq) hpool⟩
      · rcases hu.registered q c hq halive hpool with hin | hin
        · exact (hm (hall ▸ hin)).elim
        · rw [hdropped] at hin
          obtain ⟨-, hl, -⟩ := h.dropped q hin
          rw [eraseThreadLocal_pools hl] at hq
          rw [hgone q hin c hq] at halive
          cases halive

private theorem Registered.destroyThreadLocalPools (h : s.Registered) (thread : Nat)
    (hgiven : (s.destroyThreadLocalPools thread).GivenUp) : (s.destroyThreadLocalPools thread).Registered := by
  obtain ⟨hdropped, hall, -⟩ := eraseThreadLocal_rest (s := s) thread
  have hu := h.eraseThreadLocal thread
  obtain ⟨hd, hl, hc⟩ := destroyAll_rest (s := s.eraseThreadLocal thread) (s.eraseThreadLocal thread).allPools
  have hpools (q : Nat) := destroyThreadLocalPools_pools (s := s) thread q
  refine ⟨fun c hc hnone => ?_, fun p c hc halive hp => ?_, fun e he => ?_, fun e he => ?_, fun p hp => ?_, fun ht => ?_⟩
  · obtain ⟨q, hq⟩ := List.mem_iff_getElem?.mp hc
    rw [hpools] at hq
    split at hq
    next =>
      obtain ⟨d, hd, rfl⟩ := Option.map_eq_some_iff.mp hq
      unfold CommandPool.surrender at hnone ⊢
      split
      next => rfl
      next hdead => exact hu.empty d (List.mem_of_getElem? hd) (by simpa [hdead] using hnone)
    next => exact hu.empty c (List.mem_of_getElem? hq) hnone
  · exact (hp (hgiven c (List.mem_of_getElem? hc) halive).1).elim
  · cases he
  · obtain ⟨c, hc, ht⟩ := hu.threadLocal e (hl ▸ he)
    rw [hpools, hc]
    split
    · refine ⟨c.surrender, rfl, ?_⟩
      unfold CommandPool.surrender
      split <;> exact ht
    · exact ⟨c, rfl, ht⟩
  · have hp : p ∈ (s.eraseThreadLocal thread).dropped := hd ▸ hp
    obtain ⟨ha, hlocal, c, hc, halive⟩ := hu.dropped p hp
    refine ⟨by simp [CommandPools.destroyThreadLocalPools], fun hm => hlocal (hl ▸ hm), c, ?_, halive⟩
    rw [hpools, if_neg (hall ▸ ha), hc]
  · refine ⟨hc.trans ?_, hgiven⟩
    simpa [CommandPools.destroyThreadLocalPools] using ht

/-- A step keeps the invariant, except that pools may be left behind when all are destroyed. -/
theorem step_registered {label : Label} (h : s.Registered) (hs : s.step label = some t) :
    (∃ thread, label = .destroyThreadLocalPools thread ∧ t = s.destroyThreadLocalPools thread) ∨
      (∀ thread, label ≠ .destroyThreadLocalPools thread) ∧ t.Registered := by
  cases label with
  | get thread created => exact .inr ⟨by simp, Option.some.inj hs ▸ h.get thread created⟩
  | dropReference p =>
    simp only [step, Option.ite_none_right_eq_some, Option.some.injEq] at hs
    refine .inr ⟨by simp, hs.2 ▸ Registered.release ?_ p⟩
    exact h.same rfl rfl rfl rfl rfl rfl
  | createCommandBuffer p tracked allocated =>
    simp only [step, Option.ite_none_right_eq_some, Option.some.injEq] at hs
    exact .inr ⟨by simp, hs.2 ▸ h.createCommandBuffer p tracked allocated⟩
  | collectCommandBuffer i =>
    obtain ⟨g, -, hs⟩ := Option.bind_eq_some_iff.mp hs
    simp only [Option.ite_none_right_eq_some, Option.some.injEq] at hs
    obtain ⟨-, rfl⟩ := hs
    have heldErased : Registered { s with held := s.held.eraseIdx i } := h.same rfl rfl rfl rfl rfl rfl
    refine .inr ⟨by simp, ?_⟩
    unfold collectHeld
    split
    · exact (heldErased.collect g.pool g.buffer).release g.pool
    · exact heldErased.collect g.pool g.buffer
  | freeCommandBuffer i =>
    obtain ⟨g, -, hs⟩ := Option.bind_eq_some_iff.mp hs
    simp only [Option.ite_none_left_eq_some, Option.some.injEq] at hs
    exact .inr ⟨by simp, hs.2 ▸ h.same rfl rfl rfl rfl rfl rfl⟩
  | dispose thread =>
    exact .inr ⟨by simp, Option.some.inj hs ▸ (h.eraseThreadLocal thread).drop eraseThreadLocal_threadLocal⟩
  | exitThread thread => exact .inr ⟨by simp, Option.some.inj hs ▸ h.eraseThreadLocal thread⟩
  | destroyThreadLocalPools thread => exact .inl ⟨thread, rfl, (Option.some.inj hs).symm⟩
  | reclaim i =>
    obtain ⟨task, -, rfl⟩ := Option.map_eq_some_iff.mp hs
    refine .inr ⟨by simp, ?_⟩
    unfold CommandPools.reclaim
    split <;> exact h.same rfl rfl rfl rfl rfl rfl
  | expireContext =>
    obtain rfl := Option.some.inj hs
    exact .inr ⟨by simp, h.empty, h.registered, h.allPools, h.threadLocal, h.dropped, fun ht => ⟨rfl, (h.tornDown ht).2⟩⟩
  | destroyRecycler =>
    simp only [step, Option.ite_none_left_eq_some, Option.some.injEq] at hs
    exact .inr ⟨by simp, hs.2 ▸ h.same rfl rfl rfl rfl rfl rfl⟩

theorem tearsDown_iff {labels : List Label} :
    machine.Along TearsDown machine.init labels ↔ machine.Along DroppedAreGone machine.init labels := by
  refine Machine.along_iff (I := Registered) (fun s label t h hs => ?_) (fun s label t h hgone hs => ?_) registered_init
  · rcases step_registered h hs with ⟨thread, rfl, rfl⟩ | ⟨hne, ht⟩
    · exact h.givenUp_iff thread
    · cases label with
      | destroyThreadLocalPools thread => exact (hne thread rfl).elim
      | _ => exact iff_of_true (fun hdown => (ht.tornDown hdown).2) trivial
  · rcases step_registered h hs with ⟨thread, rfl, rfl⟩ | ⟨-, ht⟩
    · exact h.destroyThreadLocalPools thread ((h.givenUp_iff thread).mpr hgone)
    · exact ht

instance (s : CommandPools) : Decidable s.GivenUp := inferInstanceAs (Decidable (∀ c ∈ s.pools, _ → _ ∧ _))

instance (s t : CommandPools) (label : Label) : Decidable (TearsDown s label t) := by
  unfold TearsDown
  cases label <;> infer_instance

/-- A command buffer that is still in flight when the frame of its thread has ended. -/
theorem tearsDown_inFlight : ¬machine.Along TearsDown machine.init
    [.get 0 true, .createCommandBuffer 0 true true, .dispose 0, .dropReference 0, .expireContext,
      .destroyThreadLocalPools 0] := by decide

end CommandPools
end Ogre.Hal
