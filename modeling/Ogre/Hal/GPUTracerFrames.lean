import Ogre.Hal.GPUTracer

/-! The pending buffers of each trace state are the probes that recorded into it, as long as
no frame is over before its buffers are. -/
namespace Ogre.Hal.GPUTracer
open Ogre.Core Ogre.Library
variable {s t u : GPUTracer} {g : PendingProbes} {a : Label} {p q thread : Nat} {i j : TraceIndex} {probe : GPUProbe}
  {commands : List QueryCommand}

/-- A start or an end of a buffer is written, or the pool of the frame is full. -/
def writes (s : GPUTracer) (thread : Nat) : Bool :=
  s.records thread && (s.traceStates s.currentState).currentIndex < kPoolSize

/-- The calls of `OnFenceComplete` that found no pending buffer and are not done. -/
def completing (s : GPUTracer) : List TraceIndex := s.completed.map (·.1) ++ s.readBack

/-- A frame ends when the buffers of the state that comes next have completed. A probe starts
once, into a state that is not being read back, and its end comes in the same frame. -/
def InFrame (s : GPUTracer) (a : Label) (_ : GPUTracer) : Prop :=
  match a with
  | .markFrameEnd => s.enabled = true → (s.traceStates s.currentState.next).pendingBuffers = 0
  | .recordCmdBufferStart p thread => s.writes thread = true →
    (∀ probe ∈ s.probe p, probe.index = none) ∧ s.currentState ∉ s.completing
  | .recordCmdBufferEnd p thread => s.writes thread = true →
    ∀ probe ∈ s.probe p, ∀ i ∈ probe.index, i = s.currentState
  | _ => True

instance (s : GPUTracer) (a : Label) (t : GPUTracer) : Decidable (InFrame s a t) := by
  unfold InFrame
  cases a <;> infer_instance

/-- A pool is reset or read back only while no probe of its state is pending, and an end is
written to the state that the start of its probe was written to. -/
structure Sound (r : GPUTracer × PendingProbes) (a : Label) (_ : GPUTracer × PendingProbes) : Prop where
  idle : ∀ i ∈ r.1.usedPools a, r.2 i = ∅
  sameState : ∀ p thread, a = .recordCmdBufferEnd p thread → ∀ i ∈ r.1.timestampStates a, p ∈ r.2 i

structure Accounted (s : GPUTracer) (g : PendingProbes) : Prop where
  counts : ∀ i, (s.traceStates i).pendingBuffers = (g i).card
  started : ∀ p i, p ∈ g i ↔ ∃ probe, s.probe p = some probe ∧ probe.index = some i
  bounded : ∀ i, (s.traceStates i).pendingBuffers ≤ (s.traceStates i).currentIndex ∧
    (s.traceStates i).currentIndex ≤ kPoolSize
  idle : ∀ i ∈ s.statesToReset ++ s.completing, g i = ∅
  disabled : s.enabled = false → ∀ i, g i = ∅

section Calls

theorem probe_eq_some : s.probe p = some probe ↔ s.probes[p]? = some probe ∧ probe.destroyed = false := by
  simp [GPUTracer.probe, Option.filter_eq_some_iff]

theorem recordCmdBufferStart_cases (h : s.recordCmdBufferStart p thread = some (commands, t)) :
    ∃ probe, s.probe p = some probe ∧
      (s.records thread = false ∧ commands = [] ∧ t = s ∨
      s.records thread = true ∧ s.writes thread = false ∧ commands = s.statesToReset.map .resetQueryPool ∧
        t = { s with statesToReset := [] } ∨
      s.writes thread = true ∧
        commands = s.statesToReset.map .resetQueryPool ++
          [.writeTimestamp s.currentState (s.traceStates s.currentState).currentIndex] ∧
        t = { s with
          statesToReset := []
          probes := s.probes.set p { probe with index := some s.currentState }
          traceStates := Function.update s.traceStates s.currentState
            ⟨(s.traceStates s.currentState).currentIndex + 1,
              sizeAdd (s.traceStates s.currentState).pendingBuffers 1⟩ }) := by
  obtain ⟨probe, hprobe, h⟩ := Option.bind_eq_some_iff.mp h
  refine ⟨probe, hprobe, ?_⟩
  split at h
  next hr =>
    obtain ⟨rfl, rfl⟩ := Prod.mk.inj (Option.some.inj h)
    exact .inl ⟨by simpa using hr, rfl, rfl⟩
  next hr =>
    have hrecords : s.records thread = true := by simpa using hr
    right
    dsimp only at h
    split at h
    next hfull =>
      obtain ⟨rfl, rfl⟩ := Prod.mk.inj (Option.some.inj h)
      exact .inl ⟨hrecords, by simp [writes, hrecords, hfull], rfl, rfl⟩
    next hroom =>
      obtain ⟨rfl, rfl⟩ := Prod.mk.inj (Option.some.inj h)
      exact .inr ⟨by simpa [writes, hrecords] using hroom, rfl, rfl⟩

theorem recordCmdBufferEnd_cases (h : s.recordCmdBufferEnd p thread = some (commands, t)) :
    ∃ probe, s.probe p = some probe ∧
      (commands = [] ∧ t = s ∨
      ∃ i, probe.index = some i ∧ s.writes thread = true ∧
        commands = [.writeTimestamp s.currentState (s.traceStates s.currentState).currentIndex] ∧
        t = { s with
          traceStates := Function.update s.traceStates s.currentState
            { s.traceStates s.currentState with currentIndex := (s.traceStates s.currentState).currentIndex + 1 } }) := by
  obtain ⟨probe, hprobe, h⟩ := Option.bind_eq_some_iff.mp h
  refine ⟨probe, hprobe, ?_⟩
  split at h
  · obtain ⟨rfl, rfl⟩ := Prod.mk.inj (Option.some.inj h)
    exact .inl ⟨rfl, rfl⟩
  next hr =>
    dsimp only at h
    split at h
    · obtain ⟨rfl, rfl⟩ := Prod.mk.inj (Option.some.inj h)
      exact .inl ⟨rfl, rfl⟩
    next hroom =>
      obtain ⟨rfl, rfl⟩ := Prod.mk.inj (Option.some.inj h)
      rw [Bool.or_eq_true, not_or] at hr
      obtain ⟨i, hi⟩ := Option.ne_none_iff_exists'.mp (by simpa using hr.2)
      exact .inr ⟨i, hi, by simpa [writes] using ⟨by simpa using hr.1, not_le.mp hroom⟩, rfl, rfl⟩

theorem destroyProbe_cases (h : s.destroyProbe p = some t) :
    ∃ probe, s.probe p = some probe ∧
      let u := { s with probes := s.probes.set p { probe with destroyed := true } }
      (probe.index = none ∧ t = u ∨ ∃ i, probe.index = some i ∧ t = u.onFenceComplete i) := by
  obtain ⟨probe, hprobe, h⟩ := Option.bind_eq_some_iff.mp h
  refine ⟨probe, hprobe, ?_⟩
  dsimp only at h ⊢
  split at h
  next hnone => exact .inl ⟨hnone, (Option.some.inj h).symm⟩
  next i hi => exact .inr ⟨i, hi, (Option.some.inj h).symm⟩

theorem getQueryPoolResults_cases {k : Nat} {context : Bool} {read : Option (TraceIndex × Nat)}
    (h : s.getQueryPoolResults k context = some (read, t)) :
    ∃ i queryCount, s.completed[k]? = some (i, queryCount) ∧
      (read = some (i, queryCount) ∧ t = { s with completed := s.completed.eraseIdx k, readBack := s.readBack ++ [i] } ∨
        read = none ∧ t = { s with completed := s.completed.eraseIdx k }) := by
  obtain ⟨⟨i, queryCount⟩, hk, h⟩ := Option.bind_eq_some_iff.mp h
  refine ⟨i, queryCount, hk, ?_⟩
  dsimp only at h
  split at h
  · obtain ⟨rfl, rfl⟩ := Prod.mk.inj (Option.some.inj h)
    exact .inl ⟨rfl, rfl⟩
  · obtain ⟨rfl, rfl⟩ := Prod.mk.inj (Option.some.inj h)
    exact .inr ⟨rfl, rfl⟩

theorem recordForReset_cases {k : Nat} (h : s.recordForReset k = some t) :
    ∃ i, s.readBack[k]? = some i ∧
      t = { s with readBack := s.readBack.eraseIdx k, statesToReset := s.statesToReset ++ [i] } := by
  obtain ⟨i, hi, h⟩ := Option.bind_eq_some_iff.mp h
  exact ⟨i, hi, (Option.some.inj h).symm⟩

private theorem probe_append (h : t.probes = s.probes ++ [({} : GPUProbe)]) :
    (∃ probe, t.probe p = some probe ∧ probe.index = some i) ↔
      ∃ probe, s.probe p = some probe ∧ probe.index = some i := by
  simp only [probe_eq_some, h]
  rcases lt_trichotomy p s.probes.length with hlt | rfl | hgt
  · rw [List.getElem?_append_left hlt]
  · simp
  · have hle : (s.probes ++ [({} : GPUProbe)]).length ≤ p := by simpa using hgt
    rw [List.getElem?_eq_none hle, List.getElem?_eq_none hgt.le]

private theorem probe_set {x : GPUProbe} (hp : s.probe p = some probe) (h : t.probes = s.probes.set p x) :
    t.probe q = if q = p then (some x).filter (!·.destroyed) else s.probe q := by
  obtain ⟨hp, -⟩ := probe_eq_some.mp hp
  obtain ⟨hlt, -⟩ := List.getElem?_eq_some_iff.mp hp
  unfold GPUTracer.probe
  rw [h, List.getElem?_set]
  by_cases hq : q = p
  · subst hq
    simp [hlt]
  · rw [if_neg (Ne.symm hq), if_neg hq]

end Calls

section Accounting

private theorem Accounted.same (h : s.Accounted g) (hstates : t.traceStates = s.traceStates) (hprobes : t.probes = s.probes)
    (henabled : t.enabled = s.enabled) (hidle : ∀ i ∈ t.statesToReset ++ t.completing, g i = ∅) : t.Accounted g where
  counts i := by rw [hstates, h.counts i]
  started p i := by
    rw [h.started p i, GPUTracer.probe, GPUTracer.probe, hprobes]
  bounded i := by
    rw [hstates]
    exact h.bounded i
  idle := hidle
  disabled hd := h.disabled (henabled ▸ hd)

/-- One trace state is changed, and the probes that are pending in it. -/
private theorem Accounted.updated {g' : PendingProbes} {state : GPUTraceState} (h : s.Accounted g)
    (hstates : t.traceStates = Function.update s.traceStates j state) (hother : ∀ i, i ≠ j → g' i = g i)
    (hcount : state.pendingBuffers = (g' j).card)
    (hbound : state.pendingBuffers ≤ state.currentIndex ∧ state.currentIndex ≤ kPoolSize)
    (hstarted : ∀ p i, p ∈ g' i ↔ ∃ probe, t.probe p = some probe ∧ probe.index = some i)
    (hidle : ∀ i ∈ t.statesToReset ++ t.completing, g' i = ∅) (hdisabled : t.enabled = false → ∀ i, g' i = ∅) :
    t.Accounted g' where
  counts i := by
    rw [hstates]
    by_cases hi : i = j
    · rw [hi, Function.update_self, hcount]
    · rw [Function.update_of_ne hi, hother i hi, h.counts]
  started := hstarted
  bounded i := by
    rw [hstates]
    by_cases hi : i = j
    · rw [hi, Function.update_self]
      exact hbound
    · rw [Function.update_of_ne hi]
      exact h.bounded i
  idle := hidle
  disabled := hdisabled

private theorem markFrameEnd_accounted (h : s.Accounted g) (hc : InFrame s .markFrameEnd t) : s.markFrameEnd.Accounted g := by
  unfold markFrameEnd
  dsimp only
  split
  · exact h.same rfl rfl rfl h.idle
  next henabled =>
    have hzero : (s.traceStates s.currentState.next).pendingBuffers = 0 := hc (by simpa using henabled)
    have hcount : 0 = (g s.currentState.next).card := by rw [← h.counts, hzero]
    exact h.updated rfl (fun _ _ => rfl) hcount ⟨le_rfl, Nat.zero_le _⟩ h.started h.idle h.disabled

private theorem createGPUProbe_accounted (h : s.Accounted g) : s.createGPUProbe.Accounted g :=
  ⟨h.counts, fun p i => (h.started p i).trans (probe_append rfl).symm, h.bounded, h.idle, h.disabled⟩

private theorem commands_start (h : s.recordCmdBufferStart p thread = some (commands, t)) :
    s.commands (.recordCmdBufferStart p thread) = commands := by simp [GPUTracer.commands, h]

private theorem commands_end (h : s.recordCmdBufferEnd p thread = some (commands, t)) :
    s.commands (.recordCmdBufferEnd p thread) = commands := by simp [GPUTracer.commands, h]

private theorem timestampStates_resets {l : List TraceIndex}
    (h : s.commands a = l.map .resetQueryPool ++ [.writeTimestamp i q]) : s.timestampStates a = [i] := by
  simp [timestampStates, h, List.filterMap_append, List.filterMap_map]

private theorem timestampStates_none {l : List TraceIndex} (h : s.commands a = l.map .resetQueryPool) :
    s.timestampStates a = [] := by
  simp [timestampStates, h, List.filterMap_map]

private theorem enabled_of_writes (h : s.writes thread = true) : s.enabled = true := by
  simp only [writes, records, Bool.and_eq_true] at h
  exact h.1.1.1

private theorem room_of_writes (h : s.writes thread = true) : (s.traceStates s.currentState).currentIndex < kPoolSize := by
  simp only [writes, Bool.and_eq_true, decide_eq_true_eq] at h
  exact h.2

/-- A probe without an index enters the current state. -/
private theorem started_accounted (h : s.Accounted g) (hprobe : s.probe p = some probe) (hnone : probe.index = none)
    (hcompleting : s.currentState ∉ s.completing) (hwrites : s.writes thread = true)
    (hstates : t.traceStates = Function.update s.traceStates s.currentState
      ⟨(s.traceStates s.currentState).currentIndex + 1, sizeAdd (s.traceStates s.currentState).pendingBuffers 1⟩)
    (hprobes : t.probes = s.probes.set p { probe with index := some s.currentState })
    (hreset : t.statesToReset = []) (hrest : t.completing = s.completing) (henabled : t.enabled = s.enabled) :
    t.Accounted fun i => if i = s.currentState then insert p (g i) else g i := by
  have hnot : ∀ i, p ∉ g i := by
    intro i hi
    obtain ⟨other, hother, hindex⟩ := (h.started p i).mp hi
    rw [hprobe] at hother
    rw [← Option.some.inj hother, hnone] at hindex
    cases hindex
  have hbound := h.bounded s.currentState
  have hroom := room_of_writes hwrites
  have hsum : sizeAdd (s.traceStates s.currentState).pendingBuffers 1 = (s.traceStates s.currentState).pendingBuffers + 1 := by
    apply sizeAdd_eq
    unfold kPoolSize at hroom
    omega
  have hlive : probe.destroyed = false := (probe_eq_some.mp hprobe).2
  apply h.updated hstates
  · intro i hi
    exact if_neg hi
  · rw [if_pos rfl, Finset.card_insert_of_notMem (hnot _), hsum, h.counts]
  · rw [hsum]
    exact ⟨Nat.succ_le_succ hbound.1, hroom⟩
  · intro q i
    rw [probe_set hprobe hprobes]
    by_cases hq : q = p
    · subst hq
      by_cases hi : i = s.currentState
      · simp [hi, hlive]
      · simp [hi, Ne.symm hi, hnot i, hlive]
    · rw [if_neg hq, ← h.started q i]
      by_cases hi : i = s.currentState
      · simp [hi, hq]
      · simp [hi]
  · intro i hi
    rw [hreset, hrest, List.nil_append] at hi
    rw [if_neg (ne_of_mem_of_not_mem hi hcompleting)]
    exact h.idle i (List.mem_append_right _ hi)
  · intro hdisabled
    rw [henabled, enabled_of_writes hwrites] at hdisabled
    cases hdisabled

private theorem start_accounted (h : s.Accounted g) (hc : InFrame s (.recordCmdBufferStart p thread) t)
    (ht : s.recordCmdBufferStart p thread = some (commands, t)) :
    t.Accounted (g.update s (.recordCmdBufferStart p thread) t) := by
  have hcommands := commands_start ht
  obtain ⟨probe, hprobe, hcases⟩ := recordCmdBufferStart_cases ht
  rcases hcases with ⟨_, hempty, hsame⟩ | ⟨_, _, hresets, hsame⟩ | ⟨hwrites, hwritten, hsame⟩
  · have hg : g.update s (.recordCmdBufferStart p thread) t = g := by
      simp [PendingProbes.update, timestampStates, hcommands, hempty]
    rw [hg, hsame]
    exact h
  · have hg : g.update s (.recordCmdBufferStart p thread) t = g := by
      simp [PendingProbes.update, timestampStates_none (hcommands.trans hresets)]
    rw [hg, hsame]
    exact h.same rfl rfl rfl fun i hi => h.idle i (List.mem_append_right _ hi)
  · have hg : g.update s (.recordCmdBufferStart p thread) t =
        fun i => if i = s.currentState then insert p (g i) else g i := by
      simp [PendingProbes.update, timestampStates_resets (hcommands.trans hwritten)]
    obtain ⟨hnone, hcompleting⟩ := hc hwrites
    rw [hg, hsame]
    exact started_accounted h hprobe (hnone probe hprobe) hcompleting hwrites rfl rfl rfl rfl rfl

private theorem end_accounted (h : s.Accounted g) (ht : s.recordCmdBufferEnd p thread = some (commands, t)) :
    t.Accounted g := by
  obtain ⟨probe, _, ⟨_, rfl⟩ | ⟨i, _, hwrites, _, rfl⟩⟩ := recordCmdBufferEnd_cases ht
  · exact h
  · have hbound := h.bounded s.currentState
    exact h.updated rfl (fun _ _ => rfl) (h.counts _) ⟨hbound.1.trans (Nat.le_succ _), room_of_writes hwrites⟩
      h.started h.idle h.disabled

private theorem started_erase (h : s.Accounted g) (hprobe : s.probe p = some probe)
    (hprobes : t.probes = s.probes.set p { probe with destroyed := true }) (q : Nat) (i : TraceIndex) :
    q ∈ (g i).erase p ↔ ∃ probe, t.probe q = some probe ∧ probe.index = some i := by
  rw [probe_set hprobe hprobes, Finset.mem_erase, h.started q i]
  by_cases hq : q = p
  · simp [hq]
  · simp [hq]

private theorem erase_idle {l : List TraceIndex} (h : ∀ i ∈ l, g i = ∅) : ∀ i ∈ l, (g i).erase p = ∅ := by
  intro i hi
  rw [h i hi, Finset.erase_empty]

/-- The count of a state with a pending probe does not wrap. -/
private theorem onFenceComplete_accounted (h : s.Accounted g) (hprobe : s.probe p = some probe) (hi : probe.index = some i)
    (htraces : t.traceStates = s.traceStates) (hprobes : t.probes = s.probes.set p { probe with destroyed := true })
    (hreset : t.statesToReset = s.statesToReset) (hcompleted : t.completed = s.completed)
    (hread : t.readBack = s.readBack) (henabled : t.enabled = s.enabled) :
    (t.onFenceComplete i).Accounted fun i => (g i).erase p := by
  have hmem : p ∈ g i := (h.started p i).mpr ⟨probe, hprobe, hi⟩
  have hon : s.enabled = true := by
    rw [← Bool.not_eq_false]
    intro hoff
    rw [h.disabled hoff i] at hmem
    exact Finset.notMem_empty p hmem
  have hbound := h.bounded i
  have hpos : 0 < (s.traceStates i).pendingBuffers := by
    rw [h.counts i]
    exact Finset.card_pos.mpr ⟨p, hmem⟩
  have hpending : sizeAdd (s.traceStates i).pendingBuffers 18446744073709551615 = (s.traceStates i).pendingBuffers - 1 := by
    unfold sizeAdd
    unfold kPoolSize at hbound
    omega
  have hcount : (s.traceStates i).pendingBuffers - 1 = ((g i).erase p).card := by
    rw [Finset.card_erase_of_mem hmem, h.counts]
  have hother : ∀ j, j ≠ i → (g j).erase p = g j := by
    intro j hj
    apply Finset.erase_eq_of_notMem
    intro hmem'
    obtain ⟨other, hother, hindex⟩ := (h.started p j).mp hmem'
    rw [hprobe] at hother
    rw [← Option.some.inj hother, hi] at hindex
    exact hj (Option.some.inj hindex).symm
  have hidle : ∀ j ∈ s.statesToReset ++ s.completing, (g j).erase p = ∅ := erase_idle h.idle
  unfold onFenceComplete
  rw [henabled, hon, if_neg (by decide), htraces]
  dsimp only
  rw [hpending]
  split
  next hzero =>
    refine h.updated rfl hother hcount ⟨(Nat.sub_le _ _).trans hbound.1, hbound.2⟩ (started_erase h hprobe ?_) ?_ ?_
    · exact hprobes
    · intro j hj
      rw [hreset, completing, hcompleted, hread, List.map_append] at hj
      simp only [List.mem_append, List.map_cons, List.map_nil, List.mem_singleton] at hj
      rcases hj with hj | (hj | rfl) | hj
      · exact hidle j (List.mem_append_left _ hj)
      · exact hidle j (List.mem_append_right _ (List.mem_append_left _ hj))
      · exact Finset.card_eq_zero.mp (hcount.symm.trans hzero)
      · exact hidle j (List.mem_append_right _ (List.mem_append_right _ hj))
    · intro hoff
      cases hoff
  · refine h.updated rfl hother hcount ⟨(Nat.sub_le _ _).trans hbound.1, hbound.2⟩ (started_erase h hprobe ?_) ?_ ?_
    · exact hprobes
    · rw [hreset, completing, hcompleted, hread]
      exact hidle
    · intro hoff
      cases hoff

private theorem destroy_accounted (h : s.Accounted g) (ht : s.destroyProbe p = some t) :
    t.Accounted fun i => (g i).erase p := by
  obtain ⟨probe, hprobe, hcases⟩ := destroyProbe_cases ht
  rcases hcases with ⟨hnone, rfl⟩ | ⟨i, hi, rfl⟩
  · have hnot : ∀ i, (g i).erase p = g i := by
      intro i
      apply Finset.erase_eq_of_notMem
      intro hmem
      obtain ⟨other, hother, hindex⟩ := (h.started p i).mp hmem
      rw [hprobe] at hother
      rw [← Option.some.inj hother, hnone] at hindex
      cases hindex
    have hstarted := started_erase (t := { s with probes := s.probes.set p { probe with destroyed := true } }) h hprobe rfl
    simp only [hnot] at hstarted ⊢
    exact ⟨h.counts, hstarted, h.bounded, h.idle, h.disabled⟩
  · exact onFenceComplete_accounted h hprobe hi rfl rfl rfl rfl rfl rfl

private theorem getQueryPoolResults_accounted {k : Nat} {context : Bool} {read : Option (TraceIndex × Nat)}
    (h : s.Accounted g) (ht : s.getQueryPoolResults k context = some (read, t)) :
    t.Accounted g ∧ ∀ r ∈ read, g r.1 = ∅ := by
  obtain ⟨i, queryCount, hk, hcases⟩ := getQueryPoolResults_cases ht
  have hi : g i = ∅ := by
    apply h.idle
    have hmem : i ∈ s.completed.map (·.1) := List.mem_map.mpr ⟨_, List.mem_of_getElem? hk, rfl⟩
    exact List.mem_append_right _ (List.mem_append_left _ hmem)
  have hrest : ∀ j, j ∈ s.statesToReset ∨ j ∈ (s.completed.eraseIdx k).map (·.1) ∨ j ∈ s.readBack → g j = ∅ := by
    intro j hj
    apply h.idle
    rcases hj with hj | hj | hj
    · exact List.mem_append_left _ hj
    · obtain ⟨r, hr, rfl⟩ := List.mem_map.mp hj
      have hmem : r.1 ∈ s.completed.map (·.1) := List.mem_map.mpr ⟨r, List.mem_of_mem_eraseIdx hr, rfl⟩
      exact List.mem_append_right _ (List.mem_append_left _ hmem)
    · exact List.mem_append_right _ (List.mem_append_right _ hj)
  rcases hcases with ⟨rfl, rfl⟩ | ⟨rfl, rfl⟩
  · refine ⟨h.same rfl rfl rfl fun j hj => ?_, fun r hr => ?_⟩
    · simp only [completing, List.mem_append, List.mem_singleton] at hj
      rcases hj with hj | hj | hj | rfl
      · exact hrest j (.inl hj)
      · exact hrest j (.inr (.inl hj))
      · exact hrest j (.inr (.inr hj))
      · exact hi
    · obtain rfl := Option.some.inj hr
      exact hi
  · refine ⟨h.same rfl rfl rfl fun j hj => ?_, nofun⟩
    simp only [completing, List.mem_append] at hj
    exact hrest j hj

private theorem recordForReset_accounted {k : Nat} (h : s.Accounted g) (ht : s.recordForReset k = some t) :
    t.Accounted g := by
  obtain ⟨i, hi, rfl⟩ := recordForReset_cases ht
  refine h.same rfl rfl rfl fun j hj => h.idle j ?_
  simp only [completing, List.mem_append, List.mem_singleton] at hj ⊢
  rcases hj with (hj | rfl) | hj | hj
  · exact .inl hj
  · exact .inr (.inr (List.mem_of_getElem? hi))
  · exact .inr (.inl hj)
  · exact .inr (.inr (List.mem_of_mem_eraseIdx hj))

/-- The pools that are reset are idle, and so is the one that is read back. -/
private theorem usedPools_idle (h : s.Accounted g) (ht : s.step a = some t) : ∀ i ∈ s.usedPools a, g i = ∅ := by
  cases a with
  | recordCmdBufferStart p thread =>
    obtain ⟨⟨commands, u⟩, hu, rfl⟩ := Option.map_eq_some_iff.mp ht
    have hcommands := commands_start hu
    have hreset : ∀ i ∈ s.statesToReset, g i = ∅ := fun i hi => h.idle i (List.mem_append_left _ hi)
    obtain ⟨probe, _, ⟨_, rfl, _⟩ | ⟨_, _, rfl, _⟩ | ⟨_, rfl, _⟩⟩ := recordCmdBufferStart_cases hu
    · simp [usedPools, hcommands]
    · simpa [usedPools, hcommands, List.filterMap_map] using hreset
    · simpa [usedPools, hcommands, List.filterMap_append, List.filterMap_map] using hreset
  | recordCmdBufferEnd p thread =>
    obtain ⟨⟨commands, u⟩, hu, rfl⟩ := Option.map_eq_some_iff.mp ht
    have hcommands := commands_end hu
    obtain ⟨probe, _, ⟨rfl, _⟩ | ⟨_, _, _, rfl, _⟩⟩ := recordCmdBufferEnd_cases hu
    · simp [usedPools, hcommands]
    · simp [usedPools, hcommands]
  | getQueryPoolResults k context =>
    obtain ⟨⟨read, u⟩, hu, rfl⟩ := Option.map_eq_some_iff.mp ht
    intro i hi
    obtain ⟨r, hr, rfl⟩ : ∃ r ∈ read, r.1 = i := by simpa [usedPools, hu] using hi
    exact (getQueryPoolResults_accounted h hu).2 r hr
  | _ => simp [usedPools, GPUTracer.commands]

private theorem end_sameState (h : s.Accounted g) (hc : InFrame s (.recordCmdBufferEnd p thread) t)
    (ht : s.recordCmdBufferEnd p thread = some (commands, u)) :
    ∀ i ∈ s.timestampStates (.recordCmdBufferEnd p thread), p ∈ g i := by
  have hcommands := commands_end ht
  obtain ⟨probe, hprobe, ⟨rfl, _⟩ | ⟨i, hi, hwrites, rfl, _⟩⟩ := recordCmdBufferEnd_cases ht
  · simp [timestampStates, hcommands]
  · have hcurrent : i = s.currentState := hc hwrites probe hprobe i hi
    have hmem : p ∈ g s.currentState := (h.started p _).mpr ⟨probe, hprobe, hcurrent ▸ hi⟩
    simpa [timestampStates, hcommands] using hmem

theorem Accounted.step (h : s.Accounted g) (hc : InFrame s a t) (ht : s.step a = some t) :
    Sound (s, g) a (t, g.update s a t) ∧ t.Accounted (g.update s a t) := by
  refine ⟨⟨usedPools_idle h ht, ?_⟩, ?_⟩
  · rintro p thread rfl
    obtain ⟨⟨commands, u⟩, hu, rfl⟩ := Option.map_eq_some_iff.mp ht
    exact end_sameState h hc hu
  cases a with
  | markFrameStart thread =>
    obtain rfl := Option.some.inj ht
    unfold markFrameStart
    split
    · exact h
    · exact h.same rfl rfl rfl h.idle
  | markFrameEnd =>
    obtain rfl := Option.some.inj ht
    exact markFrameEnd_accounted h hc
  | createGPUProbe =>
    obtain rfl := Option.some.inj ht
    exact createGPUProbe_accounted h
  | recordCmdBufferStart p thread =>
    obtain ⟨⟨commands, u⟩, hu, rfl⟩ := Option.map_eq_some_iff.mp ht
    exact start_accounted h hc hu
  | recordCmdBufferEnd p thread =>
    obtain ⟨⟨commands, u⟩, hu, rfl⟩ := Option.map_eq_some_iff.mp ht
    exact end_accounted h hu
  | destroyProbe p => exact destroy_accounted h ht
  | getQueryPoolResults k context =>
    obtain ⟨⟨read, u⟩, hu, rfl⟩ := Option.map_eq_some_iff.mp ht
    exact (getQueryPoolResults_accounted h hu).1
  | recordForReset k => exact recordForReset_accounted h ht

theorem init_accounted (enabled : Bool) : Accounted { enabled } fun _ => ∅ where
  counts _ := rfl
  started _ _ := by simp [GPUTracer.probe]
  bounded _ := ⟨le_rfl, Nat.zero_le _⟩
  idle _ _ := rfl
  disabled _ _ := rfl

end Accounting

/-- Along a run whose calls keep to their frames, each state counts the probes that are pending
in it, idle pools only are reset and read back, and an end is written where its start is. -/
theorem accounted_of_run (enabled : Bool) (labels : List Label) (s : GPUTracer) (g : PendingProbes)
    (hr : (machine enabled).run labels = some (s, g))
    (hc : (⟨{ enabled }, step⟩ : Machine _ _).Along InFrame { enabled } labels) :
    (∀ i, (s.traceStates i).pendingBuffers = (g i).card) ∧
      (machine enabled).Along Sound (machine enabled).init labels := by
  have hstep (r : GPUTracer × PendingProbes) (a : Label) (r' : GPUTracer × PendingProbes) (h : r.1.Accounted r.2)
      (hc : InFrame r.1 a r'.1) (ht : (machine enabled).step r a = some r') : Sound r a r' ∧ r'.1.Accounted r'.2 := by
    obtain ⟨ht, hg⟩ := Machine.withHistory_step ht
    have h := h.step hc ht
    rw [← hg] at h
    exact h
  have hc' : (machine enabled).Along (fun r a r' => InFrame r.1 a r'.1) (machine enabled).init labels :=
    Machine.along_withHistory.mpr hc
  constructor
  · have h : s.Accounted g := by
      apply Machine.invariant_along (I := fun r : GPUTracer × PendingProbes => r.1.Accounted r.2) _ _ hc' hr
      · exact fun r a r' h hc ht => (hstep r a r' h hc ht).2
      · exact init_accounted enabled
    exact h.counts
  · exact Machine.along_of_invariant hstep (init_accounted enabled) hc'

/-- Two buffers of one frame, and then one of the next, before which the first pool is reset. -/
def framesRun : List Label :=
  [.createGPUProbe, .markFrameStart 0, .recordCmdBufferStart 0 0, .createGPUProbe, .recordCmdBufferStart 1 0,
    .recordCmdBufferEnd 1 0, .recordCmdBufferEnd 0 0, .markFrameEnd, .destroyProbe 1, .destroyProbe 0,
    .getQueryPoolResults 0 true, .recordForReset 0, .markFrameStart 0, .createGPUProbe, .recordCmdBufferStart 2 0]

theorem accounted_framesRun : ∃ s g, (machine true).run framesRun = some (s, g) ∧
    (s.traceStates 1).pendingBuffers = 1 ∧ (s.traceStates 0).pendingBuffers = 0 ∧ s.statesToReset = [] ∧
    (machine true).Along Sound (machine true).init framesRun := by
  have hr : (machine true).run framesRun = some (_, _) := rfl
  obtain ⟨hcounts, hsound⟩ := accounted_of_run true framesRun _ _ hr (by decide)
  exact ⟨_, _, hr, hcounts 1, hcounts 0, rfl, hsound⟩

/-- The frame is over before the buffer is. -/
def straddlingRun : List Label := [.createGPUProbe, .markFrameStart 0, .recordCmdBufferStart 0 0, .markFrameEnd, .markFrameStart 0]

/-- The buffer has not completed when its state comes round again. -/
def wrappingRun : List Label :=
  [.createGPUProbe, .markFrameStart 0, .recordCmdBufferStart 0 0] ++ List.replicate 16 .markFrameEnd ++ [.destroyProbe 0]

/-- A second buffer starts between the two halves of the completion of the first. -/
def racingRun : List Label :=
  [.createGPUProbe, .markFrameStart 0, .recordCmdBufferStart 0 0, .destroyProbe 0, .createGPUProbe,
    .recordCmdBufferStart 1 0]

theorem unaccounted_runs :
    (∃ s g, (machine true).run straddlingRun = some (s, g) ∧ g 0 = {0} ∧ g 1 = ∅ ∧
      s.timestampStates (.recordCmdBufferEnd 0 0) = [1]) ∧
    (∃ s g, (machine true).run wrappingRun = some (s, g) ∧ g 0 = ∅ ∧
      (s.traceStates 0).pendingBuffers = 18446744073709551615) ∧
    ∃ s g, (machine true).run racingRun = some (s, g) ∧ g 0 = {1} ∧ s.usedPools (.getQueryPoolResults 0 true) = [0] := by
  have hs : (machine true).run straddlingRun = some (_, _) := rfl
  have hw : (machine true).run wrappingRun = some (_, _) := rfl
  have hr : (machine true).run racingRun = some (_, _) := rfl
  exact ⟨⟨_, _, hs, by decide, by decide, by decide⟩, ⟨_, _, hw, by decide, by decide⟩, _, _, hr, by decide, by decide⟩

end Ogre.Hal.GPUTracer
