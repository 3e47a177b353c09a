import Ogre.Fml.MessageLoopProgress

/-! A thread with a loop. Who joins it has the loop terminated by a closure, and waits until the thread has
returned. -/
namespace Ogre.Fml
open Ogre.Library

namespace MessageLoopLinux
variable {α : Type} {terminates : α → Bool} {s t : MessageLoopLinux α} {a : Label α} {g : Log α}

/-- Where the thread of a terminated loop may be. -/
def Halting (s : MessageLoopLinux α) : Prop :=
  s.impl.terminated = true →
    (∃ now last, s.impl.phase = .flushing .kAll now last ∧ (last = false → s.running = false)) ∨
      (s.isAt .looping = true ∧ s.running = false) ∨ s.impl.phase = .disposing ∨ s.impl.phase = .returned

private theorem Halting.kept (h : s.Halting) (hphase : t.impl.phase = s.impl.phase) (hstage : t.stage = s.stage)
    (hrunning : t.running = s.running) (hterminated : t.impl.terminated = s.impl.terminated) : t.Halting := by
  unfold Halting isAt at h ⊢
  rwa [hphase, hstage, hrunning, hterminated]

/-- In its own loop, the thread of a terminated loop is where it stops. -/
private theorem Halting.stops {stage : Stage} (h : s.Halting) (hat : s.isAt stage = true)
    (hterm : s.impl.terminated = true) : stage = .looping ∧ s.running = false := by
  obtain ⟨hphase, hstage⟩ := isAt_iff.mp hat
  rcases h hterm with ⟨now, last, hf, -⟩ | ⟨hlooping, hstopped⟩ | hdisposing | hreturned
  · cases hphase.symm.trans hf
  · exact ⟨hstage.symm.trans (isAt_iff.mp hlooping).2, hstopped⟩
  · cases hphase.symm.trans hdisposing
  · cases hphase.symm.trans hreturned

theorem Halting.step (hh : s.Halting) (h : Steady s g) (hc : Undisturbed s a t) (hs : s.step terminates a = some t) :
    t.Halting := by
  cases a with
  | postTask post =>
    obtain rfl := Option.some.inj hs
    unfold MessageLoopImpl.postTask
    split
    · exact hh
    · exact hh.kept rfl rfl rfl rfl
  | registerTask i =>
    obtain ⟨impl, himpl, rfl⟩ := Option.map_eq_some_iff.mp hs
    obtain ⟨post, -, himpl⟩ := Option.bind_eq_some_iff.mp himpl
    obtain ⟨u, -, himpl⟩ := Option.bind_eq_some_iff.mp himpl
    obtain rfl := Option.some.inj himpl
    exact hh.kept rfl rfl rfl rfl
  | queues b =>
    obtain ⟨u, -, rfl⟩ := Option.map_eq_some_iff.mp (Option.ite_none_left_eq_some.mp hs).2
    exact hh.kept rfl rfl rfl rfl
  | tick d =>
    obtain rfl := Option.some.inj hs
    exact hh.kept rfl rfl rfl rfl
  | doRun =>
    obtain ⟨impl, himpl, rfl⟩ := Option.map_eq_some_iff.mp (Option.ite_none_left_eq_some.mp hs).2
    unfold MessageLoopImpl.doRun at himpl
    split at himpl
    · obtain rfl := Option.some.inj himpl
      exact fun hterm => .inr (.inr (.inr (if_pos hterm)))
    · obtain rfl := Option.some.inj himpl
      exact fun hterm => .inr (.inr (.inr (if_pos hterm)))
    · cases himpl
  | enterRun | epollWait | timerDrain =>
    obtain ⟨hat, hs⟩ := Option.ite_none_right_eq_some.mp hs
    obtain rfl := Option.some.inj hs
    intro hterm
    cases (hh.stops (by first | exact hat | exact (Bool.and_eq_true_iff.mp hat).1) hterm).1
  | epollFails => exact absurd hc.2 id
  | checkRunning =>
    obtain ⟨hat, hs⟩ := Option.ite_none_right_eq_some.mp hs
    split at hs
    next hrunning =>
      obtain rfl := Option.some.inj hs
      intro hterm
      exact absurd ((hh.stops hat hterm).2.symm.trans hrunning) Bool.false_ne_true
    · obtain ⟨impl, himpl, rfl⟩ := Option.map_eq_some_iff.mp hs
      simp only [MessageLoopImpl.runReturns, (isAt_iff.mp hat).1, Option.some.injEq] at himpl
      subst himpl
      exact fun _ => .inl ⟨_, true, rfl, fun hlast => (by cases hlast)⟩
  | runExpiredTasksNow =>
    obtain ⟨hat, hs⟩ := Option.ite_none_right_eq_some.mp hs
    obtain ⟨impl, himpl, rfl⟩ := Option.map_eq_some_iff.mp hs
    simp only [MessageLoopImpl.runExpiredTasks, (isAt_iff.mp hat).1, Option.some.injEq] at himpl
    subst himpl
    intro hterm
    cases (hh.stops hat hterm).1
  | flushTask =>
    obtain ⟨r, hr, rfl⟩ := Option.map_eq_some_iff.mp (Option.ite_none_left_eq_some.mp hs).2
    obtain ⟨now, last, u, hphase, -, himpl, -⟩ := h.turn hr
    have hlooping := (h.flushing now last hphase).1
    rw [himpl]
    intro hterm
    have hstopped : last = false → s.running = false := by
      rcases hh hterm with ⟨now', last', hf, hstopped⟩ | ⟨hat, -⟩ | hdisposing | hreturned
      · cases hphase.symm.trans hf
        exact hstopped
      · cases hphase.symm.trans (isAt_iff.mp hat).1
      · cases hphase.symm.trans hdisposing
      · cases hphase.symm.trans hreturned
    obtain ⟨task, impl⟩ := r
    cases task with
    | some x => exact .inl ⟨now, last, hphase, hstopped⟩
    | none =>
      cases last with
      | true => exact .inr (.inr (.inl rfl))
      | false => exact .inr (.inl ⟨isAt_iff.mpr ⟨rfl, hlooping⟩, hstopped rfl⟩)
  | doTerminate =>
    obtain ⟨hi, hs⟩ := Option.ite_none_right_eq_some.mp hs
    obtain rfl := Option.some.inj hs
    obtain ⟨now, last, hphase⟩ := h.begun hi
    exact fun _ => .inl ⟨now, last, hphase, fun _ => rfl⟩
  | disposeTasks =>
    obtain ⟨impl, himpl, rfl⟩ := Option.map_eq_some_iff.mp (Option.ite_none_left_eq_some.mp hs).2
    unfold MessageLoopImpl.disposeTasks at himpl
    split at himpl
    · obtain ⟨u, -, himpl⟩ := Option.bind_eq_some_iff.mp himpl
      obtain rfl := Option.some.inj himpl
      exact fun _ => .inr (.inr (.inr rfl))
    · cases himpl

/-- How far the thread of a terminated loop is from its return: it runs no more than the tasks that are left. -/
def toEnd (s : MessageLoopLinux α) : Nat :=
  2 * (s.pending.card + s.impl.posting.length) + s.invoking.toNat + match s.impl.phase with
    | .flushing _ _ false => 4
    | .running => 3
    | .flushing _ _ true => 2
    | .disposing => 1
    | .idle | .returned => 0

structure Ending (s : MessageLoopLinux α) (g : Log α) : Prop where
  steady : Steady s g
  halting : s.Halting
  terminated : s.impl.terminated = true
  notReturned : s.impl.phase ≠ .returned

theorem Ending.place (h : Ending s g) : (∃ now last, s.impl.phase = .flushing .kAll now last) ∨
    (s.isAt .looping = true ∧ s.running = false) ∨ s.impl.phase = .disposing := by
  rcases h.halting h.terminated with ⟨now, last, hphase, -⟩ | hlooping | hdisposing | hreturned
  · exact .inl ⟨now, last, hphase⟩
  · exact .inr (.inl hlooping)
  · exact .inr (.inr hdisposing)
  · exact absurd hreturned h.notReturned

theorem Ending.exists_step (h : Ending s g) : ∃ a, ofThread a = true ∧ (s.step terminates a).isSome := by
  by_cases hi : s.invoking = true
  · exact ⟨.doTerminate, rfl, by simp [MessageLoopLinux.step, hi]⟩
  rcases h.place with ⟨now, last, hphase⟩ | ⟨hat, hstopped⟩ | hphase
  · obtain ⟨r, u, hu, -⟩ := h.steady.lone.turn h.steady.timed.sound now
    exact ⟨.flushTask, rfl, by simp [MessageLoopLinux.step, hi, MessageLoopImpl.flushTask, hphase, hu]⟩
  · refine ⟨.checkRunning, rfl, ?_⟩
    simp [MessageLoopLinux.step, hat, hstopped, MessageLoopImpl.runReturns, (isAt_iff.mp hat).1]
  · obtain ⟨e, he, -, hone, -⟩ := h.steady.lone
    refine ⟨.disposeTasks, rfl, ?_⟩
    simp [MessageLoopLinux.step, hi, MessageLoopImpl.disposeTasks, hphase, MessageLoopTaskQueues.disposeTasks, he,
      hone]

/-- Each step of the thread brings it nearer to its return, or it returns. -/
theorem Ending.thread_step (h : Ending s g) (ha : ofThread a = true) (hs : s.step terminates a = some t) :
    t.impl.phase = .returned ∨ toEnd t < toEnd s := by
  have hnot {stage : Stage} (hat : s.isAt stage = true) (hne : stage ≠ .looping) : False :=
    hne (h.halting.stops hat h.terminated).1
  cases a with
  | doRun =>
    obtain ⟨impl, himpl, -⟩ := Option.map_eq_some_iff.mp (Option.ite_none_left_eq_some.mp hs).2
    rcases h.place with ⟨now, last, hphase⟩ | ⟨hat, -⟩ | hphase
    · simp [MessageLoopImpl.doRun, hphase] at himpl
    · simp [MessageLoopImpl.doRun, (isAt_iff.mp hat).1] at himpl
    · simp [MessageLoopImpl.doRun, hphase] at himpl
  | enterRun => exact (hnot (Option.ite_none_right_eq_some.mp hs).1 (by simp)).elim
  | timerDrain => exact (hnot (Option.ite_none_right_eq_some.mp hs).1 (by simp)).elim
  | runExpiredTasksNow => exact (hnot (Option.ite_none_right_eq_some.mp hs).1 (by simp)).elim
  | epollWait => exact (hnot (Bool.and_eq_true_iff.mp (Option.ite_none_right_eq_some.mp hs).1).1 (by simp)).elim
  | checkRunning =>
    obtain ⟨hat, hs⟩ := Option.ite_none_right_eq_some.mp hs
    rw [(h.halting.stops hat h.terminated).2] at hs
    obtain ⟨impl, himpl, rfl⟩ := Option.map_eq_some_iff.mp hs
    have hphase := (isAt_iff.mp hat).1
    simp only [MessageLoopImpl.runReturns, hphase, Option.some.injEq] at himpl
    subst himpl
    refine .inr ?_
    rw [toEnd, toEnd, hphase]
    exact Nat.lt_succ_self _
  | flushTask =>
    obtain ⟨hi, hs⟩ := Option.ite_none_left_eq_some.mp hs
    obtain ⟨r, hr, rfl⟩ := Option.map_eq_some_iff.mp hs
    obtain ⟨now, last, u, hphase, -, himpl, hturn⟩ := h.steady.turn hr
    have hi : s.invoking = false := Bool.eq_false_iff.mpr hi
    rw [himpl]
    refine .inr ?_
    obtain ⟨task, impl⟩ := r
    cases task with
    | none =>
      have hpending : u.pending s.impl.queueId = s.pending := hturn.2
      cases last with
      | false =>
        change 2 * ((u.pending s.impl.queueId).card + s.impl.posting.length) + 0 + 3 < _
        rw [hpending, toEnd, hphase, hi]
        exact Nat.lt_succ_self _
      | true =>
        change 2 * ((u.pending s.impl.queueId).card + s.impl.posting.length) + 0 + 1 < _
        rw [hpending, toEnd, hphase, hi]
        exact Nat.lt_succ_self _
    | some x =>
      have hcard : s.pending.card = (u.pending s.impl.queueId).card + 1 := by
        rw [hturn.2.2, Multiset.card_cons]
      have hle : (terminates x.task).toNat ≤ 1 := Bool.toNat_le _
      have hend (v : MessageLoopLinux α) (hp : v.pending = u.pending s.impl.queueId)
          (hposting : v.impl.posting = s.impl.posting) (hv : v.impl.phase = s.impl.phase)
          (hvi : v.invoking = terminates x.task) : toEnd v < toEnd s := by
        rw [toEnd, toEnd, hp, hposting, hv, hvi, hcard, hi]
        simp only [Bool.toNat_false]
        omega
      exact hend _ rfl rfl rfl rfl
  | doTerminate =>
    obtain ⟨hi, hs⟩ := Option.ite_none_right_eq_some.mp hs
    obtain rfl := Option.some.inj hs
    refine .inr ?_
    have hend (v : MessageLoopLinux α) (hp : v.pending = s.pending) (hposting : v.impl.posting = s.impl.posting)
        (hv : v.impl.phase = s.impl.phase) (hvi : v.invoking = false) : toEnd v < toEnd s := by
      rw [toEnd, toEnd, hp, hposting, hv, hvi, hi]
      simp only [Bool.toNat_false, Bool.toNat_true]
      omega
    exact hend _ rfl rfl rfl rfl
  | disposeTasks =>
    obtain ⟨impl, himpl, rfl⟩ := Option.map_eq_some_iff.mp (Option.ite_none_left_eq_some.mp hs).2
    unfold MessageLoopImpl.disposeTasks at himpl
    split at himpl
    · obtain ⟨u, -, himpl⟩ := Option.bind_eq_some_iff.mp himpl
      obtain rfl := Option.some.inj himpl
      exact .inl rfl
    · cases himpl
  | postTask _ | registerTask _ | queues _ | epollFails | tick _ => cases ha

/-- A terminated loop accepts no more tasks. -/
theorem Ending.other_step (h : Ending s g) (ha : ofThread a = false) (hc : Undisturbed s a t)
    (hs : s.step terminates a = some t) : t.impl.phase = s.impl.phase ∧ toEnd t = toEnd s := by
  cases a with
  | postTask post =>
    obtain rfl := Option.some.inj hs
    have hsame : s.impl.postTask post = s.impl := if_pos h.terminated
    rw [hsame]
    exact ⟨rfl, rfl⟩
  | registerTask i =>
    obtain ⟨impl, himpl, rfl⟩ := Option.map_eq_some_iff.mp hs
    obtain ⟨post, hpost, himpl⟩ := Option.bind_eq_some_iff.mp himpl
    obtain ⟨u, hu, himpl⟩ := Option.bind_eq_some_iff.mp himpl
    obtain rfl := Option.some.inj himpl
    have hpending := MessageLoopTaskQueues.pending_registerTask (t := u) hu
    obtain ⟨hlt, -⟩ := List.getElem?_eq_some_iff.mp hpost
    have hlength := List.length_eraseIdx_add_one hlt
    refine ⟨rfl, congrArg (· + s.invoking.toNat + _) (congrArg (2 * ·) ?_)⟩
    change (u.pending s.impl.queueId).card + (s.impl.posting.eraseIdx i).length = s.pending.card + s.impl.posting.length
    rw [hpending, Multiset.card_cons, ← hlength, pending]
    omega
  | queues b =>
    obtain ⟨u, hu, rfl⟩ := Option.map_eq_some_iff.mp (Option.ite_none_left_eq_some.mp hs).2
    have hsound := h.steady.timed.sound
    have hentry := h.steady.lone.apart hsound.merged.toMerged hsound.own hsound.fresh hc.2 hu
    have hpending : u.pending s.impl.queueId = s.pending := by
      rw [MessageLoopTaskQueues.pending, hentry]
      rfl
    refine ⟨rfl, congrArg (· + s.invoking.toNat + _) (congrArg (2 * ·) ?_)⟩
    change (u.pending s.impl.queueId).card + s.impl.posting.length = _
    rw [hpending]
  | epollFails => exact absurd hc.2 id
  | tick d =>
    obtain rfl := Option.some.inj hs
    exact ⟨rfl, rfl⟩
  | doRun | enterRun | checkRunning | epollWait | timerDrain | runExpiredTasksNow | flushTask | doTerminate
  | disposeTasks => cases ha

/-- What a loop that stops after some time has done by its end: all that was registered and due by then was run. -/
def Served (registered : List (Post α)) (time : Nat) (s : MessageLoopLinux α) (g : Log α) : Prop :=
  (∀ now, s.impl.phase = .flushing .kAll now true → (time : Int) ≤ now) ∧
    (s.impl.phase = .disposing ∨ s.impl.phase = .returned →
      (registered.filter fun post => post.targetTime ≤ (time : Int)).Subperm (g.ran.map (·.1)))

private theorem Served.kept {registered : List (Post α)} {time : Nat} (h : Served registered time s g)
    (hphase : t.impl.phase = s.impl.phase) : Served registered time t g := by
  unfold Served at h ⊢
  rwa [hphase]

private theorem Served.of_running {registered : List (Post α)} {time : Nat} (hphase : t.impl.phase = .running) :
    Served registered time t g := by
  refine ⟨fun now hf => ?_, fun hend => ?_⟩
  · cases hphase.symm.trans hf
  · rcases hend with hend | hend <;> cases hphase.symm.trans hend

theorem Served.step {registered : List (Post α)} {time : Nat} (hh : Served registered time s g) (h : Steady s g)
    (htime : time ≤ s.now) (hregistered : registered.Subperm g.registered) (hhalting : s.Halting)
    (hc : Undisturbed s a t)
    (hs : s.step terminates a = some t) : Served registered time t (record s a t g) := by
  cases a with
  | postTask post =>
    obtain rfl := Option.some.inj hs
    refine hh.kept ?_
    unfold MessageLoopImpl.postTask
    split <;> rfl
  | registerTask i =>
    obtain ⟨impl, himpl, rfl⟩ := Option.map_eq_some_iff.mp hs
    obtain ⟨post, -, himpl⟩ := Option.bind_eq_some_iff.mp himpl
    obtain ⟨u, -, himpl⟩ := Option.bind_eq_some_iff.mp himpl
    obtain rfl := Option.some.inj himpl
    exact hh.kept rfl
  | queues b =>
    obtain ⟨u, -, rfl⟩ := Option.map_eq_some_iff.mp (Option.ite_none_left_eq_some.mp hs).2
    exact hh.kept rfl
  | tick d =>
    obtain rfl := Option.some.inj hs
    exact hh.kept rfl
  | enterRun | epollWait | timerDrain | doTerminate =>
    obtain ⟨-, hs⟩ := Option.ite_none_right_eq_some.mp hs
    obtain rfl := Option.some.inj hs
    exact hh.kept rfl
  | epollFails => exact absurd hc.2 id
  | doRun =>
    obtain ⟨hi, hs⟩ := Option.ite_none_left_eq_some.mp hs
    obtain ⟨impl, himpl, rfl⟩ := Option.map_eq_some_iff.mp hs
    by_cases hterm : s.impl.terminated = true
    · refine hh.kept ?_
      rcases hhalting hterm with ⟨now, last, hphase, -⟩ | ⟨hat, -⟩ | hphase | hphase
      · simp [MessageLoopImpl.doRun, hphase] at himpl
      · simp [MessageLoopImpl.doRun, (isAt_iff.mp hat).1] at himpl
      · simp [MessageLoopImpl.doRun, hphase] at himpl
      · simp only [MessageLoopImpl.doRun, hphase, hterm, if_true, Option.some.injEq] at himpl
        exact himpl ▸ hphase.symm
    · unfold MessageLoopImpl.doRun at himpl
      split at himpl
      · obtain rfl := Option.some.inj himpl
        exact .of_running (if_neg hterm)
      · obtain rfl := Option.some.inj himpl
        exact .of_running (if_neg hterm)
      · cases himpl
  | checkRunning =>
    obtain ⟨hat, hs⟩ := Option.ite_none_right_eq_some.mp hs
    split at hs
    · obtain rfl := Option.some.inj hs
      exact hh.kept rfl
    · obtain ⟨impl, himpl, rfl⟩ := Option.map_eq_some_iff.mp hs
      simp only [MessageLoopImpl.runReturns, (isAt_iff.mp hat).1, Option.some.injEq] at himpl
      subst himpl
      refine ⟨fun now hf => ?_, fun hend => ?_⟩
      · cases hf
        exact Int.ofNat_le.mpr htime
      · rcases hend with hend | hend <;> cases hend
  | runExpiredTasksNow =>
    obtain ⟨hat, hs⟩ := Option.ite_none_right_eq_some.mp hs
    obtain ⟨impl, himpl, rfl⟩ := Option.map_eq_some_iff.mp hs
    simp only [MessageLoopImpl.runExpiredTasks, (isAt_iff.mp hat).1, Option.some.injEq] at himpl
    subst himpl
    refine ⟨fun now hf => (by cases hf), fun hend => ?_⟩
    rcases hend with hend | hend <;> cases hend
  | flushTask =>
    obtain ⟨r, hr, rfl⟩ := Option.map_eq_some_iff.mp (Option.ite_none_left_eq_some.mp hs).2
    obtain ⟨now, last, u, hphase, -, himpl, hturn⟩ := h.turn hr
    have hran (t) : (record s .flushTask t g).ran = g.ran ++ (r.1.map fun task => (task.post, s.now)).toList := by
      simp [record, hr]
    rw [himpl]
    obtain ⟨task, impl⟩ := r
    cases task with
    | some x =>
      have hflushing (v : MessageLoopLinux α) (hv : v.impl.phase = s.impl.phase) (g') :
        Served registered time v g' := by
        refine ⟨fun now' hf => hh.1 now' (hv ▸ hf), fun hend => ?_⟩
        rw [hv, hphase] at hend
        rcases hend with hend | hend <;> cases hend
      exact hflushing _ rfl _
    | none =>
      cases last with
      | false => exact .of_running rfl
      | true =>
        refine ⟨fun now' hf => (by cases hf), fun _ => ?_⟩
        have hlate : ∀ x ∈ s.pending, (time : Int) < x.targetTime :=
          fun x hx => (hh.1 now hphase).trans_lt (hturn.1 x hx)
        rw [hran, Option.map_none, Option.toList_none, List.append_nil]
        exact h.served (by simp [hphase]) hregistered hlate
  | disposeTasks =>
    obtain ⟨impl, himpl, rfl⟩ := Option.map_eq_some_iff.mp (Option.ite_none_left_eq_some.mp hs).2
    unfold MessageLoopImpl.disposeTasks at himpl
    split at himpl
    next hphase =>
      obtain ⟨u, -, himpl⟩ := Option.bind_eq_some_iff.mp himpl
      obtain rfl := Option.some.inj himpl
      exact ⟨fun now hf => (by cases hf), fun _ => hh.2 (.inl hphase)⟩
    · cases himpl

theorem Steady.terminated_stays (h : Steady s g) (hterm : s.impl.terminated = true)
    (hs : s.step terminates a = some t) :
    t.impl.terminated = true := by
  by_cases hflush : a = .flushTask
  · subst hflush
    obtain ⟨r, hr, rfl⟩ := Option.map_eq_some_iff.mp (Option.ite_none_left_eq_some.mp hs).2
    obtain ⟨now, last, u, -, -, himpl, -⟩ := h.turn hr
    rw [himpl]
    exact hterm
  by_cases hterminate : a = .doTerminate
  · subst hterminate
    obtain rfl := Option.some.inj (Option.ite_none_right_eq_some.mp hs).2
    rfl
  rcases (told_kept hflush hterminate hs).2 with hsame | ⟨hnow, -⟩
  · exact hsame.trans hterm
  · exact hnow

/-- While a closure that terminates the loop is run, the thread does nothing else. -/
theorem Steady.invoking_step (h : Steady s g) (hi : s.invoking = true) (hs : s.step terminates a = some t) :
    if ofThread a then t.impl.terminated = true else t.invoking = true := by
  obtain ⟨now, last, hphase⟩ := h.begun hi
  have hnot {stage : Stage} (hat : s.isAt stage = true) : False := by cases hphase.symm.trans (isAt_iff.mp hat).1
  cases a with
  | doRun | flushTask | disposeTasks => exact absurd hi (Option.ite_none_left_eq_some.mp hs).1
  | enterRun | timerDrain | runExpiredTasksNow | checkRunning =>
    exact (hnot (Option.ite_none_right_eq_some.mp hs).1).elim
  | epollWait => exact (hnot (Bool.and_eq_true_iff.mp (Option.ite_none_right_eq_some.mp hs).1).1).elim
  | doTerminate =>
    obtain rfl := Option.some.inj (Option.ite_none_right_eq_some.mp hs).2
    rfl
  | postTask _ | registerTask _ | queues _ | epollFails | tick _ =>
    exact (told_kept (by simp) (by simp) hs).1.trans hi

section
variable {loop : MessageLoopLinux α} {e : (logged terminates loop).Endless} {k : Nat}

theorem Created.halting (h : Created loop) : loop.Halting := by
  intro hterm
  have htold : Told (fun _ => false) loop {} := h.told
  exact absurd (htold.mp (.inr hterm)) (by simp)

theorem GoesOn.halting (he : GoesOn e) (hl : Created loop) (m : Nat) : (e.state m).1.Halting := by
  induction m with
  | zero =>
    rw [he.start]
    exact hl.halting
  | succ m ih => exact ih.step (he.steady hl.steady m) (he.undisturbed m) (logged_step e m).1

/-- A loop that was told to stop returns. -/
theorem GoesOn.returns (he : GoesOn e) (hl : Created loop)
    (htold : (e.state k).1.invoking = true ∨ (e.state k).1.impl.terminated = true) :
    ∃ m, k ≤ m ∧ (e.state m).1.impl.phase = .returned := by
  have hterminates : ∃ m, k ≤ m ∧ (e.state m).1.impl.terminated = true := by
    rcases htold with hi | hterm
    · refine Exists.imp (fun m hm => ⟨hm.1.le, hm.2⟩) (he.thread.leads_to (n := k) (P := fun r => r.1.invoking = true)
        (Q := fun r => r.1.impl.terminated = true) ?_ ?_ ?_ hi)
      · rintro ⟨s, g⟩ hi
        exact ⟨.doTerminate, _, rfl, Option.map_eq_some_iff.mpr ⟨_, if_pos hi, rfl⟩⟩
      · intro m hi ha
        have hnext := (he.steady hl.steady m).invoking_step hi (logged_step e m).1
        rwa [if_pos ha] at hnext
      · intro m hi ha
        have hnext := (he.steady hl.steady m).invoking_step hi (logged_step e m).1
        rwa [if_neg ha] at hnext
    · exact ⟨k, le_rfl, hterm⟩
  obtain ⟨l, hkl, hterm⟩ := hterminates
  by_cases hreturned : (e.state l).1.impl.phase = .returned
  · exact ⟨l, hkl, hreturned⟩
  have hnext (m : Nat) (h : Ending (e.state m).1 (e.state m).2) (hne : (e.state (m + 1)).1.impl.phase ≠ .returned) :
      Ending (e.state (m + 1)).1 (e.state (m + 1)).2 := by
    refine ⟨he.steady hl.steady _, he.halting hl _, ?_, hne⟩
    exact h.steady.terminated_stays h.terminated (logged_step e m).1
  refine Exists.imp (fun m hm => ⟨hkl.trans hm.1.le, hm.2⟩) (he.thread.leads_to_of_rank (n := l) (fun r => toEnd r.1)
    (P := fun r => Ending r.1 r.2) (Q := fun r => r.1.impl.phase = .returned) ?_ ?_ ?_
    ⟨he.steady hl.steady l, he.halting hl l, hterm, hreturned⟩)
  · rintro ⟨s, g⟩ h
    obtain ⟨a, ha, hsome⟩ : ∃ a, ofThread a = true ∧ (s.step terminates a).isSome := h.exists_step
    obtain ⟨t, ht⟩ := Option.isSome_iff_exists.mp hsome
    exact ⟨a, _, ha, Option.map_eq_some_iff.mpr ⟨t, ht, rfl⟩⟩
  · intro m _ h ha
    by_cases hreturned : (e.state (m + 1)).1.impl.phase = .returned
    · exact .inr hreturned
    · exact .inl ⟨hnext m h hreturned, (h.thread_step ha (logged_step e m).1).resolve_left hreturned⟩
  · intro m _ h ha
    obtain ⟨hphase, hend⟩ := h.other_step (Bool.eq_false_iff.mpr ha) (he.undisturbed m) (logged_step e m).1
    exact .inl ⟨hnext m h (hphase ▸ h.notReturned), hend.le⟩

theorem GoesOn.served (he : GoesOn e) (hl : Created loop)
    (hgoes : (e.state k).1.impl.terminated = false ∧ (e.state k).1.invoking = false) {m : Nat} (hm : k ≤ m) :
    Served (e.state k).2.registered (e.state k).1.now (e.state m).1 (e.state m).2 := by
  induction m, hm using Nat.le_induction with
  | base =>
    have hnot (hphase : (e.state k).1.impl.phase = .idle ∨ (e.state k).1.impl.phase = .running ∨
        ∃ now, (e.state k).1.impl.phase = .flushing .kAll now false) :
        Served (e.state k).2.registered (e.state k).1.now (e.state k).1 (e.state k).2 := by
      refine ⟨fun now hf => ?_, fun hend => ?_⟩
      · rcases hphase with hphase | hphase | ⟨_, hphase⟩ <;> cases hphase.symm.trans hf
      · rcases hphase with hphase | hphase | ⟨_, hphase⟩ <;> rcases hend with hend | hend <;>
          cases hphase.symm.trans hend
    rcases (he.steady hl.steady k).running hgoes.1 hgoes.2 with hidle | hat | ⟨-, hphase⟩
    · exact hnot (.inl hidle)
    · exact hnot (.inr (.inl (isAt_iff.mp hat).1))
    · exact hnot (.inr hphase)
  | succ m hm ih =>
    obtain ⟨hs, hg⟩ := logged_step e m
    rw [hg]
    exact ih.step (he.steady hl.steady m) (now_mono e hm) (logged_grows e hm).1.sublist.subperm (he.halting hl m)
      (he.undisturbed m) hs

/-- A loop with a closure that terminates it returns, and it has run by then what was due before it was told to. -/
theorem GoesOn.ends (he : GoesOn e) (hl : Created loop)
    (hgoes : (e.state k).1.impl.terminated = false ∧ (e.state k).1.invoking = false) {l : Nat} {post : Post α}
    (hkl : k ≤ l) (hpost : post ∈ (e.state l).2.registered) (hterm : terminates post.task = true) :
    ∃ m, k ≤ m ∧ (e.state m).1.impl.phase = .returned ∧
      ((e.state k).2.registered.filter fun post => post.targetTime ≤ ((e.state k).1.now : Int)).Subperm
        ((e.state m).2.ran.map (·.1)) := by
  have hstops : ∃ m, k ≤ m ∧ ((e.state m).1.invoking = true ∨ (e.state m).1.impl.terminated = true) := by
    by_cases htold : (e.state l).1.invoking = true ∨ (e.state l).1.impl.terminated = true
    · exact ⟨l, hkl, htold⟩
    obtain ⟨hi, hnot⟩ := not_or.mp htold
    obtain ⟨m, hm, hdone⟩ := he.takes hl.steady post.targetTime.toNat
      ⟨Bool.eq_false_iff.mpr hnot, Bool.eq_false_iff.mpr hi⟩
    refine ⟨m, hkl.trans hm, ?_⟩
    by_contra hstill
    obtain ⟨hi, hnot⟩ := not_or.mp hstill
    have hserved := (he.steady hl.steady m).served ((he.steady hl.steady m).notReturned (Bool.eq_false_iff.mpr hnot)
      (Bool.eq_false_iff.mpr hi)) (logged_grows e hm).1.sublist.subperm (hdone.resolve_left hi)
    have hran : post ∈ (e.state m).2.ran.map (·.1) :=
      hserved.subset (List.mem_filter.mpr ⟨hpost, decide_eq_true (Int.self_le_toNat _)⟩)
    obtain ⟨r, hr, rfl⟩ := List.mem_map.mp hran
    exact hstill ((he.told hl m).mpr ⟨r, hr, hterm⟩)
  obtain ⟨n, hkn, htold⟩ := hstops
  obtain ⟨m, hnm, hreturned⟩ := he.returns hl htold
  exact ⟨m, hkn.trans hnm, hreturned, (he.served hl hgoes (hkn.trans hnm)).2 (.inr hreturned)⟩

end

end MessageLoopLinux

/-- `joined` is for `Join`, which waits for the return of the thread after it has posted its closure. That closure is
`none`, and others may terminate the loop as well. -/
structure Thread (α : Type) where
  loop : MessageLoopLinux (Option α)
  joined : Bool := false

namespace Thread
variable {α : Type}

inductive Label (α : Type)
  | join
  | loop (a : MessageLoopLinux.Label (Option α))

section
variable (terminates : α → Bool)

def stops : Option α → Bool
  | none => true
  | some closure => terminates closure

def step (t : Thread α) : Label α → Option (Thread α)
  | .join => some (if t.joined then t else
      { loop := { t.loop with impl := t.loop.impl.postTask ⟨none, t.loop.now⟩ }, joined := true })
  | .loop a => (t.loop.step (stops terminates) a).map fun loop => { t with loop }

/-- What a step is for the loop. -/
def onLoop (t : Thread α) : Label α → MessageLoopLinux.Label (Option α)
  | .join => if t.joined then .tick 0 else .postTask ⟨none, t.loop.now⟩
  | .loop a => a

def logged (loop : MessageLoopLinux (Option α)) :
    Machine (Thread α × MessageLoopLinux.Log (Option α)) (Label α) :=
  (⟨{ loop }, step terminates⟩ : Machine _ _).withHistory {}
    fun t a u => MessageLoopLinux.record t.loop (t.onLoop a) u.loop

end

variable {terminates : α → Bool} {t u : Thread α} {a : Label α}

theorem step_onLoop (h : t.step terminates a = some u) :
    t.loop.step (stops terminates) (t.onLoop a) = some u.loop := by
  cases a with
  | join =>
    obtain rfl := Option.some.inj h
    cases hjoined : t.joined <;> simp [onLoop, hjoined, MessageLoopLinux.step]
  | loop a =>
    obtain ⟨loop, hloop, rfl⟩ := Option.map_eq_some_iff.mp h
    exact hloop

section
variable {loop : MessageLoopLinux (Option α)} {e : (logged terminates loop).Endless} {j : Nat}

theorem logged_step (e : (logged terminates loop).Endless) (m : Nat) :
    (e.state m).1.step terminates (e.label m) = some (e.state (m + 1)).1 ∧
      (e.state (m + 1)).2 = MessageLoopLinux.record (e.state m).1.loop ((e.state m).1.onLoop (e.label m))
        (e.state (m + 1)).1.loop (e.state m).2 :=
  Machine.withHistory_step (g := (e.state m).2) (e.step m)

/-- What the run is for the loop of the thread. -/
def loopRun (e : (logged terminates loop).Endless) : (MessageLoopLinux.logged (stops terminates) loop).Endless where
  state m := ((e.state m).1.loop, (e.state m).2)
  label m := (e.state m).1.onLoop (e.label m)
  step m := by
    obtain ⟨hs, hg⟩ := logged_step e m
    rw [hg]
    exact Option.map_eq_some_iff.mpr ⟨_, step_onLoop hs, rfl⟩

/-- The loop goes on, nobody has called `Join` yet, and who calls `PostTask` gets through. -/
structure GoesOn (e : (logged terminates loop).Endless) : Prop where
  loop : MessageLoopLinux.GoesOn (loopRun e)
  notJoined : (e.state 0).1.joined = false
  posted : ∀ m, ∀ post ∈ (e.state m).1.loop.impl.posting, ∃ n, m ≤ n ∧ post ∈ (e.state n).2.registered

/-- Who has joined has called `Join`, and it was the first call. -/
theorem GoesOn.exists_join (he : GoesOn e) (hj : (e.state j).1.joined = true) :
    ∃ i < j, e.label i = .join ∧ (e.state i).1.joined = false := by
  induction j with
  | zero => exact absurd (he.notJoined.symm.trans hj) Bool.false_ne_true
  | succ j ih =>
    cases hbefore : (e.state j).1.joined with
    | true => exact (ih hbefore).imp fun i hi => ⟨hi.1.trans (Nat.lt_succ_self j), hi.2⟩
    | false =>
      refine ⟨j, Nat.lt_succ_self j, ?_, hbefore⟩
      have hs := (logged_step e j).1
      cases hlabel : e.label j with
      | join => rfl
      | loop a =>
        rw [hlabel] at hs
        obtain ⟨loop, -, hloop⟩ := Option.map_eq_some_iff.mp hs
        rw [← hloop, hbefore] at hj
        exact absurd hj Bool.false_ne_true

/-- Whoever calls `Join` does not wait forever: the thread returns, and what was due before the call was run by then,
unless a closure had terminated the loop before. -/
theorem join_returns (hl : MessageLoopLinux.Created loop) (he : GoesOn e) (hj : e.label j = .join) :
    ∃ m, j ≤ m ∧ (e.state m).1.loop.impl.phase = .returned ∧
      ((∃ r ∈ (e.state j).2.ran, stops terminates r.1.task = true) ∨
        ((e.state j).2.registered.filter fun post => post.targetTime ≤ ((e.state j).1.loop.now : Int)).Subperm
          ((e.state m).2.ran.map (·.1))) := by
  by_cases htold : ∃ r ∈ (e.state j).2.ran, stops terminates r.1.task = true
  · obtain ⟨m, hm, hreturned⟩ := he.loop.returns hl ((he.loop.told hl j).mpr htold)
    exact ⟨m, hm, hreturned, .inl htold⟩
  have hgoes : (e.state j).1.loop.impl.terminated = false ∧ (e.state j).1.loop.invoking = false := by
    obtain ⟨hi, hterm⟩ := not_or.mp (mt (he.loop.told hl j).mp htold)
    exact ⟨Bool.eq_false_iff.mpr hterm, Bool.eq_false_iff.mpr hi⟩
  obtain ⟨i, hij, hi, hfirst⟩ : ∃ i, i ≤ j ∧ e.label i = .join ∧ (e.state i).1.joined = false := by
    cases hjoined : (e.state j).1.joined with
    | true => exact (he.exists_join hjoined).imp fun i hi => ⟨hi.1.le, hi.2⟩
    | false => exact ⟨j, le_rfl, hj, hjoined⟩
  -- the loop was not terminated at the first call either, so its closure was accepted
  have hgrows := (MessageLoopLinux.logged_grows (loopRun e) hij).2
  have hterm : (e.state i).1.loop.impl.terminated = false := by
    rw [Bool.eq_false_iff]
    intro hterm
    obtain ⟨r, hr, hstops⟩ := (he.loop.told hl i).mp (.inr hterm)
    exact htold ⟨r, hgrows.subset hr, hstops⟩
  have hposted : ⟨none, (e.state i).1.loop.now⟩ ∈ (e.state (i + 1)).1.loop.impl.posting := by
    have hs := (logged_step e i).1
    rw [hi] at hs
    rw [← Option.some.inj hs, hfirst]
    simp [MessageLoopImpl.postTask, hterm]
  obtain ⟨n, hn, hregistered⟩ := he.posted (i + 1) _ hposted
  obtain ⟨m, hm, hreturned, hserved⟩ := he.loop.ends hl hgoes (l := max j n) (le_max_left j n)
    ((MessageLoopLinux.logged_grows (loopRun e) (le_max_right j n)).1.subset hregistered) rfl
  exact ⟨m, hm, hreturned, .inr hserved⟩

end

/-- A thread that is joined after a task was posted to it. -/
def joinOne : List (Label Nat) :=
  [.loop (.postTask ⟨some 7, 0⟩), .loop (.registerTask 0), .join, .loop (.registerTask 0), .loop (.tick 1),
    .loop .doRun, .loop .enterRun, .loop .checkRunning, .loop .epollWait, .loop .timerDrain,
    .loop .runExpiredTasksNow, .loop .flushTask, .loop .flushTask, .loop .doTerminate, .loop .flushTask,
    .loop .checkRunning, .loop .flushTask, .loop .disposeTasks]

/-- A loop that has returned is run in vain. -/
def joinOneAndGoOn (n : Nat) : List (Label Nat) :=
  joinOne ++ (List.replicate n [.loop .doRun, .loop (.tick 1)]).flatten

def aloneThread : MessageLoopLinux (Option Nat) :=
  (MessageLoopLinux.new (MessageLoopTaskQueues.machine _).init 0).get rfl

private def Over (n : Nat) (r : Thread Nat × MessageLoopLinux.Log (Option Nat)) : Prop :=
  r.1.loop.impl.phase = .returned ∧ r.1.loop.impl.terminated = true ∧ r.1.loop.invoking = false ∧ n ≤ r.1.loop.now

private theorem Over.again {n : Nat} {r : Thread Nat × MessageLoopLinux.Log (Option Nat)} (h : Over n r) :
    ∃ t, (logged (fun _ => false) aloneThread).runFrom r [.loop .doRun, .loop (.tick 1)] = some t ∧
      Over (n + 1) t := by
  obtain ⟨hphase, hterm, hi, hn⟩ := h
  have hrun : r.1.loop.impl.doRun = some { r.1.loop.impl with phase := .returned } := by
    simp [MessageLoopImpl.doRun, hphase, hterm]
  refine ⟨_, Machine.runFrom_cons_some.mpr ⟨_, Option.map_eq_some_iff.mpr ⟨_, Option.map_eq_some_iff.mpr
    ⟨_, (if_neg (by simp [hi])).trans (Option.map_eq_some_iff.mpr ⟨_, hrun, rfl⟩), rfl⟩, rfl⟩,
    Machine.runFrom_cons_some.mpr ⟨_, rfl, rfl⟩⟩, rfl, hterm, hi, Nat.succ_le_succ hn⟩

private theorem joinOneAndGoOn_succ (n : Nat) :
    joinOneAndGoOn (n + 1) = joinOneAndGoOn n ++ [.loop .doRun, .loop (.tick 1)] := by
  rw [joinOneAndGoOn, List.replicate_succ', List.flatten_concat, ← List.append_assoc, joinOneAndGoOn]

private theorem runs_over (n : Nat) : ∃ t, (logged (fun _ => false) aloneThread).runFrom ({ loop := aloneThread }, {})
    (joinOneAndGoOn n) = some t ∧ Over n t := by
  induction n with
  | zero => exact ⟨_, rfl, rfl, rfl, rfl, by decide⟩
  | succ n ih =>
    obtain ⟨u, hu, hover⟩ := ih
    obtain ⟨t, ht, hnext⟩ := hover.again
    rw [joinOneAndGoOn_succ]
    exact ⟨t, Machine.runFrom_append.mpr ⟨u, hu, ht⟩, hnext⟩

/-- Only a post brings something that is to be registered. -/
private theorem posting_step {s v : MessageLoopLinux (Option Nat)} {a : MessageLoopLinux.Label (Option Nat)}
    (ha : ∀ post, a ≠ .postTask post) (hs : s.step (stops fun _ => false) a = some v) :
    v.impl.posting ⊆ s.impl.posting := by
  cases a with
  | postTask post => exact absurd rfl (ha post)
  | registerTask i =>
    obtain ⟨impl, himpl, rfl⟩ := Option.map_eq_some_iff.mp hs
    obtain ⟨post, -, himpl⟩ := Option.bind_eq_some_iff.mp himpl
    obtain ⟨u, -, himpl⟩ := Option.bind_eq_some_iff.mp himpl
    obtain rfl := Option.some.inj himpl
    exact List.eraseIdx_subset
  | queues b =>
    obtain ⟨u, -, rfl⟩ := Option.map_eq_some_iff.mp (Option.ite_none_left_eq_some.mp hs).2
    exact List.Subset.refl _
  | doRun =>
    obtain ⟨impl, himpl, rfl⟩ := Option.map_eq_some_iff.mp (Option.ite_none_left_eq_some.mp hs).2
    unfold MessageLoopImpl.doRun at himpl
    split at himpl
    · exact Option.some.inj himpl ▸ List.Subset.refl _
    · exact Option.some.inj himpl ▸ List.Subset.refl _
    · cases himpl
  | enterRun | epollWait | epollFails | timerDrain | doTerminate =>
    exact Option.some.inj (Option.ite_none_right_eq_some.mp hs).2 ▸ List.Subset.refl _
  | checkRunning =>
    have hs := (Option.ite_none_right_eq_some.mp hs).2
    split at hs
    · exact Option.some.inj hs ▸ List.Subset.refl _
    · obtain ⟨impl, himpl, rfl⟩ := Option.map_eq_some_iff.mp hs
      unfold MessageLoopImpl.runReturns at himpl
      split at himpl
      · exact Option.some.inj himpl ▸ List.Subset.refl _
      · cases himpl
  | runExpiredTasksNow =>
    obtain ⟨impl, himpl, rfl⟩ := Option.map_eq_some_iff.mp (Option.ite_none_right_eq_some.mp hs).2
    unfold MessageLoopImpl.runExpiredTasks at himpl
    split at himpl
    · exact Option.some.inj himpl ▸ List.Subset.refl _
    · cases himpl
  | flushTask =>
    obtain ⟨r, hr, rfl⟩ := Option.map_eq_some_iff.mp (Option.ite_none_left_eq_some.mp hs).2
    unfold MessageLoopImpl.flushTask at hr
    split at hr
    · obtain ⟨q, -, hr⟩ := Option.bind_eq_some_iff.mp hr
      exact Option.some.inj hr ▸ List.Subset.refl _
    · cases hr
  | disposeTasks =>
    obtain ⟨impl, himpl, rfl⟩ := Option.map_eq_some_iff.mp (Option.ite_none_left_eq_some.mp hs).2
    unfold MessageLoopImpl.disposeTasks at himpl
    split at himpl
    · obtain ⟨u, -, himpl⟩ := Option.bind_eq_some_iff.mp himpl
      exact Option.some.inj himpl ▸ List.Subset.refl _
    · cases himpl
  | tick d => exact Option.some.inj hs ▸ List.Subset.refl _

theorem join_returns_one : ∃ e : (logged (fun _ : Nat => false) aloneThread).Endless, GoesOn e ∧ e.label 2 = .join ∧
    ∃ m, (e.state m).1.loop.impl.phase = .returned ∧
      ([⟨some 7, 0⟩] : List (Post (Option Nat))).Subperm ((e.state m).2.ran.map (·.1)) := by
  have hlength (n : Nat) : n ≤ (joinOneAndGoOn n).length := by
    simp [joinOneAndGoOn, joinOne]
    omega
  obtain ⟨e, hlabels, hstates⟩ := Machine.exists_endless_of_prefixes (fun n => (runs_over n).imp fun _ h => h.1)
    (fun n => ⟨_, (joinOneAndGoOn_succ n).symm⟩) hlength
  have hend (n : Nat) : Over n (e.state (joinOneAndGoOn n).length) := by
    obtain ⟨t, ht, hover⟩ := runs_over n
    have hstate := hstates n _ le_rfl
    rw [List.take_length, ht] at hstate
    exact Option.some.inj hstate ▸ hover
  have hat {γ : Type} (m : Nat) (f : Thread Nat × MessageLoopLinux.Log (Option Nat) → γ) (x : γ)
    (hm : m ≤ joinOne.length)
      (hx : ((logged (fun _ => false) aloneThread).runFrom ({ loop := aloneThread }, {}) (joinOne.take m)).map f = some x) :
      f (e.state m) = x := by
    have hstate := hstates 0 m (hm.trans_eq (by simp [joinOneAndGoOn]))
    rw [show joinOneAndGoOn 0 = joinOne from rfl] at hstate
    rw [hstate] at hx
    exact Option.some.inj hx
  have hfirst (m : Nat) (hm : m < joinOne.length) : e.label m = joinOne[m] :=
    hlabels 0 m (hm.trans_eq (by simp [joinOneAndGoOn]))
  have hlater (m : Nat) : e.label (m + 4) ∈ joinOne.drop 4 ++ [.loop .doRun, .loop (.tick 1)] := by
    have hdrop : m < ((joinOneAndGoOn (m + 5)).drop 4).length := by
      have hle := hlength (m + 5)
      rw [List.length_drop]
      omega
    have hsame : e.label (m + 4) = ((joinOneAndGoOn (m + 5)).drop 4)[m] := by
      rw [hlabels (m + 5) (m + 4) (hlength (m + 5)), List.getElem_drop]
      congr 1
      exact Nat.add_comm m 4
    have hmem : e.label (m + 4) ∈ (joinOneAndGoOn (m + 5)).drop 4 := hsame ▸ List.getElem_mem _
    rw [joinOneAndGoOn, List.drop_append_of_le_length (by decide)] at hmem
    rcases List.mem_append.mp hmem with hmem | hmem
    · exact List.mem_append_left _ hmem
    · obtain ⟨l, hl, ha⟩ := List.mem_flatten.mp hmem
      rw [List.eq_of_mem_replicate hl] at ha
      exact List.mem_append_right _ ha
  have hown (m : Nat) : ∃ a, e.label (m + 4) = .loop a ∧ (MessageLoopLinux.ofThread a = true ∨ a = .tick 1) := by
    have hall : ∀ l ∈ joinOne.drop 4 ++ [.loop .doRun, .loop (.tick 1)],
        ∃ a, l = .loop a ∧ (MessageLoopLinux.ofThread a = true ∨ a = .tick 1) := by
      simp [joinOne, MessageLoopLinux.ofThread]
    exact hall _ (hlater m)
  have hquiet (m : Nat) (post : Post (Option Nat)) :
      (e.state (m + 4)).1.onLoop (e.label (m + 4)) ≠ .postTask post := by
    obtain ⟨a, ha, hthread | rfl⟩ := hown m
    · rw [ha]
      rintro rfl
      cases hthread
    · rw [ha]
      exact fun h => by cases h
  have hposting (m : Nat) : (e.state (m + 4)).1.loop.impl.posting = [] := by
    induction m with
    | zero => exact hat 4 (fun r => r.1.loop.impl.posting) [] (by decide) rfl
    | succ m ih =>
      exact List.subset_nil.mp (ih ▸ posting_step (hquiet m) (step_onLoop (logged_step e (m + 4)).1))
  have hstart : e.state 0 = ({ loop := aloneThread }, {}) := (Option.some.inj (hstates 0 0 (Nat.zero_le _))).symm
  have hjoin : (e.state 2).1.onLoop (e.label 2) = .postTask ⟨none, (e.state 2).1.loop.now⟩ := by
    have hjoined : (e.state 2).1.joined = false := hat 2 (fun r => r.1.joined) false (by decide) rfl
    rw [hfirst 2 (by decide)]
    simp [joinOne, onLoop, hjoined]
  have he : GoesOn e := by
    refine ⟨⟨?_, fun m => ?_, fun m post hpost => ?_, fun time => ?_, Machine.Endless.weakFair_of_often fun n => ?_⟩,
      hat 0 (fun r => r.1.joined) false (by decide) rfl, fun m post hpost => ?_⟩
    · change ((e.state 0).1.loop, (e.state 0).2) = (aloneThread, {})
      rw [hstart]
    · change MessageLoopLinux.Undisturbed _ ((e.state m).1.onLoop (e.label m)) _
      rcases m with _ | _ | _ | _ | m
      · rw [hfirst 0 (by decide)]
        exact ⟨show (0 : Int) ≤ 0 from le_rfl, trivial⟩
      · rw [hfirst 1 (by decide)]
        exact ⟨trivial, trivial⟩
      · change MessageLoopLinux.Undisturbed _ ((e.state 2).1.onLoop (e.label 2)) _
        rw [hjoin]
        exact ⟨Int.natCast_nonneg _, trivial⟩
      · rw [hfirst 3 (by decide)]
        exact ⟨trivial, trivial⟩
      · obtain ⟨a, ha, hthread | rfl⟩ := hown m
        · rw [ha]
          cases a <;> first | exact ⟨trivial, trivial⟩ | cases hthread
        · rw [ha]
          exact ⟨trivial, trivial⟩
    · change (e.state m).1.onLoop (e.label m) = .postTask post at hpost
      change ((e.state m).1.loop.now : Int) ≤ post.targetTime
      rcases m with _ | _ | _ | _ | m
      · rw [hfirst 0 (by decide)] at hpost
        obtain rfl := MessageLoopLinux.Label.postTask.inj hpost
        rw [hstart]
        exact le_rfl
      · rw [hfirst 1 (by decide)] at hpost
        cases hpost
      · obtain rfl := MessageLoopLinux.Label.postTask.inj (hjoin.symm.trans hpost)
        exact le_rfl
      · rw [hfirst 3 (by decide)] at hpost
        cases hpost
      · exact absurd hpost (hquiet m post)
    · obtain ⟨-, -, -, hn⟩ := hend time
      exact ⟨_, hn⟩
    · refine ⟨_, hlength n, ?_⟩
      have hnext : (joinOneAndGoOn n).length < (joinOneAndGoOn (n + 1)).length := by
        simp [joinOneAndGoOn_succ]
      have hlabel : e.label (joinOneAndGoOn n).length = .loop .doRun := by
        rw [hlabels (n + 1) _ hnext]
        simp [joinOneAndGoOn_succ]
      change MessageLoopLinux.ofThread ((e.state _).1.onLoop (e.label (joinOneAndGoOn n).length)) = true
      rw [hlabel]
      rfl
    · rcases m with _ | _ | _ | _ | m
      · rw [hat 0 (fun r => r.1.loop.impl.posting) [] (by decide) rfl] at hpost
        cases hpost
      · rw [hat 1 (fun r => r.1.loop.impl.posting) [⟨some 7, 0⟩] (by decide) rfl] at hpost
        refine ⟨2, by decide, ?_⟩
        rwa [hat 2 (fun r => r.2.registered) [⟨some 7, 0⟩] (by decide) rfl]
      · rw [hat 2 (fun r => r.1.loop.impl.posting) [] (by decide) rfl] at hpost
        cases hpost
      · rw [hat 3 (fun r => r.1.loop.impl.posting) [⟨none, 0⟩] (by decide) rfl] at hpost
        refine ⟨4, by decide, ?_⟩
        rw [hat 4 (fun r => r.2.registered) [⟨some 7, 0⟩, ⟨none, 0⟩] (by decide) rfl]
        exact List.mem_cons_of_mem _ hpost
      · rw [hposting m] at hpost
        cases hpost
  refine ⟨e, he, hfirst 2 (by decide), ?_⟩
  obtain ⟨m, -, hreturned, hserved⟩ := join_returns ⟨[], _, 0, rfl, trivial, rfl⟩ he (hfirst 2 (by decide))
  have hran : (e.state 2).2.ran = [] := hat 2 (fun r => r.2.ran) [] (by decide) rfl
  have hreg : (e.state 2).2.registered = [⟨some 7, 0⟩] := hat 2 (fun r => r.2.registered) _ (by decide) rfl
  have hnow : (e.state 2).1.loop.now = 0 := hat 2 (fun r => r.1.loop.now) _ (by decide) rfl
  rw [hran, hreg, hnow] at hserved
  exact ⟨m, hreturned, hserved.resolve_left (by simp)⟩

end Thread
end Ogre.Fml
