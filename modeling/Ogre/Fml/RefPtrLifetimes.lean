import Ogre.Fml.RefPtrSafety
import Ogre.Library.ListSums

/-! When objects are destroyed: once nobody points to them, after finitely many steps of whichever threads. -/
namespace Ogre.Fml
open Ogre.Library

/-- The steps that are left of what a frame has to do, without what it sets off. -/
def Frame.work : Frame → Nat
  | .construct _ _ _ _ | .adopt _ _ | .release _ => 1
  | .assign _ _ _ _ => 3
  | .store _ _ _ | .swap _ _ _ => 2
  | .destroy _ left => 3 * left + 1

/-- The steps of a destructor that has not run yet. -/
def RefCounted.work (o : RefCounted) : Nat := if o.destructionStarted then 0 else 3 * o.members + 1

namespace Memory
variable {τ : Type} {m n : Memory τ} {o : Nat} {s : Slot} {t : τ} {frame : Frame} {rest : List Frame} {bits : Nat}
  {object : RefCounted}

/-- An access that does not begin the destruction of an object leaves its work. -/
theorem work_access {asserted : RefCounted → Bool} {f : RefCounted → RefCounted} (hf : ∀ x, (f x).work = x.work) :
    ((m.access o asserted f).objects.map RefCounted.work).sum = (m.objects.map RefCounted.work).sum := by
  unfold access
  split
  · rfl
  next object ho =>
    have h := sum_set_add RefCounted.work (y := f object) (d := 0) ho (hf object)
    simpa using h

theorem work_addRef {p : Option Nat} :
    ((m.addRef bits p).objects.map RefCounted.work).sum = (m.objects.map RefCounted.work).sum := by
  cases p with
  | none => rfl
  | some o => exact work_access fun _ => rfl

section Steps
variable {k q : Nat} {asserted : RefCounted → Bool} {change : RefCounted → RefCounted}

theorem refCount_access (h : ∀ x, (change x).refCount = x.refCount) :
    (m.access q asserted change).objects[o]?.map RefCounted.refCount = m.objects[o]?.map RefCounted.refCount := by
  unfold access
  split
  · rfl
  next object hq =>
    change (m.objects.set q (change object))[o]?.map _ = _
    rw [List.getElem?_set]
    split
    next heq =>
      subst heq
      obtain ⟨hlt, hget⟩ := List.getElem?_eq_some_iff.mp hq
      rw [if_pos hlt, hq]
      exact congrArg some (h object)
    · rfl

theorem objects_access_ne (h : q ≠ o) : (m.access q asserted change).objects[o]? = m.objects[o]? := by
  unfold access
  split
  · rfl
  · exact List.getElem?_set_ne h

theorem refCount_addRef {p : Option Nat} (h : p ≠ some o) :
    (m.addRef bits p).objects[o]?.map RefCounted.refCount = m.objects[o]?.map RefCounted.refCount := by
  cases p with
  | none => rfl
  | some q => exact congrArg _ (objects_access_ne fun hq => h (congrArg some hq))

variable [DecidableEq τ] {op : Operation}

/-- A count is changed by whoever copies a pointer to the object, and by whoever releases one. -/
theorem refCount_execute (hcopy : ∀ c ∈ frame.copies, c.2 ≠ some o) (hheld : frame.held ≠ some o) :
    (m.execute bits t rest frame).objects[o]?.map RefCounted.refCount = m.objects[o]?.map RefCounted.refCount := by
  cases frame with
  | construct dst src p via => exact refCount_addRef (hcopy (src, p) rfl)
  | assign dst src p via => exact refCount_addRef (hcopy (src, p) rfl)
  | store | swap => rfl
  | adopt dst q => exact refCount_access fun _ => rfl
  | release p =>
    cases p with
    | none => rfl
    | some q =>
      have hq : q ≠ o := fun h => hheld (congrArg some h)
      rw [execute, release]
      split
      · exact congrArg _ (objects_access_ne hq)
      · exact congrArg _ (objects_access_ne hq)
  | destroy q left =>
    cases left with
    | zero => exact refCount_access fun _ => rfl
    | succ left => rfl

theorem refCount_start (ho : o < m.objects.length) : (m.start t op).objects[o]? = m.objects[o]? := by
  cases op with
  | make dst members => exact List.getElem?_append_left ho
  | assign dst src via =>
    rw [start]
    split
    · rfl
    · rfl
  | null | copy | move | moveAssign | reset | swap | destruct => rfl

/-- A variable is changed by an operation that writes it. -/
theorem pointers_execute (h : .var k ∉ frame.writes) :
    (m.execute bits t rest frame).pointers (.var k) = m.pointers (.var k) := by
  cases frame with
  | construct dst src p via =>
    rw [execute, pointers_goOn, set, pointers_addRef]
    exact Function.update_of_ne (fun heq => h (List.mem_singleton.mpr heq)) _ _
  | assign dst src p via => rw [execute, pointers_goOn, pointers_addRef]
  | store dst p via => exact Function.update_of_ne (fun heq => h (List.mem_singleton.mpr heq)) _ _
  | swap p dst via => exact Function.update_of_ne (fun heq => h (List.mem_singleton.mpr heq)) _ _
  | adopt dst q =>
    rw [execute, pointers_goOn, set, adopt, pointers_access]
    exact Function.update_of_ne (fun heq => h (List.mem_singleton.mpr heq)) _ _
  | release p =>
    cases p with
    | none => rfl
    | some q =>
      rw [execute, release]
      split
      · rw [pointers_goOn, pointers_access]
      · rw [pointers_goOn, pointers_access]
  | destroy q left =>
    cases left with
    | zero => rw [execute, pointers_goOn, destroy, pointers_access]
    | succ left =>
      have hne : Slot.var k ≠ .member q left := by simp
      exact Function.update_of_ne hne none m.pointers

theorem pointers_start (h : .var k ∉ op.writes) : (m.start t op).pointers (.var k) = m.pointers (.var k) := by
  cases op with
  | null dst => exact Function.update_of_ne (fun heq => h (List.mem_singleton.mpr heq)) _ _
  | destruct dst => exact Function.update_of_ne (fun heq => h (List.mem_singleton.mpr heq)) _ _
  | make | copy | reset => rfl
  | assign dst src via =>
    rw [start]
    split
    · rfl
    · rfl
  | moveAssign dst src via =>
    rw [Operation.writes, List.mem_cons, List.mem_singleton, not_or] at h
    exact Function.update_of_ne h.2 _ _
  | move dst src via =>
    rw [Operation.writes, List.mem_cons, List.mem_singleton, not_or] at h
    exact (Function.update_of_ne h.2 _ _).trans (Function.update_of_ne h.1 _ _)
  | swap dst src via =>
    rw [Operation.writes, List.mem_cons, List.mem_singleton, not_or] at h
    exact (Function.update_of_ne h.2 _ _).trans (Function.update_of_ne h.1 _ _)

/-- What a thread goes on with uses no more than what it did. -/
theorem frames_execute (bits : Nat) (h : m.Orderly) (hf : m.frames t = frame :: rest) :
    ∃ next, (m.execute bits t rest frame).frames = Function.update m.frames t next ∧
      ∀ f ∈ next.head?, f.writes ⊆ frame.writes ∧ f.reads ⊆ frame.reads := by
  have hlight := rest_light h hf
  have hnone (f : Frame) (hl : Light f) : f.writes ⊆ frame.writes ∧ f.reads ⊆ frame.reads := by
    rw [hl.1, hl.2.1]
    exact ⟨List.nil_subset _, List.nil_subset _⟩
  have hrest (f : Frame) (hr : f ∈ rest.head?) : f.writes ⊆ frame.writes ∧ f.reads ⊆ frame.reads :=
    hnone f (light_of_destroying (hlight f (List.mem_of_mem_head? hr)))
  cases frame with
  | construct dst src p via => exact ⟨rest, by rw [execute, goOn, frames_set, frames_addRef], hrest⟩
  | assign dst src p via =>
    refine ⟨.store dst p via :: rest, by rw [execute, goOn, frames_addRef], fun f hr => ?_⟩
    obtain rfl := Option.some.inj hr
    exact ⟨fun s hs => hs, fun s hs => List.mem_cons_of_mem _ hs⟩
  | store dst p via | swap p dst via =>
    refine ⟨.release (m.get dst) :: rest, rfl, fun f hr => ?_⟩
    obtain rfl := Option.some.inj hr
    exact hnone _ ⟨rfl, rfl, rfl, rfl, rfl⟩
  | adopt dst o => exact ⟨rest, by rw [execute, goOn, frames_set, adopt, frames_access], hrest⟩
  | release p =>
    cases p with
    | none => exact ⟨rest, rfl, hrest⟩
    | some o =>
      rw [execute, release]
      split
      · exact ⟨rest, by rw [goOn, frames_access], hrest⟩
      next object _ =>
        refine ⟨if object.hasOneRef then .destroy o object.members :: rest else rest, by rw [goOn, frames_access], ?_⟩
        split
        · intro f hr
          obtain rfl := Option.some.inj hr
          exact hnone _ ⟨rfl, rfl, rfl, rfl, rfl⟩
        · exact hrest
  | destroy o left =>
    cases left with
    | zero => exact ⟨rest, by rw [execute, goOn, destroy, frames_access], hrest⟩
    | succ left =>
      refine ⟨.release (m.get (.member o left)) :: .destroy o left :: rest, rfl, fun f hr => ?_⟩
      obtain rfl := Option.some.inj hr
      exact hnone _ ⟨rfl, rfl, rfl, rfl, rfl⟩

theorem frames_start (m : Memory τ) (t : τ) (op : Operation) :
    ∃ next, (m.start t op).frames = Function.update m.frames t next ∧
    ∀ f ∈ next.head?, f ∈ (m.frames t).head? ∨ f.writes ⊆ op.writes ∧ f.reads ⊆ op.reads := by
  have hsame : ∃ next, m.frames = Function.update m.frames t next ∧
      ∀ f ∈ next.head?, f ∈ (m.frames t).head? ∨ f.writes ⊆ op.writes ∧ f.reads ⊆ op.reads :=
    ⟨m.frames t, (Function.update_eq_self t m.frames).symm, fun f hf => .inl hf⟩
  have hpush (g : Frame) (hw : g.writes ⊆ op.writes) (hr : g.reads ⊆ op.reads) :
      ∀ f ∈ (g :: m.frames t).head?, f ∈ (m.frames t).head? ∨ f.writes ⊆ op.writes ∧ f.reads ⊆ op.reads := by
    intro f hf
    obtain rfl := Option.some.inj hf
    exact .inr ⟨hw, hr⟩
  cases op with
  | null | move | swap => exact hsame
  | make dst members => exact ⟨_, rfl, hpush _ (fun s hs => hs) (fun s hs => hs)⟩
  | copy dst src via => exact ⟨_, rfl, hpush _ (fun s hs => hs) (fun s hs => hs)⟩
  | assign dst src via =>
    rw [start]
    split
    · exact hsame
    · exact ⟨_, rfl, hpush _ (fun s hs => hs) (fun s hs => hs)⟩
  | moveAssign dst src via =>
    refine ⟨_, rfl, hpush _ (fun s hs => ?_) (fun s hs => hs)⟩
    obtain rfl := List.mem_singleton.mp hs
    exact List.mem_cons_self
  | reset dst via => exact ⟨_, rfl, hpush _ (fun s hs => hs) (fun s hs => hs)⟩
  | destruct dst => exact ⟨_, rfl, hpush _ (List.nil_subset _) (List.nil_subset _)⟩

/-- The variable is not at hand in an operation. -/
def Unused (m : Memory τ) (k : Nat) : Prop :=
  ∀ t, ∀ frame ∈ (m.frames t).head?, .var k ∉ frame.writes ∧ .var k ∉ frame.reads

theorem Unused.update {next : List Frame} (h : m.Unused k) (hn : n.frames = Function.update m.frames t next)
    (hnext : ∀ f ∈ next.head?, .var k ∉ f.writes ∧ .var k ∉ f.reads) : n.Unused k := by
  intro u
  rw [hn]
  by_cases hu : u = t
  · subst hu
    rwa [Function.update_self]
  · rw [Function.update_of_ne hu]
    exact h u

end Steps

variable [Fintype τ]

/-- More steps than the threads can take without a new operation. -/
def work (m : Memory τ) : Nat :=
  total (fun frames => (frames.map Frame.work).sum) m.frames + (m.objects.map RefCounted.work).sum

section Work
variable [DecidableEq τ] {next : List Frame}

theorem work_frames (hn : n.frames = Function.update m.frames t next)
    (ho : (n.objects.map RefCounted.work).sum = (m.objects.map RefCounted.work).sum) :
    n.work + ((m.frames t).map Frame.work).sum = m.work + (next.map Frame.work).sum := by
  have h := total_update (fun frames : List Frame => (frames.map Frame.work).sum) m.frames t next
  unfold work
  rw [hn, ho]
  omega

/-- Each step of a thread in an operation brings it closer to its end. -/
theorem work_execute (hm : m.Consistent) (hf : m.frames t = frame :: rest) :
    (m.execute bits t rest frame).work < m.work := by
  generalize hn : m.execute bits t rest frame = n
  have hstep (next : List Frame) (hframes : n.frames = Function.update m.frames t next)
      (ho : (n.objects.map RefCounted.work).sum = (m.objects.map RefCounted.work).sum)
      (hlt : (next.map Frame.work).sum < frame.work + (rest.map Frame.work).sum) : n.work < m.work := by
    have h := work_frames hframes ho
    rw [hf, List.map_cons, List.sum_cons] at h
    omega
  cases frame with
  | construct dst src p via =>
    refine hstep rest ?_ ?_ (Nat.lt_add_of_pos_left Nat.one_pos)
    · rw [← hn, execute, goOn, frames_set, frames_addRef]
    · rw [← hn]
      exact work_addRef
  | assign dst src p via =>
    refine hstep (.store dst p via :: rest) ?_ ?_ ?_
    · rw [← hn, execute, goOn, frames_addRef]
    · rw [← hn]
      exact work_addRef
    · rw [List.map_cons, List.sum_cons]
      exact Nat.add_lt_add_right (by decide : 2 < 3) _
  | store dst p via =>
    refine hstep (.release (m.get dst) :: rest) (by rw [← hn]; rfl) (by rw [← hn]; rfl) ?_
    rw [List.map_cons, List.sum_cons]
    exact Nat.add_lt_add_right (by decide : 1 < 2) _
  | swap p dst via =>
    refine hstep (.release (m.get dst) :: rest) (by rw [← hn]; rfl) (by rw [← hn]; rfl) ?_
    rw [List.map_cons, List.sum_cons]
    exact Nat.add_lt_add_right (by decide : 1 < 2) _
  | adopt dst o =>
    refine hstep rest ?_ ?_ (Nat.lt_add_of_pos_left Nat.one_pos)
    · rw [← hn, execute, goOn, frames_set, adopt, frames_access]
    · rw [← hn]
      exact work_access fun _ => rfl
  | release p =>
    cases p with
    | none => exact hstep rest (by rw [← hn]; rfl) (by rw [← hn]; rfl) (Nat.lt_add_of_pos_left Nat.one_pos)
    | some o =>
      have hlt := adoptions_lt_of_held hf (o := o) rfl rfl
      obtain ⟨object, ho⟩ := hm.exists_object (o := o) (.inl (by omega))
      have hk := hm.kept o object ho
      obtain ⟨hstarted, hlive⟩ := hk.live (by omega)
      have hwork : object.work = 3 * object.members + 1 := by rw [RefCounted.work, hstarted]; rfl
      have hreleased : (object.release bits).work = if object.hasOneRef then 0 else object.work := by
        rw [hwork, RefCounted.work, RefCounted.release, hstarted, Bool.false_or]
      have hpositive : object.refCount ≠ 0 := by
        rw [hk.counted]
        omega
      have hacc : m.access o (fun object => object.mayBeShared && object.refCount != 0) (RefCounted.release bits) =
          { m with objects := m.objects.set o (object.release bits) } :=
        access_eq ho (by simp [hk.shared hlt, hpositive]) hlive
      have hobjects := sum_set_add RefCounted.work (y := object.release bits)
        (d := if object.hasOneRef then object.work else 0) ho (by
          rw [hreleased]
          split
          · rw [Nat.zero_add]
          · rw [Nat.add_zero])
      have hframes := total_update (fun frames : List Frame => (frames.map Frame.work).sum) m.frames t
        (if object.hasOneRef then .destroy o object.members :: rest else rest)
      have hthis : (Frame.release (some o)).work = 1 := rfl
      rw [← hn, execute, release, ho, hacc]
      unfold work
      rw [hf, List.map_cons, List.sum_cons, hthis] at hframes
      change total _ (Function.update m.frames t _) + ((m.objects.set o _).map RefCounted.work).sum < _
      split at hframes
      next hone =>
        have hdestroy : (Frame.destroy o object.members).work = object.work := hwork.symm
        rw [if_pos hone] at hobjects ⊢
        rw [List.map_cons, List.sum_cons, hdestroy] at hframes
        omega
      next hone =>
        rw [if_neg hone] at hobjects ⊢
        omega
  | destroy o k =>
    cases k with
    | zero =>
      refine hstep rest ?_ ?_ (Nat.lt_add_of_pos_left Nat.one_pos)
      · rw [← hn, execute, goOn, destroy, frames_access]
      · rw [← hn]
        exact work_access fun _ => rfl
    | succ k =>
      refine hstep (.release (m.get (.member o k)) :: .destroy o k :: rest) (by rw [← hn]; rfl) (by rw [← hn]; rfl) ?_
      simp only [List.map_cons, List.sum_cons, Frame.work]
      omega

end Work
/-- An object has references, or it is destroyed. -/
def Settled (m : Memory τ) (o : Nat) (object : RefCounted) : Prop :=
  (∃ s, m.get s = some o) ∧ object.destroyed = 0 ∨
    (∀ s, m.get s ≠ some o) ∧ object.destroyed = 1 ∧ ∀ i, m.pointers (.member o i) = none

theorem frameCount_eq_zero (h : ∀ t, m.frames t = []) (p : Frame → Bool) : m.frameCount p = 0 := by
  rw [frameCount, total_eq_zero]
  intro t
  rw [h t]
  rfl

/-- While no thread is in an operation, the objects are those that there are pointers to. -/
theorem Consistent.settled (hm : m.Consistent) (hidle : ∀ t, m.frames t = []) (ho : m.objects[o]? = some object) :
    m.Settled o object := by
  have hk := hm.kept o object ho
  have hrefs : m.refs o = holders m.get o := by rw [refs, frameCount_eq_zero hidle, Nat.add_zero]
  have hdestructions : m.destructions o = 0 := frameCount_eq_zero hidle _
  have hdestroyed := hk.destroyed
  rw [hdestructions, Nat.zero_add] at hdestroyed
  by_cases hex : ∃ s, m.get s = some o
  · obtain ⟨s, hs⟩ := hex
    exact .inl ⟨⟨s, hs⟩, (hk.live (refs_pos_of_get hm.finite hs)).2⟩
  · rw [not_exists] at hex
    have hzero : m.refs o = 0 := hrefs.trans ((holders_eq_zero hm.finite).mpr hex)
    have hstarted := hk.started.mpr hzero
    rw [hstarted, Bool.toNat_true] at hdestroyed
    refine .inr ⟨hex, hdestroyed, fun i => ?_⟩
    have hmem := hk.members i
    rw [hstarted, if_pos rfl, left_eq_zero_of_destructions hdestructions] at hmem
    rw [← Option.not_isSome_iff_eq_none, hmem]
    exact Nat.not_lt_zero i

section Runs
variable [DecidableEq τ] {a : Label τ} {as : List (Label τ)}

/-- In every run in which no count wraps, no assertion fails and no object is used after it was destroyed; the count of
an object is the number of its references, and it is destroyed at most once, after the last of them is gone. -/
theorem never_faults (h : (machine τ bits).run as = some m)
    (hw : (machine τ bits).Along (NoWrap bits) (machine τ bits).init as) :
    m.faults = 0 ∧ ∀ o object, m.objects[o]? = some object →
      object.refCount = m.refs o ∧ object.destroyed ≤ 1 ∧
        (object.destroyed = 1 → m.refs o = 0 ∧ ∀ i, m.pointers (.member o i) = none) := by
  have hm := consistent_run h hw
  refine ⟨hm.faultless, fun o object ho => ?_⟩
  have hk := hm.kept o object ho
  have hdestroyed := hk.destroyed
  have hle := Bool.toNat_le object.destructionStarted
  refine ⟨hk.counted, by omega, fun hone => ?_⟩
  have hstarted : object.destructionStarted := by
    cases hs : object.destructionStarted with
    | false =>
      rw [hs, Bool.toNat_false] at hdestroyed
      omega
    | true => rfl
  rw [hstarted, Bool.toNat_true] at hdestroyed
  refine ⟨hk.started.mp hstarted, fun i => ?_⟩
  have hmem := hk.members i
  rw [hstarted, if_pos rfl, left_eq_zero_of_destructions (by omega)] at hmem
  rw [← Option.not_isSome_iff_eq_none, hmem]
  exact Nat.not_lt_zero i

/-- Two threads have an object that has a member, and one of them has let go of it. -/
def shared : List (Label (Fin 2)) :=
  [.start 0 (.make 0 1), .proceed 0, .start 1 (.copy 1 (.var 0) []), .proceed 1, .start 0 (.destruct 0), .proceed 0,
    .start 1 (.destruct 1)]

theorem never_faults_shared : ∃ m, (machine (Fin 2) 32).run shared = some m ∧ m.faults = 0 := by
  have hw : (machine (Fin 2) 32).Along (NoWrap 32) (machine (Fin 2) 32).init shared := by decide
  have hr : (machine (Fin 2) 32).run shared = some _ := rfl
  exact ⟨_, hr, (never_faults hr hw).1⟩

theorem work_runFrom {ts : List τ} (hm : m.Consistent) (hw : (machine τ bits).Along (NoWrap bits) m (ts.map .proceed))
    (h : (machine τ bits).runFrom m (ts.map .proceed) = some n) : ts.length + n.work ≤ m.work := by
  induction ts generalizing m with
  | nil =>
    obtain rfl := Option.some.inj h
    simp
  | cons t ts ih =>
    obtain ⟨k, hk, hr⟩ := Machine.runFrom_cons_some.mp h
    have hstep : m.step bits (.proceed t) = some k := hk
    obtain ⟨frame, rest, hf, rfl⟩ := step_proceed hstep
    have hlt : (m.execute bits t rest frame).work < m.work := work_execute hm hf
    have hle := ih (hm.step (Machine.Along.head hw hk) hstep) (Machine.Along.tail hw hk) hr
    rw [List.length_cons]
    omega

theorem idle_of_stuck (h : ∀ t, m.step bits (.proceed t) = none) (t : τ) : m.frames t = [] := by
  have ht := h t
  rw [step] at ht
  split at ht
  next hf => exact hf
  · cases ht

/-- Without new operations, the threads come to an end after a number of steps that is bounded before, in whatever
order they take them; an object is then destroyed, and its members with it, unless there is a pointer to it. -/
theorem run_settles {ts : List τ} (h : (machine τ bits).run as = some m)
    (hr : (machine τ bits).runFrom m (ts.map .proceed) = some n)
    (hw : (machine τ bits).Along (NoWrap bits) (machine τ bits).init (as ++ ts.map .proceed)) :
    ts.length ≤ m.work ∧
      ((∀ t, n.step bits (.proceed t) = none) → ∀ o object, n.objects[o]? = some object → n.Settled o object) := by
  obtain ⟨hwas, hwts⟩ := (Machine.along_append h).mp hw
  have hm := consistent_run h hwas
  have hle := work_runFrom hm hwts hr
  refine ⟨by omega, fun hstuck o object ho => ?_⟩
  exact (consistent_run (Machine.runFrom_append.mpr ⟨m, h, hr⟩) hw).settled (idle_of_stuck hstuck) ho

theorem run_settles_shared : ∃ m n, (machine (Fin 2) 32).run shared = some m ∧
    (machine (Fin 2) 32).runFrom m ([1, 1, 1, 1].map .proceed) = some n ∧ 4 ≤ m.work ∧
      ∀ o object, n.objects[o]? = some object → n.Settled o object := by
  have hw : (machine (Fin 2) 32).Along (NoWrap 32) (machine (Fin 2) 32).init
      (shared ++ [(1 : Fin 2), 1, 1, 1].map .proceed) := by decide
  have h : (machine (Fin 2) 32).run shared = some _ := rfl
  have hr : (machine (Fin 2) 32).runFrom (((machine (Fin 2) 32).run shared).get rfl)
      ([(1 : Fin 2), 1, 1, 1].map .proceed) = some _ := rfl
  obtain ⟨hle, hsettled⟩ := run_settles h hr hw
  exact ⟨_, _, h, hr, hle, hsettled (Fin.forall_fin_two.mpr ⟨rfl, rfl⟩)⟩

end Runs
section OneReference
variable {k : Nat}

/-- The variable has the one reference that there is to the object. -/
structure Alone (m : Memory τ) (k o : Nat) : Prop where
  consistent : m.Consistent
  get : m.get (.var k) = some o
  one : m.refs o = 1
  unused : m.Unused k

/-- Nobody else points to the object, or has it in hand. -/
theorem Alone.only (h : m.Alone k o) :
    (∀ s, m.get s = some o → s = .var k) ∧ ∀ t, ∀ frame ∈ m.frames t, frame.held ≠ some o := by
  have hpos := holders_pos h.consistent.finite h.get
  have hone := h.one
  unfold refs at hone
  refine ⟨fun s hs => holders_eq_one h.consistent.finite h.get (by omega) s hs, fun t frame hf hheld => ?_⟩
  have hcount : 0 < (m.frames t).countP (·.held = some o) := List.countP_pos_iff.mpr ⟨frame, hf, by simpa using hheld⟩
  have hle := part_le_total (List.countP fun f : Frame => f.held = some o) m.frames t
  unfold frameCount at hone
  omega

variable [DecidableEq τ] {a : Label τ} {as bs : List (Label τ)}

/-- The label is not of an operation on the variable. -/
def LeavesAlone (k : Nat) : Label τ → Prop
  | .start _ op => .var k ∉ op.writes ∧ .var k ∉ op.reads
  | .proceed _ => True

/-- Nobody can get a reference to an object without the one that there is. -/
theorem Alone.step (h : m.Alone k o) (ha : LeavesAlone k a) (hw : NoWrap bits m a n) (hs : m.step bits a = some n) :
    n.Alone k o := by
  have hn := h.consistent.step hw hs
  obtain ⟨honly, hheld⟩ := h.only
  obtain ⟨object, ho⟩ := h.consistent.exists_object (o := o) (.inl (by rw [h.one]; exact Nat.one_pos))
  have hcount : m.objects[o]?.map RefCounted.refCount = some 1 := by
    rw [ho, Option.map_some, (h.consistent.kept o object ho).counted, h.one]
  have hfinish (hc : n.objects[o]?.map RefCounted.refCount = some 1)
      (hp : n.pointers (.var k) = m.pointers (.var k)) (hu : n.Unused k) : n.Alone k o := by
    obtain ⟨new, hnew, hone⟩ := Option.map_eq_some_iff.mp hc
    refine ⟨hn, ?_, ?_, hu⟩
    · have hget := h.get
      unfold Memory.get at hget ⊢
      rw [hp, hget]
    · rw [← (hn.kept o new hnew).counted, hone]
  cases a with
  | start t op =>
    obtain ⟨-, -, -, rfl⟩ := step_start hs
    refine hfinish ?_ (pointers_start ha.1) ?_
    · rw [refCount_start (List.getElem?_eq_some_iff.mp ho).1, hcount]
    · obtain ⟨next, hframes, hnext⟩ := frames_start m t op
      refine h.unused.update hframes fun f hf => ?_
      rcases hnext f hf with hold | ⟨hwrites, hreads⟩
      · exact h.unused t f hold
      · exact ⟨fun hk => ha.1 (hwrites hk), fun hk => ha.2 (hreads hk)⟩
  | proceed t =>
    obtain ⟨frame, rest, hf, rfl⟩ := step_proceed hs
    have hhead : frame ∈ (m.frames t).head? := by
      rw [hf]
      rfl
    obtain ⟨hnw, hnr⟩ := h.unused t frame hhead
    refine hfinish ?_ (pointers_execute hnw) ?_
    · rw [refCount_execute (fun c hc hco => ?_) (hheld t frame (List.mem_of_mem_head? hhead)), hcount]
      -- The pointer that is copied is another one, and so is the object.
      have hsrc := (h.consistent.orderly.sound t frame hhead).copies c hc
      have heq := honly c.1 (hsrc.trans hco)
      refine hnr ?_
      cases frame with
      | construct | assign =>
        obtain rfl := Option.some.inj hc
        exact heq ▸ List.mem_cons_self
      | store | swap | adopt | release | destroy => cases hc
    · obtain ⟨next, hframes, hnext⟩ := frames_execute bits h.consistent.orderly hf
      exact h.unused.update hframes fun f hr =>
        ⟨fun hk => hnw ((hnext f hr).1 hk), fun hk => hnr ((hnext f hr).2 hk)⟩

/-- The threads share another object then. -/
def others : List (Label (Fin 2)) :=
  [.start 1 (.make 1 0), .proceed 1, .start 0 (.copy 2 (.var 1) []), .proceed 0]

end OneReference
end Memory
end Ogre.Fml
