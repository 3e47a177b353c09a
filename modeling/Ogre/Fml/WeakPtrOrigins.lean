import Ogre.Fml.WeakPtr

/-! A weak pointer gives its object as long as the factory that it came from is there, and null from then on. -/
namespace Ogre.Fml
open Ogre.Library

/-- The pointer that an operation is about to have, and to which object. -/
def Frame.target : Frame → Option (Slot × Option Nat)
  | .construct dst _ p _ => some (.var dst, p)
  | .assign dst _ p _ | .store dst p _ | .swap p dst _ => some (dst, p)
  | .adopt dst o => some (.var dst, some o)
  | .release _ | .destroy _ _ => none

namespace Memory
variable {τ : Type} {m n : Memory τ} {o k : Nat} {s : Slot} {t : τ} {p q : Option Nat} {frame : Frame}
  {rest : List Frame} {bits : Nat} {op : Operation}

theorem mem_writes {f : Frame} : s ∈ f.writes ↔ ∃ p, f.target = some (s, p) := by
  cases f <;> simp [Frame.writes, Frame.target, eq_comm]

theorem target_of_destroying {f : Frame} (h : f.destroying.isSome) : f.target = none := by
  cases f with
  | destroy => rfl
  | construct | assign | store | swap | adopt | release => cases h

/-- What a pointer points to once the operation that writes it is done, or now where there is none. -/
def Holds (m : Memory τ) (s : Slot) (p : Option Nat) : Prop :=
  (∃ t, ∃ f ∈ (m.frames t).head?, f.target = some (s, p)) ∨
    (∀ t, ∀ f ∈ (m.frames t).head?, s ∉ f.writes) ∧ m.get s = p

theorem Holds.get_eq (h : m.Holds s p) (hs : ∀ t, ∀ f ∈ (m.frames t).head?, s ∉ f.writes) : m.get s = p := by
  rcases h with ⟨t, f, hf, htarget⟩ | ⟨-, h⟩
  · exact absurd (mem_writes.mpr ⟨p, htarget⟩) (hs t f hf)
  · exact h

theorem Holds.unique (hm : m.Orderly) (hp : m.Holds s p) (hq : m.Holds s q) : p = q := by
  rcases hp with ⟨t, f, hf, hft⟩ | ⟨hp, hpq⟩
  · rcases hq with ⟨u, g, hg, hgt⟩ | ⟨hq, -⟩
    · by_cases htu : t = u
      · subst htu
        obtain rfl := Option.some.inj (hf.symm.trans hg)
        exact congrArg Prod.snd (Option.some.inj (hft.symm.trans hgt))
      · exact absurd (mem_writes.mpr ⟨q, hgt⟩) (hm.apart t u htu f hf g hg s (mem_writes.mpr ⟨p, hft⟩)).1
    · exact absurd (mem_writes.mpr ⟨p, hft⟩) (hq t f hf)
  · exact hpq.symm.trans (hq.get_eq hp)

theorem free_writes (hfree : m.Free t) {f : Frame} (hf : f ∈ (m.frames t).head?) : s ∉ f.writes := by
  rw [mem_writes, target_of_destroying (hfree f hf)]
  rintro ⟨_, h⟩
  cases h

section Steps
variable [DecidableEq τ]

/-- A thread goes on with what it is about to have, and in the end has it. -/
theorem Holds.execute (hm : m.Orderly) (hf : m.frames t = frame :: rest) (h : m.Holds (.var k) p) :
    (m.execute bits t rest frame).Holds (.var k) p := by
  generalize hn : m.execute bits t rest frame = n
  obtain ⟨next, hframes, hnext⟩ := frames_execute bits hm hf
  rw [hn] at hframes
  have hhead : frame ∈ (m.frames t).head? := by
    rw [hf]
    rfl
  have hlight := rest_light hm hf
  -- Where the operation is done, nobody else writes the variable, and it has what it was to have.
  have hdone (hw : .var k ∈ frame.writes) (hrest : ∀ f ∈ next.head?, f.writes = []) (hget : n.get (.var k) = p) :
      n.Holds (.var k) p := by
    refine .inr ⟨fun u g hg hk => ?_, hget⟩
    rw [hframes] at hg
    by_cases hu : u = t
    · subst hu
      rw [Function.update_self] at hg
      rw [hrest g hg] at hk
      exact List.not_mem_nil hk
    · rw [Function.update_of_ne hu] at hg
      exact (hm.apart t u (Ne.symm hu) frame hhead g hg _ hw).1 hk
  have hlast (f : Frame) (hr : f ∈ rest.head?) : f.writes = [] :=
    (light_of_destroying (hlight f (List.mem_of_mem_head? hr))).1
  rcases h with ⟨u, f, hu, htarget⟩ | ⟨hnone, hget⟩
  · by_cases hut : u = t
    · subst hut
      rw [hf] at hu
      obtain rfl := Option.some.inj hu
      have hw := mem_writes.mpr ⟨p, htarget⟩
      have hnextn : n.frames u = next := by rw [hframes, Function.update_self]
      cases frame with
      | construct dst src q via =>
        obtain ⟨hdst, rfl⟩ := Prod.mk.inj (Option.some.inj htarget)
        obtain rfl := Slot.var.inj hdst
        refine hdone hw ?_ ?_
        · have hnext : n.frames u = rest := by
            rw [← hn, Memory.execute, goOn]
            exact Function.update_self ..
          rw [← hnextn, hnext]
          exact hlast
        · rw [← hn, Memory.execute, get_goOn, get_set, Function.update_self, Option.join_some]
      | assign dst src q via =>
        obtain ⟨rfl, rfl⟩ := Prod.mk.inj (Option.some.inj htarget)
        refine .inl ⟨u, .store (.var k) q via, ?_, rfl⟩
        rw [← hn, Memory.execute, goOn]
        simp
      | store dst q via | swap q dst via =>
        obtain ⟨rfl, rfl⟩ := Prod.mk.inj (Option.some.inj htarget)
        refine hdone hw ?_ ?_
        · have hnext : n.frames u = .release (m.get (.var k)) :: rest := by
            rw [← hn, Memory.execute, goOn]
            exact Function.update_self ..
          rw [← hnextn, hnext]
          intro f hr
          obtain rfl := Option.some.inj hr
          rfl
        · rw [← hn, Memory.execute, get_goOn, get_set, Function.update_self, Option.join_some]
      | adopt dst o =>
        obtain ⟨hdst, rfl⟩ := Prod.mk.inj (Option.some.inj htarget)
        obtain rfl := Slot.var.inj hdst
        refine hdone hw ?_ ?_
        · have hnext : n.frames u = rest := by
            rw [← hn, Memory.execute, goOn]
            exact Function.update_self ..
          rw [← hnextn, hnext]
          exact hlast
        · rw [← hn, Memory.execute, get_goOn, get_set, Function.update_self, Option.join_some]
      | release | destroy => cases htarget
    · refine .inl ⟨u, f, ?_, htarget⟩
      rw [hframes, Function.update_of_ne hut]
      exact hu
  · refine .inr ⟨fun u g hg hk => ?_, ?_⟩
    · rw [hframes] at hg
      by_cases hu : u = t
      · subst hu
        rw [Function.update_self] at hg
        exact hnone u frame hhead ((hnext g hg).1 hk)
      · rw [Function.update_of_ne hu] at hg
        exact hnone u g hg hk
    · have hpointers : (m.execute bits t rest frame).pointers (.var k) = m.pointers (.var k) :=
        pointers_execute (hnone t frame hhead)
      unfold Memory.get at hget ⊢
      rw [← hn, hpointers, hget]

theorem Holds.start (hfree : m.Free t) (hw : .var k ∉ op.writes) (h : m.Holds (.var k) p) :
    (m.start t op).Holds (.var k) p := by
  obtain ⟨next, hframes, hnext⟩ := frames_start m t op
  rcases h with ⟨u, f, hu, htarget⟩ | ⟨hnone, hget⟩
  · have hut : u ≠ t := by
      rintro rfl
      rw [target_of_destroying (hfree f hu)] at htarget
      cases htarget
    refine .inl ⟨u, f, ?_, htarget⟩
    rw [hframes, Function.update_of_ne hut]
    exact hu
  · refine .inr ⟨fun u g hg hk => ?_, ?_⟩
    · rw [hframes] at hg
      by_cases hu : u = t
      · subst hu
        rw [Function.update_self] at hg
        rcases hnext g hg with hold | ⟨hwrites, -⟩
        · exact hnone u g hold hk
        · exact hw (hwrites hk)
      · rw [Function.update_of_ne hu] at hg
        exact hnone u g hg hk
    · have hpointers := pointers_start (m := m) (t := t) hw
      unfold Memory.get at hget ⊢
      rw [hpointers, hget]

/-- What an operation is on is not about to be written by another. -/
theorem Holds.of_exclusive (hfree : m.Free t) (hex : m.Exclusive t op) (hs : s ∈ op.writes ∨ s ∈ op.reads)
    (h : m.Holds s p) : m.get s = p := by
  refine h.get_eq fun u f hu hf => ?_
  by_cases hut : u = t
  · subst hut
    rw [mem_writes, target_of_destroying (hfree f hu)] at hf
    obtain ⟨_, hf⟩ := hf
    cases hf
  · obtain ⟨hwrites, hreads⟩ := hex u hut f hu
    exact hs.elim (fun hw => (hwrites s hw).1 hf) fun hr => hreads s hr hf

/-- A pointer that nobody is about to write, after the first step of an operation on it. -/
theorem Holds.now (next : List Frame) (hn : n.frames = Function.update m.frames t next)
    (hnext : ∀ f ∈ next.head?, s ∉ f.writes) (hex : m.Exclusive t op) (hs : s ∈ op.writes) (hget : n.get s = p) :
    n.Holds s p := by
  refine .inr ⟨fun u f hu hf => ?_, hget⟩
  rw [hn] at hu
  by_cases hut : u = t
  · subst hut
    rw [Function.update_self] at hu
    exact hnext f hu hf
  · rw [Function.update_of_ne hut] at hu
    exact ((hex u hut f hu).1 s hs).1 hf

/-- The pointer that the operation is about to write. -/
theorem Holds.pushed {f : Frame} {fs : List Frame} (hn : n.frames = Function.update m.frames t (f :: fs))
    (hf : f.target = some (s, p)) : n.Holds s p := by
  refine .inl ⟨t, f, ?_, hf⟩
  rw [hn, Function.update_self]
  rfl

variable {src dst : Slot} {via : List Slot} {i : Nat}

theorem holds_null (hfree : m.Free t) (hex : m.Exclusive t (.null k)) : (m.start t (.null k)).Holds (.var k) none := by
  refine Holds.now (m.frames t) (Function.update_eq_self t m.frames).symm
    (fun f hf => free_writes hfree hf) hex List.mem_cons_self ?_
  rw [start, get_set, Function.update_self]
  rfl

theorem holds_make : (m.start t (.make k i)).Holds (.var k) (some m.objects.length) := Holds.pushed rfl rfl

theorem holds_copy (hfree : m.Free t) (hex : m.Exclusive t (.copy k src via)) (h : m.Holds src p) :
    (m.start t (.copy k src via)).Holds (.var k) p := by
  rw [← h.of_exclusive hfree hex (.inr List.mem_cons_self)]
  exact Holds.pushed rfl rfl

theorem holds_move (hfree : m.Free t) (hex : m.Exclusive t (.move k src via)) (hne : src ≠ .var k)
    (h : m.Holds src p) :
    (m.start t (.move k src via)).Holds (.var k) p ∧ (m.start t (.move k src via)).Holds src none := by
  have hget := h.of_exclusive hfree hex (.inl (List.mem_cons_of_mem _ List.mem_cons_self))
  have hframes : (m.start t (.move k src via)).frames = Function.update m.frames t (m.frames t) :=
    (Function.update_eq_self t m.frames).symm
  have hnext (s : Slot) : ∀ f ∈ (m.frames t).head?, s ∉ f.writes := fun f hf => free_writes hfree hf
  refine ⟨Holds.now _ hframes (hnext _) hex List.mem_cons_self ?_,
    Holds.now _ hframes (hnext _) hex (List.mem_cons_of_mem _ List.mem_cons_self) ?_⟩
  · rw [start, get_set, get_set, Function.update_of_ne hne.symm, Function.update_self, Option.join_some, hget]
  · rw [start, get_set, Function.update_self]
    rfl

theorem holds_assign (hfree : m.Free t) (hex : m.Exclusive t (.assign dst src via)) (h : m.Holds src p) :
    (m.start t (.assign dst src via)).Holds dst p := by
  rw [← h.of_exclusive hfree hex (.inr List.mem_cons_self), start]
  split
  next heq =>
    rw [heq]
    exact Holds.now (m.frames t) (Function.update_eq_self t m.frames).symm
      (fun f hf => free_writes hfree hf) hex List.mem_cons_self rfl
  · exact Holds.pushed rfl rfl

theorem holds_moveAssign (hfree : m.Free t) (hex : m.Exclusive t (.moveAssign dst src via)) (h : m.Holds src p) :
    (m.start t (.moveAssign dst src via)).Holds dst p ∧
      (src ≠ dst → (m.start t (.moveAssign dst src via)).Holds src none) := by
  rw [← h.of_exclusive hfree hex (.inl (List.mem_cons_of_mem _ List.mem_cons_self))]
  refine ⟨Holds.pushed rfl rfl, fun hne => ?_⟩
  refine Holds.now (.swap (m.get src) dst via :: m.frames t) rfl (fun f hf => ?_) hex
    (List.mem_cons_of_mem _ List.mem_cons_self) ?_
  · obtain rfl := Option.some.inj hf
    exact fun hs => hne (List.mem_singleton.mp hs)
  · rw [start, get_goOn, get_set, Function.update_self]
    rfl

theorem holds_reset : (m.start t (.reset dst via)).Holds dst none := Holds.pushed rfl rfl

theorem holds_destruct (hex : m.Exclusive t (.destruct k)) : (m.start t (.destruct k)).Holds (.var k) none := by
  refine Holds.now (.release (m.get (.var k)) :: m.frames t) rfl (fun f hf => ?_) hex List.mem_cons_self ?_
  · obtain rfl := Option.some.inj hf
    exact List.not_mem_nil
  · rw [start, get_goOn, get_set, Function.update_self]
    rfl

end Steps

variable [Fintype τ]

/-- What is held by a variable has a reference. -/
theorem Holds.refs_pos (hm : m.Consistent) (h : m.Holds s (some o)) : 0 < m.refs o := by
  rcases h with ⟨t, f, hf, htarget⟩ | ⟨-, hget⟩
  · cases f with
    | construct dst src q via =>
      obtain ⟨rfl, rfl⟩ := Prod.mk.inj (Option.some.inj htarget)
      exact refs_pos_of_get hm.finite ((hm.orderly.sound t _ hf).copies _ rfl)
    | assign dst src q via =>
      obtain ⟨rfl, rfl⟩ := Prod.mk.inj (Option.some.inj htarget)
      exact refs_pos_of_get hm.finite ((hm.orderly.sound t _ hf).copies _ rfl)
    | store dst q via | swap q dst via =>
      obtain ⟨rfl, rfl⟩ := Prod.mk.inj (Option.some.inj htarget)
      exact refs_pos_of_held (List.mem_of_mem_head? hf) rfl
    | adopt dst o =>
      obtain ⟨rfl, hq⟩ := Prod.mk.inj (Option.some.inj htarget)
      exact refs_pos_of_held (List.mem_of_mem_head? hf) hq
    | release | destroy => cases htarget
  · exact refs_pos_of_get hm.finite hget

end Memory

/-- The weak pointers are about to have, or have, the flags of the factories that they came from. -/
structure WeakPtrs.Traced {τ : Type} [Fintype τ] (w : WeakPtrs τ) (s : WeakOrigins) : Prop where
  consistent : w.memory.Consistent
  isValid : w.isValid = s.alive.map Option.isSome
  objects : w.memory.objects.length = s.alive.length
  holds : ∀ n, w.memory.Holds (.var n) (s.origin n)
  factory : ∀ n f, w.factories n = some f →
    ∃ k, s.origin n = some k ∧ s.alive[k]? = some (if f.dying then none else some f.ptr)
  home : ∀ k ptr, s.alive[k]? = some (some ptr) → ∃ n, s.origin n = some k ∧ w.factories n = some ⟨ptr, false⟩
  apart : ∀ a b, (w.factories a).isSome → (w.factories b).isSome → s.origin a = s.origin b → a = b
  ptr : ∀ n k ptr, w.factories n = none → s.origin n = some k → s.alive[k]? = some (some ptr) → w.ptr n = some ptr
  faultless : w.faults = 0

namespace WeakPtrs
variable {τ : Type} [Fintype τ] {w v : WeakPtrs τ} {s : WeakOrigins} {t : τ} {n k dst src : Nat} {bits : Nat}

theorem Traced.lt (h : w.Traced s) (hn : s.origin n = some k) : k < s.alive.length := by
  have hholds := h.holds n
  rw [hn] at hholds
  obtain ⟨object, ho⟩ := h.consistent.exists_object (.inl (hholds.refs_pos h.consistent))
  rw [← h.objects]
  exact (List.getElem?_eq_some_iff.mp ho).1

theorem Traced.isValid_iff (h : w.Traced s) : w.isValid[k]? = some true ↔ ∃ ptr, s.alive[k]? = some (some ptr) := by
  rw [h.isValid, List.getElem?_map]
  cases s.alive[k]? with
  | none => simp
  | some entry => cases entry <;> simp

/-- What a weak pointer gives, while it is not about to be written. -/
theorem Traced.get_eq (h : w.Traced s) (hn : w.factories n = none)
    (hw : ∀ t, ∀ f ∈ (w.memory.frames t).head?, .var n ∉ f.writes) : w.get n = s.get n := by
  have hget := (h.holds n).get_eq hw
  rw [get, WeakOrigins.get, hget]
  cases ho : s.origin n with
  | none => rfl
  | some k =>
    change (if w.isValid[k]? = some true then w.ptr n else none) = s.alive[k]?.join
    by_cases hk : ∃ ptr, s.alive[k]? = some (some ptr)
    · rw [if_pos (h.isValid_iff.mpr hk)]
      obtain ⟨ptr, hk⟩ := hk
      rw [hk, h.ptr n k ptr hn ho hk]
      rfl
    · rw [if_neg fun hv => hk (h.isValid_iff.mp hv)]
      cases halive : s.alive[k]? with
      | none => rfl
      | some entry =>
        cases entry with
        | none => rfl
        | some ptr => exact absurd ⟨ptr, halive⟩ hk

/-- Weak pointers that come from other factories than before. -/
theorem Traced.retarget (origin : Nat → Option Nat) (h : w.Traced s)
    (hv : v = { w with memory := v.memory, ptr := v.ptr }) (hm : v.memory.Consistent)
    (ho : v.memory.objects.length = w.memory.objects.length)
    (hkeep : ∀ n, w.factories n ≠ none → origin n = s.origin n)
    (hholds : ∀ n, v.memory.Holds (.var n) (origin n))
    (hown : ∀ n k ptr, w.factories n = none → origin n = some k → s.alive[k]? = some (some ptr) → v.ptr n = some ptr) :
    v.Traced { s with origin } := by
  have hfactories : v.factories = w.factories := by rw [hv]
  have hisValid : v.isValid = w.isValid := by rw [hv]
  have hfaults : v.faults = w.faults := by rw [hv]
  refine ⟨hm, hisValid.trans h.isValid, ho.trans h.objects, hholds, fun n f hf => ?_, fun k ptr hk => ?_,
    fun a b ha hb hab => ?_, fun n k ptr hn => hown n k ptr (hfactories ▸ hn), hfaults.trans h.faultless⟩
  · rw [hfactories] at hf
    dsimp only
    rw [hkeep n (by rw [hf]; exact Option.some_ne_none f)]
    exact h.factory n f hf
  · obtain ⟨n, hn, hf⟩ := h.home k ptr hk
    exact ⟨n, (hkeep n (by rw [hf]; exact Option.some_ne_none _)).trans hn, hfactories ▸ hf⟩
  · rw [hfactories] at ha hb
    dsimp only at hab
    rw [hkeep a (Option.isSome_iff_ne_none.mp ha), hkeep b (Option.isSome_iff_ne_none.mp hb)] at hab
    exact h.apart a b ha hb hab

/-- One weak pointer that comes from another factory than before. -/
theorem Traced.set {p : Option Nat} (h : w.Traced s) (hdst : w.factories dst = none)
    (hv : v = { w with memory := v.memory, ptr := v.ptr }) (hm : v.memory.Consistent)
    (ho : v.memory.objects.length = w.memory.objects.length) (hptr : ∀ n ≠ dst, v.ptr n = w.ptr n)
    (hholds : ∀ n ≠ dst, v.memory.Holds (.var n) (s.origin n)) (hp : v.memory.Holds (.var dst) p)
    (hown : ∀ k ptr, p = some k → s.alive[k]? = some (some ptr) → v.ptr dst = some ptr) : v.Traced (s.set dst p) := by
  refine h.retarget _ hv hm ho (fun n hn => ?_) (fun n => ?_) fun n k ptr hn hk ha => ?_
  · refine Function.update_of_ne ?_ _ _
    rintro rfl
    exact hn hdst
  · by_cases hn : n = dst
    · subst hn
      rw [Function.update_self]
      exact hp
    · rw [Function.update_of_ne hn]
      exact hholds n hn
  · by_cases heq : n = dst
    · subst heq
      rw [Function.update_self] at hk
      exact hown k ptr hk ha
    · rw [Function.update_of_ne heq] at hk
      rw [hptr n heq, h.ptr n k ptr hn hk ha]

variable [DecidableEq τ] {op : Operation} {p : Option Nat}

theorem start_eq (h : w.start bits t op = some v) :
    w.memory.Free t ∧ w.memory.Valid op ∧ w.memory.Exclusive t op ∧ v = { w with memory := w.memory.start t op } := by
  obtain ⟨memory, hm, rfl⟩ := Option.map_eq_some_iff.mp h
  obtain ⟨hfree, hv, hex, rfl⟩ := Memory.step_start hm
  exact ⟨hfree, hv, hex, rfl⟩

omit [Fintype τ] in
theorem length_start (m : Memory τ) (h : ∀ a b, op ≠ .make a b) :
    (m.start t op).objects.length = m.objects.length := by
  cases op with
  | make a b => exact absurd rfl (h a b)
  | assign dst src via =>
    rw [Memory.start]
    split
    · rfl
    · rfl
  | null | copy | move | moveAssign | reset | swap | destruct => rfl

/-- An operation on the variable of one weak pointer. -/
theorem Traced.start_set (h : w.Traced s) (hdst : w.factories dst = none) (hs : w.start bits t op = some v)
    (hop : ∀ a b, op ≠ .make a b) (hwrites : ∀ n ≠ dst, .var n ∉ op.writes)
    (hp : w.memory.Free t → w.memory.Valid op → w.memory.Exclusive t op → (w.memory.start t op).Holds (.var dst) p)
    (ptr : Option Nat) (hown : ∀ k x, p = some k → s.alive[k]? = some (some x) → ptr = some x) :
    (v.setPtr dst ptr).Traced (s.set dst p) := by
  obtain ⟨hfree, hv, hex, rfl⟩ := start_eq hs
  refine h.set hdst rfl (h.consistent.start hfree hv hex) (length_start _ hop)
    (fun n hn => Function.update_of_ne hn _ _)
    (fun n hn => (h.holds n).start hfree (hwrites n hn)) (hp hfree hv hex) fun k x hk ha => ?_
  exact (Function.update_self ..).trans (hown k x hk ha)

theorem Traced.factory_step {ptr : Nat} (h : w.Traced s) (hs : w.step bits (.factory t n ptr) = some v) :
    v.Traced (s.step (.factory t n ptr)) := by
  obtain ⟨hn, hs⟩ := Option.ite_none_right_eq_some.mp hs
  obtain ⟨u, hu, rfl⟩ := Option.map_eq_some_iff.mp hs
  obtain ⟨hfree, hv, hex, rfl⟩ := start_eq hu
  have hlt (i k : Nat) (hi : s.origin i = some k) : (s.alive ++ [some ptr])[k]? = s.alive[k]? :=
    List.getElem?_append_left (h.lt hi)
  have hnew : (s.alive ++ [some ptr])[s.alive.length]? = some (some ptr) := by
    rw [List.getElem?_append_right (Nat.le_refl _), Nat.sub_self]
    rfl
  refine ⟨h.consistent.start hfree hv hex, ?_, ?_, fun i => ?_, fun i f hf => ?_, fun k x hk => ?_,
    fun a b ha hb hab => ?_,
    fun i k x hi hk ha => ?_, h.faultless⟩
  · change w.isValid ++ [true] = (s.alive ++ [some ptr]).map Option.isSome
    rw [h.isValid, List.map_append]
    rfl
  · change (w.memory.objects ++ [_]).length = (s.alive ++ [_]).length
    rw [List.length_append, List.length_append, h.objects]
    rfl
  · change (w.memory.start t (.make n 0)).Holds (.var i) (Function.update s.origin n _ i)
    by_cases hi : i = n
    · subst hi
      rw [Function.update_self, ← h.objects]
      exact Memory.holds_make
    · rw [Function.update_of_ne hi]
      refine (h.holds i).start hfree ?_
      simpa [Operation.writes] using hi
  · change Function.update w.factories n _ i = some f at hf
    change ∃ k, Function.update s.origin n _ i = some k ∧ (s.alive ++ [some ptr])[k]? = _
    by_cases hi : i = n
    · subst hi
      rw [Function.update_self] at hf ⊢
      obtain rfl := Option.some.inj hf
      exact ⟨_, rfl, hnew⟩
    · rw [Function.update_of_ne hi] at hf ⊢
      obtain ⟨k, hk, ha⟩ := h.factory i f hf
      exact ⟨k, hk, (hlt i k hk).trans ha⟩
  · change (s.alive ++ [some ptr])[k]? = _ at hk
    change ∃ i, Function.update s.origin n _ i = some k ∧ Function.update w.factories n _ i = _
    by_cases hkl : k = s.alive.length
    · subst hkl
      rw [hnew] at hk
      obtain rfl := Option.some.inj (Option.some.inj hk)
      exact ⟨n, Function.update_self .., Function.update_self ..⟩
    · have hk' : k < s.alive.length := by
        have hle := (List.getElem?_eq_some_iff.mp hk).1
        rw [List.length_append, List.length_singleton] at hle
        omega
      rw [List.getElem?_append_left hk'] at hk
      obtain ⟨i, hi, hf⟩ := h.home k x hk
      have hne : i ≠ n := by
        rintro rfl
        rw [hn] at hf
        cases hf
      exact ⟨i, (Function.update_of_ne hne _ _).trans hi, (Function.update_of_ne hne _ _).trans hf⟩
  · change (Function.update w.factories n _ a).isSome at ha
    change (Function.update w.factories n _ b).isSome at hb
    change Function.update s.origin n _ a = Function.update s.origin n _ b at hab
    have hfresh (i : Nat) (hi : (w.factories i).isSome) : s.origin i ≠ some s.alive.length := fun ho =>
      Nat.lt_irrefl _ (h.lt ho)
    by_cases han : a = n
    · by_cases hbn : b = n
      · rw [han, hbn]
      · rw [han, Function.update_self, Function.update_of_ne hbn] at hab
        rw [Function.update_of_ne hbn] at hb
        exact absurd hab.symm (hfresh b hb)
    · rw [Function.update_of_ne han] at ha hab
      by_cases hbn : b = n
      · rw [hbn, Function.update_self] at hab
        exact absurd hab (hfresh a ha)
      · rw [Function.update_of_ne hbn] at hb hab
        exact h.apart a b ha hb hab
  · change Function.update w.factories n _ i = none at hi
    change Function.update s.origin n _ i = some k at hk
    change (s.alive ++ [some ptr])[k]? = _ at ha
    have hne : i ≠ n := by
      rintro rfl
      rw [Function.update_self] at hi
      cases hi
    rw [Function.update_of_ne hne] at hi hk
    rw [hlt i k hk] at ha
    exact h.ptr i k x hi hk ha

theorem Traced.move_step (h : w.Traced s) (hs : w.step bits (.move t dst src) = some v) :
    v.Traced (s.step (.move t dst src)) := by
  obtain ⟨⟨hdst, hsrc⟩, hs⟩ := Option.ite_none_right_eq_some.mp hs
  obtain ⟨u, hu, rfl⟩ := Option.map_eq_some_iff.mp hs
  obtain ⟨hfree, hv, hex, rfl⟩ := start_eq hu
  have hne : src ≠ dst := by
    rintro rfl
    have hsome := (hv.2 (.var src) List.mem_cons_self).1
    rw [hv.1 src rfl] at hsome
    cases hsome
  obtain ⟨hto, hfrom⟩ := Memory.holds_move hfree hex (by simpa using hne) (h.holds src)
  refine h.retarget (Function.update (Function.update s.origin dst (s.origin src)) src none) rfl
    (h.consistent.start hfree hv hex) (length_start _ (by simp)) (fun n hn => ?_) (fun n => ?_)
    fun n k x hn hk ha => ?_
  · rw [Function.update_of_ne (by rintro rfl; exact hn hsrc), Function.update_of_ne (by rintro rfl; exact hn hdst)]
  · by_cases hns : n = src
    · subst hns
      rw [Function.update_self]
      exact hfrom
    · rw [Function.update_of_ne hns]
      by_cases hnd : n = dst
      · subst hnd
        rw [Function.update_self]
        exact hto
      · rw [Function.update_of_ne hnd]
        have hw : .var n ∉ (Operation.move dst (.var src) []).writes := by simp [Operation.writes, hnd, hns]
        exact (h.holds n).start hfree hw
  · change Function.update w.ptr dst (w.ptr src) n = some x
    by_cases hns : n = src
    · subst hns
      rw [Function.update_self] at hk
      cases hk
    · rw [Function.update_of_ne hns] at hk
      by_cases hnd : n = dst
      · subst hnd
        rw [Function.update_self] at hk ⊢
        exact h.ptr src k x hsrc hk ha
      · rw [Function.update_of_ne hnd] at hk ⊢
        exact h.ptr n k x hn hk ha

theorem Traced.moveAssign_step (h : w.Traced s) (hs : w.step bits (.moveAssign t dst src) = some v) :
    v.Traced (s.step (.moveAssign t dst src)) := by
  obtain ⟨⟨hdst, hsrc⟩, hs⟩ := Option.ite_none_right_eq_some.mp hs
  obtain ⟨u, hu, rfl⟩ := Option.map_eq_some_iff.mp hs
  obtain ⟨hfree, hv, hex, rfl⟩ := start_eq hu
  obtain ⟨hto, hfrom⟩ := Memory.holds_moveAssign hfree hex (h.holds src)
  refine h.retarget (Function.update (Function.update s.origin src none) dst (s.origin src)) rfl
    (h.consistent.start hfree hv hex) (length_start _ (by simp)) (fun n hn => ?_) (fun n => ?_)
    fun n k x hn hk ha => ?_
  · rw [Function.update_of_ne (by rintro rfl; exact hn hdst), Function.update_of_ne (by rintro rfl; exact hn hsrc)]
  · by_cases hnd : n = dst
    · subst hnd
      rw [Function.update_self]
      exact hto
    · rw [Function.update_of_ne hnd]
      by_cases hns : n = src
      · subst hns
        rw [Function.update_self]
        exact hfrom (by simpa using hnd)
      · rw [Function.update_of_ne hns]
        have hw : .var n ∉ (Operation.moveAssign (.var dst) (.var src) []).writes := by
          simp [Operation.writes, hnd, hns]
        exact (h.holds n).start hfree hw
  · change Function.update w.ptr dst (w.ptr src) n = some x
    by_cases hnd : n = dst
    · subst hnd
      rw [Function.update_self] at hk ⊢
      exact h.ptr src k x hsrc hk ha
    · rw [Function.update_of_ne hnd] at hk ⊢
      by_cases hns : n = src
      · subst hns
        rw [Function.update_self] at hk
        cases hk
      · rw [Function.update_of_ne hns] at hk
        exact h.ptr n k x hn hk ha

theorem Traced.invalidate_step (h : w.Traced s) (hs : w.step bits (.invalidate t n) = some v) :
    v.Traced (s.step (.invalidate t n)) := by
  rw [step] at hs
  split at hs
  next ptr hf =>
    obtain ⟨⟨hfree, hex⟩, hs⟩ := Option.ite_none_right_eq_some.mp hs
    obtain rfl := Option.some.inj hs
    obtain ⟨k, hk, ha⟩ := h.factory n _ hf
    have hget : w.memory.get (.var n) = some k := by
      rw [(h.holds n).of_exclusive hfree hex (.inl List.mem_cons_self), hk]
    have hvalid : w.isValid[k]? = some true := h.isValid_iff.mpr ⟨ptr, ha⟩
    have hkill : s.step (.invalidate t n) = { s with alive := s.alive.set k none } := by
      rw [WeakOrigins.step, WeakOrigins.kill, hk]
    have hinvalid : w.invalidateFlag n = { w with isValid := w.isValid.set k false } := by
      rw [invalidateFlag, hget]
      simp [hvalid]
    have hother (i : Nat) (hi : i ≠ k) : (s.alive.set k none)[i]? = s.alive[i]? := List.getElem?_set_ne (Ne.symm hi)
    have hkilled (x : Nat) : (s.alive.set k none)[k]? ≠ some (some x) := by
      rw [List.getElem?_set_self (h.lt hk)]
      simp
    rw [hkill, hinvalid]
    refine ⟨h.consistent, ?_, ?_, h.holds, fun i f hi => ?_, fun j x hj => ?_, fun a b ha hb => ?_,
      fun i j x hi hj ha => ?_, h.faultless⟩
    · change w.isValid.set k false = (s.alive.set k none).map Option.isSome
      rw [h.isValid, List.map_set]
      rfl
    · change _ = (s.alive.set k none).length
      rw [List.length_set]
      exact h.objects
    · change Function.update w.factories n _ i = some f at hi
      change ∃ j, s.origin i = some j ∧ (s.alive.set k none)[j]? = _
      by_cases hin : i = n
      · subst hin
        rw [Function.update_self] at hi
        obtain rfl := Option.some.inj hi
        exact ⟨k, hk, List.getElem?_set_self (h.lt hk)⟩
      · rw [Function.update_of_ne hin] at hi
        obtain ⟨j, hj, hja⟩ := h.factory i f hi
        refine ⟨j, hj, (hother j ?_).trans hja⟩
        rintro rfl
        exact hin (h.apart i n (by rw [hi]; rfl) (by rw [hf]; rfl) (hj.trans hk.symm))
    · change (s.alive.set k none)[j]? = _ at hj
      change ∃ i, s.origin i = some j ∧ Function.update w.factories n _ i = _
      have hjk : j ≠ k := by
        rintro rfl
        exact hkilled x hj
      rw [hother j hjk] at hj
      obtain ⟨i, hi, hfi⟩ := h.home j x hj
      refine ⟨i, hi, (Function.update_of_ne ?_ _ _).trans hfi⟩
      rintro rfl
      exact hjk (Option.some.inj (hi.symm.trans hk))
    · change (Function.update w.factories n _ a).isSome at ha
      change (Function.update w.factories n _ b).isSome at hb
      have hsome (i : Nat) (hi : (Function.update w.factories n (some ⟨ptr, true⟩) i).isSome) :
        (w.factories i).isSome := by
        by_cases hin : i = n
        · rw [hin, hf]
          rfl
        · rwa [Function.update_of_ne hin] at hi
      exact h.apart a b (hsome a ha) (hsome b hb)
    · change Function.update w.factories n _ i = none at hi
      change (s.alive.set k none)[j]? = _ at ha
      have hin : i ≠ n := by
        rintro rfl
        rw [Function.update_self] at hi
        cases hi
      have hjk : j ≠ k := by
        rintro rfl
        exact hkilled x ha
      rw [Function.update_of_ne hin] at hi
      rw [hother j hjk] at ha
      exact h.ptr i j x hi hj ha
  · cases hs

theorem Traced.destructFactory_step (h : w.Traced s) (hs : w.step bits (.destructFactory t n) = some v) :
    v.Traced (s.step (.destructFactory t n)) := by
  rw [step] at hs
  split at hs
  next ptr hf =>
    obtain ⟨u, hu, rfl⟩ := Option.map_eq_some_iff.mp hs
    obtain ⟨hfree, hv, hex, rfl⟩ := start_eq hu
    obtain ⟨k, hk, ha⟩ := h.factory n _ hf
    have hother (i : Nat) (f : WeakPtrFactory) (hi : Function.update w.factories n none i = some f) :
        i ≠ n ∧ w.factories i = some f := by
      by_cases hin : i = n
      · rw [hin, Function.update_self] at hi
        cases hi
      · rw [Function.update_of_ne hin] at hi
        exact ⟨hin, hi⟩
    refine ⟨h.consistent.start hfree hv hex, h.isValid, (length_start _ (by simp)).trans h.objects, fun i => ?_,
      fun i f hi => ?_, fun j x hj => ?_, fun a b ha hb hab => ?_, fun i j x hi hj hja => ?_, h.faultless⟩
    · change (w.memory.start t (.destruct n)).Holds (.var i) (Function.update s.origin n none i)
      by_cases hin : i = n
      · subst hin
        rw [Function.update_self]
        exact Memory.holds_destruct hex
      · rw [Function.update_of_ne hin]
        exact (h.holds i).start hfree (by simp [Operation.writes, hin])
    · obtain ⟨hin, hi⟩ := hother i f hi
      change ∃ j, Function.update s.origin n none i = some j ∧ _
      rw [Function.update_of_ne hin]
      exact h.factory i f hi
    · obtain ⟨i, hi, hfi⟩ := h.home j x hj
      have hin : i ≠ n := by
        rintro rfl
        rw [hf] at hfi
        cases hfi
      exact ⟨i, (Function.update_of_ne hin _ _).trans hi, (Function.update_of_ne hin _ _).trans hfi⟩
    · obtain ⟨f, hfa⟩ := Option.isSome_iff_exists.mp ha
      obtain ⟨g, hgb⟩ := Option.isSome_iff_exists.mp hb
      obtain ⟨han, hfa⟩ := hother a f hfa
      obtain ⟨hbn, hgb⟩ := hother b g hgb
      change Function.update s.origin n none a = Function.update s.origin n none b at hab
      rw [Function.update_of_ne han, Function.update_of_ne hbn] at hab
      exact h.apart a b (by rw [hfa]; rfl) (by rw [hgb]; rfl) hab
    · change Function.update w.factories n none i = none at hi
      change Function.update s.origin n none i = some j at hj
      by_cases hin : i = n
      · rw [hin, Function.update_self] at hj
        cases hj
      · rw [Function.update_of_ne hin] at hi hj
        exact h.ptr i j x hi hj hja
  · cases hs

omit [Fintype τ] in
theorem length_execute (m : Memory τ) (rest : List Frame) (frame : Frame) :
    (m.execute bits t rest frame).objects.length = m.objects.length := by
  have haccess (o : Nat) (asserted : RefCounted → Bool) (f : RefCounted → RefCounted) :
      (m.access o asserted f).objects.length = m.objects.length := by
    unfold Memory.access
    split
    · rfl
    · exact List.length_set
  have hadd (p : Option Nat) : (m.addRef bits p).objects.length = m.objects.length := by
    cases p with
    | none => rfl
    | some o => exact haccess _ _ _
  cases frame with
  | construct dst src p via => exact hadd p
  | assign dst src p via => exact hadd p
  | store | swap => rfl
  | adopt dst o => exact haccess _ _ _
  | release p =>
    cases p with
    | none => rfl
    | some o =>
      rw [Memory.execute, Memory.release]
      split
      · exact haccess _ _ _
      · exact haccess _ _ _
  | destroy o left =>
    cases left with
    | zero => exact haccess _ _ _
    | succ left => rfl

omit [DecidableEq τ] in
/-- A flag is not destroyed as long as it is valid, since its factory has it. -/
theorem Traced.not_destroysValid (h : w.Traced s) (t : τ) : w.destroysValid t = false := by
  rw [destroysValid]
  split
  next flag left rest hf =>
    rw [beq_eq_false_iff_ne]
    intro hvalid
    obtain ⟨ptr, ha⟩ := h.isValid_iff.mp hvalid
    obtain ⟨n, hn, -⟩ := h.home flag ptr ha
    have hholds := h.holds n
    rw [hn] at hholds
    have hpos := hholds.refs_pos h.consistent
    obtain ⟨-, -, -, -, -, -, hzero⟩ := h.consistent.destroying hf
    omega
  · rfl

theorem Traced.proceed_step (h : w.Traced s) (hw : ∀ object ∈ w.memory.objects, object.refCount + 1 < 2 ^ bits)
    (hs : w.step bits (.proceed t) = some v) : v.Traced (s.step (.proceed t)) := by
  obtain ⟨memory, hm, rfl⟩ := Option.map_eq_some_iff.mp hs
  obtain ⟨frame, rest, hf, rfl⟩ := Memory.step_proceed hm
  have hfaults : w.faults + (if w.destroysValid t then 1 else 0) = 0 := by
    rw [h.not_destroysValid t, h.faultless]
    rfl
  exact ⟨h.consistent.execute hf hw, h.isValid, (length_execute _ _ _).trans h.objects,
    fun n => (h.holds n).execute h.consistent.orderly hf, h.factory, h.home, h.apart, h.ptr, hfaults⟩

theorem Traced.step {a : Label τ} (h : w.Traced s)
    (hw : ∀ object ∈ w.memory.objects, object.refCount + 1 < 2 ^ bits) (hs : w.step bits a = some v) :
    v.Traced (s.step a) := by
  have hself (u : WeakPtrs τ) (n : Nat) : u.setPtr n (u.ptr n) = u := by
    rw [setPtr, Function.update_eq_self]
  have hone (n k : Nat) (hn : k ≠ n) : (.var k : Slot) ∉ [(.var n : Slot)] := by simpa using hn
  have horigin (src : Nat) (hsrc : w.factories src = none) (k x : Nat) := h.ptr src k x hsrc
  cases a with
  | factory t n ptr => exact h.factory_step hs
  | getWeakPtr t dst n =>
    rw [WeakPtrs.step] at hs
    split at hs
    next ptr hf =>
      obtain ⟨hdst, hs⟩ := Option.ite_none_right_eq_some.mp hs
      obtain ⟨u, hu, rfl⟩ := Option.map_eq_some_iff.mp hs
      refine h.start_set hdst hu (by simp) (hone dst) (fun hfree _ hex => Memory.holds_copy hfree hex (h.holds n)) _
        fun k x hk ha => ?_
      obtain ⟨j, hj, hja⟩ := h.factory n _ hf
      obtain rfl := Option.some.inj (hk.symm.trans hj)
      exact Option.some.inj (hja.symm.trans ha)
    · cases hs
  | null t dst =>
    obtain ⟨hdst, hs⟩ := Option.ite_none_right_eq_some.mp hs
    obtain ⟨u, hu, rfl⟩ := Option.map_eq_some_iff.mp hs
    exact h.start_set hdst hu (by simp) (hone dst) (fun hfree _ hex => Memory.holds_null hfree hex) none
      fun k x hk => (by cases hk)
  | copy t dst src =>
    obtain ⟨⟨hdst, hsrc⟩, hs⟩ := Option.ite_none_right_eq_some.mp hs
    obtain ⟨u, hu, rfl⟩ := Option.map_eq_some_iff.mp hs
    exact h.start_set hdst hu (by simp) (hone dst) (fun hfree _ hex => Memory.holds_copy hfree hex (h.holds src)) _
      (horigin src hsrc)
  | move t dst src => exact h.move_step hs
  | assign t dst src =>
    obtain ⟨⟨hdst, hsrc⟩, hs⟩ := Option.ite_none_right_eq_some.mp hs
    obtain ⟨u, hu, rfl⟩ := Option.map_eq_some_iff.mp hs
    exact h.start_set hdst hu (by simp) (hone dst) (fun hfree _ hex => Memory.holds_assign hfree hex (h.holds src)) _
      (horigin src hsrc)
  | moveAssign t dst src => exact h.moveAssign_step hs
  | reset t dst =>
    obtain ⟨hdst, hs⟩ := Option.ite_none_right_eq_some.mp hs
    rw [← hself v dst]
    exact h.start_set hdst hs (by simp) (hone dst) (fun _ _ _ => Memory.holds_reset) _ fun k x hk => (by cases hk)
  | destruct t dst =>
    obtain ⟨hdst, hs⟩ := Option.ite_none_right_eq_some.mp hs
    rw [← hself v dst]
    exact h.start_set hdst hs (by simp) (hone dst) (fun _ _ hex => Memory.holds_destruct hex) _
      fun k x hk => (by cases hk)
  | invalidate t n => exact h.invalidate_step hs
  | destructFactory t n => exact h.destructFactory_step hs
  | proceed t => exact h.proceed_step hw hs

/-- No count is so high that one more reference would wrap it. -/
def NoWrap (bits : Nat) (w : WeakPtrs τ) (_ : Label τ) (_ : WeakPtrs τ) : Prop :=
  ∀ object ∈ w.memory.objects, object.refCount + 1 < 2 ^ bits

instance (bits : Nat) (w v : WeakPtrs τ) (a : Label τ) : Decidable (NoWrap bits w a v) :=
  inferInstanceAs (Decidable (∀ object ∈ w.memory.objects, _))

theorem traced_init : (machine τ bits).init.Traced {} where
  consistent := show (Memory.machine τ bits).init.Consistent from Memory.consistent_init
  isValid := rfl
  objects := rfl
  holds _ := .inr ⟨fun _ _ hf => (by cases hf), rfl⟩
  factory _ _ hf := by cases hf
  home _ _ hk := by cases hk
  apart _ _ ha := by cases ha
  ptr _ _ _ _ hk := by cases hk
  faultless := rfl

theorem traced_runFrom {as : List (Label τ)} (h : w.Traced s) (hw : (machine τ bits).Along (NoWrap bits) w as)
    (hr : (machine τ bits).runFrom w as = some v) : v.Traced (as.foldl WeakOrigins.step s) := by
  induction as generalizing w s with
  | nil =>
    obtain rfl := Option.some.inj hr
    exact h
  | cons a as ih =>
    obtain ⟨u, hu, hr⟩ := Machine.runFrom_cons_some.mp hr
    exact ih (h.step (Machine.Along.head hw hu) hu) (Machine.Along.tail hw hu) hr

/-- In every run in which no count wraps, each flag is invalidated once and before it is destroyed, and a weak pointer
that no thread is about to write gives the object of the factory that it came from, as long as that factory is there,
and null otherwise. -/
theorem get_eq_origin {as : List (Label τ)} (hr : (machine τ bits).run as = some w)
    (hw : (machine τ bits).Along (NoWrap bits) (machine τ bits).init as) :
    w.faults = 0 ∧ w.memory.faults = 0 ∧ ∀ n, w.factories n = none →
      (∀ t, ∀ frame ∈ (w.memory.frames t).head?, .var n ∉ frame.writes) → w.get n = (WeakOrigins.after as).get n := by
  have h := traced_runFrom traced_init hw hr
  exact ⟨h.faultless, h.consistent.faultless, fun n hn hf => h.get_eq hn hf⟩

/-- Two threads have weak pointers to the object of a factory, one of them while the factory is destroyed. -/
theorem get_eq_origin_shared : ∃ w : WeakPtrs (Fin 2), (machine (Fin 2) 32).run
      [.factory 0 0 7, .proceed 0, .getWeakPtr 0 1 0, .proceed 0, .copy 1 2 1, .proceed 1, .invalidate 0 0] = some w ∧
    w.get 2 = none := by
  have hw : (machine (Fin 2) 32).Along (NoWrap 32) (machine (Fin 2) 32).init
      [.factory 0 0 7, .proceed 0, .getWeakPtr 0 1 0, .proceed 0, .copy 1 2 1, .proceed 1, .invalidate 0 0] :=
      by decide
  have hr : (machine (Fin 2) 32).run
      [.factory 0 0 7, .proceed 0, .getWeakPtr 0 1 0, .proceed 0, .copy 1 2 1, .proceed 1,
        .invalidate 0 0] = some _ := rfl
  have h := (get_eq_origin hr hw).2.2 2 rfl
  exact ⟨_, hr, h (Fin.forall_fin_two.mpr ⟨fun _ hf => (by cases hf), fun _ hf => (by cases hf)⟩)⟩

end WeakPtrs
end Ogre.Fml
