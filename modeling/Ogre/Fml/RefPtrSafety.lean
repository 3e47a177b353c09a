import Ogre.Fml.RefPtr

/-! What the reference counts say in every run: an object is destroyed once, by the thread that released its last
reference, and is not used afterwards. -/
namespace Ogre.Fml
open Ogre.Library

namespace Memory
variable {τ : Type} {m n : Memory τ} {o : Nat} {s : Slot} {t : τ} {f g frame : Frame}
  {p : Option Nat} {rest : List Frame} {bits : Nat} {object : RefCounted}

section Discipline

/-- What an operation relies on, as long as it is not done. -/
structure Sound (m : Memory τ) (frame : Frame) : Prop where
  constructs : ∀ dst ∈ frame.constructs, m.pointers (.var dst) = none
  uses : ∀ s ∈ frame.uses, (m.pointers s).isSome ∧ m.Reached frame.held frame.via s
  copies : ∀ c ∈ frame.copies, m.get c.1 = c.2

/-- Each thread is in one operation, of the program or of the destructor below it, and the operations do not
interfere. -/
structure Orderly (m : Memory τ) : Prop where
  below : ∀ t, ∀ frame ∈ (m.frames t).tail, frame.destroying.isSome
  sound : ∀ t, ∀ frame ∈ (m.frames t).head?, m.Sound frame
  apart : ∀ t u, t ≠ u → ∀ f ∈ (m.frames t).head?, ∀ g ∈ (m.frames u).head?,
    ∀ s ∈ f.writes, s ∉ g.writes ∧ s ∉ g.reads

/-- A member that an operation is at is one of those that it needs to be there. -/
theorem mem_uses {i : Nat} (h : .member o i ∈ f.writes ∨ .member o i ∈ f.reads) : .member o i ∈ f.uses := by
  cases f <;> simp_all [Frame.writes, Frame.reads, Frame.uses]

theorem Sound.congr (h : m.Sound g) (hp : ∀ s, s ∈ g.writes ∨ s ∈ g.reads → n.pointers s = m.pointers s) :
    n.Sound g where
  constructs dst hdst := by
    rw [hp (.var dst) (by cases g <;> simp_all [Frame.constructs, Frame.writes])]
    exact h.constructs dst hdst
  uses s hs := by
    have hvia (v : Slot) (hv : v ∈ g.via) : n.get v = m.get v := by
      unfold get
      rw [hp v (by cases g <;> simp_all [Frame.via, Frame.writes, Frame.reads])]
    rw [hp s (by cases g <;> simp_all [Frame.uses, Frame.writes, Frame.reads])]
    refine ⟨(h.uses s hs).1, ?_⟩
    have hr := (h.uses s hs).2
    cases s with
    | var k => trivial
    | member o i =>
      refine hr.imp_right ?_
      rintro ⟨v, hv, hget⟩
      exact ⟨v, hv, (hvia v hv).trans hget⟩
  copies c hc := by
    have hread : c.1 ∈ g.reads := by
      cases g with
      | construct dst src q via =>
        obtain rfl := Option.some.inj hc
        exact List.mem_cons_self
      | assign dst src q via =>
        obtain rfl := Option.some.inj hc
        exact List.mem_cons_self
      | store | swap | adopt | release | destroy => cases hc
    unfold get
    rw [hp c.1 (.inr hread)]
    exact h.copies c hc

/-- A step of one thread that leaves to the others what they use. -/
theorem Orderly.step [DecidableEq τ] (h : m.Orderly) {next : List Frame}
    (hn : n.frames = Function.update m.frames t next)
    (hbelow : ∀ f ∈ next.tail, f.destroying.isSome) (hsound : ∀ f ∈ next.head?, n.Sound f)
    (hothers : ∀ u ≠ t, ∀ g ∈ (m.frames u).head?, ∀ s, s ∈ g.writes ∨ s ∈ g.reads → n.pointers s = m.pointers s)
    (hapart : ∀ u ≠ t, ∀ g ∈ (m.frames u).head?, ∀ f ∈ next.head?,
      (∀ s ∈ f.writes, s ∉ g.writes ∧ s ∉ g.reads) ∧ ∀ s ∈ g.writes, s ∉ f.writes ∧ s ∉ f.reads) : n.Orderly where
  below u := by
    rw [hn]
    by_cases hu : u = t
    · subst hu
      rwa [Function.update_self]
    · rw [Function.update_of_ne hu]
      exact h.below u
  sound u := by
    rw [hn]
    by_cases hu : u = t
    · subst hu
      rwa [Function.update_self]
    · rw [Function.update_of_ne hu]
      exact fun g hg => (h.sound u g hg).congr (hothers u hu g hg)
  apart u v huv := by
    rw [hn]
    by_cases hu : u = t
    · subst hu
      rw [Function.update_self, Function.update_of_ne huv.symm]
      exact fun f hf g hg => (hapart v huv.symm g hg f hf).1
    · rw [Function.update_of_ne hu]
      by_cases hv : v = t
      · subst hv
        rw [Function.update_self]
        exact fun f hf g hg => (hapart u hu f hf g hg).2
      · rw [Function.update_of_ne hv]
        exact h.apart u v huv

/-- The rest of an operation uses no more than the operation. -/
theorem Orderly.apart_of_subset (h : m.Orderly) (hf : f ∈ (m.frames t).head?) (hw : g.writes ⊆ f.writes)
    (hr : g.reads ⊆ f.reads) {u : τ} (hu : u ≠ t) {k : Frame} (hk : k ∈ (m.frames u).head?) :
    (∀ s ∈ g.writes, s ∉ k.writes ∧ s ∉ k.reads) ∧ ∀ s ∈ k.writes, s ∉ g.writes ∧ s ∉ g.reads := by
  constructor
  · exact fun s hs => h.apart t u hu.symm f hf k hk s (hw hs)
  · intro s hs
    obtain ⟨hnw, hnr⟩ := h.apart u t hu k hk f hf s hs
    exact ⟨fun hg => hnw (hw hg), fun hg => hnr (hr hg)⟩

/-- What has no pointers in use: the release of one that was taken out, and the destructor of an object. -/
def Light (f : Frame) : Prop := f.writes = [] ∧ f.reads = [] ∧ f.uses = [] ∧ f.constructs = none ∧ f.copies = none

theorem light_of_destroying (h : f.destroying.isSome) : Light f := by
  cases f with
  | destroy => exact ⟨rfl, rfl, rfl, rfl, rfl⟩
  | construct | assign | store | swap | adopt | release => cases h

theorem Light.sound (h : Light f) : m.Sound f where
  constructs dst hdst := by
    rw [h.2.2.2.1] at hdst
    cases hdst
  uses s hs := by
    rw [h.2.2.1] at hs
    cases hs
  copies c hc := by
    rw [h.2.2.2.2] at hc
    cases hc

/-- The step of a thread that is done with its pointers. -/
theorem Orderly.step_light [DecidableEq τ] (h : m.Orderly) {next : List Frame}
    (hn : n.frames = Function.update m.frames t next)
    (hbelow : ∀ f ∈ next.tail, f.destroying.isSome) (hlight : ∀ f ∈ next.head?, Light f)
    (hothers : ∀ u ≠ t, ∀ g ∈ (m.frames u).head?, ∀ s, s ∈ g.writes ∨ s ∈ g.reads → n.pointers s = m.pointers s) :
    n.Orderly := by
  refine h.step hn hbelow (fun f hf => (hlight f hf).sound) hothers fun u _ g _ f hf => ?_
  obtain ⟨hw, hr, -⟩ := hlight f hf
  rw [hw, hr]
  exact ⟨fun s hs => (List.not_mem_nil hs).elim, fun s _ => ⟨List.not_mem_nil, List.not_mem_nil⟩⟩

/-- What other threads use is not what this one writes. -/
theorem Orderly.others (h : m.Orderly) (hf : f ∈ (m.frames t).head?) (hs : s ∈ f.writes)
    (hn : ∀ r ≠ s, n.pointers r = m.pointers r) :
    ∀ u ≠ t, ∀ g ∈ (m.frames u).head?, ∀ r, r ∈ g.writes ∨ r ∈ g.reads → n.pointers r = m.pointers r := by
  intro u hu g hg r hr
  refine hn r ?_
  rintro rfl
  obtain ⟨hw, hd⟩ := h.apart t u hu.symm f hf g hg r hs
  exact hr.elim hw hd

theorem rest_light (h : m.Orderly) (hf : m.frames t = frame :: rest) : ∀ f ∈ rest, f.destroying.isSome := by
  have hbelow := h.below t
  rw [hf] at hbelow
  exact hbelow

theorem frames_light (h : m.Orderly) (hfree : m.Free t) : ∀ f ∈ m.frames t, f.destroying.isSome := by
  intro f hf
  have hbelow := h.below t
  unfold Free at hfree
  cases hframes : m.frames t with
  | nil =>
    rw [hframes] at hf
    exact (List.not_mem_nil hf).elim
  | cons g rest =>
    rw [hframes] at hf hbelow hfree
    rcases List.mem_cons.mp hf with rfl | hf
    · exact hfree _ rfl
    · exact hbelow f hf

/-- An operation begins with at most one thing to do, on what is the operation's. -/
theorem Orderly.start [DecidableEq τ] {op : Operation} {next : List Frame} (h : m.Orderly) (hfree : m.Free t)
    (hex : m.Exclusive t op)
    (hframes : n.frames = Function.update m.frames t next)
    (hothers : ∀ u ≠ t, ∀ g ∈ (m.frames u).head?, ∀ s, s ∈ g.writes ∨ s ∈ g.reads → n.pointers s = m.pointers s)
    (hnext : next = m.frames t ∨
      ∃ f, next = f :: m.frames t ∧ n.Sound f ∧ f.writes ⊆ op.writes ∧ f.reads ⊆ op.reads) : n.Orderly := by
  have hlight := frames_light h hfree
  rcases hnext with rfl | ⟨f, rfl, hsound, hw, hr⟩
  · exact h.step_light hframes (h.below t)
      (fun f hf => light_of_destroying (hlight f (List.mem_of_mem_head? hf))) hothers
  · refine h.step hframes hlight (fun k hk => ?_) hothers fun u hu g hg k hk => ?_
    · obtain rfl := Option.some.inj hk
      exact hsound
    · obtain rfl := Option.some.inj hk
      obtain ⟨hwrites, hreads⟩ := hex u hu g hg
      refine ⟨fun s hs => hwrites s (hw hs), fun s hs => ⟨fun hf => (hwrites s (hw hf)).1 hs, fun hf => ?_⟩⟩
      exact hreads s (hr hf) hs

end Discipline

section Pointers
variable {v : Option (Option Nat)}

theorem get_update (hp : n.pointers = Function.update m.pointers s v) : n.get = Function.update m.get s v.join := by
  have h : n.get = (m.set s v).get := by
    unfold get
    rw [hp]
    rfl
  rw [h, get_set]

/-- A member stays one, where only what it points to is changed. -/
theorem members_update (hp : n.pointers = Function.update m.pointers s v)
    (hs : (∃ k, s = .var k) ∨ v.isSome = (m.pointers s).isSome) (o i : Nat) :
    (n.pointers (.member o i)).isSome = (m.pointers (.member o i)).isSome := by
  rw [hp]
  by_cases hi : .member o i = s
  · subst hi
    rcases hs with ⟨k, hk⟩ | hs
    · cases hk
    · simpa using hs
  · rw [Function.update_of_ne hi]

end Pointers

variable [Fintype τ]

/-- How many frames of all threads have `p`. -/
def frameCount (p : Frame → Bool) (m : Memory τ) : Nat := total (List.countP p) m.frames

/-- The references to an object: the pointers to it, and what operations have in their hands. -/
noncomputable def refs (m : Memory τ) (o : Nat) : Nat := holders m.get o + m.frameCount (·.held = some o)

def adoptions (m : Memory τ) (o : Nat) : Nat := m.frameCount (·.adopting = some o)

def destructions (m : Memory τ) (o : Nat) : Nat := m.frameCount (·.destroying = some o)

/-- The members that the destructor of an object has left. -/
def left (m : Memory τ) (o : Nat) : Nat := total (fun frames => (frames.map (Frame.left o)).sum) m.frames

/-- What the code keeps of an object. -/
structure Kept (m : Memory τ) (o : Nat) (object : RefCounted) : Prop where
  counted : object.refCount = m.refs o
  started : object.destructionStarted ↔ m.refs o = 0
  adopted : m.adoptions o = object.adoptionRequired.toNat
  fresh : object.adoptionRequired → m.refs o = 1
  destroyed : m.destructions o + object.destroyed = object.destructionStarted.toNat
  members : ∀ i, (m.pointers (.member o i)).isSome ↔
    i < (if object.destructionStarted then 0 else object.members) + m.left o

/-- There is nothing of an object that was not made. -/
structure Absent (m : Memory τ) (o : Nat) : Prop where
  refs : m.refs o = 0
  adoptions : m.adoptions o = 0
  destructions : m.destructions o = 0
  left : m.left o = 0
  members : ∀ i, (m.pointers (.member o i)).isSome = false

structure Consistent (m : Memory τ) : Prop where
  finite : Finite m.get
  kept : ∀ o object, m.objects[o]? = some object → m.Kept o object
  absent : ∀ o, m.objects[o]? = none → m.Absent o
  orderly : m.Orderly
  faultless : m.faults = 0

/-- Two states that agree in what they have of an object, apart from the references. -/
structure Alike (m n : Memory τ) (o : Nat) : Prop where
  adoptions : n.adoptions o = m.adoptions o
  destructions : n.destructions o = m.destructions o
  left : n.left o = m.left o
  members : ∀ i, (n.pointers (.member o i)).isSome = (m.pointers (.member o i)).isSome

structure Same (m n : Memory τ) (o : Nat) : Prop extends Alike m n o where
  refs : n.refs o = m.refs o

theorem Kept.same (h : m.Kept o object) (hs : m.Same n o) : n.Kept o object where
  counted := hs.refs ▸ h.counted
  started := hs.refs ▸ h.started
  adopted := hs.adoptions ▸ h.adopted
  fresh := hs.refs ▸ h.fresh
  destroyed := hs.destructions ▸ h.destroyed
  members i := by rw [hs.members, hs.left, h.members]

theorem Absent.same (h : m.Absent o) (hs : m.Same n o) : n.Absent o where
  refs := hs.refs ▸ h.refs
  adoptions := hs.adoptions ▸ h.adoptions
  destructions := hs.destructions ▸ h.destructions
  left := hs.left ▸ h.left
  members i := by rw [hs.members, h.members]

section Changes
variable {v : Option (Option Nat)} {next : List Frame}

theorem countP_held_cons : (f :: rest).countP (·.held = some o) =
    rest.countP (·.held = some o) + if f.held = some o then 1 else 0 := by
  simp [List.countP_cons]

theorem countP_adopting_cons : (f :: rest).countP (·.adopting = some o) =
    rest.countP (·.adopting = some o) + if f.adopting = some o then 1 else 0 := by
  simp [List.countP_cons]

theorem countP_destroying_cons : (f :: rest).countP (·.destroying = some o) =
    rest.countP (·.destroying = some o) + if f.destroying = some o then 1 else 0 := by
  simp [List.countP_cons]

theorem left_eq_zero (h : f.destroying ≠ some o) : f.left o = 0 := by
  cases f with
  | destroy p left => exact if_neg fun hp => h (congrArg some hp)
  | construct | assign | store | swap | adopt | release => rfl

theorem sum_left_cons : ((f :: rest).map (Frame.left o)).sum = f.left o + (rest.map (Frame.left o)).sum := by
  rw [List.map_cons, List.sum_cons]

variable [DecidableEq τ]

theorem refs_frames (hp : n.pointers = m.pointers) (hn : n.frames = Function.update m.frames t next) (o : Nat) :
    n.refs o + (m.frames t).countP (·.held = some o) = m.refs o + next.countP (·.held = some o) := by
  have hget : n.get = m.get := by
    unfold get
    rw [hp]
  have h := total_update (List.countP fun f : Frame => f.held = some o) m.frames t next
  unfold refs frameCount
  rw [hget, hn]
  omega

theorem refs_update (hfin : Finite m.get) (hp : n.pointers = Function.update m.pointers s v)
    (hn : n.frames = Function.update m.frames t next) (o : Nat) :
    n.refs o + ((if m.get s = some o then 1 else 0) + (m.frames t).countP (·.held = some o)) =
      m.refs o + ((if v.join = some o then 1 else 0) + next.countP (·.held = some o)) := by
  have hslots := holders_update hfin s v.join o
  have h := total_update (List.countP fun f : Frame => f.held = some o) m.frames t next
  unfold refs frameCount
  rw [get_update hp, hn]
  omega

theorem adoptions_frames (hn : n.frames = Function.update m.frames t next) (o : Nat) :
    n.adoptions o + (m.frames t).countP (·.adopting = some o) = m.adoptions o + next.countP (·.adopting = some o) := by
  unfold adoptions frameCount
  rw [hn]
  exact total_update _ _ _ _

theorem destructions_frames (hn : n.frames = Function.update m.frames t next) (o : Nat) :
    n.destructions o + (m.frames t).countP (·.destroying = some o) =
      m.destructions o + next.countP (·.destroying = some o) := by
  unfold destructions frameCount
  rw [hn]
  exact total_update _ _ _ _

theorem left_frames (hn : n.frames = Function.update m.frames t next) (o : Nat) :
    n.left o + ((m.frames t).map (Frame.left o)).sum = m.left o + (next.map (Frame.left o)).sum := by
  unfold left
  rw [hn]
  exact total_update (fun frames : List Frame => (frames.map (Frame.left o)).sum) _ _ _

/-- A change of what one thread has to do, other than in the making and the destruction of objects. -/
theorem alike_frames (hn : n.frames = Function.update m.frames t next)
    (hadopting : next.countP (·.adopting = some o) = (m.frames t).countP (·.adopting = some o))
    (hdestroying : next.countP (·.destroying = some o) = (m.frames t).countP (·.destroying = some o))
    (hleft : (next.map (Frame.left o)).sum = ((m.frames t).map (Frame.left o)).sum)
    (hmem : ∀ i, (n.pointers (.member o i)).isSome = (m.pointers (.member o i)).isSome) : m.Alike n o where
  adoptions := by
    have h := adoptions_frames hn o
    omega
  destructions := by
    have h := destructions_frames hn o
    omega
  left := by
    have h := left_frames hn o
    omega
  members := hmem

end Changes

/-- Where one object was changed, and the others are as before. -/
theorem Consistent.objects_set (hm : m.Consistent) (ho : m.objects[o]? ≠ none)
    (hn : n.objects = m.objects.set o object) (hkept : n.Kept o object) (hsame : ∀ p ≠ o, m.Same n p) :
    (∀ p x, n.objects[p]? = some x → n.Kept p x) ∧ ∀ p, n.objects[p]? = none → n.Absent p := by
  have hlt : o < m.objects.length := by
    by_contra hge
    exact ho (List.getElem?_eq_none (Nat.le_of_not_lt hge))
  constructor
  · intro p x hx
    rw [hn] at hx
    by_cases hp : p = o
    · subst hp
      rw [List.getElem?_set_self hlt] at hx
      obtain rfl := Option.some.inj hx
      exact hkept
    · rw [List.getElem?_set_ne (Ne.symm hp)] at hx
      exact (hm.kept p x hx).same (hsame p hp)
  · intro p hx
    rw [hn] at hx
    by_cases hp : p = o
    · subst hp
      rw [List.getElem?_set_self hlt] at hx
      cases hx
    · rw [List.getElem?_set_ne (Ne.symm hp)] at hx
      exact (hm.absent p hx).same (hsame p hp)

/-- Where no object was changed. -/
theorem Consistent.objects_same (hm : m.Consistent) (hn : n.objects = m.objects) (hsame : ∀ p, m.Same n p) :
    (∀ p x, n.objects[p]? = some x → n.Kept p x) ∧ ∀ p, n.objects[p]? = none → n.Absent p := by
  rw [hn]
  exact ⟨fun p x hx => (hm.kept p x hx).same (hsame p), fun p hx => (hm.absent p hx).same (hsame p)⟩

theorem refs_pos_of_get (hf : Finite m.get) (h : m.get s = some o) : 0 < m.refs o :=
  Nat.add_pos_left (holders_pos hf h) _

theorem refs_pos_of_held (hg : g ∈ m.frames t) (h : g.held = some o) : 0 < m.refs o := by
  have hpos : 0 < (m.frames t).countP (·.held = some o) := List.countP_pos_iff.mpr ⟨g, hg, by simpa using h⟩
  exact Nat.add_pos_right _ (Nat.lt_of_lt_of_le hpos (part_le_total (List.countP (·.held = some o)) m.frames t))

/-- An object is kept as long as one of its members is in use. -/
theorem Sound.refs_pos {i : Nat} (h : m.Sound g) (hf : Finite m.get) (hg : g ∈ (m.frames t).head?)
    (hs : .member o i ∈ g.writes ∨ .member o i ∈ g.reads) : 0 < m.refs o := by
  rcases (h.uses _ (mem_uses hs)).2 with hheld | ⟨v, -, hv⟩
  · exact refs_pos_of_held (List.mem_of_mem_head? hg) hheld
  · exact refs_pos_of_get hf hv

theorem Consistent.exists_object (hm : m.Consistent) (h : 0 < m.refs o ∨ 0 < m.adoptions o ∨ 0 < m.destructions o) :
    ∃ object, m.objects[o]? = some object := by
  cases hobject : m.objects[o]? with
  | none =>
    obtain ⟨hr, ha, hd, -, -⟩ := hm.absent o hobject
    omega
  | some object => exact ⟨object, rfl⟩

/-- An object to which there is a reference is not destroyed. -/
theorem Kept.live (hk : m.Kept o object) (h : 0 < m.refs o) :
    object.destructionStarted = false ∧ object.destroyed = 0 := by
  have hstarted : object.destructionStarted = false := by
    rw [Bool.eq_false_iff]
    intro hs
    have hzero := hk.started.mp hs
    omega
  have hdestroyed := hk.destroyed
  rw [hstarted, Bool.toNat_false] at hdestroyed
  exact ⟨hstarted, by omega⟩

/-- An object with a reference besides that of the thread which adopts it is adopted. -/
theorem Kept.shared (hk : m.Kept o object) (h : m.adoptions o < m.refs o) : object.mayBeShared := by
  have hadopted : object.adoptionRequired = false := by
    rw [Bool.eq_false_iff]
    intro ha
    have hone := hk.fresh ha
    have hadopting := hk.adopted
    rw [ha, Bool.toNat_true] at hadopting
    omega
  simp [RefCounted.mayBeShared, hadopted, (hk.live (by omega)).1]

/-- The references besides that of the thread which adopts the object. -/
private theorem held_of_adopting (f : Frame) (h : f.adopting = some o) : f.held = some o := by
  cases f with
  | adopt dst p => exact h
  | construct | assign | store | swap | release | destroy => cases h

theorem adopting_le_held (frames : List Frame) :
    frames.countP (·.adopting = some o) ≤ frames.countP (·.held = some o) :=
  List.countP_mono_left fun f _ hf => by
    rw [decide_eq_true_eq] at hf ⊢
    exact held_of_adopting f hf

theorem adoptions_lt_of_get (hf : Finite m.get) (h : m.get s = some o) : m.adoptions o < m.refs o := by
  have hle : m.adoptions o ≤ m.frameCount (·.held = some o) := Finset.sum_le_sum fun u _ => adopting_le_held _
  have hpos := holders_pos hf h
  unfold refs
  omega

theorem adoptions_lt_of_held (hf : m.frames t = frame :: rest) (h : frame.held = some o) (ha : frame.adopting = none) :
    m.adoptions o < m.refs o := by
  have hlt : m.adoptions o < m.frameCount (·.held = some o) := by
    refine Finset.sum_lt_sum (fun u _ => adopting_le_held _) ⟨t, Finset.mem_univ t, ?_⟩
    have hle := adopting_le_held (o := o) rest
    rw [hf, countP_held_cons, countP_adopting_cons, h, ha, if_pos rfl, if_neg (by simp)]
    omega
  unfold refs
  omega

section AddRef

theorem Kept.addRef (hk : m.Kept o object) (ha : m.Alike n o) (hr : n.refs o = m.refs o + 1)
    (hshared : object.mayBeShared) (hw : object.refCount + 1 < 2 ^ bits) : n.Kept o (object.addRef bits) := by
  simp only [RefCounted.mayBeShared, Bool.and_eq_true, Bool.not_eq_true'] at hshared
  refine ⟨?_, ?_, ha.adoptions ▸ hk.adopted, fun h => ?_, ha.destructions ▸ hk.destroyed, fun i => ?_⟩
  · rw [RefCounted.addRef, Nat.mod_eq_of_lt hw, hk.counted, hr]
  · change object.destructionStarted ↔ _
    rw [hshared.2, hr]
    simp
  · change object.adoptionRequired at h
    rw [hshared.1] at h
    cases h
  · rw [ha.members, ha.left, hk.members]
    rfl

/-- One more reference to an object that is shared. -/
theorem Consistent.addRef (hm : m.Consistent) (hw : ∀ object ∈ m.objects, object.refCount + 1 < 2 ^ bits)
    (hp : ∀ o, p = some o → m.adoptions o < m.refs o) (hobjects : n.objects = (m.addRef bits p).objects)
    (halike : ∀ o, m.Alike n o) (hrefs : ∀ o, n.refs o = m.refs o + if p = some o then 1 else 0) :
    ((∀ q x, n.objects[q]? = some x → n.Kept q x) ∧ ∀ q, n.objects[q]? = none → n.Absent q) ∧
      (m.addRef bits p).faults = 0 := by
  cases p with
  | none =>
    refine ⟨hm.objects_same hobjects fun q => ⟨halike q, ?_⟩, hm.faultless⟩
    simpa using hrefs q
  | some o =>
    have hlt := hp o rfl
    obtain ⟨object, ho⟩ := hm.exists_object (o := o) (.inl (by omega))
    have hk := hm.kept o object ho
    have hshared := hk.shared hlt
    have hacc : m.addRef bits (some o) = { m with objects := m.objects.set o (object.addRef bits) } :=
      access_eq ho hshared (hk.live (by omega)).2
    rw [hacc] at hobjects ⊢
    refine ⟨hm.objects_set (by rw [ho]; exact Option.some_ne_none _) hobjects ?_ fun q hq => ⟨halike q, ?_⟩,
      hm.faultless⟩
    · have hr : n.refs o = m.refs o + 1 := by simpa using hrefs o
      exact hk.addRef (halike o) hr hshared (hw object (List.mem_of_getElem? ho))
    · simpa [Ne.symm hq] using hrefs q

variable [DecidableEq τ]

theorem Consistent.execute_construct {dst : Nat} {src : Slot} {via : List Slot} (hm : m.Consistent)
    (hf : m.frames t = .construct dst src p via :: rest) (hw : ∀ object ∈ m.objects, object.refCount + 1 < 2 ^ bits) :
    (m.execute bits t rest (.construct dst src p via)).Consistent := by
  generalize hn : m.execute bits t rest (.construct dst src p via) = n
  have hpointers : n.pointers = Function.update m.pointers (.var dst) (some p) := by
    rw [← hn, execute, pointers_goOn, set, pointers_addRef]
  have hframes : n.frames = Function.update m.frames t rest := by
    rw [← hn, execute, goOn, frames_set, frames_addRef]
  have hhead : .construct dst src p via ∈ (m.frames t).head? := by
    rw [hf]
    rfl
  have hsound := hm.orderly.sound t _ hhead
  have hget : m.get (.var dst) = none := by
    rw [get, hsound.constructs dst rfl]
    rfl
  have hsrc : m.get src = p := hsound.copies (src, p) rfl
  have halike (o : Nat) : m.Alike n o := by
    refine alike_frames hframes ?_ ?_ ?_ fun i => members_update hpointers (.inl ⟨dst, rfl⟩) o i
    · simp [hf, Frame.adopting]
    · simp [hf, Frame.destroying]
    · simp [hf, Frame.left]
  have hrefs (o : Nat) : n.refs o = m.refs o + if p = some o then 1 else 0 := by
    have h := refs_update hm.finite hpointers hframes o
    rw [hget, hf, countP_held_cons, Frame.held_construct, if_neg (by simp), Option.join_some] at h
    omega
  obtain ⟨⟨hkept, habsent⟩, hfaults⟩ := hm.addRef hw (fun o ho => adoptions_lt_of_get hm.finite (hsrc.trans ho))
    (by rw [← hn]; rfl) halike hrefs
  have hlight := rest_light hm.orderly hf
  refine ⟨?_, hkept, habsent, ?_, by rw [← hn]; exact hfaults⟩
  · rw [get_update hpointers]
    exact hm.finite.update _ _
  · exact hm.orderly.step_light hframes (fun f hr => hlight f (List.mem_of_mem_tail hr))
      (fun f hr => light_of_destroying (hlight f (List.mem_of_mem_head? hr)))
      (hm.orderly.others hhead List.mem_cons_self fun r hr => by rw [hpointers, Function.update_of_ne hr])

theorem Consistent.execute_assign {dst src : Slot} {via : List Slot} (hm : m.Consistent)
    (hf : m.frames t = .assign dst src p via :: rest) (hw : ∀ object ∈ m.objects, object.refCount + 1 < 2 ^ bits) :
    (m.execute bits t rest (.assign dst src p via)).Consistent := by
  generalize hn : m.execute bits t rest (.assign dst src p via) = n
  have hpointers : n.pointers = m.pointers := by
    rw [← hn, execute, pointers_goOn, pointers_addRef]
  have hget : n.get = m.get := by
    unfold get
    rw [hpointers]
  have hframes : n.frames = Function.update m.frames t (.store dst p via :: rest) := by
    rw [← hn, execute, goOn, frames_addRef]
  have hhead : .assign dst src p via ∈ (m.frames t).head? := by
    rw [hf]
    rfl
  have hsound := hm.orderly.sound t _ hhead
  have hsrc : m.get src = p := hsound.copies (src, p) rfl
  have halike (o : Nat) : m.Alike n o := by
    refine alike_frames hframes ?_ ?_ ?_ fun i => by rw [hpointers]
    · simp [hf, Frame.adopting]
    · simp [hf, Frame.destroying]
    · simp [hf, Frame.left]
  have hrefs (o : Nat) : n.refs o = m.refs o + if p = some o then 1 else 0 := by
    have h := refs_frames hpointers hframes o
    rw [hf, countP_held_cons, countP_held_cons, Frame.held_assign, Frame.held_store, if_neg (by simp)] at h
    omega
  obtain ⟨⟨hkept, habsent⟩, hfaults⟩ := hm.addRef hw (fun o ho => adoptions_lt_of_get hm.finite (hsrc.trans ho))
    (by rw [← hn]; rfl) halike hrefs
  refine ⟨by rw [hget]; exact hm.finite, hkept, habsent, ?_, by rw [← hn]; exact hfaults⟩
  refine hm.orderly.step hframes (rest_light hm.orderly hf) ?_ (fun u _ g _ r _ => by rw [hpointers]) ?_
  · intro f hf
    obtain rfl := Option.some.inj hf
    refine ⟨fun dst h => (by cases h), fun s hs => ?_, fun c h => (by cases h)⟩
    have hmem : s ∈ (Frame.assign dst src p via).uses := by
      rcases List.mem_cons.mp hs with rfl | hs
      · exact List.mem_cons_self
      · exact List.mem_cons_of_mem _ (List.mem_cons_of_mem _ hs)
    obtain ⟨hsome, hreached⟩ := hsound.uses s hmem
    rw [hpointers]
    refine ⟨hsome, ?_⟩
    cases s with
    | var k => trivial
    | member o i =>
      rcases hreached with h | ⟨v, hv, hv'⟩
      · cases h
      · exact .inr ⟨v, hv, by rw [hget, hv']⟩
  · intro u hu g hg f hf
    obtain rfl := Option.some.inj hf
    exact hm.orderly.apart_of_subset hhead (g := .store dst p via) (fun s hs => hs)
      (fun s hs => List.mem_cons_of_mem _ hs) hu hg

end AddRef

theorem Kept.release (hk : m.Kept o object) (h : m.adoptions o < m.refs o) (hw : object.refCount + 1 < 2 ^ bits)
    (hr : n.refs o + 1 = m.refs o) (ha : n.adoptions o = m.adoptions o)
    (hd : n.destructions o = m.destructions o + object.hasOneRef.toNat)
    (hl : n.left o = m.left o + if object.hasOneRef then object.members else 0)
    (hmem : ∀ i, (n.pointers (.member o i)).isSome = (m.pointers (.member o i)).isSome) :
    n.Kept o (object.release bits) := by
  obtain ⟨hstarted, hdestroyed⟩ := hk.live (by omega)
  have hshared := hk.shared h
  simp only [RefCounted.mayBeShared, Bool.and_eq_true, Bool.not_eq_true'] at hshared
  have hcount := hk.counted
  have hone : object.hasOneRef ↔ n.refs o = 0 := by
    rw [RefCounted.hasOneRef, beq_iff_eq]
    omega
  have hsome := hk.destroyed
  rw [hstarted, hdestroyed, Bool.toNat_false] at hsome
  refine ⟨?_, ?_, ha ▸ hk.adopted, fun hreq => ?_, ?_, fun i => ?_⟩
  · have hsplit : object.refCount + (2 ^ bits - 1) = n.refs o + 2 ^ bits := by omega
    rw [RefCounted.release, hsplit, Nat.add_mod_right, Nat.mod_eq_of_lt (by omega)]
  · rw [RefCounted.release, hstarted, Bool.false_or]
    exact hone
  · change object.adoptionRequired at hreq
    rw [hshared.1] at hreq
    cases hreq
  · rw [RefCounted.release, hstarted, Bool.false_or, hd]
    change m.destructions o + object.hasOneRef.toNat + object.destroyed = object.hasOneRef.toNat
    omega
  · rw [RefCounted.release, hstarted, Bool.false_or, hmem, hl, hk.members, hstarted]
    cases object.hasOneRef with
    | false => simp
    | true => simp [Nat.add_comm]

theorem left_eq_zero_of_destructions (h : m.destructions o = 0) : m.left o = 0 := by
  rw [left, total_eq_zero]
  intro u
  have hnone := (total_eq_zero _ _).mp h u
  rw [List.countP_eq_zero] at hnone
  refine List.sum_eq_zero fun k hk => ?_
  obtain ⟨f, hf, rfl⟩ := List.mem_map.mp hk
  exact left_eq_zero fun hd => hnone f hf (by simpa using hd)

/-- What is known of an object whose destructor runs. -/
theorem Consistent.destroying {k : Nat} (hm : m.Consistent) (hf : m.frames t = .destroy o k :: rest) :
    ∃ object, m.objects[o]? = some object ∧ object.mayBeDestroyed ∧ object.destructionStarted ∧ object.destroyed = 0 ∧
      m.destructions o = 1 ∧ m.refs o = 0 := by
  have hhead : .destroy o k ∈ m.frames t := by
    rw [hf]
    exact List.mem_cons_self
  have hpos : 0 < m.destructions o :=
    Nat.lt_of_lt_of_le (List.countP_pos_iff.mpr ⟨_, hhead, by simp [Frame.destroying]⟩)
      (part_le_total (List.countP (·.destroying = some o)) m.frames t)
  obtain ⟨object, ho⟩ := hm.exists_object (o := o) (.inr (.inr hpos))
  have hk := hm.kept o object ho
  have hdestroyed := hk.destroyed
  cases hs : object.destructionStarted with
  | false =>
    rw [hs, Bool.toNat_false] at hdestroyed
    omega
  | true =>
    rw [hs, Bool.toNat_true] at hdestroyed
    have hzero := hk.started.mp hs
    have hadopted : object.adoptionRequired = false := by
      rw [Bool.eq_false_iff]
      intro ha
      have hone := hk.fresh ha
      omega
    exact ⟨object, ho, by simp [RefCounted.mayBeDestroyed, hadopted, hs], hs, by omega, by omega, hzero⟩

section Executing
variable [DecidableEq τ]

/-- The pointer that is stored has its reference, and the one that was there is left with one. -/
theorem Consistent.store {dst : Slot} (hm : m.Consistent) (hf : m.frames t = frame :: rest) (hheld : frame.held = p)
    (hframe : frame.adopting = none ∧ frame.destroying = none) (hdst : dst ∈ frame.writes)
    (hsome : (m.pointers dst).isSome) : ((m.set dst (some p)).goOn t (.release (m.get dst) :: rest)).Consistent := by
  generalize hn : (m.set dst (some p)).goOn t (.release (m.get dst) :: rest) = n
  have hpointers : n.pointers = Function.update m.pointers dst (some p) := by
    rw [← hn]
    rfl
  have hframes : n.frames = Function.update m.frames t (.release (m.get dst) :: rest) := by
    rw [← hn]
    rfl
  have hhead : frame ∈ (m.frames t).head? := by
    rw [hf]
    rfl
  have hsame (o : Nat) : m.Same n o := by
    refine ⟨alike_frames hframes ?_ ?_ ?_ fun i => members_update hpointers (.inr (by rw [hsome]; rfl)) o i, ?_⟩
    · rw [hf, countP_adopting_cons, countP_adopting_cons, hframe.1]
      rfl
    · rw [hf, countP_destroying_cons, countP_destroying_cons, hframe.2]
      rfl
    · rw [hf, sum_left_cons, sum_left_cons, left_eq_zero (f := frame) (by simp [hframe.2])]
      rfl
    · have h := refs_update hm.finite hpointers hframes o
      rw [hf, countP_held_cons, countP_held_cons, hheld, Frame.held_release, Option.join_some] at h
      omega
  obtain ⟨hkept, habsent⟩ := hm.objects_same (by rw [← hn]; rfl) hsame
  refine ⟨?_, hkept, habsent, ?_, by rw [← hn]; exact hm.faultless⟩
  · rw [get_update hpointers]
    exact hm.finite.update _ _
  · refine hm.orderly.step_light hframes (rest_light hm.orderly hf) (fun f hr => ?_)
      (hm.orderly.others hhead hdst fun r hr => by rw [hpointers, Function.update_of_ne hr])
    obtain rfl := Option.some.inj hr
    exact ⟨rfl, rfl, rfl, rfl, rfl⟩

theorem Consistent.execute_none (hm : m.Consistent) (hf : m.frames t = .release none :: rest) :
    (m.goOn t rest).Consistent := by
  have hsame (o : Nat) : m.Same (m.goOn t rest) o := by
    refine ⟨alike_frames (t := t) rfl ?_ ?_ ?_ fun i => rfl, ?_⟩
    · simp [hf, Frame.adopting]
    · simp [hf, Frame.destroying]
    · simp [hf, Frame.left]
    · have h := refs_frames (m := m) (n := m.goOn t rest) (t := t) rfl rfl o
      rw [hf, countP_held_cons, Frame.held_release, if_neg (by simp)] at h
      omega
  obtain ⟨hkept, habsent⟩ := hm.objects_same (n := m.goOn t rest) rfl hsame
  have hlight := rest_light hm.orderly hf
  exact ⟨hm.finite, hkept, habsent, hm.orderly.step_light (t := t) rfl (fun f hr => hlight f (List.mem_of_mem_tail hr))
    (fun f hr => light_of_destroying (hlight f (List.mem_of_mem_head? hr))) fun _ _ _ _ _ _ => rfl, hm.faultless⟩

theorem Consistent.execute_adopt {dst : Nat} (hm : m.Consistent) (hf : m.frames t = .adopt dst o :: rest) :
    (m.execute bits t rest (.adopt dst o)).Consistent := by
  have hhead : .adopt dst o ∈ (m.frames t).head? := by
    rw [hf]
    rfl
  have hsound := hm.orderly.sound t _ hhead
  have hget : m.get (.var dst) = none := by
    rw [get, hsound.constructs dst rfl]
    rfl
  have hadopting : 0 < m.adoptions o :=
    Nat.lt_of_lt_of_le (List.countP_pos_iff.mpr ⟨_, List.mem_of_mem_head? hhead, by simp [Frame.adopting]⟩)
      (part_le_total (List.countP (·.adopting = some o)) m.frames t)
  obtain ⟨object, ho⟩ := hm.exists_object (o := o) (.inr (.inl hadopting))
  have hk := hm.kept o object ho
  have hrequired : object.adoptionRequired := by
    cases hreq : object.adoptionRequired with
    | false =>
      have hadopted := hk.adopted
      rw [hreq, Bool.toNat_false] at hadopted
      omega
    | true => rfl
  have hone := hk.fresh hrequired
  generalize hn : m.execute bits t rest (.adopt dst o) = n
  have hpointers : n.pointers = Function.update m.pointers (.var dst) (some (some o)) := by
    rw [← hn, execute, pointers_goOn, set, adopt, pointers_access]
  have hframes : n.frames = Function.update m.frames t rest := by
    rw [← hn, execute, goOn, frames_set, adopt, frames_access]
  have hacc : m.adopt o = { m with objects := m.objects.set o object.adopt } :=
    access_eq ho hrequired (hk.live (by omega)).2
  have hrefs (q : Nat) : n.refs q = m.refs q := by
    have h := refs_update hm.finite hpointers hframes q
    rw [hget, hf, countP_held_cons, Frame.held_adopt, if_neg (by simp), Option.join_some] at h
    omega
  have hmembers (q i : Nat) := members_update hpointers (.inl ⟨dst, rfl⟩) q i
  have hadoptions (q : Nat) : n.adoptions q + (if o = q then 1 else 0) = m.adoptions q := by
    have h := adoptions_frames hframes q
    rw [hf, countP_adopting_cons] at h
    have hq : (Frame.adopt dst o).adopting = some q ↔ o = q := by simp [Frame.adopting]
    simp only [hq] at h
    omega
  have hdestructions (q : Nat) : n.destructions q = m.destructions q := by
    have h := destructions_frames hframes q
    simpa [hf, Frame.destroying] using h
  have hleft (q : Nat) : n.left q = m.left q := by
    have h := left_frames hframes q
    simpa [hf, Frame.left] using h
  have hkept : n.Kept o object.adopt := by
    have hadopted := hadoptions o
    have hwas := hk.adopted
    rw [hrequired, Bool.toNat_true] at hwas
    rw [if_pos rfl] at hadopted
    refine ⟨hk.counted.trans (hrefs o).symm, by rw [hrefs]; exact hk.started, ?_, fun h => (by cases h), ?_,
      fun i => ?_⟩
    · change n.adoptions o = 0
      omega
    · rw [hdestructions]
      exact hk.destroyed
    · rw [hmembers, hleft, hk.members]
      rfl
  obtain ⟨hkept, habsent⟩ := hm.objects_set (n := n) (by rw [ho]; exact Option.some_ne_none _)
    (by rw [← hn, execute, objects_goOn, Memory.objects_set, hacc]) hkept fun q hq => by
      have hadopted := hadoptions q
      rw [if_neg (Ne.symm hq)] at hadopted
      exact ⟨⟨hadopted, hdestructions q, hleft q, hmembers q⟩, hrefs q⟩
  have hlight := rest_light hm.orderly hf
  refine ⟨?_, hkept, habsent, ?_, ?_⟩
  · rw [get_update hpointers]
    exact hm.finite.update _ _
  · exact hm.orderly.step_light hframes (fun f hr => hlight f (List.mem_of_mem_tail hr))
      (fun f hr => light_of_destroying (hlight f (List.mem_of_mem_head? hr)))
      (hm.orderly.others hhead List.mem_cons_self fun r hr => by rw [hpointers, Function.update_of_ne hr])
  · rw [← hn, execute, faults_goOn, faults_set, hacc]
    exact hm.faultless

theorem Consistent.execute_some (hm : m.Consistent) (hf : m.frames t = .release (some o) :: rest)
    (hw : ∀ object ∈ m.objects, object.refCount + 1 < 2 ^ bits) : (m.release bits t o rest).Consistent := by
  have hlt := adoptions_lt_of_held hf (o := o) rfl rfl
  obtain ⟨object, ho⟩ := hm.exists_object (o := o) (.inl (by omega))
  have hk := hm.kept o object ho
  have hpositive : object.refCount ≠ 0 := by
    rw [hk.counted]
    omega
  have hacc : m.access o (fun object => object.mayBeShared && object.refCount != 0) (RefCounted.release bits) =
      { m with objects := m.objects.set o (object.release bits) } :=
    access_eq ho (by simp [hk.shared hlt, hpositive]) (hk.live (by omega)).2
  have hrelease : m.release bits t o rest =
      ({ m with objects := m.objects.set o (object.release bits) } : Memory τ).goOn t
      (if object.hasOneRef then .destroy o object.members :: rest else rest) := by
    rw [release, ho, hacc]
  generalize hn : m.release bits t o rest = n
  rw [hn] at hrelease
  have hpointers : n.pointers = m.pointers := by rw [hrelease, pointers_goOn]
  have hframes : n.frames = Function.update m.frames t
      (if object.hasOneRef then .destroy o object.members :: rest else rest) := by
    rw [hrelease]
    rfl
  have hmembers (q i : Nat) : (n.pointers (.member q i)).isSome = (m.pointers (.member q i)).isSome := by
    rw [hpointers]
  have hrefs (q : Nat) : n.refs q + (if o = q then 1 else 0) = m.refs q := by
    have h := refs_frames hpointers hframes q
    have hnext : (if object.hasOneRef then Frame.destroy o object.members :: rest else rest).countP (·.held = some q) =
        rest.countP (·.held = some q) := by
      split
      · rw [countP_held_cons, Frame.held_destroy, if_neg (by simp), Nat.add_zero]
      · rfl
    rw [hf, countP_held_cons, Frame.held_release, hnext] at h
    simp only [Option.some.injEq] at h
    omega
  have hadoptions (q : Nat) : n.adoptions q = m.adoptions q := by
    have h := adoptions_frames hframes q
    rw [hf] at h
    split at h
    · simpa [Frame.adopting] using h
    · simpa [Frame.adopting] using h
  have hdestructions (q : Nat) : n.destructions q = m.destructions q + if o = q then object.hasOneRef.toNat else 0 := by
    have h := destructions_frames hframes q
    rw [hf] at h
    split at h
    next hone =>
      rw [countP_destroying_cons, countP_destroying_cons] at h
      simp only [Frame.destroying, Option.some.injEq, reduceCtorEq, if_false] at h
      rw [hone, Bool.toNat_true]
      omega
    next hone =>
      rw [Bool.not_eq_true] at hone
      rw [hone, Bool.toNat_false, ite_self]
      simpa [Frame.destroying] using h
  have hleft (q : Nat) : n.left q = m.left q + if o = q ∧ object.hasOneRef then object.members else 0 := by
    have h := left_frames hframes q
    rw [hf] at h
    split at h
    next hone =>
      rw [sum_left_cons, sum_left_cons] at h
      simp only [Frame.left] at h
      simp only [hone, and_true]
      omega
    next hone =>
      rw [sum_left_cons] at h
      simp only [Frame.left] at h
      rw [if_neg fun h => hone h.2]
      omega
  have hkept : n.Kept o (object.release bits) := by
    have hr := hrefs o
    have hd := hdestructions o
    have hl := hleft o
    rw [if_pos rfl] at hr hd
    simp only [true_and] at hl
    exact hk.release hlt (hw object (List.mem_of_getElem? ho)) hr (hadoptions o) hd hl (hmembers o)
  obtain ⟨hkept, habsent⟩ := hm.objects_set (n := n) (by rw [ho]; exact Option.some_ne_none _)
    (by rw [hrelease]; rfl) hkept fun q hq => by
      have hr := hrefs q
      have hd := hdestructions q
      have hl := hleft q
      rw [if_neg (Ne.symm hq)] at hr hd
      rw [if_neg fun h => hq h.1.symm] at hl
      exact ⟨⟨hadoptions q, hd, hl, hmembers q⟩, hr⟩
  have hlight := rest_light hm.orderly hf
  refine ⟨?_, hkept, habsent, ?_, by rw [hrelease]; exact hm.faultless⟩
  · unfold get
    rw [hpointers]
    exact hm.finite
  · refine hm.orderly.step_light hframes ?_ ?_ fun _ _ _ _ _ _ => by rw [hpointers]
    · split
      · exact hlight
      · exact fun f hr => hlight f (List.mem_of_mem_tail hr)
    · split
      · intro f hr
        obtain rfl := Option.some.inj hr
        exact ⟨rfl, rfl, rfl, rfl, rfl⟩
      · exact fun f hr => light_of_destroying (hlight f (List.mem_of_mem_head? hr))

/-- The destructor of an object is in one place. -/
theorem left_eq {k : Nat} (hf : m.frames t = .destroy o k :: rest) (h : m.destructions o = 1) : m.left o = k := by
  have hn : (m.goOn t rest).destructions o = 0 := by
    have hd := destructions_frames (m := m) (n := m.goOn t rest) (t := t) rfl o
    have hone : (Frame.destroy o k).destroying = some o := rfl
    rw [hf, countP_destroying_cons, hone, if_pos rfl] at hd
    omega
  have hl := left_frames (m := m) (n := m.goOn t rest) (t := t) rfl o
  have hzero := left_eq_zero_of_destructions hn
  have hk : (Frame.destroy o k).left o = k := if_pos rfl
  rw [hf, sum_left_cons, hk] at hl
  omega

theorem Consistent.execute_destroyed (hm : m.Consistent) (hf : m.frames t = .destroy o 0 :: rest) :
    ((m.destroy o).goOn t rest).Consistent := by
  obtain ⟨object, ho, hmay, hs, hlive, hone, hzero⟩ := hm.destroying hf
  have hk := hm.kept o object ho
  have hacc : m.destroy o = { m with objects := m.objects.set o object.destroy } := access_eq ho hmay hlive
  rw [hacc]
  generalize hn : ({ m with objects := m.objects.set o object.destroy } : Memory τ).goOn t rest = n
  have hpointers : n.pointers = m.pointers := by
    rw [← hn]
    rfl
  have hframes : n.frames = Function.update m.frames t rest := by
    rw [← hn]
    rfl
  have hrefs (q : Nat) : n.refs q = m.refs q := by
    have h := refs_frames hpointers hframes q
    rw [hf, countP_held_cons, Frame.held_destroy, if_neg (by simp)] at h
    omega
  have hadoptions (q : Nat) : n.adoptions q = m.adoptions q := by
    have h := adoptions_frames hframes q
    simpa [hf, Frame.adopting] using h
  have hdestructions (q : Nat) : n.destructions q + (if o = q then 1 else 0) = m.destructions q := by
    have h := destructions_frames hframes q
    rw [hf, countP_destroying_cons] at h
    simp only [Frame.destroying, Option.some.injEq] at h
    omega
  have hleft (q : Nat) : n.left q = m.left q := by
    have h := left_frames hframes q
    simpa [hf, Frame.left] using h
  have hkept : n.Kept o object.destroy := by
    have hd := hdestructions o
    have hdestroyed := hk.destroyed
    rw [if_pos rfl] at hd
    refine ⟨hk.counted.trans (hrefs o).symm, by rw [hrefs]; exact hk.started, by rw [hadoptions]; exact hk.adopted,
      by rw [hrefs]; exact hk.fresh, ?_, fun i => by rw [hpointers, hleft]; exact hk.members i⟩
    change n.destructions o + (object.destroyed + 1) = object.destructionStarted.toNat
    omega
  obtain ⟨hkept, habsent⟩ := hm.objects_set (n := n) (by rw [ho]; exact Option.some_ne_none _)
    (by rw [← hn]; rfl) hkept
    fun q hq => by
      have hd := hdestructions q
      rw [if_neg (Ne.symm hq)] at hd
      exact ⟨⟨hadoptions q, hd, hleft q, fun i => by rw [hpointers]⟩, hrefs q⟩
  have hlight := rest_light hm.orderly hf
  refine ⟨?_, hkept, habsent, ?_, by rw [← hn]; exact hm.faultless⟩
  · unfold get
    rw [hpointers]
    exact hm.finite
  · exact hm.orderly.step_light hframes (fun f hr => hlight f (List.mem_of_mem_tail hr))
      (fun f hr => light_of_destroying (hlight f (List.mem_of_mem_head? hr))) fun _ _ _ _ _ _ => by rw [hpointers]

theorem Consistent.execute_member {k : Nat} (hm : m.Consistent) (hf : m.frames t = .destroy o (k + 1) :: rest) :
    ((m.set (.member o k) none).goOn t (.release (m.get (.member o k)) :: .destroy o k :: rest)).Consistent := by
  obtain ⟨object, ho, -, hs, -, hone, hzero⟩ := hm.destroying hf
  have hk := hm.kept o object ho
  have hleftm := left_eq hf hone
  generalize hn : (m.set (.member o k) none).goOn t (.release (m.get (.member o k)) :: .destroy o k :: rest) = n
  have hpointers : n.pointers = Function.update m.pointers (.member o k) none := by
    rw [← hn]
    rfl
  have hframes : n.frames = Function.update m.frames t (.release (m.get (.member o k)) :: .destroy o k :: rest) := by
    rw [← hn]
    rfl
  have hrefs (q : Nat) : n.refs q = m.refs q := by
    have h := refs_update hm.finite hpointers hframes q
    rw [hf, countP_held_cons, countP_held_cons, countP_held_cons, Frame.held_release, Frame.held_destroy,
      Frame.held_destroy, Option.join_none] at h
    simp only [reduceCtorEq, if_false] at h
    omega
  have hadoptions (q : Nat) : n.adoptions q = m.adoptions q := by
    have h := adoptions_frames hframes q
    simpa [hf, Frame.adopting] using h
  have hdestructions (q : Nat) : n.destructions q = m.destructions q := by
    have h := destructions_frames hframes q
    rw [hf, countP_destroying_cons, countP_destroying_cons, countP_destroying_cons] at h
    simp only [Frame.destroying, Option.some.injEq, reduceCtorEq, if_false] at h
    omega
  have hleft (q : Nat) : n.left q + (if o = q then 1 else 0) = m.left q := by
    have h := left_frames hframes q
    rw [hf, sum_left_cons, sum_left_cons, sum_left_cons] at h
    simp only [Frame.left] at h
    split at h
    next hq =>
      rw [if_pos hq]
      omega
    next hq =>
      rw [if_neg hq]
      omega
  have hkept : n.Kept o object := by
    refine ⟨hk.counted.trans (hrefs o).symm, by rw [hrefs]; exact hk.started, by rw [hadoptions]; exact hk.adopted,
      by rw [hrefs]; exact hk.fresh, by rw [hdestructions]; exact hk.destroyed, fun i => ?_⟩
    have hl := hleft o
    have hmem := hk.members i
    rw [if_pos rfl] at hl
    rw [hs, if_pos rfl] at hmem ⊢
    rw [hpointers]
    by_cases hi : i = k
    · subst hi
      rw [Function.update_self]
      simp
      omega
    · rw [Function.update_of_ne (by simpa using hi), hmem]
      omega
  have hothers (q : Nat) (hq : q ≠ o) : m.Same n q := by
    have hl := hleft q
    rw [if_neg (Ne.symm hq)] at hl
    refine ⟨⟨hadoptions q, hdestructions q, hl, fun i => ?_⟩, hrefs q⟩
    rw [hpointers, Function.update_of_ne (by simp [hq])]
  have hobjects : n.objects = m.objects.set o object := by
    obtain ⟨hlt, hget⟩ := List.getElem?_eq_some_iff.mp ho
    rw [← hn, ← hget]
    exact (List.set_getElem_self hlt).symm
  obtain ⟨hkept, habsent⟩ := hm.objects_set (by rw [ho]; exact Option.some_ne_none _) hobjects hkept hothers
  refine ⟨?_, hkept, habsent, ?_, by rw [← hn]; exact hm.faultless⟩
  · rw [get_update hpointers]
    exact hm.finite.update _ _
  · have hlight := rest_light hm.orderly hf
    refine hm.orderly.step_light hframes (fun f hr => ?_) (fun f hr => ?_) fun u hu g hg r hr => ?_
    · rcases List.mem_cons.mp hr with rfl | hr
      · rfl
      · exact hlight f hr
    · obtain rfl := Option.some.inj hr
      exact ⟨rfl, rfl, rfl, rfl, rfl⟩
    · rw [hpointers, Function.update_of_ne]
      rintro rfl
      -- Nobody uses a member of an object that nobody has.
      have hpos := (hm.orderly.sound u g hg).refs_pos hm.finite hg hr
      omega

/-- The next step of a thread. -/
theorem Consistent.execute (hm : m.Consistent) (hf : m.frames t = frame :: rest)
    (hw : ∀ object ∈ m.objects, object.refCount + 1 < 2 ^ bits) : (m.execute bits t rest frame).Consistent := by
  have hhead : frame ∈ (m.frames t).head? := by
    rw [hf]
    rfl
  have hsound := hm.orderly.sound t _ hhead
  cases frame with
  | construct dst src p via => exact hm.execute_construct hf hw
  | assign dst src p via => exact hm.execute_assign hf hw
  | store dst p via => exact hm.store hf rfl ⟨rfl, rfl⟩ List.mem_cons_self (hsound.uses dst List.mem_cons_self).1
  | swap p dst via => exact hm.store hf rfl ⟨rfl, rfl⟩ List.mem_cons_self (hsound.uses dst List.mem_cons_self).1
  | adopt dst o => exact hm.execute_adopt hf
  | release p =>
    cases p with
    | none => exact hm.execute_none hf
    | some o => exact hm.execute_some hf hw
  | destroy o k =>
    cases k with
    | zero => exact hm.execute_destroyed hf
    | succ k => exact hm.execute_member hf

end Executing
theorem get_make (hm : m.Consistent) (members : Nat) : (m.make members).get = m.get := by
  have habsent := hm.absent m.objects.length (List.getElem?_eq_none (Nat.le_refl _))
  funext s
  cases s with
  | var n => rfl
  | member o i =>
    unfold get make
    dsimp only
    split
    next h =>
      have hnone := habsent.members i
      rw [Option.isSome_eq_false_iff, Option.isNone_iff_eq_none] at hnone
      rw [h.1, hnone]
      rfl
    next => rfl

section Starting
variable [DecidableEq τ] {op : Operation}

/-- The first step of an operation that makes no object writes only what is the operation's. -/
theorem Consistent.start_step (next : List Frame) (hm : m.Consistent) (hfree : m.Free t) (hex : m.Exclusive t op)
    (hobjects : n.objects = m.objects) (hfaults : n.faults = m.faults) (hfin : Finite n.get)
    (hsame : ∀ o, m.Same n o) (hframes : n.frames = Function.update m.frames t next)
    (hothers : ∀ s, s ∉ op.writes → n.pointers s = m.pointers s)
    (hnext : next = m.frames t ∨
      ∃ f, next = f :: m.frames t ∧ n.Sound f ∧ f.writes ⊆ op.writes ∧ f.reads ⊆ op.reads) : n.Consistent := by
  obtain ⟨hkept, habsent⟩ := hm.objects_same hobjects hsame
  refine ⟨hfin, hkept, habsent, hm.orderly.start hfree hex hframes (fun u hu g hg s hs => ?_) hnext,
    hfaults.trans hm.faultless⟩
  refine hothers s fun hw => ?_
  obtain ⟨hnw, hnr⟩ := (hex u hu g hg).1 s hw
  exact hs.elim hnw hnr

theorem Consistent.start_null {dst : Nat} (hm : m.Consistent) (hfree : m.Free t) (hv : m.Valid (.null dst))
    (hex : m.Exclusive t (.null dst)) : (m.start t (.null dst)).Consistent := by
  have hget : m.get (.var dst) = none := by
    rw [get, hv.1 dst rfl]
    rfl
  have hpointers : (m.start t (.null dst)).pointers = Function.update m.pointers (.var dst) (some none) := rfl
  have hframes : (m.start t (.null dst)).frames = Function.update m.frames t (m.frames t) :=
    (Function.update_eq_self t m.frames).symm
  refine hm.start_step _ hfree hex rfl rfl ?_ (fun o => ?_) hframes (fun s hs => ?_) (.inl rfl)
  · rw [get_update hpointers]
    exact hm.finite.update _ _
  · refine ⟨alike_frames hframes rfl rfl rfl fun i => members_update hpointers (.inl ⟨dst, rfl⟩) o i, ?_⟩
    have h := refs_update hm.finite hpointers hframes o
    rw [hget, Option.join_some] at h
    omega
  · rw [hpointers, Function.update_of_ne fun h => hs (List.mem_singleton.mpr h)]

/-- A pointer is taken out of its variable, to be released. -/
theorem Consistent.start_destruct {dst : Nat} (hm : m.Consistent) (hfree : m.Free t)
    (hex : m.Exclusive t (.destruct dst)) :
    (m.start t (.destruct dst)).Consistent := by
  have hpointers : (m.start t (.destruct dst)).pointers = Function.update m.pointers (.var dst) none := rfl
  have hframes : (m.start t (.destruct dst)).frames =
    Function.update m.frames t (.release (m.get (.var dst)) :: m.frames t) := rfl
  refine hm.start_step _ hfree hex rfl rfl ?_ (fun o => ?_) hframes (fun s hs => ?_) (.inr ⟨_, rfl, ?_, ?_, ?_⟩)
  · rw [get_update hpointers]
    exact hm.finite.update _ _
  · refine ⟨alike_frames hframes ?_ ?_ ?_ fun i => members_update hpointers (.inl ⟨dst, rfl⟩) o i, ?_⟩
    · simp [Frame.adopting]
    · simp [Frame.destroying]
    · simp [Frame.left]
    · have h := refs_update hm.finite hpointers hframes o
      rw [countP_held_cons, Frame.held_release, Option.join_none] at h
      simp only [reduceCtorEq, if_false] at h
      omega
  · rw [hpointers, Function.update_of_ne fun h => hs (List.mem_singleton.mpr h)]
  · exact Light.sound ⟨rfl, rfl, rfl, rfl, rfl⟩
  · exact List.nil_subset _
  · exact List.nil_subset _

theorem Consistent.start_copy {dst : Nat} {src : Slot} {via : List Slot} (hm : m.Consistent) (hfree : m.Free t)
    (hv : m.Valid (.copy dst src via)) (hex : m.Exclusive t (.copy dst src via)) :
    (m.start t (.copy dst src via)).Consistent := by
  have hframes : (m.start t (.copy dst src via)).frames =
    Function.update m.frames t (.construct dst src (m.get src) via :: m.frames t) := rfl
  refine hm.start_step _ hfree hex rfl rfl hm.finite (fun o => ?_) hframes (fun s hs => rfl)
    (.inr ⟨_, rfl, ⟨fun d hd => ?_, hv.2, fun c hc => ?_⟩, fun s hs => hs, fun s hs => hs⟩)
  · refine ⟨alike_frames hframes ?_ ?_ ?_ fun i => rfl, ?_⟩
    · simp [Frame.adopting]
    · simp [Frame.destroying]
    · simp [Frame.left]
    · have h := refs_frames (m := m) (n := m.start t (.copy dst src via)) rfl hframes o
      rw [countP_held_cons, Frame.held_construct, if_neg (by simp)] at h
      omega
  · obtain rfl := Option.some.inj hd
    exact hv.1 dst rfl
  · obtain rfl := Option.some.inj hc
    rfl

theorem Consistent.start_assign {dst src : Slot} {via : List Slot} (hm : m.Consistent) (hfree : m.Free t)
    (hv : m.Valid (.assign dst src via)) (hex : m.Exclusive t (.assign dst src via)) :
    (m.start t (.assign dst src via)).Consistent := by
  rw [start]
  split
  · exact hm
  have hframes : (m.goOn t (.assign dst src (m.get src) via :: m.frames t)).frames =
    Function.update m.frames t (.assign dst src (m.get src) via :: m.frames t) := rfl
  refine hm.start_step _ hfree hex rfl rfl hm.finite (fun o => ?_) hframes (fun s hs => rfl)
    (.inr ⟨_, rfl, ⟨fun d hd => (by cases hd), hv.2, fun c hc => ?_⟩, fun s hs => hs, fun s hs => hs⟩)
  · refine ⟨alike_frames hframes ?_ ?_ ?_ fun i => rfl, ?_⟩
    · simp [Frame.adopting]
    · simp [Frame.destroying]
    · simp [Frame.left]
    · have h := refs_frames (m := m) (n := m.goOn t (.assign dst src (m.get src) via :: m.frames t)) rfl hframes o
      rw [countP_held_cons, Frame.held_assign, if_neg (by simp)] at h
      omega
  · obtain rfl := Option.some.inj hc
    rfl

theorem Consistent.start_reset {dst : Slot} {via : List Slot} (hm : m.Consistent) (hfree : m.Free t)
    (hv : m.Valid (.reset dst via)) (hex : m.Exclusive t (.reset dst via)) :
    (m.start t (.reset dst via)).Consistent := by
  have hframes : (m.start t (.reset dst via)).frames = Function.update m.frames t
    (.swap none dst via :: m.frames t) := rfl
  refine hm.start_step _ hfree hex rfl rfl hm.finite (fun o => ?_) hframes (fun s hs => rfl)
    (.inr ⟨_, rfl, ⟨fun d hd => (by cases hd), hv.2, fun c hc => (by cases hc)⟩, fun s hs => hs, fun s hs => hs⟩)
  refine ⟨alike_frames hframes ?_ ?_ ?_ fun i => rfl, ?_⟩
  · simp [Frame.adopting]
  · simp [Frame.destroying]
  · simp [Frame.left]
  · have h := refs_frames (m := m) (n := m.start t (.reset dst via)) rfl hframes o
    rw [countP_held_cons, Frame.held_swap, if_neg (by simp)] at h
    omega

theorem Consistent.start_moveAssign {dst src : Slot} {via : List Slot} (hm : m.Consistent) (hfree : m.Free t)
    (hv : m.Valid (.moveAssign dst src via)) (hex : m.Exclusive t (.moveAssign dst src via)) :
    (m.start t (.moveAssign dst src via)).Consistent := by
  generalize hn : m.start t (.moveAssign dst src via) = n
  have hpointers : n.pointers = Function.update m.pointers src (some none) := by
    rw [← hn]
    rfl
  have hframes : n.frames = Function.update m.frames t (.swap (m.get src) dst via :: m.frames t) := by
    rw [← hn]
    rfl
  have hsrc : (m.pointers src).isSome := (hv.2 src (List.mem_cons_of_mem _ List.mem_cons_self)).1
  refine hm.start_step _ hfree hex (by rw [← hn]; rfl) (by rw [← hn]; rfl) ?_ (fun o => ?_) hframes (fun s hs => ?_)
    (.inr ⟨_, rfl, ⟨fun d hd => (by cases hd), fun s hs => ?_, fun c hc => (by cases hc)⟩, ?_, fun s hs => hs⟩)
  · rw [get_update hpointers]
    exact hm.finite.update _ _
  · refine ⟨alike_frames hframes ?_ ?_ ?_ fun i => members_update hpointers (.inr (by rw [hsrc]; rfl)) o i, ?_⟩
    · simp [Frame.adopting]
    · simp [Frame.destroying]
    · simp [Frame.left]
    · have h := refs_update hm.finite hpointers hframes o
      rw [countP_held_cons, Frame.held_swap, Option.join_some] at h
      simp only [reduceCtorEq, if_false] at h
      omega
  · rw [hpointers, Function.update_of_ne]
    rintro rfl
    exact hs (List.mem_cons_of_mem _ List.mem_cons_self)
  · have hused : s ∈ (Operation.moveAssign dst src via).uses := by
      rcases List.mem_cons.mp hs with rfl | hs
      · exact List.mem_cons_self
      · exact List.mem_cons_of_mem _ (List.mem_cons_of_mem _ hs)
    obtain ⟨hsome, hreached⟩ := hv.2 s hused
    constructor
    · rw [hpointers]
      by_cases h : s = src
      · rw [h, Function.update_self]
        rfl
      · rw [Function.update_of_ne h]
        exact hsome
    · cases s with
      | var k => trivial
      | member o i =>
        rcases hreached with h | ⟨v, hvia, hget⟩
        · cases h
        · -- What was reached through the pointer that is moved is in the hands of the operation.
          by_cases h : v = src
          · exact .inl (h ▸ hget)
          · refine .inr ⟨v, hvia, ?_⟩
            rw [get_update hpointers, Function.update_of_ne h, hget]
  · intro s hs
    obtain rfl := List.mem_singleton.mp hs
    exact List.mem_cons_self

/-- Two pointers are written, so that each reference is as before in one of them. -/
theorem Consistent.start_both {a b : Slot} {p q : Option Nat} (hm : m.Consistent) (hfree : m.Free t)
    (hex : m.Exclusive t op) (hwrites : op.writes = [a, b])
    (hn : n = (m.set a (some p)).set b (some q))
    (hsome : ((∃ k, a = .var k) ∨ (m.pointers a).isSome) ∧ (m.pointers b).isSome)
    (hbalance : ∀ o, (if m.get a = some o then 1 else 0) + (if (m.set a (some p)).get b = some o then 1 else 0) =
      (if p = some o then 1 else 0) + if q = some o then 1 else 0) : n.Consistent := by
  have hmiddle : (m.set a (some p)).pointers = Function.update m.pointers a (some p) := rfl
  have hmiddleframes : (m.set a (some p)).frames = Function.update m.frames t (m.frames t) :=
    (Function.update_eq_self t m.frames).symm
  have hpointers : n.pointers = Function.update (m.set a (some p)).pointers b (some q) := by
    rw [hn]
    rfl
  have hframes : n.frames = Function.update (m.set a (some p)).frames t ((m.set a (some p)).frames t) := by
    rw [hn, Function.update_eq_self]
    rfl
  have hfin : Finite (m.set a (some p)).get := by
    rw [get_set]
    exact hm.finite.update _ _
  have hb : ((m.set a (some p)).pointers b).isSome := by
    rw [hmiddle]
    by_cases h : b = a
    · rw [h, Function.update_self]
      rfl
    · rw [Function.update_of_ne h]
      exact hsome.2
  have hmembersa (o i : Nat) : ((m.set a (some p)).pointers (.member o i)).isSome =
    (m.pointers (.member o i)).isSome :=
    members_update hmiddle (hsome.1.imp_right fun h => by rw [h]; rfl) o i
  have halike (o : Nat) : m.Alike n o := by
    have hfirst : m.Alike (m.set a (some p)) o := alike_frames hmiddleframes rfl rfl rfl (hmembersa o)
    have hsecond : (m.set a (some p)).Alike n o :=
      alike_frames hframes rfl rfl rfl fun i => members_update hpointers (.inr (by rw [hb]; rfl)) o i
    exact ⟨hsecond.adoptions.trans hfirst.adoptions, hsecond.destructions.trans hfirst.destructions,
      hsecond.left.trans hfirst.left, fun i => (hsecond.members i).trans (hfirst.members i)⟩
  refine hm.start_step (m.frames t) hfree hex (by rw [hn]; rfl) (by rw [hn]; rfl) ?_ (fun o => ⟨halike o, ?_⟩)
    ?_ (fun s hs => ?_) (.inl rfl)
  · rw [get_update hpointers]
    exact hfin.update _ _
  · have hfirst := refs_update hm.finite hmiddle hmiddleframes o
    have hsecond := refs_update hfin hpointers hframes o
    have h := hbalance o
    rw [Option.join_some] at hfirst hsecond
    omega
  · rw [hframes, frames_set, Function.update_eq_self]
  · rw [hwrites, List.mem_cons, List.mem_singleton, not_or] at hs
    rw [hpointers, Function.update_of_ne hs.2, hmiddle, Function.update_of_ne hs.1]

theorem Consistent.start_move {dst : Nat} {src : Slot} {via : List Slot} (hm : m.Consistent) (hfree : m.Free t)
    (hv : m.Valid (.move dst src via)) (hex : m.Exclusive t (.move dst src via)) :
    (m.start t (.move dst src via)).Consistent := by
  have hdst : m.pointers (.var dst) = none := hv.1 dst rfl
  have hsrc := (hv.2 src List.mem_cons_self).1
  have hne : src ≠ .var dst := by
    rintro rfl
    rw [hdst] at hsrc
    cases hsrc
  refine hm.start_both hfree hex rfl rfl ⟨.inl ⟨dst, rfl⟩, hsrc⟩ fun o => ?_
  have hget : m.get (.var dst) = none := by
    rw [get, hdst]
    rfl
  rw [hget, get_set, Function.update_of_ne hne]
  simp

theorem Consistent.start_swap {dst src : Slot} {via : List Slot} (hm : m.Consistent) (hfree : m.Free t)
    (hv : m.Valid (.swap dst src via)) (hex : m.Exclusive t (.swap dst src via)) :
    (m.start t (.swap dst src via)).Consistent := by
  have hdst := (hv.2 dst List.mem_cons_self).1
  have hsrc := (hv.2 src (List.mem_cons_of_mem _ List.mem_cons_self)).1
  refine hm.start_both hfree hex rfl rfl ⟨.inr hdst, hsrc⟩ fun o => ?_
  rw [get_set]
  by_cases h : src = dst
  · rw [h, Function.update_self, Option.join_some]
  · rw [Function.update_of_ne h, Nat.add_comm]

theorem Consistent.start_make {dst members : Nat} (hm : m.Consistent) (hfree : m.Free t)
    (hv : m.Valid (.make dst members))
    (hex : m.Exclusive t (.make dst members)) : (m.start t (.make dst members)).Consistent := by
  have hlen : m.objects[m.objects.length]? = none := List.getElem?_eq_none (Nat.le_refl _)
  have habsent := hm.absent m.objects.length hlen
  generalize hn : m.start t (.make dst members) = n
  have hget : n.get = m.get := by
    rw [← hn]
    exact get_make hm members
  have hframes : n.frames = Function.update m.frames t (.adopt dst m.objects.length :: m.frames t) := by
    rw [← hn]
    rfl
  have hobjects : n.objects = m.objects ++ [({ members } : RefCounted)] := by
    rw [← hn]
    rfl
  have hpointers (s : Slot) (hs : ∀ i, s ≠ .member m.objects.length i) : n.pointers s = m.pointers s := by
    rw [← hn]
    cases s with
    | var k => rfl
    | member o i => exact if_neg fun h => hs i (by rw [h.1])
  have hrefs (q : Nat) : n.refs q = m.refs q + if m.objects.length = q then 1 else 0 := by
    have h := total_update (List.countP fun f : Frame => f.held = some q) m.frames t
      (.adopt dst m.objects.length :: m.frames t)
    rw [countP_held_cons, Frame.held_adopt] at h
    simp only [Option.some.injEq] at h
    unfold refs frameCount
    rw [hget, hframes]
    omega
  have hadoptions (q : Nat) : n.adoptions q = m.adoptions q + if m.objects.length = q then 1 else 0 := by
    have h := adoptions_frames hframes q
    rw [countP_adopting_cons] at h
    simp only [Frame.adopting, Option.some.injEq] at h
    omega
  have hdestructions (q : Nat) : n.destructions q = m.destructions q := by
    have h := destructions_frames hframes q
    rw [countP_destroying_cons] at h
    simp only [Frame.destroying, reduceCtorEq, if_false] at h
    omega
  have hleft (q : Nat) : n.left q = m.left q := by
    have h := left_frames hframes q
    rw [sum_left_cons] at h
    simp only [Frame.left] at h
    omega
  have hsame (q : Nat) (hq : q ≠ m.objects.length) : m.Same n q := by
    have hr := hrefs q
    have ha := hadoptions q
    rw [if_neg (Ne.symm hq)] at hr ha
    exact ⟨⟨ha, hdestructions q, hleft q, fun i => by rw [hpointers _ (by simp [hq])]⟩, hr⟩
  have hnew : n.Kept m.objects.length ({ members } : RefCounted) := by
    have hr := hrefs m.objects.length
    have ha := hadoptions m.objects.length
    have hd := hdestructions m.objects.length
    have hl := hleft m.objects.length
    rw [if_pos rfl] at hr ha
    rw [habsent.refs] at hr
    rw [habsent.adoptions] at ha
    rw [habsent.destructions] at hd
    rw [habsent.left] at hl
    refine ⟨hr.symm, ?_, ha, fun _ => hr, ?_, fun i => ?_⟩
    · rw [hr]
      simp
    · rw [hd]
      rfl
    · rw [hl, ← hn]
      change (if m.objects.length = m.objects.length ∧ i < members then some none else _).isSome ↔ i < members + 0
      by_cases hi : i < members
      · simp [hi]
      · rw [if_neg fun h => hi h.2, habsent.members i]
        simpa using hi
  refine ⟨by rw [hget]; exact hm.finite, fun q x hx => ?_, fun q hx => ?_, ?_, by rw [← hn]; exact hm.faultless⟩
  · rw [hobjects] at hx
    by_cases hq : q = m.objects.length
    · subst hq
      rw [List.getElem?_append_right (Nat.le_refl _), Nat.sub_self] at hx
      obtain rfl := Option.some.inj hx
      exact hnew
    · have hlt : q < m.objects.length := by
        have hlt := (List.getElem?_eq_some_iff.mp hx).1
        rw [List.length_append, List.length_singleton] at hlt
        omega
      rw [List.getElem?_append_left hlt] at hx
      exact (hm.kept q x hx).same (hsame q hq)
  · have hge : m.objects.length < q := by
      rw [hobjects, List.getElem?_eq_none_iff, List.length_append, List.length_singleton] at hx
      omega
    exact (hm.absent q (List.getElem?_eq_none (Nat.le_of_lt hge))).same (hsame q (Nat.ne_of_gt hge))
  · refine hm.orderly.start hfree hex hframes (fun u hu g hg s hs => hpointers s ?_)
      (.inr ⟨_, rfl, ⟨fun d hd => ?_, fun s hs => (List.not_mem_nil hs).elim, fun c hc => (by cases hc)⟩, fun s hs => hs,
        List.nil_subset _⟩)
    · rintro i rfl
      have hpos := (hm.orderly.sound u g hg).refs_pos hm.finite hg hs
      rw [habsent.refs] at hpos
      cases hpos
    · obtain rfl := Option.some.inj hd
      rw [hpointers _ (by simp)]
      exact hv.1 dst rfl

theorem Consistent.start (hm : m.Consistent) (hfree : m.Free t) (hv : m.Valid op) (hex : m.Exclusive t op) :
    (m.start t op).Consistent := by
  cases op with
  | null dst => exact hm.start_null hfree hv hex
  | make dst members => exact hm.start_make hfree hv hex
  | copy dst src via => exact hm.start_copy hfree hv hex
  | move dst src via => exact hm.start_move hfree hv hex
  | assign dst src via => exact hm.start_assign hfree hv hex
  | moveAssign dst src via => exact hm.start_moveAssign hfree hv hex
  | reset dst via => exact hm.start_reset hfree hv hex
  | swap dst src via => exact hm.start_swap hfree hv hex
  | destruct dst => exact hm.start_destruct hfree hex

end Starting
/-- No count is so high that one more reference would wrap it. -/
def NoWrap (bits : Nat) (m : Memory τ) (_ : Label τ) (_ : Memory τ) : Prop :=
  ∀ object ∈ m.objects, object.refCount + 1 < 2 ^ bits

instance (bits : Nat) (m n : Memory τ) (a : Label τ) : Decidable (NoWrap bits m a n) :=
  inferInstanceAs (Decidable (∀ object ∈ m.objects, _))

variable [DecidableEq τ] {a : Label τ} {as : List (Label τ)}

theorem step_start {op : Operation} (h : m.step bits (.start t op) = some n) :
    m.Free t ∧ m.Valid op ∧ m.Exclusive t op ∧ n = m.start t op := by
  obtain ⟨⟨hfree, hv, hex⟩, hn⟩ := Option.ite_none_right_eq_some.mp h
  exact ⟨hfree, hv, hex, (Option.some.inj hn).symm⟩

theorem step_proceed (h : m.step bits (.proceed t) = some n) :
    ∃ frame rest, m.frames t = frame :: rest ∧ n = m.execute bits t rest frame := by
  rw [step] at h
  split at h
  · cases h
  next frame rest hf => exact ⟨frame, rest, hf, (Option.some.inj h).symm⟩

theorem Consistent.step (hm : m.Consistent) (hw : NoWrap bits m a n) (h : m.step bits a = some n) : n.Consistent := by
  cases a with
  | start t op =>
    obtain ⟨hfree, hv, hex, rfl⟩ := step_start h
    exact hm.start hfree hv hex
  | proceed t =>
    obtain ⟨frame, rest, hf, rfl⟩ := step_proceed h
    exact hm.execute hf hw

theorem consistent_init : (machine τ bits).init.Consistent where
  finite := by
    have h : {s | (machine τ bits).init.get s ≠ none} = ∅ := by
      ext s
      simp [machine, get]
    rw [Ogre.Library.Finite, h]
    exact Set.finite_empty
  kept o object h := by
    change ([] : List RefCounted)[o]? = some object at h
    cases h
  absent o _ := by
    have hholders : holders (machine τ bits).init.get o = 0 := by
      unfold holders
      simp [machine, get]
    have hnone (p : Frame → Bool) : (machine τ bits).init.frameCount p = 0 := by simp [frameCount, total, machine]
    exact ⟨by rw [refs, hholders, hnone], hnone _, hnone _, by simp [left, total, machine], fun _ => rfl⟩
  orderly := ⟨fun t f h => (List.not_mem_nil h).elim, fun t f h => (by cases h), fun t u _ f h => (by cases h)⟩
  faultless := rfl

theorem consistent_run (h : (machine τ bits).run as = some m)
    (hw : (machine τ bits).Along (NoWrap bits) (machine τ bits).init as) : m.Consistent :=
  Machine.invariant_along (fun _ _ _ hm hw hs => hm.step hw hs) consistent_init hw h

end Memory
end Ogre.Fml
