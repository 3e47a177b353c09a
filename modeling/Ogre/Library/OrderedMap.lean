import Mathlib.Data.List.Basic

/-! Maps from numbers that are iterated in the order of their keys. -/
namespace Ogre.Library

structure OrderedMap (β : Type*) where
  entries : List (Nat × β) := []
  sorted : entries.Pairwise fun a b => a.1 < b.1 := by decide

namespace OrderedMap
variable {β : Type*}

def empty : OrderedMap β := ⟨[], List.Pairwise.nil⟩

/-- `map[key] = value` on the entries. -/
def insertEntry (key : Nat) (value : β) : List (Nat × β) → List (Nat × β)
  | [] => [(key, value)]
  | e :: l =>
    if key < e.1 then (key, value) :: e :: l
    else if key = e.1 then (key, value) :: l
    else e :: insertEntry key value l

theorem mem_insertEntry {key : Nat} {value : β} {l : List (Nat × β)} {e : Nat × β}
    (h : e ∈ insertEntry key value l) : e = (key, value) ∨ e ∈ l := by
  induction l with
  | nil => exact .inl (by simpa [insertEntry] using h)
  | cons d l ih =>
    simp only [insertEntry] at h
    split at h
    · exact (List.mem_cons.mp h)
    split at h
    · exact (List.mem_cons.mp h).imp_right (List.mem_cons_of_mem _)
    · rcases List.mem_cons.mp h with rfl | h
      · exact .inr (by simp)
      · exact (ih h).imp_right (List.mem_cons_of_mem _)

theorem sorted_insertEntry {key : Nat} {value : β} {l : List (Nat × β)}
    (h : l.Pairwise fun a b => a.1 < b.1) : (insertEntry key value l).Pairwise fun a b => a.1 < b.1 := by
  induction l with
  | nil => simp [insertEntry]
  | cons d l ih =>
    obtain ⟨hd, hl⟩ := List.pairwise_cons.mp h
    unfold insertEntry
    split
    next hlt =>
      refine List.pairwise_cons.mpr ⟨fun e he => ?_, h⟩
      rcases List.mem_cons.mp he with rfl | he
      · exact hlt
      · exact Nat.lt_trans hlt (hd e he)
    split
    next heq => exact List.pairwise_cons.mpr ⟨fun e he => heq ▸ hd e he, hl⟩
    next hne hgt =>
      refine List.pairwise_cons.mpr ⟨fun e he => ?_, ih hl⟩
      rcases mem_insertEntry he with rfl | he
      · exact Nat.lt_of_le_of_ne (Nat.le_of_not_lt hne) (Ne.symm hgt)
      · exact hd e he

/-- A key that is greater than all others comes last. -/
theorem insertEntry_last {key : Nat} {value : β} {l : List (Nat × β)} (h : ∀ e ∈ l, e.1 < key) :
    insertEntry key value l = l ++ [(key, value)] := by
  induction l with
  | nil => rfl
  | cons d l ih =>
    have hd := h d (by simp)
    rw [insertEntry, if_neg (Nat.not_lt.mpr (Nat.le_of_lt hd)), if_neg (Nat.ne_of_gt hd), ih fun e he => h e (by simp [he])]
    rfl

def insert (m : OrderedMap β) (key : Nat) (value : β) : OrderedMap β :=
  ⟨insertEntry key value m.entries, sorted_insertEntry m.sorted⟩

def erase (m : OrderedMap β) (key : Nat) : OrderedMap β :=
  ⟨m.entries.filter fun e => e.1 ≠ key, m.sorted.sublist List.filter_sublist⟩

def find? (m : OrderedMap β) (key : Nat) : Option β :=
  (m.entries.find? fun e => e.1 = key).map (·.2)

theorem entries_insert_last {m : OrderedMap β} {key : Nat} {value : β} (h : ∀ e ∈ m.entries, e.1 < key) :
    (m.insert key value).entries = m.entries ++ [(key, value)] := insertEntry_last h

theorem find?_eq_none {m : OrderedMap β} {key : Nat} : m.find? key = none ↔ ∀ e ∈ m.entries, e.1 ≠ key := by
  simp [find?]

theorem find?_insert {m : OrderedMap β} {key other : Nat} {value : β} :
    (m.insert key value).find? other = if other = key then some value else m.find? other := by
  obtain ⟨l, hl⟩ := m
  simp only [find?, insert]
  clear hl
  induction l with
  | nil => simp only [insertEntry, List.find?_cons]; grind
  | cons d l ih =>
    simp only [insertEntry]
    split
    · simp only [List.find?_cons]; grind
    split
    · simp only [List.find?_cons]; grind
    · simp only [List.find?_cons]
      split
      · grind
      · exact ih

theorem find?_erase {m : OrderedMap β} {key other : Nat} :
    (m.erase key).find? other = if other = key then none else m.find? other := by
  simp only [find?, erase, List.find?_filter]
  split
  next heq => simp [heq]
  next hne =>
    congr 2
    funext e
    grind

end OrderedMap
end Ogre.Library
