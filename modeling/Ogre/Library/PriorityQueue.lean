import Mathlib.Data.List.Sort

/-! Priority queues over a total preorder, as lists in its order: the first of
the least items is at the top. -/
namespace Ogre.Library

structure PriorityQueue (α : Type*) (r : α → α → Prop) where
  items : List α
  sorted : items.Pairwise r

namespace PriorityQueue
variable {α : Type*} {r : α → α → Prop}

def empty : PriorityQueue α r := ⟨[], .nil⟩

def top? (q : PriorityQueue α r) : Option α := q.items.head?

/-- Nothing is taken from an empty queue. -/
def pop (q : PriorityQueue α r) : PriorityQueue α r := ⟨q.items.tail, q.sorted.tail⟩

def size (q : PriorityQueue α r) : Nat := q.items.length

@[simp] theorem items_empty : (empty : PriorityQueue α r).items = [] := rfl
@[simp] theorem items_pop (q : PriorityQueue α r) : q.pop.items = q.items.tail := rfl

section Push
variable [DecidableRel r] [Std.Total r] [IsTrans α r]

def push (q : PriorityQueue α r) (a : α) : PriorityQueue α r :=
  ⟨q.items.orderedInsert r a, q.sorted.orderedInsert a _⟩

theorem items_push (q : PriorityQueue α r) (a : α) : (q.push a).items.Perm (a :: q.items) :=
  List.perm_orderedInsert r a q.items

end Push

section Map
variable {β : Type*} {r' : β → β → Prop} {f : α → β} (hf : ∀ a b, r a b ↔ r' (f a) (f b))

/-- The items through a map that keeps their order. -/
def map (q : PriorityQueue α r) : PriorityQueue β r' := ⟨q.items.map f, q.sorted.map f fun a b => (hf a b).mp⟩

theorem map_pop (q : PriorityQueue α r) : q.pop.map hf = (q.map hf).pop := by simp [map, pop]

theorem top?_map (q : PriorityQueue α r) : (q.map hf).top? = q.top?.map f := by simp [map, top?]

theorem size_map (q : PriorityQueue α r) : (q.map hf).size = q.size := by simp [map, size]

theorem map_push [DecidableRel r] [Std.Total r] [IsTrans α r] [DecidableRel r'] [Std.Total r'] [IsTrans β r']
    (q : PriorityQueue α r) (a : α) : (q.push a).map hf = (q.map hf).push (f a) := by
  simp only [map, push, mk.injEq]
  exact List.map_orderedInsert r r' f q.items a (fun b _ => hf b a) fun b _ => hf a b

end Map

variable {q : PriorityQueue α r} {a : α}

theorem items_of_top (h : q.top? = some a) : q.items = a :: q.pop.items :=
  List.eq_cons_of_mem_head? h

theorem mem_of_top (h : q.top? = some a) : a ∈ q.items := List.mem_of_mem_head? h

/-- The top is related to every item. -/
theorem rel_top [Std.Refl r] (h : q.top? = some a) : ∀ b ∈ q.items, r a b := by
  intro b hb
  have hsorted := q.sorted
  rw [items_of_top h] at hsorted hb
  rcases List.mem_cons.mp hb with rfl | hb
  · exact Std.Refl.refl b
  · exact List.rel_of_pairwise_cons hsorted hb

end PriorityQueue
end Ogre.Library
