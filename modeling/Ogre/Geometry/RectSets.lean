import Mathlib.Data.Set.Basic
import Mathlib.Tactic.Common
import Ogre.Geometry.Rect

/-! Rectangles as the sets of their points: what lies inside of them, what two of them share, and
what is left of one when another is cut out of it. -/
namespace Ogre.Geometry.IRect

def contains (r : IRect) (p : IPoint) : Bool :=
  !r.isEmpty && p.x ≥ r.left && p.y ≥ r.top && p.x < r.right && p.y < r.bottom

def containsRect (r o : IRect) : Bool :=
  !r.isEmpty && (o.isEmpty || (o.left ≥ r.left && o.top ≥ r.top && o.right ≤ r.right && o.bottom ≤ r.bottom))

def cutout (a b : IRect) : Option IRect :=
  if a.isEmpty then none
  else if b.left ≤ a.left ∧ b.right ≥ a.right ∧ b.top ≤ a.top ∧ b.bottom ≥ a.bottom then none
  -- the top, and the bottom
  else if b.left ≤ a.left ∧ b.right ≥ a.right ∧ b.top ≤ a.top ∧ b.bottom > a.top then
    some ⟨a.left, b.bottom, a.right, a.bottom⟩
  else if b.left ≤ a.left ∧ b.right ≥ a.right ∧ b.bottom ≥ a.bottom ∧ b.top < a.bottom then
    some ⟨a.left, a.top, a.right, b.top⟩
  -- the left, and the right
  else if b.top ≤ a.top ∧ b.bottom ≥ a.bottom ∧ b.left ≤ a.left ∧ b.right > a.left then
    some ⟨b.right, a.top, a.right, a.bottom⟩
  else if b.top ≤ a.top ∧ b.bottom ≥ a.bottom ∧ b.right ≥ a.right ∧ b.left < a.right then
    some ⟨a.left, a.top, b.left, a.bottom⟩
  else some a

/-- The points of a rectangle, which has its left and top edges and not the others. -/
def points (r : IRect) : Set IPoint := {p | (r.left ≤ p.x ∧ p.x < r.right) ∧ r.top ≤ p.y ∧ p.y < r.bottom}

/-- The smallest rectangle that has all points of a set. -/
structure IsHull (r : IRect) (s : Set IPoint) : Prop where
  covers : s ⊆ r.points
  least : ∀ q : IRect, s ⊆ q.points → r.points ⊆ q.points

/-- All edges are coordinates of a type with these limits. -/
structure Within (low high : Int) (r : IRect) : Prop where
  left : low ≤ r.left ∧ r.left ≤ high
  top : low ≤ r.top ∧ r.top ≤ high
  right : low ≤ r.right ∧ r.right ≤ high
  bottom : low ≤ r.bottom ∧ r.bottom ≤ high

variable {a b r : IRect} {p : IPoint} {s : Set IPoint} {low high : Int}

theorem mem_points : p ∈ r.points ↔ (r.left ≤ p.x ∧ p.x < r.right) ∧ r.top ≤ p.y ∧ p.y < r.bottom := Iff.rfl

theorem isEmpty_eq_false : r.isEmpty = false ↔ r.left < r.right ∧ r.top < r.bottom := by simp [isEmpty]

theorem isEmpty_eq_false_iff_points : r.isEmpty = false ↔ r.points.Nonempty := by
  rw [isEmpty_eq_false]
  constructor
  · intro h
    exact ⟨⟨r.left, r.top⟩, mem_points.mpr ⟨⟨le_rfl, h.1⟩, le_rfl, h.2⟩⟩
  · rintro ⟨p, hp⟩
    rw [mem_points] at hp
    omega

/-- The points of a rectangle are points of the coordinate type. -/
theorem Within.points (h : r.Within low high) (hp : p ∈ r.points) :
    (low ≤ p.x ∧ p.x ≤ high) ∧ low ≤ p.y ∧ p.y ≤ high := by
  obtain ⟨hleft, htop, hright, hbottom⟩ := h
  rw [mem_points] at hp
  omega

theorem contains_iff : r.contains p ↔ p ∈ r.points := by
  have h : r.contains p ↔ r.isEmpty = false ∧ p.x ≥ r.left ∧ p.y ≥ r.top ∧ p.x < r.right ∧ p.y < r.bottom := by
    simp [contains, and_assoc]
  rw [h, isEmpty_eq_false, mem_points]
  omega

theorem points_subset_iff (ha : a.isEmpty = false) :
    a.points ⊆ b.points ↔ b.left ≤ a.left ∧ b.top ≤ a.top ∧ a.right ≤ b.right ∧ a.bottom ≤ b.bottom := by
  rw [isEmpty_eq_false] at ha
  constructor
  · intro h
    have hfirst := h (show (⟨a.left, a.top⟩ : IPoint) ∈ a.points from mem_points.mpr (by dsimp only; omega))
    have hlast := h (show (⟨a.right - 1, a.bottom - 1⟩ : IPoint) ∈ a.points from
      mem_points.mpr (by dsimp only; omega))
    rw [mem_points] at hfirst hlast
    dsimp only at hfirst hlast
    omega
  · intro h p hp
    rw [mem_points] at hp ⊢
    omega

/-- An empty rectangle contains nothing, not even an empty rectangle. -/
theorem containsRect_iff : a.containsRect b ↔ a.points.Nonempty ∧ b.points ⊆ a.points := by
  rw [← isEmpty_eq_false_iff_points]
  cases hb : b.isEmpty with
  | true =>
    have hpoints : b.points = ∅ := by
      rw [Set.eq_empty_iff_forall_notMem]
      intro p hp
      have hnot := isEmpty_eq_false_iff_points.mpr ⟨p, hp⟩
      rw [hb] at hnot
      cases hnot
    simp [containsRect, hb, hpoints]
  | false =>
    rw [points_subset_iff hb]
    simp [containsRect, hb, and_assoc]

theorem intersectsWithRect_iff : a.intersectsWithRect b ↔ a.left < a.right ∧ a.top < a.bottom ∧ b.left < b.right ∧
    b.top < b.bottom ∧ a.left < b.right ∧ a.top < b.bottom ∧ b.left < a.right ∧ b.top < a.bottom := by
  simp [intersectsWithRect, isEmpty]
  omega

theorem intersectsWithRect_iff_points : a.intersectsWithRect b ↔ (a.points ∩ b.points).Nonempty := by
  rw [intersectsWithRect_iff]
  constructor
  · intro h
    refine ⟨⟨max a.left b.left, max a.top b.top⟩, mem_points.mpr ?_, mem_points.mpr ?_⟩ <;> dsimp only <;> omega
  · rintro ⟨p, ha, hb⟩
    rw [mem_points] at ha hb
    omega

theorem intersection_eq_none : a.intersection b = none ↔ a.points ∩ b.points = ∅ := by
  rw [← Set.not_nonempty_iff_eq_empty, ← intersectsWithRect_iff_points]
  simp [intersection]

theorem intersection_eq_some (h : a.intersection b = some r) : r.points = a.points ∩ b.points := by
  obtain ⟨-, h⟩ := Option.ite_none_right_eq_some.mp h
  obtain rfl := Option.some.inj h
  ext p
  simp only [Set.mem_inter_iff, mem_points]
  omega

/-- Where a rectangle has all points that are left and no other, it is the smallest. -/
theorem isHull_of_eq (h : r.points = s) : r.IsHull s := ⟨h.ge, fun _ hq => h.le.trans hq⟩

/-- Where no side is cut off, two corners that are left lie on each edge. -/
private theorem isHull_uncut (ha : a.isEmpty = false)
    (hwidth : b.left ≤ a.left → b.right ≥ a.right →
      ¬ (b.top ≤ a.top ∧ b.bottom > a.top) ∧ ¬ (b.bottom ≥ a.bottom ∧ b.top < a.bottom))
    (hheight : b.top ≤ a.top → b.bottom ≥ a.bottom →
      ¬ (b.left ≤ a.left ∧ b.right > a.left) ∧ ¬ (b.right ≥ a.right ∧ b.left < a.right)) :
    a.IsHull (a.points \ b.points) := by
  refine ⟨fun p hp => hp.1, fun q hq => (points_subset_iff ha).mpr ?_⟩
  rw [isEmpty_eq_false] at ha
  have corner (x y : Int) (hx : a.left ≤ x ∧ x < a.right) (hy : a.top ≤ y ∧ y < a.bottom)
      (hb : ¬ ((b.left ≤ x ∧ x < b.right) ∧ b.top ≤ y ∧ y < b.bottom)) :
      (q.left ≤ x ∧ x < q.right) ∧ q.top ≤ y ∧ y < q.bottom :=
    hq (show (⟨x, y⟩ : IPoint) ∈ a.points \ b.points from ⟨⟨hx, hy⟩, hb⟩)
  have hlefttop := corner a.left a.top (by omega) (by omega)
  have hleftbottom := corner a.left (a.bottom - 1) (by omega) (by omega)
  have hrighttop := corner (a.right - 1) a.top (by omega) (by omega)
  have hrightbottom := corner (a.right - 1) (a.bottom - 1) (by omega) (by omega)
  refine ⟨?_, ?_, ?_, ?_⟩ <;> omega

/-- What a branch of `cutout` returns: nothing where nothing is left, and else the hull of what is. -/
private def Leaves (a b : IRect) : Option IRect → Prop
  | none => a.points \ b.points = ∅
  | some r => (a.points \ b.points).Nonempty ∧ r.IsHull (a.points \ b.points)

/-- What is left where a side is cut off has all points that are left and no other. -/
private theorem leaves_of_iff (hr : r.left < r.right ∧ r.top < r.bottom)
    (h : ∀ x y : Int, (r.left ≤ x ∧ x < r.right) ∧ r.top ≤ y ∧ y < r.bottom ↔
      ((a.left ≤ x ∧ x < a.right) ∧ a.top ≤ y ∧ y < a.bottom) ∧
        ¬ ((b.left ≤ x ∧ x < b.right) ∧ b.top ≤ y ∧ y < b.bottom)) : Leaves a b (some r) := by
  have hpoints : r.points = a.points \ b.points := by
    ext p
    exact h p.x p.y
  exact ⟨hpoints ▸ isEmpty_eq_false_iff_points.mp (isEmpty_eq_false.mpr hr), isHull_of_eq hpoints⟩

private theorem cutout_leaves (a b : IRect) : Leaves a b (a.cutout b) := by
  cases hempty : a.isEmpty with
  | true =>
    have hpoints : ¬ a.points.Nonempty := fun h => by simp [isEmpty_eq_false_iff_points.mpr h] at hempty
    rw [cutout, if_pos hempty, Leaves, Set.eq_empty_iff_forall_notMem]
    exact fun p hp => hpoints ⟨p, hp.1⟩
  | false =>
    have ha := isEmpty_eq_false.mp hempty
    rw [cutout, if_neg (by simp [hempty])]
    split
    · rw [Leaves, Set.eq_empty_iff_forall_notMem]
      rintro p ⟨hp, hnot⟩
      rw [mem_points] at hp hnot
      omega
    split
    · exact leaves_of_iff (by dsimp only; omega) fun x y => by dsimp only; omega
    split
    · exact leaves_of_iff (by dsimp only; omega) fun x y => by dsimp only; omega
    split
    · exact leaves_of_iff (by dsimp only; omega) fun x y => by dsimp only; omega
    split
    · exact leaves_of_iff (by dsimp only; omega) fun x y => by dsimp only; omega
    · have hhull := isHull_uncut hempty (b := b) (by omega) (by omega)
      refine ⟨?_, hhull⟩
      by_contra hnone
      have hnone := Set.not_nonempty_iff_eq_empty.mp hnone
      -- a hull of nothing lies in every rectangle, also in an empty one
      have hsubset := hhull.least ⟨0, 0, 0, 0⟩ (by simp [hnone])
      have hpoint := hsubset (mem_points.mpr ⟨⟨le_rfl, ha.1⟩, le_rfl, ha.2⟩ : (⟨a.left, a.top⟩ : IPoint) ∈ a.points)
      rw [mem_points] at hpoint
      dsimp only at hpoint
      omega

theorem cutout_eq_none : a.cutout b = none ↔ a.points \ b.points = ∅ := by
  have h := cutout_leaves a b
  cases hcut : a.cutout b with
  | none =>
    rw [hcut] at h
    exact iff_of_true rfl h
  | some r =>
    rw [hcut] at h
    exact iff_of_false (by simp) h.1.ne_empty

theorem cutout_eq_some (h : a.cutout b = some r) : r.IsHull (a.points \ b.points) := by
  have hleaves := cutout_leaves a b
  rw [h] at hleaves
  exact hleaves.2

/-- No edge leaves the range of the coordinates. -/
theorem within_intersection (ha : a.Within low high) (hb : b.Within low high) (h : a.intersection b = some r) :
    r.Within low high := by
  obtain ⟨-, h⟩ := Option.ite_none_right_eq_some.mp h
  obtain rfl := Option.some.inj h
  obtain ⟨⟨_, _⟩, ⟨_, _⟩, ⟨_, _⟩, ⟨_, _⟩⟩ := ha
  obtain ⟨⟨_, _⟩, ⟨_, _⟩, ⟨_, _⟩, ⟨_, _⟩⟩ := hb
  constructor <;> dsimp only <;> omega

theorem within_cutout (ha : a.Within low high) (hb : b.Within low high) (h : a.cutout b = some r) :
    r.Within low high := by
  have hr : r = a ∨ r = { a with top := b.bottom } ∨ r = { a with bottom := b.top } ∨ r = { a with left := b.right } ∨
      r = { a with right := b.left } := by
    unfold cutout at h
    grind
  rcases hr with rfl | rfl | rfl | rfl | rfl
  · exact ha
  · exact ⟨ha.left, hb.bottom, ha.right, ha.bottom⟩
  · exact ⟨ha.left, ha.top, ha.right, hb.top⟩
  · exact ⟨hb.right, ha.top, ha.right, ha.bottom⟩
  · exact ⟨ha.left, ha.top, hb.left, ha.bottom⟩

/-- Two rectangles are what the sets of their points are, and so are their intersection and what a
cutout leaves, all of it inside the range of the coordinates. -/
structure ReadsAsSets (a b : IRect) : Prop where
  contains : ∀ p, a.contains p ↔ p ∈ a.points
  containsRect : a.containsRect b ↔ a.points.Nonempty ∧ b.points ⊆ a.points
  intersectsWithRect : a.intersectsWithRect b ↔ (a.points ∩ b.points).Nonempty
  intersection : ∀ r, a.intersection b = some r → r.points = a.points ∩ b.points
  noIntersection : a.intersection b = none ↔ a.points ∩ b.points = ∅
  cutout : ∀ r, a.cutout b = some r → r.IsHull (a.points \ b.points)
  noCutout : a.cutout b = none ↔ a.points \ b.points = ∅
  pointsWithin : ∀ low high, a.Within low high → ∀ p ∈ a.points, (low ≤ p.x ∧ p.x ≤ high) ∧ low ≤ p.y ∧ p.y ≤ high
  within : ∀ low high, a.Within low high → b.Within low high →
    ∀ r, a.intersection b = some r ∨ a.cutout b = some r → r.Within low high

theorem readsAsSets (a b : IRect) : ReadsAsSets a b where
  contains _ := contains_iff
  containsRect := containsRect_iff
  intersectsWithRect := intersectsWithRect_iff_points
  intersection _ := intersection_eq_some
  noIntersection := intersection_eq_none
  cutout _ := cutout_eq_some
  noCutout := cutout_eq_none
  pointsWithin _ _ ha _ := ha.points
  within _ _ ha hb _ h := h.elim (within_intersection ha hb) (within_cutout ha hb)

/-- The empty set lies in the empty set, but an empty rectangle does not contain another. -/
theorem containsRect_empty :
    ¬ (IRect.containsRect ⟨0, 0, 0, 0⟩ ⟨0, 0, 0, 0⟩ ↔ points ⟨0, 0, 0, 0⟩ ⊆ points ⟨0, 0, 0, 0⟩) := by
  intro h
  have hcontains := h.mpr fun _ hp => hp
  cases hcontains

end Ogre.Geometry.IRect
