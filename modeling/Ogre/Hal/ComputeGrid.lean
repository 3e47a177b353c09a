import Ogre.Hal.ComputePass
import Ogre.Hal.RecordedCommands
import Mathlib.Tactic.Ring
import Mathlib.Tactic.Linarith

/-! Which cells of a grid the shader is invoked for. -/
namespace Ogre.Hal.ComputePass
open Ogre.Core Recorder

/-- The local size that compute pipelines are specialized with; shaders leave the others at 1. -/
def workgroupSizeX (maxWorkgroupSize : Int × Int) : Int := maxWorkgroupSize.1

/-- The counts of groups are of type `uint32_t`. -/
def groupCount (count : Int) : Int := count % 4294967296

/-- One invocation of the dispatch has the cell as its global id. -/
def Invokes (localSizeX : Int) (command : Command) (column row : Int) : Prop :=
  match command with
  | .dispatch x y z => ∃ group member, 0 ≤ group ∧ group < groupCount x ∧ 0 ≤ member ∧ member < localSizeX ∧
      column = group * localSizeX + member ∧ 0 ≤ row ∧ row < groupCount y ∧ 0 < groupCount z
  | _ => False

/-- What a round of the loops does. -/
def halve (size : Int) : Int := max 1 (size / 2)

/-- A loop ends after some rounds, and not with nothing. -/
def LoopEnds (limit size : Int) : Prop :=
  ∃ rounds, (∀ k < rounds, limit < halve^[k] size) ∧ halve^[rounds] size = clampSize limit size ∧
    clampSize limit size ≤ limit ∧ 1 ≤ clampSize limit size

/-- The dispatch that is recorded invokes the shader for all of the grid. -/
def CoversGrid (p : ComputePass) (s : Recorder) (gridSize : Geometry.ISize) : Prop :=
  (gridSize.height ≠ 1 →
    LoopEnds p.maxWorkgroupSize.1 gridSize.width ∧ LoopEnds p.maxWorkgroupSize.2 gridSize.height) ∧
  ∃ dispatch, s.Adds (p.compute s gridSize).2.2
      [.bindDescriptorSets p.pipelineLayout p.descriptorSet p.workspace.writeDescriptorSets, dispatch] ∧
    ∀ column row, 0 ≤ column → column < gridSize.width → 0 ≤ row → row < gridSize.height →
      Invokes (workgroupSizeX p.maxWorkgroupSize) dispatch column row

/-- The groups of a single row are enough for it, or else there are not too many rows and some
number of halvings of the width leaves enough groups. -/
def GridFits (maxWorkgroupSize : Int × Int) (gridSize : Geometry.ISize) : Prop :=
  (gridSize.height = 1 ∧ gridSize.width ≤ gridSize.width % 4294967296 * maxWorkgroupSize.1) ∨
  (gridSize.height ≠ 1 ∧ gridSize.height ≤ maxWorkgroupSize.2 ∧
    ∃ k, gridSize.width / 2 ^ k ≤ maxWorkgroupSize.1 ∧ gridSize.width ≤ gridSize.width / 2 ^ k * maxWorkgroupSize.1)

variable {p : ComputePass} {s : Recorder} {gridSize : Geometry.ISize} {limit size : Int}

/-- The loop halves until the limit is kept for the first time. -/
private theorem clampSize_rounds (hlimit : 1 ≤ limit) (hsize : 1 ≤ size) : ∃ rounds,
    (∀ k < rounds, limit < halve^[k] size ∧ limit < size / 2 ^ k) ∧ halve^[rounds] size = clampSize limit size ∧
    clampSize limit size = size / 2 ^ rounds ∧ clampSize limit size ≤ limit ∧ 1 ≤ clampSize limit size := by
  fun_induction clampSize limit size with
  | case1 size h ih =>
    obtain ⟨rounds, hover, hrounds, hdiv, hle, hpos⟩ := ih (le_max_left 1 _)
    have hhalf : max 1 (size / 2) = size / 2 := max_eq_right (by omega)
    have hdivs (k : Nat) : max 1 (size / 2) / 2 ^ k = size / 2 ^ (k + 1) := by
      rw [hhalf, Int.ediv_ediv_of_nonneg (by norm_num), pow_succ']
    refine ⟨rounds + 1, fun k hk => ?_, hrounds, ?_, hle, hpos⟩
    · cases k with
      | zero => simpa using h.2
      | succ k =>
        have hk := hover k (by omega)
        rw [hdivs] at hk
        exact hk
    · rw [hdiv, hdivs]
  | case2 size h => exact ⟨0, by simp, rfl, by simp, by omega, hsize⟩

theorem clampSize_loopEnds (hlimit : 1 ≤ limit) (hsize : 1 ≤ size) : LoopEnds limit size := by
  obtain ⟨rounds, hover, hrounds, -, hle, hpos⟩ := clampSize_rounds hlimit hsize
  exact ⟨rounds, fun k hk => (hover k hk).1, hrounds, hle, hpos⟩

/-- It keeps enough groups if some number of halvings does. -/
private theorem clampSize_covers_iff (hlimit : 1 ≤ limit) (hsize : 1 ≤ size) :
    size ≤ clampSize limit size * limit ↔ ∃ k, size / 2 ^ k ≤ limit ∧ size ≤ size / 2 ^ k * limit := by
  obtain ⟨rounds, hover, -, hdiv, hle, -⟩ := clampSize_rounds hlimit hsize
  constructor
  · intro h
    exact ⟨rounds, hdiv ▸ hle, hdiv ▸ h⟩
  · rintro ⟨k, hk, hcovers⟩
    have hrounds : rounds ≤ k := by
      by_contra hlt
      exact absurd (hover k (by omega)).2 (by omega)
    have hmono : size / 2 ^ k ≤ size / 2 ^ rounds := by
      obtain ⟨more, rfl⟩ := Nat.exists_eq_add_of_le hrounds
      rw [pow_add, ← Int.ediv_ediv_of_nonneg (by positivity)]
      exact Int.ediv_le_self _ (Int.ediv_nonneg (by omega) (by positivity))
    rw [hdiv]
    exact hcovers.trans (mul_le_mul_of_nonneg_right hmono (by omega))

private theorem clampSize_le_iff (hlimit : 1 ≤ limit) (hsize : 1 ≤ size) :
    size ≤ clampSize limit size ↔ size ≤ limit := by
  constructor
  · intro h
    obtain ⟨-, -, -, -, hle, -⟩ := clampSize_rounds hlimit hsize
    exact h.trans hle
  · intro h
    rw [clampSize, dif_neg (by omega)]

/-- Global ids of a dispatch are those below the groups times their size. -/
private theorem invokes_iff {localSizeX x y column row : Int} (hpos : 1 ≤ localSizeX) (hcolumn : 0 ≤ column)
    (hrow : 0 ≤ row) :
    Invokes localSizeX (.dispatch x y 1) column row ↔ column < groupCount x * localSizeX ∧ row < groupCount y := by
  constructor
  · rintro ⟨group, member, -, hgroup, hmember, hlt, rfl, -, hy, -⟩
    refine ⟨?_, hy⟩
    have hnext : (group + 1) * localSizeX ≤ groupCount x * localSizeX := mul_le_mul_of_nonneg_right hgroup (by omega)
    rw [add_mul] at hnext
    omega
  · rintro ⟨hx, hy⟩
    have hdiv : localSizeX * (column / localSizeX) + column % localSizeX = column := Int.mul_ediv_add_emod _ _
    refine ⟨column / localSizeX, column % localSizeX, Int.ediv_nonneg hcolumn (by omega), ?_,
      Int.emod_nonneg _ (by omega), Int.emod_lt_of_pos _ (by omega), ?_, hrow, hy, by decide⟩
    · exact Int.ediv_lt_of_lt_mul (by omega) hx
    · rw [mul_comm]
      exact hdiv.symm

/-- The last cell is the one that counts. -/
private theorem forall_invokes_iff {localSizeX x y width height : Int} (hpos : 1 ≤ localSizeX) (hwidth : 1 ≤ width)
    (hheight : 1 ≤ height) :
    (∀ column row, 0 ≤ column → column < width → 0 ≤ row → row < height →
      Invokes localSizeX (.dispatch x y 1) column row) ↔
    width ≤ groupCount x * localSizeX ∧ height ≤ groupCount y := by
  constructor
  · intro h
    have hlast := (invokes_iff hpos (by omega) (by omega)).mp
      (h (width - 1) (height - 1) (by omega) (by omega) (by omega) (by omega))
    omega
  · rintro ⟨hx, hy⟩ column row hcolumn hwidth hrow hheight
    exact (invokes_iff hpos hcolumn hrow).mpr ⟨by omega, by omega⟩

private theorem adds_compute (s : Recorder) (gridSize : Geometry.ISize) (hvalid : p.pipelineValid = true)
    (hwidth : 1 ≤ gridSize.width) (hheight : 1 ≤ gridSize.height) :
    s.Adds (p.compute s gridSize).2.2 [.bindDescriptorSets p.pipelineLayout p.descriptorSet
        p.workspace.writeDescriptorSets,
      if gridSize.height = 1 then .dispatch gridSize.width 1 1
      else .dispatch (clampSize p.maxWorkgroupSize.1 gridSize.width)
        (clampSize p.maxWorkgroupSize.2 gridSize.height) 1] := by
  have hnot : ¬ (gridSize.width ≤ 0 ∨ gridSize.height ≤ 0 ∨ p.pipelineValid = false) := by
    rw [hvalid]
    simp only [reduceCtorEq, or_false]
    omega
  rw [compute]
  dsimp only
  rw [if_neg hnot]
  exact (adds_record.trans adds_record : Adds s _ _)

/-- Exactly the grids that fit are invoked as a whole. -/
theorem coversGrid_iff (p : ComputePass) (s : Recorder) (gridSize : Geometry.ISize) (hvalid : p.pipelineValid = true)
    (hwidth : 1 ≤ gridSize.width) (hheight : 1 ≤ gridSize.height)
    (hlimitX : 1 ≤ p.maxWorkgroupSize.1 ∧ p.maxWorkgroupSize.1 < 4294967296)
    (hlimitY : 1 ≤ p.maxWorkgroupSize.2 ∧ p.maxWorkgroupSize.2 < 4294967296) :
    CoversGrid p s gridSize ↔ GridFits p.maxWorkgroupSize gridSize := by
  have hadds := adds_compute s gridSize hvalid hwidth hheight
  have hdispatch : CoversGrid p s gridSize ↔ ∀ column row, 0 ≤ column → column < gridSize.width → 0 ≤ row →
      row < gridSize.height → Invokes (workgroupSizeX p.maxWorkgroupSize) (if gridSize.height = 1
        then .dispatch gridSize.width 1 1
        else .dispatch (clampSize p.maxWorkgroupSize.1 gridSize.width)
          (clampSize p.maxWorkgroupSize.2 gridSize.height) 1) column row := by
    constructor
    · rintro ⟨-, dispatch, hothers, hall⟩
      have hcommands := List.cons.inj (hothers.unique hadds)
      rw [← (List.cons.inj hcommands.2).1]
      exact hall
    · intro hall
      exact ⟨fun _ => ⟨clampSize_loopEnds hlimitX.1 hwidth, clampSize_loopEnds hlimitY.1 hheight⟩, _, hadds, hall⟩
  have hlocal : 1 ≤ workgroupSizeX p.maxWorkgroupSize := hlimitX.1
  rw [hdispatch, GridFits]
  by_cases hrow : gridSize.height = 1
  · rw [if_pos hrow, forall_invokes_iff hlocal hwidth hheight]
    simp only [hrow, true_and, ne_eq, not_true_eq_false, false_and, or_false]
    exact and_iff_left (by decide)
  · rw [if_neg hrow, forall_invokes_iff hlocal hwidth hheight]
    have hx : groupCount (clampSize p.maxWorkgroupSize.1 gridSize.width) =
        clampSize p.maxWorkgroupSize.1 gridSize.width := by
      obtain ⟨-, -, -, -, hle, hpos⟩ := clampSize_rounds hlimitX.1 hwidth
      exact Int.emod_eq_of_lt (by omega) (by omega)
    have hy : groupCount (clampSize p.maxWorkgroupSize.2 gridSize.height) =
        clampSize p.maxWorkgroupSize.2 gridSize.height := by
      obtain ⟨-, -, -, -, hle, hpos⟩ := clampSize_rounds hlimitY.1 hheight
      exact Int.emod_eq_of_lt (by omega) (by omega)
    rw [hx, hy, workgroupSizeX, clampSize_covers_iff hlimitX.1 hwidth, clampSize_le_iff hlimitY.1 hheight]
    simp only [hrow, false_and, false_or, ne_eq, not_false_eq_true, true_and]
    exact and_comm

/-- A pass with a pipeline, on a device with groups of up to 1024. -/
private def readyPass : ComputePass where
  commandBuffer := 0
  maxWorkgroupSize := (1024, 1024)
  pipelineValid := true

theorem coversGrid_square : CoversGrid readyPass {} ⟨512, 512⟩ :=
  (coversGrid_iff readyPass {} ⟨512, 512⟩ rfl (by decide) (by decide) (by decide) (by decide)).mpr
    (.inr ⟨by decide, by decide, 0, by decide, by decide⟩)

/-- No shader is invoked for the rows from 1024 on. -/
theorem coversGrid_tall : ¬ CoversGrid readyPass {} ⟨16, 2048⟩ := by
  rintro ⟨-, dispatch, hothers, hall⟩
  have hadds := adds_compute (p := readyPass) {} ⟨16, 2048⟩ rfl (by decide) (by decide)
  have hcommands := List.cons.inj (hothers.unique hadds)
  rw [(List.cons.inj hcommands.2).1] at hall
  have hlast := (forall_invokes_iff (by decide) (by decide) (by decide)).mp hall
  revert hlast
  simp [readyPass, clampSize, groupCount]

end Ogre.Hal.ComputePass
