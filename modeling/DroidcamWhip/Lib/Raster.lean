import Mathlib.Order.Interval.Set.Basic
import Mathlib.Data.Set.Lattice
import Mathlib.Order.CompletePartialOrder

/-!
Rasters: rows of bytes that start one stride after the other. A stride may be
smaller than a row, so that rows overlap.
-/

/-- `rows` rows of `width` bytes, row `i` at `base + i * stride`. -/
structure Raster where
  base : Nat
  stride : Nat
  width : Nat
  rows : Nat

namespace Raster

variable {r s : Raster} {n : Nat}

def bytes (r : Raster) : Set Nat :=
  {a | ∃ i < r.rows, ∃ j < r.width, a = r.base + i * r.stride + j}

theorem row_mem {i j : Nat} (hi : i < r.rows) (hj : j < r.width) :
    r.base + i * r.stride + j ∈ r.bytes :=
  ⟨i, hi, j, hj, rfl⟩

theorem base_mem (hrows : 0 < r.rows) (hwidth : 0 < r.width) : r.base ∈ r.bytes :=
  ⟨0, hrows, 0, hwidth, by simp⟩

/-- Rows that just fill their stride lie in `rows * stride` bytes. -/
theorem bytes_subset (hpacked : r.width = r.stride) :
    r.bytes ⊆ Set.Ico r.base (r.base + r.rows * r.stride) := by
  rintro a ⟨i, hi, j, hj, rfl⟩
  have hrow : (i + 1) * r.stride ≤ r.rows * r.stride := Nat.mul_le_mul_right _ hi
  rw [Nat.succ_mul] at hrow
  constructor <;> omega

theorem bytes_subset_of_le {lo hi : Nat} (hpacked : r.width = r.stride) (hlo : lo ≤ r.base)
    (hhi : r.base + r.rows * r.stride ≤ hi) : r.bytes ⊆ Set.Ico lo hi :=
  (bytes_subset hpacked).trans (Set.Ico_subset_Ico hlo hhi)

/-- Packed rasters one behind the other are disjoint. -/
theorem disjoint_of_le (hr : r.width = r.stride) (hs : s.width = s.stride)
    (h : r.base + r.rows * r.stride ≤ s.base) : Disjoint r.bytes s.bytes := by
  rw [Set.disjoint_left]
  intro a ha hb
  have hr := (bytes_subset hr ha).2
  have hs := (bytes_subset hs hb).1
  omega

/-- A row longer than the stride reaches the place of the next row. -/
theorem next_row_mem (hlong : r.stride < r.width) (hrows : 0 < r.rows) :
    r.base + r.rows * r.stride ∈ r.bytes := by
  obtain ⟨m, hm⟩ : ∃ m, r.rows = m + 1 := Nat.exists_eq_succ_of_ne_zero hrows.ne'
  rw [hm, Nat.succ_mul, ← Nat.add_assoc]
  exact row_mem (by omega) hlong

/-- So does any row before the last one. -/
theorem row_start_mem {n : Nat} (hn : n < r.rows) (hwidth : 0 < r.width) :
    r.base + n * r.stride ∈ r.bytes :=
  row_mem (j := 0) hn hwidth

end Raster
