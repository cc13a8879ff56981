import Mathlib.Algebra.Order.AbsoluteValue.Basic
import Mathlib.Algebra.Order.BigOperators.Ring.Finset
import Mathlib.Data.Real.Basic
import QpskB210.Lib.Signal

/-!
# Interference

What a filtered signal owes to a disturbance, and what a sample at the peak of
one impulse owes to the other impulses, in any absolute value.
-/

namespace QpskB210.Lib.Signal

open Finset PowerSeries

variable {R : Type} [CommRing R] (v : AbsoluteValue R ℝ)

/-- The most that a filter makes of a signal of size 1. -/
def size (taps : List R) : ℝ := ∑ b ∈ range taps.length, v (taps.getD b 0)

/-- The response to the impulses before and after, as far as `reach` strides. -/
def interference (response : ℤ → R) (reach : ℕ) : ℝ :=
  ∑ m ∈ range reach, (v (response (m + 1)) + v (response (-(m + 1))))

variable {v}

/-- A disturbance grows by no more than the size of the filter. -/
theorem coeff_mul_series_le {disturbance : R⟦X⟧} {most : ℝ}
    (hmost : ∀ n, v (coeff n disturbance) ≤ most) (taps : List R) (n : ℕ) :
    v (coeff n (disturbance * series taps)) ≤ most * size v taps := by
  have hnonneg : 0 ≤ most := (v.nonneg _).trans (hmost 0)
  have hterm : ∀ b, v (coeff (n - b) disturbance * coeff b (series taps)) ≤
      most * v (taps.getD b 0) := by
    intro b
    rw [v.map_mul, coeff_series]
    exact mul_le_mul_of_nonneg_right (hmost _) (v.nonneg _)
  rw [mul_comm, coeff_mul, Nat.sum_antidiagonal_eq_sum_range_succ_mk]
  simp only [mul_comm (coeff _ (series taps))]
  calc v (∑ b ∈ range n.succ, coeff (n - b) disturbance * coeff b (series taps))
      ≤ ∑ b ∈ range n.succ, v (coeff (n - b) disturbance * coeff b (series taps)) := v.sum_le _ _
    _ ≤ ∑ b ∈ range n.succ, most * v (taps.getD b 0) := sum_le_sum fun b _ => hterm b
    _ = ∑ b ∈ (range n.succ).filter (· < taps.length), most * v (taps.getD b 0) := by
        refine (sum_filter_of_ne fun b _ hne => ?_).symm
        by_contra hout
        rw [List.getD_eq_default _ _ (Nat.le_of_not_lt hout), v.map_zero, mul_zero] at hne
        exact hne rfl
    _ ≤ ∑ b ∈ range taps.length, most * v (taps.getD b 0) := by
        refine sum_le_sum_of_subset_of_nonneg (fun b hb => ?_) fun b _ _ =>
          mul_nonneg hnonneg (v.nonneg _)
        exact mem_range.mpr (mem_filter.mp hb).2
    _ = most * size v taps := by rw [size, mul_sum]

/-- The strides within reach, but for 0. -/
def strides (reach : ℕ) : Finset ℤ :=
  (range reach).image (fun m : ℕ => (m + 1 : ℤ)) ∪ (range reach).image (fun m : ℕ => -(m + 1 : ℤ))

theorem mem_strides {reach : ℕ} {m : ℤ} : m ∈ strides reach ↔ m ≠ 0 ∧ m.natAbs ≤ reach := by
  simp only [strides, mem_union, mem_image, mem_range]
  constructor
  · rintro (⟨j, hj, rfl⟩ | ⟨j, hj, rfl⟩) <;> exact ⟨by omega, by omega⟩
  · intro h
    rcases lt_or_ge 0 m with hpos | hneg
    · exact .inl ⟨m.natAbs - 1, by omega, by omega⟩
    · exact .inr ⟨m.natAbs - 1, by omega, by omega⟩

theorem interference_eq (response : ℤ → R) (reach : ℕ) :
    interference v response reach = ∑ m ∈ strides reach, v (response m) := by
  have hdisjoint : Disjoint ((range reach).image (fun m : ℕ => (m + 1 : ℤ)))
      ((range reach).image (fun m : ℕ => -(m + 1 : ℤ))) := by
    rw [disjoint_left]
    intro m hm hm'
    obtain ⟨j, -, rfl⟩ := mem_image.mp hm
    obtain ⟨j', -, heq⟩ := mem_image.mp hm'
    omega
  rw [strides, sum_union hdisjoint, sum_image (fun j _ j' _ heq => by simpa using heq),
    sum_image (fun j _ j' _ heq => by simpa using heq), interference, sum_add_distrib]

/-- At the peak of one impulse the others together interfere by no more than
the response between them. -/
theorem impulses_sub_peak_le {impulses : List R} {most : ℝ}
    (hmost : ∀ j < impulses.length, v (impulses.getD j 0) ≤ most) {response : ℤ → R} {reach : ℕ}
    (hreach : ∀ m : ℤ, reach < m.natAbs → response m = 0) {k : ℕ}
    (hk : k < impulses.length) :
    v (∑ j ∈ range impulses.length, impulses.getD j 0 * response ((k : ℤ) - j) -
      impulses.getD k 0 * response 0) ≤ most * interference v response reach := by
  have hnonneg : 0 ≤ most := (v.nonneg _).trans (hmost k hk)
  have hothers : ∑ j ∈ range impulses.length, impulses.getD j 0 * response ((k : ℤ) - j) -
      impulses.getD k 0 * response 0 =
        ∑ j ∈ (range impulses.length).erase k, impulses.getD j 0 * response ((k : ℤ) - j) := by
    rw [← add_sum_erase _ _ (mem_range.mpr hk), sub_self, add_sub_cancel_left]
  rw [hothers]
  calc v (∑ j ∈ (range impulses.length).erase k, impulses.getD j 0 * response ((k : ℤ) - j))
      ≤ ∑ j ∈ (range impulses.length).erase k,
          v (impulses.getD j 0 * response ((k : ℤ) - j)) := v.sum_le _ _
    _ ≤ ∑ j ∈ (range impulses.length).erase k, most * v (response ((k : ℤ) - j)) := by
        refine sum_le_sum fun j hj => ?_
        rw [v.map_mul]
        exact mul_le_mul_of_nonneg_right (hmost j (mem_range.mp (mem_of_mem_erase hj)))
          (v.nonneg _)
    _ = ∑ m ∈ ((range impulses.length).erase k).image (fun j : ℕ => (k : ℤ) - j),
          most * v (response m) := by
        refine (@sum_image _ _ _ _ (fun m => most * v (response m)) _ _
          (fun j : ℕ => (k : ℤ) - j) fun j _ j' _ heq => ?_).symm
        simp only at heq
        omega
    _ = ∑ m ∈ (((range impulses.length).erase k).image (fun j : ℕ => (k : ℤ) - j)).filter
          (·.natAbs ≤ reach), most * v (response m) := by
        refine (sum_filter_of_ne fun m _ hne => ?_).symm
        by_contra hout
        rw [hreach m (not_le.mp hout), v.map_zero, mul_zero] at hne
        exact hne rfl
    _ ≤ ∑ m ∈ strides reach, most * v (response m) := by
        refine sum_le_sum_of_subset_of_nonneg (fun m hm => ?_) fun m _ _ =>
          mul_nonneg hnonneg (v.nonneg _)
        obtain ⟨hm, hin⟩ := mem_filter.mp hm
        obtain ⟨j, hj, rfl⟩ := mem_image.mp hm
        have hne := ne_of_mem_erase hj
        exact mem_strides.mpr ⟨by omega, hin⟩
    _ = most * interference v response reach := by rw [interference_eq, mul_sum]

end QpskB210.Lib.Signal
