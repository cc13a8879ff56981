import Mathlib.Data.List.GetD
import Mathlib.RingTheory.PowerSeries.Basic

/-!
# Signals

A finite signal over a commutative semiring is the power series of its
samples. Convolution is then the product, and a signal that only has
impulses at the multiples of a stride is a sum of shifts.
-/

namespace QpskB210.Lib.Signal

open Finset PowerSeries

variable {R : Type} [CommSemiring R]

/-- The power series with the samples as its coefficients. -/
noncomputable def series (signal : List R) : R⟦X⟧ := .mk fun n => signal.getD n 0

@[simp]
theorem coeff_series (signal : List R) (n : ℕ) : coeff n (series signal) = signal.getD n 0 :=
  coeff_mk n _

/-- The convolution of two signals at any index. -/
def conv (f g : List R) (i : ℤ) : R :=
  ∑ a ∈ range f.length, ∑ b ∈ range g.length,
    if (a + b : ℤ) = i then f.getD a 0 * g.getD b 0 else 0

theorem conv_of_neg (f g : List R) {i : ℤ} (hi : i < 0) : conv f g i = 0 := by
  rw [conv]
  refine sum_eq_zero fun a _ => sum_eq_zero fun b _ => if_neg ?_
  omega

/-- One product of a convolution sum is left of the inner sum. -/
theorem sum_ite_add_eq (g : List R) (a n : ℕ) (x : R) :
    (∑ b ∈ range g.length, if (a + b : ℤ) = n then x * g.getD b 0 else 0) =
      if a ≤ n then x * g.getD (n - a) 0 else 0 := by
  split
  · rename_i hle
    have hindex : ∀ b : ℕ, (a + b : ℤ) = n ↔ b = n - a := by
      intro b
      omega
    simp only [hindex, sum_ite_eq', mem_range]
    split
    · rfl
    · rename_i hout
      rw [List.getD_eq_default _ _ (by omega), mul_zero]
  · rename_i hgt
    exact sum_eq_zero fun b _ => if_neg (by omega)

/-- A convolution is the product of the series. -/
theorem conv_eq_coeff (f g : List R) (n : ℕ) : conv f g n = coeff n (series f * series g) := by
  rw [coeff_mul, Nat.sum_antidiagonal_eq_sum_range_succ_mk, conv]
  simp only [sum_ite_add_eq, coeff_series]
  rw [← sum_filter]
  -- the samples that count on both sides
  have hleft : (range f.length).filter (· ≤ n) ⊆ range n.succ := by
    intro a ha
    rw [mem_filter] at ha
    exact mem_range.mpr (Nat.lt_succ_of_le ha.2)
  refine sum_subset hleft fun a ha hout => ?_
  rw [mem_filter, mem_range, not_and] at hout
  have hend : f.length ≤ a := by
    by_contra hin
    exact hout (by omega) (Nat.le_of_lt_succ (mem_range.mp ha))
  rw [List.getD_eq_default _ _ hend, zero_mul]

/-! ## Impulses -/

/-- `signal` has the samples of `impulses` at the multiples of `stride`, and
zeros between them. -/
def Impulses (impulses signal : List R) (stride : ℕ) : Prop :=
  ∀ n, signal.getD n 0 =
    ∑ j ∈ range impulses.length, if n = j * stride then impulses.getD j 0 else 0

variable {impulses signal : List R} {stride : ℕ}

/-- Each impulse shifts what the signal is multiplied with. -/
theorem Impulses.coeff_mul (h : Impulses impulses signal stride) (q : R⟦X⟧) (n : ℕ) :
    coeff n (series signal * q) = ∑ j ∈ range impulses.length,
      if j * stride ≤ n then impulses.getD j 0 * coeff (n - j * stride) q else 0 := by
  have hseries : series signal =
      ∑ j ∈ range impulses.length, C (impulses.getD j 0) * X ^ (j * stride) := by
    ext n
    rw [coeff_series, h n, map_sum]
    refine sum_congr rfl fun j _ => ?_
    rw [coeff_C_mul, coeff_X_pow, mul_ite, mul_one, mul_zero]
  rw [hseries, sum_mul, map_sum]
  refine sum_congr rfl fun j _ => ?_
  rw [mul_assoc, coeff_C_mul, coeff_X_pow_mul', mul_ite, mul_zero]

/-- The impulses through two filters: each contributes the convolution of the
filters, at its distance from the sample. -/
theorem Impulses.coeff_mul_mul (h : Impulses impulses signal stride) (f g : List R) (n : ℕ) :
    coeff n (series signal * (series f * series g)) = ∑ j ∈ range impulses.length,
      impulses.getD j 0 * conv f g (n - j * stride) := by
  rw [h.coeff_mul]
  refine sum_congr rfl fun j _ => ?_
  split
  · rename_i hle
    rw [← conv_eq_coeff, Nat.cast_sub hle, Nat.cast_mul]
  · rename_i hgt
    have hneg : (n - j * stride : ℤ) < 0 := by
      rw [sub_neg, ← Nat.cast_mul, Nat.cast_lt]
      exact Nat.lt_of_not_le hgt
    rw [conv_of_neg _ _ hneg, mul_zero]

end QpskB210.Lib.Signal
