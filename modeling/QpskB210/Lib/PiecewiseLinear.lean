import Mathlib.Algebra.Order.Floor.Semiring
import Mathlib.Algebra.Order.Ring.Abs
import Mathlib.Data.Finset.Image
import Mathlib.Data.Finset.Order
import Mathlib.Tactic.Ring

/-!
# Piecewise linear functions

The function that is linear between given values at the natural numbers. Where
neighbouring values differ by `bound` at most, it grows no faster than that; and
it stays between the values around it.
-/

namespace QpskB210.Lib.PiecewiseLinear

variable {K : Type} [Field K] [LinearOrder K] [IsStrictOrderedRing K] {f : ℕ → K}

/-- For values that come to rest there is such a bound. -/
theorem exists_bound {n : ℕ} {c : K} (hrest : ∀ i, n ≤ i → f i = c) :
    ∃ bound, 0 ≤ bound ∧ ∀ i, |f (i + 1) - f i| ≤ bound := by
  obtain ⟨bound, hbound⟩ := ((Finset.range n).image fun i => |f (i + 1) - f i|).exists_le
  refine ⟨max 0 bound, le_max_left _ _, fun i => ?_⟩
  rcases Nat.lt_or_ge i n with hin | hout
  · refine le_trans (hbound _ ?_) (le_max_right _ _)
    exact Finset.mem_image_of_mem (fun i => |f (i + 1) - f i|) (Finset.mem_range.mpr hin)
  · rw [hrest i hout, hrest (i + 1) (Nat.le_succ_of_le hout), sub_self, abs_zero]
    exact le_max_left _ _

variable [FloorSemiring K]

/-- Between the two values around `t`. -/
def value (f : ℕ → K) (t : K) : K := f ⌊t⌋₊ + (t - ⌊t⌋₊) * (f (⌊t⌋₊ + 1) - f ⌊t⌋₊)

variable {bound s t : K}

/-- On one segment, both ends included. -/
theorem value_eq {i : ℕ} (hlow : (i : K) ≤ t) (hhigh : t ≤ i + 1) :
    value f t = f i + (t - i) * (f (i + 1) - f i) := by
  rcases hhigh.lt_or_eq with hlt | heq
  · have hfloor : ⌊t⌋₊ = i := (Nat.floor_eq_iff (i.cast_nonneg.trans hlow)).mpr ⟨hlow, hlt⟩
    rw [value, hfloor]
  · have hcast : t = ((i + 1 : ℕ) : K) := by
      rw [heq, Nat.cast_add, Nat.cast_one]
    rw [value, hcast, Nat.floor_natCast, Nat.cast_add, Nat.cast_one]
    ring

/-- It is no larger than the two values around. -/
theorem abs_value_le (ht : 0 ≤ t) (hleft : |f ⌊t⌋₊| ≤ bound) (hright : |f (⌊t⌋₊ + 1)| ≤ bound) :
    |value f t| ≤ bound := by
  have hlow : 0 ≤ t - ⌊t⌋₊ := sub_nonneg.mpr (Nat.floor_le ht)
  have hhigh : 0 ≤ 1 - (t - ⌊t⌋₊) := by
    rw [sub_nonneg, sub_le_iff_le_add']
    exact (Nat.lt_floor_add_one t).le
  have hmix : value f t = (1 - (t - ⌊t⌋₊)) * f ⌊t⌋₊ + (t - ⌊t⌋₊) * f (⌊t⌋₊ + 1) := by
    rw [value]
    ring
  calc |value f t|
      ≤ (1 - (t - ⌊t⌋₊)) * |f ⌊t⌋₊| + (t - ⌊t⌋₊) * |f (⌊t⌋₊ + 1)| := by
        rw [hmix]
        refine (abs_add_le _ _).trans_eq ?_
        rw [abs_mul, abs_mul, abs_of_nonneg hlow, abs_of_nonneg hhigh]
    _ ≤ (1 - (t - ⌊t⌋₊)) * bound + (t - ⌊t⌋₊) * bound :=
        add_le_add (mul_le_mul_of_nonneg_left hleft hhigh) (mul_le_mul_of_nonneg_left hright hlow)
    _ = bound := by ring

theorem growth_le_of_segment (hbound : ∀ i, |f (i + 1) - f i| ≤ bound) {i : ℕ}
    (hs : (i : K) ≤ s) (hst : s ≤ t) (ht : t ≤ i + 1) :
    |value f t - value f s| ≤ bound * (t - s) := by
  rw [value_eq (hs.trans hst) ht, value_eq hs (hst.trans ht)]
  have hstep : f i + (t - i) * (f (i + 1) - f i) - (f i + (s - i) * (f (i + 1) - f i)) =
      (f (i + 1) - f i) * (t - s) := by ring
  rw [hstep, abs_mul, abs_of_nonneg (sub_nonneg.mpr hst)]
  exact mul_le_mul_of_nonneg_right (hbound i) (sub_nonneg.mpr hst)

/-- The growth from `s` to `t` is bounded, by induction on the segments
between them. -/
theorem growth_le (hbound : ∀ i, |f (i + 1) - f i| ≤ bound) (hs : 0 ≤ s) (hst : s ≤ t) :
    |value f t - value f s| ≤ bound * (t - s) := by
  generalize hcount : ⌊t⌋₊ - ⌊s⌋₊ = count
  induction count generalizing s with
  | zero =>
      have hsegment : t ≤ ⌊s⌋₊ + 1 := by
        have hfloor : ⌊t⌋₊ ≤ ⌊s⌋₊ := Nat.le_of_sub_eq_zero hcount
        refine (Nat.lt_floor_add_one t).le.trans ?_
        exact add_le_add_left (Nat.cast_le.mpr hfloor) 1
      exact growth_le_of_segment hbound (Nat.floor_le hs) hst hsegment
  | succ count ih =>
      -- the end of the segment of `s`
      have hend : ((⌊s⌋₊ + 1 : ℕ) : K) = ⌊s⌋₊ + 1 := by rw [Nat.cast_add, Nat.cast_one]
      have hbefore : ((⌊s⌋₊ + 1 : ℕ) : K) ≤ t :=
        (Nat.le_floor_iff (hs.trans hst)).mp (by omega)
      have hafter : s ≤ ((⌊s⌋₊ + 1 : ℕ) : K) := by
        rw [hend]
        exact (Nat.lt_floor_add_one s).le
      have hrest := ih (Nat.cast_nonneg _) hbefore (by rw [Nat.floor_natCast]; omega)
      have hfirst := growth_le_of_segment hbound (Nat.floor_le hs) hafter hend.le
      calc |value f t - value f s|
          ≤ |value f t - value f (⌊s⌋₊ + 1 : ℕ)| + |value f (⌊s⌋₊ + 1 : ℕ) - value f s| :=
            abs_sub_le _ _ _
        _ ≤ bound * (t - (⌊s⌋₊ + 1 : ℕ)) + bound * ((⌊s⌋₊ + 1 : ℕ) - s) :=
            add_le_add hrest hfirst
        _ = bound * (t - s) := by ring

end QpskB210.Lib.PiecewiseLinear
