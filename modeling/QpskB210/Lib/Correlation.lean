import Mathlib.Analysis.Complex.Basic

/-!
# Correlation

A received signal that follows a sent one, up to a complex gain and a
disturbance that is small against it: what that makes of its correlation with
a reference, of its energy, and of its phase.
-/

namespace QpskB210.Lib.Correlation

open Finset ComplexConjugate

variable {ι : Type*} (s : Finset ι)

/-- The correlation with a reference. -/
noncomputable def correlation (signal reference : ι → ℂ) : ℂ :=
  ∑ j ∈ s, signal j * conj (reference j)

noncomputable def energy (signal : ι → ℂ) : ℝ := ∑ j ∈ s, ‖signal j‖ ^ 2

/-- The correlation with a reference of unit symbols, as a part of what it can
be at most. -/
noncomputable def similarity (signal reference : ι → ℂ) : ℝ :=
  ‖correlation s signal reference‖ / √(#s * energy s signal)

/-- The received signal is the sent one times the gain, up to this part of the
gain. -/
def Follows (gain : ℂ) (disturbance : ℝ) (received sent : ι → ℂ) : Prop :=
  ∀ j ∈ s, ‖received j - gain * sent j‖ ≤ disturbance * ‖gain‖

variable {s} {gain : ℂ} {disturbance : ℝ} {received sent reference : ι → ℂ}

/-- With a reference of unit symbols, each symbol disturbs the correlation by
as much as it is disturbed. -/
theorem Follows.norm_correlation_sub_le (h : Follows s gain disturbance received sent)
    (hunit : ∀ j ∈ s, ‖reference j‖ = 1) :
    ‖correlation s received reference - gain * correlation s sent reference‖ ≤
      #s * (disturbance * ‖gain‖) := by
  have hdifference : correlation s received reference - gain * correlation s sent reference =
      ∑ j ∈ s, (received j - gain * sent j) * conj (reference j) := by
    rw [correlation, correlation, mul_sum, ← sum_sub_distrib]
    refine sum_congr rfl fun j _ => ?_
    ring
  rw [hdifference]
  calc ‖∑ j ∈ s, (received j - gain * sent j) * conj (reference j)‖
      ≤ ∑ j ∈ s, ‖(received j - gain * sent j) * conj (reference j)‖ := norm_sum_le _ _
    _ ≤ ∑ _j ∈ s, disturbance * ‖gain‖ := by
        refine sum_le_sum fun j hj => ?_
        rw [norm_mul, Complex.norm_conj, hunit j hj, mul_one]
        exact h j hj
    _ = #s * (disturbance * ‖gain‖) := by rw [sum_const, nsmul_eq_mul]

theorem Follows.norm_le (h : Follows s gain disturbance received sent) {j : ι} (hj : j ∈ s)
    {most : ℝ} (hmost : ‖sent j‖ ≤ most) : ‖received j‖ ≤ (most + disturbance) * ‖gain‖ := by
  have hsplit : received j = (received j - gain * sent j) + gain * sent j := by ring
  have hle := norm_add_le (received j - gain * sent j) (gain * sent j)
  rw [← hsplit, norm_mul] at hle
  have hdisturbed := h j hj
  have hsent := mul_le_mul_of_nonneg_left hmost (norm_nonneg gain)
  linarith

theorem Follows.le_norm (h : Follows s gain disturbance received sent) {j : ι} (hj : j ∈ s)
    {least : ℝ} (hleast : least ≤ ‖sent j‖) : (least - disturbance) * ‖gain‖ ≤ ‖received j‖ := by
  have hle := norm_sub_norm_le (gain * sent j) (received j)
  rw [norm_sub_rev, norm_mul] at hle
  have hdisturbed := h j hj
  have hsent := mul_le_mul_of_nonneg_left hleast (norm_nonneg gain)
  linarith

theorem Follows.energy_le (h : Follows s gain disturbance received sent) {most : ℝ}
    (hmost : ∀ j ∈ s, ‖sent j‖ ≤ most) :
    energy s received ≤ #s * ((most + disturbance) * ‖gain‖) ^ 2 := by
  rw [energy, ← nsmul_eq_mul]
  exact sum_le_card_nsmul _ _ _ fun j hj =>
    pow_le_pow_left₀ (norm_nonneg _) (h.norm_le hj (hmost j hj)) 2

theorem Follows.le_energy (h : Follows s gain disturbance received sent) {least : ℝ}
    (hleast : ∀ j ∈ s, least ≤ ‖sent j‖) (hdisturbance : disturbance ≤ least) :
    #s * ((least - disturbance) * ‖gain‖) ^ 2 ≤ energy s received := by
  rw [energy, ← nsmul_eq_mul]
  refine card_nsmul_le_sum _ _ _ fun j hj => pow_le_pow_left₀ ?_ (h.le_norm hj (hleast j hj)) 2
  exact mul_nonneg (sub_nonneg.mpr hdisturbance) (norm_nonneg _)

/-! ## Similarity -/

/-- The energy of a received signal, from both sides. -/
theorem Follows.le_sqrt_energy (h : Follows s gain disturbance received sent) {least : ℝ}
    (hleast : ∀ j ∈ s, least ≤ ‖sent j‖) (hdisturbance : disturbance ≤ least) :
    #s * ((least - disturbance) * ‖gain‖) ≤ √(#s * energy s received) := by
  apply Real.le_sqrt_of_sq_le
  have henergy := mul_le_mul_of_nonneg_left (h.le_energy hleast hdisturbance) (#s).cast_nonneg
  linarith

theorem Follows.sqrt_energy_le (h : Follows s gain disturbance received sent) {most : ℝ}
    (hmost : ∀ j ∈ s, ‖sent j‖ ≤ most) (hnonneg : 0 ≤ most + disturbance) :
    √(#s * energy s received) ≤ #s * ((most + disturbance) * ‖gain‖) := by
  apply Real.sqrt_le_iff.mpr ⟨by positivity, ?_⟩
  have henergy := mul_le_mul_of_nonneg_left (h.energy_le hmost) (#s).cast_nonneg
  linarith

/-- A signal that was not like the reference is not received like it. -/
theorem Follows.similarity_lt (h : Follows s gain disturbance received sent) (hs : s.Nonempty)
    (hgain : gain ≠ 0) (hunit : ∀ j ∈ s, ‖reference j‖ = 1) {most least threshold : ℝ}
    (hsent : ‖correlation s sent reference‖ ≤ #s * most) (hleast : ∀ j ∈ s, least ≤ ‖sent j‖)
    (hdisturbance : disturbance < least) (hnonneg : 0 ≤ threshold)
    (hthreshold : most + disturbance < threshold * (least - disturbance)) :
    similarity s received reference < threshold := by
  have hcard : (0 : ℝ) < #s := Nat.cast_pos.mpr hs.card_pos
  have hnorm : 0 < ‖gain‖ := norm_pos_iff.mpr hgain
  have hcorrelation : ‖correlation s received reference‖ ≤
      #s * ((most + disturbance) * ‖gain‖) := by
    have hle := norm_le_insert' (correlation s received reference)
      (gain * correlation s sent reference)
    have hdisturbed := h.norm_correlation_sub_le hunit
    have hscaled := mul_le_mul_of_nonneg_left hsent hnorm.le
    rw [norm_mul] at hle
    linarith
  have hroot := h.le_sqrt_energy hleast hdisturbance.le
  have hpositive : 0 < #s * ((least - disturbance) * ‖gain‖) := by
    have := sub_pos.mpr hdisturbance
    positivity
  rw [similarity, div_lt_iff₀ (hpositive.trans_le hroot)]
  calc ‖correlation s received reference‖
      ≤ #s * ‖gain‖ * (most + disturbance) := by linarith
    _ < #s * ‖gain‖ * (threshold * (least - disturbance)) := by gcongr
    _ = threshold * (#s * ((least - disturbance) * ‖gain‖)) := by ring
    _ ≤ threshold * √(#s * energy s received) := by gcongr

theorem correlation_self (hunit : ∀ j ∈ s, ‖reference j‖ = 1) :
    correlation s reference reference = #s := by
  rw [correlation, ← nsmul_one, ← sum_const]
  refine sum_congr rfl fun j hj => ?_
  rw [Complex.mul_conj, Complex.normSq_eq_norm_sq, hunit j hj]
  simp

/-- The reference itself is received with a large correlation. -/
theorem Follows.le_norm_correlation (h : Follows s gain disturbance received reference)
    (hunit : ∀ j ∈ s, ‖reference j‖ = 1) :
    #s * ((1 - disturbance) * ‖gain‖) ≤ ‖correlation s received reference‖ := by
  have hle := norm_sub_norm_le (gain * correlation s reference reference)
    (correlation s received reference)
  have hdisturbed := h.norm_correlation_sub_le hunit
  rw [norm_sub_rev, norm_mul, correlation_self hunit, Complex.norm_natCast] at hle
  rw [correlation_self hunit] at hdisturbed
  linarith

/-- The reference itself is received like it. -/
theorem Follows.le_similarity (h : Follows s gain disturbance received reference)
    (hs : s.Nonempty) (hgain : gain ≠ 0) (hunit : ∀ j ∈ s, ‖reference j‖ = 1) {threshold : ℝ}
    (hleast : 0 ≤ disturbance) (hmost : disturbance < 1) (hnonneg : 0 ≤ threshold)
    (hthreshold : threshold * (1 + disturbance) ≤ 1 - disturbance) :
    threshold ≤ similarity s received reference := by
  have hcard : (0 : ℝ) < #s := Nat.cast_pos.mpr hs.card_pos
  have hnorm : 0 < ‖gain‖ := norm_pos_iff.mpr hgain
  have hcorrelation := h.le_norm_correlation hunit
  have hpositive : 0 < #s * ((1 - disturbance) * ‖gain‖) := by
    have := sub_pos.mpr hmost
    positivity
  have hroot := h.le_sqrt_energy (fun j hj => (hunit j hj).ge) hmost.le
  have hroot' := h.sqrt_energy_le (fun j hj => (hunit j hj).le) (by linarith)
  rw [similarity, le_div_iff₀ (hpositive.trans_le hroot)]
  calc threshold * √(#s * energy s received)
      ≤ threshold * (#s * ((1 + disturbance) * ‖gain‖)) := by gcongr
    _ = #s * ‖gain‖ * (threshold * (1 + disturbance)) := by ring
    _ ≤ #s * ‖gain‖ * (1 - disturbance) := by gcongr
    _ ≤ ‖correlation s received reference‖ := by linarith

/-! ## Phase -/

/-- Turned back by the phase of the correlation, a received value lies in the
direction of the sent one. -/
theorem norm_mul_conj_sub_le {value sent turned : ℂ} {length : ℝ}
    (hvalue : ‖value - gain * sent‖ ≤ disturbance * ‖gain‖) (hsent : ‖sent‖ ≤ 1)
    (hturned : ‖turned - gain * length‖ ≤ length * (disturbance * ‖gain‖))
    (hlength : 0 ≤ length) :
    ‖value * conj turned - (length * ‖gain‖ ^ 2 : ℝ) * sent‖ ≤
      length * ‖gain‖ ^ 2 * (2 * disturbance + disturbance ^ 2) := by
  have hsquare : ((‖gain‖ ^ 2 : ℝ) : ℂ) = gain * conj gain := by
    rw [Complex.mul_conj, Complex.normSq_eq_norm_sq]
  have hsplit : value * conj turned - (length * ‖gain‖ ^ 2 : ℝ) * sent =
      (value - gain * sent) * conj (turned - gain * length) +
        ((value - gain * sent) * (length * conj gain) +
          gain * sent * conj (turned - gain * length)) := by
    rw [Complex.ofReal_mul, hsquare, map_sub, map_mul, Complex.conj_ofReal]
    ring
  have hrest : ‖(value - gain * sent) * conj (turned - gain * length)‖ ≤
      (disturbance * ‖gain‖) * (length * (disturbance * ‖gain‖)) := by
    rw [norm_mul, Complex.norm_conj]
    exact mul_le_mul hvalue hturned (norm_nonneg _) ((norm_nonneg _).trans hvalue)
  have hfirst : ‖(value - gain * sent) * (length * conj gain)‖ ≤
      (disturbance * ‖gain‖) * (length * ‖gain‖) := by
    rw [norm_mul, norm_mul, Complex.norm_conj, Complex.norm_real, Real.norm_of_nonneg hlength]
    gcongr
  have hsecond : ‖gain * sent * conj (turned - gain * length)‖ ≤
      ‖gain‖ * 1 * (length * (disturbance * ‖gain‖)) := by
    rw [norm_mul, norm_mul, Complex.norm_conj]
    gcongr
  rw [hsplit]
  have hadd := norm_add₃_le (a := (value - gain * sent) * conj (turned - gain * length))
    (b := (value - gain * sent) * (length * conj gain))
    (c := gain * sent * conj (turned - gain * length))
  rw [add_assoc] at hadd
  linarith

end QpskB210.Lib.Correlation
