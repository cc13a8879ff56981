import Mathlib.Analysis.Complex.Basic
import QpskB210.Lib.Interference
import QpskB210.Modem.PulseShaper
import QpskB210.Modem.Reception

/-!
# Modem — Channel

A whole burst, from the samples of the transmitter to the payload of the
receiver: the matched filter and the direct decimation give back the symbols,
but for the interference between them and for what the channel adds.
-/

namespace QpskB210.Modem

open QpskB210.Lib Signal Finset PowerSeries

/-- The samples of `encode`. -/
def Encoder.samples {K : Type} [Field K] (e : Encoder) (shaper : PulseShaper (Sample K))
    (acquisitionSymbols : Nat) (payload : List UInt8) : List (Sample K) :=
  shaper.shape (e.allSymbols acquisitionSymbols payload)

/-- The second approach of `decode`. -/
def Decoder.decodeDirect {K : Type} [Field K] [LinearOrder K] (d : Decoder)
    (shaper : PulseShaper (Sample K)) (sqrt : K → K) (samples : List (Sample K)) :
    Option (List UInt8) × Decoder :=
  if samples.isEmpty then (none, d)
  else
    let filtered := shaper.matchedFilter samples
    d.tryDecode sqrt (decimate shaper.sps shaper.rrcTaps.length filtered)

/-! ## The size of a sample -/

theorem Sample.toComplex_injective : Function.Injective Sample.toComplex := by
  intro s t h
  exact QuadraticAlgebra.ext (congrArg Complex.re h) (congrArg Complex.im h)

/-- The magnitude of a sample. -/
noncomputable def Sample.magnitude : AbsoluteValue (Sample ℝ) ℝ where
  toFun := fun s => ‖s.toComplex‖
  map_mul' := fun s t => by rw [Sample.toComplex_mul, norm_mul]
  nonneg' := fun s => norm_nonneg _
  eq_zero' := fun s => by
    rw [norm_eq_zero, ← Sample.toComplex_zero, Sample.toComplex_injective.eq_iff]
  add_le' := fun s t => norm_add_le s.toComplex t.toComplex

theorem Sample.magnitude_eq (s : Sample ℝ) : Sample.magnitude s = ‖s.toComplex‖ := rfl

theorem Sample.norm_eq_magnitude (s : Sample ℝ) : s.norm = Sample.magnitude s ^ 2 :=
  Sample.norm_eq s

/-- No symbol of a burst is larger than 1. -/
theorem Encoder.magnitude_allSymbols_le (e : Encoder) (acquisitionSymbols : Nat)
    (payload : List UInt8) {s : Sample ℝ} (hs : s ∈ e.allSymbols acquisitionSymbols payload) :
    Sample.magnitude s ≤ 1 := by
  rw [e.allSymbols_eq] at hs
  have hnorm : s.norm ≤ 1 ^ 2 → Sample.magnitude s ≤ 1 := by
    intro h
    rw [Sample.norm_eq_magnitude] at h
    exact le_of_sq_le_sq h (by norm_num)
  simp only [List.mem_append, List.mem_map, List.mem_replicate, generateAcquisitionSymbols,
    bpskMapPreamble] at hs
  rcases hs with ⟨i, -, rfl⟩ | ⟨bit, -, rfl⟩ | ⟨sym, hsym, rfl⟩ | ⟨-, rfl⟩
  · apply hnorm
    rw [norm_acquisitionPattern]
    norm_num
  · apply hnorm
    split <;> simp [Sample.norm]
  · exact Symbol.norm_point_le (full_of_mem_map hsym)
  · apply hnorm
    simp [Sample.norm]

/-! ## The recovered symbols -/

variable (shaper : PulseShaper (Sample ℝ))

/-- What the two filters together make of an impulse, `m` symbols after it. -/
def PulseShaper.response (m : ℤ) : Sample ℝ :=
  conv shaper.rrcTaps shaper.rrcTaps (shaper.rrcTaps.length - 1 + m * shaper.sps)

variable {shaper} {symbols samples : List (Sample ℝ)} {gain : Sample ℝ}

theorem conv_eq_zero {R : Type} [CommRing R] {f g : List R} {i : ℤ}
    (hi : i < 0 ∨ (f.length + g.length : ℤ) - 1 ≤ i) : conv f g i = 0 := by
  rw [conv]
  refine sum_eq_zero fun a ha => sum_eq_zero fun b hb => if_neg ?_
  rw [mem_range] at ha hb
  omega

theorem PulseShaper.response_eq_zero {span : ℕ} (hsps : 1 ≤ shaper.sps)
    (htaps : shaper.rrcTaps.length = span * shaper.sps + 1) {m : ℤ}
    (hm : span < m.natAbs) : shaper.response m = 0 := by
  apply conv_eq_zero
  have hm : m < -span ∨ (span : ℤ) < m := by omega
  rw [htaps]
  push_cast
  rcases hm with hm | hm
  · left
    nlinarith
  · right
    nlinarith

/-- A sample is picked for every symbol that was sent. -/
theorem length_le_decimate (hsps : 1 ≤ shaper.sps) (htap : shaper.rrcTaps ≠ [])
    (hsymbols : symbols ≠ []) (hlength : (shaper.shape symbols).length ≤ samples.length) :
    symbols.length ≤
      (decimate shaper.sps shaper.rrcTaps.length (shaper.matchedFilter samples)).length := by
  have hshape := @PulseShaper.length_shape _ _ shaper _ hsymbols
  have hpos := List.length_pos_iff.mpr htap
  have hstride := Nat.mul_pos (List.length_pos_iff.mpr hsymbols) hsps
  have hne : samples ≠ [] := List.ne_nil_of_length_pos (by omega)
  by_contra hshort
  rw [not_le] at hshort
  have hbefore := Nat.mul_lt_mul_of_pos_right hshort hsps
  have hpicked := getElem?_decimate hsps shaper.rrcTaps.length (shaper.matchedFilter samples)
    (decimate shaper.sps shaper.rrcTaps.length (shaper.matchedFilter samples)).length
  rw [List.getElem?_eq_none le_rfl, List.getElem?_eq_getElem
    (by rw [PulseShaper.length_matchedFilter hne]; omega)] at hpicked
  exact absurd hpicked (by simp)

/-- The samples that the decimation picks, for as many symbols as were sent. -/
theorem getD_decimate_filtered {span : ℕ} (hsps : 1 ≤ shaper.sps)
    (htaps : shaper.rrcTaps.length = span * shaper.sps + 1) (hsymbols : symbols ≠ [])
    (hlength : (shaper.shape symbols).length ≤ samples.length) {k : ℕ} (hk : k < symbols.length) :
    (decimate shaper.sps shaper.rrcTaps.length (shaper.matchedFilter samples)).getD k 0 =
      coeff (shaper.rrcTaps.length - 1 + k * shaper.sps) (series samples * series shaper.rrcTaps) := by
  have hshape := @PulseShaper.length_shape _ _ shaper _ hsymbols
  have hpos : 0 < symbols.length := List.length_pos_iff.mpr hsymbols
  have hbefore := Nat.mul_lt_mul_of_pos_right hk hsps
  have hne : samples ≠ [] := by
    rw [← List.length_pos_iff]
    omega
  rw [List.getD_eq_getElem?_getD, getElem?_decimate hsps, ← List.getD_eq_getElem?_getD,
    PulseShaper.matchedFilter, if_neg (by simpa using hne)]
  exact PulseShaper.getD_convolve (by omega)

/-- The burst alone, through the second filter. -/
theorem coeff_shape_mul {span : ℕ} (hsps : 1 ≤ shaper.sps)
    (htaps : shaper.rrcTaps.length = span * shaper.sps + 1) (hsymbols : symbols ≠ []) (k : ℕ) :
    coeff (shaper.rrcTaps.length - 1 + k * shaper.sps)
      (series (shaper.shape symbols) * series shaper.rrcTaps) =
        ∑ j ∈ range symbols.length, symbols.getD j 0 * shaper.response ((k : ℤ) - j) := by
  have htap : shaper.rrcTaps ≠ [] := by
    rw [← List.length_pos_iff]
    omega
  have hupsampled : PulseShaper.upsample shaper.sps symbols ≠ [] := by
    rw [← List.length_pos_iff, PulseShaper.length_upsample]
    exact Nat.mul_pos (List.length_pos_iff.mpr hsymbols) hsps
  rw [PulseShaper.shape, if_neg (by simpa using hsymbols),
    PulseShaper.series_convolve hupsampled htap, mul_assoc,
    (PulseShaper.upsample_impulses hsps symbols).coeff_mul_mul]
  refine sum_congr rfl fun j _ => ?_
  rw [PulseShaper.response, Nat.cast_add, Nat.cast_sub (List.length_pos_iff.mpr htap),
    Nat.cast_mul, Nat.cast_one, sub_mul, add_sub_assoc]

/-- What a recovered symbol owes to the other symbols and to the noise. -/
theorem recovered_sub_le {span : ℕ} (hsps : 1 ≤ shaper.sps)
    (htaps : shaper.rrcTaps.length = span * shaper.sps + 1) (hsymbols : symbols ≠ [])
    (hmost : ∀ j < symbols.length, Sample.magnitude (symbols.getD j 0) ≤ 1)
    (hlength : (shaper.shape symbols).length ≤ samples.length) {noise : ℝ}
    (hnoise : ∀ n, Sample.magnitude
      (samples.getD n 0 - gain * (shaper.shape symbols).getD n 0) ≤ noise)
    {k : ℕ} (hk : k < symbols.length) :
    Sample.magnitude
      ((decimate shaper.sps shaper.rrcTaps.length (shaper.matchedFilter samples)).getD k 0 -
        gain * shaper.response 0 * symbols.getD k 0) ≤
      Sample.magnitude gain * interference Sample.magnitude shaper.response span +
        noise * size Sample.magnitude shaper.rrcTaps := by
  have hsplit : series samples * series shaper.rrcTaps =
      PowerSeries.C gain * (series (shaper.shape symbols) * series shaper.rrcTaps) +
        (series samples - PowerSeries.C gain * series (shaper.shape symbols)) *
          series shaper.rrcTaps := by
    ring
  have hdisturbance : ∀ n, Sample.magnitude (coeff n
      ((series samples - PowerSeries.C gain * series (shaper.shape symbols)) *
        series shaper.rrcTaps)) ≤ noise * size Sample.magnitude shaper.rrcTaps :=
    coeff_mul_series_le (fun n => by simpa using hnoise n) shaper.rrcTaps
  have hothers := impulses_sub_peak_le hmost (fun m => shaper.response_eq_zero hsps htaps) hk
  rw [one_mul] at hothers
  rw [getD_decimate_filtered hsps htaps hsymbols hlength hk, hsplit, map_add, coeff_C_mul,
    coeff_shape_mul hsps htaps hsymbols, mul_assoc, add_sub_right_comm, mul_comm (shaper.response 0),
    ← mul_sub]
  refine (Sample.magnitude.add_le _ _).trans (add_le_add ?_ (hdisturbance _))
  rw [Sample.magnitude.map_mul]
  exact mul_le_mul_of_nonneg_left hothers (Sample.magnitude.nonneg _)

/-! ## The whole burst -/

/-- **Over a channel.** The samples of a burst, times any complex gain and with
noise added, give the payload back, if there is room for the interference of
the filters and for the noise. -/
theorem Decoder.decodeDirect_channel (e : Encoder) (d : Decoder) {payload : List UInt8}
    (hlen : payload.length ≤ 65535) (hpreamble : d.config.preamble = e.config.preamble)
    (hnonempty : e.config.preamble ≠ [])
    (hword : SyncWord (makeDoubledPreamble e.config.preamble))
    (hrate : e.config.fecEnabled = true → d.config.fecCodeRate = e.config.fecCodeRate)
    (acquisitionSymbols : Nat) (shaper : PulseShaper (Sample ℝ)) {span : ℕ}
    (hsps : 1 ≤ shaper.sps) (htaps : shaper.rrcTaps.length = span * shaper.sps + 1)
    (gain : Sample ℝ) {samples : List (Sample ℝ)}
    (hlength : (e.samples shaper acquisitionSymbols payload).length ≤ samples.length)
    {noise : ℝ} (hnoise : ∀ n, Sample.magnitude (samples.getD n 0 -
      gain * (e.samples shaper acquisitionSymbols payload).getD n 0) ≤ noise)
    (hroom : Sample.magnitude gain * interference Sample.magnitude shaper.response span +
        noise * size Sample.magnitude shaper.rrcTaps ≤
      2 / 25 * Sample.magnitude (gain * shaper.response 0))
    (hgain : 1 / 10 ^ 10 ≤ Sample.magnitude (gain * shaper.response 0)) :
    (d.decodeDirect shaper Real.sqrt samples).1 = some payload := by
  have hburst := e.length_allSymbols acquisitionSymbols payload
  have htail : e.burstLength acquisitionSymbols payload <
      (e.allSymbols acquisitionSymbols payload : List (Sample ℝ)).length := by
    rw [hburst]
    exact Nat.lt_add_of_pos_right (by decide)
  have hsymbols : (e.allSymbols acquisitionSymbols payload : List (Sample ℝ)) ≠ [] :=
    List.ne_nil_of_length_pos (by omega)
  have hshape := @PulseShaper.length_shape _ _ shaper _ hsymbols
  have hstride := Nat.mul_pos (List.length_pos_iff.mpr hsymbols) hsps
  have hne : samples ≠ [] := by
    rw [Encoder.samples, hshape] at hlength
    exact List.ne_nil_of_length_pos (by omega)
  rw [decodeDirect, if_neg (by simpa using hne)]
  apply tryDecode_follows e d hlen hpreamble hnonempty hword hrate acquisitionSymbols
    (gain * shaper.response 0)
  · rw [Sample.norm_eq_magnitude]
    exact pow_le_pow_left₀ (by norm_num) hgain 2
  · exact htail.le.trans (length_le_decimate hsps
      (List.ne_nil_of_length_pos (by omega)) hsymbols hlength)
  · intro k hk
    have hsub := recovered_sub_le hsps htaps hsymbols (fun j hj => by
      rw [List.getD_eq_getElem _ _ hj]
      exact e.magnitude_allSymbols_le acquisitionSymbols payload (List.getElem_mem hj)) hlength
      hnoise (hk.trans htail)
    rw [Sample.norm_eq_magnitude, Sample.norm_eq_magnitude, ← mul_pow]
    exact pow_le_pow_left₀ (Sample.magnitude.nonneg _) (hsub.trans hroom) 2

/-- A filter with interference of 1/25 on each side. -/
noncomputable def threeTaps : PulseShaper (Sample ℝ) := ⟨[⟨1 / 5, 0⟩, 1, ⟨1 / 5, 0⟩], 2⟩

theorem PulseShaper.response_threeTaps :
    threeTaps.response 0 = ⟨27 / 25, 0⟩ ∧ threeTaps.response (-1) = ⟨1 / 25, 0⟩ ∧
      threeTaps.response 1 = ⟨1 / 25, 0⟩ := by
  have hresponse : ∀ m, threeTaps.response m =
      conv [⟨1 / 5, 0⟩, 1, ⟨1 / 5, 0⟩] [⟨1 / 5, 0⟩, 1, ⟨1 / 5, 0⟩] (2 + m * 2) := by
    intro m
    rw [PulseShaper.response, threeTaps]
    norm_num
  refine ⟨?_, ?_, ?_⟩ <;> rw [hresponse, conv] <;> apply QuadraticAlgebra.ext <;>
    norm_num [sum_range_succ, QuadraticAlgebra.re_one, QuadraticAlgebra.im_one]

/-- A burst through such a filter, three times as strong and turned by a right
angle. -/
theorem Decoder.decodeDirect_channel_turned :
    ((create {}).decodeDirect threeTaps Real.sqrt
      (((Encoder.create {}).samples threeTaps 128 [1, 2, 3]).map (⟨0, 3⟩ * ·))).1 =
        some [1, 2, 3] := by
  have hreal : ∀ x : ℝ, Sample.magnitude ⟨x, 0⟩ = |x| := by
    intro x
    rw [Sample.magnitude_eq, Sample.toComplex]
    exact Complex.norm_real x
  have hgain : Sample.magnitude ⟨0, 3⟩ = 3 := by
    have hsquare := Sample.norm_eq_magnitude ⟨0, 3⟩
    have hnine : Sample.norm (⟨0, 3⟩ : Sample ℝ) = 3 ^ 2 := by norm_num [Sample.norm]
    rw [hnine] at hsquare
    exact ((sq_eq_sq₀ (by norm_num) (Sample.magnitude.nonneg _)).mp hsquare).symm
  obtain ⟨hpeak, hbefore, hafter⟩ := PulseShaper.response_threeTaps
  refine @decodeDirect_channel (Encoder.create {}) (create {}) _ (by decide) rfl (by decide)
    syncWord_default (fun _ => rfl) 128 threeTaps 1 (by decide) rfl ⟨0, 3⟩ _
    (by rw [List.length_map]) 0 ?_ ?_ ?_
  · intro n
    have hscaled := @List.getD_map _ _ ((Encoder.create {}).samples threeTaps 128 [1, 2, 3]) 0 n
      ((⟨0, 3⟩ : Sample ℝ) * ·)
    rw [mul_zero] at hscaled
    rw [hscaled, sub_self, Sample.magnitude.map_zero]
  · rw [interference, sum_range_one, Nat.cast_zero, zero_add, hpeak, hbefore, hafter,
      Sample.magnitude.map_mul, hgain, hreal, hreal]
    norm_num
  · rw [hpeak, Sample.magnitude.map_mul, hgain, hreal]
    norm_num

end QpskB210.Modem
