import QpskB210.Modem.Channel

/-!
# Modem — CarrierPhase

The phase of the carrier is unknown to the receiver, and the direct decimation
makes no attempt to track it. It need not: the search for the preamble looks
at magnitudes only, and the preamble shows the phase. So whatever the samples
are, a constant turn of all of them changes nothing of what is decoded.
-/

namespace QpskB210.Modem

open QpskB210.Lib

/-! ## Turning samples -/

section Turns

variable {K : Type} [Field K] {turn : Sample K}

/-- The samples, each times `turn`. -/
def turned (turn : Sample K) (samples : List (Sample K)) : List (Sample K) :=
  samples.map (turn * ·)

@[simp] theorem length_turned (samples : List (Sample K)) :
    (turned turn samples).length = samples.length :=
  List.length_map _

theorem getD_turned (samples : List (Sample K)) (n : Nat) :
    (turned turn samples).getD n 0 = turn * samples.getD n 0 := by
  rw [turned, ← mul_zero turn, List.getD_map, mul_zero]

theorem take_turned (samples : List (Sample K)) (n : Nat) :
    (turned turn samples).take n = turned turn (samples.take n) :=
  (List.map_take ..).symm

theorem drop_turned (samples : List (Sample K)) (n : Nat) :
    (turned turn samples).drop n = turned turn (samples.drop n) :=
  (List.map_drop ..).symm

theorem window_turned (samples : List (Sample K)) (i length : Nat) :
    window (turned turn samples) i length = turned turn (window samples i length) := by
  rw [window, drop_turned, take_turned, window]

theorem map_turned {β : Type} (f : Sample K → β) (samples : List (Sample K)) :
    (turned turn samples).map f = samples.map fun s => f (turn * s) :=
  List.map_map

theorem Sample.norm_mul (s t : Sample K) : (s * t).norm = s.norm * t.norm := by
  simp only [Sample.norm, QuadraticAlgebra.re_mul, QuadraticAlgebra.im_mul]
  ring

theorem Sample.mul_conj (s : Sample K) : s * s.conj = ⟨s.norm, 0⟩ := by
  ext
  · simp only [Sample.norm, Sample.conj, QuadraticAlgebra.re_mul]
    ring
  · simp only [Sample.conj, QuadraticAlgebra.im_mul]
    ring

theorem Sample.conj_mul (s t : Sample K) : (s * t).conj = s.conj * t.conj := by
  ext
  · simp only [Sample.conj, QuadraticAlgebra.re_mul]
    ring
  · simp only [Sample.conj, QuadraticAlgebra.im_mul]
    ring

/-! ## The filter and the decimation -/

theorem convolveAt_turned (samples taps : List (Sample K)) (n : Nat) :
    PulseShaper.convolveAt (turned turn samples) taps n =
      turn * PulseShaper.convolveAt samples taps n := by
  unfold PulseShaper.convolveAt
  induction taps.length with
  | zero => exact (mul_zero turn).symm
  | succ count ih =>
      rw [List.range_succ, List.foldl_append, List.foldl_append, ih]
      simp only [List.foldl_cons, List.foldl_nil, length_turned, getD_turned]
      split
      · ring
      · rfl

theorem matchedFilter_turned (shaper : PulseShaper (Sample K)) (samples : List (Sample K)) :
    shaper.matchedFilter (turned turn samples) = turned turn (shaper.matchedFilter samples) := by
  unfold PulseShaper.matchedFilter PulseShaper.convolve
  have hempty : (turned turn samples).isEmpty = samples.isEmpty := List.isEmpty_map
  rw [hempty, length_turned]
  split
  · rfl
  · conv_rhs => rw [turned, List.map_map]
    exact List.map_congr_left fun n _ => convolveAt_turned samples shaper.rrcTaps n

theorem decimateFrom_turned (sps : Nat) (filtered : List (Sample K)) (fuel pos : Nat) :
    decimateFrom sps (turned turn filtered) fuel pos =
      turned turn (decimateFrom sps filtered fuel pos) := by
  induction fuel generalizing pos with
  | zero => rfl
  | succ fuel ih =>
      rw [decimateFrom, decimateFrom, length_turned, getD_turned, ih]
      split <;> rfl

theorem decimate_turned (sps numTaps : Nat) (filtered : List (Sample K)) :
    decimate sps numTaps (turned turn filtered) = turned turn (decimate sps numTaps filtered) := by
  rw [decimate, decimate, length_turned, decimateFrom_turned]

/-! ## The search for the preamble -/

theorem correlation_turned (symbols reference : List (Sample K)) :
    correlation (turned turn symbols) reference = turn * correlation symbols reference := by
  induction symbols generalizing reference with
  | nil => simp [turned, correlation]
  | cons s symbols ih =>
      cases reference with
      | nil => simp [turned, correlation]
      | cons r reference =>
          rw [turned, List.map_cons, correlation_cons, ← turned, ih, correlation_cons]
          ring

theorem energy_turned (hturn : turn.norm = 1) (symbols : List (Sample K)) :
    energy (turned turn symbols) = energy symbols := by
  unfold energy turned
  rw [List.foldl_map]
  simp only [Sample.norm_mul, hturn, one_mul]

theorem abs_turned (hturn : turn.norm = 1) (sqrt : K → K) (s : Sample K) :
    (turn * s).abs sqrt = s.abs sqrt := by
  rw [Sample.abs, Sample.abs, Sample.norm_mul, hturn, one_mul]

variable [LinearOrder K]

theorem isPreamble_turned (sync : FrameSynchronizer K) (sqrt : K → K) (hturn : turn.norm = 1)
    (symbols : List (Sample K)) :
    sync.isPreamble sqrt (turned turn symbols) = sync.isPreamble sqrt symbols := by
  unfold FrameSynchronizer.isPreamble
  rw [correlation_turned, energy_turned hturn]
  dsimp only
  rw [abs_turned hturn]

/-- The preamble is found where it was. -/
theorem detect_turned (sync : FrameSynchronizer K) (sqrt : K → K) (hturn : turn.norm = 1)
    (symbols : List (Sample K)) :
    sync.detect sqrt (turned turn symbols) = sync.detect sqrt symbols := by
  unfold FrameSynchronizer.detect
  rw [length_turned]
  simp only [drop_turned, take_turned, isPreamble_turned sync sqrt hturn]

/-! ## What is decoded -/

/-- The preamble that the search finds, if any, shows its phase. -/
def PhaseShown (d : Decoder) (sqrt : K → K) (recovered : List (Sample K)) : Prop :=
  ∀ frameStart, d.frameStart? sqrt recovered = some frameStart →
    ShowsPhase sqrt
      (window recovered (frameStart - (makeDoubledPreamble d.config.preamble).length)
        (makeDoubledPreamble d.config.preamble).length)
      (bpskMapPreamble (makeDoubledPreamble d.config.preamble))

/-- The estimate takes the turn back. -/
theorem mul_estimate_turned (sqrt : K → K) (hturn : turn.norm = 1)
    {received reference : List (Sample K)}
    (hshown : ShowsPhase sqrt received reference) (s : Sample K) :
    turn * s * estimatePhaseCorrection sqrt (turned turn received) reference =
      s * estimatePhaseCorrection sqrt received reference := by
  -- the estimate holds the conjugate of the turn, which undoes it
  have hone : turn * turn.conj = 1 := by
    rw [Sample.mul_conj, hturn]
    rfl
  have hdiv : ∀ (t : Sample K) (x : K), t.div x = t * ⟨x⁻¹, 0⟩ := by
    intro t x
    ext <;> simp [Sample.div, div_eq_mul_inv]
  have hshown' : ShowsPhase sqrt (turned turn received) reference := by
    rwa [ShowsPhase, correlation_turned, abs_turned hturn]
  rw [estimatePhaseCorrection_of_showsPhase hshown, estimatePhaseCorrection_of_showsPhase hshown',
    correlation_turned, abs_turned hturn, Sample.conj_mul, hdiv, hdiv]
  linear_combination s * (correlation received reference).conj *
    ⟨((correlation received reference).abs sqrt)⁻¹, 0⟩ * hone

theorem Decoder.tryDecode_turned (d : Decoder) (sqrt : K → K) (hturn : turn.norm = 1)
    {recovered : List (Sample K)}
    (hshown : PhaseShown d sqrt recovered) :
    d.tryDecode sqrt (turned turn recovered) = d.tryDecode sqrt recovered := by
  unfold tryDecode
  dsimp only
  rw [detect_turned _ sqrt hturn]
  cases hdetect : (FrameSynchronizer.create (makeDoubledPreamble d.config.preamble)).detect sqrt
      recovered with
  | none => rfl
  | some frameStart =>
      dsimp only
      have hlong : frameStart ≥ (makeDoubledPreamble d.config.preamble).length :=
        FrameSynchronizer.le_of_detect hdetect
      rw [if_pos hlong, if_pos hlong, drop_turned]
      rw [map_turned, window_turned]
      congr 1
      refine List.map_congr_left fun s _ => congrArg Sample.signs ?_
      exact mul_estimate_turned sqrt hturn (hshown frameStart hdetect) s

/-- **Carrier phase.** The direct decimation decodes the same, whatever the
samples are, when all of them are turned by the same phase. -/
theorem Decoder.decodeDirect_turned (d : Decoder) (shaper : PulseShaper (Sample K)) (sqrt : K → K)
    (hturn : turn.norm = 1) {samples : List (Sample K)}
    (hshown : PhaseShown d sqrt
      (decimate shaper.sps shaper.rrcTaps.length (shaper.matchedFilter samples))) :
    d.decodeDirect shaper sqrt (turned turn samples) = d.decodeDirect shaper sqrt samples := by
  unfold decodeDirect
  have hempty : (turned turn samples).isEmpty = samples.isEmpty := List.isEmpty_map
  rw [hempty]
  split
  · rfl
  · dsimp only
    rw [matchedFilter_turned, decimate_turned]
    exact d.tryDecode_turned sqrt hturn hshown

end Turns

/-- A filter of one tap, and no sample between the symbols. -/
def oneTap : PulseShaper (Sample ℚ) := ⟨[1], 1⟩

/-- A square root of what the search for the preamble of `threeBytes` needs. -/
def sqrt676 (x : ℚ) : ℚ := if x = 676 then 26 else x

/-- The samples of three bytes, without FEC and without acquisition symbols. -/
def threeBytes : List (Sample ℚ) :=
  (Encoder.create { fecEnabled := false }).samples oneTap 0 [1, 2, 3]

theorem phaseShown_threeBytes :
    PhaseShown (Decoder.create { fecEnabled := false }) sqrt676
      (decimate oneTap.sps oneTap.rrcTaps.length (oneTap.matchedFilter threeBytes)) := by
  intro frameStart hdetect
  have hfirst : (Decoder.create { fecEnabled := false }).frameStart? sqrt676
      (decimate oneTap.sps oneTap.rrcTaps.length (oneTap.matchedFilter threeBytes)) = some 26 := by
    decide +kernel
  cases hfirst.symm.trans hdetect
  rw [ShowsPhase]
  decide +kernel

theorem Decoder.decodeDirect_turned_threeBytes :
    ((create { fecEnabled := false }).decodeDirect oneTap sqrt676
      (turned ⟨3 / 5, 4 / 5⟩ threeBytes)).1 = some [1, 2, 3] := by
  rw [decodeDirect_turned (create { fecEnabled := false }) oneTap sqrt676
    (by norm_num [Sample.norm]) phaseShown_threeBytes]
  decide +kernel

end QpskB210.Modem
