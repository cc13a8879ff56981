import Mathlib.Algebra.QuadraticAlgebra.Defs
import Mathlib.Analysis.Complex.Basic
import Mathlib.Data.List.GetD
import QpskB210.Lib.Correlation
import QpskB210.Modem.Types

/-!
# Modem — FrameSynchronizer

The search for the preamble in exact arithmetic, over any ordered field with a
square root. Symbols that follow what was sent, up to a complex gain and a
disturbance, are found at the preamble: no window before it is like it.
-/

namespace QpskB210.Modem

open QpskB210.Lib

/-! ## Samples -/

/-- `std::complex`. -/
abbrev Sample (K : Type) [CommRing K] : Type := QuadraticAlgebra K (-1) 0

namespace Sample

variable {K : Type} [CommRing K]

def conj (s : Sample K) : Sample K := ⟨s.re, -s.im⟩

/-- `std::norm`, the square of the magnitude. -/
def norm (s : Sample K) : K := s.re * s.re + s.im * s.im

/-- `std::abs`. -/
def abs (sqrt : K → K) (s : Sample K) : K := sqrt s.norm

/-- The quotient by a real number. -/
def div {K : Type} [Field K] (s : Sample K) (x : K) : Sample K := ⟨s.re / x, s.im / x⟩

/-- The number that is meant. -/
def toComplex (s : Sample ℝ) : ℂ := ⟨s.re, s.im⟩

@[simp] theorem toComplex_zero : toComplex 0 = 0 := rfl

@[simp] theorem toComplex_one : toComplex 1 = 1 := rfl

@[simp] theorem toComplex_add (s t : Sample ℝ) :
    (s + t).toComplex = s.toComplex + t.toComplex := rfl

@[simp] theorem toComplex_sub (s t : Sample ℝ) :
    (s - t).toComplex = s.toComplex - t.toComplex := rfl

@[simp] theorem toComplex_mul (s t : Sample ℝ) :
    (s * t).toComplex = s.toComplex * t.toComplex := by
  apply Complex.ext <;> simp [toComplex, sub_eq_add_neg]

@[simp] theorem toComplex_conj (s : Sample ℝ) :
    s.conj.toComplex = (starRingEnd ℂ) s.toComplex := rfl

theorem norm_eq (s : Sample ℝ) : s.norm = ‖s.toComplex‖ ^ 2 := by
  rw [Complex.sq_norm, Complex.normSq_apply]
  rfl

theorem abs_eq (s : Sample ℝ) : s.abs Real.sqrt = ‖s.toComplex‖ := by
  rw [abs, norm_eq, Real.sqrt_sq (norm_nonneg _)]

end Sample

/-! ## The loops -/

/-- `bpsk_map_preamble`. -/
def bpskMapPreamble {K : Type} [CommRing K] (bits : List Bool) : List (Sample K) :=
  bits.map fun bit => if bit then ⟨-1, 0⟩ else ⟨1, 0⟩

@[simp] theorem length_bpskMapPreamble {K : Type} [CommRing K] (bits : List Bool) :
    (bpskMapPreamble bits : List (Sample K)).length = bits.length :=
  List.length_map _

/-- The sum of the products with the conjugate reference. -/
def correlation {K : Type} [CommRing K] (symbols reference : List (Sample K)) : Sample K :=
  (symbols.zip reference).foldl (fun corr pair => corr + pair.1 * pair.2.conj) 0

def energy {K : Type} [CommRing K] (symbols : List (Sample K)) : K :=
  symbols.foldl (fun energy s => energy + s.norm) 0

structure FrameSynchronizer (K : Type) [CommRing K] where
  preambleSymbols : List (Sample K)
  threshold : K

namespace FrameSynchronizer

variable {K : Type} [Field K]

/-- The default threshold is the `float` 0.85. -/
def create (preamble : List Bool) (threshold : K := 7130317 / 8388608) : FrameSynchronizer K where
  preambleSymbols := bpskMapPreamble preamble
  threshold := threshold

variable [LinearOrder K]

/-- One round of the search. Windows without energy are passed over; the bound
is the `float` 1e-12. -/
def isPreamble (sync : FrameSynchronizer K) (sqrt : K → K) (window : List (Sample K)) : Bool :=
  let corr := correlation window sync.preambleSymbols
  let denom := sqrt (energy sync.preambleSymbols * energy window)
  if denom < 2305843 / 2305843009213693952 then false
  else decide (corr.abs sqrt / denom ≥ sync.threshold)

/-- The index of the first symbol after the preamble. -/
def detect (sync : FrameSynchronizer K) (sqrt : K → K) (symbols : List (Sample K)) : Option Nat :=
  let plen := sync.preambleSymbols.length
  if symbols.length < plen ∨ plen = 0 then none
  else
    let searchLen := symbols.length - plen + 1
    ((List.range searchLen).find? fun i =>
      sync.isPreamble sqrt ((symbols.drop i).take plen)).map (· + plen)

end FrameSynchronizer

/-- `estimate_phase_correction`. Its bound is the `float` 1e-10. -/
def estimatePhaseCorrection {K : Type} [Field K] [LinearOrder K] (sqrt : K → K)
    (receivedPreamble referencePreamble : List (Sample K)) : Sample K :=
  let corr := correlation receivedPreamble referencePreamble
  let mag := corr.abs sqrt
  if mag < 14411519 / 144115188075855872 then 1 else corr.conj.div mag

/-- The symbols are not too weak to show the phase: the estimate of
`estimate_phase_correction` is not given up. -/
def ShowsPhase {K : Type} [Field K] [LinearOrder K] (sqrt : K → K)
    (receivedPreamble referencePreamble : List (Sample K)) : Prop :=
  14411519 / 144115188075855872 ≤ (correlation receivedPreamble referencePreamble).abs sqrt

theorem estimatePhaseCorrection_of_showsPhase {K : Type} [Field K] [LinearOrder K] {sqrt : K → K}
    {receivedPreamble referencePreamble : List (Sample K)}
    (h : ShowsPhase sqrt receivedPreamble referencePreamble) :
    estimatePhaseCorrection sqrt receivedPreamble referencePreamble =
      (correlation receivedPreamble referencePreamble).conj.div
        ((correlation receivedPreamble referencePreamble).abs sqrt) := by
  rw [estimatePhaseCorrection, if_neg (not_lt.mpr h)]

/-! ## The loops as sums -/

/-- The samples of a list as a signal. -/
def signal (symbols : List (Sample ℝ)) (j : ℕ) : ℂ := (symbols.getD j 0).toComplex

theorem correlation_cons {K : Type} [CommRing K] (s r : Sample K)
    (symbols reference : List (Sample K)) :
    correlation (s :: symbols) (r :: reference) =
      s * r.conj + correlation symbols reference := by
  have hsum : ∀ pairs : List (Sample K × Sample K),
      pairs.foldl (fun corr pair => corr + pair.1 * pair.2.conj) 0 =
        (pairs.map fun pair => pair.1 * pair.2.conj).sum := by
    intro pairs
    rw [List.sum_eq_foldl, List.foldl_map]
  rw [correlation, correlation, List.zip_cons_cons, hsum, hsum, List.map_cons, List.sum_cons]

theorem toComplex_correlation (symbols : List (Sample ℝ)) {reference : List (Sample ℝ)} {n : ℕ}
    (hn : reference.length = n) : (correlation symbols reference).toComplex =
      Correlation.correlation (Finset.range n) (signal symbols) (signal reference) := by
  induction symbols generalizing reference n with
  | nil => simp [correlation, Correlation.correlation, signal]
  | cons s symbols ih =>
      cases reference with
      | nil =>
          subst hn
          simp [correlation, Correlation.correlation]
      | cons r reference =>
          subst hn
          have hrest := ih (refl reference.length)
          rw [correlation_cons, Sample.toComplex_add, hrest, List.length_cons,
            Correlation.correlation, Correlation.correlation, Finset.sum_range_succ', add_comm]
          simp [signal]

theorem energy_eq {symbols : List (Sample ℝ)} {n : ℕ} (hn : symbols.length = n) :
    energy symbols = Correlation.energy (Finset.range n) (signal symbols) := by
  have hsum : energy symbols = (symbols.map Sample.norm).sum := by
    rw [energy, List.sum_eq_foldl, List.foldl_map]
  rw [hsum]
  clear hsum
  induction symbols generalizing n with
  | nil =>
      subst hn
      simp [Correlation.energy]
  | cons s symbols ih =>
      subst hn
      rw [List.map_cons, List.sum_cons, ih rfl, List.length_cons, Correlation.energy,
        Correlation.energy, Finset.sum_range_succ', add_comm]
      simp [signal, Sample.norm_eq]

/-! ## One window -/

theorem norm_signal_bpskMapPreamble (preamble : List Bool) {j : ℕ}
    (hj : j ∈ Finset.range preamble.length) : ‖signal (bpskMapPreamble preamble) j‖ = 1 := by
  have hj := Finset.mem_range.mp hj
  have hsquare : ‖signal (bpskMapPreamble preamble) j‖ ^ 2 = 1 := by
    rw [signal, ← Sample.norm_eq, List.getD_eq_getElem _ _ (by simpa using hj)]
    simp only [bpskMapPreamble, List.getElem_map]
    split <;> simp [Sample.norm]
  exact (pow_eq_one_iff_of_nonneg (norm_nonneg _) two_ne_zero).mp hsquare

/-- The energy of the preamble is its length. -/
theorem energy_bpskMapPreamble (preamble : List Bool) :
    energy (bpskMapPreamble preamble : List (Sample ℝ)) = preamble.length := by
  rw [energy_eq (length_bpskMapPreamble preamble), Correlation.energy,
    Finset.sum_congr rfl fun j hj => by rw [norm_signal_bpskMapPreamble preamble hj]]
  simp

/-- What a round of the search computes. -/
theorem isPreamble_create {preamble : List Bool} {threshold : ℝ} {window : List (Sample ℝ)}
    (hwindow : window.length = preamble.length) :
    (FrameSynchronizer.create preamble threshold).isPreamble Real.sqrt window = true ↔
      2305843 / 2305843009213693952 ≤ √(preamble.length *
        Correlation.energy (Finset.range preamble.length) (signal window)) ∧
      threshold ≤ Correlation.similarity (Finset.range preamble.length) (signal window)
        (signal (bpskMapPreamble preamble)) := by
  have henergy := energy_eq hwindow
  have hcorrelation := toComplex_correlation window (length_bpskMapPreamble (K := ℝ) preamble)
  unfold FrameSynchronizer.isPreamble FrameSynchronizer.create
  simp only [energy_bpskMapPreamble, henergy, Sample.abs_eq, hcorrelation]
  rw [Correlation.similarity, Finset.card_range]
  split
  · rename_i hlow
    exact iff_of_false Bool.false_ne_true fun h => hlow.not_ge h.1
  · rename_i hhigh
    rw [decide_eq_true_iff, and_iff_right (not_lt.mp hhigh)]

/-! ## The search -/

/-- The symbols from `i` on, as long as the preamble. -/
def window {K : Type} [CommRing K] (symbols : List (Sample K)) (i length : ℕ) : List (Sample K) :=
  (symbols.drop i).take length

theorem signal_window (symbols : List (Sample ℝ)) (i : ℕ) {length j : ℕ}
    (hj : j ∈ Finset.range length) : signal (window symbols i length) j = signal symbols (i + j) := by
  have hj := Finset.mem_range.mp hj
  simp only [signal, window, List.getD_eq_getElem?_getD, List.getElem?_take, if_pos hj,
    List.getElem?_drop]

theorem length_window {symbols : List (Sample ℝ)} {i length : ℕ}
    (hin : i + length ≤ symbols.length) : (window symbols i length).length = length := by
  rw [window, List.length_take, List.length_drop]
  omega

/-- The preamble is found whole. -/
theorem FrameSynchronizer.le_of_detect {K : Type} [Field K] [LinearOrder K] {preamble : List Bool}
    {sqrt : K → K} {symbols : List (Sample K)} {frameStart : ℕ}
    (h : (create preamble).detect sqrt symbols = some frameStart) :
    preamble.length ≤ frameStart := by
  unfold detect at h
  dsimp only at h
  split at h
  · cases h
  · obtain ⟨i, -, rfl⟩ := Option.map_eq_some_iff.mp h
    rw [create, length_bpskMapPreamble]
    exact Nat.le_add_left _ _

/-- Symbol `n` begins the preamble, and no window before it is like it. -/
structure Announced {K : Type} [Field K] [LinearOrder K] (preamble : List Bool)
    (sent : List (Sample K)) (n : ℕ) : Prop where
  preamble_eq : window sent n preamble.length = bpskMapPreamble preamble
  unlike : ∀ i < n, (correlation (window sent i preamble.length) (bpskMapPreamble preamble)).norm ≤
    (preamble.length * (7 / 10)) ^ 2
  strong : ∀ k < n, (9999 / 10000) ^ 2 ≤ (sent.getD k 0).norm

/-- The first `count` received symbols are those that were sent times a gain,
each disturbed by no more than 2/25 of it. -/
def FollowsSent (gain : Sample ℝ) (received sent : List (Sample ℝ)) (count : ℕ) : Prop :=
  ∀ k < count, (received.getD k 0 - gain * sent.getD k 0).norm ≤ (2 / 25) ^ 2 * gain.norm

variable {gain : Sample ℝ} {received sent : List (Sample ℝ)} {count : ℕ}

theorem FollowsSent.norm_sub_le (h : FollowsSent gain received sent count) {k : ℕ}
    (hk : k < count) :
    ‖signal received k - gain.toComplex * signal sent k‖ ≤ 2 / 25 * ‖gain.toComplex‖ := by
  have hsquare := h k hk
  rw [Sample.norm_eq, Sample.norm_eq, ← mul_pow, Sample.toComplex_sub, Sample.toComplex_mul]
    at hsquare
  exact le_of_sq_le_sq hsquare (by positivity)

theorem FollowsSent.follows_window (h : FollowsSent gain received sent count) {i length : ℕ}
    (hin : i + length ≤ count) :
    Correlation.Follows (Finset.range length) gain.toComplex (2 / 25)
      (signal (window received i length)) (signal (window sent i length)) := by
  intro j hj
  rw [signal_window received i hj, signal_window sent i hj]
  have hj := Finset.mem_range.mp hj
  exact h.norm_sub_le (by omega)

variable {preamble : List Bool} {n : ℕ}

theorem Announced.le_norm (h : Announced preamble sent n) {k : ℕ} (hk : k < n + preamble.length) :
    9999 / 10000 ≤ ‖signal sent k‖ := by
  rcases Nat.lt_or_ge k n with hbefore | hpreamble
  · have hsquare := h.strong k hbefore
    rw [Sample.norm_eq] at hsquare
    exact le_of_sq_le_sq hsquare (norm_nonneg _)
  · have hj : k - n ∈ Finset.range preamble.length := Finset.mem_range.mpr (by omega)
    have hunit := norm_signal_bpskMapPreamble preamble hj
    rw [← h.preamble_eq, signal_window sent n hj, Nat.add_sub_cancel' hpreamble] at hunit
    rw [hunit]
    norm_num

theorem Announced.norm_correlation_le (h : Announced preamble sent n) {i : ℕ} (hi : i < n) :
    ‖Correlation.correlation (Finset.range preamble.length)
      (signal (window sent i preamble.length)) (signal (bpskMapPreamble preamble))‖ ≤
        (Finset.range preamble.length).card * (7 / 10) := by
  have hsquare := h.unlike i hi
  rw [Sample.norm_eq, toComplex_correlation _ (length_bpskMapPreamble preamble)] at hsquare
  rw [Finset.card_range]
  exact le_of_sq_le_sq hsquare (by positivity)

/-- **Synchronization.** The preamble is found where it was sent, whatever the
gain and its phase, and under any disturbance of up to 2/25 of the gain. -/
theorem FrameSynchronizer.detect_of_follows (hannounced : Announced preamble sent n)
    (hpreamble : preamble ≠ []) (hgain : 1 / 10 ^ 10 ≤ ‖gain.toComplex‖)
    (hlength : n + preamble.length ≤ received.length)
    (hfollows : FollowsSent gain received sent (n + preamble.length)) :
    (FrameSynchronizer.create preamble).detect Real.sqrt received =
      some (n + preamble.length) := by
  have hplen : 0 < preamble.length := List.length_pos_iff.mpr hpreamble
  have hnonempty : (Finset.range preamble.length).Nonempty := ⟨0, Finset.mem_range.mpr hplen⟩
  have hgain0 : gain.toComplex ≠ 0 := norm_pos_iff.mp (lt_of_lt_of_le (by positivity) hgain)
  have hunit := fun j hj => @norm_signal_bpskMapPreamble preamble j hj
  have hbefore : ∀ i < n, (FrameSynchronizer.create preamble).isPreamble Real.sqrt
      (window received i preamble.length) = false := by
    intro i hi
    have hstrong : ∀ j ∈ Finset.range preamble.length,
        9999 / 10000 ≤ ‖signal (window sent i preamble.length) j‖ := by
      intro j hj
      rw [signal_window sent i hj]
      have hj := Finset.mem_range.mp hj
      exact hannounced.le_norm (by omega)
    have hwindow := hfollows.follows_window (by omega : i + preamble.length ≤ _)
    have hlower : Correlation.similarity (Finset.range preamble.length)
        (signal (window received i preamble.length)) (signal (bpskMapPreamble preamble)) <
          7130317 / 8388608 :=
      hwindow.similarity_lt hnonempty hgain0 hunit (hannounced.norm_correlation_le hi) hstrong
        (by norm_num) (by norm_num) (by norm_num)
    rw [← Bool.not_eq_true, isPreamble_create (length_window (by omega)), not_and]
    exact fun _ hhigh => hlower.not_ge hhigh
  have hfound : (FrameSynchronizer.create preamble).isPreamble Real.sqrt
      (window received n preamble.length) = true := by
    have hwindow := hfollows.follows_window (le_refl (n + preamble.length))
    rw [hannounced.preamble_eq] at hwindow
    rw [isPreamble_create (length_window hlength)]
    constructor
    · have hlow := hwindow.le_sqrt_energy (fun j hj => (hunit j hj).ge) (by norm_num)
      rw [Finset.card_range] at hlow
      refine le_trans ?_ hlow
      have hone : (1 : ℝ) ≤ preamble.length := Nat.one_le_cast.mpr hplen
      calc (2305843 / 2305843009213693952 : ℝ) ≤ 1 * ((1 - 2 / 25) * (1 / 10 ^ 10)) := by norm_num
        _ ≤ preamble.length * ((1 - 2 / 25) * ‖gain.toComplex‖) := by gcongr
    · exact hwindow.le_similarity hnonempty hgain0 hunit (by norm_num) (by norm_num) (by norm_num)
        (by norm_num)
  have hround : ((List.range (received.length - preamble.length + 1)).find? fun i =>
      (FrameSynchronizer.create preamble).isPreamble Real.sqrt
        (window received i preamble.length)) = some n := by
    rw [List.find?_range_eq_some]
    refine ⟨hfound, List.mem_range.mpr (by omega), fun i hi => ?_⟩
    rw [hbefore i hi, Bool.not_false]
  have hplen' : (FrameSynchronizer.create preamble : FrameSynchronizer ℝ).preambleSymbols.length =
      preamble.length := length_bpskMapPreamble preamble
  rw [detect, hplen', if_neg (by omega)]
  exact congrArg (Option.map (· + preamble.length)) hround

end QpskB210.Modem
