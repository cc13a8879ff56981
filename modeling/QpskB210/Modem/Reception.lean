import Mathlib.Data.Rat.Cast.Order
import Mathlib.Data.Sign.Basic
import QpskB210.Modem.CodecRoundTrip
import QpskB210.Modem.FrameSynchronizer

/-!
# Modem — Reception

The symbols of a burst, and what the decoder makes of the symbols it has
recovered: it looks for the preamble, turns the rest by the phase that the
preamble shows, and decodes. A burst is received through any complex gain and
any disturbance that is small against it.
-/

namespace QpskB210.Modem

open QpskB210.Lib

/-! ## The burst -/

section

variable {K : Type} [Field K]

/-- `S`, which is this `float`. -/
def acquisitionPattern (i : Nat) : Sample K :=
  let S : K := 11863283 / 16777216
  match i with
  | 0 => ⟨S, S⟩
  | 1 => ⟨S, -S⟩
  | 2 => ⟨-S, -S⟩
  | _ => ⟨-S, S⟩

/-- `generate_acquisition_symbols`. -/
def generateAcquisitionSymbols (count : Nat) : List (Sample K) :=
  (List.range count).map fun i => acquisitionPattern (i % 4)

/-- The entry of `CONSTELLATION`. -/
def Symbol.point (sym : Symbol) : Sample K :=
  let S : K := 11863283 / 16777216
  ⟨sym.i * S, sym.q * S⟩

/-- What the demapper looks at. -/
def Sample.signs [LinearOrder K] (s : Sample K) : Symbol :=
  ⟨SignType.sign s.re, SignType.sign s.im⟩

/-- `TAIL_SYMBOLS`. -/
def tailSymbolCount : Nat := 6

/-- The symbols that `encode` gives to the pulse shaper. -/
def Encoder.allSymbols (e : Encoder) (acquisitionSymbols : Nat) (payload : List UInt8) :
    List (Sample K) :=
  let preambleBits := (e.buildBits payload).take (e.config.preamble.length * 2)
  generateAcquisitionSymbols acquisitionSymbols ++ bpskMapPreamble preambleBits ++
    (e.encode payload).1.map Symbol.point ++ List.replicate tailSymbolCount 0

/-- `try_decode_frame`, from the recovered symbols. -/
def Decoder.tryDecode [LinearOrder K] (d : Decoder) (sqrt : K → K) (recovered : List (Sample K)) :
    Option (List UInt8) × Decoder :=
  let doubledPreamble := makeDoubledPreamble d.config.preamble
  match (FrameSynchronizer.create doubledPreamble).detect sqrt recovered with
  | none => (none, d)
  | some frameStart =>
    let phaseCorrection :=
      if frameStart ≥ doubledPreamble.length then
        let preambleStart := frameStart - doubledPreamble.length
        estimatePhaseCorrection sqrt (window recovered preambleStart doubledPreamble.length)
          (bpskMapPreamble doubledPreamble)
      else 1
    d.attempt ((recovered.drop frameStart).map fun sym => (sym * phaseCorrection).signs)

/-- Where the decoder finds the preamble to end. -/
def Decoder.frameStart? [LinearOrder K] (d : Decoder) (sqrt : K → K)
    (recovered : List (Sample K)) : Option Nat :=
  (FrameSynchronizer.create (makeDoubledPreamble d.config.preamble)).detect sqrt recovered

end

/-- No window that begins with acquisition symbols, in whatever phase of their
pattern, is like the preamble. -/
def SyncWord (preamble : List Bool) : Prop :=
  ∀ phase < 4, ∀ acquired < preamble.length,
    (correlation
      ((generateAcquisitionSymbols (phase + (acquired + 1))).drop phase ++
        (bpskMapPreamble preamble).take (preamble.length - (acquired + 1)))
      (bpskMapPreamble preamble) : Sample ℚ).norm ≤ (preamble.length * (7 / 10)) ^ 2

instance (preamble : List Bool) : Decidable (SyncWord preamble) := by
  unfold SyncWord
  infer_instance

/-- The Barker sequence, twice. -/
theorem syncWord_default : SyncWord (makeDoubledPreamble ({} : Config).preamble) := by
  decide +kernel

/-! ## What precedes the preamble -/

/-- The same sample over the reals. -/
def Sample.cast (s : Sample ℚ) : Sample ℝ := ⟨s.re, s.im⟩

@[simp] theorem Sample.cast_zero : (0 : Sample ℚ).cast = 0 := by
  ext <;> simp [cast]

theorem map_cast_bpskMapPreamble (bits : List Bool) :
    (bpskMapPreamble bits).map Sample.cast = bpskMapPreamble bits := by
  simp only [bpskMapPreamble, List.map_map]
  refine List.map_congr_left fun bit _ => ?_
  cases bit <;> simp [Sample.cast]

theorem cast_acquisitionPattern (i : Nat) :
    (acquisitionPattern i : Sample ℚ).cast = acquisitionPattern i := by
  unfold acquisitionPattern
  split <;> simp [Sample.cast]

theorem map_cast_generateAcquisitionSymbols (count : Nat) :
    (generateAcquisitionSymbols count).map Sample.cast = generateAcquisitionSymbols count := by
  simp only [generateAcquisitionSymbols, List.map_map]
  exact List.map_congr_left fun i _ => cast_acquisitionPattern (i % 4)

theorem correlation_map_cast (symbols reference : List (Sample ℚ)) :
    correlation (symbols.map Sample.cast) (reference.map Sample.cast) =
      (correlation symbols reference).cast := by
  induction symbols generalizing reference with
  | nil => simp [correlation]
  | cons s symbols ih =>
      cases reference with
      | nil => simp [correlation]
      | cons r reference =>
          rw [List.map_cons, List.map_cons, correlation_cons, correlation_cons, ih]
          ext <;> simp [Sample.cast, Sample.conj]

theorem norm_cast_eq (s : Sample ℚ) : s.cast.norm = (s.norm : ℝ) := by
  simp [Sample.norm, Sample.cast]

/-- What is left of the pattern depends on the phase alone. -/
theorem drop_generateAcquisitionSymbols {K : Type} [Field K] (i count : Nat) :
    (generateAcquisitionSymbols (i + count) : List (Sample K)).drop i =
      (generateAcquisitionSymbols (i % 4 + count)).drop (i % 4) := by
  apply List.ext_getElem?
  intro j
  simp only [generateAcquisitionSymbols, List.getElem?_drop, List.getElem?_map]
  rcases Nat.lt_or_ge j count with hin | hout
  · have hphase : (i % 4 + j) % 4 = (i + j) % 4 := by omega
    rw [List.getElem?_range (by omega), List.getElem?_range (by omega)]
    simp only [Option.map_some, hphase]
  · rw [List.getElem?_eq_none (by simp; omega), List.getElem?_eq_none (by simp; omega)]

theorem SyncWord.norm_le {preamble : List Bool} (h : SyncWord preamble) (i : Nat) {acquired : Nat}
    (hpos : 0 < acquired) (hle : acquired ≤ preamble.length) :
    (correlation
      ((generateAcquisitionSymbols (i + acquired)).drop i ++
        (bpskMapPreamble preamble).take (preamble.length - acquired))
      (bpskMapPreamble preamble) : Sample ℝ).norm ≤ (preamble.length * (7 / 10)) ^ 2 := by
  obtain ⟨acquired, rfl⟩ := Nat.exists_eq_add_one_of_ne_zero hpos.ne'
  have hle := h (i % 4) (Nat.mod_lt i (by decide)) acquired hle
  rw [← drop_generateAcquisitionSymbols] at hle
  rw [← map_cast_generateAcquisitionSymbols, ← map_cast_bpskMapPreamble, ← List.map_drop,
    ← List.map_take, ← List.map_append, correlation_map_cast, norm_cast_eq]
  have hreal := (Rat.cast_le (K := ℝ)).mpr hle
  rwa [Rat.cast_pow, Rat.cast_mul, Rat.cast_natCast, Rat.cast_div, Rat.cast_ofNat,
    Rat.cast_ofNat] at hreal

@[simp] theorem length_generateAcquisitionSymbols {K : Type} [Field K] (count : Nat) :
    (generateAcquisitionSymbols count : List (Sample K)).length = count := by
  simp [generateAcquisitionSymbols]

theorem take_generateAcquisitionSymbols {K : Type} [Field K] {k count : Nat} (hk : k ≤ count) :
    (generateAcquisitionSymbols count : List (Sample K)).take k = generateAcquisitionSymbols k := by
  rw [generateAcquisitionSymbols, ← List.map_take, List.take_range, Nat.min_eq_left hk]
  rfl

/-- A window that begins before the preamble: what is left of the acquisition
symbols, and the beginning of the preamble. -/
theorem window_append {K : Type} [Field K] {count i length : Nat} {preamble rest : List (Sample K)}
    (hi : i < count) (hlength : preamble.length = length) :
    window (generateAcquisitionSymbols count ++ (preamble ++ rest)) i length =
      (generateAcquisitionSymbols (i + min (count - i) length)).drop i ++
        preamble.take (length - min (count - i) length) := by
  rw [window, List.drop_append_of_le_length (by simp; omega), List.take_append, List.length_drop,
    length_generateAcquisitionSymbols, List.take_append_of_le_length (by omega), List.take_drop]
  congr 1
  · rcases Nat.le_total (count - i) length with hle | hle
    · rw [Nat.min_eq_left hle, Nat.add_sub_cancel' hi.le, List.take_of_length_le (by simp; omega)]
    · rw [Nat.min_eq_right hle, Nat.add_comm i, take_generateAcquisitionSymbols (by omega)]
  · congr 1
    omega

theorem norm_acquisitionPattern {K : Type} [Field K] (i : Nat) :
    (acquisitionPattern i : Sample K).norm = 2 * (11863283 / 16777216) ^ 2 := by
  unfold acquisitionPattern
  split <;> simp only [Sample.norm] <;> ring

theorem Encoder.take_buildBits (e : Encoder) (payload : List UInt8) :
    (e.buildBits payload).take (e.config.preamble.length * 2) =
      makeDoubledPreamble e.config.preamble := by
  have hpreamble : e.frameBuilder.preamble.length = e.config.preamble.length * 2 := by
    rw [e.preamble_eq, length_makeDoubledPreamble]
  have hframe : (e.frameBuilder.buildFrame payload 0 e.config.fecEnabled e.config.fecCodeRate).1 =
      e.frameBuilder.preamble ++
        frameBits (e.header payload) payload (frameCrc (e.header payload) payload) := rfl
  unfold buildBits
  dsimp only
  rw [hframe]
  split
  · -- the splice leaves the preamble and the header alone
    rw [List.append_assoc, List.take_append_of_le_length (by simp [hpreamble]),
      List.take_take, Nat.min_eq_left (by omega), List.take_left' hpreamble, e.preamble_eq]
  · rw [List.take_left' hpreamble, e.preamble_eq]

theorem Encoder.allSymbols_eq {K : Type} [Field K] (e : Encoder) (acquisitionSymbols : Nat)
    (payload : List UInt8) : (e.allSymbols acquisitionSymbols payload : List (Sample K)) =
      generateAcquisitionSymbols acquisitionSymbols ++
        (bpskMapPreamble (makeDoubledPreamble e.config.preamble) ++
          ((e.encode payload).1.map Symbol.point ++ List.replicate tailSymbolCount 0)) := by
  simp only [allSymbols, take_buildBits, List.append_assoc]

/-- A burst with such a preamble announces it. -/
theorem announced_allSymbols (e : Encoder)
    (hword : SyncWord (makeDoubledPreamble e.config.preamble)) (acquisitionSymbols : Nat)
    (payload : List UInt8) :
    Announced (makeDoubledPreamble e.config.preamble)
      (e.allSymbols acquisitionSymbols payload : List (Sample ℝ)) acquisitionSymbols := by
  rw [e.allSymbols_eq]
  refine ⟨?_, fun i hi => ?_, fun k hk => ?_⟩
  · rw [window, List.drop_left' (length_generateAcquisitionSymbols _),
      List.take_left' (length_bpskMapPreamble _)]
  · rw [window_append hi (length_bpskMapPreamble _)]
    rcases Nat.eq_zero_or_pos (makeDoubledPreamble e.config.preamble).length with hzero | hpos
    · have hnil := List.length_eq_zero_iff.mp hzero
      simp [hnil, bpskMapPreamble, correlation, Sample.norm]
    · exact hword.norm_le i (by omega) (Nat.min_le_right _ _)
  · rw [List.getD_append _ _ _ _ (by simpa using hk), List.getD_eq_getElem _ _ (by simpa using hk)]
    simp only [generateAcquisitionSymbols, List.getElem_map, norm_acquisitionPattern]
    norm_num

/-! ## The phase -/

/-- A symbol of the constellation. -/
def Symbol.Full (sym : Symbol) : Prop := sym.i ≠ 0 ∧ sym.q ≠ 0

theorem full_constellation (msb lsb : Bool) : (SymbolMapper.constellation msb lsb).Full := by
  cases msb <;> cases lsb <;> exact ⟨by decide, by decide⟩

theorem full_of_mem_map {bits : List Bool} {sym : Symbol}
    (hsym : sym ∈ (SymbolMapper.map bits).1) : sym.Full := by
  have hdibits : ∀ bits : List Bool, ∀ sym ∈ SymbolMapper.mapDibits bits, sym.Full := by
    intro bits
    fun_induction SymbolMapper.mapDibits bits with
    | case1 msb lsb rest ih => simpa using ⟨full_constellation msb lsb, ih⟩
    | case2 bits hshort => simp
  unfold SymbolMapper.map at hsym
  split at hsym <;> exact hdibits _ _ hsym

/-- A number that is near enough to a component of a point has its sign. -/
theorem sign_eq_of_near {sign : SignType} (hsign : sign ≠ 0) {x scale : ℝ} (hscale : 0 < scale)
    (hnear : |x - scale * (sign * (11863283 / 16777216))| ≤ scale * (7 / 10)) :
    SignType.sign x = sign := by
  have hwithin := abs_le.mp hnear
  cases sign with
  | zero => exact absurd rfl hsign
  | neg =>
      have hx : x < 0 := by
        simp at hwithin
        linarith
      rw [sign_neg hx]
      rfl
  | pos =>
      have hx : 0 < x := by
        simp at hwithin
        linarith
      rw [sign_pos hx]
      rfl

/-- A sample in the direction of a point has its signs. -/
theorem signs_eq_of_near {sym : Symbol} (hsym : sym.Full) {s : Sample ℝ} {scale : ℝ}
    (hscale : 0 < scale)
    (hnear : ‖s.toComplex - scale * sym.point.toComplex‖ ≤ scale * (7 / 10)) : s.signs = sym := by
  have hre := (Complex.abs_re_le_norm _).trans hnear
  have him := (Complex.abs_im_le_norm _).trans hnear
  rw [Complex.sub_re, Complex.re_ofReal_mul] at hre
  rw [Complex.sub_im, Complex.im_ofReal_mul] at him
  exact congrArg₂ Symbol.mk (sign_eq_of_near hsym.1 hscale hre) (sign_eq_of_near hsym.2 hscale him)

theorem Symbol.norm_point_le {sym : Symbol} (hsym : sym.Full) :
    ‖(sym.point : Sample ℝ).toComplex‖ ≤ 1 := by
  have hsquare : (sym.point : Sample ℝ).norm ≤ 1 ^ 2 := by
    obtain ⟨i, q⟩ := sym
    obtain ⟨hi, hq⟩ := hsym
    cases i <;> cases q <;> simp [Symbol.point, Sample.norm] at hi hq ⊢ <;> norm_num
  rw [Sample.norm_eq] at hsquare
  exact le_of_sq_le_sq hsquare (by norm_num)

theorem toComplex_div (s : Sample ℝ) (x : ℝ) : (s.div x).toComplex = (x⁻¹ : ℝ) * s.toComplex := by
  apply Complex.ext
  · rw [Complex.re_ofReal_mul, mul_comm]
    exact div_eq_mul_inv _ _
  · rw [Complex.im_ofReal_mul, mul_comm]
    exact div_eq_mul_inv _ _

/-- A sample is turned back by the phase of the correlation. -/
theorem toComplex_mul_estimate (s : Sample ℝ) {receivedPreamble referencePreamble : List (Sample ℝ)}
    (hlarge : 14411519 / 144115188075855872 ≤
      ‖(correlation receivedPreamble referencePreamble).toComplex‖) :
    (s * estimatePhaseCorrection Real.sqrt receivedPreamble referencePreamble).toComplex =
      (‖(correlation receivedPreamble referencePreamble).toComplex‖⁻¹ : ℝ) *
        (s.toComplex *
          (starRingEnd ℂ) (correlation receivedPreamble referencePreamble).toComplex) := by
  unfold estimatePhaseCorrection
  dsimp only
  rw [Sample.abs_eq, if_neg (not_lt.mpr hlarge), Sample.toComplex_mul, toComplex_div,
    Sample.toComplex_conj, mul_left_comm]

/-- The correlation with the preamble is about the gain, as often as there are
preamble symbols. -/
theorem correlation_follows {gain : Sample ℝ} {received sent : List (Sample ℝ)}
    {preamble : List Bool} {n count : ℕ} (hpreamble : 2 ≤ preamble.length)
    (hgain : 1 / 10 ^ 10 ≤ ‖gain.toComplex‖)
    (hsent : window sent n preamble.length = bpskMapPreamble preamble)
    (hfollows : FollowsSent gain received sent count) (hcount : n + preamble.length ≤ count) :
    let corr := (correlation (window received n preamble.length) (bpskMapPreamble preamble)).toComplex
    14411519 / 144115188075855872 ≤ ‖corr‖ ∧
      ‖corr - gain.toComplex * (preamble.length : ℝ)‖ ≤
        preamble.length * (2 / 25 * ‖gain.toComplex‖) := by
  have hunit := fun j hj => @norm_signal_bpskMapPreamble preamble j hj
  have hwindow := hfollows.follows_window hcount
  rw [hsent] at hwindow
  have hdisturbed := hwindow.norm_correlation_sub_le hunit
  have hlarge := hwindow.le_norm_correlation hunit
  rw [Correlation.correlation_self hunit, Finset.card_range] at hdisturbed
  rw [Finset.card_range] at hlarge
  dsimp only
  rw [toComplex_correlation _ (length_bpskMapPreamble preamble), Complex.ofReal_natCast]
  refine ⟨le_trans ?_ hlarge, hdisturbed⟩
  have htwo : (2 : ℝ) ≤ preamble.length := Nat.ofNat_le_cast.mpr hpreamble
  calc (14411519 / 144115188075855872 : ℝ) ≤ 2 * ((1 - 2 / 25) * (1 / 10 ^ 10)) := by norm_num
    _ ≤ preamble.length * ((1 - 2 / 25) * ‖gain.toComplex‖) := by gcongr

/-- **Phase correction.** Behind a preamble that follows what was sent, each
symbol has the signs of the point that was sent. -/
theorem signs_mul_estimate {gain : Sample ℝ} {received sent : List (Sample ℝ)}
    {preamble : List Bool} {n count : ℕ} (hpreamble : 2 ≤ preamble.length)
    (hgain : 1 / 10 ^ 10 ≤ ‖gain.toComplex‖)
    (hsent : window sent n preamble.length = bpskMapPreamble preamble)
    (hfollows : FollowsSent gain received sent count) (hcount : n + preamble.length ≤ count)
    {k : ℕ} (hk : k < count) {sym : Symbol} (hsym : sym.Full) (hpoint : sent.getD k 0 = sym.point) :
    (received.getD k 0 * estimatePhaseCorrection Real.sqrt
      (window received n preamble.length) (bpskMapPreamble preamble)).signs = sym := by
  obtain ⟨hfloor, hdisturbed⟩ := correlation_follows hpreamble hgain hsent hfollows hcount
  have hnear := hfollows.norm_sub_le hk
  rw [signal, signal, hpoint] at hnear
  have hturned := Correlation.norm_mul_conj_sub_le hnear (Symbol.norm_point_le hsym)
    hdisturbed (Nat.cast_nonneg _)
  have hcorr : 0 < ‖(correlation (window received n preamble.length)
      (bpskMapPreamble preamble)).toComplex‖ := lt_of_lt_of_le (by norm_num) hfloor
  have hpositive : 0 < ‖gain.toComplex‖ := lt_of_lt_of_le (by norm_num) hgain
  have hlength : (0 : ℝ) < preamble.length := Nat.cast_pos.mpr (by omega)
  have hscale : 0 < ‖(correlation (window received n preamble.length)
      (bpskMapPreamble preamble)).toComplex‖⁻¹ * (preamble.length * ‖gain.toComplex‖ ^ 2) := by
    positivity
  refine signs_eq_of_near hsym hscale ?_
  rw [toComplex_mul_estimate _ hfloor, Complex.ofReal_mul, mul_assoc, ← mul_sub, norm_mul,
    Complex.norm_real, Real.norm_of_nonneg (inv_nonneg.mpr hcorr.le), mul_assoc]
  gcongr
  calc _ ≤ preamble.length * ‖gain.toComplex‖ ^ 2 * (2 * (2 / 25) + (2 / 25) ^ 2) := hturned
    _ ≤ preamble.length * ‖gain.toComplex‖ ^ 2 * (7 / 10) := by gcongr; norm_num

/-! ## Reception -/

/-- The symbols of a burst that matter to its reception: all but the tail. -/
def Encoder.burstLength (e : Encoder) (acquisitionSymbols : Nat) (payload : List UInt8) : Nat :=
  acquisitionSymbols + (makeDoubledPreamble e.config.preamble).length +
    (e.encode payload).1.length

theorem Encoder.getD_allSymbols (e : Encoder) (acquisitionSymbols : Nat) (payload : List UInt8)
    {i : Nat} (hi : i < (e.encode payload).1.length) :
    (e.allSymbols acquisitionSymbols payload : List (Sample ℝ)).getD
      (acquisitionSymbols + (makeDoubledPreamble e.config.preamble).length + i) 0 =
        ((e.encode payload).1.get ⟨i, hi⟩).point := by
  rw [e.allSymbols_eq, ← List.append_assoc, List.getD_append_right _ _ _ _ (by simp),
    List.length_append, length_generateAcquisitionSymbols, length_bpskMapPreamble,
    Nat.add_sub_cancel_left, List.getD_append _ _ _ _ (by simpa using hi),
    List.getD_eq_getElem _ _ (by simpa using hi), List.getElem_map]
  rfl

/-- **Reception.** A burst is received through any complex gain, under any
disturbance of up to 2/25 of it: whatever the payload, the number of
acquisition symbols and what follows the burst, the decoder gets the payload. -/
theorem Decoder.tryDecode_follows (e : Encoder) (d : Decoder) {payload : List UInt8}
    (hlen : payload.length ≤ 65535) (hpreamble : d.config.preamble = e.config.preamble)
    (hnonempty : e.config.preamble ≠ [])
    (hword : SyncWord (makeDoubledPreamble e.config.preamble))
    (hrate : e.config.fecEnabled = true → d.config.fecCodeRate = e.config.fecCodeRate)
    (acquisitionSymbols : Nat) (gain : Sample ℝ) (hgain : (1 / 10 ^ 10) ^ 2 ≤ gain.norm)
    {received : List (Sample ℝ)} (hlength : e.burstLength acquisitionSymbols payload ≤ received.length)
    (hfollows : FollowsSent gain received (e.allSymbols acquisitionSymbols payload)
      (e.burstLength acquisitionSymbols payload)) :
    (d.tryDecode Real.sqrt received).1 = some payload := by
  have hstrong : 1 / 10 ^ 10 ≤ ‖gain.toComplex‖ := by
    rw [Sample.norm_eq] at hgain
    exact le_of_sq_le_sq hgain (norm_nonneg _)
  have hdoubled : 2 ≤ (makeDoubledPreamble e.config.preamble).length := by
    have := List.length_pos_iff.mpr hnonempty
    rw [length_makeDoubledPreamble]
    omega
  have hannounced := announced_allSymbols e hword acquisitionSymbols payload
  have hstart : (FrameSynchronizer.create (makeDoubledPreamble e.config.preamble)).detect Real.sqrt
      received = some (acquisitionSymbols + (makeDoubledPreamble e.config.preamble).length) := by
    unfold Encoder.burstLength at hlength hfollows
    exact FrameSynchronizer.detect_of_follows hannounced (List.ne_nil_of_length_pos (by omega))
      hstrong (by omega) fun k hk => hfollows k (by omega)
  -- the phase is right for every data symbol
  have hsigns : ∀ i (hi : i < (e.encode payload).1.length), (received.getD
      (acquisitionSymbols + (makeDoubledPreamble e.config.preamble).length + i) 0 *
        estimatePhaseCorrection Real.sqrt (window received acquisitionSymbols
          (makeDoubledPreamble e.config.preamble).length)
            (bpskMapPreamble (makeDoubledPreamble e.config.preamble))).signs =
        (e.encode payload).1.get ⟨i, hi⟩ := by
    intro i hi
    have hfull : ((e.encode payload).1.get ⟨i, hi⟩).Full := full_of_mem_map (List.get_mem _ _)
    exact signs_mul_estimate hdoubled hstrong hannounced.preamble_eq hfollows
      (Nat.le_add_right _ _) (Nat.add_lt_add_left hi _) hfull
      (e.getD_allSymbols acquisitionSymbols payload hi)
  simp only [tryDecode, hpreamble, hstart, ge_iff_le, Nat.le_add_left, if_true,
    Nat.add_sub_cancel_right]
  generalize estimatePhaseCorrection Real.sqrt (window received acquisitionSymbols
    (makeDoubledPreamble e.config.preamble).length)
      (bpskMapPreamble (makeDoubledPreamble e.config.preamble)) = phaseCorrection at hsigns ⊢
  have hsymbols : (((received.drop
      (acquisitionSymbols + (makeDoubledPreamble e.config.preamble).length)).map fun sym =>
        (sym * phaseCorrection).signs).take (e.encode payload).1.length) =
        (e.encode payload).1 := by
    unfold Encoder.burstLength at hlength
    apply List.ext_getElem
    · simp
      omega
    · intro i hi hi'
      rw [List.getElem_take, List.getElem_map, List.getElem_drop]
      have hsign := hsigns i hi'
      rwa [List.getD_eq_getElem _ _ (by omega)] at hsign
  rw [← List.take_append_drop (e.encode payload).1.length (((received.drop
    (acquisitionSymbols + (makeDoubledPreamble e.config.preamble).length)).map fun sym =>
      (sym * phaseCorrection).signs)), hsymbols]
  exact attempt_encode e d payload _ hlen hrate

theorem Encoder.length_allSymbols (e : Encoder) (acquisitionSymbols : Nat) (payload : List UInt8) :
    (e.allSymbols acquisitionSymbols payload : List (Sample ℝ)).length =
      e.burstLength acquisitionSymbols payload + tailSymbolCount := by
  simp [e.allSymbols_eq, burstLength]
  omega

/-- A burst that is turned by a right angle and not disturbed. -/
theorem Decoder.tryDecode_follows_turned :
    ((create {}).tryDecode Real.sqrt
      (((Encoder.create {}).allSymbols 128 [1, 2, 3]).map (⟨0, 1⟩ * ·))).1 = some [1, 2, 3] := by
  refine tryDecode_follows (Encoder.create {}) (create {}) (by decide) rfl (by decide)
    syncWord_default (fun _ => rfl) 128 ⟨0, 1⟩ (by norm_num [Sample.norm]) ?_ ?_
  · rw [List.length_map, Encoder.length_allSymbols]
    exact Nat.le_add_right _ _
  · intro k hk
    have hin : k < ((Encoder.create {}).allSymbols 128 [1, 2, 3] : List (Sample ℝ)).length := by
      rw [Encoder.length_allSymbols]
      exact Nat.lt_add_right _ hk
    rw [List.getD_eq_getElem _ _ (by simpa using hin), List.getD_eq_getElem _ _ hin,
      List.getElem_map, sub_self]
    norm_num [Sample.norm]

end QpskB210.Modem
