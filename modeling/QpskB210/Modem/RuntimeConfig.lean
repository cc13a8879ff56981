import Mathlib.Data.Rat.Defs
import QpskB210.Modem.FecDecoder
import QpskB210.Modem.PulseShaper
import QpskB210.Modem.TimingRecovery

/-!
# Modem — RuntimeConfig

The whole configuration of a node and `validate`, with the constructors that
are then given its values. Doubles are read as rationals.
-/

namespace QpskB210.Modem

/-- `Config`, with all its fields. -/
structure RuntimeConfig where
  centerFreq : ℚ := 2400000000
  txFreq : ℚ := 0
  rxFreq : ℚ := 0
  sampleRate : ℚ := 1000000
  txGain : ℚ := 40
  rxGain : ℚ := 40
  txAntenna : String := "TX/RX"
  rxAntenna : String := "RX2"
  samplesPerSymbol : Int32 := 4
  rrcRolloff : ℚ := 35 / 100
  rrcSpanSymbols : Int32 := 6
  preamble : List UInt8 := [1, 1, 1, 1, 1, 0, 0, 1, 1, 0, 1, 0, 1]
  acquisitionSymbols : Int32 := 128
  rampSymbols : Int32 := 8
  tcpInputAddr : String := "127.0.0.1"
  tcpInputPort : UInt16 := 5000
  tcpOutputAddr : String := "127.0.0.1"
  tcpOutputPort : UInt16 := 5001
  useUdp : Bool := false
  udpInputAddr : String := "127.0.0.1"
  udpInputPort : UInt16 := 1113
  udpOutputAddr : String := "127.0.0.1"
  udpOutputPort : UInt16 := 1114
  fecEnabled : Bool := true
  fecCodeRate : CodeRate := .rate12
  deviceSerial : String := ""
deriving DecidableEq, Repr

namespace RuntimeConfig

def effectiveTxFreq (cfg : RuntimeConfig) : ℚ :=
  if cfg.txFreq > 0 then cfg.txFreq else cfg.centerFreq

def effectiveRxFreq (cfg : RuntimeConfig) : ℚ :=
  if cfg.rxFreq > 0 then cfg.rxFreq else cfg.centerFreq

/-- `if (bad) throw std::invalid_argument(message);` -/
def reject (bad : Bool) (message : List MessagePart) : Except InvalidArgument Unit :=
  if bad then .error ⟨message⟩ else .ok ()

/-- `static_cast<long long>`. -/
def truncate (x : ℚ) : Int := x.num.tdiv x.den

def validate (cfg : RuntimeConfig) : Except InvalidArgument Unit := do
  reject (cfg.centerFreq < 70000000 ∨ cfg.centerFreq > 6000000000)
    [.text "center_freq ", .int (truncate cfg.centerFreq),
      .text " Hz is outside valid range [70000000, 6000000000] Hz"]
  reject (cfg.sampleRate ≤ 0 ∨ cfg.sampleRate > 56000000)
    [.text "sample_rate ", .real cfg.sampleRate,
      .text " Hz is outside valid range (0, 56000000] Hz"]
  reject (cfg.txGain < 0 ∨ cfg.txGain > 8975 / 100)
    [.text "tx_gain ", .real cfg.txGain, .text " dB is outside valid range [0, 89.75] dB"]
  reject (cfg.rxGain < 0 ∨ cfg.rxGain > 76)
    [.text "rx_gain ", .real cfg.rxGain, .text " dB is outside valid range [0, 76] dB"]
  reject (cfg.samplesPerSymbol < 2)
    [.text "samples_per_symbol ", .int cfg.samplesPerSymbol.toInt,
      .text " is below minimum value of 2"]
  reject (cfg.rrcRolloff ≤ 0 ∨ cfg.rrcRolloff > 1)
    [.text "rrc_rolloff ", .real cfg.rrcRolloff, .text " is outside valid range (0, 1.0]"]
  reject (cfg.rrcSpanSymbols < 1)
    [.text "rrc_span_symbols ", .int cfg.rrcSpanSymbols.toInt,
      .text " is below minimum value of 1"]
  reject (cfg.fecCodeRate ≠ .rate12 ∧ cfg.fecCodeRate ≠ .rate34)
    [.text "fec_code_rate ", .int cfg.fecCodeRate.toUInt8.toNat,
      .text " is not a supported value. Supported values: 1/2, 3/4"]
  reject (cfg.tcpInputPort = 0) [.text "tcp_input_port 0 is invalid; port must be > 0"]
  reject (cfg.tcpOutputPort = 0) [.text "tcp_output_port 0 is invalid; port must be > 0"]
  reject cfg.preamble.isEmpty [.text "preamble must not be empty"]
  reject (cfg.acquisitionSymbols < 0)
    [.text "acquisition_symbols ", .int cfg.acquisitionSymbols.toInt, .text " must be >= 0"]
  reject (cfg.rampSymbols < 0)
    [.text "ramp_symbols ", .int cfg.rampSymbols.toInt, .text " must be >= 0"]

/-- What `validate` accepts. -/
structure Valid (cfg : RuntimeConfig) : Prop where
  centerFreq : 70000000 ≤ cfg.centerFreq ∧ cfg.centerFreq ≤ 6000000000
  sampleRate : 0 < cfg.sampleRate ∧ cfg.sampleRate ≤ 56000000
  txGain : 0 ≤ cfg.txGain ∧ cfg.txGain ≤ 8975 / 100
  rxGain : 0 ≤ cfg.rxGain ∧ cfg.rxGain ≤ 76
  samplesPerSymbol : 2 ≤ cfg.samplesPerSymbol.toInt
  rrcRolloff : 0 < cfg.rrcRolloff ∧ cfg.rrcRolloff ≤ 1
  rrcSpanSymbols : 1 ≤ cfg.rrcSpanSymbols.toInt
  tcpInputPort : cfg.tcpInputPort ≠ 0
  tcpOutputPort : cfg.tcpOutputPort ≠ 0
  preamble : cfg.preamble ≠ []
  acquisitionSymbols : 0 ≤ cfg.acquisitionSymbols.toInt
  rampSymbols : 0 ≤ cfg.rampSymbols.toInt

@[simp]
theorem reject_eq_ok {bad : Bool} {message : List MessagePart} {x : Unit} :
    reject bad message = .ok x ↔ bad = false := by
  cases bad <;> simp [reject]

@[simp]
theorem reject_bind_eq_ok {α : Type} {bad : Bool} {message : List MessagePart}
    {rest : Unit → Except InvalidArgument α} {x : α} :
    (reject bad message >>= rest) = .ok x ↔ bad = false ∧ rest () = .ok x := by
  cases bad <;> simp [reject, bind, Except.bind]

theorem validate_eq_ok_iff {cfg : RuntimeConfig} : cfg.validate = .ok () ↔ cfg.Valid := by
  have hrate : ¬(cfg.fecCodeRate ≠ .rate12 ∧ cfg.fecCodeRate ≠ .rate34) := by
    cases cfg.fecCodeRate <;> simp
  constructor
  · intro h
    simp only [validate, reject_bind_eq_ok, reject_eq_ok, decide_eq_false_iff_not, not_or, not_lt,
      not_le, gt_iff_lt, Int32.lt_iff_toInt_lt, List.isEmpty_eq_false_iff] at h
    obtain ⟨hcenter, hsample, htx, hrx, hsps, hrolloff, hspan, -, hin, hout, hpreamble, hacq,
      hramp⟩ := h
    exact ⟨hcenter, hsample, htx, hrx, hsps, hrolloff, hspan, hin, hout, hpreamble, hacq, hramp⟩
  · intro h
    simp only [validate, reject_bind_eq_ok, reject_eq_ok, decide_eq_false_iff_not, not_or, not_lt,
      not_le, gt_iff_lt, Int32.lt_iff_toInt_lt, List.isEmpty_eq_false_iff]
    exact ⟨h.centerFreq, h.sampleRate, h.txGain, h.rxGain, h.samplesPerSymbol, h.rrcRolloff,
      h.rrcSpanSymbols, hrate, h.tcpInputPort, h.tcpOutputPort, h.preamble, h.acquisitionSymbols,
      h.rampSymbols⟩

/-- The defaults pass their own checks. -/
theorem validate_defaults : validate {} = .ok () := by decide +kernel

end RuntimeConfig

/-! ## The constructors -/

/-- The result of an `int` operation, unless it overflows. -/
def toInt32? (n : Int) : Option Int32 :=
  if -2 ^ 31 ≤ n ∧ n < 2 ^ 31 then some (Int32.ofInt n) else none

/-- `rrc_span_symbols * samples_per_symbol + 1`. -/
def RuntimeConfig.numTaps (cfg : RuntimeConfig) : Option Int32 := do
  let span ← toInt32? (cfg.rrcSpanSymbols.toInt * cfg.samplesPerSymbol.toInt)
  toInt32? (span.toInt + 1)

/-- `ramp_symbols * samples_per_symbol`. -/
def RuntimeConfig.rampLength (cfg : RuntimeConfig) : Option Int32 :=
  toInt32? (cfg.rampSymbols.toInt * cfg.samplesPerSymbol.toInt)

/-- The constructor; what the taps are is left open. -/
def PulseShaper.create (rrcTaps : ℚ → Int32 → Int32 → List ℚ) (rolloff : ℚ)
    (sps numTaps : Int32) : Except InvalidArgument (PulseShaper ℚ) :=
  if rolloff ≤ 0 ∨ rolloff > 1 then
    .error ⟨[.text "PulseShaper: rolloff must be in (0, 1.0], got ", .real rolloff]⟩
  else if sps < 1 then
    .error ⟨[.text "PulseShaper: sps must be >= 1, got ", .int sps.toInt]⟩
  else if numTaps < 1 then
    .error ⟨[.text "PulseShaper: num_taps must be >= 1, got ", .int numTaps.toInt]⟩
  else .ok { rrcTaps := rrcTaps rolloff sps numTaps, sps := sps.toInt.toNat }

def FecEncoder.create (rate : CodeRate) : Except InvalidArgument FecEncoder :=
  if rate ≠ .rate12 ∧ rate ≠ .rate34 then
    .error ⟨[.text "Unsupported FEC code rate. Supported values: 1/2, 3/4"]⟩
  else .ok ⟨rate⟩

def FecDecoder.create (rate : CodeRate) : Except InvalidArgument FecDecoder :=
  if rate ≠ .rate12 ∧ rate ≠ .rate34 then
    .error ⟨[.text "Unsupported FEC code rate. Supported values: 1/2, 3/4"]⟩
  else .ok { codeRate := rate }

namespace RuntimeConfig

/-- What the consumers of a configuration rely on. -/
structure Sufficient (rrcTaps : ℚ → Int32 → Int32 → List ℚ) (cfg : RuntimeConfig) : Prop where
  pulseShaper : ∃ numTaps shaper, cfg.numTaps = some numTaps ∧
    PulseShaper.create rrcTaps cfg.rrcRolloff cfg.samplesPerSymbol numTaps = .ok shaper
  rampLength : ∃ length, cfg.rampLength = some length
  timingRecovery : ∃ recovery,
    TimingRecovery.create cfg.samplesPerSymbol.toInt (1 / 100) = .ok recovery
  fecEncoder : ∃ encoder, FecEncoder.create cfg.fecCodeRate = .ok encoder
  fecDecoder : ∃ decoder, FecDecoder.create cfg.fecCodeRate = .ok decoder
  effectiveTxFreq : 70000000 ≤ cfg.effectiveTxFreq ∧ cfg.effectiveTxFreq ≤ 6000000000
  effectiveRxFreq : 70000000 ≤ cfg.effectiveRxFreq ∧ cfg.effectiveRxFreq ≤ 6000000000

/-- What `validate` leaves unchecked of it. -/
structure Unchecked (cfg : RuntimeConfig) : Prop where
  numTaps : cfg.rrcSpanSymbols.toInt * cfg.samplesPerSymbol.toInt + 1 ≤ 2147483647
  rampLength : cfg.rampSymbols.toInt * cfg.samplesPerSymbol.toInt ≤ 2147483647
  txFreq : cfg.txFreq ≤ 0 ∨ 70000000 ≤ cfg.txFreq ∧ cfg.txFreq ≤ 6000000000
  rxFreq : cfg.rxFreq ≤ 0 ∨ 70000000 ≤ cfg.rxFreq ∧ cfg.rxFreq ≤ 6000000000

end RuntimeConfig

theorem toInt32?_eq_some_iff {n : Int} {x : Int32} :
    toInt32? n = some x ↔ x.toInt = n := by
  constructor
  · intro h
    unfold toInt32? at h
    split at h
    · rename_i hfits
      cases h
      exact Int32.toInt_ofInt_of_le hfits.1 hfits.2
    · cases h
  · rintro rfl
    rw [toInt32?, if_pos ⟨x.le_toInt, x.toInt_lt⟩, Int32.ofInt_toInt]

theorem exists_toInt32?_iff {n : Int} (hn : 0 ≤ n) :
    (∃ x, toInt32? n = some x) ↔ n ≤ 2147483647 := by
  constructor
  · rintro ⟨x, h⟩
    rw [← toInt32?_eq_some_iff.mp h]
    exact Int.le_of_lt_add_one x.toInt_lt
  · intro hle
    exact ⟨_, if_pos ⟨by omega, by omega⟩⟩

theorem FecEncoder.create_eq (rate : CodeRate) : create rate = .ok ⟨rate⟩ := by
  cases rate <;> rfl

theorem FecDecoder.create_eq (rate : CodeRate) : create rate = .ok { codeRate := rate } := by
  cases rate <;> rfl

theorem PulseShaper.create_eq (rrcTaps : ℚ → Int32 → Int32 → List ℚ) {rolloff : ℚ}
    {sps numTaps : Int32} (hrolloff : 0 < rolloff ∧ rolloff ≤ 1) (hsps : 1 ≤ sps.toInt)
    (htaps : 1 ≤ numTaps.toInt) :
    create rrcTaps rolloff sps numTaps =
      .ok { rrcTaps := rrcTaps rolloff sps numTaps, sps := sps.toInt.toNat } := by
  have hvalid : ¬(rolloff ≤ 0 ∨ rolloff > 1) := by
    simpa using hrolloff
  rw [create, if_neg hvalid, if_neg (by simpa [Int32.lt_iff_toInt_lt] using hsps),
    if_neg (by simpa [Int32.lt_iff_toInt_lt] using htaps)]

theorem TimingRecovery.exists_create {sps : Int} {gainMu : ℚ} (hsps : 2 ≤ sps)
    (hgain : 0 < gainMu ∧ gainMu < 1) : ∃ recovery, create sps gainMu = .ok recovery := by
  have hvalid : ¬(gainMu ≤ 0 ∨ gainMu ≥ 1) := by
    simpa using hgain
  rw [create, if_neg (by omega), if_neg hvalid]
  exact ⟨_, rfl⟩

namespace RuntimeConfig

variable {cfg : RuntimeConfig}

theorem exists_numTaps_iff (h : cfg.Valid) :
    (∃ numTaps, cfg.numTaps = some numTaps) ↔
      cfg.rrcSpanSymbols.toInt * cfg.samplesPerSymbol.toInt + 1 ≤ 2147483647 := by
  have hsps := h.samplesPerSymbol
  have hspan := h.rrcSpanSymbols
  have hproduct : 0 ≤ cfg.rrcSpanSymbols.toInt * cfg.samplesPerSymbol.toInt :=
    Int.mul_nonneg (by omega) (by omega)
  constructor
  · rintro ⟨numTaps, htaps⟩
    obtain ⟨span, hspan, htaps⟩ := Option.bind_eq_some_iff.mp htaps
    rw [← toInt32?_eq_some_iff.mp hspan]
    exact (exists_toInt32?_iff (by rw [toInt32?_eq_some_iff.mp hspan]; omega)).mp ⟨_, htaps⟩
  · intro hfits
    obtain ⟨span, hspan⟩ := (exists_toInt32?_iff hproduct).mpr (by omega)
    have hvalue := toInt32?_eq_some_iff.mp hspan
    obtain ⟨numTaps, htaps⟩ :=
      (exists_toInt32?_iff (n := span.toInt + 1) (by omega)).mpr (by omega)
    exact ⟨numTaps, Option.bind_eq_some_iff.mpr ⟨span, hspan, htaps⟩⟩

/-- There is then at least one tap. -/
theorem one_le_numTaps (h : cfg.Valid) {numTaps : Int32} (htaps : cfg.numTaps = some numTaps) :
    1 ≤ numTaps.toInt := by
  have hproduct : 0 ≤ cfg.rrcSpanSymbols.toInt * cfg.samplesPerSymbol.toInt :=
    Int.mul_nonneg (le_trans (by decide) h.rrcSpanSymbols) (le_trans (by decide) h.samplesPerSymbol)
  obtain ⟨span, hspan, htaps⟩ := Option.bind_eq_some_iff.mp htaps
  rw [toInt32?_eq_some_iff.mp htaps, toInt32?_eq_some_iff.mp hspan]
  omega

/-- A frequency that is only looked at if it is set. -/
theorem effective_freq_iff {freq center : ℚ} (hcenter : 70000000 ≤ center ∧ center ≤ 6000000000) :
    (70000000 ≤ (if freq > 0 then freq else center) ∧
        (if freq > 0 then freq else center) ≤ 6000000000) ↔
      freq ≤ 0 ∨ 70000000 ≤ freq ∧ freq ≤ 6000000000 := by
  split
  · rename_i hset
    exact (or_iff_right (not_le.mpr hset)).symm
  · rename_i hset
    exact iff_of_true hcenter (.inl (not_lt.mp hset))

/-- An accepted configuration is good for its consumers exactly if it also
meets what `validate` leaves unchecked. -/
theorem sufficient_iff_unchecked (rrcTaps : ℚ → Int32 → Int32 → List ℚ)
    (h : cfg.validate = .ok ()) : cfg.Sufficient rrcTaps ↔ cfg.Unchecked := by
  have hvalid := validate_eq_ok_iff.mp h
  have hramp : 0 ≤ cfg.rampSymbols.toInt * cfg.samplesPerSymbol.toInt :=
    Int.mul_nonneg hvalid.rampSymbols (le_trans (by decide) hvalid.samplesPerSymbol)
  constructor
  · intro hall
    obtain ⟨numTaps, -, htaps, -⟩ := hall.pulseShaper
    exact ⟨(exists_numTaps_iff hvalid).mp ⟨numTaps, htaps⟩,
      (exists_toInt32?_iff hramp).mp hall.rampLength,
      (effective_freq_iff hvalid.centerFreq).mp hall.effectiveTxFreq,
      (effective_freq_iff hvalid.centerFreq).mp hall.effectiveRxFreq⟩
  · intro hrest
    obtain ⟨numTaps, htaps⟩ := (exists_numTaps_iff hvalid).mpr hrest.numTaps
    have hshaper := PulseShaper.create_eq rrcTaps hvalid.rrcRolloff
      (le_trans (by decide) hvalid.samplesPerSymbol) (one_le_numTaps hvalid htaps)
    exact
      { pulseShaper := ⟨numTaps, _, htaps, hshaper⟩
        rampLength := (exists_toInt32?_iff hramp).mpr hrest.rampLength
        timingRecovery := TimingRecovery.exists_create hvalid.samplesPerSymbol (by norm_num)
        fecEncoder := ⟨_, FecEncoder.create_eq _⟩
        fecDecoder := ⟨_, FecDecoder.create_eq _⟩
        effectiveTxFreq := (effective_freq_iff hvalid.centerFreq).mpr hrest.txFreq
        effectiveRxFreq := (effective_freq_iff hvalid.centerFreq).mpr hrest.rxFreq }

theorem sufficient_iff_unchecked_defaults :
    Sufficient (fun _ _ _ => [1]) {} ↔ Unchecked {} :=
  sufficient_iff_unchecked _ validate_defaults

/-- An accepted configuration with both products and both frequencies out of
range. -/
def outOfRange : RuntimeConfig where
  samplesPerSymbol := 65536
  rrcSpanSymbols := 65536
  rampSymbols := 65536
  txFreq := 1
  rxFreq := 10000000000

theorem validate_insufficient :
    ¬∀ (rrcTaps : ℚ → Int32 → Int32 → List ℚ) (cfg : RuntimeConfig),
      cfg.validate = .ok () → cfg.Sufficient rrcTaps := by
  intro hevery
  have hall := hevery (fun _ _ _ => [1]) outOfRange (by decide +kernel)
  obtain ⟨_, -, htaps, -⟩ := hall.pulseShaper
  have hoverflow : outOfRange.numTaps = none := by decide +kernel
  rw [hoverflow] at htaps
  cases htaps

end RuntimeConfig

end QpskB210.Modem
