import QpskB210.Modem.Acceptance
import QpskB210.Modem.CarrierSynchronizer
import QpskB210.Modem.Channel
import QpskB210.Modem.TimingRecovery

/-!
# Modem — Receiver

The whole of `Decoder::decode`. It recovers symbols in three ways, one after
the other, until one of them carries a frame. So what it answers is what the
first of the three that carries a payload carries (`decode_accepts_iff`); and
it depends on what was decoded before only through the loops, which `reset`
takes back (`decode_reset`).
-/

namespace QpskB210.Modem

open QpskB210.Lib

def Sample.toIq (s : Sample ℚ) : Iq := ⟨s.re, s.im⟩

def Iq.toSample (s : Iq) : Sample ℚ := ⟨s.re, s.im⟩

/-- The ways to recover symbols, in their order. -/
inductive Approach where
  /-- Carrier synchronization, then timing recovery. -/
  | fullChain
  | directDecimation
  /-- Carrier synchronization from its initial state, then direct decimation. -/
  | syncedDecimation
deriving DecidableEq, Repr

/-- The state of the source's `Decoder`: what its bit pipeline has, and what
recovers the symbols. -/
structure Receiver where
  decoder : Decoder
  shaper : PulseShaper (Sample ℚ)
  carrierSync : CarrierSynchronizer
  timingRecovery : TimingRecovery
  crcErrors : UInt64 := 0
  lastFreqOffset : ℚ := 0
  lastPhaseOffset : ℚ := 0
  lastTimingOffset : ℚ := 0

namespace Receiver

/-- The loop bandwidth and the timing gain, which are this `double`. -/
def loopGain : ℚ := 5764607523034235 / 576460752303423488

variable (m : MathFunctions)

/-- The constructor, from the taps of the pulse shaper. -/
def create (config : Config) (shaper : PulseShaper (Sample ℚ)) :
    Except InvalidArgument Receiver := do
  let carrierSync ← CarrierSynchronizer.create m loopGain
  let timingRecovery ← TimingRecovery.create shaper.sps loopGain
  return {
    decoder := Decoder.create config
    shaper := shaper
    carrierSync := carrierSync
    timingRecovery := timingRecovery }

/-- `reset`. The number of bits that the FEC decoder has corrected stays. -/
def reset (r : Receiver) : Receiver :=
  { r with
    carrierSync := r.carrierSync.reset
    timingRecovery := r.timingRecovery.reset
    decoder := { r.decoder with diag := {}, rate_eq := r.decoder.rate_eq }
    crcErrors := 0, lastFreqOffset := 0, lastPhaseOffset := 0, lastTimingOffset := 0 }

/-- Carrier synchronization, with its estimates noted. -/
def synchronize (fuel : ℕ) (r : Receiver) (filtered : List (Sample ℚ)) :
    Option (List (Sample ℚ) × Receiver) :=
  (r.carrierSync.synchronize m fuel filtered).map fun synced =>
    (synced.1,
      { r with
        carrierSync := synced.2
        lastFreqOffset := synced.2.freq, lastPhaseOffset := synced.2.phase })

/-- Timing recovery, with its estimate noted. -/
def recover (fuel : ℕ) (r : Receiver) (synced : List (Sample ℚ)) :
    Option (List (Sample ℚ) × Receiver) :=
  match r.timingRecovery.recover (synced.map Sample.toIq) fuel with
  | some (.returned timingRecovery out) =>
    some (out.map Iq.toSample,
      { r with timingRecovery := timingRecovery, lastTimingOffset := timingRecovery.mu })
  | some .undefined => none
  | none => none

/-- The symbols that an approach recovers, with the receiver after it. -/
def recoverBy (fuel : ℕ) (filtered : List (Sample ℚ)) (r : Receiver) :
    Approach → Option (List (Sample ℚ) × Receiver)
  | .fullChain =>
    (r.synchronize m fuel filtered).bind fun synced => synced.2.recover fuel synced.1
  | .directDecimation => some (decimate r.shaper.sps r.shaper.rrcTaps.length filtered, r)
  | .syncedDecimation =>
    let r := { r with carrierSync := r.carrierSync.reset }
    (r.synchronize m fuel filtered).map fun synced =>
      (decimate r.shaper.sps r.shaper.rrcTaps.length synced.1, synced.2)

/-- `try_decode_frame` on the recovered symbols. -/
def tryDecode (r : Receiver) (recovered : List (Sample ℚ)) : Option (List UInt8) × Receiver :=
  let outcome := r.decoder.tryDecode m.sqrt recovered
  (outcome.1, { r with decoder := outcome.2 })

/-- The approaches that are left, until one of them gets a payload. -/
def decodeBy (fuel : ℕ) (filtered : List (Sample ℚ)) (r : Receiver) :
    List Approach → Option (Option (List UInt8) × Receiver)
  | [] => some (none, { r with crcErrors := r.crcErrors + 1 })
  | approach :: rest =>
    (r.recoverBy m fuel filtered approach).bind fun recovered =>
      let outcome := recovered.2.tryDecode m recovered.1
      match outcome.1 with
      | some payload => some (some payload, outcome.2)
      | none => outcome.2.decodeBy fuel filtered rest

/-- `decode`, if its loops end within so many rounds. -/
def decode (fuel : ℕ) (r : Receiver) (samples : List (Sample ℚ)) :
    Option (Option (List UInt8) × Receiver) :=
  if samples.isEmpty then some (none, r)
  else
    r.decodeBy m fuel (r.shaper.matchedFilter samples)
      [.fullChain, .directDecimation, .syncedDecimation]

end Receiver

/-! ## What is stated -/

/-- The data symbols after a preamble that ends at `frameStart`, turned by the
phase that it shows. -/
def Decoder.dataSymbols (d : Decoder) (sqrt : ℚ → ℚ) (recovered : List (Sample ℚ))
    (frameStart : Nat) : List Symbol :=
  let doubledPreamble := makeDoubledPreamble d.config.preamble
  (recovered.drop frameStart).map fun sym =>
    (sym * estimatePhaseCorrection sqrt
      (window recovered (frameStart - doubledPreamble.length) doubledPreamble.length)
      (bpskMapPreamble doubledPreamble)).signs

/-- The symbols have the preamble, and the bits after it are a whole frame
that carries the payload, with the CRC of its header and this payload. -/
def Decoder.Carries (d : Decoder) (sqrt : ℚ → ℚ) (recovered : List (Sample ℚ))
    (payload : List UInt8) : Prop :=
  ∃ frameStart h body,
    d.frameStart? sqrt recovered = some frameStart ∧
    Shows (d.dataSymbols sqrt recovered frameStart) h body (frameCrc h payload) ∧
    d.fecDecoder.payloadOf h body = payload

/-- The approaches that come before one. -/
def Approach.before : Approach → List Approach
  | .fullChain => []
  | .directDecimation => [.fullChain]
  | .syncedDecimation => [.fullChain, .directDecimation]

/-- The symbols that an approach recovers from samples. -/
def Receiver.recovered (m : MathFunctions) (fuel : ℕ) (r : Receiver) (samples : List (Sample ℚ))
    (approach : Approach) : Option (List (Sample ℚ)) :=
  (r.recoverBy m fuel (r.shaper.matchedFilter samples) approach).map Prod.fst

inductive ReceiverCall where
  | decode (samples : List (Sample ℚ))
  | reset

/-- Calls of one receiver. -/
def receiverCalls (m : MathFunctions) (config : Config) (shaper : PulseShaper (Sample ℚ)) :
    System Receiver ReceiverCall where
  init r := Receiver.create m config shaper = .ok r
  step r call r' :=
    match call with
    | .decode samples => ∃ fuel answer, r.decode m fuel samples = some (answer, r')
    | .reset => r' = r.reset

/-! ## One attempt -/

/-- `try_decode_frame` accepts what the symbols carry. -/
theorem Decoder.tryDecode_accepts_iff (d : Decoder) (sqrt : ℚ → ℚ) (recovered : List (Sample ℚ))
    (payload : List UInt8) :
    (d.tryDecode sqrt recovered).1 = some payload ↔ d.Carries sqrt recovered payload := by
  unfold tryDecode Carries frameStart?
  dsimp only
  cases hdetect : (FrameSynchronizer.create (makeDoubledPreamble d.config.preamble)).detect sqrt
      recovered with
  | none => simp
  | some frameStart =>
      have hle := FrameSynchronizer.le_of_detect hdetect
      have hattempt := tryDecodeFrame_accepts_iff (d.dataSymbols sqrt recovered frameStart)
        d.fecDecoder d.diag payload
      dsimp only
      rw [if_pos (ge_iff_le.mpr hle)]
      show (tryDecodeFrame (d.dataSymbols sqrt recovered frameStart) d.fecDecoder d.diag).1 = _ ↔ _
      rw [hattempt]
      simp

/-- Of a decoder, only its configuration counts. -/
theorem Decoder.fst_tryDecode_congr {d d' : Decoder} (h : d.config = d'.config) (sqrt : ℚ → ℚ)
    (recovered : List (Sample ℚ)) :
    (d.tryDecode sqrt recovered).1 = (d'.tryDecode sqrt recovered).1 := by
  have hrate : d.fecDecoder.codeRate = d'.fecDecoder.codeRate := by
    rw [d.rate_eq, d'.rate_eq, h]
  have hpayload : ∀ header body,
      d.fecDecoder.payloadOf header body = d'.fecDecoder.payloadOf header body := by
    intro header body
    simp only [FecDecoder.payloadOf, FecDecoder.decode, hrate]
  -- both answers are what the same symbols carry
  ext payload
  show _ = some payload ↔ _ = some payload
  rw [tryDecode_accepts_iff, tryDecode_accepts_iff]
  simp only [Carries, frameStart?, dataSymbols, h, hpayload]

theorem Decoder.config_tryDecode (d : Decoder) (sqrt : ℚ → ℚ) (recovered : List (Sample ℚ)) :
    (d.tryDecode sqrt recovered).2.config = d.config := by
  unfold tryDecode
  dsimp only
  split <;> rfl

theorem Decoder.tryDecode_nil (d : Decoder) (sqrt : ℚ → ℚ) : d.tryDecode sqrt [] = (none, d) := by
  have hnone : (FrameSynchronizer.create (makeDoubledPreamble d.config.preamble)).detect sqrt [] =
      none := by
    rw [FrameSynchronizer.detect]
    dsimp only
    rw [if_pos]
    rw [List.length_nil]
    omega
  rw [tryDecode]
  dsimp only
  rw [hnone]

/-! ## What stays -/

namespace TimingRecovery

/-- The gains and the number of samples for a symbol are those of the other. -/
def SameGains (tr tr' : TimingRecovery) : Prop :=
  tr.gainMu = tr'.gainMu ∧ tr.gainOmega = tr'.gainOmega ∧ tr.sps = tr'.sps

variable {tr tr' : TimingRecovery} {samples out : List Iq} {fuel : ℕ}

theorem SameGains.reset_eq (h : tr.SameGains tr') : tr.reset = tr'.reset := by
  obtain ⟨hmu, homega, hsps⟩ := h
  rw [reset, reset, hmu, homega, hsps]

theorem sameGains_recoverLoop {s : RecoverLoop}
    (h : recoverLoop samples fuel s = some (.returned tr' out)) : tr'.SameGains s.recovery := by
  induction fuel generalizing s with
  | zero => cases h
  | succ fuel ih =>
      rw [recoverLoop] at h
      split at h
      · cases h
        exact ⟨rfl, rfl, rfl⟩
      · cases h
      · rename_i s' hround
        obtain ⟨x, rfl⟩ := RecoverLoop.exists_of_round hround
        have hrest : tr'.SameGains (s.update x).recovery := ih h
        exact hrest

theorem sameGains_recover (h : tr.recover samples fuel = some (.returned tr' out)) :
    tr'.SameGains tr := by
  unfold recover at h
  split at h
  · cases h
    exact ⟨rfl, rfl, rfl⟩
  · exact sameGains_recoverLoop h

theorem recoverLoop_mono {fuel' : ℕ} (hfuel : fuel ≤ fuel') {s : RecoverLoop} {ended : Recovered}
    (h : recoverLoop samples fuel s = some ended) : recoverLoop samples fuel' s = some ended := by
  induction fuel generalizing fuel' s with
  | zero => cases h
  | succ fuel ih =>
      cases fuel' with
      | zero => omega
      | succ fuel' =>
          rw [recoverLoop] at h ⊢
          split
          · rename_i hround
            rw [hround] at h
            exact h
          · rename_i hround
            rw [hround] at h
            exact h
          · rename_i s' hround
            rw [hround] at h
            exact ih (by omega) h

theorem recover_mono {fuel' : ℕ} (hfuel : fuel ≤ fuel') {ended : Recovered}
    (h : tr.recover samples fuel = some ended) : tr.recover samples fuel' = some ended := by
  unfold recover at h ⊢
  split
  · rename_i hempty
    rwa [if_pos hempty] at h
  · rename_i hne
    rw [if_neg hne] at h
    exact recoverLoop_mono hfuel h

end TimingRecovery

namespace Receiver

/-- What no call changes is that of the other. -/
structure SameTuning (r r' : Receiver) : Prop where
  config : r.decoder.config = r'.decoder.config
  shaper : r.shaper = r'.shaper
  carrierSync : r.carrierSync.SameGains r'.carrierSync
  timingRecovery : r.timingRecovery.SameGains r'.timingRecovery

variable {m : MathFunctions} {fuel : ℕ} {r r' r₀ : Receiver} {filtered samples : List (Sample ℚ)}

theorem SameTuning.refl (r : Receiver) : r.SameTuning r :=
  ⟨rfl, rfl, ⟨rfl, rfl⟩, ⟨rfl, rfl, rfl⟩⟩

theorem SameTuning.trans {r'' : Receiver} (h : r.SameTuning r') (h' : r'.SameTuning r'') :
    r.SameTuning r'' where
  config := h.config.trans h'.config
  shaper := h.shaper.trans h'.shaper
  carrierSync := ⟨h.carrierSync.1.trans h'.carrierSync.1, h.carrierSync.2.trans h'.carrierSync.2⟩
  timingRecovery := by
    obtain ⟨hmu, homega, hsps⟩ := h.timingRecovery
    obtain ⟨hmu', homega', hsps'⟩ := h'.timingRecovery
    exact ⟨hmu.trans hmu', homega.trans homega', hsps.trans hsps'⟩

theorem sameTuning_reset (r : Receiver) : r.reset.SameTuning r :=
  ⟨rfl, rfl, ⟨rfl, rfl⟩, ⟨rfl, rfl, rfl⟩⟩

theorem sameTuning_synchronize {out : List (Sample ℚ)}
    (h : r.synchronize m fuel filtered = some (out, r')) : r'.SameTuning r := by
  obtain ⟨synced, hsynced, heq⟩ := Option.map_eq_some_iff.mp h
  cases heq
  exact ⟨rfl, rfl, CarrierSynchronizer.sameGains_synchronize hsynced, ⟨rfl, rfl, rfl⟩⟩

theorem sameTuning_recover {out : List (Sample ℚ)} (h : r.recover fuel filtered = some (out, r')) :
    r'.SameTuning r := by
  unfold recover at h
  split at h
  · rename_i hrecover
    cases h
    exact ⟨rfl, rfl, ⟨rfl, rfl⟩, TimingRecovery.sameGains_recover hrecover⟩
  · cases h
  · cases h

theorem sameTuning_recoverBy {approach : Approach} {out : List (Sample ℚ)}
    (h : r.recoverBy m fuel filtered approach = some (out, r')) : r'.SameTuning r := by
  cases approach with
  | fullChain =>
      obtain ⟨synced, hsynced, hrecover⟩ := Option.bind_eq_some_iff.mp h
      exact (sameTuning_recover hrecover).trans (sameTuning_synchronize hsynced)
  | directDecimation =>
      cases h
      exact .refl r
  | syncedDecimation =>
      obtain ⟨synced, hsynced, heq⟩ := Option.map_eq_some_iff.mp h
      cases heq
      exact (sameTuning_synchronize hsynced).trans ⟨rfl, rfl, ⟨rfl, rfl⟩, ⟨rfl, rfl, rfl⟩⟩

theorem sameTuning_tryDecode (r : Receiver) (recovered : List (Sample ℚ)) :
    (r.tryDecode m recovered).2.SameTuning r :=
  ⟨r.decoder.config_tryDecode m.sqrt recovered, rfl, ⟨rfl, rfl⟩, ⟨rfl, rfl, rfl⟩⟩

theorem sameTuning_decodeBy {approaches : List Approach} {answer : Option (List UInt8)}
    (h : r.decodeBy m fuel filtered approaches = some (answer, r')) : r'.SameTuning r := by
  induction approaches generalizing r with
  | nil =>
      cases h
      exact ⟨rfl, rfl, ⟨rfl, rfl⟩, ⟨rfl, rfl, rfl⟩⟩
  | cons approach rest ih =>
      obtain ⟨⟨recovered, r₁⟩, hrecovered, hnext⟩ := Option.bind_eq_some_iff.mp h
      have htried := (@sameTuning_tryDecode m r₁ recovered).trans (sameTuning_recoverBy hrecovered)
      dsimp only at hnext
      split at hnext
      · cases hnext
        exact htried
      · exact (ih hnext).trans htried

theorem sameTuning_decode {answer : Option (List UInt8)}
    (h : r.decode m fuel samples = some (answer, r')) : r'.SameTuning r := by
  unfold decode at h
  split at h
  · cases h
    exact .refl r
  · exact sameTuning_decodeBy h

theorem sameTuning_of_reachable {config : Config} {shaper : PulseShaper (Sample ℚ)}
    (h₀ : create m config shaper = .ok r₀)
    (h : (receiverCalls m config shaper).Reachable System.free r) : r.SameTuning r₀ := by
  have hinit (r : Receiver) (h : create m config shaper = .ok r) : r.SameTuning r₀ := by
    obtain rfl := Except.ok.inj (h.symm.trans h₀)
    exact .refl r
  refine h.invariant hinit fun r call r' hbefore _ hstep => ?_
  cases call with
  | decode samples =>
      obtain ⟨fuel, answer, hdecode⟩ := hstep
      exact (sameTuning_decode hdecode).trans hbefore
  | reset =>
      cases hstep
      exact (sameTuning_reset r).trans hbefore

/-! ## The answer -/

/-- The symbols of the two approaches that do not depend on the loops' state. -/
theorem SameTuning.recoverBy_eq (h : r.SameTuning r₀) {approach : Approach}
    (hlater : approach ≠ .fullChain) :
    (r.recoverBy m fuel filtered approach).map Prod.fst =
      (r₀.recoverBy m fuel filtered approach).map Prod.fst := by
  cases approach with
  | fullChain => exact absurd rfl hlater
  | directDecimation => simp only [recoverBy, h.shaper, Option.map_some]
  | syncedDecimation =>
      -- `decode` resets the loop first, so only its gains count
      simp only [recoverBy, synchronize, h.shaper, h.carrierSync.reset_eq, Option.map_map,
        Function.comp_def]

/-- And those of all, where the state is the same. -/
theorem recoverBy_congr (hshaper : r.shaper = r'.shaper) (hcarrier : r.carrierSync = r'.carrierSync)
    (htiming : r.timingRecovery = r'.timingRecovery) (approach : Approach) :
    (r.recoverBy m fuel filtered approach).map Prod.fst =
      (r'.recoverBy m fuel filtered approach).map Prod.fst := by
  cases approach with
  | fullChain =>
      simp only [recoverBy, synchronize, hcarrier]
      cases r'.carrierSync.synchronize m fuel filtered with
      | none => rfl
      | some synced =>
          simp only [Option.map_some, Option.bind_some, recover, htiming]
          split <;> simp
  | directDecimation => simp only [recoverBy, hshaper, Option.map_some]
  | syncedDecimation =>
      simp only [recoverBy, synchronize, hshaper, hcarrier, Option.map_map, Function.comp_def]

/-- What the first of these symbols that carry a payload carry. It comes to
nothing if symbols are missing before. -/
def answerOf (m : MathFunctions) (d : Decoder) :
    List (Option (List (Sample ℚ))) → Option (Option (List UInt8))
  | [] => some none
  | none :: _ => none
  | some recovered :: rest =>
    match (d.tryDecode m.sqrt recovered).1 with
    | some payload => some (some payload)
    | none => answerOf m d rest

/-- One approach, when the rest is known. -/
theorem decodeBy_cons {approach : Approach} {rest : List Approach} (h : r.SameTuning r₀)
    (hrecovered : (r.recoverBy m fuel filtered approach).map Prod.fst =
      (r₀.recoverBy m fuel filtered approach).map Prod.fst)
    (hrest : ∀ r' : Receiver, r'.SameTuning r₀ → (r'.decodeBy m fuel filtered rest).map Prod.fst =
      answerOf m r₀.decoder (rest.map fun a => (r₀.recoverBy m fuel filtered a).map Prod.fst)) :
    (r.decodeBy m fuel filtered (approach :: rest)).map Prod.fst =
      answerOf m r₀.decoder
        ((approach :: rest).map fun a => (r₀.recoverBy m fuel filtered a).map Prod.fst) := by
  rw [List.map_cons, ← hrecovered, decodeBy]
  cases hsymbols : r.recoverBy m fuel filtered approach with
  | none => rfl
  | some next =>
      obtain ⟨recovered, r₁⟩ := next
      have hnext := (sameTuning_recoverBy hsymbols).trans h
      have hafter := (@sameTuning_tryDecode m r₁ recovered).trans hnext
      have hanswer : (r₁.tryDecode m recovered).1 = (r₀.decoder.tryDecode m.sqrt recovered).1 :=
        Decoder.fst_tryDecode_congr hnext.config m.sqrt recovered
      rw [Option.bind_some, Option.map_some, answerOf, ← hanswer]
      dsimp only
      split
      · rfl
      · exact hrest _ hafter

theorem decodeBy_eq {approaches : List Approach} (h : r.SameTuning r₀)
    (hlater : Approach.fullChain ∉ approaches) :
    (r.decodeBy m fuel filtered approaches).map Prod.fst =
      answerOf m r₀.decoder
        (approaches.map fun a => (r₀.recoverBy m fuel filtered a).map Prod.fst) := by
  induction approaches generalizing r with
  | nil => rfl
  | cons approach rest ih =>
      rw [List.mem_cons, not_or] at hlater
      exact decodeBy_cons h (h.recoverBy_eq (Ne.symm hlater.1)) fun r' hr' => ih hr' hlater.2

/-- From no samples no symbols are recovered. -/
theorem recovered_nil (r : Receiver) (approach : Approach) :
    r.recovered m fuel [] approach = some [] := by
  cases approach <;> rfl

/-- The answer of `decode`. -/
theorem decode_eq (r : Receiver) (samples : List (Sample ℚ)) :
    (r.decode m fuel samples).map Prod.fst =
      answerOf m r.decoder ([Approach.fullChain, .directDecimation, .syncedDecimation].map
        (r.recovered m fuel samples)) := by
  rw [decode]
  split
  · rename_i hempty
    rw [List.isEmpty_iff.mp hempty]
    simp [recovered_nil, answerOf, Decoder.tryDecode_nil]
  · -- the first approach starts from the state of `r`, and the others do not look at it
    exact decodeBy_cons (.refl r) rfl fun r' hr' => decodeBy_eq hr' (by decide)

/-- The first element with a property comes first, or first in the rest. -/
theorem exists_first_cons {α : Type*} {P Q : α → Prop} {a : α} {rest : List α} :
    (∃ before b after, a :: rest = before ++ b :: after ∧ P b ∧ ∀ c ∈ before, Q c) ↔
      P a ∨ Q a ∧ ∃ before b after, rest = before ++ b :: after ∧ P b ∧ ∀ c ∈ before, Q c := by
  constructor
  · rintro ⟨before, b, after, hsplit, hb, hbefore⟩
    cases before with
    | nil =>
        cases hsplit
        exact .inl hb
    | cons c before =>
        cases hsplit
        exact .inr ⟨hbefore _ List.mem_cons_self, before, b, after, rfl, hb,
          fun c hc => hbefore c (List.mem_cons_of_mem _ hc)⟩
  · rintro (ha | ⟨ha, before, b, after, rfl, hb, hbefore⟩)
    · exact ⟨[], a, rest, rfl, ha, by simp⟩
    · refine ⟨a :: before, b, after, rfl, hb, fun c hc => ?_⟩
      rcases List.mem_cons.mp hc with rfl | hc
      · exact ha
      · exact hbefore c hc

theorem answerOf_eq_some_iff {d : Decoder} {payload : List UInt8}
    (streams : Approach → Option (List (Sample ℚ))) (approaches : List Approach) :
    answerOf m d (approaches.map streams) = some (some payload) ↔
      ∃ before approach after, approaches = before ++ approach :: after ∧
        (∃ recovered, streams approach = some recovered ∧ d.Carries m.sqrt recovered payload) ∧
        ∀ earlier ∈ before, ∃ recovered, streams earlier = some recovered ∧
          ∀ payload, ¬d.Carries m.sqrt recovered payload := by
  induction approaches with
  | nil => simp [answerOf]
  | cons first rest ih =>
      rw [exists_first_cons, ← ih, List.map_cons]
      cases hfirst : streams first with
      | none => simp [answerOf]
      | some recovered =>
          have haccepts := d.tryDecode_accepts_iff m.sqrt recovered
          simp only [answerOf, Option.some.injEq, exists_eq_left', ← haccepts]
          cases (d.tryDecode m.sqrt recovered).1 with
          | some found => simp
          | none => simp

theorem eq_before {before after : List Approach} {approach : Approach}
    (h : [Approach.fullChain, .directDecimation, .syncedDecimation] =
      before ++ approach :: after) : before = approach.before := by
  match before, h with
  | [], h =>
      cases h
      rfl
  | [_], h =>
      cases h
      rfl
  | [_, _], h =>
      cases h
      rfl
  | _ :: _ :: _ :: before, h =>
      have hlen := congrArg List.length h
      simp only [List.length_cons, List.length_nil, List.length_append] at hlen
      omega

theorem exists_before (approach : Approach) : ∃ after,
    [Approach.fullChain, .directDecimation, .syncedDecimation] =
      approach.before ++ approach :: after := by
  cases approach
  · exact ⟨_, rfl⟩
  · exact ⟨_, rfl⟩
  · exact ⟨_, rfl⟩

/-- **Acceptance.** A payload comes out of `decode`, whatever was decoded
before, exactly if one of the three approaches recovers symbols that carry it,
and those before it have recovered symbols that carry none. -/
theorem decode_accepts_iff (m : MathFunctions) (fuel : ℕ) (r : Receiver)
    (samples : List (Sample ℚ)) (payload : List UInt8) :
    (∃ r', r.decode m fuel samples = some (some payload, r')) ↔
      ∃ approach recovered, r.recovered m fuel samples approach = some recovered ∧
        r.decoder.Carries m.sqrt recovered payload ∧
        ∀ earlier ∈ approach.before, ∃ recovered,
          r.recovered m fuel samples earlier = some recovered ∧
          ∀ payload, ¬r.decoder.Carries m.sqrt recovered payload := by
  have hfst : (∃ r', r.decode m fuel samples = some (some payload, r')) ↔
      (r.decode m fuel samples).map Prod.fst = some (some payload) := by
    rw [Option.map_eq_some_iff]
    simp
  rw [hfst, decode_eq, answerOf_eq_some_iff]
  constructor
  · rintro ⟨before, approach, after, hsplit, ⟨recovered, hsome, hcarries⟩, hbefore⟩
    rw [eq_before hsplit] at hbefore
    exact ⟨approach, recovered, hsome, hcarries, hbefore⟩
  · rintro ⟨approach, recovered, hsome, hcarries, hbefore⟩
    obtain ⟨after, hsplit⟩ := exists_before approach
    exact ⟨approach.before, approach, after, hsplit, ⟨recovered, hsome, hcarries⟩, hbefore⟩

/-! ## New receivers -/

/-- What a constructor that does not throw has made. -/
theorem create_eq_ok {config : Config} {shaper : PulseShaper (Sample ℚ)}
    (h : create m config shaper = .ok r₀) :
    CarrierSynchronizer.create m loopGain = .ok r₀.carrierSync ∧
      TimingRecovery.create shaper.sps loopGain = .ok r₀.timingRecovery := by
  unfold create at h
  cases hcarrier : CarrierSynchronizer.create m loopGain with
  | error e =>
      rw [hcarrier] at h
      cases h
  | ok carrierSync =>
      cases htiming : TimingRecovery.create shaper.sps loopGain with
      | error e =>
          rw [hcarrier, htiming] at h
          cases h
      | ok timingRecovery =>
          rw [hcarrier, htiming] at h
          cases h
          exact ⟨rfl, rfl⟩

/-- The loops of a new receiver are as after a reset. -/
theorem reset_of_create {config : Config} {shaper : PulseShaper (Sample ℚ)}
    (h : create m config shaper = .ok r₀) : r₀.carrierSync.reset = r₀.carrierSync ∧
      r₀.timingRecovery.reset = r₀.timingRecovery := by
  obtain ⟨hcarrier, htiming⟩ := create_eq_ok h
  constructor
  · unfold CarrierSynchronizer.create at hcarrier
    split at hcarrier
    · cases hcarrier
    · rw [← Except.ok.inj hcarrier]
      rfl
  · unfold TimingRecovery.create at htiming
    split at htiming
    · cases htiming
    · split at htiming
      · cases htiming
      · rw [← Except.ok.inj htiming]
        rfl

theorem tuned_of_create {config : Config} {shaper : PulseShaper (Sample ℚ)}
    (h : create m config shaper = .ok r₀) : r₀.timingRecovery.Tuned :=
  TimingRecovery.tuned_create (create_eq_ok h).2

/-! ## The loops end -/

theorem recover_mono {fuel' : ℕ} (hfuel : fuel ≤ fuel') {synced out : List (Sample ℚ)}
    (h : r.recover fuel synced = some (out, r')) : r.recover fuel' synced = some (out, r') := by
  unfold recover at h ⊢
  split at h
  · rename_i hrecover
    rw [TimingRecovery.recover_mono hfuel hrecover]
    exact h
  · cases h
  · cases h

theorem recovered_mono {fuel' : ℕ} (hfuel : fuel ≤ fuel') {approach : Approach}
    {recovered : List (Sample ℚ)} (h : r.recovered m fuel samples approach = some recovered) :
    r.recovered m fuel' samples approach = some recovered := by
  obtain ⟨⟨out, r'⟩, hsome, rfl⟩ := Option.map_eq_some_iff.mp h
  refine Option.map_eq_some_iff.mpr ⟨(out, r'), ?_, rfl⟩
  have hsynchronize : ∀ {r r' : Receiver} {out : List (Sample ℚ)},
      r.synchronize m fuel (r.shaper.matchedFilter samples) = some (out, r') →
        r.synchronize m fuel' (r.shaper.matchedFilter samples) = some (out, r') := by
    intro r r' out h
    obtain ⟨synced, hsynced, heq⟩ := Option.map_eq_some_iff.mp h
    exact Option.map_eq_some_iff.mpr
      ⟨synced, CarrierSynchronizer.synchronize_mono hfuel hsynced, heq⟩
  cases approach with
  | fullChain =>
      obtain ⟨synced, hsynced, hrecover⟩ := Option.bind_eq_some_iff.mp hsome
      exact Option.bind_eq_some_iff.mpr
        ⟨synced, hsynchronize hsynced, recover_mono hfuel hrecover⟩
  | directDecimation => exact hsome
  | syncedDecimation =>
      obtain ⟨synced, hsynced, heq⟩ := Option.map_eq_some_iff.mp hsome
      have hsynced' := @hsynchronize { r with carrierSync := r.carrierSync.reset } _ _ hsynced
      exact Option.map_eq_some_iff.mpr ⟨synced, hsynced', heq⟩

/-- The first approach, once its carrier synchronization has ended. -/
theorem recovered_fullChain {synced : List (Sample ℚ)} {cs : CarrierSynchronizer}
    (hsynced : r.carrierSync.synchronize m fuel (r.shaper.matchedFilter samples) =
      some (synced, cs)) {recovered : List (Sample ℚ)} :
    r.recovered m fuel samples .fullChain = some recovered ↔
      ∃ tr out, r.timingRecovery.recover (synced.map Sample.toIq) fuel = some (.returned tr out) ∧
        recovered = out.map Iq.toSample := by
  simp only [Receiver.recovered, recoverBy, synchronize, hsynced, Option.map_some,
    Option.bind_some, recover]
  split
  · rename_i tr out hrecover
    simp [hrecover, eq_comm]
  · rename_i hrecover
    simp [hrecover]
  · rename_i hrecover
    simp [hrecover]

/-- The carrier synchronization of the third approach ends. -/
theorem exists_syncedDecimation (hpi : 0 < m.pi) (r : Receiver) (samples : List (Sample ℚ)) :
    ∃ fuel recovered, r.recovered m fuel samples .syncedDecimation = some recovered := by
  obtain ⟨fuel, out, cs, hsynced⟩ := CarrierSynchronizer.synchronize_ends hpi
    r.carrierSync.reset (r.shaper.matchedFilter samples)
  refine ⟨fuel, decimate r.shaper.sps r.shaper.rrcTaps.length out, ?_⟩
  simp only [recovered, recoverBy, synchronize, hsynced, Option.map_some]

theorem exists_answerOf {d : Decoder} {streams : List (Option (List (Sample ℚ)))}
    (h : ∀ stream ∈ streams, ∃ recovered, stream = some recovered) :
    ∃ answer, answerOf m d streams = some answer := by
  induction streams with
  | nil => exact ⟨none, rfl⟩
  | cons stream rest ih =>
      obtain ⟨recovered, rfl⟩ := h _ List.mem_cons_self
      rw [answerOf]
      split
      · exact ⟨_, rfl⟩
      · exact ih fun stream hmem => h stream (List.mem_cons_of_mem _ hmem)

/-- A call whose timing recovery returns, returns. -/
theorem exists_decode (hpi : 0 < m.pi) {full : List (Sample ℚ)}
    (hfull : r.recovered m fuel samples .fullChain = some full) :
    ∃ fuel answer r', r.decode m fuel samples = some (answer, r') := by
  obtain ⟨fuel', synced, hsynced⟩ := exists_syncedDecimation hpi r samples
  have hstreams : ∀ stream ∈ [Approach.fullChain, .directDecimation, .syncedDecimation].map
      (r.recovered m (max fuel fuel') samples), ∃ recovered, stream = some recovered := by
    intro stream hmem
    obtain ⟨approach, -, rfl⟩ := List.mem_map.mp hmem
    cases approach with
    | fullChain => exact ⟨full, recovered_mono (le_max_left ..) hfull⟩
    | directDecimation => exact ⟨_, rfl⟩
    | syncedDecimation => exact ⟨synced, recovered_mono (le_max_right ..) hsynced⟩
  obtain ⟨answer, hanswer⟩ := @exists_answerOf m r.decoder _ hstreams
  rw [← decode_eq] at hanswer
  obtain ⟨⟨payload, r'⟩, hdecode, -⟩ := Option.map_eq_some_iff.mp hanswer
  exact ⟨max fuel fuel', payload, r', hdecode⟩

end Receiver

/-! ## Silence -/

/-- Nothing is received. -/
def Silence (samples : List (Sample ℚ)) : Prop := ∀ s ∈ samples, s = 0

namespace TimingRecovery

variable {tr : TimingRecovery} {samples : List Iq} {s s' : RecoverLoop}

theorem getD_silence (hsilent : ∀ x ∈ samples, x = ({} : Iq)) (i : ℕ) :
    samples.getD i {} = {} := by
  rcases Nat.lt_or_ge i samples.length with hin | hout
  · rw [List.getD_eq_getElem _ _ hin]
    exact hsilent _ (List.getElem_mem hin)
  · rw [List.getD_eq_default _ _ hout]

/-- In silence, the samples that are kept and put out are ones of silence. -/
theorem silent_rounds (hsilent : ∀ x ∈ samples, x = ({} : Iq))
    (hprev : s.recovery.prevSample = {} ∧ ∀ x ∈ s.out, x = {}) (h : Rounds samples s s') :
    s'.recovery.prevSample = {} ∧ ∀ x ∈ s'.out, x = {} := by
  induction h with
  | refl => exact hprev
  | tail _ hround ih =>
      unfold RecoverLoop.round at hround
      split at hround
      · split at hround
        · cases hround
        · split at hround
          · cases hround
          · rename_i hin
            cases hround
            have hzero : ∀ mu : ℚ, interpolate {} {} mu = {} := by
              intro mu
              simp [interpolate]
            simp only [RecoverLoop.update, List.get_eq_getElem]
            rw [hsilent _ (List.getElem_mem _), hsilent _ (List.getElem_mem _), hzero]
            refine ⟨rfl, fun x hx => ?_⟩
            rcases List.mem_append.mp hx with hx | hx
            · exact ih.2 x hx
            · exact List.mem_singleton.mp hx
      · cases hround

/-- Timing recovery returns from silence. -/
theorem recover_silence (htuned : tr.Tuned) (hprev : tr.prevSample = {})
    (hsilent : ∀ x ∈ samples, x = ({} : Iq)) :
    ∃ fuel tr' out, tr.recover samples fuel = some (.returned tr' out) := by
  unfold recover
  split
  · exact ⟨0, tr, [], rfl⟩
  · refine RecoverLoop.ends_of_steady htuned rfl fun s' hrounds _ => ?_
    have hbefore := (silent_rounds hsilent ⟨hprev, by simp⟩ hrounds).1
    have hcurrent : s'.currentSample samples = {} := by
      simp only [RecoverLoop.currentSample, PiecewiseLinear.value, getD_silence hsilent, sub_self,
        mul_zero, add_zero]
    have hsps := (RecoverLoop.tuned_rounds htuned hrounds).two_le
    have herror : s'.recovery.error {} = 0 := by
      simp [error, hbefore, Iq.dot]
    -- without an error the step stays as it is
    rw [RecoverLoop.Steady, hcurrent, herror, mul_zero, neg_lt_zero]
    exact lt_max_of_lt_left (by linarith)

theorem silence_recover {tr' : TimingRecovery} {out : List Iq} {fuel : ℕ}
    (hprev : tr.prevSample = {}) (hsilent : ∀ x ∈ samples, x = ({} : Iq))
    (h : tr.recover samples fuel = some (.returned tr' out)) : ∀ x ∈ out, x = {} := by
  obtain ⟨s, hrounds, -, rfl⟩ := exists_rounds_of_recover h
  exact (silent_rounds hsilent ⟨hprev, by simp⟩ hrounds).2

end TimingRecovery

/-- No preamble is found in silence. -/
theorem FrameSynchronizer.detect_silence {sqrt : ℚ → ℚ} (hsqrt : sqrt 0 = 0)
    (sync : FrameSynchronizer ℚ) {symbols : List (Sample ℚ)} (hsilent : Silence symbols) :
    sync.detect sqrt symbols = none := by
  have henergy : ∀ window : List (Sample ℚ), Silence window → energy window = 0 := by
    intro window hwindow
    unfold energy
    induction window with
    | nil => rfl
    | cons s rest ih =>
        rw [List.foldl_cons, hwindow s List.mem_cons_self]
        simpa [Sample.norm] using ih fun x hx => hwindow x (List.mem_cons_of_mem _ hx)
  unfold detect
  dsimp only
  split
  · rfl
  · rw [Option.map_eq_none_iff, List.find?_eq_none]
    intro i _
    have hwindow : Silence ((symbols.drop i).take sync.preambleSymbols.length) :=
      fun x hx => hsilent x (List.mem_of_mem_drop (List.mem_of_mem_take hx))
    rw [isPreamble, henergy _ hwindow, mul_zero, hsqrt, if_pos (by norm_num)]
    decide

namespace Receiver

variable {m : MathFunctions} {fuel : ℕ} {r r₀ : Receiver} {samples : List (Sample ℚ)}

theorem silence_matchedFilter (h : Silence samples) (shaper : PulseShaper (Sample ℚ)) :
    Silence (shaper.matchedFilter samples) := by
  have hget : ∀ i, samples.getD i 0 = 0 := by
    intro i
    rcases Nat.lt_or_ge i samples.length with hin | hout
    · rw [List.getD_eq_getElem _ _ hin]
      exact h _ (List.getElem_mem hin)
    · rw [List.getD_eq_default _ _ hout]
  have hconvolve : ∀ taps n, PulseShaper.convolveAt samples taps n = 0 := by
    intro taps n
    unfold PulseShaper.convolveAt
    induction taps.length with
    | zero => rfl
    | succ count ih =>
        rw [List.range_succ, List.foldl_append, ih]
        simp only [List.foldl_cons, List.foldl_nil, hget, zero_mul, add_zero, ite_self]
  intro s hs
  unfold PulseShaper.matchedFilter PulseShaper.convolve at hs
  split at hs
  · cases hs
  · obtain ⟨n, -, rfl⟩ := List.mem_map.mp hs
    exact hconvolve _ n

theorem silence_synchronize {cs cs' : CarrierSynchronizer} {out : List (Sample ℚ)}
    (hsilent : Silence samples) (h : cs.synchronize m fuel samples = some (out, cs')) :
    Silence out := by
  induction samples generalizing cs out with
  | nil =>
      cases h
      exact hsilent
  | cons sample samples ih =>
      obtain ⟨next, rest, -, hrest, rfl⟩ := CarrierSynchronizer.synchronize_cons h
      intro s hs
      rcases List.mem_cons.mp hs with rfl | hs
      · rw [hsilent sample List.mem_cons_self, CarrierSynchronizer.correct, zero_mul]
      · exact ih (fun x hx => hsilent x (List.mem_cons_of_mem _ hx)) hrest s hs

theorem silence_decimate (sps numTaps : ℕ) (h : Silence samples) :
    Silence (decimate sps numTaps samples) := by
  have hfrom : ∀ fuel pos, Silence (decimateFrom sps samples fuel pos) := by
    intro fuel
    induction fuel with
    | zero => exact fun pos s hs => nomatch hs
    | succ fuel ih =>
        intro pos s hs
        rw [decimateFrom] at hs
        split at hs
        · rename_i hin
          rcases List.mem_cons.mp hs with rfl | hs
          · rw [List.getD_eq_getElem _ _ hin]
            exact h _ (List.getElem_mem hin)
          · exact ih _ s hs
        · cases hs
  exact hfrom _ _

/-- From silence every approach recovers silence. -/
theorem silence_recovered (hsilent : Silence samples) (hprev : r.timingRecovery.prevSample = {})
    {approach : Approach} {recovered : List (Sample ℚ)}
    (h : r.recovered m fuel samples approach = some recovered) : Silence recovered := by
  have hfiltered := silence_matchedFilter hsilent r.shaper
  obtain ⟨⟨out, r'⟩, hsome, rfl⟩ := Option.map_eq_some_iff.mp h
  cases approach with
  | fullChain =>
      obtain ⟨⟨synced, r₁⟩, hsynced, hrecover⟩ := Option.bind_eq_some_iff.mp hsome
      obtain ⟨⟨synced', cs⟩, hcarrier, heq⟩ := Option.map_eq_some_iff.mp hsynced
      cases heq
      have hiq : ∀ x ∈ synced'.map Sample.toIq, x = ({} : Iq) := by
        intro x hx
        obtain ⟨s, hs, rfl⟩ := List.mem_map.mp hx
        rw [silence_synchronize hfiltered hcarrier s hs]
        rfl
      dsimp only [recover] at hrecover
      split at hrecover
      · rename_i tr symbols hreturned
        cases hrecover
        intro s hs
        obtain ⟨x, hx, rfl⟩ := List.mem_map.mp hs
        rw [TimingRecovery.silence_recover hprev hiq hreturned x hx]
        rfl
      · cases hrecover
      · cases hrecover
  | directDecimation =>
      cases hsome
      exact silence_decimate _ _ hfiltered
  | syncedDecimation =>
      obtain ⟨⟨synced, r₁⟩, hsynced, heq⟩ := Option.map_eq_some_iff.mp hsome
      obtain ⟨⟨synced', cs⟩, hcarrier, heq'⟩ := Option.map_eq_some_iff.mp hsynced
      cases heq'
      cases heq
      exact silence_decimate _ _ (silence_synchronize hfiltered hcarrier)

theorem answerOf_silence (hsqrt : m.sqrt 0 = 0) (d : Decoder)
    {streams : List (Option (List (Sample ℚ)))}
    (hsilent : ∀ recovered, some recovered ∈ streams → Silence recovered)
    {answer : Option (List UInt8)} (h : answerOf m d streams = some answer) : answer = none := by
  induction streams with
  | nil => exact (Option.some.inj h).symm
  | cons stream rest ih =>
      cases stream with
      | none => cases h
      | some recovered =>
          have hnone : (d.tryDecode m.sqrt recovered).1 = none := by
            rw [Decoder.tryDecode]
            dsimp only
            rw [FrameSynchronizer.detect_silence hsqrt _ (hsilent recovered List.mem_cons_self)]
          rw [answerOf, hnone] at h
          exact ih (fun recovered hmem => hsilent recovered (List.mem_cons_of_mem _ hmem)) h

/-- After a reset, a receiver returns from silence. -/
theorem decode_silence (hpi : 0 < m.pi) (htuned : r.timingRecovery.Tuned)
    (hsilent : Silence samples) :
    ∃ fuel answer r', r.reset.decode m fuel samples = some (answer, r') := by
  obtain ⟨fuel, out, cs, hsynced⟩ := CarrierSynchronizer.synchronize_ends hpi r.reset.carrierSync
    (r.reset.shaper.matchedFilter samples)
  have hout := silence_synchronize (silence_matchedFilter hsilent _) hsynced
  have hiq : ∀ x ∈ out.map Sample.toIq, x = ({} : Iq) := by
    intro x hx
    obtain ⟨s, hs, rfl⟩ := List.mem_map.mp hx
    rw [hout s hs]
    rfl
  obtain ⟨fuel', tr, symbols, hrecover⟩ :=
    TimingRecovery.recover_silence (TimingRecovery.tuned_reset htuned) rfl hiq
  have hmore := CarrierSynchronizer.synchronize_mono (le_max_left fuel fuel') hsynced
  have hfull := (recovered_fullChain hmore).mpr
    ⟨tr, symbols, TimingRecovery.recover_mono (le_max_right fuel fuel') hrecover, rfl⟩
  exact exists_decode hpi hfull

/-- And without a payload. -/
theorem decode_silence_none (hsqrt : m.sqrt 0 = 0) (hsilent : Silence samples)
    {answer : Option (List UInt8)} {r' : Receiver}
    (h : r.reset.decode m fuel samples = some (answer, r')) : answer = none := by
  have heq := @decode_eq m fuel r.reset samples
  rw [h, Option.map_some] at heq
  refine answerOf_silence hsqrt r.reset.decoder (fun recovered hmem => ?_) heq.symm
  obtain ⟨approach, -, hrecovered⟩ := List.mem_map.mp hmem
  exact silence_recovered hsilent rfl hrecovered

/-- Functions that are exact where a receiver in silence calls them, but for
the square root of 2 and π. -/
def coarseFunctions : MathFunctions where
  sqrt := fun x => if x = 2 then 99 / 70 else x
  cos := fun _ => 1
  sin := fun _ => 0
  pi := 355 / 113

/-- A filter of one tap, and two samples for a symbol. -/
def oneTapOfTwo : PulseShaper (Sample ℚ) := ⟨[1], 2⟩

theorem exists_create : ∃ r₀, create coarseFunctions {} oneTapOfTwo = .ok r₀ := by
  have hcarrier : ∃ cs, CarrierSynchronizer.create coarseFunctions loopGain = .ok cs := by
    unfold CarrierSynchronizer.create
    rw [if_neg (by norm_num [loopGain])]
    exact ⟨_, rfl⟩
  have htiming : ∃ tr, TimingRecovery.create oneTapOfTwo.sps loopGain = .ok tr := by
    unfold TimingRecovery.create
    rw [if_neg (by decide), if_neg (by norm_num [loopGain])]
    exact ⟨_, rfl⟩
  obtain ⟨cs, hcs⟩ := hcarrier
  obtain ⟨tr, htr⟩ := htiming
  exact ⟨_, by rw [create, hcs, htr]; rfl⟩

theorem silence_pair : Silence [0, 0] := by
  simp [Silence]

/-! ## Termination -/

/-- **Termination.** Carrier synchronization ends on any samples; and a call
of `decode` returns exactly if its timing recovery does, on the samples that
this leaves. All its other loops end. -/
theorem decode_ends_iff (hpi : 0 < m.pi) (r : Receiver) (samples : List (Sample ℚ)) :
    ∃ syncFuel synced cs, r.carrierSync.synchronize m syncFuel (r.shaper.matchedFilter samples) =
        some (synced, cs) ∧
      ((∃ fuel answer r', r.decode m fuel samples = some (answer, r')) ↔
        ∃ fuel tr out,
          r.timingRecovery.recover (synced.map Sample.toIq) fuel = some (.returned tr out)) := by
  obtain ⟨syncFuel, synced, cs, hsynced⟩ :=
    CarrierSynchronizer.synchronize_ends hpi r.carrierSync (r.shaper.matchedFilter samples)
  refine ⟨syncFuel, synced, cs, hsynced, ?_⟩
  constructor
  · rintro ⟨fuel, answer, r', hdecode⟩
    have heq := @decode_eq m fuel r samples
    rw [hdecode, Option.map_some, List.map_cons] at heq
    cases hfull : r.recovered m fuel samples .fullChain with
    | none =>
        rw [hfull] at heq
        cases heq
    | some recovered =>
        -- with the more of both fuels, it is these samples that it recovers from
        have hmore := CarrierSynchronizer.synchronize_mono (le_max_right fuel syncFuel) hsynced
        obtain ⟨tr, out, hrecover, -⟩ := (recovered_fullChain hmore).mp
          (recovered_mono (le_max_left fuel syncFuel) hfull)
        exact ⟨_, tr, out, hrecover⟩
  · rintro ⟨fuel, tr, out, hrecover⟩
    have hmore := CarrierSynchronizer.synchronize_mono (le_max_right fuel syncFuel) hsynced
    have hfull := (recovered_fullChain hmore).mpr
      ⟨tr, out, TimingRecovery.recover_mono (le_max_left fuel syncFuel) hrecover, rfl⟩
    exact exists_decode hpi hfull

/-- A receiver returns from silence, and so does its timing recovery. -/
theorem decode_ends_iff_silence : ∃ r₀, create coarseFunctions {} oneTapOfTwo = .ok r₀ ∧
    ∃ syncFuel synced cs,
      r₀.reset.carrierSync.synchronize coarseFunctions syncFuel
        (r₀.reset.shaper.matchedFilter [0, 0]) = some (synced, cs) ∧
      ∃ fuel tr out,
        r₀.reset.timingRecovery.recover (synced.map Sample.toIq) fuel =
          some (.returned tr out) := by
  obtain ⟨r₀, h₀⟩ := exists_create
  have hpi : 0 < coarseFunctions.pi := by norm_num [coarseFunctions]
  obtain ⟨syncFuel, synced, cs, hsynced, hends⟩ := decode_ends_iff hpi r₀.reset [0, 0]
  exact ⟨r₀, h₀, syncFuel, synced, cs, hsynced,
    hends.mp (decode_silence hpi (tuned_of_create h₀) silence_pair)⟩

/-! ## After a reset -/

/-- After `reset`, a receiver that was a new one answers as this new one. -/
theorem SameTuning.fst_decode_reset {config : Config} {shaper : PulseShaper (Sample ℚ)}
    (h : r.SameTuning r₀) (h₀ : create m config shaper = .ok r₀) (fuel : ℕ)
    (samples : List (Sample ℚ)) :
    (r.reset.decode m fuel samples).map Prod.fst = (r₀.decode m fuel samples).map Prod.fst := by
  have hsame := (sameTuning_reset r).trans h
  obtain ⟨hcarrier, htiming⟩ := reset_of_create h₀
  have hcarrier' : r.reset.carrierSync = r₀.carrierSync := h.carrierSync.reset_eq.trans hcarrier
  have htiming' : r.reset.timingRecovery = r₀.timingRecovery :=
    h.timingRecovery.reset_eq.trans htiming
  have hstreams : r.reset.recovered m fuel samples = r₀.recovered m fuel samples := by
    funext approach
    rw [recovered, recovered, hsame.shaper]
    exact recoverBy_congr hsame.shaper hcarrier' htiming' approach
  have hanswer : ∀ streams, answerOf m r.reset.decoder streams = answerOf m r₀.decoder streams := by
    intro streams
    induction streams with
    | nil => rfl
    | cons recovered rest ih =>
        cases recovered with
        | none => rfl
        | some recovered =>
            rw [answerOf, answerOf, Decoder.fst_tryDecode_congr hsame.config, ih]
  rw [decode_eq, decode_eq, hstreams, hanswer]

/-- **Reset.** Whatever a receiver was made to decode, after `reset` it
answers as a new one. -/
theorem decode_reset {config : Config} {shaper : PulseShaper (Sample ℚ)}
    (h₀ : create m config shaper = .ok r₀)
    (h : (receiverCalls m config shaper).Reachable System.free r) (fuel : ℕ)
    (samples : List (Sample ℚ)) :
    (r.reset.decode m fuel samples).map Prod.fst = (r₀.decode m fuel samples).map Prod.fst :=
  (sameTuning_of_reachable h₀ h).fst_decode_reset h₀ fuel samples

/-- A receiver that has been reset and has decoded silence, reset again,
answers to a sample as a new one. -/
theorem decode_reset_silence : ∃ r₀ r fuel answer,
    create coarseFunctions {} oneTapOfTwo = .ok r₀ ∧
      r₀.reset.decode coarseFunctions fuel [0, 0] = some (answer, r) ∧
      (r.reset.decode coarseFunctions 9 [1]).map Prod.fst =
        (r₀.decode coarseFunctions 9 [1]).map Prod.fst := by
  obtain ⟨r₀, h₀⟩ := exists_create
  obtain ⟨fuel, answer, r, hdecode⟩ :=
    decode_silence (m := coarseFunctions) (by norm_num [coarseFunctions]) (tuned_of_create h₀)
      silence_pair
  have hreset : (receiverCalls coarseFunctions {} oneTapOfTwo).Reachable System.free r₀.reset :=
    (System.Reachable.init h₀).step (a := .reset) trivial rfl
  have hreach : (receiverCalls coarseFunctions {} oneTapOfTwo).Reachable System.free r :=
    hreset.step (a := .decode [0, 0]) trivial ⟨fuel, answer, hdecode⟩
  exact ⟨r₀, r, fuel, answer, h₀, hdecode, decode_reset h₀ hreach 9 [1]⟩

end Receiver

end QpskB210.Modem
