import QpskB210.Modem.FecDecoder
import QpskB210.Modem.Frame
import QpskB210.Modem.SymbolMapper

/-!
# Modem — Codec

The bit pipeline of `Encoder` and `Decoder`: from a payload to the data
symbols that follow the preamble, and from the corrected data symbols back to
a payload.
-/

namespace QpskB210.Modem

open QpskB210.Lib.Bits

/-! ## Encoder -/

structure Encoder where
  config : Config
  frameBuilder : FrameBuilder
  fecEncoder : FecEncoder
  preamble_eq : frameBuilder.preamble = makeDoubledPreamble config.preamble
  rate_eq : fecEncoder.codeRate = config.fecCodeRate

namespace Encoder

def create (config : Config) : Encoder where
  config := config
  frameBuilder := { preamble := makeDoubledPreamble config.preamble }
  fecEncoder := ⟨config.fecCodeRate⟩
  preamble_eq := rfl
  rate_eq := rfl

/-- Steps 1 and 2 of `encode`: the frame, with the coded payload in place of
the payload if FEC is enabled. -/
def buildBits (e : Encoder) (payload : List UInt8) : List Bool :=
  let bits := (e.frameBuilder.buildFrame payload 0 e.config.fecEnabled e.config.fecCodeRate).1
  if e.config.fecEnabled then
    let codedBits := bytesToBits (e.fecEncoder.encode payload)
    let payloadStart := e.config.preamble.length * 2 + headerBitCount
    bits.take payloadStart ++ codedBits ++ bits.drop (bits.length - crcBitCount)
  else bits

/-- What follows the preamble. -/
def dataBits (e : Encoder) (payload : List UInt8) : List Bool :=
  (e.buildBits payload).drop (e.config.preamble.length * 2)

/-- The data symbols of `encode`, with the encoder after it. -/
def encode (e : Encoder) (payload : List UInt8) : List Symbol × Encoder :=
  ((SymbolMapper.map (e.dataBits payload)).1,
    { e with
      frameBuilder :=
        (e.frameBuilder.buildFrame payload 0 e.config.fecEnabled e.config.fecCodeRate).2
      preamble_eq := e.preamble_eq })

end Encoder

/-! ## Decoder -/

/-- The number of payload bits on the air, from the header. None for a code
rate that is not known. -/
def payloadBitCount (headerBits : List Bool) : Option Nat :=
  let frameLength := UInt16.ofNat (extractBits headerBits 0 16)
  let fecEnabledFlag := extractBits headerBits 20 1 ≠ 0
  let fecRateVal := UInt8.ofNat (extractBits headerBits 21 2)
  if fecEnabledFlag then
    match CodeRate.ofUInt8? fecRateVal with
    | none => none
    | some rate => some (FecEncoder.codedLength ⟨rate⟩ frameLength.toNat * 8)
  else some (frameLength.toNat * 8)

/-- The demapping part of `try_decode_frame`: the header's FEC flag, and the
bits of the frame without what follows it. -/
def demapFrame (dataSymbols : List Symbol) : Option (Bool × List Bool) :=
  let headerSymbols := (headerBitCount + 1) / 2
  if dataSymbols.length < headerSymbols then none
  else
    let headerBits := SymbolMapper.demap (dataSymbols.take headerSymbols)
    match payloadBitCount headerBits with
    | none => none
    | some payloadBits =>
      let totalDataBits := headerBitCount + payloadBits + crcBitCount
      let totalDataSymbols := (totalDataBits + 1) / 2
      if dataSymbols.length < totalDataSymbols then none
      else
        some (decide (extractBits headerBits 20 1 ≠ 0),
          (SymbolMapper.demap (dataSymbols.take totalDataSymbols)).take totalDataBits)

/-- The rest of it: the frame is parsed, and its payload FEC-decoded if the
header says so. The CRC covers the payload before coding. -/
def decodeFrame (fecDecoder : FecDecoder) (diag : RxDiagnostics) (fecEnabledFlag : Bool)
    (bits : List Bool) : Option (List UInt8) × FecDecoder × RxDiagnostics :=
  match if fecEnabledFlag then parseUnchecked bits else parse bits with
  | none => (none, fecDecoder, diag)
  | some frame =>
    if frame.header.fecEnabled then
      let (decodedPayload, fecDecoder) :=
        fecDecoder.decode frame.payload frame.header.payloadLength.toNat
      let diag := { diag with fecErrorsCorrected := fecDecoder.correctedErrors }
      if verifyCrc { frame with payload := decodedPayload } then
        (some decodedPayload, fecDecoder,
          { diag with framesReceived := diag.framesReceived + 1 })
      else (none, fecDecoder, diag)
    else if frame.crcValid then
      (some (frame.payload.take frame.header.payloadLength.toNat), fecDecoder,
        { diag with framesReceived := diag.framesReceived + 1 })
    else (none, fecDecoder, diag)

/-- `try_decode_frame`, from the data symbols after phase correction. -/
def tryDecodeFrame (dataSymbols : List Symbol) (fecDecoder : FecDecoder) (diag : RxDiagnostics) :
    Option (List UInt8) × FecDecoder × RxDiagnostics :=
  match demapFrame dataSymbols with
  | none => (none, fecDecoder, diag)
  | some (fecEnabledFlag, bits) => decodeFrame fecDecoder diag fecEnabledFlag bits

/-- The FEC decoder is made for the configured rate, and keeps it. -/
structure Decoder where
  config : Config
  fecDecoder : FecDecoder
  diag : RxDiagnostics := {}
  rate_eq : fecDecoder.codeRate = config.fecCodeRate

theorem decodeFrame_codeRate (fecDecoder : FecDecoder) (diag : RxDiagnostics)
    (fecEnabledFlag : Bool) (bits : List Bool) :
    (decodeFrame fecDecoder diag fecEnabledFlag bits).2.1.codeRate = fecDecoder.codeRate := by
  unfold decodeFrame
  split
  · rfl
  · split
    · dsimp only
      split <;> rfl
    · split <;> rfl

theorem tryDecodeFrame_codeRate (dataSymbols : List Symbol) (fecDecoder : FecDecoder)
    (diag : RxDiagnostics) :
    (tryDecodeFrame dataSymbols fecDecoder diag).2.1.codeRate = fecDecoder.codeRate := by
  unfold tryDecodeFrame
  split
  · rfl
  · exact decodeFrame_codeRate ..

namespace Decoder

def create (config : Config) : Decoder where
  config := config
  fecDecoder := { codeRate := config.fecCodeRate }
  rate_eq := rfl

/-- One attempt of `decode` at the symbols it has recovered, with the decoder
after it. -/
def attempt (d : Decoder) (dataSymbols : List Symbol) : Option (List UInt8) × Decoder :=
  let outcome := tryDecodeFrame dataSymbols d.fecDecoder d.diag
  (outcome.1,
    { d with
      fecDecoder := outcome.2.1
      diag := outcome.2.2
      rate_eq := (tryDecodeFrame_codeRate ..).trans d.rate_eq })

end Decoder

end QpskB210.Modem
