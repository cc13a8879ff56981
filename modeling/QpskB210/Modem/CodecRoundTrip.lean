import QpskB210.Modem.Codec
import QpskB210.Modem.FecRoundTrip

/-!
# Modem — CodecRoundTrip

The data symbols of a frame, with any symbols after them, decode to the
payload. The receiver finds the frame's end from the header alone: it counts
the payload bits as the encoder does, and the one zero that makes the odd
number of bits even is cut off again.
-/

namespace QpskB210.Modem

open QpskB210.Lib.Bits

/-! ## What is sent -/

namespace Encoder

/-- The header of the frame. -/
def header (e : Encoder) (payload : List UInt8) : FrameHeader :=
  e.frameBuilder.header payload 0 e.config.fecEnabled e.config.fecCodeRate

/-- The payload as it goes on the air. -/
def body (e : Encoder) (payload : List UInt8) : List UInt8 :=
  if e.config.fecEnabled then e.fecEncoder.encode payload else payload

theorem header_fits (e : Encoder) (payload : List UInt8) : (e.header payload).Fits :=
  e.frameBuilder.header_fits payload (by decide) _ _

theorem header_payloadLength (e : Encoder) {payload : List UInt8} (hlen : payload.length ≤ 65535) :
    (e.header payload).payloadLength.toNat = payload.length := by
  have hlt : payload.length < 2 ^ 16 := by omega
  exact (UInt16.toNat_ofNat' ..).trans (Nat.mod_eq_of_lt hlt)

theorem header_fecCodeRate (e : Encoder) (payload : List UInt8) :
    CodeRate.ofUInt8? (e.header payload).fecCodeRate = some e.fecEncoder.codeRate := by
  rw [e.rate_eq, header, FrameBuilder.header]
  cases e.config.fecCodeRate <;> rfl

/-- The splice replaces the payload bits and nothing else. -/
theorem dataBits_eq (e : Encoder) (payload : List UInt8) :
    e.dataBits payload =
      frameBits (e.header payload) (e.body payload) (frameCrc (e.header payload) payload) := by
  have hpreamble : e.frameBuilder.preamble.length = e.config.preamble.length * 2 := by
    rw [e.preamble_eq, length_makeDoubledPreamble]
  have hframe : (e.frameBuilder.buildFrame payload 0 e.config.fecEnabled e.config.fecCodeRate).1 =
      e.frameBuilder.preamble ++
        frameBits (e.header payload) payload (frameCrc (e.header payload) payload) := rfl
  unfold dataBits buildBits body
  dsimp only
  rw [hframe]
  cases e.config.fecEnabled with
  | false => rw [if_neg (by decide), if_neg (by decide), List.drop_left' hpreamble]
  | true =>
      have hsplice := splice_third e.frameBuilder.preamble (e.header payload).toBits
        (bytesToBits payload) (Lib.Bits.toBits 32 (frameCrc (e.header payload) payload).toNat)
        (bytesToBits (e.fecEncoder.encode payload))
      dsimp only at hsplice
      rw [hpreamble, FrameHeader.length_toBits, Lib.Bits.length_toBits] at hsplice
      rw [if_pos rfl, if_pos rfl, frameBits, crcBitCount, hsplice, List.drop_left' hpreamble]
      rfl

end Encoder

/-! ## What the receiver cuts out -/

variable {h : FrameHeader} {body : List UInt8} {crc : UInt32}

/-- The header as the decoder reads it, from the symbols that hold it. -/
theorem payloadBitCount_toBits (hfits : h.Fits) (rest : List Bool) :
    payloadBitCount (h.toBits ++ rest) =
      if h.fecEnabled then
        (CodeRate.ofUInt8? h.fecCodeRate).map fun rate =>
          FecEncoder.codedLength ⟨rate⟩ h.payloadLength.toNat * 8
      else some (h.payloadLength.toNat * 8) := by
  have hheader := extractHeader_toBits hfits rest
  have hlength := congrArg FrameHeader.payloadLength hheader
  have henabled := congrArg FrameHeader.fecEnabled hheader
  have hrate := congrArg FrameHeader.fecCodeRate hheader
  dsimp only [extractHeader] at hlength henabled hrate
  unfold payloadBitCount
  dsimp only
  rw [hlength, hrate, ← henabled]
  by_cases hflag : extractBits (h.toBits ++ rest) 20 1 ≠ 0
  · rw [if_pos hflag, if_pos (decide_eq_true hflag)]
    cases CodeRate.ofUInt8? h.fecCodeRate <;> rfl
  · rw [if_neg hflag, if_neg (by rw [decide_eq_false hflag]; decide)]

/-- The header's symbols hold one bit more than the header. -/
theorem take_header_frameBits :
    (frameBits h body crc).take 36 =
      h.toBits ++ ((bytesToBits body ++ Lib.Bits.toBits 32 crc.toNat).take 1) := by
  rw [frameBits, List.take_append, FrameHeader.length_toBits,
    List.take_of_length_le (by rw [FrameHeader.length_toBits]; decide)]
  rfl

/-- The receiver finds the frame that was mapped, whatever symbols follow. -/
theorem demapFrame_map (hfits : h.Fits)
    (hcount : payloadBitCount ((frameBits h body crc).take 36) = some (8 * body.length))
    (extra : List Symbol) :
    demapFrame ((SymbolMapper.map (frameBits h body crc)).1 ++ extra) =
      some (h.fecEnabled, frameBits h body crc) := by
  have hodd : (frameBits h body crc).length % 2 = 1 := by
    rw [length_frameBits, headerBitCount, crcBitCount]
    omega
  obtain ⟨hsymbols, hdemap⟩ := SymbolMapper.map_of_odd hodd
  have hlong : 67 ≤ (frameBits h body crc).length := by
    rw [length_frameBits, headerBitCount, crcBitCount]
    omega
  -- the first 18 symbols lie within the frame: it has 67 bits at least
  have hheader : SymbolMapper.demap
      (((SymbolMapper.map (frameBits h body crc)).1 ++ extra).take 18) =
        (frameBits h body crc).take 36 := by
    rw [SymbolMapper.demap_take, SymbolMapper.demap_append, hdemap, List.append_assoc,
      List.take_append_of_le_length (by omega)]
  have htotal : headerBitCount + 8 * body.length + crcBitCount = (frameBits h body crc).length :=
    length_frameBits.symm
  have henabled : decide (extractBits ((frameBits h body crc).take 36) 20 1 ≠ 0) =
      h.fecEnabled := by
    rw [take_header_frameBits]
    exact congrArg FrameHeader.fecEnabled (extractHeader_toBits hfits _)
  have hhalf : (headerBitCount + 1) / 2 = 18 := rfl
  unfold demapFrame
  dsimp only
  rw [hhalf, hheader, List.length_append, hsymbols, if_neg (by omega), hcount]
  dsimp only
  -- the frame's own symbols, less the zero that was appended
  rw [htotal, if_neg (by omega), ← hsymbols, List.take_left, hdemap, List.take_left, henabled]

/-! ## The round trip -/

/-- With FEC the payload is decoded before the CRC is checked. -/
theorem decodeFrame_coded (d : FecDecoder) (diag : RxDiagnostics) (hfits : h.Fits)
    (hfec : h.fecEnabled = true) (body : List UInt8) (crc : UInt32) :
    (decodeFrame d diag h.fecEnabled (frameBits h body crc)).1 =
      if frameCrc h (decodedBytes d.codeRate body h.payloadLength.toNat) = crc then
        some (decodedBytes d.codeRate body h.payloadLength.toNat)
      else none := by
  unfold decodeFrame
  rw [hfec, if_pos rfl, parseUnchecked_frameBits hfits]
  dsimp only [FecDecoder.decode]
  rw [hfec, if_pos rfl]
  split
  · rename_i hverify
    rw [if_pos (verifyCrc_iff.mp hverify)]
  · rename_i hverify
    rw [if_neg fun hcrc => hverify (verifyCrc_iff.mpr hcrc)]

/-- Without FEC the parser has checked the CRC. -/
theorem decodeFrame_plain (d : FecDecoder) (diag : RxDiagnostics) (hfits : h.Fits)
    (hfec : h.fecEnabled = false) (hlen : h.payloadLength.toNat = body.length) :
    (decodeFrame d diag h.fecEnabled (frameBits h body (frameCrc h body))).1 = some body := by
  unfold decodeFrame
  rw [hfec, if_neg (by decide), parse_frameBits hfits rfl]
  dsimp only
  rw [hfec, if_neg (by decide), if_pos rfl, hlen, List.take_length]

namespace Encoder

/-- The receiver counts the payload bits that are on the air. -/
theorem payloadBitCount_dataBits (e : Encoder) {payload : List UInt8}
    (hlen : payload.length ≤ 65535) (crc : UInt32) :
    payloadBitCount ((frameBits (e.header payload) (e.body payload) crc).take 36) =
      some (8 * (e.body payload).length) := by
  have hfec : (e.header payload).fecEnabled = e.config.fecEnabled := rfl
  rw [take_header_frameBits, payloadBitCount_toBits (e.header_fits payload),
    e.header_payloadLength hlen, e.header_fecCodeRate, hfec, body]
  cases e.config.fecEnabled with
  | true => rw [if_pos rfl, if_pos rfl, FecEncoder.length_encode, Nat.mul_comm]; rfl
  | false => rw [if_neg (by decide), if_neg (by decide), Nat.mul_comm]

/-- What a decoder makes of the symbols is what it makes of the frame. -/
theorem tryDecodeFrame_encode (e : Encoder) {payload : List UInt8}
    (hlen : payload.length ≤ 65535) (extra : List Symbol) (d : FecDecoder)
    (diag : RxDiagnostics) :
    tryDecodeFrame ((e.encode payload).1 ++ extra) d diag =
      decodeFrame d diag (e.header payload).fecEnabled
        (frameBits (e.header payload) (e.body payload)
          (frameCrc (e.header payload) payload)) := by
  unfold tryDecodeFrame encode
  rw [e.dataBits_eq payload, demapFrame_map (e.header_fits payload)
    (e.payloadBitCount_dataBits hlen _)]

end Encoder

/-- What a receiver gets of a frame that was sent with FEC: its own decoder's
output, if the CRC lets it pass. -/
theorem Decoder.attempt_encode_coded (e : Encoder) (d : Decoder) {payload : List UInt8}
    (hlen : payload.length ≤ 65535) (extra : List Symbol) (hfec : e.config.fecEnabled = true) :
    let decoded := decodedBytes d.config.fecCodeRate (e.fecEncoder.encode payload) payload.length
    (d.attempt ((e.encode payload).1 ++ extra)).1 =
      if frameCrc (e.header payload) decoded = frameCrc (e.header payload) payload then
        some decoded
      else none := by
  have hbody : e.body payload = e.fecEncoder.encode payload := if_pos hfec
  have hframe := decodeFrame_coded d.fecDecoder d.diag (e.header_fits payload) hfec
    (e.body payload) (frameCrc (e.header payload) payload)
  rw [← e.tryDecodeFrame_encode hlen extra, e.header_payloadLength hlen, hbody, d.rate_eq]
    at hframe
  exact hframe

/-- What was sent without FEC arrives at any receiver. -/
theorem Decoder.attempt_encode_plain (e : Encoder) (d : Decoder) {payload : List UInt8}
    (hlen : payload.length ≤ 65535) (extra : List Symbol) (hfec : e.config.fecEnabled = false) :
    (d.attempt ((e.encode payload).1 ++ extra)).1 = some payload := by
  have hbody : e.body payload = payload := if_neg (by rw [hfec]; decide)
  have hframe := decodeFrame_plain d.fecDecoder d.diag (e.header_fits payload) hfec
    (e.header_payloadLength hlen)
  have hsent := e.tryDecodeFrame_encode hlen extra d.fecDecoder d.diag
  rw [hbody] at hsent
  rw [← hsent] at hframe
  exact hframe

/-- A receiver whose decoder undoes the coding gets the payload. -/
theorem Decoder.attempt_encode_of_decoded (e : Encoder) (d : Decoder) {payload : List UInt8}
    (hlen : payload.length ≤ 65535) (extra : List Symbol) (hfec : e.config.fecEnabled = true)
    (hdecoded : decodedBytes d.config.fecCodeRate (e.fecEncoder.encode payload) payload.length =
      payload) : (d.attempt ((e.encode payload).1 ++ extra)).1 = some payload := by
  rw [attempt_encode_coded e d hlen extra hfec, hdecoded, if_pos rfl]

/-- Every payload comes back from a receiver configured with the rate it was
sent with, whatever the sender and the receiver have done before and whatever
symbols follow the frame. -/
theorem Decoder.attempt_encode (e : Encoder) (d : Decoder) (payload : List UInt8)
    (extra : List Symbol) (hlen : payload.length ≤ 65535)
    (hrate : e.config.fecEnabled = true → d.config.fecCodeRate = e.config.fecCodeRate) :
    (d.attempt ((e.encode payload).1 ++ extra)).1 = some payload := by
  cases hfec : e.config.fecEnabled with
  | false => exact attempt_encode_plain e d hlen extra hfec
  | true =>
      apply attempt_encode_of_decoded e d hlen extra hfec
      rw [hrate hfec, ← e.rate_eq]
      exact decodedBytes_encode e.fecEncoder hlen

/-- Three bytes, at rate 3/4, and one more symbol. -/
theorem Decoder.attempt_encode_threeBytes :
    ((create { fecCodeRate := .rate34 }).attempt
        (((Encoder.create { fecCodeRate := .rate34 }).encode [1, 2, 3]).1 ++ [⟨0, 0⟩])).1 =
      some [1, 2, 3] :=
  attempt_encode (Encoder.create { fecCodeRate := .rate34 }) (create { fecCodeRate := .rate34 })
    [1, 2, 3] [⟨0, 0⟩] (by decide) fun _ => rfl

end QpskB210.Modem
