import Mathlib.Logic.Function.Iterate
import QpskB210.Lib.Bits
import QpskB210.Modem.Types

/-!
# Modem — Frame

`FrameBuilder` and `FrameParser`. After the preamble a frame is a header of
35 bits, the payload and a CRC-32. The CRC is taken over bytes, so the
header is packed a second time, into five of them.
-/

namespace QpskB210.Modem

open QpskB210.Lib.Bits

/-! ## CRC-32 -/

/-- One round of the inner loop of `make_crc32_table`. -/
def crc32Round (crc : UInt32) : UInt32 :=
  if crc &&& 1 ≠ 0 then (crc >>> 1) ^^^ 0xEDB88320 else crc >>> 1

/-- `CRC32_TABLE[i]`. -/
def crc32Table (i : UInt32) : UInt32 := crc32Round^[8] i

def computeCrc32 (data : List UInt8) : UInt32 :=
  data.foldl
      (fun crc byte => crc32Table ((crc ^^^ byte.toUInt32) &&& 0xFF) ^^^ (crc >>> 8))
      0xFFFFFFFF
    ^^^ 0xFFFFFFFF

/-! ## The header -/

def headerBitCount : Nat := 35

def crcBitCount : Nat := 32

/-- The header on the wire. -/
def FrameHeader.toBits (h : FrameHeader) : List Bool :=
  Lib.Bits.toBits 16 h.payloadLength.toNat ++
    (Lib.Bits.toBits 4 h.paddingBits.toNat ++
      ([h.fecEnabled] ++
        (Lib.Bits.toBits 2 h.fecCodeRate.toNat ++
          Lib.Bits.toBits 12 h.sequenceNumber.toNat)))

/-- The header under the CRC. -/
def FrameHeader.toBytes (h : FrameHeader) : List UInt8 :=
  [(h.payloadLength >>> 8).toUInt8,
    h.payloadLength.toUInt8,
    ((h.paddingBits &&& 0x0F) <<< 4) ||| (h.fecEnabled.toUInt8 <<< 3) |||
      ((h.fecCodeRate &&& 0x03) <<< 1) ||| ((h.sequenceNumber >>> 11) &&& 0x01).toUInt8,
    (h.sequenceNumber >>> 3).toUInt8,
    ((h.sequenceNumber &&& 0x07) <<< 5).toUInt8]

/-- The CRC of a frame with this header and this payload. -/
def frameCrc (h : FrameHeader) (payload : List UInt8) : UInt32 :=
  computeCrc32 (h.toBytes ++ payload)

/-! ## FrameBuilder -/

structure FrameBuilder where
  preamble : List Bool
  seqNum : UInt32 := 0
deriving DecidableEq, Repr

/-- The header of the next frame. -/
def FrameBuilder.header (b : FrameBuilder) (payload : List UInt8) (paddingBits : UInt8)
    (fecEnabled : Bool) (fecCodeRate : CodeRate) : FrameHeader where
  payloadLength := UInt16.ofNat payload.length
  paddingBits := paddingBits
  sequenceNumber := (b.seqNum &&& 0x0FFF).toUInt16
  fecEnabled := fecEnabled
  fecCodeRate := fecCodeRate.toUInt8 &&& 0x03

/-- `build_frame`, with the builder after it. -/
def FrameBuilder.buildFrame (b : FrameBuilder) (payload : List UInt8) (paddingBits : UInt8)
    (fecEnabled : Bool) (fecCodeRate : CodeRate) : List Bool × FrameBuilder :=
  let header := b.header payload paddingBits fecEnabled fecCodeRate
  (b.preamble ++ (header.toBits ++ (bytesToBits payload ++
      Lib.Bits.toBits 32 (frameCrc header payload).toNat)),
    { b with seqNum := (b.seqNum + 1) &&& 0x0FFF })

/-! ## FrameParser -/

/-- `extract_bits`: a field of at most 32 bits. Beyond the end there are no
bits; the parser does not go there. -/
def extractBits (bits : List Bool) (offset count : Nat) : Nat :=
  ofBits ((bits.drop offset).take count)

def extractHeader (bits : List Bool) : FrameHeader where
  payloadLength := UInt16.ofNat (extractBits bits 0 16)
  paddingBits := UInt8.ofNat (extractBits bits 16 4)
  fecEnabled := extractBits bits 20 1 ≠ 0
  fecCodeRate := UInt8.ofNat (extractBits bits 21 2)
  sequenceNumber := UInt16.ofNat (extractBits bits 23 12)

def verifyCrc (frame : Frame) : Bool := frameCrc frame.header frame.payload = frame.crc

theorem verifyCrc_iff {frame : Frame} :
    verifyCrc frame = true ↔ frameCrc frame.header frame.payload = frame.crc :=
  decide_eq_true_iff

/-- `parse_unchecked`. Payload bits beyond the last whole byte are skipped. -/
def parseUnchecked (bits : List Bool) : Option Frame :=
  if bits.length < headerBitCount + crcBitCount then none
  else
    let remainingBits := bits.length - headerBitCount
    if remainingBits < crcBitCount then none
    else
      let payloadBitCount := remainingBits - crcBitCount
      some
        { header := extractHeader bits
          payload := takeBytes (payloadBitCount / 8) (bits.drop headerBitCount)
          crc := UInt32.ofNat (extractBits bits (headerBitCount + payloadBitCount) 32)
          crcValid := false }

/-- `parse`: the same steps once more, and the CRC has to be right. -/
def parse (bits : List Bool) : Option Frame :=
  if bits.length < headerBitCount + crcBitCount then none
  else
    let remainingBits := bits.length - headerBitCount
    if remainingBits < crcBitCount then none
    else
      let payloadBitCount := remainingBits - crcBitCount
      let fields : Frame :=
        { header := extractHeader bits
          payload := takeBytes (payloadBitCount / 8) (bits.drop headerBitCount)
          crc := UInt32.ofNat (extractBits bits (headerBitCount + payloadBitCount) 32)
          crcValid := false }
      let frame := { fields with crcValid := verifyCrc fields }
      if frame.crcValid then some frame else none

/-- The two copies of the parser read the same fields. -/
theorem parse_eq (bits : List Bool) :
    parse bits = (parseUnchecked bits).bind fun fields =>
      if verifyCrc fields then some { fields with crcValid := true } else none := by
  unfold parse parseUnchecked
  split
  · rfl
  · dsimp only
    split
    · rfl
    · simp only [Option.bind_some]
      split
      · rename_i hvalid
        rw [hvalid]
      · rfl

/-! ## Fields -/

/-- The fields are no wider than their place on the wire. -/
structure FrameHeader.Fits (h : FrameHeader) : Prop where
  paddingBits : h.paddingBits.toNat < 16
  fecCodeRate : h.fecCodeRate.toNat < 4
  sequenceNumber : h.sequenceNumber.toNat < 4096

@[simp] theorem FrameHeader.length_toBits (h : FrameHeader) : h.toBits.length = headerBitCount := by
  simp [toBits, headerBitCount]

/-- A field written after `before` is read back from there. -/
theorem extractBits_field (before rest : List Bool) (width n : Nat) (hn : n < 2 ^ width) :
    extractBits (before ++ (Lib.Bits.toBits width n ++ rest)) before.length width = n := by
  have hfield := take_drop_field before (Lib.Bits.toBits width n) rest
  rw [Lib.Bits.length_toBits] at hfield
  rw [extractBits, hfield, ofBits_toBits, Nat.mod_eq_of_lt hn]

/-- The parser reads the header that was written, whatever follows it. -/
theorem extractHeader_toBits {h : FrameHeader} (hfits : h.Fits) (rest : List Bool) :
    extractHeader (h.toBits ++ rest) = h := by
  let len := Lib.Bits.toBits 16 h.payloadLength.toNat
  let pad := Lib.Bits.toBits 4 h.paddingBits.toNat
  let fec := Lib.Bits.toBits 1 h.fecEnabled.toNat
  let rate := Lib.Bits.toBits 2 h.fecCodeRate.toNat
  let seq := Lib.Bits.toBits 12 h.sequenceNumber.toNat
  have hfec : fec = [h.fecEnabled] := by cases hf : h.fecEnabled <;> simp [fec, hf] <;> decide
  have hbits : h.toBits ++ rest = len ++ (pad ++ (fec ++ (rate ++ (seq ++ rest)))) := by
    simp [FrameHeader.toBits, hfec, len, pad, rate, seq]
  -- each field begins where the ones before it end
  have hlength := extractBits_field [] (pad ++ (fec ++ (rate ++ (seq ++ rest)))) 16
    h.payloadLength.toNat h.payloadLength.toNat_lt
  have hpadding := extractBits_field len (fec ++ (rate ++ (seq ++ rest))) 4
    h.paddingBits.toNat hfits.paddingBits
  have henabled := extractBits_field (len ++ pad) (rate ++ (seq ++ rest)) 1
    h.fecEnabled.toNat (Bool.toNat_lt _)
  have hrate := extractBits_field (len ++ pad ++ fec) (seq ++ rest) 2
    h.fecCodeRate.toNat hfits.fecCodeRate
  have hseq := extractBits_field (len ++ pad ++ fec ++ rate) rest 12
    h.sequenceNumber.toNat hfits.sequenceNumber
  simp only [List.nil_append, List.length_nil, List.length_append, List.append_assoc, len, pad,
    fec, rate, seq, Lib.Bits.length_toBits, Nat.reduceAdd] at hlength hpadding henabled hrate hseq
  have hflag : decide (h.fecEnabled.toNat ≠ 0) = h.fecEnabled := by cases h.fecEnabled <;> rfl
  rw [hbits]
  simp only [extractHeader, len, pad, fec, rate, seq, hlength, hpadding, henabled, hrate, hseq,
    UInt16.ofNat_toNat, UInt8.ofNat_toNat]
  rw [hflag]

theorem toNat_and_0fff (n : UInt32) : (n &&& 0x0FFF).toNat = n.toNat % 4096 := by
  have hmask : (0x0FFF : UInt32).toNat = 2 ^ 12 - 1 := rfl
  rw [UInt32.toNat_and, hmask, Nat.and_two_pow_sub_one_eq_mod]

theorem FrameBuilder.header_fits (b : FrameBuilder) (payload : List UInt8) {paddingBits : UInt8}
    (hpadding : paddingBits.toNat < 16) (fecEnabled : Bool) (fecCodeRate : CodeRate) :
    (b.header payload paddingBits fecEnabled fecCodeRate).Fits where
  paddingBits := hpadding
  fecCodeRate := by
    have hrate : (fecCodeRate.toUInt8 &&& 0x03).toNat < 4 := by cases fecCodeRate <;> decide
    exact hrate
  sequenceNumber := by
    rw [FrameBuilder.header, UInt32.toNat_toUInt16, toNat_and_0fff]
    omega

/-! ## Whole frames -/

variable {h : FrameHeader} {body : List UInt8} {crc : UInt32}

/-- What follows the preamble. -/
def frameBits (h : FrameHeader) (body : List UInt8) (crc : UInt32) : List Bool :=
  h.toBits ++ (bytesToBits body ++ Lib.Bits.toBits 32 crc.toNat)

@[simp] theorem length_frameBits :
    (frameBits h body crc).length = headerBitCount + 8 * body.length + crcBitCount := by
  simp only [frameBits, List.length_append, FrameHeader.length_toBits, length_bytesToBits,
    Lib.Bits.length_toBits, crcBitCount, Nat.add_assoc]

theorem extractCrc_frameBits :
    extractBits (frameBits h body crc) (headerBitCount + 8 * body.length) 32 = crc.toNat := by
  have hfield := extractBits_field (h.toBits ++ bytesToBits body) [] 32 crc.toNat crc.toNat_lt
  rwa [List.append_nil, List.append_assoc, List.length_append, FrameHeader.length_toBits,
    length_bytesToBits] at hfield

/-- The parser gets every part of the frame back. -/
theorem parseUnchecked_frameBits (hfits : h.Fits) :
    parseUnchecked (frameBits h body crc) = some ⟨h, body, crc, false⟩ := by
  have hcount : headerBitCount + 8 * body.length + crcBitCount - headerBitCount - crcBitCount =
      8 * body.length := by omega
  unfold parseUnchecked
  rw [length_frameBits, if_neg (by omega)]
  dsimp only
  rw [if_neg (by omega), hcount, extractCrc_frameBits, Nat.mul_div_cancel_left _ (by decide),
    UInt32.ofNat_toNat, frameBits, extractHeader_toBits hfits,
    List.drop_left' h.length_toBits, takeBytes_bytesToBits]

/-- With the CRC of what it carries, the frame is accepted. -/
theorem parse_frameBits (hfits : h.Fits) (hcrc : frameCrc h body = crc) :
    parse (frameBits h body crc) = some ⟨h, body, crc, true⟩ := by
  have hverify : verifyCrc ⟨h, body, crc, false⟩ = true := verifyCrc_iff.mpr hcrc
  rw [parse_eq, parseUnchecked_frameBits hfits, Option.bind_some, if_pos hverify]

end QpskB210.Modem
