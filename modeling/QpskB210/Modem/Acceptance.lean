import QpskB210.Modem.BurstDetection
import QpskB210.Modem.CodecRoundTrip

/-!
# Modem — Acceptance

What a decoder accepts. Whatever the symbols are, a payload comes out of them
only if the bits they show begin with a whole frame, with the CRC of its
header and of that payload; and then it does come out.
-/

namespace QpskB210.Modem

open QpskB210.Lib.Bits

/-- How many bytes a frame has between its header and its CRC. None for a code
rate that is not known. -/
def FrameHeader.bodyLength? (h : FrameHeader) : Option Nat :=
  if h.fecEnabled then
    (CodeRate.ofUInt8? h.fecCodeRate).map fun rate =>
      FecEncoder.codedLength ⟨rate⟩ h.payloadLength.toNat
  else some h.payloadLength.toNat

/-- The payload that a decoder makes of the bytes between header and CRC. -/
def FecDecoder.payloadOf (d : FecDecoder) (h : FrameHeader) (body : List UInt8) : List UInt8 :=
  if h.fecEnabled then (d.decode body h.payloadLength.toNat).1 else body

/-- The bits of the symbols begin with this frame. -/
structure Shows (dataSymbols : List Symbol) (h : FrameHeader) (body : List UInt8) (crc : UInt32) :
    Prop where
  fits : h.Fits
  length : h.bodyLength? = some body.length
  bits : frameBits h body crc <+: SymbolMapper.demap dataSymbols

variable {bits : List Bool} {dataSymbols : List Symbol} {h : FrameHeader} {body : List UInt8}
  {crc : UInt32} {flag : Bool}

/-! ## The bits of a frame -/

theorem extractBits_lt (bits : List Bool) (offset count : Nat) :
    extractBits bits offset count < 2 ^ count :=
  (ofBits_lt _).trans_le (Nat.pow_le_pow_right (by decide) (List.length_take_le ..))

/-- A header that was read can be written. -/
theorem extractHeader_fits (bits : List Bool) : (extractHeader bits).Fits where
  paddingBits := by
    have hlt := extractBits_lt bits 16 4
    simp only [extractHeader, UInt8.toNat_ofNat']
    omega
  fecCodeRate := by
    have hlt := extractBits_lt bits 21 2
    simp only [extractHeader, UInt8.toNat_ofNat']
    omega
  sequenceNumber := by
    have hlt := extractBits_lt bits 23 12
    simp only [extractHeader, UInt16.toNat_ofNat']
    omega

/-- Bits in the number of some frame are a frame. -/
theorem eq_frameBits {n : Nat} (h : bits.length = headerBitCount + 8 * n + crcBitCount) :
    ∃ body crc, body.length = n ∧ bits = frameBits (extractHeader bits) body crc := by
  refine ⟨takeBytes n (bits.drop headerBitCount),
    UInt32.ofNat (ofBits ((bits.drop headerBitCount).drop (8 * n))), length_takeBytes .., ?_⟩
  have hlast : ((bits.drop headerBitCount).drop (8 * n)).length = 32 := by
    rw [List.length_drop, List.length_drop]
    unfold crcBitCount at h
    omega
  have hbody : bytesToBits (takeBytes n (bits.drop headerBitCount)) =
      (bits.drop headerBitCount).take (8 * n) := by
    rw [← takeBytes_take]
    apply bytesToBits_takeBytes
    rw [List.length_take, List.length_drop]
    omega
  have hcrc : Lib.Bits.toBits 32
      (UInt32.ofNat (ofBits ((bits.drop headerBitCount).drop (8 * n)))).toNat =
        (bits.drop headerBitCount).drop (8 * n) := by
    have hread := toBits_ofBits ((bits.drop headerBitCount).drop (8 * n))
    rw [hlast] at hread
    rw [UInt32.toNat_ofNat', toBits_mod, hread]
  rw [frameBits, toBits_extractHeader (by omega), hbody, hcrc, List.take_append_drop,
    List.take_append_drop]

/-! ## Demapping -/

theorem payloadBitCount_eq (hfits : h.Fits) (rest : List Bool) :
    payloadBitCount (h.toBits ++ rest) = h.bodyLength?.map (8 * ·) := by
  rw [payloadBitCount_toBits hfits, FrameHeader.bodyLength?]
  split
  · rw [Option.map_map]
    congr 1
    funext rate
    exact Nat.mul_comm _ _
  · rw [Option.map_some, Nat.mul_comm]

theorem take_toBits (h : FrameHeader) (rest : List Bool) {k : Nat} (hk : headerBitCount ≤ k) :
    (h.toBits ++ rest).take k = h.toBits ++ rest.take (k - headerBitCount) := by
  rw [List.take_append, FrameHeader.length_toBits,
    List.take_of_length_le (by rw [FrameHeader.length_toBits]; exact hk)]

theorem extractFlag (hfits : h.Fits) (rest : List Bool) :
    decide (extractBits (h.toBits ++ rest) 20 1 ≠ 0) = h.fecEnabled :=
  congrArg FrameHeader.fecEnabled (extractHeader_toBits hfits rest)

/-- What `demapFrame` does with symbols that show a header. -/
theorem demapFrame_of_header (hfits : h.Fits) {rest : List Bool}
    (hdemap : SymbolMapper.demap dataSymbols = h.toBits ++ rest)
    (hlong : 18 ≤ dataSymbols.length) :
    demapFrame dataSymbols =
      h.bodyLength?.bind fun n =>
        if (SymbolMapper.demap dataSymbols).length < headerBitCount + 8 * n + crcBitCount then none
        else some (h.fecEnabled,
          (SymbolMapper.demap dataSymbols).take (headerBitCount + 8 * n + crcBitCount)) := by
  have hheader : SymbolMapper.demap (dataSymbols.take 18) = h.toBits ++ rest.take 1 := by
    rw [SymbolMapper.demap_take, hdemap, take_toBits _ _ (by decide)]
    rfl
  have hhalf : (headerBitCount + 1) / 2 = 18 := rfl
  unfold demapFrame
  dsimp only
  rw [hhalf, if_neg (by omega), hheader, payloadBitCount_eq hfits, extractFlag hfits]
  cases h.bodyLength? with
  | none => rfl
  | some n =>
      dsimp only [Option.map_some, Option.bind_some]
      rw [SymbolMapper.length_demap]
      by_cases hshort : 2 * dataSymbols.length < headerBitCount + 8 * n + crcBitCount
      · rw [if_pos (by omega), if_pos hshort]
      · rw [if_neg (by omega), if_neg hshort, SymbolMapper.demap_take, List.take_take,
          Nat.min_eq_left (by omega)]

/-- The decoder cuts a frame out of the symbols exactly if they show it. -/
theorem demapFrame_eq_some_iff : demapFrame dataSymbols = some (flag, bits) ↔
    ∃ h body crc, Shows dataSymbols h body crc ∧ flag = h.fecEnabled ∧
      bits = frameBits h body crc := by
  constructor
  · intro hsome
    have hlong : 18 ≤ dataSymbols.length := by
      by_contra hshort
      rw [demapFrame, if_pos (by unfold headerBitCount; omega)] at hsome
      cases hsome
    have hroom : headerBitCount ≤ (SymbolMapper.demap dataSymbols).length := by
      rw [SymbolMapper.length_demap, headerBitCount]
      omega
    have hfits := extractHeader_fits (SymbolMapper.demap dataSymbols)
    have hdemap : SymbolMapper.demap dataSymbols =
        (extractHeader (SymbolMapper.demap dataSymbols)).toBits ++
          (SymbolMapper.demap dataSymbols).drop headerBitCount := by
      rw [toBits_extractHeader hroom, List.take_append_drop]
    rw [demapFrame_of_header hfits hdemap hlong, Option.bind_eq_some_iff] at hsome
    obtain ⟨n, hbody, hsome⟩ := hsome
    split at hsome
    · cases hsome
    · rename_i htotal
      rw [Nat.not_lt] at htotal
      cases hsome
      have hlength := List.length_take_of_le htotal
      obtain ⟨body, crc, rfl, hbits⟩ := eq_frameBits hlength
      -- the header is the one that the first symbols showed
      have hsame : extractHeader ((SymbolMapper.demap dataSymbols).take
          (headerBitCount + 8 * body.length + crcBitCount)) =
            extractHeader (SymbolMapper.demap dataSymbols) := by
        conv_lhs => rw [hdemap, take_toBits _ _ (by omega)]
        exact extractHeader_toBits hfits _
      rw [hsame] at hbits
      exact ⟨_, body, crc, ⟨hfits, hbody, hbits ▸ List.take_prefix _ _⟩, rfl, hbits⟩
  · rintro ⟨h, body, crc, ⟨hfits, hbody, rest, hdemap⟩, rfl, rfl⟩
    have hcount := congrArg List.length hdemap
    rw [List.length_append, length_frameBits, SymbolMapper.length_demap] at hcount
    have hlong : 18 ≤ dataSymbols.length := by
      unfold headerBitCount crcBitCount at hcount
      omega
    have hsplit : SymbolMapper.demap dataSymbols =
        h.toBits ++ (bytesToBits body ++ Lib.Bits.toBits 32 crc.toNat ++ rest) := by
      rw [← hdemap, frameBits]
      simp only [List.append_assoc]
    rw [demapFrame_of_header hfits hsplit hlong, hbody, Option.bind_some, ← hdemap,
      List.length_append, length_frameBits, if_neg (by omega),
      List.take_left' length_frameBits]

/-! ## Acceptance -/

/-- What is made of a frame: its payload, if the CRC is right. -/
theorem decodeFrame_frameBits (d : FecDecoder) (diag : RxDiagnostics) (hfits : h.Fits)
    (hbody : h.bodyLength? = some body.length) (payload : List UInt8) :
    (decodeFrame d diag h.fecEnabled (frameBits h body crc)).1 = some payload ↔
      d.payloadOf h body = payload ∧ crc = frameCrc h payload := by
  cases hfec : h.fecEnabled with
  | true =>
      have hcoded := decodeFrame_coded d diag hfits hfec body crc
      rw [hfec] at hcoded
      rw [hcoded, FecDecoder.payloadOf, if_pos hfec]
      show _ ↔ decodedBytes d.codeRate body h.payloadLength.toNat = payload ∧ _
      split
      · rename_i hcrc
        rw [Option.some.injEq]
        exact ⟨fun heq => ⟨heq, heq ▸ hcrc.symm⟩, fun heq => heq.1⟩
      · rename_i hcrc
        refine iff_of_false (by simp) ?_
        rintro ⟨rfl, rfl⟩
        exact hcrc rfl
  | false =>
      -- without FEC the body is the payload itself
      rw [FrameHeader.bodyLength?, if_neg (by simp [hfec]), Option.some.injEq] at hbody
      have hverify := @verifyCrc_iff ⟨h, body, crc, false⟩
      dsimp only at hverify
      rw [FecDecoder.payloadOf, if_neg (by simp [hfec])]
      unfold decodeFrame
      rw [if_neg (by decide), parse_eq, parseUnchecked_frameBits hfits, Option.bind_some]
      split
      · rename_i hnone
        split at hnone
        · cases hnone
        · rename_i hwrong
          refine iff_of_false (by simp) ?_
          rintro ⟨rfl, rfl⟩
          exact hwrong (hverify.mpr rfl)
      · rename_i frame hsome
        split at hsome
        · rename_i hright
          cases hsome
          dsimp only
          rw [hfec, if_neg (by decide), if_pos rfl, hbody, List.take_length, Option.some.injEq]
          exact ⟨fun heq => ⟨heq, heq ▸ (hverify.mp hright).symm⟩, fun heq => heq.1⟩
        · cases hsome

/-- **Acceptance.** A payload comes out of symbols exactly if their bits begin
with a whole frame that carries it, and whose CRC is that of its header and
this payload. -/
theorem tryDecodeFrame_accepts_iff (dataSymbols : List Symbol) (d : FecDecoder)
    (diag : RxDiagnostics) (payload : List UInt8) :
    (tryDecodeFrame dataSymbols d diag).1 = some payload ↔
      ∃ h body, Shows dataSymbols h body (frameCrc h payload) ∧ d.payloadOf h body = payload := by
  unfold tryDecodeFrame
  constructor
  · intro hsome
    split at hsome
    · cases hsome
    · rename_i flag bits hframe
      obtain ⟨h, body, crc, hshows, rfl, rfl⟩ := demapFrame_eq_some_iff.mp hframe
      obtain ⟨hpayload, rfl⟩ :=
        (decodeFrame_frameBits d diag hshows.fits hshows.length payload).mp hsome
      exact ⟨h, body, hshows, hpayload⟩
  · rintro ⟨h, body, hshows, hpayload⟩
    rw [demapFrame_eq_some_iff.mpr ⟨h, body, _, hshows, rfl, rfl⟩]
    exact (decodeFrame_frameBits d diag hshows.fits hshows.length payload).mpr ⟨hpayload, rfl⟩

end QpskB210.Modem
