import Mathlib.Tactic.IntervalCases
import QpskB210.Lib.Crc
import QpskB210.Modem.Frame

/-!
# Modem — BurstDetection

What the CRC of a frame detects. `compute_crc32` is the table-driven form of
`Lib.Crc`, so four bytes side by side are told apart (`computeCrc32_burst`);
and the bytes under it are the bits on the wire, but for five zeros after the
header (`bytesToBits_covered`).
-/

namespace QpskB210.Modem

open QpskB210.Lib QpskB210.Lib.Bits

/-! ## The CRC -/

/-- The reflected polynomial. -/
def crc32Poly : BitVec 32 := 0xEDB88320#32

theorem crc32Poly_msb : crc32Poly.msb = true := rfl

theorem toBitVec_crc32Round (crc : UInt32) :
    (crc32Round crc).toBitVec = Crc.round crc32Poly crc.toBitVec := by
  have hlow : crc &&& 1 ≠ 0 ↔ crc.toBitVec.getLsbD 0 = true := by
    rw [← UInt32.toBitVec_inj.ne, UInt32.toBitVec_and]
    have hbit : crc.toBitVec &&& (1 : UInt32).toBitVec =
        (BitVec.ofBool (crc.toBitVec.getLsbD 0)).setWidth 32 :=
      BitVec.and_one_eq_setWidth_ofBool_getLsbD
    rw [hbit]
    cases crc.toBitVec.getLsbD 0 <;> decide
  unfold crc32Round Crc.round
  by_cases hone : crc &&& 1 ≠ 0
  · rw [if_pos hone, if_pos (hlow.mp hone)]
    rfl
  · rw [if_neg hone, if_neg fun h => hone (hlow.mpr h)]
    rfl

theorem toBitVec_crc32Table (i : UInt32) :
    (crc32Table i).toBitVec = Crc.rounds crc32Poly 8 i.toBitVec := by
  have h : Function.Semiconj UInt32.toBitVec crc32Round (Crc.round crc32Poly) :=
    toBitVec_crc32Round
  exact (h.iterate_right 8) i

/-- The table step is that of the library. -/
theorem toBitVec_crc32Step (crc : UInt32) (byte : UInt8) :
    (crc32Table ((crc ^^^ byte.toUInt32) &&& 0xFF) ^^^ (crc >>> 8)).toBitVec =
      Crc.feed crc32Poly crc.toBitVec byte.toBitVec := by
  have hindex : ∀ x : BitVec 32, x &&& 0xFF#32 = (x.setWidth 8).setWidth 32 := by
    intro x
    apply BitVec.eq_of_getLsbD_eq
    intro i hi
    interval_cases i <;> simp
  rw [UInt32.toBitVec_xor, toBitVec_crc32Table, Crc.feed_eq_table, ← hindex]
  rfl

theorem toBitVec_computeCrc32 (data : List UInt8) :
    (computeCrc32 data).toBitVec =
      Crc.feedAll crc32Poly (0xFFFFFFFF : UInt32).toBitVec (data.map UInt8.toBitVec) ^^^
        (0xFFFFFFFF : UInt32).toBitVec := by
  have hfold : ∀ crc : UInt32,
      (data.foldl
        (fun crc byte => crc32Table ((crc ^^^ byte.toUInt32) &&& 0xFF) ^^^ (crc >>> 8))
        crc).toBitVec = Crc.feedAll crc32Poly crc.toBitVec (data.map UInt8.toBitVec) := by
    induction data with
    | nil => exact fun crc => rfl
    | cons byte data ih =>
        intro crc
        rw [List.foldl_cons, ih, toBitVec_crc32Step]
        rfl
  rw [computeCrc32, UInt32.toBitVec_xor, hfold]

/-- Four bytes at most in the same place are told apart. -/
theorem computeCrc32_window_inj {window window' : List UInt8}
    (hlen : window.length = window'.length) (hfit : window.length ≤ 4)
    (before after : List UInt8)
    (h : computeCrc32 (before ++ window ++ after) = computeCrc32 (before ++ window' ++ after)) :
    window = window' := by
  have hbits := congrArg UInt32.toBitVec h
  rw [toBitVec_computeCrc32, toBitVec_computeCrc32] at hbits
  have hregisters := Crc.xor_right_inj hbits
  simp only [List.map_append] at hregisters
  have hwindow := Crc.feedAll_window_inj crc32Poly_msb
    (by rw [List.length_map, List.length_map, hlen]) (by rw [List.length_map]; omega) _ _ _
    hregisters
  exact List.map_injective_iff.mpr (fun a b => UInt8.toBitVec_inj.mp) hwindow

/-- **Bursts.** Data that differs within four consecutive bytes at most has
another CRC. -/
theorem computeCrc32_burst {data data' : List UInt8} (hlen : data.length = data'.length) {k : Nat}
    (hwindow : ∀ i, data[i]? ≠ data'[i]? → k ≤ i ∧ i < k + 4)
    (h : computeCrc32 data = computeCrc32 data') : data = data' := by
  have hsame : ∀ i, (i < k ∨ k + 4 ≤ i) → data[i]? = data'[i]? := by
    intro i hi
    by_contra hne
    have := hwindow i hne
    omega
  have hbefore : data.take k = data'.take k := by
    apply List.ext_getElem?
    intro i
    rw [List.getElem?_take, List.getElem?_take]
    split
    · exact hsame i (by omega)
    · rfl
  have hafter : (data.drop k).drop 4 = (data'.drop k).drop 4 := by
    apply List.ext_getElem?
    intro i
    rw [List.drop_drop, List.drop_drop, List.getElem?_drop, List.getElem?_drop]
    exact hsame _ (by omega)
  have hparts : ∀ l : List UInt8, l = l.take k ++ (l.drop k).take 4 ++ (l.drop k).drop 4 := by
    intro l
    rw [List.append_assoc, List.take_append_drop, List.take_append_drop]
  rw [hparts data, hparts data', hbefore, hafter] at h
  have hmiddle := computeCrc32_window_inj
    (by simp only [List.length_take, List.length_drop, hlen])
    (by rw [List.length_take]; exact Nat.min_le_left ..) _ _ h
  rw [hparts data, hparts data', hbefore, hmiddle, hafter]

/-! ## The bytes under the CRC -/

/-- The byte in which four fields meet. -/
theorem toNat_sharedByte (pad rate : UInt8) (fec : Bool) (seq : UInt16) :
    (((pad &&& 0x0F) <<< 4) ||| (fec.toUInt8 <<< 3) ||| ((rate &&& 0x03) <<< 1) |||
      ((seq >>> 11) &&& 0x01).toUInt8).toNat =
        2 ^ 4 * (pad.toNat % 16) + 2 ^ 3 * fec.toNat + 2 ^ 1 * (rate.toNat % 4) +
          seq.toNat / 2 ^ 11 % 2 := by
  have hpad : ((pad &&& 0x0F) <<< 4).toNat = 2 ^ 4 * (pad.toNat % 16) := by
    have hmask : (pad &&& 0x0F).toNat = pad.toNat % 2 ^ 4 := by
      rw [UInt8.toNat_and]
      exact Nat.and_two_pow_sub_one_eq_mod _ 4
    rw [UInt8.toNat_shiftLeft, hmask, Nat.shiftLeft_eq]
    simp only [UInt8.reduceToNat, Nat.reduceMod]
    omega
  have hfec : (fec.toUInt8 <<< 3).toNat = 2 ^ 3 * fec.toNat := by cases fec <;> rfl
  have hrate : ((rate &&& 0x03) <<< 1).toNat = 2 ^ 1 * (rate.toNat % 4) := by
    have hmask : (rate &&& 0x03).toNat = rate.toNat % 2 ^ 2 := by
      rw [UInt8.toNat_and]
      exact Nat.and_two_pow_sub_one_eq_mod _ 2
    rw [UInt8.toNat_shiftLeft, hmask, Nat.shiftLeft_eq]
    simp only [UInt8.reduceToNat, Nat.reduceMod]
    omega
  have hseq : (((seq >>> 11) &&& 0x01).toUInt8).toNat = seq.toNat / 2 ^ 11 % 2 := by
    have hmask : ((seq >>> 11) &&& 0x01).toNat = (seq >>> 11).toNat % 2 ^ 1 := by
      rw [UInt16.toNat_and]
      exact Nat.and_two_pow_sub_one_eq_mod _ 1
    rw [UInt16.toNat_toUInt8, hmask, UInt16.toNat_shiftRight, Nat.shiftRight_eq_div_pow]
    simp only [UInt16.reduceToNat, Nat.reduceMod]
    omega
  have hbit := Bool.toNat_lt fec
  rw [UInt8.toNat_or, UInt8.toNat_or, UInt8.toNat_or, hpad, hfec, hrate, hseq,
    ← Nat.two_pow_add_eq_or_of_lt (by omega)]
  have hhigh : 2 ^ 4 * (pad.toNat % 16) + 2 ^ 3 * fec.toNat =
      2 ^ 3 * (2 * (pad.toNat % 16) + fec.toNat) := by omega
  rw [hhigh, ← Nat.two_pow_add_eq_or_of_lt (by omega)]
  have hhigher : 2 ^ 3 * (2 * (pad.toNat % 16) + fec.toNat) + 2 ^ 1 * (rate.toNat % 4) =
      2 ^ 1 * (4 * (2 * (pad.toNat % 16) + fec.toNat) + rate.toNat % 4) := by omega
  rw [hhigher, ← Nat.two_pow_add_eq_or_of_lt (by omega)]

theorem toBits_sharedByte (pad rate : UInt8) (fec : Bool) (seq : UInt16) :
    Lib.Bits.toBits 8 (((pad &&& 0x0F) <<< 4) ||| (fec.toUInt8 <<< 3) |||
      ((rate &&& 0x03) <<< 1) ||| ((seq >>> 11) &&& 0x01).toUInt8).toNat =
        Lib.Bits.toBits 4 pad.toNat ++ ([fec] ++
          (Lib.Bits.toBits 2 rate.toNat ++ Lib.Bits.toBits 1 (seq.toNat / 2 ^ 11))) := by
  have hbit := Bool.toNat_lt fec
  have hflag : [fec] = Lib.Bits.toBits 1 fec.toNat := by cases fec <;> rfl
  rw [toNat_sharedByte, hflag]
  generalize hn : 2 ^ 4 * (pad.toNat % 16) + 2 ^ 3 * fec.toNat + 2 ^ 1 * (rate.toNat % 4) +
    seq.toNat / 2 ^ 11 % 2 = n
  have hpad : Lib.Bits.toBits 4 (n / 2 ^ 4) = Lib.Bits.toBits 4 pad.toNat :=
    toBits_congr (by omega)
  have hfec : Lib.Bits.toBits 1 (n / 2 ^ 3) = Lib.Bits.toBits 1 fec.toNat :=
    toBits_congr (by omega)
  have hrate : Lib.Bits.toBits 2 (n / 2 ^ 1) = Lib.Bits.toBits 2 rate.toNat :=
    toBits_congr (by omega)
  have hseq : Lib.Bits.toBits 1 n = Lib.Bits.toBits 1 (seq.toNat / 2 ^ 11) :=
    toBits_congr (by omega)
  rw [toBits_add 4 4 n, toBits_add 1 3 n, toBits_add 2 1 n, hpad, hfec, hrate, hseq]

/-- The header under the CRC is the header on the wire, and five zeros. -/
theorem bytesToBits_toBytes (h : FrameHeader) :
    bytesToBits h.toBytes = h.toBits ++ List.replicate 5 false := by
  have hlength : Lib.Bits.toBits 16 h.payloadLength.toNat =
      Lib.Bits.toBits 8 (h.payloadLength >>> 8).toUInt8.toNat ++
        Lib.Bits.toBits 8 h.payloadLength.toUInt8.toNat := by
    have hlow : h.payloadLength.toUInt8.toNat = h.payloadLength.toNat % 2 ^ 8 :=
      UInt16.toNat_toUInt8 _
    have hhigh : (h.payloadLength >>> 8).toUInt8.toNat =
        h.payloadLength.toNat / 2 ^ 8 % 2 ^ 8 := by
      rw [UInt16.toNat_toUInt8, UInt16.toNat_shiftRight, Nat.shiftRight_eq_div_pow]
      rfl
    rw [toBits_add 8 8, hlow, hhigh, toBits_mod, toBits_mod]
  have hmiddle : (h.sequenceNumber >>> 3).toUInt8.toNat =
      h.sequenceNumber.toNat / 2 ^ 3 % 2 ^ 8 := by
    rw [UInt16.toNat_toUInt8, UInt16.toNat_shiftRight, Nat.shiftRight_eq_div_pow]
    rfl
  have hlast : ((h.sequenceNumber &&& 0x07) <<< 5).toUInt8.toNat =
      h.sequenceNumber.toNat % 2 ^ 3 * 2 ^ 5 := by
    have hmask : (h.sequenceNumber &&& 0x07).toNat = h.sequenceNumber.toNat % 2 ^ 3 := by
      rw [UInt16.toNat_and]
      exact Nat.and_two_pow_sub_one_eq_mod _ 3
    rw [UInt16.toNat_toUInt8, UInt16.toNat_shiftLeft, hmask, Nat.shiftLeft_eq]
    simp only [UInt16.reduceToNat, Nat.reduceMod]
    omega
  have hseq : Lib.Bits.toBits 12 h.sequenceNumber.toNat =
      Lib.Bits.toBits 1 (h.sequenceNumber.toNat / 2 ^ 11) ++
        (Lib.Bits.toBits 8 (h.sequenceNumber.toNat / 2 ^ 3) ++
          Lib.Bits.toBits 3 h.sequenceNumber.toNat) := by
    rw [toBits_add 1 11, toBits_add 8 3]
  rw [FrameHeader.toBytes, FrameHeader.toBits, hlength, hseq]
  simp only [bytesToBits_cons, bytesToBits_nil]
  rw [toBits_sharedByte, hmiddle, hlast, toBits_mod, toBits_shift 3 _ 5, toBits_mod]
  simp

variable {bits v w : List Bool}

/-- How many whole bytes stand between the header and the CRC. -/
def payloadByteCount (bits : List Bool) : Nat :=
  (bits.length - headerBitCount - crcBitCount) / 8

/-- What the CRC of the bits is taken over. -/
def covered (bits : List Bool) : List UInt8 :=
  (extractHeader bits).toBytes ++ takeBytes (payloadByteCount bits) (bits.drop headerBitCount)

/-- The CRC that the bits carry, at their end. -/
def crcField (bits : List Bool) : UInt32 :=
  UInt32.ofNat (extractBits bits (bits.length - crcBitCount) crcBitCount)

/-- With room for a header and a CRC, the parser reads some fields. -/
theorem parseUnchecked_eq_some (h : headerBitCount + crcBitCount ≤ bits.length) :
    parseUnchecked bits = some ⟨extractHeader bits,
      takeBytes (payloadByteCount bits) (bits.drop headerBitCount), crcField bits, false⟩ := by
  have hcrc : headerBitCount + (bits.length - headerBitCount - crcBitCount) =
      bits.length - crcBitCount := by omega
  unfold parseUnchecked
  rw [if_neg (by omega)]
  dsimp only
  rw [if_neg (by omega), hcrc]
  rfl

theorem parseUnchecked_eq_none (h : bits.length < headerBitCount + crcBitCount) :
    parseUnchecked bits = none := if_pos h

/-- The parser accepts what carries its own CRC. -/
theorem parse_isSome_iff : (parse bits).isSome ↔
    headerBitCount + crcBitCount ≤ bits.length ∧ computeCrc32 (covered bits) = crcField bits := by
  rw [parse_eq]
  rcases Nat.lt_or_ge bits.length (headerBitCount + crcBitCount) with hshort | hlong
  · rw [parseUnchecked_eq_none hshort, Option.bind_none]
    constructor
    · intro h
      cases h
    · intro h
      omega
  · rw [parseUnchecked_eq_some hlong, Option.bind_some]
    have hverify := @verifyCrc_iff ⟨extractHeader bits,
      takeBytes (payloadByteCount bits) (bits.drop headerBitCount), crcField bits, false⟩
    dsimp only [frameCrc] at hverify
    rw [← covered] at hverify
    rw [← hverify]
    split
    · rename_i hvalid
      exact iff_of_true rfl ⟨hlong, hvalid⟩
    · rename_i hinvalid
      constructor
      · intro h
        cases h
      · intro h
        exact absurd h.2 hinvalid

theorem toBits_extractBits {offset count : Nat} (h : offset + count ≤ bits.length) :
    Lib.Bits.toBits count (extractBits bits offset count) = (bits.drop offset).take count := by
  have hlen : ((bits.drop offset).take count).length = count := by
    rw [List.length_take, List.length_drop]
    omega
  have hread := toBits_ofBits ((bits.drop offset).take count)
  rwa [hlen] at hread

/-- The header that was read is written as it was. -/
theorem toBits_extractHeader (h : headerBitCount ≤ bits.length) :
    (extractHeader bits).toBits = bits.take headerBitCount := by
  unfold headerBitCount at h ⊢
  have hlength : Lib.Bits.toBits 16 (UInt16.ofNat (extractBits bits 0 16)).toNat =
      (bits.drop 0).take 16 := by
    rw [UInt16.toNat_ofNat', toBits_mod, toBits_extractBits (by omega)]
  have hpadding : Lib.Bits.toBits 4 (UInt8.ofNat (extractBits bits 16 4)).toNat =
      (bits.drop 16).take 4 := by
    rw [UInt8.toNat_ofNat', toBits_mod_of_le (by decide), toBits_extractBits (by omega)]
  have henabled : [decide (extractBits bits 20 1 ≠ 0)] = (bits.drop 20).take 1 := by
    rw [← toBits_extractBits (by omega)]
    have hflag : extractBits bits 20 1 < 2 := by
      have hlt := ofBits_lt ((bits.drop 20).take 1)
      rw [List.length_take, List.length_drop, Nat.min_eq_left (by omega)] at hlt
      exact hlt
    generalize extractBits bits 20 1 = flag at hflag
    interval_cases flag <;> rfl
  have hrate : Lib.Bits.toBits 2 (UInt8.ofNat (extractBits bits 21 2)).toNat =
      (bits.drop 21).take 2 := by
    rw [UInt8.toNat_ofNat', toBits_mod_of_le (by decide), toBits_extractBits (by omega)]
  have hseq : Lib.Bits.toBits 12 (UInt16.ofNat (extractBits bits 23 12)).toNat =
      (bits.drop 23).take 12 := by
    rw [UInt16.toNat_ofNat', toBits_mod_of_le (by decide), toBits_extractBits (by omega)]
  have hsplit : bits.take 35 = (bits.drop 0).take 16 ++ ((bits.drop 16).take 4 ++
      ((bits.drop 20).take 1 ++ ((bits.drop 21).take 2 ++ (bits.drop 23).take 12))) := by
    have h₁ : bits.take 35 = bits.take 16 ++ (bits.drop 16).take 19 :=
      @List.take_add _ bits 16 19
    have h₂ : (bits.drop 16).take 19 = (bits.drop 16).take 4 ++ (bits.drop 20).take 15 := by
      rw [← List.drop_drop (i := 4) (j := 16)]
      exact @List.take_add _ (bits.drop 16) 4 15
    have h₃ : (bits.drop 20).take 15 = (bits.drop 20).take 1 ++ (bits.drop 21).take 14 := by
      rw [← List.drop_drop (i := 1) (j := 20)]
      exact @List.take_add _ (bits.drop 20) 1 14
    have h₄ : (bits.drop 21).take 14 = (bits.drop 21).take 2 ++ (bits.drop 23).take 12 := by
      rw [← List.drop_drop (i := 2) (j := 21)]
      exact @List.take_add _ (bits.drop 21) 2 12
    rw [List.drop_zero, h₁, h₂, h₃, h₄]
  rw [hsplit, ← hlength, ← hpadding, ← henabled, ← hrate, ← hseq]
  rfl

/-- The bytes under the CRC are the bits on the wire, with five zeros after
the header, and without the payload bits beyond the last whole byte. -/
theorem bytesToBits_covered (h : headerBitCount + crcBitCount ≤ bits.length) :
    bytesToBits (covered bits) = bits.take headerBitCount ++ (List.replicate 5 false ++
      (bits.drop headerBitCount).take (8 * payloadByteCount bits)) := by
  have hwhole : ((bits.drop headerBitCount).take (8 * payloadByteCount bits)).length =
      8 * payloadByteCount bits := by
    rw [List.length_take, List.length_drop, payloadByteCount]
    omega
  rw [covered, bytesToBits_append, bytesToBits_toBytes, toBits_extractHeader (by omega),
    List.append_assoc, ← takeBytes_take, bytesToBits_takeBytes hwhole]

/-! ## Two vectors -/

/-- The bit belongs to the header, to a whole payload byte or to the CRC. Of
the payload bits, up to seven beyond the last whole byte do not: the parser
skips them. -/
def IsRead (length i : Nat) : Prop :=
  i < headerBitCount + 8 * ((length - headerBitCount - crcBitCount) / 8) ∨
    length - crcBitCount ≤ i

/-- Where a bit of the header or the payload stands in the bytes under the
CRC. -/
def coveredIndex (i : Nat) : Nat := if i < headerBitCount then i else i + 5

theorem getElem?_covered (h : headerBitCount + crcBitCount ≤ bits.length) {i : Nat}
    (hi : i < headerBitCount + 8 * payloadByteCount bits) :
    (bytesToBits (covered bits))[coveredIndex i]? = bits[i]? := by
  have hheader : (bits.take headerBitCount).length = headerBitCount := by
    rw [List.length_take]
    omega
  rw [bytesToBits_covered h, coveredIndex]
  split
  · rename_i hlow
    rw [List.getElem?_append_left (by omega), List.getElem?_take, if_pos hlow]
  · rename_i hhigh
    have hoffset : headerBitCount + (i + 5 - headerBitCount - 5) = i := by omega
    rw [List.getElem?_append_right (by omega), hheader, List.getElem?_append_right (by simp; omega),
      List.length_replicate, List.getElem?_take, if_pos (by omega), List.getElem?_drop, hoffset]

theorem length_covered (h : headerBitCount + crcBitCount ≤ bits.length) :
    8 * (covered bits).length = 40 + 8 * payloadByteCount bits := by
  have hlen := congrArg List.length (bytesToBits_covered h)
  rw [length_bytesToBits, List.length_append, List.length_append, List.length_take,
    List.length_take, List.length_drop, List.length_replicate] at hlen
  unfold payloadByteCount headerBitCount crcBitCount at *
  omega

/-- The bits under the CRC that are not on the wire are zeros. -/
theorem getElem?_covered_padding (h : headerBitCount + crcBitCount ≤ bits.length) {i : Nat}
    (hlow : headerBitCount ≤ i) (hhigh : i < headerBitCount + 5) :
    (bytesToBits (covered bits))[i]? = some false := by
  have hheader : (bits.take headerBitCount).length = headerBitCount := by
    rw [List.length_take]
    omega
  rw [bytesToBits_covered h, List.getElem?_append_right (by omega), hheader,
    List.getElem?_append_left (by simp; omega), List.getElem?_replicate, if_pos (by omega)]

theorem payloadByteCount_congr (hlen : w.length = v.length) :
    payloadByteCount w = payloadByteCount v := by
  rw [payloadByteCount, payloadByteCount, hlen]

/-- A byte under the CRC differs only if one of its bits on the wire does. -/
theorem covered_congr (hlong : headerBitCount + crcBitCount ≤ v.length)
    (hlen : w.length = v.length) {j : Nat}
    (h : ∀ i < headerBitCount + 8 * payloadByteCount v, coveredIndex i / 8 = j → v[i]? = w[i]?) :
    (covered v)[j]? = (covered w)[j]? := by
  have hlong' : headerBitCount + crcBitCount ≤ w.length := by omega
  have hcount := payloadByteCount_congr hlen
  have hlength := length_covered hlong
  have hlength' := length_covered hlong'
  apply getElem?_eq_of_bits (by omega)
  intro t ht
  rcases Nat.lt_or_ge t headerBitCount with hheader | hpast
  · -- a bit of the header
    have hindex : coveredIndex t = t := if_pos hheader
    have hv := getElem?_covered hlong (by omega : t < headerBitCount + 8 * payloadByteCount v)
    have hw := getElem?_covered hlong' (by omega : t < headerBitCount + 8 * payloadByteCount w)
    rw [hindex] at hv hw
    rw [hv, hw]
    exact h t (by omega) (by rw [hindex, ht])
  · rcases Nat.lt_or_ge t (headerBitCount + 5) with hpadding | hpayload
    · rw [getElem?_covered_padding hlong hpast hpadding,
        getElem?_covered_padding hlong' hpast hpadding]
    · rcases Nat.lt_or_ge (t - 5) (headerBitCount + 8 * payloadByteCount v) with hinside | hbeyond
      · -- a bit of the payload
        have hindex : coveredIndex (t - 5) = t := by
          rw [coveredIndex, if_neg (by omega)]
          omega
        have hv := getElem?_covered hlong hinside
        have hw := getElem?_covered hlong' (by omega :
          t - 5 < headerBitCount + 8 * payloadByteCount w)
        rw [hindex] at hv hw
        rw [hv, hw]
        exact h (t - 5) hinside (by rw [hindex, ht])
      · unfold headerBitCount at hbeyond
        rw [List.getElem?_eq_none (by rw [length_bytesToBits]; omega),
          List.getElem?_eq_none (by rw [length_bytesToBits]; omega)]

theorem crcField_congr (hlen : w.length = v.length)
    (h : ∀ i, v.length - crcBitCount ≤ i → v[i]? = w[i]?) :
    crcField v = crcField w := by
  have hbits : v.drop (v.length - crcBitCount) = w.drop (w.length - crcBitCount) := by
    apply List.ext_getElem?
    intro i
    rw [List.getElem?_drop, List.getElem?_drop, hlen]
    exact h _ (by omega)
  rw [crcField, crcField, extractBits, extractBits, hbits]

/-- The bytes under the CRC and the CRC tell every bit that is read. -/
theorem read_eq (hlong : headerBitCount + crcBitCount ≤ v.length) (hlen : w.length = v.length)
    (hcovered : covered v = covered w) (hcrc : crcField v = crcField w) {i : Nat}
    (hi : IsRead v.length i) : v[i]? = w[i]? := by
  have hlong' : headerBitCount + crcBitCount ≤ w.length := by omega
  have hcount := payloadByteCount_congr hlen
  rcases hi with hi | hi
  · have hi : i < headerBitCount + 8 * payloadByteCount v := hi
    rw [← getElem?_covered hlong hi, hcovered, getElem?_covered hlong' (by rw [hcount]; exact hi)]
  · have hfield : ∀ bits : List Bool, crcBitCount ≤ bits.length →
        Lib.Bits.toBits crcBitCount (crcField bits).toNat =
          (bits.drop (bits.length - crcBitCount)).take crcBitCount := by
      intro bits hbits
      rw [← toBits_extractBits (by omega), crcField, UInt32.toNat_ofNat']
      exact toBits_mod 32 _
    have hbits := hfield v (by omega)
    rw [hcrc, hfield w (by omega), hlen] at hbits
    have hbit := congrArg (·[i - (v.length - crcBitCount)]?) hbits
    have hindex : v.length - crcBitCount + (i - (v.length - crcBitCount)) = i := by omega
    by_cases hend : i < v.length
    · rw [List.getElem?_take, List.getElem?_take, if_pos (by omega), if_pos (by omega),
        List.getElem?_drop, List.getElem?_drop, hindex] at hbit
      exact hbit.symm
    · rw [List.getElem?_eq_none (by omega), List.getElem?_eq_none (by omega)]

/-! ## What is detected -/

/-- Errors of the kinds that the CRC is meant for, among the bits that are
read: within four consecutive bytes under the CRC, in the CRC alone, or in a
single bit. -/
inductive Burst (v w : List Bool) : Prop where
  | window (k : Nat) (hcrc : crcField v = crcField w)
      (hwindow : ∀ i, (covered v)[i]? ≠ (covered w)[i]? → k ≤ i ∧ i < k + 4)
  | crc (h : ∀ i, IsRead v.length i → v[i]? ≠ w[i]? → v.length - crcBitCount ≤ i)
  | single (i : Nat) (h : ∀ j, IsRead v.length j → v[j]? ≠ w[j]? → j = i)

/-- Under the same CRC, a burst in the bytes it is taken over is rejected. -/
theorem parse_eq_none_of_window (haccepted : (parse v).isSome) (hlen : w.length = v.length)
    (hdiffer : ∃ i, IsRead v.length i ∧ v[i]? ≠ w[i]?) (hcrc : crcField v = crcField w) {k : Nat}
    (hwindow : ∀ i, (covered v)[i]? ≠ (covered w)[i]? → k ≤ i ∧ i < k + 4) : parse w = none := by
  obtain ⟨hlong, hvalid⟩ := parse_isSome_iff.mp haccepted
  by_contra hparsed
  obtain ⟨hlong', hvalid'⟩ := parse_isSome_iff.mp (Option.isSome_iff_ne_none.mpr hparsed)
  have hlength := length_covered hlong
  have hlength' := length_covered hlong'
  rw [payloadByteCount_congr hlen] at hlength'
  have hsame : covered v = covered w :=
    computeCrc32_burst (by omega) hwindow (by rw [hvalid, hvalid', hcrc])
  obtain ⟨i, hread, hne⟩ := hdiffer
  exact hne (read_eq hlong hlen hsame hcrc hread)

/-- A CRC that has changed alone is rejected. -/
theorem parse_eq_none_of_crc (haccepted : (parse v).isSome) (hlen : w.length = v.length)
    (hdiffer : ∃ i, IsRead v.length i ∧ v[i]? ≠ w[i]?)
    (hcrc : ∀ i, IsRead v.length i → v[i]? ≠ w[i]? → v.length - crcBitCount ≤ i) :
    parse w = none := by
  obtain ⟨hlong, hvalid⟩ := parse_isSome_iff.mp haccepted
  by_contra hparsed
  obtain ⟨hlong', hvalid'⟩ := parse_isSome_iff.mp (Option.isSome_iff_ne_none.mpr hparsed)
  have hsame : covered v = covered w := by
    apply List.ext_getElem?
    intro j
    apply covered_congr hlong hlen
    intro i hi _
    by_contra hne
    have := hcrc i (.inl hi) hne
    unfold payloadByteCount at hi
    omega
  obtain ⟨i, hread, hne⟩ := hdiffer
  exact hne (read_eq hlong hlen hsame (by rw [← hvalid, ← hvalid', hsame]) hread)

/-- **Burst detection.** What differs from an accepted vector by such an error
in the bits that the parser reads is rejected. -/
theorem burst_detected (haccepted : (parse v).isSome) (hlen : w.length = v.length)
    (hdiffer : ∃ i, IsRead v.length i ∧ v[i]? ≠ w[i]?) (hburst : Burst v w) : parse w = none := by
  cases hburst with
  | window k hcrc hwindow => exact parse_eq_none_of_window haccepted hlen hdiffer hcrc hwindow
  | crc h => exact parse_eq_none_of_crc haccepted hlen hdiffer h
  | single i h =>
      obtain ⟨hlong, -⟩ := parse_isSome_iff.mp haccepted
      by_cases hcrc : v.length - crcBitCount ≤ i
      · apply parse_eq_none_of_crc haccepted hlen hdiffer
        intro j hread hne
        rw [h j hread hne]
        exact hcrc
      · -- the bit lies in one of the bytes under the CRC
        have hsame : crcField v = crcField w := by
          apply crcField_congr hlen
          intro j hj
          by_contra hne
          have := h j (.inr hj) hne
          omega
        apply parse_eq_none_of_window haccepted hlen hdiffer hsame (k := coveredIndex i / 8)
        intro j hne
        by_contra hother
        apply hne
        apply covered_congr hlong hlen
        intro t ht hindex
        by_contra hbit
        have := h t (.inl ht) hbit
        subst this
        omega

/-- A frame with the CRC of the payload 1, 2, 3, 4, 5, 6. -/
def sixBytes (payload : List UInt8) : List Bool :=
  frameBits { payloadLength := 6 } payload (frameCrc { payloadLength := 6 } [1, 2, 3, 4, 5, 6])

/-- Four bytes of the payload in a row changed, and the first bit of all. -/
theorem burst_detected_sixBytes :
    parse (sixBytes [1, 0xFD, 0, 0xFF, 0xFA, 6]) = none ∧
      parse ((sixBytes [1, 2, 3, 4, 5, 6]).set 0 true) = none := by
  have haccepted : (parse (sixBytes [1, 2, 3, 4, 5, 6])).isSome := by decide +kernel
  have hlength : (sixBytes [1, 2, 3, 4, 5, 6]).length = 115 := by decide +kernel
  constructor
  · apply burst_detected haccepted
    · rw [hlength]
      decide +kernel
    · refine ⟨43, ?_, by decide +kernel⟩
      rw [hlength]
      exact .inl (by decide)
    · refine Burst.window 6 (by decide +kernel) fun i hne => ?_
      have hbytes : ∀ i < 11, (covered (sixBytes [1, 2, 3, 4, 5, 6]))[i]? ≠
          (covered (sixBytes [1, 0xFD, 0, 0xFF, 0xFA, 6]))[i]? → 6 ≤ i ∧ i < 6 + 4 := by
        decide +kernel
      refine hbytes i ?_ hne
      by_contra hi
      apply hne
      have hv : (covered (sixBytes [1, 2, 3, 4, 5, 6])).length = 11 := by decide +kernel
      have hw : (covered (sixBytes [1, 0xFD, 0, 0xFF, 0xFA, 6])).length = 11 := by decide +kernel
      rw [List.getElem?_eq_none (by omega), List.getElem?_eq_none (by omega)]
  · apply burst_detected haccepted
    · rw [List.length_set]
    · refine ⟨0, ?_, by decide +kernel⟩
      rw [hlength]
      exact .inl (by decide)
    · refine Burst.single 0 fun j _ hne => ?_
      by_contra hj
      exact hne (List.getElem?_set_ne (Ne.symm hj)).symm

/-- A frame without payload, with one bit between its header and its CRC. -/
def frameWithBit (bit : Bool) : List Bool :=
  FrameHeader.toBits {} ++ bit :: Lib.Bits.toBits 32 (frameCrc {} []).toNat

/-- That one bit may change: it is the only one in which these two vectors
differ, and the parser accepts both. -/
theorem parse_skips_bit :
    (parse (frameWithBit false)).isSome ∧ (parse (frameWithBit true)).isSome ∧
      (frameWithBit true).length = (frameWithBit false).length ∧
      crcField (frameWithBit false) = crcField (frameWithBit true) ∧
      covered (frameWithBit false) = covered (frameWithBit true) ∧
      ∀ i, (frameWithBit false)[i]? ≠ (frameWithBit true)[i]? ↔ i = 35 := by
  refine ⟨by decide +kernel, by decide +kernel, rfl, by decide +kernel, by decide +kernel, ?_⟩
  intro i
  have hheader : (FrameHeader.toBits {}).length = 35 := FrameHeader.length_toBits _
  unfold frameWithBit
  constructor
  · intro hne
    by_contra hi
    apply hne
    rcases Nat.lt_or_ge i 35 with hlow | hhigh
    · rw [List.getElem?_append_left (by omega), List.getElem?_append_left (by omega)]
    · obtain ⟨j, hj⟩ : ∃ j, i - 35 = j + 1 := ⟨i - 36, by omega⟩
      rw [List.getElem?_append_right (by omega), List.getElem?_append_right (by omega), hheader,
        hj, List.getElem?_cons_succ, List.getElem?_cons_succ]
  · intro hi
    rw [hi, List.getElem?_append_right (by omega), List.getElem?_append_right (by omega), hheader]
    simp

end QpskB210.Modem
