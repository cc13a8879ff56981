import QpskB210.Modem.FecDecoder

/-!
# Modem — FecRoundTrip

What the encoder puts out comes back. The input bits are a path that costs
nothing; every step keeps one output bit at least, and both outputs change
with the input bit, so no other path costs nothing.
-/

namespace QpskB210.Modem

open QpskB210.Lib QpskB210.Lib.Bits

/-! ## Received without error -/

/-- The output bit at this position reaches the receiver. -/
def keeps : CodeRate → Nat → Bool
  | .rate12, _ => true
  | .rate34, i => kept i

/-- The output bits from position `i` on, with erasures for what is not
kept. -/
def erased (rate : CodeRate) : Nat → List Bool → List (Option Bool)
  | _, [] => []
  | i, bit :: bits => (if keeps rate i then some bit else none) :: erased rate (i + 1) bits

theorem erased_rate12 (i : Nat) (bits : List Bool) : erased .rate12 i bits = bits.map some := by
  induction bits generalizing i with
  | nil => rfl
  | cons bit bits ih => rw [erased, ih, List.map_cons]; rfl

theorem depuncture_puncture (i : Nat) (bits : List Bool) :
    depuncture i bits.length (puncture i bits) = erased .rate34 i bits := by
  induction bits generalizing i with
  | nil => rfl
  | cons bit bits ih =>
      rw [List.length_cons, depuncture, puncture, erased, keeps]
      cases kept i with
      | true =>
          rw [if_pos rfl, if_pos rfl, if_pos rfl, List.head?_cons, List.tail_cons, ih]
      | false => rw [if_neg (by decide), if_neg (by decide), if_neg (by decide), ih]

theorem take_bytesToBits_encode (e : FecEncoder) (data : List UInt8) :
    (bytesToBits (e.encode data)).take (codedBitCount e.codeRate data.length) =
      codedBits e.codeRate data := by
  rw [FecEncoder.encode, bytesToBits_packBits, List.take_left' (length_codedBits _ data)]

/-- The decoder runs on the encoder's output bits. -/
theorem depunctured_encode (e : FecEncoder) (data : List UInt8) :
    depunctured e.codeRate (e.encode data) data.length =
      erased e.codeRate 0 (convolve 0 (inputBits data)) := by
  unfold depunctured
  rw [take_bytesToBits_encode]
  cases e.codeRate with
  | rate12 => exact (erased_rate12 0 _).symm
  | rate34 =>
      have hlen : rateHalfBits data.length = (convolve 0 (inputBits data)).length := by
        rw [length_convolve, length_inputBits, rateHalfBits]
      dsimp only [codedBits]
      rw [hlen, depuncture_puncture]

/-! ## The path sent -/

variable {rate : CodeRate} {i : Nat}

theorem mismatch_self (keep : Bool) (bit : Bool) :
    mismatch (if keep then some bit else none) bit = 0 := by
  cases keep <;> simp [mismatch]

/-- The encoder's own input costs nothing. -/
theorem pathCost_erased_convolve (rate : CodeRate) (i : Nat) (reg : Register) (bits : List Bool) :
    Trellis.pathCost shiftIn reg
      ((receivedPairs (erased rate i (convolve reg bits))).map branchMetric) bits = 0 := by
  induction bits generalizing i reg with
  | nil => rfl
  | cons bit bits ih =>
      rw [convolve, erased, erased, receivedPairs, List.map_cons, Trellis.pathCost_cons, ih,
        branchMetric, mismatch_self, mismatch_self]

theorem length_receivedPairs_erased (rate : CodeRate) (i : Nat) (reg : Register)
    (bits : List Bool) :
    (receivedPairs (erased rate i (convolve reg bits))).length = bits.length := by
  induction bits generalizing i reg with
  | nil => rfl
  | cons bit bits ih =>
      rw [convolve, erased, erased, receivedPairs, List.length_cons, ih, List.length_cons]

/-! ## No other path -/

/-- Of the two outputs of a step, the pattern keeps one at least. -/
theorem keeps_pair (rate : CodeRate) (heven : i % 2 = 0) : keeps rate i ∨ keeps rate (i + 1) := by
  cases rate with
  | rate12 => exact Or.inl rfl
  | rate34 =>
      have hcases : i % 6 = 0 ∨ (i + 1) % 6 = 3 ∨ i % 6 = 4 := by omega
      simp only [keeps, kept, puncturePeriod]
      rcases hcases with h | h | h
      · exact Or.inl (by rw [h]; rfl)
      · exact Or.inr (by rw [h]; rfl)
      · exact Or.inl (by rw [h]; rfl)

theorem eq_of_mismatch_zero {rx : Option Bool} (hrx : rx.isSome) {out : Bool}
    (h : mismatch rx out = 0) : rx = some out := by
  obtain ⟨bit, rfl⟩ := Option.isSome_iff_exists.mp hrx
  rw [mismatch, ite_eq_right_iff] at h
  rw [Classical.not_not.mp fun hne => absurd (h hne) (by decide)]

/-- A step with a received bit tells the two input bits apart. -/
theorem branchMetric_separates {rx : Option Bool × Option Bool}
    (hrx : rx.1.isSome ∨ rx.2.isSome) {s : Register} {bit bit' : Bool}
    (h : branchMetric rx s bit = 0) (h' : branchMetric rx s bit' = 0) : bit = bit' := by
  by_contra hne
  -- the other bit gives the other parity in both outputs, one of which was received
  have hnot : bit' = !bit := Bool.eq_not.mpr (Ne.symm hne)
  obtain ⟨hgen0, hgen1⟩ := parity_shiftIn_not s bit
  rw [branchMetric, Nat.add_eq_zero_iff] at h h'
  rw [hnot, hgen0, hgen1] at h'
  rcases hrx with hrx | hrx
  · have := (eq_of_mismatch_zero hrx h.1).symm.trans (eq_of_mismatch_zero hrx h'.1)
    simp at this
  · have := (eq_of_mismatch_zero hrx h.2).symm.trans (eq_of_mismatch_zero hrx h'.2)
    simp at this

theorem isSome_of_mem_receivedPairs (heven : i % 2 = 0) {reg : Register} {bits : List Bool}
    {rx : Option Bool × Option Bool}
    (hrx : rx ∈ receivedPairs (erased rate i (convolve reg bits))) :
    rx.1.isSome ∨ rx.2.isSome := by
  induction bits generalizing i reg with
  | nil => cases hrx
  | cons bit bits ih =>
      rw [convolve, erased, erased, receivedPairs] at hrx
      rcases List.mem_cons.mp hrx with rfl | hrx
      · rcases keeps_pair rate heven with h | h
        · left
          rw [if_pos h]
          rfl
        · right
          rw [if_pos h]
          rfl
      · exact ih (by omega) hrx

/-! ## The round trip -/

/-- The traceback reads the encoder's input, tail and all. -/
theorem decodedBits_convolve (rate : CodeRate) {bits : List Bool}
    (hlen : 2 * bits.length < infMetric) :
    decodedBits (receivedPairs (erased rate 0 (convolve 0 bits))) = bits := by
  have hpairs := length_receivedPairs_erased rate 0 0 bits
  -- the path sent costs nothing
  have hsent : pathMetric (receivedPairs (erased rate 0 (convolve 0 bits))) bits = 0 :=
    pathCost_erased_convolve rate 0 0 bits
  -- so does what the decoder reads, which is no dearer
  have hread := decodedBits_optimal (by rw [hpairs]; exact hlen) hpairs.symm
  rw [hsent, Nat.le_zero] at hread
  have hsep : ∀ cost ∈ (receivedPairs (erased rate 0 (convolve 0 bits))).map branchMetric,
      ∀ s bit bit', cost s bit = 0 → cost s bit' = 0 → bit = bit' := by
    intro cost hmem s bit bit' h h'
    obtain ⟨rx, hrx, rfl⟩ := List.mem_map.mp hmem
    exact branchMetric_separates (isSome_of_mem_receivedPairs rfl hrx) h h'
  apply Trellis.eq_of_pathCost_zero hsep _ _ hread hsent
  · rw [length_decodedBits, List.length_map]
  · rw [List.length_map, hpairs]

/-- `decode` gives back what `encode` was given. -/
theorem decodedBytes_encode (e : FecEncoder) {data : List UInt8} (hdata : data.length ≤ 65535) :
    decodedBytes e.codeRate (e.encode data) data.length = data := by
  have hbound : 2 * (inputBits data).length < infMetric := by
    rw [length_inputBits]
    unfold tailBits infMetric
    omega
  have hlen : data.length * 8 = (bytesToBits data).length := by
    rw [length_bytesToBits, Nat.mul_comm]
  have hcount : ((bytesToBits data).length + 7) / 8 = data.length := by
    rw [length_bytesToBits]
    omega
  simp only [decodedBytes]
  rw [depunctured_encode, decodedBits_convolve _ hbound, inputBits, hlen, List.take_left, hcount]
  have h := takeBytes_bytesToBits data []
  rwa [List.append_nil] at h

theorem differingBits_self (bytes : List UInt8) : differingBits bytes bytes = 0 := by
  have hnone : (toBits 8 0).count true = 0 := rfl
  simp [differingBits, List.zipWith_self, hnone]

/-- Decoding what was encoded corrects nothing, so the counter stays. -/
theorem FecDecoder.decode_encode (d : FecDecoder) {data : List UInt8}
    (hdata : data.length ≤ 65535) :
    d.decode (FecEncoder.encode ⟨d.codeRate⟩ data) data.length = (data, d) := by
  have houtput := decodedBytes_encode ⟨d.codeRate⟩ hdata
  have hnone : d.correctedErrors + UInt64.ofNat 0 = d.correctedErrors := UInt64.add_zero _
  dsimp only at houtput
  simp only [decode]
  rw [houtput, differingBits_self, hnone]

/-- **FEC round trip.** At either rate, what the encoder puts out has the
length it announces, and the decoder gives the payload back with its counter
as it was. -/
theorem fec_round_trip (rate : CodeRate) (correctedErrors : UInt64) {data : List UInt8}
    (hdata : data.length ≤ 65535) :
    (FecEncoder.encode ⟨rate⟩ data).length = FecEncoder.codedLength ⟨rate⟩ data.length ∧
      FecDecoder.decode ⟨rate, correctedErrors⟩ (FecEncoder.encode ⟨rate⟩ data) data.length =
        (data, ⟨rate, correctedErrors⟩) :=
  ⟨FecEncoder.length_encode ⟨rate⟩ data, FecDecoder.decode_encode ⟨rate, correctedErrors⟩ hdata⟩

/-- Two bytes, at both rates. -/
theorem fec_round_trip_twoBytes :
    FecDecoder.decode ⟨.rate12, 3⟩ (FecEncoder.encode ⟨.rate12⟩ [0x67, 0xFE]) 2 =
        ([0x67, 0xFE], ⟨.rate12, 3⟩) ∧
      FecDecoder.decode ⟨.rate34, 0⟩ (FecEncoder.encode ⟨.rate34⟩ [0x67, 0xFE]) 2 =
        ([0x67, 0xFE], ⟨.rate34, 0⟩) ∧
      (FecEncoder.encode ⟨.rate34⟩ [0x67, 0xFE]).length = FecEncoder.codedLength ⟨.rate34⟩ 2 :=
  ⟨(@fec_round_trip .rate12 3 [0x67, 0xFE] (by decide)).2,
    (@fec_round_trip .rate34 0 [0x67, 0xFE] (by decide)).2,
    (@fec_round_trip .rate34 0 [0x67, 0xFE] (by decide)).1⟩

end QpskB210.Modem
