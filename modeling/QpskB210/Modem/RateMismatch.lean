import QpskB210.Modem.CodecRoundTrip

/-!
# Modem — RateMismatch

The header tells the receiver whether the payload is coded and how long it
is, but the FEC decoder runs at the rate the receiver is configured with. At
another rate than the sender's it fails on some payload of every length but
zero. From 1/2 to 3/4 it does not look at the end of the coded bits, so the
last payload bit is lost; from 3/4 to 1/2 the coded bits run out before the
payload does. For the shortest payloads another path is cheaper.
-/

namespace QpskB210.Modem

open QpskB210.Lib.Bits

/-! ## From 1/2 to 3/4 -/

theorem puncturedCount_le (n : Nat) : 3 * puncturedCount n ≤ 2 * n + 2 := by
  have hpattern : ∀ r < 6, 3 * (puncturePattern.take r).count true ≤ 2 * r + 2 := by decide
  have hr := hpattern (n % 6) (Nat.mod_lt n (by decide))
  unfold puncturedCount puncturePeriod
  omega

/-- A decoder at 3/4 sees no more of the coded bits than this. -/
theorem decodedBytes_congr {coded coded' : List UInt8} {n : Nat}
    (h : (bytesToBits coded).take (codedBitCount .rate34 n) =
      (bytesToBits coded').take (codedBitCount .rate34 n)) :
    decodedBytes .rate34 coded n = decodedBytes .rate34 coded' n := by
  unfold decodedBytes depunctured
  rw [h]

/-- Payloads of `n` bytes that differ in the last bit. -/
def lastBit (n : Nat) (byte : UInt8) : List UInt8 := List.replicate (n - 1) 0 ++ [byte]

theorem length_lastBit {n : Nat} (hpos : 0 < n) (byte : UInt8) : (lastBit n byte).length = n := by
  rw [lastBit, List.length_append, List.length_replicate, List.length_singleton]
  omega

/-- All bits but the last, which the coded bits of both begin with. -/
def commonBits (n : Nat) : List Bool := bytesToBits (List.replicate (n - 1) 0) ++ toBits 7 0

theorem inputBits_lastBit (n : Nat) {byte : UInt8} {bit : Bool}
    (hbyte : toBits 8 byte.toNat = toBits 7 0 ++ [bit]) :
    inputBits (lastBit n byte) = commonBits n ++ (bit :: List.replicate tailBits false) := by
  rw [inputBits, lastBit, bytesToBits_append, bytesToBits_cons, hbyte, commonBits]
  simp

/-- Up to the last payload bit, the coded bits do not depend on it. -/
theorem take_encode_lastBit {n k : Nat} (hk : k ≤ 16 * n - 2) (hpos : 0 < n) (byte : UInt8)
    (bit : Bool) (hbyte : toBits 8 byte.toNat = toBits 7 0 ++ [bit]) :
    (bytesToBits (FecEncoder.encode ⟨.rate12⟩ (lastBit n byte))).take k =
      (convolve 0 (commonBits n)).take k := by
  have hlen : k ≤ (convolve 0 (commonBits n)).length := by
    rw [length_convolve, commonBits, List.length_append, length_bytesToBits, length_toBits,
      List.length_replicate]
    omega
  rw [FecEncoder.encode, bytesToBits_packBits, codedBits, inputBits_lastBit n hbyte,
    convolve_append, List.append_assoc, List.take_append_of_le_length hlen]

/-- Two payloads look the same to the receiver, so it gets one of them wrong. -/
theorem exists_not_decoded_at34 {n : Nat} (hn : 2 ≤ n) :
    ∃ payload : List UInt8, payload.length = n ∧
      decodedBytes .rate34 (FecEncoder.encode ⟨.rate12⟩ payload) n ≠ payload := by
  have hcount : codedBitCount .rate34 n ≤ 16 * n - 2 := by
    have := puncturedCount_le (rateHalfBits n)
    unfold rateHalfBits tailBits at this
    unfold codedBitCount rateHalfBits tailBits
    dsimp only
    omega
  have hzero := take_encode_lastBit hcount (by omega) 0 false rfl
  have hone := take_encode_lastBit hcount (by omega) 1 true rfl
  -- the receiver's pattern ends before the last payload bit comes in
  have hsame := decodedBytes_congr (hzero.trans hone.symm)
  by_contra hall
  push Not at hall
  have h0 := hall (lastBit n 0) (length_lastBit (by omega) 0)
  have h1 := hall (lastBit n 1) (length_lastBit (by omega) 1)
  rw [← hsame, h0] at h1
  exact absurd (List.append_cancel_left h1) (by decide)

/-! ## From 3/4 to 1/2 -/

theorem count_ones (n : Nat) : (bytesToBits (List.replicate n 255)).count true = 8 * n := by
  induction n with
  | zero => rfl
  | succ n ih =>
      have hbyte : (toBits 8 (255 : UInt8).toNat).count true = 8 := by decide
      rw [List.replicate_succ, bytesToBits_cons, List.count_append, ih, hbyte]
      omega

/-- The output has no more ones than the decoder ran steps. -/
theorem count_decodedBytes_le (rate : CodeRate) (coded : List UInt8) (n : Nat) :
    (bytesToBits (decodedBytes rate coded n)).count true ≤
      (receivedPairs (depunctured rate coded n)).length := by
  apply Nat.le_trans (count_takeBytes_le _ _)
  rw [List.length_take, length_decodedBits]
  exact Nat.min_le_right ..

/-- Where the coded bits run out before the payload, no payload of ones comes
back. -/
theorem decodedBytes_ne_ones {coded : List UInt8} {n : Nat} (hshort : coded.length < 2 * n) :
    decodedBytes .rate12 coded n ≠ List.replicate n 255 := by
  intro heq
  have hones := count_decodedBytes_le .rate12 coded n
  rw [heq, count_ones, length_receivedPairs, depunctured, List.length_map, List.length_take,
    length_bytesToBits] at hones
  omega

/-- From three bytes on, the coded bits do run out. -/
theorem exists_not_decoded_at12 {n : Nat} (hn : 3 ≤ n) :
    ∃ payload : List UInt8, payload.length = n ∧
      decodedBytes .rate12 (FecEncoder.encode ⟨.rate34⟩ payload) n ≠ payload := by
  refine ⟨List.replicate n 255, List.length_replicate, decodedBytes_ne_ones ?_⟩
  have := puncturedCount_le (rateHalfBits n)
  rw [FecEncoder.length_encode, List.length_replicate, FecEncoder.codedLength]
  unfold rateHalfBits tailBits at this
  dsimp only [codedBitCount, rateHalfBits, tailBits]
  omega

/-! ## The shortest payloads -/

/-- Every path that begins with the payload is dearer than this one. -/
def Outbids (cheaper : List Bool) (rate : CodeRate) (coded payload : List UInt8) : Prop :=
  let pairs := receivedPairs (depunctured rate coded payload.length)
  let tail := pairs.length - 8 * payload.length
  2 * pairs.length < infMetric ∧ cheaper.length = pairs.length ∧
    8 * payload.length ≤ pairs.length ∧
    ∀ k < 2 ^ tail,
      pathMetric pairs cheaper < pathMetric pairs (bytesToBits payload ++ toBits tail k)

instance (cheaper : List Bool) (rate : CodeRate) (coded payload : List UInt8) :
    Decidable (Outbids cheaper rate coded payload) := by
  unfold Outbids
  infer_instance

theorem Outbids.not_decoded {cheaper : List Bool} {rate : CodeRate} {coded payload : List UInt8}
    (h : Outbids cheaper rate coded payload) :
    decodedBytes rate coded payload.length ≠ payload := by
  intro heq
  obtain ⟨hlen, hcheaper, hroom, hdearer⟩ := h
  unfold decodedBytes at heq
  dsimp only at heq
  generalize receivedPairs (depunctured rate coded payload.length) = pairs at *
  have hread := decodedBits_optimal hlen hcheaper
  have hlast := length_decodedBits pairs
  have hfirst : ((decodedBits pairs).take (payload.length * 8)).length = 8 * payload.length := by
    rw [List.length_take]
    omega
  have hcount : (8 * payload.length + 7) / 8 = payload.length := by omega
  have hbits := bytesToBits_takeBytes hfirst
  rw [hfirst, hcount] at heq
  rw [heq] at hbits
  -- the path read begins with the payload, so it is one of the dear ones
  have hrest : ((decodedBits pairs).drop (payload.length * 8)).length =
      pairs.length - 8 * payload.length := by
    rw [List.length_drop]
    omega
  have hpath := hdearer (ofBits ((decodedBits pairs).drop (payload.length * 8)))
    (by rw [← hrest]; exact ofBits_lt _)
  rw [← hrest, toBits_ofBits, hbits, List.take_append_drop] at hpath
  omega

/-! ## Any mismatch -/

/-- At another rate than the sender's, some payload of every length is not
decoded. -/
theorem exists_not_decoded {rate rate' : CodeRate} (hne : rate' ≠ rate) {n : Nat} (hpos : 0 < n) :
    ∃ payload : List UInt8, payload.length = n ∧
      decodedBytes rate' (FecEncoder.encode ⟨rate⟩ payload) n ≠ payload := by
  cases rate with
  | rate12 =>
      obtain rfl : rate' = .rate34 := by cases rate' <;> trivial
      rcases Nat.lt_or_ge n 2 with hone | hlong
      · -- one byte: the pattern does reach its last bit, but a cheaper path leads elsewhere
        obtain rfl : n = 1 := by omega
        have h : Outbids (toBits 14 0b11100010001000) .rate34
            (FecEncoder.encode ⟨.rate12⟩ [255]) [255] := by decide +kernel
        exact ⟨[255], rfl, h.not_decoded⟩
      · exact exists_not_decoded_at34 hlong
  | rate34 =>
      obtain rfl : rate' = .rate12 := by cases rate' <;> trivial
      rcases Nat.lt_or_ge n 3 with hshort | hlong
      · rcases (by omega : n = 1 ∨ n = 2) with rfl | rfl
        · have h : Outbids (toBits 12 0b101101001101) .rate12
              (FecEncoder.encode ⟨.rate34⟩ [255]) [255] := by decide +kernel
          exact ⟨[255], rfl, h.not_decoded⟩
        · have h : Outbids (toBits 16 0b1110110010110011) .rate12
              (FecEncoder.encode ⟨.rate34⟩ [255, 255]) [255, 255] := by decide +kernel
          exact ⟨[255, 255], rfl, h.not_decoded⟩
      · exact exists_not_decoded_at12 hlong

/-- A payload of no bytes is decoded at any rate. -/
theorem decodedBytes_zero (rate : CodeRate) (coded : List UInt8) :
    decodedBytes rate coded 0 = [] := by
  unfold decodedBytes
  dsimp only
  rw [Nat.zero_mul, List.take_zero]
  rfl

/-! ## Two receivers -/

/-- Both receivers get the payload, so they get the same. -/
def BothReceive (e : Encoder) (d d' : Decoder) (extra : List Symbol) (payload : List UInt8) :
    Prop :=
  (d.attempt ((e.encode payload).1 ++ extra)).1 = some payload ∧
    (d'.attempt ((e.encode payload).1 ++ extra)).1 = some payload

/-- When FEC is on, what arrives at a receiver is right if its own decoder
gets it right. -/
theorem attempt_eq_some_iff (e : Encoder) (d : Decoder) {payload : List UInt8}
    (hlen : payload.length ≤ 65535) (extra : List Symbol) (hfec : e.config.fecEnabled = true) :
    (d.attempt ((e.encode payload).1 ++ extra)).1 = some payload ↔
      decodedBytes d.config.fecCodeRate (FecEncoder.encode ⟨e.config.fecCodeRate⟩ payload)
        payload.length = payload := by
  have hencoder : e.fecEncoder = ⟨e.config.fecCodeRate⟩ := by rw [← e.rate_eq]
  constructor
  · intro hreceived
    rw [Decoder.attempt_encode_coded e d hlen extra hfec] at hreceived
    split at hreceived
    · rw [← hencoder]
      exact Option.some.inj hreceived
    · cases hreceived
  · intro hdecoded
    rw [← hencoder] at hdecoded
    exact Decoder.attempt_encode_of_decoded e d hlen extra hfec hdecoded

/-- A receiver gets every payload of this length exactly if there is no
coding, nothing to decode, or no mismatch. -/
theorem forall_attempt_iff (e : Encoder) (d : Decoder) (extra : List Symbol) {n : Nat}
    (hn : n ≤ 65535) :
    (∀ payload : List UInt8, payload.length = n →
      (d.attempt ((e.encode payload).1 ++ extra)).1 = some payload) ↔
      e.config.fecEnabled = false ∨ n = 0 ∨ d.config.fecCodeRate = e.config.fecCodeRate := by
  constructor
  · intro hall
    by_contra hnot
    push Not at hnot
    obtain ⟨hfec, hpos, hrate⟩ := hnot
    obtain ⟨payload, hlen, hfails⟩ := exists_not_decoded hrate (Nat.pos_of_ne_zero hpos)
    have hreceived := hall payload hlen
    rw [attempt_eq_some_iff e d (by omega) extra (by simpa using hfec), hlen] at hreceived
    exact hfails hreceived
  · intro hcases payload hlen
    cases hfec : e.config.fecEnabled with
    | false => exact Decoder.attempt_encode_plain e d (by omega) extra hfec
    | true =>
        rw [attempt_eq_some_iff e d (by omega) extra hfec, hlen]
        rcases hcases with hoff | hzero | hrate
        · exact absurd (hfec.symm.trans hoff) (by decide)
        · rw [hzero, decodedBytes_zero]
          rw [hzero] at hlen
          exact (List.length_eq_zero_iff.mp hlen).symm
        · rw [hrate, ← hlen]
          exact decodedBytes_encode ⟨e.config.fecCodeRate⟩ (by omega)

/-- Two receivers get every payload of a length, and so the same, exactly if
the frame is sent without FEC, the payloads are empty, or both receivers are
configured with the sender's rate. -/
theorem bothReceive_iff (e : Encoder) (d d' : Decoder) (extra : List Symbol) (n : Nat)
    (hn : n ≤ 65535) :
    (∀ payload : List UInt8, payload.length = n → BothReceive e d d' extra payload) ↔
      e.config.fecEnabled = false ∨ n = 0 ∨
        (d.config.fecCodeRate = e.config.fecCodeRate ∧
          d'.config.fecCodeRate = e.config.fecCodeRate) := by
  have h := forall_attempt_iff e d extra hn
  have h' := forall_attempt_iff e d' extra hn
  constructor
  · intro hboth
    rcases h.mp fun payload hlen => (hboth payload hlen).1 with hoff | hzero | hsame
    · exact Or.inl hoff
    · exact Or.inr (Or.inl hzero)
    · rcases h'.mp fun payload hlen => (hboth payload hlen).2 with hoff | hzero | hsame'
      · exact Or.inl hoff
      · exact Or.inr (Or.inl hzero)
      · exact Or.inr (Or.inr ⟨hsame, hsame'⟩)
  · intro hcases payload hlen
    exact ⟨h.mpr (hcases.imp_right (Or.imp_right And.left)) payload hlen,
      h'.mpr (hcases.imp_right (Or.imp_right And.right)) payload hlen⟩

/-- A sender at 3/4 and a receiver at 1/2, five bytes. -/
theorem bothReceive_iff_fiveBytes :
    ¬ ∀ payload : List UInt8, payload.length = 5 →
      BothReceive (Encoder.create { fecCodeRate := .rate34 })
        (Decoder.create { fecCodeRate := .rate34 }) (Decoder.create {}) [] payload := by
  rw [bothReceive_iff (Encoder.create { fecCodeRate := .rate34 })
    (Decoder.create { fecCodeRate := .rate34 }) (Decoder.create {}) [] 5 (by decide)]
  decide

/-- Five bytes of ones, sent at 3/4: a receiver at 3/4 and one at 1/2 do not
both get them, although they differ in nothing but the rate. -/
theorem not_bothReceive :
    ¬ ∀ (tx rx rx' : Config) (payload : List UInt8), rx'.preamble = rx.preamble →
      payload.length ≤ 65535 →
        BothReceive (Encoder.create tx) (Decoder.create rx) (Decoder.create rx') [] payload := by
  intro hevery
  have hboth := hevery { fecCodeRate := .rate34 } { fecCodeRate := .rate34 } {}
    [255, 255, 255, 255, 255] rfl (by decide)
  have hother := (attempt_eq_some_iff (Encoder.create { fecCodeRate := .rate34 })
    (Decoder.create {}) (by decide) [] rfl).mp hboth.2
  exact decodedBytes_ne_ones (n := 5) (by rw [FecEncoder.length_encode]; decide) hother

end QpskB210.Modem
