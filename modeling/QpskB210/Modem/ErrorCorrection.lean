import QpskB210.Modem.CodecRoundTrip
import QpskB210.Modem.NearestCodeword

/-!
# Modem — ErrorCorrection

How many wrong bits the code corrects. Two inputs that part send outputs whose
difference is the output of the encoder for the difference of the inputs, so
what separates them is the weight of a path that leaves state 0. A table of
the lightest paths gives that weight for as many steps as are left.
-/

namespace QpskB210.Modem

open QpskB210.Lib QpskB210.Lib.Bits

/-! ## The weight of a path -/

/-- The kept ones of a step at output position `i`. -/
def stepWeight (rate : CodeRate) (i : Nat) (reg : Register) (bit : Bool) : Nat :=
  (keeps rate i && parity (shiftIn reg bit) gen0).toNat +
    (keeps rate (i + 1) && parity (shiftIn reg bit) gen1).toNat

/-- The kept ones that these input bits put out, from output position `i` on. -/
def outputWeight (rate : CodeRate) : Nat → Register → List Bool → Nat
  | _, _, [] => 0
  | i, reg, bit :: bits =>
    stepWeight rate i reg bit + outputWeight rate (i + 2) (shiftIn reg bit) bits

theorem keeps_mod_six (rate : CodeRate) (i : Nat) : keeps rate (i % 6) = keeps rate i := by
  cases rate with
  | rate12 => rfl
  | rate34 => simp [keeps, kept, puncturePeriod]

theorem stepWeight_mod_six (rate : CodeRate) (i : Nat) :
    stepWeight rate (i % 6) = stepWeight rate i := by
  have hnext : keeps rate (i % 6 + 1) = keeps rate (i + 1) := by
    rw [← keeps_mod_six rate (i % 6 + 1), ← keeps_mod_six rate (i + 1)]
    congr 1
    omega
  funext reg bit
  rw [stepWeight, stepWeight, keeps_mod_six, hnext]

/-- The puncturing pattern comes again after three steps. -/
theorem outputWeight_mod_six (rate : CodeRate) (i : Nat) (reg : Register) (bits : List Bool) :
    outputWeight rate (i % 6) reg bits = outputWeight rate i reg bits := by
  induction bits generalizing i reg with
  | nil => rfl
  | cons bit bits ih =>
      rw [outputWeight, outputWeight, stepWeight_mod_six, ← ih (i % 6 + 2), ← ih (i + 2)]
      congr 2
      omega

/-! ## The lightest paths -/

/-- Bit `r` is the parity of register `r` with the first generator. -/
def gen0Parities : Nat := 0xaa5555aa55aaaa5555aaaa55aa5555aa

/-- The same with the second generator. -/
def gen1Parities : Nat := 0x99666699996666996699996666999966

theorem testBit_gen0Parities (reg : Register) :
    gen0Parities.testBit reg.toNat = parity reg gen0 := by
  revert reg
  decide +kernel

theorem testBit_gen1Parities (reg : Register) :
    gen1Parities.testBit reg.toNat = parity reg gen1 := by
  revert reg
  decide +kernel

/-- The kept ones at output position `i` when the register holds `r`. -/
def registerWeight (rate : CodeRate) (i r : Nat) : Nat :=
  (keeps rate i && gen0Parities.testBit r).toNat +
    (keeps rate (i + 1) && gen1Parities.testBit r).toNat

theorem registerWeight_shiftIn (rate : CodeRate) (i : Nat) (reg : Register) (bit : Bool) :
    registerWeight rate i (reg.toNat / 2 + 64 * bit.toNat) = stepWeight rate i reg bit := by
  rw [registerWeight, ← toNat_shiftIn, testBit_gen0Parities, testBit_gen1Parities, stepWeight]

/-- One step of the table, two registers at a time from register `s` on: after
a zero they go on in the lower half of the table, after a one in the upper. -/
def butterflies (rate : CodeRate) (i : Nat) : Nat → List Nat → List Nat → List Nat
  | s, low :: lows, high :: highs =>
    min (registerWeight rate i s + low) (registerWeight rate i (s + 64) + high) ::
    min (registerWeight rate i (s + 1) + low) (registerWeight rate i (s + 65) + high) ::
    butterflies rate i (s + 2) lows highs
  | _, _, _ => []

/-- For every register without its oldest bit, which no later step sees, the
least weight of a path of `steps` steps from it. -/
def lightest (rate : CodeRate) : Nat → Nat → List Nat
  | 0, _ => List.replicate 64 0
  | steps + 1, i =>
    butterflies rate i 0 ((lightest rate steps (i + 2)).take 32)
      ((lightest rate steps (i + 2)).drop 32)

/-- The least weight of `steps` steps that leave state 0 at position `i`. -/
def leavingWeight (rate : CodeRate) (steps i : Nat) : Nat :=
  registerWeight rate i 64 + (lightest rate (steps - 1) (i + 2)).getD 32 0

/-- The same from the position where it is least. -/
def columnDistance (rate : CodeRate) (steps : Nat) : Nat :=
  min (leavingWeight rate steps 0) (min (leavingWeight rate steps 2) (leavingWeight rate steps 4))

@[simp] theorem length_butterflies (rate : CodeRate) (i s : Nat) {lows highs : List Nat}
    (hlen : lows.length = highs.length) :
    (butterflies rate i s lows highs).length = 2 * lows.length := by
  induction lows generalizing s highs with
  | nil => rfl
  | cons low lows ih =>
      cases highs with
      | nil => simp at hlen
      | cons high highs =>
          simp only [List.length_cons, Nat.add_right_cancel_iff] at hlen
          simp only [butterflies, List.length_cons, ih (s + 2) hlen]
          omega

theorem getD_butterflies (rate : CodeRate) (i s : Nat) {lows highs : List Nat}
    (hlen : lows.length = highs.length) {r : Nat} (hr : r < 2 * lows.length) :
    (butterflies rate i s lows highs).getD r 0 =
      min (registerWeight rate i (s + r) + lows.getD (r / 2) 0)
        (registerWeight rate i (s + r + 64) + highs.getD (r / 2) 0) := by
  induction lows generalizing s highs r with
  | nil => simp at hr
  | cons low lows ih =>
      cases highs with
      | nil => simp at hlen
      | cons high highs =>
          simp only [List.length_cons, Nat.add_right_cancel_iff] at hlen hr
          match r with
          | 0 => simp [butterflies]
          | 1 => simp [butterflies]
          | r + 2 =>
              have hhalf : (r + 2) / 2 = r / 2 + 1 := by omega
              have hrest := ih (s + 2) hlen (by omega : r < 2 * lows.length)
              rw [hhalf, butterflies, List.getD_cons_succ, List.getD_cons_succ,
                List.getD_cons_succ, List.getD_cons_succ, hrest, Nat.add_assoc s 2 r,
                Nat.add_comm 2 r]

theorem length_lightest (rate : CodeRate) (steps i : Nat) :
    (lightest rate steps i).length = 64 := by
  induction steps generalizing i with
  | zero => rfl
  | succ steps ih => rw [lightest, length_butterflies] <;> simp [ih]

theorem getD_lightest_succ (rate : CodeRate) (steps i : Nat) {r : Nat} (hr : r < 64) :
    (lightest rate (steps + 1) i).getD r 0 =
      min (registerWeight rate i r + (lightest rate steps (i + 2)).getD (r / 2) 0)
        (registerWeight rate i (r + 64) + (lightest rate steps (i + 2)).getD (r / 2 + 32) 0) := by
  have hlength := length_lightest rate steps (i + 2)
  have hhalf : r / 2 < 32 := by omega
  rw [lightest, getD_butterflies rate i 0 (by simp [hlength]) (by simp [hlength]; omega),
    Nat.zero_add]
  simp only [List.getD_eq_getElem?_getD, List.getElem?_drop, List.getElem?_take_of_lt hhalf,
    Nat.add_comm 32]

/-- No path is lighter than the table says. -/
theorem lightest_le (rate : CodeRate) {steps : Nat} {bits : List Bool}
    (hbits : steps ≤ bits.length) (i : Nat) (reg : Register) :
    (lightest rate steps i).getD (reg.toNat / 2) 0 ≤ outputWeight rate i reg bits := by
  have hstate (reg : Register) : reg.toNat / 2 < 64 := by
    have := reg.isLt
    omega
  induction steps generalizing i reg bits with
  | zero =>
      rw [lightest, List.getD_eq_getElem?_getD, List.getElem?_replicate, if_pos (hstate reg)]
      exact Nat.zero_le _
  | succ steps ih =>
      cases bits with
      | nil => simp at hbits
      | cons bit bits =>
          rw [List.length_cons] at hbits
          have hnext : (shiftIn reg bit).toNat / 2 = reg.toNat / 2 / 2 + 32 * bit.toNat := by
            rw [toNat_shiftIn]
            omega
          have hrest := ih (by omega : steps ≤ bits.length) (i + 2) (shiftIn reg bit)
          have hweight := registerWeight_shiftIn rate i reg bit
          rw [hnext] at hrest
          rw [outputWeight, ← hweight, getD_lightest_succ rate steps i (hstate reg)]
          cases bit with
          | false => exact Nat.le_trans (Nat.min_le_left _ _) (Nat.add_le_add_left hrest _)
          | true => exact Nat.le_trans (Nat.min_le_right _ _) (Nat.add_le_add_left hrest _)

/-- A path that leaves state 0 and goes on for as many steps has the weight of
the column distance at least. -/
theorem columnDistance_le (rate : CodeRate) {steps i : Nat} (heven : i % 2 = 0)
    {bits : List Bool} (hsteps : steps ≤ bits.length + 1) :
    columnDistance rate steps ≤ outputWeight rate i 0 (true :: bits) := by
  have hle (j : Nat) : leavingWeight rate steps j ≤ outputWeight rate j 0 (true :: bits) := by
    have hrest := lightest_le rate (by omega : steps - 1 ≤ bits.length) (j + 2) (shiftIn 0 true)
    have hweight := registerWeight_shiftIn rate j 0 true
    rw [outputWeight, ← hweight]
    exact Nat.add_le_add_left hrest _
  have hcases : i % 6 = 0 ∨ i % 6 = 2 ∨ i % 6 = 4 := by omega
  rw [columnDistance, ← outputWeight_mod_six]
  rcases hcases with h | h | h <;> rw [h]
  · exact Nat.le_trans (Nat.min_le_left _ _) (hle 0)
  · exact Nat.le_trans (Nat.min_le_right _ _) (Nat.le_trans (Nat.min_le_left _ _) (hle 2))
  · exact Nat.le_trans (Nat.min_le_right _ _) (Nat.le_trans (Nat.min_le_right _ _) (hle 4))

/-! ## Two inputs that part -/

theorem shiftIn_xor (reg reg' : Register) (bit bit' : Bool) :
    shiftIn reg bit ^^^ shiftIn reg' bit' = shiftIn (reg ^^^ reg') (bit ^^ bit') := by
  have htop : ∀ bit bit' : Bool, (BitVec.ofBool (bit ^^ bit')).setWidth 7 <<< 6 =
      ((BitVec.ofBool bit).setWidth 7 <<< 6) ^^^ ((BitVec.ofBool bit').setWidth 7 <<< 6) := by
    decide
  rw [shiftIn, shiftIn, shiftIn, htop, BitVec.ushiftRight_xor_distrib]
  ext i hi
  have hlow : 6 ≤ i → (reg >>> 1)[i] = false ∧ (reg' >>> 1)[i] = false := by
    intro hi6
    have hout : 7 ≤ 1 + i := by omega
    simp [hout]
  have hhigh : ∀ bit : Bool, i < 6 → ((BitVec.ofBool bit).setWidth 7 <<< 6)[i] = false := by
    intro bit hi6
    simp [hi6]
  rcases Nat.lt_or_ge i 6 with hi6 | hi6
  · simp only [BitVec.getElem_xor, BitVec.getElem_or, hhigh _ hi6, Bool.or_false]
    simp
  · simp only [BitVec.getElem_xor, BitVec.getElem_or, (hlow hi6).1, (hlow hi6).2, Bool.false_or]
    simp

/-- One fold of the parity. -/
theorem fold_xor (v v' : Register) (k : Nat) :
    (v ^^^ v') ^^^ ((v ^^^ v') >>> k) = (v ^^^ (v >>> k)) ^^^ (v' ^^^ (v' >>> k)) := by
  rw [BitVec.ushiftRight_xor_distrib]
  ac_rfl

theorem parity_xor (reg reg' mask : Register) :
    parity (reg ^^^ reg') mask = (parity reg mask ^^ parity reg' mask) := by
  have hmask : (reg ^^^ reg') &&& mask = (reg &&& mask) ^^^ (reg' &&& mask) := by
    ext i hi
    simp [Bool.and_xor_distrib_right]
  simp only [parity, hmask, fold_xor, BitVec.getLsbD_xor]

/-- Everything that is kept from output position `i` on was received. -/
def Delivers (rate : CodeRate) (i : Nat) (received : List (Option Bool)) : Prop :=
  ∀ j rx, received[j]? = some rx → keeps rate (i + j) = true → rx.isSome

variable {rate : CodeRate} {i : Nat} {received : List (Option Bool)}

theorem Delivers.head {rx : Option Bool} (h : Delivers rate i (rx :: received))
    (hkeep : keeps rate i = true) : rx.isSome :=
  h 0 rx rfl hkeep

theorem Delivers.tail {rx : Option Bool} (h : Delivers rate i (rx :: received)) :
    Delivers rate (i + 1) received := by
  intro j rx' hj hkeep
  refine h (j + 1) rx' hj ?_
  rwa [← Nat.add_assoc, Nat.add_right_comm]

theorem Delivers.drop (h : Delivers rate i received) (k : Nat) :
    Delivers rate (i + k) (received.drop k) := by
  intro j rx hj hkeep
  rw [List.getElem?_drop] at hj
  refine h (k + j) rx hj ?_
  rwa [← Nat.add_assoc]

/-- A received bit disagrees with one of two outputs that differ. -/
theorem mismatch_separates {rx : Option Bool} {keep out out' : Bool}
    (hrx : keep = true → rx.isSome) :
    (keep && (out ^^ out')).toNat ≤ mismatch rx out + mismatch rx out' := by
  cases keep with
  | false => simp
  | true =>
      obtain ⟨bit, rfl⟩ := Option.isSome_iff_exists.mp (hrx rfl)
      cases bit <;> cases out <;> cases out' <;> decide

/-- What was received disagrees with one of two outputs wherever they differ. -/
theorem outputWeight_le (hreceived : Delivers rate i received) {bits bits' : List Bool}
    (hlen : bits.length = bits'.length) (hcount : received.length = 2 * bits.length)
    (reg reg' : Register) :
    outputWeight rate i (reg ^^^ reg') (List.zipWith xor bits bits') ≤
      (List.zipWith mismatch received (convolve reg bits)).sum +
        (List.zipWith mismatch received (convolve reg' bits')).sum := by
  induction bits generalizing received i reg reg' bits' with
  | nil => simp [outputWeight]
  | cons bit bits ih =>
      cases bits' with
      | nil => simp at hlen
      | cons bit' bits' =>
          simp only [List.length_cons, Nat.add_right_cancel_iff] at hlen hcount
          rcases received with _ | ⟨rx0, _ | ⟨rx1, received⟩⟩
          · simp at hcount
          · simp only [List.length_cons, List.length_nil] at hcount
            omega
          · simp only [List.length_cons] at hcount
            have hrest := ih hreceived.tail.tail hlen (by omega) (shiftIn reg bit)
              (shiftIn reg' bit')
            have hfirst := @mismatch_separates rx0 (keeps rate i) (parity (shiftIn reg bit) gen0)
              (parity (shiftIn reg' bit') gen0) hreceived.head
            have hsecond := @mismatch_separates rx1 (keeps rate (i + 1))
              (parity (shiftIn reg bit) gen1) (parity (shiftIn reg' bit') gen1)
              hreceived.tail.head
            rw [shiftIn_xor, show i + 1 + 1 = i + 2 from rfl] at hrest
            rw [← parity_xor, shiftIn_xor] at hfirst hsecond
            simp only [List.zipWith_cons_cons, outputWeight, convolve, List.sum_cons, stepWeight]
            omega

/-! ## What the decoder is given -/

theorem puncturedCount_add_le (i k : Nat) : puncturedCount i ≤ puncturedCount (i + k) := by
  have h := length_puncture i (List.replicate k false)
  rw [List.length_replicate] at h
  omega

/-- With enough coded bits left, depuncturing leaves nothing out that was
kept. -/
theorem delivers_depuncture {i count : Nat} {coded : List Bool}
    (hcoded : puncturedCount (i + count) ≤ puncturedCount i + coded.length) :
    Delivers .rate34 i (depuncture i count coded) := by
  induction count generalizing i coded with
  | zero =>
      intro j rx hj
      simp [depuncture] at hj
  | succ count ih =>
      have hsucc := puncturedCount_succ i
      have hshift : i + 1 + count = i + (count + 1) := by omega
      have hmono := puncturedCount_add_le (i + 1) count
      intro j rx hj hkeep
      rw [depuncture] at hj
      cases hkept : kept i with
      | true =>
          simp only [hkept, if_true, Bool.toNat_true] at hj hsucc
          cases j with
          | zero =>
              cases coded with
              | nil =>
                  rw [List.length_nil, ← hshift] at hcoded
                  omega
              | cons bit coded =>
                  simp only [List.head?_cons, List.getElem?_cons_zero, Option.some.injEq] at hj
                  rw [← hj]
                  rfl
          | succ j =>
              rw [List.getElem?_cons_succ] at hj
              refine @ih (i + 1) coded.tail ?_ j rx hj ?_
              · rw [hshift, List.length_tail]
                omega
              · rwa [Nat.add_right_comm, Nat.add_assoc]
      | false =>
          simp only [hkept, Bool.false_eq_true, if_false, Bool.toNat_false] at hj hsucc
          cases j with
          | zero =>
              rw [Nat.add_zero] at hkeep
              simp [keeps, hkept] at hkeep
          | succ j =>
              rw [List.getElem?_cons_succ] at hj
              refine @ih (i + 1) coded ?_ j rx hj ?_
              · rw [hshift]
                omega
              · rwa [Nat.add_right_comm, Nat.add_assoc]

theorem delivers_depunctured {rate : CodeRate} {n : Nat} {bytes : List UInt8}
    (hbytes : FecEncoder.codedLength ⟨rate⟩ n ≤ bytes.length) :
    Delivers rate 0 (depunctured rate bytes n) := by
  cases rate with
  | rate12 =>
      intro j rx hj _
      simp only [depunctured, List.getElem?_map, Option.map_eq_some_iff] at hj
      obtain ⟨bit, -, rfl⟩ := hj
      rfl
  | rate34 =>
      apply delivers_depuncture
      simp only [FecEncoder.codedLength, codedBitCount] at hbytes
      rw [List.length_take, length_bytesToBits, codedBitCount, Nat.zero_add]
      omega

/-- How many of the first `i` output bits are sent. -/
def keptCount : CodeRate → Nat → Nat
  | .rate12, i => i
  | .rate34, i => puncturedCount i

/-- The coded bits among these bytes: not the padding of the last one. -/
def codedPart (rate : CodeRate) (n : Nat) (bytes : List UInt8) : List Bool :=
  (bytesToBits bytes).take (codedBitCount rate n)

theorem drop_puncture {k : Nat} (i : Nat) {bits : List Bool} (hk : k ≤ bits.length) :
    (puncture i bits).drop (puncturedCount (i + k) - puncturedCount i) =
      puncture (i + k) (bits.drop k) := by
  induction k generalizing i bits with
  | zero => simp
  | succ k ih =>
      cases bits with
      | nil => simp at hk
      | cons bit bits =>
          rw [List.length_cons, Nat.add_le_add_iff_right] at hk
          have hrest := ih (i + 1) hk
          have hsucc := puncturedCount_succ i
          have hmono := puncturedCount_add_le (i + 1) k
          rw [Nat.add_right_comm i 1 k] at hrest hmono
          rw [List.drop_succ_cons, ← Nat.add_assoc, ← hrest, puncture]
          cases hkept : kept i with
          | true =>
              rw [hkept, Bool.toNat_true] at hsucc
              have hcount : puncturedCount (i + k + 1) - puncturedCount i =
                  puncturedCount (i + k + 1) - puncturedCount (i + 1) + 1 := by omega
              rw [if_pos rfl, hcount, List.drop_succ_cons]
          | false =>
              simp only [hkept, Bool.toNat_false, Nat.add_zero] at hsucc
              rw [if_neg (by decide), hsucc]

theorem drop_depuncture {k count : Nat} (i : Nat) (coded : List Bool) (hk : k ≤ count) :
    (depuncture i count coded).drop k = depuncture (i + k) (count - k)
      (coded.drop (puncturedCount (i + k) - puncturedCount i)) := by
  induction k generalizing i count coded with
  | zero => simp
  | succ k ih =>
      cases count with
      | zero => simp at hk
      | succ count =>
          rw [Nat.add_le_add_iff_right] at hk
          have hsucc := puncturedCount_succ i
          have hmono := puncturedCount_add_le (i + 1) k
          rw [Nat.add_right_comm i 1 k] at hmono
          rw [depuncture, Nat.add_sub_add_right]
          cases hkept : kept i with
          | true =>
              rw [hkept, Bool.toNat_true] at hsucc
              have hcount : puncturedCount (i + k + 1) - puncturedCount i =
                  puncturedCount (i + k + 1) - puncturedCount (i + 1) + 1 := by omega
              rw [if_pos rfl, List.drop_succ_cons, ih (i + 1) _ hk, Nat.add_right_comm i 1 k,
                List.drop_tail, ← Nat.add_assoc, hcount]
          | false =>
              simp only [hkept, Bool.toNat_false, Nat.add_zero] at hsucc
              rw [if_neg (by decide), List.drop_succ_cons, ih (i + 1) _ hk,
                Nat.add_right_comm i 1 k, hsucc, ← Nat.add_assoc]

theorem differences_self (bits : List Bool) : differences bits bits = 0 := by
  simp [differences, List.zipWith_self]

/-- From where the coded bits came intact, the decoder has nothing that
disagrees with the output sent. -/
theorem mismatch_drop_of_intact {rate : CodeRate} {payload received : List UInt8} {k : Nat}
    (hk : k ≤ rateHalfBits payload.length)
    (hintact : (codedPart rate payload.length received).drop (keptCount rate k) =
      (codedPart rate payload.length (FecEncoder.encode ⟨rate⟩ payload)).drop (keptCount rate k)) :
    (List.zipWith mismatch ((depunctured rate received payload.length).drop k)
      ((convolve 0 (inputBits payload)).drop k)).sum = 0 := by
  have hcoded := take_bytesToBits_encode ⟨rate⟩ payload
  have hlength : (convolve 0 (inputBits payload)).length = rateHalfBits payload.length := by
    rw [length_convolve, length_inputBits, rateHalfBits]
  dsimp only [codedPart] at hintact
  rw [hcoded] at hintact
  cases rate with
  | rate12 =>
      dsimp only [depunctured, keptCount, codedBits] at hintact ⊢
      rw [← List.map_drop, sum_mismatch_some, hintact, differences_self]
  | rate34 =>
      have hcut := @drop_puncture k 0 (convolve 0 (inputBits payload)) (by rwa [hlength])
      have hzero : puncturedCount 0 = 0 := rfl
      rw [Nat.zero_add, hzero, Nat.sub_zero] at hcut
      dsimp only [depunctured, keptCount, codedBits] at hintact ⊢
      rw [drop_depuncture 0 _ hk, Nat.zero_add, hzero, Nat.sub_zero, hintact, hcut, ← hlength,
        ← List.length_drop, sum_mismatch_depuncture, differences_self]

/-! ## The error correction -/

/-- Two bit vectors of one length that are not the same part at some bit. -/
theorem exists_parting {bits bits' : List Bool} (hlen : bits.length = bits'.length)
    (hne : bits ≠ bits') :
    ∃ common bit rest rest', bits = common ++ bit :: rest ∧ bits' = common ++ (!bit) :: rest' := by
  induction bits generalizing bits' with
  | nil =>
      rw [List.length_nil] at hlen
      exact absurd (List.length_eq_zero_iff.mp hlen.symm).symm hne
  | cons bit bits ih =>
      cases bits' with
      | nil => simp at hlen
      | cons bit' bits' =>
          simp only [List.length_cons, Nat.add_right_cancel_iff] at hlen
          by_cases hbit : bit' = bit
          · subst hbit
            obtain ⟨common, b, rest, rest', hbits, hbits'⟩ := ih hlen fun heq => hne (by rw [heq])
            exact ⟨bit' :: common, b, rest, rest', by rw [hbits]; rfl, by rw [hbits']; rfl⟩
          · refine ⟨[], bit, bits, bits', rfl, ?_⟩
            rw [Bool.eq_not.mpr hbit]
            rfl

/-- The output bits up to the parting are those of both inputs. -/
theorem disagreements_append {received : List (Option Bool)} {common : List Bool}
    (hlen : 2 * common.length ≤ received.length) (rest : List Bool) :
    disagreements received (common ++ rest) =
      (List.zipWith mismatch (received.take (2 * common.length)) (convolve 0 common)).sum +
        (List.zipWith mismatch (received.drop (2 * common.length))
          (convolve (common.foldl shiftIn 0) rest)).sum := by
  have hcut : (received.take (2 * common.length)).length = (convolve 0 common).length := by
    rw [List.length_take, length_convolve]
    omega
  conv_lhs => rw [← List.take_append_drop (2 * common.length) received]
  rw [disagreements, convolve_append, List.zipWith_append hcut, List.sum_append]

/-- The disagreements from a later bit on are some of those from an earlier
one on. -/
theorem sum_drop_le (costs : List Nat) {j k : Nat} (hjk : j ≤ k) :
    (costs.drop k).sum ≤ (costs.drop j).sum := by
  obtain ⟨d, rfl⟩ := Nat.exists_eq_add_of_le hjk
  have hsplit := congrArg List.sum (List.take_append_drop d (costs.drop j))
  rw [List.sum_append, List.drop_drop] at hsplit
  omega

/-- What arrives of a coded payload when at most `errors` of its coded bits
are wrong, and none of those that the last steps before `steps` were over put
out. -/
structure Damaged (rate : CodeRate) (payload received : List UInt8) (errors steps : Nat) :
    Prop where
  length : FecEncoder.codedLength ⟨rate⟩ payload.length ≤ received.length
  few : codeDistance rate payload received ≤ errors
  intact : 7 < steps →
    (codedPart rate payload.length received).drop
        (keptCount rate (2 * (8 * payload.length + 7 - steps))) =
      (codedPart rate payload.length (FecEncoder.encode ⟨rate⟩ payload)).drop
        (keptCount rate (2 * (8 * payload.length + 7 - steps)))

variable {rate : CodeRate} {payload received : List UInt8} {errors steps : Nat}

theorem columnDistance_seven (rate : CodeRate) : 0 < columnDistance rate 7 := by
  cases rate <;> decide +kernel

/-- Another payload, and any tail, disagrees with what was received in more
bits than the payload sent. -/
theorem Damaged.farther (h : Damaged rate payload received errors steps)
    (hdistance : 2 * errors < columnDistance rate steps) (hsteps : 7 ≤ steps)
    {other : List UInt8} (hother : other.length = payload.length) (hne : other ≠ payload)
    {tail : List Bool} (htail : tail.length = tailBits) :
    disagreements (depunctured rate received payload.length) (inputBits payload) <
      disagreements (depunctured rate received payload.length) (bytesToBits other ++ tail) := by
  have hlength : (depunctured rate received payload.length).length =
      2 * (8 * payload.length + 6) := by
    rw [length_depunctured h.length, rateHalfBits, tailBits]
    omega
  have hdelivers := delivers_depunctured h.length
  have hfew := h.few
  rw [← disagreements_inputBits] at hfew
  have hbits : bytesToBits payload ≠ bytesToBits other := by
    intro heq
    have hread := takeBytes_bytesToBits payload []
    have hread' := takeBytes_bytesToBits other []
    rw [heq, ← hother, hread'] at hread
    exact hne hread
  obtain ⟨common, bit, rest, rest', hcommon, hcommon'⟩ := exists_parting (by
    rw [length_bytesToBits, length_bytesToBits, hother]) hbits
  have hcount := congrArg List.length hcommon
  have hcount' := congrArg List.length hcommon'
  simp only [length_bytesToBits, List.length_append, List.length_cons, hother] at hcount hcount'
  unfold tailBits at htail
  -- what the two inputs put out after they have parted
  have hsent : inputBits payload = common ++ bit :: (rest ++ List.replicate 6 false) := by
    rw [inputBits, hcommon, List.append_assoc, List.cons_append]
    rfl
  have hread : bytesToBits other ++ tail = common ++ (!bit) :: (rest' ++ tail) := by
    rw [hcommon', List.append_assoc, List.cons_append]
  rw [hsent] at hfew
  rw [hsent, hread]
  rw [disagreements_append (by omega)] at hfew ⊢
  rw [disagreements_append (by omega)]
  apply Nat.add_lt_add_left
  have hweight := @outputWeight_le rate _ _ (hdelivers.drop (2 * common.length))
    (bit :: (rest ++ List.replicate 6 false)) ((!bit) :: (rest' ++ tail))
    (by simp [htail]; omega) (by simp [hlength]; omega)
    (common.foldl shiftIn 0) (common.foldl shiftIn 0)
  have hsame : common.foldl shiftIn 0 ^^^ common.foldl shiftIn 0 = (0 : Register) :=
    BitVec.xor_self
  rw [hsame, List.zipWith_cons_cons, Bool.xor_not_self, Nat.zero_add] at hweight
  have hdiffs : (List.zipWith xor (rest ++ List.replicate 6 false) (rest' ++ tail)).length =
      rest.length + 6 := by
    simp [htail]
    omega
  have heven : 2 * common.length % 2 = 0 := Nat.mul_mod_right 2 _
  rcases Nat.lt_or_ge (rest.length + 7) steps with hlate | hearly
  · -- they part among the last steps, which disagree with nothing sent
    have hnone := mismatch_drop_of_intact (by rw [rateHalfBits, tailBits]; omega)
      (h.intact (by omega))
    have hseven := columnDistance_le rate heven (by rw [hdiffs]; omega : 7 ≤ _ + 1)
    have hfirst := columnDistance_seven rate
    have hafter : (convolve 0 (inputBits payload)).drop (2 * common.length) =
        convolve (common.foldl shiftIn 0) (bit :: (rest ++ List.replicate 6 false)) := by
      rw [hsent, convolve_append, List.drop_left' (length_convolve _ _)]
    have hlast := sum_drop_le
      (List.zipWith mismatch (depunctured rate received payload.length)
        (convolve 0 (inputBits payload)))
      (by omega : 2 * (8 * payload.length + 7 - steps) ≤ 2 * common.length)
    rw [List.drop_zipWith, List.drop_zipWith, hnone, hafter] at hlast
    omega
  · have hapart := columnDistance_le rate heven (by rw [hdiffs]; omega : steps ≤ _ + 1)
    omega

/-- What is decoded is what was sent. -/
theorem Damaged.decodedBytes_eq (h : Damaged rate payload received errors steps)
    (hdistance : 2 * errors < columnDistance rate steps) (hsteps : 7 ≤ steps)
    (hpayload : payload.length ≤ 65535) :
    decodedBytes rate received payload.length = payload := by
  obtain ⟨hlength, tail, htail, hfirst⟩ := exists_tail_firstNearest hpayload h.length
  by_contra hne
  have hfarther := h.farther hdistance hsteps hlength hne htail
  have hinput : (inputBits payload).length =
      (bytesToBits (decodedBytes rate received payload.length) ++ tail).length := by
    rw [length_inputBits, List.length_append, length_bytesToBits, hlength, htail, Nat.mul_comm]
  have hle := hfirst.nearest (inputBits payload) hinput
  omega

/-! ## What is always corrected -/

/-- The number of wrong bits that each code corrects. -/
def correctable : CodeRate → Nat
  | .rate12 => 4
  | .rate34 => 2

/-- The steps it takes the outputs of two inputs that part to be so far apart. -/
def separationSteps : CodeRate → Nat
  | .rate12 => 20
  | .rate34 => 39

theorem lt_columnDistance (rate : CodeRate) :
    2 * correctable rate < columnDistance rate (separationSteps rate) := by
  cases rate <;> decide +kernel

/-- **Error correction.** Up to four wrong coded bits at rate 1/2, and up to
two at rate 3/4, wherever they are among those that the last 19 or 38 steps
did not put out, leave the payload as it was; and the decoder counts the bits
in which the received bytes differ from the codeword. -/
theorem wrong_bits_corrected (d : FecDecoder) {payload received : List UInt8}
    (hpayload : payload.length ≤ 65535)
    (h : Damaged d.codeRate payload received (correctable d.codeRate)
      (separationSteps d.codeRate)) :
    d.decode received payload.length = (payload, { d with
      correctedErrors := d.correctedErrors +
        UInt64.ofNat (differingBits (FecEncoder.encode ⟨d.codeRate⟩ payload) received) }) := by
  have hsteps : 7 ≤ separationSteps d.codeRate := by
    cases d.codeRate <;> decide
  have hdecoded := h.decodedBytes_eq (lt_columnDistance _) hsteps hpayload
  simp only [FecDecoder.decode, hdecoded]

/-- Four bytes, with one bit wrong in each of four of the coded bytes. -/
theorem wrong_bits_corrected_four :
    FecDecoder.decode ⟨.rate12, 0⟩ [128, 2, 188, 127, 245, 205, 77, 139, 199, 0] 4 =
      ([1, 2, 3, 4], ⟨.rate12, 0 + UInt64.ofNat (differingBits
        (FecEncoder.encode ⟨.rate12⟩ [1, 2, 3, 4])
        [128, 2, 188, 127, 245, 205, 77, 139, 199, 0])⟩) :=
  @wrong_bits_corrected ⟨.rate12, 0⟩ [1, 2, 3, 4] [128, 2, 188, 127, 245, 205, 77, 139, 199, 0]
    (by decide) ⟨by decide, by decide +kernel, by decide +kernel⟩

/-! ## A damaged frame -/

/-- The receiver cuts the frame out of any symbols whose bits begin with it. -/
theorem demapFrame_of_prefix {h : FrameHeader} {body : List UInt8} {crc : UInt32}
    (hfits : h.Fits)
    (hcount : payloadBitCount ((frameBits h body crc).take 36) = some (8 * body.length))
    {symbols : List Symbol} (hsymbols : frameBits h body crc <+: SymbolMapper.demap symbols) :
    demapFrame symbols = some (h.fecEnabled, frameBits h body crc) := by
  have hlength : (frameBits h body crc).length = 8 * body.length + 67 := by
    rw [length_frameBits, headerBitCount, crcBitCount]
    omega
  have hlong := hsymbols.length_le
  rw [SymbolMapper.length_demap, hlength] at hlong
  have hcut : ∀ k ≤ (frameBits h body crc).length,
      (SymbolMapper.demap symbols).take k = (frameBits h body crc).take k := by
    intro k hk
    obtain ⟨rest, hrest⟩ := hsymbols
    rw [← hrest, List.take_append_of_le_length hk]
  have henabled : decide (extractBits ((frameBits h body crc).take 36) 20 1 ≠ 0) =
      h.fecEnabled := by
    rw [take_header_frameBits]
    exact congrArg FrameHeader.fecEnabled (extractHeader_toBits hfits _)
  have htotal : headerBitCount + 8 * body.length + crcBitCount = (frameBits h body crc).length :=
    length_frameBits.symm
  have hhalf : (headerBitCount + 1) / 2 = 18 := rfl
  unfold demapFrame
  dsimp only
  rw [hhalf, SymbolMapper.demap_take, hcut 36 (by omega), if_neg (by omega), hcount]
  dsimp only
  rw [htotal, hlength, if_neg (by omega), SymbolMapper.demap_take, List.take_take,
    Nat.min_eq_left (by omega), ← hlength, hcut _ (Nat.le_refl _), List.take_length, henabled]

/-- The header announces as many coded bytes as the encoder puts out. -/
theorem Encoder.payloadBitCount_coded (e : Encoder) {payload received : List UInt8}
    (hlen : payload.length ≤ 65535) (hfec : e.config.fecEnabled = true)
    (hreceived : received.length = e.fecEncoder.codedLength payload.length) (crc : UInt32) :
    payloadBitCount ((frameBits (e.header payload) received crc).take 36) =
      some (8 * received.length) := by
  have henabled : (e.header payload).fecEnabled = true := hfec
  rw [take_header_frameBits, payloadBitCount_toBits (e.header_fits payload),
    e.header_payloadLength hlen, e.header_fecCodeRate, if_pos henabled, Option.map_some,
    hreceived, Nat.mul_comm]

/-- **A damaged frame.** A receiver configured with the rate of the sender
gets the payload from symbols that hold the frame with as many wrong bits in
the coded payload as the code corrects. -/
theorem Decoder.attempt_damaged (e : Encoder) (d : Decoder) {payload received : List UInt8}
    (hlen : payload.length ≤ 65535) (hfec : e.config.fecEnabled = true)
    (hrate : d.config.fecCodeRate = e.config.fecCodeRate)
    (hreceived : received.length = e.fecEncoder.codedLength payload.length)
    (hdamaged : Damaged e.config.fecCodeRate payload received (correctable e.config.fecCodeRate)
      (separationSteps e.config.fecCodeRate))
    {symbols : List Symbol}
    (hsymbols : frameBits (e.header payload) received (frameCrc (e.header payload) payload) <+:
      SymbolMapper.demap symbols) :
    (d.attempt symbols).1 = some payload := by
  have hdecoder : d.fecDecoder.codeRate = e.config.fecCodeRate := d.rate_eq.trans hrate
  have hsteps : 7 ≤ separationSteps e.config.fecCodeRate := by
    cases e.config.fecCodeRate <;> decide
  have hdecoded := hdamaged.decodedBytes_eq (lt_columnDistance _) hsteps hlen
  have hcut := demapFrame_of_prefix (e.header_fits payload)
    (e.payloadBitCount_coded hlen hfec hreceived _) hsymbols
  have hframe := decodeFrame_coded d.fecDecoder d.diag (e.header_fits payload) hfec received
    (frameCrc (e.header payload) payload)
  rw [hdecoder, e.header_payloadLength hlen, hdecoded, if_pos rfl] at hframe
  simp only [Decoder.attempt, tryDecodeFrame, hcut]
  exact hframe

/-- The frame of four bytes, with one bit wrong in each of four of the coded
bytes. -/
theorem Decoder.attempt_damaged_four :
    ((create {}).attempt (SymbolMapper.map (frameBits ((Encoder.create {}).header [1, 2, 3, 4])
      [128, 2, 188, 127, 245, 205, 77, 139, 199, 0]
      (frameCrc ((Encoder.create {}).header [1, 2, 3, 4]) [1, 2, 3, 4]))).1).1 =
      some [1, 2, 3, 4] := by
  refine @attempt_damaged (Encoder.create {}) (create {}) [1, 2, 3, 4]
    [128, 2, 188, 127, 245, 205, 77, 139, 199, 0] (by decide) rfl rfl (by decide)
    ⟨by decide, by decide +kernel, by decide +kernel⟩ _ ?_
  rw [(SymbolMapper.map_of_odd (by simp [headerBitCount, crcBitCount])).2]
  exact List.prefix_append _ _

end QpskB210.Modem
