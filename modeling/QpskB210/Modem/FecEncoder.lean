import QpskB210.Lib.Bits
import QpskB210.Modem.Types

/-!
# Modem — FecEncoder

The convolutional code: a shift register of seven bits, two parities of it
for every bit that enters, and at rate 3/4 two of every six parities
discarded.
-/

namespace QpskB210.Modem

open QpskB210.Lib.Bits

/-! ## The code -/

/-- The seven most recent input bits, the newest on top. -/
abbrev Register := BitVec 7

def gen0 : Register := 0o171

def gen1 : Register := 0o133

/-- `K - 1` zeros flush the register. -/
def tailBits : Nat := 6

/-- The register after one more input bit. -/
def shiftIn (reg : Register) (bit : Bool) : Register :=
  (reg >>> 1) ||| ((BitVec.ofBool bit).setWidth 7 <<< 6)

/-- The parity of `value & mask`, folded as the source folds it. -/
def parity (value mask : Register) : Bool :=
  let v := value &&& mask
  let v := v ^^^ (v >>> 4)
  let v := v ^^^ (v >>> 2)
  let v := v ^^^ (v >>> 1)
  v.getLsbD 0

/-- The rate-1/2 encoder: two output bits for each input bit. -/
def convolve : Register → List Bool → List Bool
  | _, [] => []
  | reg, bit :: bits =>
    let reg := shiftIn reg bit
    parity reg gen0 :: parity reg gen1 :: convolve reg bits

/-! ## Puncturing -/

def puncturePattern : List Bool := [true, true, false, true, true, false]

def puncturePeriod : Nat := 6

/-- The pattern keeps the output bit at this position. -/
def kept (i : Nat) : Bool := puncturePattern.getD (i % puncturePeriod) false

/-- What is kept of the bits from position `i` on. -/
def puncture : Nat → List Bool → List Bool
  | _, [] => []
  | i, bit :: bits => if kept i then bit :: puncture (i + 1) bits else puncture (i + 1) bits

/-- How many of the first `n` bits are kept: four in every whole period, and
those of the period that is cut short. -/
def puncturedCount (n : Nat) : Nat :=
  n / puncturePeriod * 4 + (puncturePattern.take (n % puncturePeriod)).count true

/-! ## The encoder -/

structure FecEncoder where
  codeRate : CodeRate
deriving DecidableEq, Repr

/-- The output bits at rate 1/2 for `inputLength` bytes and the tail. -/
def rateHalfBits (inputLength : Nat) : Nat := 2 * (inputLength * 8 + tailBits)

/-- The number of coded bits for `inputLength` bytes, before packing. -/
def codedBitCount (rate : CodeRate) (inputLength : Nat) : Nat :=
  match rate with
  | .rate12 => rateHalfBits inputLength
  | .rate34 => puncturedCount (rateHalfBits inputLength)

def FecEncoder.codedLength (e : FecEncoder) (inputLength : Nat) : Nat :=
  (codedBitCount e.codeRate inputLength + 7) / 8

/-- The packing loop, with the byte begun and the number of its bits. The
last byte is filled with zeros. -/
def packLoop : UInt8 → Nat → List Bool → List UInt8
  | current, bitCount, [] =>
    if bitCount > 0 then [current <<< UInt8.ofNat (8 - bitCount)] else []
  | current, bitCount, bit :: bits =>
    let current := (current <<< 1) ||| bit.toUInt8
    if bitCount + 1 = 8 then current :: packLoop 0 0 bits
    else packLoop current (bitCount + 1) bits

def packBits (bits : List Bool) : List UInt8 := packLoop 0 0 bits

/-- The input bits of the convolutional encoder. -/
def inputBits (data : List UInt8) : List Bool := bytesToBits data ++ List.replicate tailBits false

/-- The coded bits of `data`. -/
def codedBits (rate : CodeRate) (data : List UInt8) : List Bool :=
  match rate with
  | .rate12 => convolve 0 (inputBits data)
  | .rate34 => puncture 0 (convolve 0 (inputBits data))

def FecEncoder.encode (e : FecEncoder) (data : List UInt8) : List UInt8 :=
  packBits (codedBits e.codeRate data)

/-! ## The register -/

/-- The newest bit is on top. -/
@[simp] theorem msb_shiftIn (reg : Register) (bit : Bool) : (shiftIn reg bit).msb = bit := by
  revert reg bit
  decide +kernel

/-- Both generators look at the newest bit: another bit changes both
parities. -/
theorem parity_shiftIn_not (reg : Register) (bit : Bool) :
    parity (shiftIn reg !bit) gen0 = !parity (shiftIn reg bit) gen0 ∧
      parity (shiftIn reg !bit) gen1 = !parity (shiftIn reg bit) gen1 := by
  revert reg bit
  decide +kernel

@[simp] theorem length_convolve (reg : Register) (bits : List Bool) :
    (convolve reg bits).length = 2 * bits.length := by
  induction bits generalizing reg with
  | nil => rfl
  | cons bit bits ih =>
      rw [convolve, List.length_cons, List.length_cons, ih, List.length_cons]
      omega

@[simp] theorem length_inputBits (data : List UInt8) :
    (inputBits data).length = data.length * 8 + tailBits := by
  rw [inputBits, List.length_append, length_bytesToBits, List.length_replicate, Nat.mul_comm]

/-- What enters later does not change what has come out. -/
theorem convolve_append (reg : Register) (bits bits' : List Bool) :
    convolve reg (bits ++ bits') = convolve reg bits ++ convolve (bits.foldl shiftIn reg) bits' := by
  induction bits generalizing reg with
  | nil => rfl
  | cons bit bits ih =>
      rw [List.cons_append, convolve, convolve, ih, List.foldl_cons]
      rfl

/-! ## Lengths -/

theorem puncturedCount_succ (n : Nat) :
    puncturedCount (n + 1) = puncturedCount n + (kept n).toNat := by
  have hpattern : ∀ r < 6, (puncturePattern.take (r + 1)).count true =
      (puncturePattern.take r).count true + (puncturePattern.getD r false).toNat := by decide
  have hr := hpattern (n % 6) (Nat.mod_lt n (by decide))
  simp only [puncturedCount, kept, puncturePeriod]
  rw [Nat.add_assoc, ← hr]
  rcases Nat.lt_or_ge (n % 6) 5 with hmid | hlast
  · rw [show (n + 1) / 6 = n / 6 by omega, show (n + 1) % 6 = n % 6 + 1 by omega]
  · -- the period is complete: its four bits are counted as a period now
    rw [show (n + 1) / 6 = n / 6 + 1 by omega, show (n + 1) % 6 = 0 by omega,
      show n % 6 = 5 by omega]
    have hwhole : (puncturePattern.take (5 + 1)).count true = 4 := by decide
    rw [hwhole, List.take_zero, List.count_nil]
    omega

theorem length_puncture (i : Nat) (bits : List Bool) :
    puncturedCount i + (puncture i bits).length = puncturedCount (i + bits.length) := by
  induction bits generalizing i with
  | nil => rfl
  | cons bit bits ih =>
      have hrest := ih (i + 1)
      rw [puncturedCount_succ, Nat.add_right_comm i 1] at hrest
      rw [puncture, List.length_cons, ← Nat.add_assoc, ← hrest]
      cases kept i with
      | true =>
          rw [if_pos rfl, List.length_cons, Bool.toNat_true]
          omega
      | false => rw [if_neg (by decide), Bool.toNat_false]; rfl

/-- The encoder puts out as many bits as its length computation says. -/
theorem length_codedBits (rate : CodeRate) (data : List UInt8) :
    (codedBits rate data).length = codedBitCount rate data.length := by
  cases rate with
  | rate12 => rw [codedBits, length_convolve, length_inputBits]; rfl
  | rate34 =>
      have h := length_puncture 0 (convolve 0 (inputBits data))
      rw [Nat.zero_add, length_convolve, length_inputBits] at h
      rw [codedBits, codedBitCount, rateHalfBits, ← h]
      exact (Nat.zero_add _).symm

/-! ## Packing -/

theorem toNat_appendBit (current : UInt8) (bit : Bool) :
    ((current <<< 1) ||| bit.toUInt8).toNat = (2 * current.toNat + bit.toNat) % 2 ^ 8 := by
  -- the top bit falls out, so the lowest is free for the new one
  have hshift : (current <<< 1).toNat = 2 ^ 1 * (current.toNat % 128) := by
    have hone : (1 : UInt8).toNat % 8 = 1 := rfl
    rw [UInt8.toNat_shiftLeft, Nat.shiftLeft_eq, hone]
    omega
  have hbit : bit.toUInt8.toNat = bit.toNat := by cases bit <;> rfl
  rw [UInt8.toNat_or, hshift, hbit, ← Nat.two_pow_add_eq_or_of_lt (Bool.toNat_lt bit)]
  have := Bool.toNat_lt bit
  omega

/-- The bits of a byte begun, filled up with zeros. -/
theorem toBits_fill {bitCount : Nat} (hpos : 0 < bitCount) (hcount : bitCount < 8)
    (current : UInt8) :
    toBits 8 (current <<< UInt8.ofNat (8 - bitCount)).toNat =
      toBits bitCount current.toNat ++ List.replicate (8 - bitCount) false := by
  have hshift : (UInt8.ofNat (8 - bitCount)).toNat % 8 = 8 - bitCount := by
    rw [UInt8.toNat_ofNat']
    omega
  have hwidth : bitCount + (8 - bitCount) = 8 := by omega
  rw [UInt8.toNat_shiftLeft, hshift, Nat.shiftLeft_eq, toBits_mod, ← toBits_shift, hwidth]

theorem toBits_appendBit {bitCount : Nat} (hcount : bitCount < 8) (current : UInt8) (bit : Bool) :
    toBits (bitCount + 1) ((current <<< 1) ||| bit.toUInt8).toNat =
      toBits bitCount current.toNat ++ [bit] := by
  rw [toNat_appendBit, toBits_mod_of_le (by omega), toBits_succ]

/-- The bytes hold the bits begun, the bits to come, and zeros to the next
byte. -/
theorem bytesToBits_packLoop {bitCount : Nat} (hcount : bitCount < 8) (current : UInt8)
    (bits : List Bool) :
    bytesToBits (packLoop current bitCount bits) = toBits bitCount current.toNat ++ bits ++
      List.replicate ((8 - (bitCount + bits.length) % 8) % 8) false := by
  -- what is left of the padding depends on the bits begun and to come alone
  induction bits generalizing current bitCount with
  | nil =>
      rw [packLoop, List.append_nil, List.length_nil, Nat.add_zero, Nat.mod_eq_of_lt hcount]
      rcases Nat.eq_zero_or_pos bitCount with rfl | hpos
      · rfl
      · rw [if_pos hpos, bytesToBits_cons, bytesToBits_nil, List.append_nil,
          toBits_fill hpos hcount, Nat.mod_eq_of_lt (by omega : 8 - bitCount < 8)]
  | cons bit bits ih =>
      have hbits := toBits_appendBit hcount current bit
      rw [packLoop, List.length_cons]
      split
      · rename_i hfull
        -- the byte is complete, and the next one begins with no bits
        have hpad : (bitCount + (bits.length + 1)) % 8 = (0 + bits.length) % 8 := by omega
        rw [hfull] at hbits
        rw [bytesToBits_cons, ih (by decide) 0, hbits, hpad]
        simp [toBits]
      · rw [ih (by omega), hbits, Nat.add_right_comm, Nat.add_assoc bitCount]
        simp

/-- The zeros after the last of `n` bits. -/
def packPadding (n : Nat) : List Bool := List.replicate ((8 - n % 8) % 8) false

theorem bytesToBits_packBits (bits : List Bool) :
    bytesToBits (packBits bits) = bits ++ packPadding bits.length := by
  rw [packBits, bytesToBits_packLoop (by decide), Nat.zero_add]
  rfl

theorem length_packBits (bits : List Bool) : (packBits bits).length = (bits.length + 7) / 8 := by
  have h := congrArg List.length (bytesToBits_packBits bits)
  rw [length_bytesToBits, List.length_append, packPadding, List.length_replicate] at h
  omega

theorem FecEncoder.length_encode (e : FecEncoder) (data : List UInt8) :
    (e.encode data).length = e.codedLength data.length := by
  rw [encode, length_packBits, length_codedBits, codedLength]

end QpskB210.Modem
