import Mathlib.Algebra.Group.Nat.Defs
import Mathlib.Data.List.Basic
import Mathlib.Data.List.Induction
import Mathlib.Data.Nat.Bitwise

/-!
# Bits

Numbers and bytes as lists of bits, the most significant first. `toBits`
writes a field of a given width and `ofBits` reads one (`ofBits_toBits`,
`toBits_ofBits`); `bytesToBits` and `takeBytes` do the same for whole bytes.
-/

namespace QpskB210.Lib.Bits

/-- The low `width` bits of a number. -/
def toBits : Nat → Nat → List Bool
  | 0, _ => []
  | width + 1, n => n.testBit width :: toBits width n

/-- The number that the bits spell. -/
def ofBits (bits : List Bool) : Nat := bits.foldl (fun n bit => 2 * n + bit.toNat) 0

def bytesToBits (bytes : List UInt8) : List Bool := bytes.flatMap fun byte => toBits 8 byte.toNat

/-- The first `count` bytes; a byte that the bits run out in is the number
its bits spell. -/
def takeBytes : Nat → List Bool → List UInt8
  | 0, _ => []
  | count + 1, bits => UInt8.ofNat (ofBits (bits.take 8)) :: takeBytes count (bits.drop 8)

/-! ## Numbers -/

@[simp] theorem length_toBits (width n : Nat) : (toBits width n).length = width := by
  induction width with
  | zero => rfl
  | succ width ih => rw [toBits, List.length_cons, ih]

theorem ofBits_concat (bits : List Bool) (bit : Bool) :
    ofBits (bits ++ [bit]) = 2 * ofBits bits + bit.toNat := by
  rw [ofBits, List.foldl_append]
  rfl

/-- One more low bit is one more at the end. -/
theorem toBits_succ (width n : Nat) (bit : Bool) :
    toBits (width + 1) (2 * n + bit.toNat) = toBits width n ++ [bit] := by
  induction width with
  | zero => cases bit <;> simp [toBits, Nat.testBit_zero]
  | succ width ih =>
      have hbit : (2 * n + bit.toNat).testBit (width + 1) = n.testBit width := by
        rw [Nat.testBit_succ]
        congr 1
        cases bit <;> simp only [Bool.toNat_true, Bool.toNat_false] <;> omega
      rw [toBits, hbit, ih, toBits, List.cons_append]

/-- Writing what was read. -/
theorem toBits_ofBits (bits : List Bool) : toBits bits.length (ofBits bits) = bits := by
  induction bits using List.reverseRecOn with
  | nil => rfl
  | append_singleton bits bit ih =>
      rw [List.length_append, List.length_singleton, ofBits_concat, toBits_succ, ih]

theorem ofBits_lt (bits : List Bool) : ofBits bits < 2 ^ bits.length := by
  induction bits using List.reverseRecOn with
  | nil => decide
  | append_singleton bits bit ih =>
      have := Bool.toNat_lt bit
      rw [ofBits_concat, List.length_append, List.length_singleton, Nat.pow_succ]
      omega

/-- A field that is too wide for the bits begins with zeros. -/
theorem toBits_ofBits_of_le {width : Nat} {bits : List Bool} (h : bits.length ≤ width) :
    toBits width (ofBits bits) = List.replicate (width - bits.length) false ++ bits := by
  have hzeros : ∀ k, ofBits (List.replicate k false ++ bits) = ofBits bits := by
    intro k
    induction k with
    | zero => rfl
    | succ k ih => rw [List.replicate_succ, ← ih]; rfl
  have hlen : (List.replicate (width - bits.length) false ++ bits).length = width := by
    rw [List.length_append, List.length_replicate]
    omega
  have hwritten := toBits_ofBits (List.replicate (width - bits.length) false ++ bits)
  rwa [hlen, hzeros] at hwritten

/-- Reading what was written: what fits in the field. -/
theorem ofBits_toBits (width n : Nat) : ofBits (toBits width n) = n % 2 ^ width := by
  induction width generalizing n with
  | zero => rw [pow_zero, Nat.mod_one]; rfl
  | succ width ih =>
      -- the lowest bit is the last one written
      have hsplit : n = 2 * (n / 2) + (n.testBit 0).toNat := by
        rw [Nat.testBit_zero]
        rcases Nat.mod_two_eq_zero_or_one n with h | h <;> simp [h] <;> omega
      conv_lhs => rw [hsplit]
      rw [toBits_succ, ofBits_concat, ih, Nat.pow_succ, Nat.mul_comm (2 ^ width) 2,
        Nat.mod_mul, Nat.testBit_zero]
      rcases Nat.mod_two_eq_zero_or_one n with h | h
      · simp [h]
      · simp [h]
        omega

/-- Only the bits that fit are written. -/
theorem toBits_mod (width n : Nat) : toBits width (n % 2 ^ width) = toBits width n := by
  have h := toBits_ofBits (toBits width n)
  rwa [length_toBits, ofBits_toBits] at h

theorem toBits_mod_of_le {width k : Nat} (h : width ≤ k) (n : Nat) :
    toBits width (n % 2 ^ k) = toBits width n := by
  rw [← toBits_mod, Nat.mod_mod_of_dvd n (Nat.pow_dvd_pow 2 h), toBits_mod]

/-- A field that is cut in two. -/
theorem toBits_add (width k n : Nat) :
    toBits (width + k) n = toBits width (n / 2 ^ k) ++ toBits k n := by
  induction width with
  | zero => rw [Nat.zero_add]; rfl
  | succ width ih =>
      rw [Nat.add_right_comm, toBits, ih, toBits, List.cons_append, Nat.testBit_div_two_pow,
        Nat.add_comm]

theorem toBits_congr {width m n : Nat} (h : m % 2 ^ width = n % 2 ^ width) :
    toBits width m = toBits width n := by
  rw [← toBits_mod, h, toBits_mod]

/-- A number moved up leaves zeros below it. -/
theorem toBits_shift (width n k : Nat) :
    toBits (width + k) (n * 2 ^ k) = toBits width n ++ List.replicate k false := by
  induction k with
  | zero => simp
  | succ k ih =>
      have hdouble : n * 2 ^ (k + 1) = 2 * (n * 2 ^ k) + false.toNat := by
        rw [Nat.pow_succ, Bool.toNat_false, Nat.add_zero, ← Nat.mul_assoc, Nat.mul_comm 2]
      rw [← Nat.add_assoc, hdouble, toBits_succ, ih, List.append_assoc,
        ← List.replicate_succ']

/-! ## Bytes -/

@[simp] theorem bytesToBits_nil : bytesToBits [] = [] := rfl

@[simp] theorem bytesToBits_cons (byte : UInt8) (bytes : List UInt8) :
    bytesToBits (byte :: bytes) = toBits 8 byte.toNat ++ bytesToBits bytes := rfl

theorem bytesToBits_append (bytes bytes' : List UInt8) :
    bytesToBits (bytes ++ bytes') = bytesToBits bytes ++ bytesToBits bytes' :=
  List.flatMap_append

@[simp] theorem length_bytesToBits (bytes : List UInt8) :
    (bytesToBits bytes).length = 8 * bytes.length := by
  induction bytes with
  | nil => rfl
  | cons byte bytes ih =>
      rw [bytesToBits_cons, List.length_append, length_toBits, ih, List.length_cons]
      omega

theorem ofBits_byte (byte : UInt8) : UInt8.ofNat (ofBits (toBits 8 byte.toNat)) = byte := by
  rw [ofBits_toBits, Nat.mod_eq_of_lt byte.toNat_lt, UInt8.ofNat_toNat]

/-- Reading the bytes that were written, whatever follows them. -/
theorem takeBytes_bytesToBits (bytes : List UInt8) (rest : List Bool) :
    takeBytes bytes.length (bytesToBits bytes ++ rest) = bytes := by
  induction bytes with
  | nil => rfl
  | cons byte bytes ih =>
      have hlen : (toBits 8 byte.toNat).length = 8 := length_toBits 8 byte.toNat
      rw [bytesToBits_cons, List.append_assoc, List.length_cons, takeBytes,
        List.take_left' hlen, List.drop_left' hlen, ofBits_byte, ih]

theorem toBits_ofBits_byte {bits : List Bool} (h : bits.length ≤ 8) :
    toBits 8 (UInt8.ofNat (ofBits bits)).toNat =
      List.replicate (8 - bits.length) false ++ bits := by
  rw [UInt8.toNat_ofNat', toBits_mod, toBits_ofBits_of_le h]

@[simp] theorem length_takeBytes (count : Nat) (bits : List Bool) :
    (takeBytes count bits).length = count := by
  induction count generalizing bits with
  | zero => rfl
  | succ count ih => rw [takeBytes, List.length_cons, ih]

/-- Bytes read from all of the bits hold the bits. -/
theorem bytesToBits_takeBytes {count : Nat} {bits : List Bool} (h : bits.length = 8 * count) :
    bytesToBits (takeBytes count bits) = bits := by
  induction count generalizing bits with
  | zero => exact (List.length_eq_zero_iff.mp h).symm
  | succ count ih =>
      have hbyte : (bits.take 8).length = 8 := by rw [List.length_take]; omega
      rw [takeBytes, bytesToBits_cons, toBits_ofBits_byte (Nat.le_of_eq hbyte), hbyte,
        ih (by rw [List.length_drop]; omega)]
      exact List.take_append_drop 8 bits

/-- Only the bits of the bytes are read. -/
theorem takeBytes_take (count : Nat) (bits : List Bool) :
    takeBytes count (bits.take (8 * count)) = takeBytes count bits := by
  induction count generalizing bits with
  | zero => rfl
  | succ count ih =>
      have hfirst : min 8 (8 * (count + 1)) = 8 := by omega
      have hrest : 8 * (count + 1) - 8 = 8 * count := by omega
      rw [takeBytes, takeBytes, List.take_take, hfirst, List.drop_take, hrest, ih]

/-- The bits of each byte stand where the byte stands. -/
theorem getElem?_bytesToBits (bytes : List UInt8) (j : Nat) {r : Nat} (hr : r < 8) :
    (bytesToBits bytes)[8 * j + r]? =
      bytes[j]?.bind fun byte => (toBits 8 byte.toNat)[r]? := by
  induction bytes generalizing j with
  | nil => simp
  | cons byte bytes ih =>
      rw [bytesToBits_cons]
      cases j with
      | zero =>
          rw [List.getElem?_append_left (by rw [length_toBits]; omega), Nat.mul_zero, Nat.zero_add]
          rfl
      | succ j =>
          have hindex : 8 * (j + 1) + r - 8 = 8 * j + r := by omega
          rw [List.getElem?_append_right (by rw [length_toBits]; omega), length_toBits, hindex, ih,
            List.getElem?_cons_succ]

/-- Bytes of which all bits agree are the same. -/
theorem getElem?_eq_of_bits {bytes bytes' : List UInt8} (hlen : bytes.length = bytes'.length)
    {j : Nat}
    (h : ∀ i, i / 8 = j → (bytesToBits bytes)[i]? = (bytesToBits bytes')[i]?) :
    bytes[j]? = bytes'[j]? := by
  by_cases hj : j < bytes.length
  · have hj' : j < bytes'.length := by omega
    have hbits : toBits 8 bytes[j].toNat = toBits 8 bytes'[j].toNat := by
      apply List.ext_getElem?
      intro r
      by_cases hr : r < 8
      · have hbit := h (8 * j + r) (by omega)
        rwa [getElem?_bytesToBits _ _ hr, getElem?_bytesToBits _ _ hr,
          List.getElem?_eq_getElem hj, List.getElem?_eq_getElem hj', Option.bind_some,
          Option.bind_some] at hbit
      · rw [List.getElem?_eq_none (by rw [length_toBits]; omega),
          List.getElem?_eq_none (by rw [length_toBits]; omega)]
    have hbyte := congrArg (fun bits => UInt8.ofNat (ofBits bits)) hbits
    rw [ofBits_byte, ofBits_byte] at hbyte
    rw [List.getElem?_eq_getElem hj, List.getElem?_eq_getElem hj', hbyte]
  · rw [List.getElem?_eq_none (by omega), List.getElem?_eq_none (by omega)]

/-- Reading bytes makes no ones. -/
theorem count_takeBytes_le (count : Nat) (bits : List Bool) :
    (bytesToBits (takeBytes count bits)).count true ≤ bits.length := by
  induction count generalizing bits with
  | zero => exact Nat.zero_le _
  | succ count ih =>
      have hrest := ih (bits.drop 8)
      have hbyte := List.count_le_length (a := true) (l := bits.take 8)
      have hsum := congrArg List.length (List.take_append_drop 8 bits)
      rw [List.length_append] at hsum
      rw [takeBytes, bytesToBits_cons,
        toBits_ofBits_byte (by rw [List.length_take]; exact Nat.min_le_left ..),
        List.count_append, List.count_append, List.count_replicate, if_neg (by decide)]
      omega

/-! ## Fields -/

/-- The bits of a field that begins where `before` ends. -/
theorem take_drop_field (before field after : List Bool) :
    ((before ++ (field ++ after)).drop before.length).take field.length = field := by
  rw [List.drop_left, List.take_left]

/-- Cutting the third of four parts out and putting another in its place. -/
theorem splice_third (first second third fourth new : List Bool) :
    let bits := first ++ (second ++ (third ++ fourth))
    bits.take (first.length + second.length) ++ new ++ bits.drop (bits.length - fourth.length) =
      first ++ (second ++ (new ++ fourth)) := by
  intro bits
  have hhead : bits = first ++ second ++ (third ++ fourth) := by simp [bits]
  have htail : bits = first ++ second ++ third ++ fourth := by simp [bits]
  have hcut : bits.length - fourth.length = (first ++ second ++ third).length := by
    rw [htail, List.length_append, Nat.add_sub_cancel]
  rw [hcut]
  conv_lhs =>
    congr
    · rw [hhead, ← List.length_append, List.take_left]
    · rw [htail, List.drop_left]
  simp

end QpskB210.Lib.Bits
