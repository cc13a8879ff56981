import Mathlib.Algebra.Group.Nat.Defs
import Mathlib.Logic.Function.Iterate

/-!
# Cyclic redundancy checks

A check computed in reflected form: a register of `w` bits that is shifted
down, with the polynomial added whenever a one falls out, and into which each
byte is added at the low end. A round is linear in exclusive or, and where the
polynomial has its top bit it loses nothing (`round_injective`); so registers
that differ stay different, and bytes that fit in the register side by side
are told apart (`feedAll_window_inj`).
-/

namespace QpskB210.Lib.Crc

variable {w : Nat} (poly : BitVec w)

/-- One bit falls out. -/
def round (c : BitVec w) : BitVec w :=
  if c.getLsbD 0 then (c >>> 1) ^^^ poly else c >>> 1

def rounds (n : Nat) (c : BitVec w) : BitVec w := (round poly)^[n] c

/-- A byte enters, and eight bits fall out. -/
def feed (c : BitVec w) (byte : BitVec 8) : BitVec w := rounds poly 8 (c ^^^ byte.setWidth w)

def feedAll (c : BitVec w) (bytes : List (BitVec 8)) : BitVec w := bytes.foldl (feed poly) c

/-- Bytes side by side, the first one lowest. -/
def sideBySide : List (BitVec 8) → BitVec w
  | [] => 0
  | byte :: bytes => byte.setWidth w ^^^ (sideBySide bytes <<< 8)

/-! ## Rounds -/

variable {poly} {n : Nat}

@[simp] theorem rounds_zero (c : BitVec w) : rounds poly 0 c = c := rfl

theorem rounds_succ (n : Nat) (c : BitVec w) :
    rounds poly (n + 1) c = rounds poly n (round poly c) := rfl

theorem rounds_add (m n : Nat) (c : BitVec w) :
    rounds poly (m + n) c = rounds poly m (rounds poly n c) := Function.iterate_add_apply ..

/-- What is added to both sides cancels. -/
theorem xor_xor_cancel (a b c : BitVec w) : (a ^^^ c) ^^^ (b ^^^ c) = a ^^^ b := by
  rw [BitVec.xor_comm b c, BitVec.xor_assoc, ← BitVec.xor_assoc c c b, BitVec.xor_self,
    BitVec.zero_xor]

theorem xor_right_inj {a b c : BitVec w} (h : a ^^^ c = b ^^^ c) : a = b := by
  have h' := congrArg (· ^^^ c) h
  simpa [BitVec.xor_assoc] using h'

theorem xor_left_inj {a b c : BitVec w} (h : c ^^^ a = c ^^^ b) : a = b := by
  rw [BitVec.xor_comm c a, BitVec.xor_comm c b] at h
  exact xor_right_inj h

theorem round_xor (a b : BitVec w) : round poly (a ^^^ b) = round poly a ^^^ round poly b := by
  unfold round
  rw [BitVec.getLsbD_xor, BitVec.ushiftRight_xor_distrib]
  cases a.getLsbD 0 <;> cases b.getLsbD 0
  · rfl
  · exact BitVec.xor_assoc ..
  · simp only [Bool.xor_false, if_true, Bool.false_eq_true, if_false]
    rw [BitVec.xor_assoc, BitVec.xor_comm (b >>> 1), ← BitVec.xor_assoc]
  · simp only [Bool.xor_self, if_true, Bool.false_eq_true, if_false]
    rw [xor_xor_cancel]

theorem rounds_xor (n : Nat) (a b : BitVec w) :
    rounds poly n (a ^^^ b) = rounds poly n a ^^^ rounds poly n b := by
  induction n generalizing a b with
  | zero => rfl
  | succ n ih => rw [rounds_succ, round_xor, ih, ← rounds_succ, ← rounds_succ]

/-- The top bit says whether a one fell out. -/
theorem msb_round (hpoly : poly.msb = true) (c : BitVec w) :
    (round poly c).msb = c.getLsbD 0 := by
  have htop : (c >>> 1).msb = false := by rw [BitVec.msb_ushiftRight]; rfl
  unfold round
  split
  · rename_i hone
    rw [BitVec.msb_xor, htop, hpoly, hone]
    rfl
  · rename_i hzero
    rw [htop]
    exact (Bool.eq_false_iff.mpr hzero).symm

/-- Where the polynomial has its top bit, a round can be undone. -/
theorem round_injective (hpoly : poly.msb = true) {a b : BitVec w}
    (h : round poly a = round poly b) : a = b := by
  have hlow : a.getLsbD 0 = b.getLsbD 0 := by rw [← msb_round hpoly, h, msb_round hpoly]
  have hrest : a >>> 1 = b >>> 1 := by
    unfold round at h
    rw [hlow] at h
    split at h
    · exact xor_right_inj h
    · exact h
  apply BitVec.eq_of_getLsbD_eq
  intro i _
  cases i with
  | zero => exact hlow
  | succ i =>
      have hbit := congrArg (BitVec.getLsbD · i) hrest
      simpa [BitVec.getLsbD_ushiftRight, Nat.add_comm 1] using hbit

theorem rounds_injective (hpoly : poly.msb = true) (n : Nat) {a b : BitVec w}
    (h : rounds poly n a = rounds poly n b) : a = b := by
  induction n generalizing a b with
  | zero => exact h
  | succ n ih => exact round_injective hpoly (ih h)

/-- Zeros that fall out leave the rest as it was. -/
theorem rounds_shiftLeft {x : BitVec w} (hx : ∀ i, w ≤ i + n → x.getLsbD i = false) :
    rounds poly n (x <<< n) = x := by
  induction n with
  | zero => exact BitVec.shiftLeft_zero x
  | succ n ih =>
      have hround : round poly (x <<< (n + 1)) = x <<< n := by
        have hlow : (x <<< (n + 1)).getLsbD 0 = false := by simp
        unfold round
        rw [hlow, if_neg Bool.false_ne_true]
        apply BitVec.eq_of_getLsbD_eq
        intro i hi
        -- only the top bit could be lost, and it is zero
        have htop := hx (i - n)
        rw [BitVec.getLsbD_ushiftRight, BitVec.getLsbD_shiftLeft, BitVec.getLsbD_shiftLeft]
        by_cases hbelow : i < n
        · simp [hbelow, Nat.add_comm 1]
        · have hindex : 1 + i - (n + 1) = i - n := by omega
          rw [hindex]
          by_cases hlast : 1 + i < w
          · have hlater : ¬ 1 + i < n + 1 := by omega
            simp [hlast, hlater, hi, hbelow]
          · rw [htop (by omega)]
            simp
      rw [rounds_succ, hround]
      exact ih fun i hi => hx i (by omega)

/-- The low bits go through the rounds and the others move down: what a table
of the low bits' rounds is good for. -/
theorem rounds_split (n : Nat) (c : BitVec w) :
    rounds poly n c = rounds poly n ((c.setWidth n).setWidth w) ^^^ (c >>> n) := by
  have hparts : c = (c.setWidth n).setWidth w ^^^ ((c >>> n) <<< n) := by
    apply BitVec.eq_of_getLsbD_eq
    intro i hi
    rw [BitVec.getLsbD_xor, BitVec.getLsbD_setWidth, BitVec.getLsbD_setWidth,
      BitVec.getLsbD_shiftLeft, BitVec.getLsbD_ushiftRight]
    by_cases hlow : i < n
    · simp [hi, hlow]
    · have hindex : n + (i - n) = i := by omega
      simp [hi, hlow, hindex]
  have hhigh : rounds poly n ((c >>> n) <<< n) = c >>> n := by
    apply rounds_shiftLeft
    intro i hi
    rw [BitVec.getLsbD_ushiftRight]
    exact BitVec.getLsbD_of_ge c (n + i) (by omega)
  calc rounds poly n c
      = rounds poly n ((c.setWidth n).setWidth w ^^^ ((c >>> n) <<< n)) := congrArg _ hparts
    _ = rounds poly n ((c.setWidth n).setWidth w) ^^^ (c >>> n) := by rw [rounds_xor, hhigh]

/-! ## Bytes -/

/-- The step of a loop that has the rounds of a byte in a table. -/
theorem feed_eq_table (c : BitVec w) (byte : BitVec 8) :
    feed poly c byte =
      rounds poly 8 (((c ^^^ byte.setWidth w).setWidth 8).setWidth w) ^^^ (c >>> 8) := by
  have hbyte : (byte.setWidth w) >>> 8 = 0 := by
    apply BitVec.eq_of_getLsbD_eq
    intro i hi
    rw [BitVec.getLsbD_ushiftRight, BitVec.getLsbD_setWidth,
      BitVec.getLsbD_of_ge byte (8 + i) (by omega), Bool.and_false]
    exact BitVec.getLsbD_zero.symm
  rw [feed, rounds_split, BitVec.ushiftRight_xor_distrib, hbyte]
  exact congrArg _ (BitVec.xor_zero)

theorem getLsbD_sideBySide {bytes : List (BitVec 8)} {i : Nat} (hi : 8 * bytes.length ≤ i) :
    (sideBySide bytes : BitVec w).getLsbD i = false := by
  induction bytes generalizing i with
  | nil => exact BitVec.getLsbD_zero
  | cons byte bytes ih =>
      rw [List.length_cons] at hi
      rw [sideBySide, BitVec.getLsbD_xor, BitVec.getLsbD_setWidth, BitVec.getLsbD_shiftLeft,
        BitVec.getLsbD_of_ge byte i (by omega), ih (by omega)]
      simp

/-- Bytes that fit side by side into the register can enter all at once. -/
theorem feedAll_eq_rounds {bytes : List (BitVec 8)} (hfit : 8 * bytes.length ≤ w) (c : BitVec w) :
    feedAll poly c bytes = rounds poly (8 * bytes.length) (c ^^^ sideBySide bytes) := by
  induction bytes generalizing c with
  | nil => exact (BitVec.xor_zero).symm
  | cons byte bytes ih =>
      rw [List.length_cons] at hfit
      have hlater : rounds poly 8 (sideBySide bytes <<< 8) = sideBySide bytes :=
        rounds_shiftLeft fun i hi => getLsbD_sideBySide (by omega)
      have hcount : 8 * (bytes.length + 1) = 8 * bytes.length + 8 := by omega
      calc feedAll poly c (byte :: bytes)
          = feedAll poly (feed poly c byte) bytes := rfl
        _ = rounds poly (8 * bytes.length) (feed poly c byte ^^^ sideBySide bytes) :=
            ih (by omega) _
        _ = rounds poly (8 * bytes.length)
              (rounds poly 8 ((c ^^^ byte.setWidth w) ^^^ (sideBySide bytes <<< 8))) := by
            rw [rounds_xor 8, hlater]
            rfl
        _ = rounds poly (8 * (byte :: bytes).length) (c ^^^ sideBySide (byte :: bytes)) := by
            rw [List.length_cons, hcount, rounds_add, sideBySide, BitVec.xor_assoc]

/-- Bytes side by side can be read off again. -/
theorem sideBySide_inj {bytes bytes' : List (BitVec 8)} (hlen : bytes.length = bytes'.length)
    (hfit : 8 * bytes.length ≤ w)
    (h : (sideBySide bytes : BitVec w) = sideBySide bytes') : bytes = bytes' := by
  induction bytes generalizing bytes' with
  | nil => exact (List.length_eq_zero_iff.mp hlen.symm).symm
  | cons byte bytes ih =>
      obtain ⟨byte', bytes', rfl⟩ := List.exists_cons_of_length_eq_add_one hlen.symm
      rw [List.length_cons] at hfit
      have hlen : bytes.length = bytes'.length := Nat.succ.inj hlen
      have hbits := fun i => congrArg (BitVec.getLsbD · i) h
      simp only [sideBySide, BitVec.getLsbD_xor, BitVec.getLsbD_setWidth,
        BitVec.getLsbD_shiftLeft] at hbits
      have hbyte : byte = byte' := by
        apply BitVec.eq_of_getLsbD_eq
        intro i hi
        have hbit := hbits i
        have hwide : i < w := by omega
        simpa [hi, hwide] using hbit
      have hrest : (sideBySide bytes : BitVec w) = sideBySide bytes' := by
        apply BitVec.eq_of_getLsbD_eq
        intro i _
        by_cases hi : i + 8 < w
        · have hbit := hbits (i + 8)
          have hpast : ¬ i + 8 < 8 := by omega
          simpa [hi, hpast, hbyte] using hbit
        · rw [getLsbD_sideBySide (by omega), getLsbD_sideBySide (by omega)]
      rw [hbyte, ih hlen (by omega) hrest]

/-- Registers that differ stay different. -/
theorem feedAll_injective (hpoly : poly.msb = true) (bytes : List (BitVec 8)) {c c' : BitVec w}
    (h : feedAll poly c bytes = feedAll poly c' bytes) : c = c' := by
  induction bytes generalizing c c' with
  | nil => exact h
  | cons byte bytes ih => exact xor_right_inj (rounds_injective hpoly 8 (ih h))

/-- **Bursts.** Bytes in the same place that fit in the register are told
apart, whatever comes before and after them. -/
theorem feedAll_window_inj (hpoly : poly.msb = true) {window window' : List (BitVec 8)}
    (hlen : window.length = window'.length) (hfit : 8 * window.length ≤ w)
    (before after : List (BitVec 8)) (c : BitVec w)
    (h : feedAll poly c (before ++ window ++ after) =
      feedAll poly c (before ++ window' ++ after)) : window = window' := by
  simp only [feedAll, List.foldl_append] at h
  have hmiddle := feedAll_injective hpoly after h
  have hrounds := @feedAll_eq_rounds w poly window hfit (before.foldl (feed poly) c)
  have hrounds' := @feedAll_eq_rounds w poly window' (hlen ▸ hfit) (before.foldl (feed poly) c)
  rw [feedAll] at hrounds hrounds'
  rw [hrounds, hrounds', ← hlen] at hmiddle
  exact sideBySide_inj hlen hfit (xor_left_inj (rounds_injective hpoly _ hmiddle))

end QpskB210.Lib.Crc
