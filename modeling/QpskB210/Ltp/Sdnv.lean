import QpskB210.Lib.Reader
import QpskB210.Ltp.Basic
import Mathlib.Tactic.Ring

/-!
# LTP — Sdnv

Self-delimiting numeric values: a `uint64_t` in big-endian groups of seven
bits, the top bit of a byte set on every byte but the last.

`decode` is the source's loop. `lang` is what it accepts: a chain of
continuation bytes closed by one without the flag, at most `maxBytes` long
in all, carrying the value its groups accumulate to (the accumulator is a
`uint64_t`, so a ten-byte chain may drop bits).
-/

namespace QpskB210.Ltp.Sdnv

open QpskB210.Lib

/-- Maximum SDNV byte length. -/
def maxBytes : Nat := 10

/-- The `tmp` buffer of `encode`, least significant group first. The loop
runs `while (value > 0)`, at most `maxBytes` times on 64 bits. -/
def encodeTmp : Nat → UInt64 → Bool → List UInt8
  | 0, _, _ => []
  | fuel + 1, value, first =>
      if value = 0 then []
      else
        let byte := (value &&& 0x7F).toUInt8
        (if first then byte else byte ||| 0x80) :: encodeTmp fuel (value >>> 7) false

/-- `sdnv::encode`. -/
def encode (value : UInt64) : List UInt8 :=
  if value = 0 then [0x00]
  else (encodeTmp maxBytes value true).reverse

/-- The body of `sdnv::decode`, over the bytes from `offset` on. -/
def decodeLoop : List UInt8 → Nat → Nat → UInt64 → Except Exn (UInt64 × Nat)
  | [], _, bytesConsumed, _ =>
      .error (.runtimeError ("SDNV decode error: truncated sequence — continuation bit set on "
        ++ "last available byte (consumed " ++ toString bytesConsumed ++ " bytes)"))
  | byte :: rest, offset, bytesConsumed, value =>
      if bytesConsumed + 1 > maxBytes then
        .error (.runtimeError ("SDNV decode error: sequence exceeds maximum of 10 bytes "
          ++ "(value would exceed 2^63 - 1)"))
      else
        let value := (value <<< 7) ||| (byte &&& 0x7F).toUInt64
        if byte &&& 0x80 = 0 then .ok (value, offset + 1)
        else decodeLoop rest (offset + 1) (bytesConsumed + 1) value

/-- `sdnv::decode`. -/
def decode : Reader UInt8 Exn UInt64 := fun data offset =>
  if data.length ≤ offset then
    .error (.runtimeError ("SDNV decode error: no data available at offset " ++ toString offset))
  else decodeLoop (data.drop offset) offset 0 0

/-! ## The language -/

/-- Continuation bytes closed by a byte without the flag. -/
def isCode : List UInt8 → Prop
  | [] => False
  | byte :: rest => if byte &&& 0x80 = 0 then rest = [] else isCode rest

/-- One round of the decoder's accumulator. -/
def push (value : UInt64) (byte : UInt8) : UInt64 :=
  (value <<< 7) ||| (byte &&& 0x7F).toUInt64

/-- The codes `decode` accepts, with the value it returns for each. -/
def lang : Lang UInt8 UInt64 := fun w v =>
  isCode w ∧ w.length ≤ maxBytes ∧ v = w.foldl push 0

theorem exists_cons_of_isCode {w : List UInt8} (h : isCode w) : ∃ b rest, w = b :: rest := by
  cases w with
  | nil => exact h.elim
  | cons b rest => exact ⟨b, rest, rfl⟩

theorem decodeLoop_ok_iff (l : List UInt8) (off n : Nat) (acc v : UInt64) (off' : Nat) :
    decodeLoop l off n acc = .ok (v, off') ↔
      ∃ w, w <+: l ∧ isCode w ∧ n + w.length ≤ maxBytes ∧ v = w.foldl push acc ∧
        off' = off + w.length := by
  induction l generalizing off n acc with
  | nil =>
      constructor
      · intro h
        cases h
      · intro h
        obtain ⟨w, hw, hc, -⟩ := h
        rw [List.prefix_nil.mp hw] at hc
        exact hc.elim
  | cons byte rest ih =>
      rw [decodeLoop]
      by_cases hn : n + 1 > maxBytes
      · rw [if_pos hn]
        constructor
        · intro h
          cases h
        · intro h
          obtain ⟨w, -, hc, hlen, -⟩ := h
          obtain ⟨b, w, rfl⟩ := exists_cons_of_isCode hc
          simp only [List.length_cons] at hlen
          omega
      · rw [if_neg hn]
        by_cases hstop : byte &&& 0x80 = 0
        · simp only [if_pos hstop]
          constructor
          · intro h
            cases h
            exact ⟨[byte], ⟨rest, rfl⟩, by simp [isCode, hstop], by simp; omega, rfl, rfl⟩
          · intro h
            obtain ⟨w, hw, hc, -, rfl, rfl⟩ := h
            obtain ⟨b, w, rfl⟩ := exists_cons_of_isCode hc
            obtain ⟨rfl, -⟩ := List.cons_prefix_cons.mp hw
            rw [isCode, if_pos hstop] at hc
            subst hc
            rfl
        · simp only [if_neg hstop]
          rw [ih]
          constructor
          · intro h
            obtain ⟨w, hw, hc, hlen, rfl, rfl⟩ := h
            refine ⟨byte :: w, List.cons_prefix_cons.mpr ⟨rfl, hw⟩, ?_, ?_, rfl, ?_⟩
            · rwa [isCode, if_neg hstop]
            · simp only [List.length_cons]; omega
            · simp only [List.length_cons]; omega
          · intro h
            obtain ⟨w, hw, hc, hlen, rfl, rfl⟩ := h
            obtain ⟨b, w, rfl⟩ := exists_cons_of_isCode hc
            obtain ⟨rfl, hrest⟩ := List.cons_prefix_cons.mp hw
            rw [isCode, if_neg hstop] at hc
            simp only [List.length_cons] at hlen ⊢
            exact ⟨w, hrest, hc, by omega, rfl, by omega⟩

/-- The loop throws nothing but `std::runtime_error`. -/
theorem decodeLoop_error {l : List UInt8} {off n : Nat} {acc : UInt64} {e : Exn}
    (h : decodeLoop l off n acc = .error e) : ¬ e.Escapes := by
  induction l generalizing off n acc with
  | nil => cases h; exact id
  | cons byte rest ih =>
      rw [decodeLoop] at h
      split at h
      · cases h; exact id
      · dsimp only at h
        split at h
        · cases h
        · exact ih h

/-- `decode` reads exactly the codes and throws nothing else. -/
theorem recognises (bound : Nat) : Recognises bound Exn.Escapes decode lang Trap.none where
  ok_iff := by
    intro data off _ hoff v off'
    rw [decode]
    split
    · rename_i hle
      constructor
      · intro h
        cases h
      · intro h
        obtain ⟨w, hw, ⟨hc, -⟩, -⟩ := h
        rw [List.drop_eq_nil_of_le hle, List.prefix_nil] at hw
        subst hw
        exact hc.elim
    · rw [decodeLoop_ok_iff]
      simp only [lang, Nat.zero_add, and_assoc]
  fatal_iff := by
    intro data off _ _ e
    constructor
    · intro h
      obtain ⟨h, hf⟩ := h
      rw [decode] at h
      split at h
      · cases h
        exact hf.elim
      · exact (decodeLoop_error h hf).elim
    · intro h
      obtain ⟨w, -, h⟩ := h
      exact h.elim

/-! ## The encoder -/

/-- One round of the loop, with the bits it drops at the top. -/
theorem toNat_push_mod (value : UInt64) (byte : UInt8) :
    (push value byte).toNat = (value.toNat * 128 + byte.toNat % 128) % 2 ^ 64 := by
  have hbyte : ((byte &&& 0x7F).toUInt64).toNat = byte.toNat % 128 := by
    rw [UInt8.toNat_toUInt64, UInt8.toNat_and]
    exact Nat.and_two_pow_sub_one_eq_mod _ 7
  have hshift : (value <<< 7).toNat = 2 ^ 7 * (value.toNat % 2 ^ 57) := by
    rw [UInt64.toNat_shiftLeft, Nat.shiftLeft_eq]
    simp only [UInt64.reduceToNat, Nat.reduceMod]
    omega
  rw [push, UInt64.toNat_or, hbyte, hshift, ← Nat.two_pow_add_eq_or_of_lt (by omega)]
  omega

theorem toNat_push (value : UInt64) (byte : UInt8) (h : value.toNat < 2 ^ 57) :
    (push value byte).toNat = value.toNat * 128 + byte.toNat % 128 := by
  rw [toNat_push_mod]
  omega

theorem toNat_shiftRight_seven (value : UInt64) : (value >>> 7).toNat = value.toNat / 128 := by
  rw [UInt64.toNat_shiftRight, Nat.shiftRight_eq_div_pow]
  rfl

theorem toNat_low_group (value : UInt64) :
    ((value &&& 0x7F).toUInt8).toNat = value.toNat % 128 := by
  rw [UInt64.toNat_toUInt8, UInt64.toNat_and]
  have h : value.toNat &&& (0x7F : UInt64).toNat = value.toNat % 2 ^ 7 :=
    Nat.and_two_pow_sub_one_eq_mod _ 7
  rw [h]
  omega

theorem toNat_set_flag {byte : UInt8} (h : byte.toNat < 128) :
    (byte ||| 0x80).toNat = byte.toNat + 128 := by
  rw [UInt8.toNat_or, Nat.or_comm]
  have h80 : (0x80 : UInt8).toNat = 2 ^ 7 * 1 := rfl
  rw [h80, ← Nat.two_pow_add_eq_or_of_lt h]
  omega

theorem flag_clear {byte : UInt8} (h : byte.toNat < 128) : byte &&& 0x80 = 0 := by
  have hall : ∀ b : Fin 128, UInt8.ofNat b.val &&& 0x80 = 0 := by decide +kernel
  have := hall ⟨byte.toNat, h⟩
  rwa [UInt8.ofNat_toNat] at this

theorem flag_set (byte : UInt8) : (byte ||| 0x80) &&& 0x80 ≠ 0 := by
  have hall := @forall_byte (fun b => (b ||| 0x80) &&& 0x80 ≠ 0) (by decide +kernel)
  exact hall byte

/-- Pushing the low group back onto the rest restores the value, with or
without the continuation flag. -/
theorem push_low_group (value : UInt64) (first : Bool) :
    push (value >>> 7) (if first then (value &&& 0x7F).toUInt8
      else (value &&& 0x7F).toUInt8 ||| 0x80) = value := by
  have hv := value.toNat_lt
  have hlow := toNat_low_group value
  have hhigh := toNat_shiftRight_seven value
  apply UInt64.toNat_inj.mp
  rw [toNat_push _ _ (by omega), hhigh]
  cases first
  · rw [if_neg Bool.false_ne_true, toNat_set_flag (by omega)]
    omega
  · rw [if_pos rfl]
    omega

/-- The groups of a value of `7 * n` bits accumulate to it. -/
theorem foldl_push_encodeTmp (n : Nat) (value : UInt64) (first : Bool)
    (h : value.toNat < 2 ^ (7 * n)) :
    (encodeTmp n value first).reverse.foldl push 0 = value := by
  induction n generalizing value first with
  | zero =>
      have h0 : value = 0 := UInt64.toNat_inj.mp (by simpa using h)
      subst h0
      rfl
  | succ n ih =>
      rw [encodeTmp]
      split
      · rename_i h0
        subst h0
        rfl
      · have hlt : (value >>> 7).toNat < 2 ^ (7 * n) := by
          rw [toNat_shiftRight_seven]
          apply Nat.div_lt_of_lt_mul
          calc value.toNat < 2 ^ (7 * (n + 1)) := h
            _ = 128 * 2 ^ (7 * n) := by ring
        simp only [List.reverse_cons, List.foldl_append, List.foldl_cons, List.foldl_nil]
        rw [ih _ _ hlt]
        exact push_low_group value first

theorem length_encodeTmp_le (n : Nat) (value : UInt64) (first : Bool) :
    (encodeTmp n value first).length ≤ n := by
  induction n generalizing value first with
  | zero => exact Nat.le_refl 0
  | succ n ih =>
      rw [encodeTmp]
      split
      · exact Nat.zero_le _
      · exact Nat.succ_le_succ (ih _ _)

/-- Every byte after the first group written carries the flag. -/
theorem flag_of_mem_encodeTmp {n : Nat} {value : UInt64} {byte : UInt8}
    (h : byte ∈ encodeTmp n value false) : byte &&& 0x80 ≠ 0 := by
  induction n generalizing value with
  | zero => cases h
  | succ n ih =>
      rw [encodeTmp] at h
      split at h
      · cases h
      · rcases List.mem_cons.mp h with rfl | h
        · exact flag_set _
        · exact ih h

theorem isCode_concat {init : List UInt8} {last : UInt8}
    (hinit : ∀ byte ∈ init, byte &&& 0x80 ≠ 0) (hlast : last &&& 0x80 = 0) :
    isCode (init ++ [last]) := by
  induction init with
  | nil => simp [isCode, hlast]
  | cons byte init ih =>
      rw [List.cons_append, isCode, if_neg (hinit byte (by simp))]
      exact ih fun b hb => hinit b (by simp [hb])

/-- `encode` writes the code of its argument. -/
theorem lang_encode (value : UInt64) : lang (encode value) value := by
  rw [encode]
  split
  · rename_i h
    subst h
    exact ⟨rfl, by decide, rfl⟩
  · rename_i h
    have hv := value.toNat_lt
    refine ⟨?_, ?_, (foldl_push_encodeTmp maxBytes value true ?_).symm⟩
    · rw [maxBytes, encodeTmp, if_neg h, List.reverse_cons]
      refine isCode_concat ?_ (flag_clear ?_)
      · intro byte hb
        exact flag_of_mem_encodeTmp (List.mem_reverse.mp hb)
      · have := toNat_low_group value
        simp only [if_true]
        omega
    · rw [List.length_reverse]
      exact length_encodeTmp_le _ _ _
    · rw [maxBytes]
      omega

theorem length_encode_le (value : UInt64) : (encode value).length ≤ maxBytes :=
  (lang_encode value).2.1

/-- No code is the beginning of another one. -/
theorem isCode_append_inj {w w' x y : List UInt8} (hw : isCode w) (hw' : isCode w')
    (h : w ++ x = w' ++ y) : w = w' ∧ x = y := by
  induction w generalizing w' with
  | nil => exact hw.elim
  | cons byte w ih =>
      cases w' with
      | nil => exact hw'.elim
      | cons byte' w' =>
          rw [List.cons_append, List.cons_append, List.cons.injEq] at h
          obtain ⟨rfl, h⟩ := h
          rw [isCode] at hw hw'
          split at hw
          · rename_i hstop
            rw [if_pos hstop] at hw'
            subst hw hw'
            exact ⟨rfl, h⟩
          · rename_i hmore
            rw [if_neg hmore] at hw'
            obtain ⟨rfl, hrest⟩ := ih hw hw' h
            exact ⟨rfl, hrest⟩

theorem encode_append_inj {a b : UInt64} {x y : List UInt8} (h : encode a ++ x = encode b ++ y) :
    a = b ∧ x = y := by
  obtain ⟨hcode, -, ha⟩ := lang_encode a
  obtain ⟨hcode', -, hb⟩ := lang_encode b
  obtain ⟨hsame, hrest⟩ := isCode_append_inj hcode hcode' h
  rw [ha, hsame, ← hb]
  exact ⟨rfl, hrest⟩

/-! ## The shortest code -/

/-- One more group adds seven bits, also where the accumulator wraps. -/
theorem toNat_push_lt {value : UInt64} {byte : UInt8} {n : Nat} (h : value.toNat < 2 ^ n) :
    (push value byte).toNat < 2 ^ (n + 7) := by
  rw [toNat_push_mod, Nat.pow_add]
  have hwrap := Nat.mod_le (value.toNat * 128 + byte.toNat % 128) (2 ^ 64)
  omega

theorem toNat_foldl_push_lt (w : List UInt8) {acc : UInt64} {n : Nat} (h : acc.toNat < 2 ^ n) :
    (w.foldl push acc).toNat < 2 ^ (n + 7 * w.length) := by
  induction w generalizing acc n with
  | nil => exact h
  | cons byte w ih =>
      have hgroups : n + 7 * (w.length + 1) = n + 7 + 7 * w.length := by omega
      rw [List.foldl_cons, List.length_cons, hgroups]
      exact ih (toNat_push_lt h)

/-- A value of `7 * n` bits takes at most `n` groups. -/
theorem length_encodeTmp_le_of_lt {n : Nat} (fuel : Nat) {value : UInt64} (first : Bool)
    (h : value.toNat < 2 ^ (7 * n)) : (encodeTmp fuel value first).length ≤ n := by
  induction fuel generalizing value first n with
  | zero => exact Nat.zero_le n
  | succ fuel ih =>
      rw [encodeTmp]
      split
      · exact Nat.zero_le n
      · rename_i hvalue
        cases n with
        | zero =>
            -- no bits: the value would be zero
            have hzero : value.toNat = 0 := by simpa using h
            exact absurd (UInt64.toNat_inj.mp hzero) hvalue
        | succ n =>
            have hrest : (value >>> 7).toNat < 2 ^ (7 * n) := by
              rw [toNat_shiftRight_seven]
              apply Nat.div_lt_of_lt_mul
              calc value.toNat < 2 ^ (7 * (n + 1)) := h
                _ = 128 * 2 ^ (7 * n) := by ring
            rw [List.length_cons]
            exact Nat.succ_le_succ (ih false hrest)

/-- `encode` writes the shortest of the codes of a value. -/
theorem length_encode_le_of_lang {w : List UInt8} {value : UInt64} (h : lang w value) :
    (encode value).length ≤ w.length := by
  obtain ⟨hcode, -, rfl⟩ := h
  have hbits := @toNat_foldl_push_lt w 0 0 (by decide)
  rw [encode]
  split
  · cases w with
    | nil => exact hcode.elim
    | cons byte w => exact Nat.succ_le_succ (Nat.zero_le _)
  · rw [List.length_reverse]
    apply length_encodeTmp_le_of_lt
    rwa [Nat.zero_add] at hbits

end QpskB210.Ltp.Sdnv
