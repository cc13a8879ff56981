import Mathlib.Data.Nat.Digits.Defs
import QpskB210.Ltp.Sdnv

/-!
# LTP — SdnvValues

The number an SDNV stands for: its seven-bit groups as the digits of a
number in base 128, however many they are. `decode` accumulates it modulo
`2 ^ 64` (`toNat_foldl_push`), so it returns the number itself exactly where
that fits; ten groups can hold six bits more (`decode_exact_iff`).
-/

namespace QpskB210.Ltp.Sdnv

open QpskB210.Lib

/-- The seven bits of a byte that carry the number. -/
def group (byte : UInt8) : Nat := byte.toNat % 128

/-- The number, the first byte being the most significant digit. -/
def groupValue (w : List UInt8) : Nat := Nat.ofDigits 128 (w.map group).reverse

@[simp] theorem groupValue_nil : groupValue [] = 0 := rfl

theorem groupValue_cons (byte : UInt8) (w : List UInt8) :
    groupValue (byte :: w) = group byte * 128 ^ w.length + groupValue w := by
  rw [groupValue, List.map_cons, List.reverse_cons, Nat.ofDigits_append, Nat.ofDigits_singleton,
    List.length_reverse, List.length_map, ← groupValue]
  ring

/-! ## The accumulator -/

/-- The groups of a code accumulate to its number modulo `2 ^ 64`. -/
theorem toNat_foldl_push (w : List UInt8) (acc : UInt64) :
    (w.foldl push acc).toNat = (acc.toNat * 128 ^ w.length + groupValue w) % 2 ^ 64 := by
  induction w generalizing acc with
  | nil =>
      have := acc.toNat_lt
      simp only [List.foldl_nil, List.length_nil, pow_zero, Nat.mul_one, groupValue_nil,
        Nat.add_zero]
      omega
  | cons byte w ih =>
      rw [List.foldl_cons, ih, toNat_push_mod, ← group, groupValue_cons, List.length_cons, pow_succ]
      -- reducing before the multiplication or after it is the same
      rw [Nat.add_mod, Nat.mod_mul_mod, ← Nat.add_mod]
      congr 1
      ring

/-! ## The SDNV at an offset -/

/-- The SDNV the bytes begin with, if it ends among them. -/
def leading : List UInt8 → Option (List UInt8)
  | [] => none
  | byte :: rest => if byte &&& 0x80 = 0 then some [byte] else (leading rest).map (byte :: ·)

theorem leading_eq_some {l w : List UInt8} : leading l = some w ↔ w <+: l ∧ isCode w := by
  induction l generalizing w with
  | nil =>
      simp only [leading, List.prefix_nil]
      constructor
      · intro h
        cases h
      · intro h
        obtain ⟨rfl, hcode⟩ := h
        exact hcode.elim
  | cons byte rest ih =>
      rw [leading]
      cases w with
      | nil =>
          split <;> simp [isCode]
      | cons b w =>
          rw [List.cons_prefix_cons]
          split
          · rename_i hstop
            simp only [Option.some.injEq, List.cons.injEq]
            constructor
            · intro h
              obtain ⟨rfl, rfl⟩ := h
              exact ⟨⟨rfl, List.nil_prefix⟩, by rw [isCode, if_pos hstop]⟩
            · intro h
              obtain ⟨⟨rfl, -⟩, hcode⟩ := h
              rw [isCode, if_pos hstop] at hcode
              exact ⟨rfl, hcode.symm⟩
          · rename_i hmore
            simp only [Option.map_eq_some_iff, List.cons.injEq, ih]
            constructor
            · intro h
              obtain ⟨w', ⟨hpre, hcode⟩, rfl, rfl⟩ := h
              exact ⟨⟨rfl, hpre⟩, by rwa [isCode, if_neg hmore]⟩
            · intro h
              obtain ⟨⟨rfl, hpre⟩, hcode⟩ := h
              rw [isCode, if_neg hmore] at hcode
              exact ⟨w, ⟨hpre, hcode⟩, rfl, rfl⟩

/-- What `decode` returns, and when it returns at all. -/
theorem decode_ok_iff {data : List UInt8} {offset offset' : Nat} {value : UInt64} :
    decode data offset = .ok (value, offset') ↔
      ∃ w, leading (data.drop offset) = some w ∧ w.length ≤ maxBytes ∧
        value = w.foldl push 0 ∧ offset' = offset + w.length := by
  simp only [leading_eq_some, and_assoc]
  rw [decode]
  split
  · rename_i hend
    rw [List.drop_eq_nil_of_le hend]
    constructor
    · intro h
      cases h
    · intro h
      obtain ⟨w, hpre, hcode, -⟩ := h
      rw [List.prefix_nil.mp hpre] at hcode
      exact hcode.elim
  · simp only [decodeLoop_ok_iff, Nat.zero_add]

theorem decode_error {data : List UInt8} {offset : Nat} {e : Exn}
    (h : decode data offset = .error e) : ¬ e.Escapes := by
  rw [decode] at h
  split at h
  · cases h
    exact id
  · exact decodeLoop_error h

/-! ## Round trip -/

/-- **Round trip.** A value is read back wherever its code stands, in no more
than ten bytes, and from no fewer bytes than it is written in; no code is the
beginning of the code of another value. -/
theorem sdnv_round_trip :
    (∀ (value : UInt64) (before after : List UInt8),
      decode (before ++ encode value ++ after) before.length =
        .ok (value, before.length + (encode value).length)) ∧
      (∀ (value : UInt64) (data : List UInt8) (offset offset' : Nat),
        decode data offset = .ok (value, offset') →
          offset + (encode value).length ≤ offset' ∧ offset' ≤ data.length) ∧
      (∀ value : UInt64, (encode value).length ≤ 10) ∧
      ∀ a b : UInt64, a ≠ b → ¬ encode a <+: encode b := by
  refine ⟨?_, ?_, length_encode_le, ?_⟩
  · intro value before after
    obtain ⟨hcode, hlen, hvalue⟩ := lang_encode value
    apply decode_ok_iff.mpr
    refine ⟨encode value, leading_eq_some.mpr ⟨?_, hcode⟩, hlen, hvalue, rfl⟩
    rw [List.append_assoc, List.drop_left]
    exact List.prefix_append ..
  · intro value data offset offset' h
    obtain ⟨w, hleading, hlen, hvalue, rfl⟩ := decode_ok_iff.mp h
    obtain ⟨hpre, hcode⟩ := leading_eq_some.mp hleading
    have hshort := length_encode_le_of_lang ⟨hcode, hlen, hvalue⟩
    have hfits := hpre.length_le
    have hpos : 0 < w.length := by
      apply List.length_pos_iff.mpr
      intro hnil
      rw [hnil] at hcode
      exact hcode.elim
    rw [List.length_drop] at hfits
    exact ⟨by omega, by omega⟩
  · intro a b hne hpre
    obtain ⟨rest, hrest⟩ := hpre
    apply hne
    apply (encode_append_inj (x := rest) (y := []) ?_).1
    rwa [List.append_nil]

/-- The number 300, padded with an empty group, takes three bytes where the
encoder writes two; its code does not begin with that of 2. -/
theorem sdnv_round_trip_padded :
    (0 + (encode 300).length ≤ 3 ∧ 3 ≤ [0x80, 0x82, (0x2C : UInt8)].length) ∧
      ¬ encode 2 <+: encode 300 :=
  ⟨sdnv_round_trip.2.1 300 [0x80, 0x82, 0x2C] 0 3 (by decide),
    sdnv_round_trip.2.2.2 2 300 (by decide)⟩

/-! ## Numbers that do not fit -/

/-- The decoder returns the number written at the offset, or throws
`std::runtime_error`. -/
def Exact (data : List UInt8) (offset : Nat) : Prop :=
  match decode data offset with
  | .ok (value, offset') => ∃ w, leading (data.drop offset) = some w ∧
      value.toNat = groupValue w ∧ offset' = offset + w.length
  | .error e => ∃ what, e = .runtimeError what

/-- An SDNV of `maxBytes` bytes at most stands for a `uint64_t`. -/
def Representable (data : List UInt8) (offset : Nat) : Prop :=
  ∀ w, leading (data.drop offset) = some w → w.length ≤ maxBytes → groupValue w < 2 ^ 64

/-- **No wrong number**, exactly where no SDNV of ten bytes holds a number
that takes more than 64 bits: those are read modulo `2 ^ 64`. -/
theorem decode_exact_iff (data : List UInt8) (offset : Nat) :
    Exact data offset ↔ Representable data offset := by
  have hvalue : ∀ w : List UInt8, (w.foldl push 0).toNat = groupValue w % 2 ^ 64 := by
    intro w
    rw [toNat_foldl_push]
    simp
  rw [Exact]
  cases hdecode : decode data offset with
  | ok read =>
      obtain ⟨value, offset'⟩ := read
      obtain ⟨w, hleading, hlen, rfl, rfl⟩ := decode_ok_iff.mp hdecode
      simp only [Representable, hleading, Option.some.injEq, hvalue]
      constructor
      · intro h w' heq _
        obtain ⟨_, rfl, hexact, -⟩ := h
        subst heq
        rw [← hexact]
        exact Nat.mod_lt _ (by decide)
      · intro h
        exact ⟨w, rfl, Nat.mod_eq_of_lt (h w rfl hlen), rfl⟩
  | error e =>
      have hcaught := decode_error hdecode
      constructor
      · intro _ w hleading hlen
        -- what ends in ten bytes is accepted
        have hok := decode_ok_iff.mpr ⟨w, hleading, hlen, rfl, rfl⟩
        rw [hdecode] at hok
        cases hok
      · intro _
        cases e with
        | runtimeError what => exact ⟨what, rfl⟩
        | _ => exact absurd trivial hcaught

/-- Ten bytes that stand for `2 ^ 64` are read as 0. -/
theorem decode_not_exact :
    ¬ Exact [0x82, 0x80, 0x80, 0x80, 0x80, 0x80, 0x80, 0x80, 0x80, 0x00] 0 := by
  intro h
  have hread : decode [0x82, 0x80, 0x80, 0x80, 0x80, 0x80, 0x80, 0x80, 0x80, 0x00] 0 =
      .ok (0, 10) := by decide
  rw [Exact, hread] at h
  obtain ⟨w, hleading, hvalue, -⟩ := h
  cases hleading
  exact absurd hvalue (by decide)

end QpskB210.Ltp.Sdnv
