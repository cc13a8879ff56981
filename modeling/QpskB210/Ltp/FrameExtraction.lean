import Mathlib.Data.Nat.Digits.Defs
import QpskB210.Ltp.Framing

/-!
# LTP — FrameExtraction

`extract_framed_message` against its specification, over every buffer and
every length a peer can announce. The function compares the size of the
buffer with `4 + len`, a sum of 32 bits: for the four greatest lengths it is
less than the message needs, and the range assigned ends beyond the buffer.
-/

namespace QpskB210.Ltp

open Lib

/-- The number in the first four bytes, the first one being the most
significant. -/
def announced (buffer : List UInt8) : Nat :=
  Nat.ofDigits 256 ((buffer.take 4).map UInt8.toNat).reverse

/-- `extract_framed_message` as it is called: its result, and what the two
references hold after it. -/
def extractInto (buffer out : List UInt8) :
    Except Exn (Bool × List UInt8 × List UInt8) :=
  match extractFramedMessage buffer with
  | .ok none => .ok (false, buffer, out)
  | .ok (some (msg, rest)) => .ok (true, rest, msg)
  | .error e => .error e

/-- What the call should do: wait for a message that is not complete, and
otherwise take it off the buffer. -/
def extraction (buffer out : List UInt8) : Bool × List UInt8 × List UInt8 :=
  if buffer.length < 4 ∨ buffer.length < 4 + announced buffer then (false, buffer, out)
  else (true, buffer.drop (4 + announced buffer), (buffer.drop 4).take (announced buffer))

/-- The call does that, and reads no byte outside the buffer. -/
def MeetsExtraction (buffer out : List UInt8) : Prop :=
  extractInto buffer out = .ok (extraction buffer out)

/-! ## The length -/

/-- The shifts put the bytes side by side. -/
theorem toNat_readPrefix (b₀ b₁ b₂ b₃ : UInt8) :
    (readPrefix b₀ b₁ b₂ b₃).toNat =
      2 ^ 24 * b₀.toNat + 2 ^ 16 * b₁.toNat + 2 ^ 8 * b₂.toNat + b₃.toNat := by
  have h₀ := b₀.toNat_lt
  have h₁ := b₁.toNat_lt
  have h₂ := b₂.toNat_lt
  have h₃ := b₃.toNat_lt
  have hshift : ∀ (b : UInt8) (i : UInt32), i.toNat ≤ 24 →
      (b.toUInt32 <<< i).toNat = 2 ^ i.toNat * b.toNat := by
    intro b i hi
    have hb := b.toNat_lt
    have hpow : 2 ^ i.toNat ≤ 2 ^ 24 := Nat.pow_le_pow_right (by decide) hi
    have hlt : b.toNat * 2 ^ i.toNat < 2 ^ 32 := by
      calc b.toNat * 2 ^ i.toNat ≤ b.toNat * 2 ^ 24 := Nat.mul_le_mul_left _ hpow
        _ < 2 ^ 32 := by omega
    rw [UInt32.toNat_shiftLeft, UInt8.toNat_toUInt32, Nat.shiftLeft_eq,
      Nat.mod_eq_of_lt (by omega : i.toNat < 32), Nat.mod_eq_of_lt hlt, Nat.mul_comm]
  have hhigh : 2 ^ 24 * b₀.toNat ||| 2 ^ 16 * b₁.toNat =
      2 ^ 24 * b₀.toNat + 2 ^ 16 * b₁.toNat :=
    (Nat.two_pow_add_eq_or_of_lt (by omega) _).symm
  have hmiddle : 2 ^ 24 * b₀.toNat + 2 ^ 16 * b₁.toNat ||| 2 ^ 8 * b₂.toNat =
      2 ^ 24 * b₀.toNat + 2 ^ 16 * b₁.toNat + 2 ^ 8 * b₂.toNat := by
    have hblock : 2 ^ 24 * b₀.toNat + 2 ^ 16 * b₁.toNat =
        2 ^ 16 * (2 ^ 8 * b₀.toNat + b₁.toNat) := by omega
    rw [hblock]
    exact (Nat.two_pow_add_eq_or_of_lt (by omega) _).symm
  have hlow : 2 ^ 24 * b₀.toNat + 2 ^ 16 * b₁.toNat + 2 ^ 8 * b₂.toNat ||| b₃.toNat =
      2 ^ 24 * b₀.toNat + 2 ^ 16 * b₁.toNat + 2 ^ 8 * b₂.toNat + b₃.toNat := by
    have hblock : 2 ^ 24 * b₀.toNat + 2 ^ 16 * b₁.toNat + 2 ^ 8 * b₂.toNat =
        2 ^ 8 * (2 ^ 16 * b₀.toNat + 2 ^ 8 * b₁.toNat + b₂.toNat) := by omega
    rw [hblock]
    exact (Nat.two_pow_add_eq_or_of_lt (by omega) _).symm
  rw [readPrefix, UInt32.toNat_or, UInt32.toNat_or, UInt32.toNat_or, hshift b₀ 24 (by decide),
    hshift b₁ 16 (by decide), hshift b₂ 8 (by decide), UInt8.toNat_toUInt32]
  simp only [UInt32.reduceToNat]
  rw [hhigh, hmiddle, hlow]

theorem announced_cons (b₀ b₁ b₂ b₃ : UInt8) (tail : List UInt8) :
    announced (b₀ :: b₁ :: b₂ :: b₃ :: tail) = (readPrefix b₀ b₁ b₂ b₃).toNat := by
  rw [toNat_readPrefix]
  simp only [announced, List.take_succ_cons, List.take_zero, List.map_cons, List.map_nil,
    List.reverse_cons, List.reverse_nil, List.nil_append, List.cons_append, Nat.ofDigits_cons,
    Nat.ofDigits_nil]
  omega

/-! ## The call -/

/-- A buffer without a whole length prefix waits. -/
theorem extractInto_short {buffer : List UInt8} (h : buffer.length < 4) (out : List UInt8) :
    extractInto buffer out = .ok (false, buffer, out) := by
  match buffer with
  | [] => rfl
  | [_] => rfl
  | [_, _] => rfl
  | [_, _, _] => rfl
  | _ :: _ :: _ :: _ :: _ =>
    simp only [List.length_cons] at h
    omega

/-- A message that is there is taken, however long it is. -/
theorem extractInto_complete {buffer : List UInt8} (h : 4 ≤ buffer.length)
    (hcomplete : 4 + announced buffer ≤ buffer.length) (out : List UInt8) :
    extractInto buffer out =
      .ok (true, buffer.drop (4 + announced buffer), (buffer.drop 4).take (announced buffer)) := by
  match buffer with
  | [] | [_] | [_, _] | [_, _, _] => simp at h
  | b₀ :: b₁ :: b₂ :: b₃ :: tail =>
    rw [announced_cons] at hcomplete ⊢
    simp only [List.length_cons] at hcomplete
    have htake : extractFramedMessage (b₀ :: b₁ :: b₂ :: b₃ :: tail) =
        .ok (some (tail.take (readPrefix b₀ b₁ b₂ b₃).toNat,
          tail.drop (readPrefix b₀ b₁ b₂ b₃).toNat)) :=
      extractFramedMessage_cons.mpr ⟨by omega, rfl, rfl⟩
    rw [extractInto, htake, Nat.add_comm 4]
    rfl

/-- The comparison sees that a message is not complete, unless the sum wraps;
then the range to assign ends outside the buffer. -/
theorem extractInto_incomplete {buffer : List UInt8} (h : 4 ≤ buffer.length)
    (hincomplete : buffer.length < 4 + announced buffer) (out : List UInt8) :
    extractInto buffer out =
      if announced buffer < 2 ^ 32 - 4 then .ok (false, buffer, out) else .error .outOfBounds := by
  match buffer with
  | [] | [_] | [_, _] | [_, _, _] => simp at h
  | b₀ :: b₁ :: b₂ :: b₃ :: tail =>
    rw [announced_cons] at hincomplete ⊢
    rw [extractInto, extractFramedMessage]
    generalize readPrefix b₀ b₁ b₂ b₃ = len at hincomplete ⊢
    have hlen := len.toNat_lt
    have hsum : (4 + len).toNat = (4 + len.toNat) % 2 ^ 32 := UInt32.toNat_add 4 len
    by_cases hwrap : len.toNat < 2 ^ 32 - 4
    · rw [if_pos hwrap, if_pos (by omega)]
    · have hrange : assignRange (b₀ :: b₁ :: b₂ :: b₃ :: tail) 4 (4 + len.toNat) =
          .error .outOfBounds := by
        rw [assignRange, if_neg (by omega), if_pos hincomplete]
      have hpasses : ¬ (b₀ :: b₁ :: b₂ :: b₃ :: tail).length < (4 + len).toNat := by omega
      rw [if_neg hwrap, if_neg hpasses, hrange]
      rfl

/-- **Extraction.** The call meets its specification on every buffer but
those that begin with one of the four greatest lengths and do not hold the
whole message: there it reads outside the buffer. -/
theorem extraction_iff (buffer out : List UInt8) :
    MeetsExtraction buffer out ↔
      buffer.length < 4 ∨ announced buffer < 2 ^ 32 - 4 ∨
        4 + announced buffer ≤ buffer.length := by
  rw [MeetsExtraction]
  rcases Nat.lt_or_ge buffer.length 4 with hshort | hprefix
  · have hspec : extraction buffer out = (false, buffer, out) := if_pos (.inl hshort)
    rw [extractInto_short hshort, hspec]
    exact iff_of_true rfl (.inl hshort)
  rcases Nat.lt_or_ge buffer.length (4 + announced buffer) with hincomplete | hcomplete
  · have hspec : extraction buffer out = (false, buffer, out) := if_pos (.inr hincomplete)
    rw [extractInto_incomplete hprefix hincomplete, hspec]
    by_cases hfits : announced buffer < 2 ^ 32 - 4
    · rw [if_pos hfits]
      exact iff_of_true rfl (.inr (.inl hfits))
    · rw [if_neg hfits]
      constructor
      · intro h
        cases h
      · intro h
        omega
  · rw [extractInto_complete hprefix hcomplete, extraction, if_neg (by omega)]
    exact iff_of_true rfl (.inr (.inr hcomplete))

/-- Four bytes that announce the greatest length of all pass the comparison
with the sum, which is 3. -/
theorem extraction_outside : ¬ MeetsExtraction [0xFF, 0xFF, 0xFF, 0xFF] [] := by
  intro h
  have hcall : extractInto [0xFF, 0xFF, 0xFF, 0xFF] [] = .error .outOfBounds := by decide
  rw [MeetsExtraction, hcall] at h
  cases h

end QpskB210.Ltp
