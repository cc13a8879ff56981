import Mathlib.Algebra.Group.Nat.Defs
import Mathlib.Data.List.Basic

/-!
# LTP — Basic

What the LTP modules share: the ways control leaves a C++ function other
than by `return`, and the size limits of the standard containers.
-/

namespace QpskB210.Ltp

/-- How a call ends when it does not return. `outOfBounds` is not thrown by
the C++: it marks an access outside a buffer, which is undefined there. -/
inductive Exn where
  | runtimeError (what : String)
  | lengthError
  | badAlloc
  | badVariantAccess
  | outOfBounds
deriving DecidableEq, Repr

/-- Everything but `std::runtime_error`: what the decoder's handlers let
through. -/
def Exn.Escapes : Exn → Prop
  | .runtimeError _ => False
  | _ => True

/-- No object has `2 ^ 63` bytes or more (`PTRDIFF_MAX`); `size_t` itself
counts modulo `2 ^ 64`. -/
def objectBound : Nat := 2 ^ 63

/-- `std::vector<ReceptionClaim>::max_size()`: a claim takes 16 bytes. -/
def maxClaimsSize : Nat := (2 ^ 63 - 1) / 16

/-- The memory that a call finds: for how many claims `operator new` has room.
A machine has less than the vector could count; by default it never runs out. -/
structure Heap where
  claims : Nat := maxClaimsSize

/-- `vector::assign(data + first, data + last)`, as the allocation-free part
of its contract: a range that ends before it begins is a length error, and
one that ends beyond the buffer reads outside it. -/
def assignRange (data : List UInt8) (first last : Nat) : Except Exn (List UInt8) :=
  if last < first then .error .lengthError
  else if data.length < last then .error .outOfBounds
  else .ok ((data.drop first).take (last - first))

/-! ## Machine integers -/

theorem toNat_pos {n : UInt64} (h : n ≠ 0) : 0 < n.toNat :=
  Nat.pos_of_ne_zero fun h0 => h (UInt64.toNat_inj.mp h0)

theorem toNat32_pos {n : UInt32} (h : n ≠ 0) : 0 < n.toNat :=
  Nat.pos_of_ne_zero fun h0 => h (UInt32.toNat_inj.mp h0)

theorem ne_zero_of_one_le {n : UInt32} (h : 1 ≤ n) : n ≠ 0 := by
  intro hzero
  rw [hzero] at h
  exact absurd h (by decide)

theorem ne_add_one (n : UInt64) : n ≠ n + 1 := by
  intro h
  have hnat := congrArg UInt64.toNat h
  rw [UInt64.toNat_add, show (1 : UInt64).toNat = 1 from rfl] at hnat
  have := n.toNat_lt
  omega

/-- A sum that does not wrap. -/
theorem toNat_add_of_lt {a b : UInt64} (h : a.toNat + b.toNat < 2 ^ 64) :
    (a + b).toNat = a.toNat + b.toNat := by
  rw [UInt64.toNat_add]
  exact Nat.mod_eq_of_lt h

theorem toNat_ofNat_of_lt {n : Nat} (h : n < 2 ^ 64) : (UInt64.ofNat n).toNat = n := by
  rw [UInt64.toNat_ofNat']
  exact Nat.mod_eq_of_lt h

/-- What holds of the bytes 0 to 255 holds of every byte. -/
theorem forall_byte {P : UInt8 → Prop} (h : ∀ b : Fin 256, P (UInt8.ofNat b.val)) (byte : UInt8) :
    P byte := by
  have := h ⟨byte.toNat, byte.toNat_lt⟩
  rwa [UInt8.ofNat_toNat] at this

/-! ## Calls -/

/-- A call that returns has run both of its halves. -/
theorem bind_eq_ok {α β : Type} {x : Except Exn α} {f : α → Except Exn β} {b : β} :
    x >>= f = .ok b ↔ ∃ a, x = .ok a ∧ f a = .ok b := by
  cases x with
  | error e => exact ⟨(nomatch ·), fun ⟨_, h, _⟩ => nomatch h⟩
  | ok a => exact ⟨fun h => ⟨a, rfl, h⟩, fun ⟨_, ha, h⟩ => Except.ok.inj ha ▸ h⟩

/-- An exception leaves the first half, or the second. -/
theorem bind_eq_error {α β : Type} {x : Except Exn α} {f : α → Except Exn β} {e : Exn} :
    x >>= f = .error e ↔ x = .error e ∨ ∃ a, x = .ok a ∧ f a = .error e := by
  cases x with
  | error e' =>
      refine ⟨fun h => .inl (congrArg Except.error (Except.error.inj h)), fun h => ?_⟩
      rcases h with h | ⟨a, h, -⟩
      · exact congrArg Except.error (Except.error.inj h)
      · cases h
  | ok a =>
      refine ⟨fun h => .inr ⟨a, rfl, h⟩, fun h => ?_⟩
      rcases h with h | ⟨b, h, hf⟩
      · cases h
      · cases h
        exact hf

theorem exists_eq_ok {α : Type} {x : Except Exn α} (h : x.isOk = true) : ∃ a, x = .ok a := by
  cases x with
  | error e => cases h
  | ok a => exact ⟨a, rfl⟩

theorem eq_ok_of_toOption {α : Type} {x : Except Exn α} {a : α} (h : x.toOption = some a) :
    x = .ok a := by
  cases x with
  | error e => cases h
  | ok b => exact congrArg Except.ok (Option.some.inj h)

theorem assignRange_eq_ok {data bytes : List UInt8} {first last : Nat} :
    assignRange data first last = .ok bytes ↔
      first ≤ last ∧ last ≤ data.length ∧ bytes = (data.drop first).take (last - first) := by
  rw [assignRange]
  by_cases hwrap : last < first
  · rw [if_pos hwrap]
    exact ⟨(nomatch ·), fun h => absurd h.1 (Nat.not_le.mpr hwrap)⟩
  · by_cases hout : data.length < last
    · rw [if_neg hwrap, if_pos hout]
      exact ⟨(nomatch ·), fun h => absurd h.2.1 (Nat.not_le.mpr hout)⟩
    · rw [if_neg hwrap, if_neg hout, Except.ok.injEq]
      exact ⟨fun h => ⟨Nat.not_lt.mp hwrap, Nat.not_lt.mp hout, h.symm⟩, fun h => h.2.2.symm⟩

end QpskB210.Ltp
