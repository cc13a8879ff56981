import Mathlib.Data.Sign.Defs
import Mathlib.Data.List.Basic

/-!
# Modem — SymbolMapper

Bits to QPSK symbols and back. A symbol is known by the signs of its two
components: that is all the demapper looks at.
-/

namespace QpskB210.Modem

/-- The signs of I and Q. -/
structure Symbol where
  i : SignType
  q : SignType
deriving DecidableEq

namespace SymbolMapper

/-- `CONSTELLATION`, by the two bits of its index. -/
def constellation : Bool → Bool → Symbol
  | false, false => ⟨1, 1⟩
  | false, true => ⟨-1, 1⟩
  | true, false => ⟨1, -1⟩
  | true, true => ⟨-1, -1⟩

/-- The two bits of the dibit, the most significant first. -/
def symbolToDibit (sym : Symbol) : Bool × Bool :=
  if sym.i > 0 ∧ sym.q ≥ 0 then (false, false)
  else if sym.i ≤ 0 ∧ sym.q > 0 then (false, true)
  else if sym.i ≤ 0 ∧ sym.q ≤ 0 then (true, true)
  else (true, false)

/-- The symbols of an even number of bits. -/
def mapDibits : List Bool → List Symbol
  | msb :: lsb :: rest => constellation msb lsb :: mapDibits rest
  | _ => []

/-- `map`: the symbols, and the number of zero bits appended for them. -/
def map (bits : List Bool) : List Symbol × UInt8 :=
  if bits.length % 2 ≠ 0 then (mapDibits (bits ++ [false]), 1) else (mapDibits bits, 0)

def demap (symbols : List Symbol) : List Bool :=
  symbols.flatMap fun sym => [(symbolToDibit sym).1, (symbolToDibit sym).2]

@[simp] theorem symbolToDibit_constellation (msb lsb : Bool) :
    symbolToDibit (constellation msb lsb) = (msb, lsb) := by
  cases msb <;> cases lsb <;> decide

@[simp] theorem length_demap (symbols : List Symbol) :
    (demap symbols).length = 2 * symbols.length := by
  induction symbols with
  | nil => rfl
  | cons sym symbols ih =>
      rw [demap, List.flatMap_cons, List.length_append, ← demap, ih, List.length_cons]
      simp only [List.length_cons, List.length_nil]
      omega

theorem demap_append (symbols symbols' : List Symbol) :
    demap (symbols ++ symbols') = demap symbols ++ demap symbols' :=
  List.flatMap_append

/-- The bits of the first `k` symbols are the first `2 * k` bits. -/
theorem demap_take (symbols : List Symbol) (k : Nat) :
    demap (symbols.take k) = (demap symbols).take (2 * k) := by
  rcases Nat.le_total k symbols.length with hk | hk
  · have hlen : (demap (symbols.take k)).length = 2 * k := by
      rw [length_demap, List.length_take, Nat.min_eq_left hk]
    conv_rhs => rw [← List.take_append_drop k symbols, demap_append, ← hlen]
    rw [List.take_left]
  · have hlen : (demap symbols).length ≤ 2 * k := by
      rw [length_demap]
      omega
    rw [List.take_of_length_le hk, List.take_of_length_le hlen]

theorem length_mapDibits (bits : List Bool) : (mapDibits bits).length = bits.length / 2 := by
  fun_induction mapDibits bits with
  | case1 msb lsb rest ih =>
      rw [List.length_cons, ih, List.length_cons, List.length_cons]
      omega
  | case2 bits hshort =>
      rcases bits with _ | ⟨bit, _ | ⟨bit', rest⟩⟩
      · rfl
      · simp
      · exact absurd rfl (hshort bit bit' rest)

theorem demap_mapDibits {bits : List Bool} (heven : bits.length % 2 = 0) :
    demap (mapDibits bits) = bits := by
  fun_induction mapDibits bits with
  | case1 msb lsb rest ih =>
      have hrest : rest.length % 2 = 0 := by
        rw [List.length_cons, List.length_cons] at heven
        omega
      rw [demap, List.flatMap_cons, ← demap, ih hrest, symbolToDibit_constellation]
      rfl
  | case2 bits hshort =>
      rcases bits with _ | ⟨bit, _ | ⟨bit', rest⟩⟩
      · rfl
      · simp at heven
      · exact absurd rfl (hshort bit bit' rest)

/-- An odd number of bits is followed by one zero. -/
theorem map_of_odd {bits : List Bool} (hodd : bits.length % 2 = 1) :
    (map bits).1.length = (bits.length + 1) / 2 ∧ demap (map bits).1 = bits ++ [false] := by
  rw [map, if_pos (by omega)]
  constructor
  · rw [length_mapDibits, List.length_append, List.length_singleton]
  · apply demap_mapDibits
    rw [List.length_append, List.length_singleton]
    omega

end SymbolMapper

end QpskB210.Modem
