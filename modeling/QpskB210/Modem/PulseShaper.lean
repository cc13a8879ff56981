import Mathlib.Algebra.BigOperators.Group.List.Basic
import QpskB210.Lib.Signal

/-!
# Modem — PulseShaper

The pulse shaper, its matched filter and the direct decimation of the
decoder, over any commutative ring in the place of the complex floats. Both
filters are one convolution loop, so that the samples of
`matched_filter(shape(symbols))` are read off a product of power series.
-/

namespace QpskB210.Modem

open QpskB210.Lib Signal Finset PowerSeries

variable {R : Type} [CommRing R]

structure PulseShaper (R : Type) where
  rrcTaps : List R
  sps : Nat

namespace PulseShaper

/-- The inner loop of both filters: one sample of the output. -/
def convolveAt (samples taps : List R) (n : Nat) : R :=
  (List.range taps.length).foldl
    (fun sum k =>
      if n ≥ k ∧ n - k < samples.length then sum + samples.getD (n - k) 0 * taps.getD k 0
      else sum) 0

/-- The outer loop. -/
def convolve (samples taps : List R) : List R :=
  (List.range (samples.length + taps.length - 1)).map (convolveAt samples taps)

/-- `sps - 1` zeros after each symbol. -/
def upsample (sps : Nat) (symbols : List R) : List R :=
  (List.range symbols.length).foldl
    (fun upsampled i => upsampled.set (i * sps) (symbols.getD i 0))
    (List.replicate (symbols.length * sps) 0)

def shape (shaper : PulseShaper R) (symbols : List R) : List R :=
  if symbols.isEmpty then []
  else convolve (upsample shaper.sps symbols) shaper.rrcTaps

def matchedFilter (shaper : PulseShaper R) (samples : List R) : List R :=
  if samples.isEmpty then [] else convolve samples shaper.rrcTaps

end PulseShaper

/-- The loop of the direct decimation, from the sample at `pos` on. Each round
is further by `sps`, so there are no more rounds than samples. -/
def decimateFrom (sps : Nat) (filtered : List R) : Nat → Nat → List R
  | 0, _ => []
  | fuel + 1, pos =>
    if pos < filtered.length then
      filtered.getD pos 0 :: decimateFrom sps filtered fuel (pos + sps)
    else []

/-- The direct decimation of `Decoder::decode`. -/
def decimate (sps numTaps : Nat) (filtered : List R) : List R :=
  let combinedDelay := numTaps - 1
  decimateFrom sps filtered filtered.length combinedDelay

/-! ## The filters -/

namespace PulseShaper

theorem convolveAt_eq (samples taps : List R) (n : Nat) :
    convolveAt samples taps n = coeff n (series samples * series taps) := by
  have hloop : ∀ count ≤ taps.length, (List.range count).foldl
      (fun sum k =>
        if n ≥ k ∧ n - k < samples.length then sum + samples.getD (n - k) 0 * taps.getD k 0
        else sum) 0 =
      ∑ k ∈ range count, if k ≤ n then samples.getD (n - k) 0 * taps.getD k 0 else 0 := by
    intro count hcount
    induction count with
    | zero => rfl
    | succ count ih =>
        rw [List.range_succ, List.foldl_append, ih (Nat.le_of_succ_le hcount), sum_range_succ]
        simp only [List.foldl_cons, List.foldl_nil]
        by_cases hle : count ≤ n
        · by_cases hin : n - count < samples.length
          · rw [if_pos ⟨hle, hin⟩, if_pos hle]
          · rw [if_neg fun h => hin h.2, if_pos hle,
              List.getD_eq_default _ _ (Nat.le_of_not_lt hin), zero_mul, add_zero]
        · rw [if_neg fun h => hle h.1, if_neg hle, add_zero]
  rw [convolveAt, hloop _ le_rfl, mul_comm, ← conv_eq_coeff, conv]
  refine sum_congr rfl fun k _ => ?_
  rw [sum_ite_add_eq]
  simp only [mul_comm]

@[simp]
theorem length_convolve (samples taps : List R) :
    (convolve samples taps).length = samples.length + taps.length - 1 := by
  simp [convolve]

theorem getD_convolve {samples taps : List R} {n : Nat}
    (hn : n < samples.length + taps.length - 1) :
    (convolve samples taps).getD n 0 = coeff n (series samples * series taps) := by
  rw [← convolveAt_eq, convolve, List.getD_eq_getElem _ _ (by simpa using hn)]
  simp

/-- The loops run over every sample that the product has. -/
theorem series_convolve {samples taps : List R} (hsamples : samples ≠ []) (htaps : taps ≠ []) :
    series (convolve samples taps) = series samples * series taps := by
  have hs := List.length_pos_iff.mpr hsamples
  have ht := List.length_pos_iff.mpr htaps
  ext n
  rw [coeff_series]
  rcases Nat.lt_or_ge n (samples.length + taps.length - 1) with hin | hout
  · exact getD_convolve hin
  · rw [List.getD_eq_default _ _ (by rwa [length_convolve]), ← conv_eq_coeff, conv]
    symm
    refine sum_eq_zero fun a ha => sum_eq_zero fun b hb => if_neg ?_
    rw [mem_range] at ha hb
    omega

/-- The loop of `upsample`, before symbol `count`. -/
def placed (sps : Nat) (symbols : List R) (count : Nat) : List R :=
  (List.range count).foldl
    (fun upsampled i => upsampled.set (i * sps) (symbols.getD i 0))
    (List.replicate (symbols.length * sps) 0)

theorem placed_succ (sps : Nat) (symbols : List R) (count : Nat) :
    placed sps symbols (count + 1) =
      (placed sps symbols count).set (count * sps) (symbols.getD count 0) := by
  rw [placed, List.range_succ, List.foldl_append]
  rfl

@[simp]
theorem length_placed (sps : Nat) (symbols : List R) (count : Nat) :
    (placed sps symbols count).length = symbols.length * sps := by
  induction count with
  | zero => exact List.length_replicate
  | succ count ih => rw [placed_succ, List.length_set, ih]

theorem getD_placed {sps : Nat} (hsps : 1 ≤ sps) {symbols : List R} {count : Nat}
    (hcount : count ≤ symbols.length) (n : Nat) :
    (placed sps symbols count).getD n 0 =
      ∑ j ∈ range count, if n = j * sps then symbols.getD j 0 else 0 := by
  induction count with
  | zero => simp [placed]
  | succ count ih =>
      have hfits : count * sps < symbols.length * sps :=
        Nat.mul_lt_mul_of_pos_right (Nat.lt_of_succ_le hcount) hsps
      have hbefore := ih (Nat.le_of_succ_le hcount)
      rw [placed_succ, sum_range_succ, ← hbefore]
      by_cases hn : n = count * sps
      · -- nothing was placed here before
        have hzero : (placed sps symbols count).getD n 0 = 0 := by
          rw [hbefore]
          refine sum_eq_zero fun j hj => if_neg fun heq => ?_
          rw [mem_range] at hj
          exact absurd (Nat.eq_of_mul_eq_mul_right hsps (hn.symm.trans heq)) (by omega)
        rw [hzero, if_pos hn, zero_add, hn, List.getD_eq_getElem?_getD,
          List.getElem?_set_self (by rwa [length_placed]), Option.getD_some]
      · rw [if_neg hn, add_zero, List.getD_eq_getElem?_getD,
          List.getElem?_set_ne (Ne.symm hn), List.getD_eq_getElem?_getD]

@[simp]
theorem length_upsample (sps : Nat) (symbols : List R) :
    (upsample sps symbols).length = symbols.length * sps :=
  length_placed sps symbols symbols.length

theorem upsample_impulses {sps : Nat} (hsps : 1 ≤ sps) (symbols : List R) :
    Impulses symbols (upsample sps symbols) sps :=
  getD_placed hsps le_rfl

/-! ## The whole burst -/

variable {shaper : PulseShaper R} {symbols : List R}

theorem length_shape (hsymbols : symbols ≠ []) :
    (shaper.shape symbols).length = symbols.length * shaper.sps + shaper.rrcTaps.length - 1 := by
  rw [shape, if_neg (by simpa using hsymbols), length_convolve, length_upsample]

theorem length_matchedFilter {samples : List R} (hsamples : samples ≠ []) :
    (shaper.matchedFilter samples).length = samples.length + shaper.rrcTaps.length - 1 := by
  rw [matchedFilter, if_neg (by simpa using hsamples), length_convolve]

theorem shape_ne_nil (hsps : 1 ≤ shaper.sps) (htaps : shaper.rrcTaps ≠ [])
    (hsymbols : symbols ≠ []) : shaper.shape symbols ≠ [] := by
  have hlength := Nat.mul_pos (List.length_pos_iff.mpr hsymbols) hsps
  have htap := List.length_pos_iff.mpr htaps
  rw [← List.length_pos_iff, length_shape hsymbols]
  omega

theorem length_filtered (hsps : 1 ≤ shaper.sps) (htaps : shaper.rrcTaps ≠ [])
    (hsymbols : symbols ≠ []) : (shaper.matchedFilter (shaper.shape symbols)).length =
      symbols.length * shaper.sps + 2 * (shaper.rrcTaps.length - 1) := by
  have htap := List.length_pos_iff.mpr htaps
  rw [length_matchedFilter (shape_ne_nil hsps htaps hsymbols), length_shape hsymbols]
  omega

theorem series_filtered (hsps : 1 ≤ shaper.sps) (htaps : shaper.rrcTaps ≠ [])
    (hsymbols : symbols ≠ []) :
    series (shaper.matchedFilter (shaper.shape symbols)) =
      series (upsample shaper.sps symbols) * (series shaper.rrcTaps * series shaper.rrcTaps) := by
  have hupsampled : upsample shaper.sps symbols ≠ [] := by
    rw [← List.length_pos_iff, length_upsample]
    exact Nat.mul_pos (List.length_pos_iff.mpr hsymbols) hsps
  have hshaped := shape_ne_nil hsps htaps hsymbols
  rw [matchedFilter, if_neg (by simpa using hshaped), series_convolve hshaped htaps, shape,
    if_neg (by simpa using hsymbols), series_convolve hupsampled htaps, mul_assoc]

/-- The output at the delay of the two filters and `k` symbols on. -/
theorem getElem?_filtered (hsps : 1 ≤ shaper.sps) (htaps : shaper.rrcTaps ≠ [])
    (hsymbols : symbols ≠ []) {k : Nat} (hk : shaper.rrcTaps.length - 1 + k * shaper.sps <
      (shaper.matchedFilter (shaper.shape symbols)).length) :
    (shaper.matchedFilter (shaper.shape symbols))[shaper.rrcTaps.length - 1 + k * shaper.sps]? =
      some (∑ j ∈ range symbols.length, symbols.getD j 0 *
        conv shaper.rrcTaps shaper.rrcTaps
          (shaper.rrcTaps.length - 1 + ((k : ℤ) - j) * shaper.sps)) := by
  rw [List.getElem?_eq_getElem hk, ← List.getD_eq_getElem _ 0 hk, ← coeff_series,
    series_filtered hsps htaps hsymbols, (upsample_impulses hsps symbols).coeff_mul_mul]
  congr 1
  refine sum_congr rfl fun j _ => ?_
  have hindex : ((shaper.rrcTaps.length - 1 + k * shaper.sps : ℕ) : ℤ) - j * shaper.sps =
      shaper.rrcTaps.length - 1 + ((k : ℤ) - j) * shaper.sps := by
    rw [Nat.cast_add, Nat.cast_sub (List.length_pos_iff.mpr htaps), Nat.cast_mul, Nat.cast_one]
    ring
  rw [hindex]

end PulseShaper

/-! ## Decimation -/

theorem getElem?_decimateFrom {sps : Nat} (hsps : 1 ≤ sps) {filtered : List R} {fuel pos : Nat}
    (hfuel : filtered.length ≤ pos + fuel) (k : Nat) :
    (decimateFrom sps filtered fuel pos)[k]? = filtered[pos + k * sps]? := by
  induction fuel generalizing pos k with
  | zero =>
      rw [decimateFrom, List.getElem?_nil, List.getElem?_eq_none (by omega)]
  | succ fuel ih =>
      rw [decimateFrom]
      split
      · rename_i hin
        cases k with
        | zero =>
            rw [List.getElem?_cons_zero, Nat.zero_mul, Nat.add_zero, List.getElem?_eq_getElem hin,
              List.getD_eq_getElem _ _ hin]
        | succ k =>
            rw [List.getElem?_cons_succ, ih (by omega), Nat.succ_mul]
            congr 1
            omega
      · rw [List.getElem?_nil, List.getElem?_eq_none (by omega)]

/-- Decimated symbol `k` is the sample `k * sps` after the delay of the two
filters. -/
theorem getElem?_decimate {sps : Nat} (hsps : 1 ≤ sps) (numTaps : Nat) (filtered : List R)
    (k : Nat) :
    (decimate sps numTaps filtered)[k]? = filtered[numTaps - 1 + k * sps]? :=
  getElem?_decimateFrom hsps (by omega) k

/-! ## Alignment -/

/-- The two filters together are 1 at their delay, and 0 at every other
multiple of the symbol length from it. -/
def IsNyquist (taps : List R) (sps : Nat) : Prop :=
  conv taps taps (taps.length - 1) = 1 ∧
    ∀ m : ℤ, m ≠ 0 → conv taps taps (taps.length - 1 + m * sps) = 0

/-- The matched filter's output for a burst, and the decimated symbols. -/
structure Aligned (shaper : PulseShaper R) (span : Nat) (symbols : List R) : Prop where
  length : (shaper.matchedFilter (shaper.shape symbols)).length =
    symbols.length * shaper.sps + 2 * (shaper.rrcTaps.length - 1)
  /-- The decoder picks these samples. -/
  picked : ∀ k,
    (decimate shaper.sps (span * shaper.sps + 1)
      (shaper.matchedFilter (shaper.shape symbols)))[k]? =
      (shaper.matchedFilter (shaper.shape symbols))[shaper.rrcTaps.length - 1 + k * shaper.sps]?
  /-- Each of them is the sum of the symbols, weighed by both filters. -/
  sample : ∀ k : ℕ, shaper.rrcTaps.length - 1 + k * shaper.sps <
      (shaper.matchedFilter (shaper.shape symbols)).length →
    (shaper.matchedFilter (shaper.shape symbols))[shaper.rrcTaps.length - 1 + k * shaper.sps]? =
      some (∑ j ∈ range symbols.length, symbols.getD j 0 *
        conv shaper.rrcTaps shaper.rrcTaps
          (shaper.rrcTaps.length - 1 + ((k : ℤ) - j) * shaper.sps))
  recovered : IsNyquist shaper.rrcTaps shaper.sps →
    decimate shaper.sps (span * shaper.sps + 1)
      (shaper.matchedFilter (shaper.shape symbols)) = symbols ++ List.replicate span 0

/-- One symbol is left of the sum. -/
theorem IsNyquist.sum_eq {taps : List R} {sps : Nat} (h : IsNyquist taps sps) (symbols : List R)
    (k : Nat) :
    (∑ j ∈ range symbols.length, symbols.getD j 0 *
      conv taps taps (taps.length - 1 + ((k : ℤ) - j) * sps)) = symbols.getD k 0 := by
  have hother : ∀ j, j ≠ k → symbols.getD j 0 *
      conv taps taps (taps.length - 1 + ((k : ℤ) - j) * sps) = 0 := by
    intro j hj
    rw [h.2 _ (by omega), mul_zero]
  rcases Nat.lt_or_ge k symbols.length with hin | hout
  · rw [sum_eq_single_of_mem k (mem_range.mpr hin) fun j _ hj => hother j hj, sub_self, zero_mul,
      add_zero, h.1, mul_one]
  · rw [List.getD_eq_default _ _ hout]
    refine sum_eq_zero fun j hj => hother j ?_
    rw [mem_range] at hj
    omega

/-- **Symbol alignment**, for every burst of at least one symbol. -/
theorem burst_aligned {shaper : PulseShaper R} {span : Nat} {symbols : List R}
    (hsps : 1 ≤ shaper.sps) (htaps : shaper.rrcTaps.length = span * shaper.sps + 1)
    (hsymbols : symbols ≠ []) : Aligned shaper span symbols := by
  have hne : shaper.rrcTaps ≠ [] := by
    rw [← List.length_pos_iff, htaps]
    exact Nat.succ_pos _
  have hlength := PulseShaper.length_filtered hsps hne hsymbols
  have hpicked (k : Nat) : (decimate shaper.sps (span * shaper.sps + 1)
      (shaper.matchedFilter (shaper.shape symbols)))[k]? =
      (shaper.matchedFilter (shaper.shape symbols))[
        shaper.rrcTaps.length - 1 + k * shaper.sps]? := by
    rw [getElem?_decimate hsps, htaps]
  refine ⟨hlength, hpicked, fun k hk => PulseShaper.getElem?_filtered hsps hne hsymbols hk,
    fun hnyquist => ?_⟩
  apply List.ext_getElem?
  intro k
  rw [hpicked]
  by_cases hk : k < symbols.length + span
  · have hin : shaper.rrcTaps.length - 1 + k * shaper.sps <
        (shaper.matchedFilter (shaper.shape symbols)).length := by
      have hbefore := Nat.mul_lt_mul_of_pos_right hk hsps
      rw [Nat.add_mul] at hbefore
      rw [hlength]
      omega
    rw [PulseShaper.getElem?_filtered hsps hne hsymbols hin, hnyquist.sum_eq]
    rcases Nat.lt_or_ge k symbols.length with hsymbol | hrest
    · rw [List.getElem?_append_left hsymbol, List.getElem?_eq_getElem hsymbol,
        List.getD_eq_getElem _ _ hsymbol]
    · rw [List.getElem?_append_right hrest, List.getD_eq_default _ _ hrest,
        List.getElem?_replicate, if_pos (by omega)]
  · have hafter := Nat.mul_le_mul_right shaper.sps (Nat.le_of_not_lt hk)
    rw [Nat.add_mul] at hafter
    rw [List.getElem?_eq_none (by rw [hlength]; omega),
      List.getElem?_eq_none (by rw [List.length_append, List.length_replicate]; omega)]

/-- A filter that passes the symbols on as they are. -/
theorem burst_aligned_impulse : Aligned (⟨[0, 1, 0], 2⟩ : PulseShaper ℤ) 1 [3, -5] :=
  burst_aligned (by decide) rfl (by decide)

/-- For no symbols there are no samples, not even those of the filters. -/
theorem burst_empty : ¬ ∀ (shaper : PulseShaper ℤ) (span : Nat) (symbols : List ℤ),
    1 ≤ shaper.sps → 1 ≤ span → shaper.rrcTaps.length = span * shaper.sps + 1 →
      Aligned shaper span symbols := by
  intro h
  have hlength := (h ⟨[1, 0], 1⟩ 1 [] le_rfl le_rfl rfl).length
  exact absurd hlength (by decide)

end QpskB210.Modem
