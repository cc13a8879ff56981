import Mathlib.Data.Finset.Card
import Mathlib.Order.Interval.Finset.Nat
import QpskB210.Lib.Chunks
import QpskB210.Lib.Intervals

/-!
# Aligned chunks

A range cut from 0 into chunks of one size, of which only whole chunks are
ever lost or found. What is missing is then cut into the same chunks again,
so that each chunk found makes one fewer that is missing.
-/

namespace QpskB210.Lib.Chunks

open Finset

variable {size total : Nat}

/-- One of the chunks of `[0, total)`. -/
def IsChunk (size total : Nat) (p : Nat × Nat) : Prop :=
  p.1 % size = 0 ∧ p.1 < total ∧ p.2 = min size (total - p.1)

/-- The positions of one chunk are there together or not at all. -/
def Aligned (size total : Nat) (got : Nat → Prop) : Prop :=
  ∀ i j, i < total → j < total → i / size = j / size → (got i ↔ got j)

theorem aligned_false : Aligned size total fun _ => False :=
  fun _ _ _ _ _ => .rfl

theorem IsChunk.mem_iff {p : Nat × Nat} (hsize : 0 < size) (hp : IsChunk size total p) {i : Nat}
    (hi : i < total) : (p.1 ≤ i ∧ i < p.1 + p.2) ↔ i / size = p.1 / size := by
  obtain ⟨hstart, -, hlength⟩ := hp
  have hfst : size * (p.1 / size) = p.1 := Nat.mul_div_cancel' (Nat.dvd_of_mod_eq_zero hstart)
  have hdiv := Nat.div_add_mod i size
  have hmod := Nat.mod_lt i hsize
  rw [hlength]
  constructor
  · intro h
    refine Nat.div_eq_of_lt_le ?_ ?_
    · rw [Nat.mul_comm, hfst]
      exact h.1
    · rw [Nat.succ_mul, Nat.mul_comm, hfst]
      omega
  · intro h
    rw [h, hfst] at hdiv
    omega

theorem Aligned.add {got : Nat → Prop} (hsize : 0 < size) (h : Aligned size total got)
    {p : Nat × Nat} (hp : IsChunk size total p) :
    Aligned size total fun i => got i ∨ (p.1 ≤ i ∧ i < p.1 + p.2) := by
  intro i j hi hj hsame
  dsimp only
  rw [h i j hi hj hsame, hp.mem_iff hsize hi, hp.mem_iff hsize hj, hsame]

/-- A range between two chunk ends is cut into chunks. -/
theorem isChunk_of_mem_cut (hsize : 0 < size) {fuel offset remaining : Nat}
    (hoffset : offset % size = 0) (hle : offset + remaining ≤ total)
    (hend : (offset + remaining) % size = 0 ∨ offset + remaining = total) {p : Nat × Nat}
    (hp : p ∈ cut size fuel offset remaining) : IsChunk size total p := by
  induction fuel generalizing offset remaining with
  | zero => cases hp
  | succ fuel ih =>
      by_cases hzero : remaining = 0
      · rw [hzero, cut_zero] at hp
        cases hp
      · rw [cut_succ hzero] at hp
        rcases Nat.lt_or_ge remaining size with hshort | hlong
        · -- a chunk that is cut short is the last one
          rw [Nat.min_eq_right hshort.le, Nat.sub_self, cut_zero, List.mem_singleton] at hp
          have hlast : offset + remaining = total := by
            refine hend.resolve_left fun hmod => ?_
            rw [Nat.add_mod, hoffset, Nat.zero_add, Nat.mod_mod, Nat.mod_eq_of_lt hshort] at hmod
            exact hzero hmod
          rw [hp]
          refine ⟨hoffset, ?_, ?_⟩ <;> dsimp only <;> omega
        · rw [Nat.min_eq_left hlong] at hp
          rcases List.mem_cons.mp hp with rfl | hp
          · refine ⟨hoffset, ?_, ?_⟩ <;> dsimp only <;> omega
          · have hrest : offset + size + (remaining - size) = offset + remaining := by omega
            refine ih ?_ (by omega) (by rwa [hrest]) hp
            rw [Nat.add_mod, hoffset, Nat.mod_self]
            exact Nat.zero_mod size

/-! ## Intervals -/

/-- Next to an interval of a normal list there is nothing covered. -/
theorem not_covers_beside {l : List (Nat × Nat)} (h : Intervals.Normal l) {p : Nat × Nat}
    (hp : p ∈ l) {x : Nat} (hx : x = p.2 ∨ x + 1 = p.1) : ¬ Intervals.Covers l x := by
  induction l with
  | nil => cases hp
  | cons q l ih =>
      obtain ⟨hpos, hafter, hrest⟩ := Intervals.normal_cons.mp h
      rw [Intervals.covers_cons, not_or]
      rcases List.mem_cons.mp hp with rfl | hp
      · refine ⟨by omega, fun hcovers => ?_⟩
        have hlt := Intervals.le_of_covers hafter hcovers
        omega
      · have hq := hafter p hp
        have hp' := hrest.pos p hp
        exact ⟨by omega, ih hrest hp⟩

/-- What an aligned set misses is cut into chunks, interval by interval. -/
theorem isChunk_of_missing (hsize : 0 < size) {got : Nat → Prop} (h : Aligned size total got)
    {l : List (Nat × Nat)} (hl : Intervals.Normal l)
    (hcovers : ∀ i, Intervals.Covers l i ↔ i < total ∧ ¬ got i) {q : Nat × Nat} (hq : q ∈ l)
    {fuel : Nat} {p : Nat × Nat} (hp : p ∈ cut size fuel q.1 (q.2 - q.1)) :
    IsChunk size total p := by
  have hpos := hl.pos q hq
  have hfirst := (hcovers q.1).mp ⟨q, hq, le_rfl, hpos⟩
  have hlast := (hcovers (q.2 - 1)).mp ⟨q, hq, by omega, by omega⟩
  have hsum : q.1 + (q.2 - q.1) = q.2 := by omega
  have hsame : ∀ x, x % size ≠ 0 → (x - 1) / size = x / size := by
    intro x hx
    have hdiv := Nat.div_add_mod x size
    have hmod := Nat.mod_lt x hsize
    refine Nat.div_eq_of_lt_le ?_ ?_
    · rw [Nat.mul_comm]
      omega
    · rw [Nat.succ_mul, Nat.mul_comm]
      omega
  refine isChunk_of_mem_cut hsize ?_ (by omega) ?_ hp
  · -- a chunk that begins earlier would be missing from there
    by_contra hmod
    have hzero : q.1 ≠ 0 := fun h0 => hmod (by rw [h0, Nat.zero_mod])
    have hbefore := not_covers_beside hl hq (.inr (Nat.sub_add_cancel (Nat.pos_of_ne_zero hzero)))
    rw [hcovers, h (q.1 - 1) q.1 (by omega) hfirst.1 (hsame q.1 hmod)] at hbefore
    exact hbefore ⟨by omega, hfirst.2⟩
  · rw [hsum]
    by_contra hmid
    rw [not_or] at hmid
    have hafter := not_covers_beside hl hq (.inl rfl)
    rw [hcovers, ← h (q.2 - 1) q.2 hlast.1 (by omega) (hsame q.2 hmid.1)] at hafter
    exact hafter ⟨by omega, hlast.2⟩

/-! ## How many are missing -/

open Classical in
/-- Where the chunks begin that are missing. -/
noncomputable def missing (size total : Nat) (got : Nat → Prop) : Finset Nat :=
  {i ∈ range total | i % size = 0 ∧ ¬ got i}

theorem mem_missing {got : Nat → Prop} {i : Nat} :
    i ∈ missing size total got ↔ i < total ∧ i % size = 0 ∧ ¬ got i := by
  simp [missing]

/-- A missing position belongs to a missing chunk. -/
theorem Aligned.missing_nonempty {got : Nat → Prop} (hsize : 0 < size)
    (h : Aligned size total got) {i : Nat} (hi : i < total) (hgot : ¬ got i) :
    (missing size total got).Nonempty := by
  have hle := Nat.mul_div_le i size
  refine ⟨size * (i / size), mem_missing.mpr ⟨by omega, Nat.mul_mod_right .., fun hfirst => hgot ?_⟩⟩
  rwa [← h (size * (i / size)) i (by omega) hi (Nat.mul_div_cancel_left _ hsize)]

/-- More that is there leaves less missing. -/
theorem missing_subset {got got' : Nat → Prop} (hgot : ∀ i, got i → got' i) :
    missing size total got' ⊆ missing size total got := by
  intro i hi
  rw [mem_missing] at hi ⊢
  exact ⟨hi.1, hi.2.1, fun h => hi.2.2 (hgot i h)⟩

/-- A chunk that is found makes one fewer missing, at least. -/
theorem card_missing_lt {got got' : Nat → Prop} {p : Nat × Nat} (hp : IsChunk size total p)
    (hgot : ∀ i, got i → got' i) (hbefore : ¬ got p.1) (hafter : got' p.1) :
    #(missing size total got') < #(missing size total got) := by
  refine card_lt_card ⟨missing_subset hgot, fun hsubset => ?_⟩
  have hfound := hsubset (mem_missing.mpr ⟨hp.2.1, hp.1, hbefore⟩)
  exact (mem_missing.mp hfound).2.2 hafter

/-- There are no more chunks to miss than the range was cut into. -/
theorem card_missing_le (hsize : 0 < size) (got : Nat → Prop) :
    #(missing size total got) ≤ (cut size total 0 total).length := by
  have hsubset : missing size total got ⊆ ((cut size total 0 total).map Prod.fst).toFinset := by
    intro i hi
    obtain ⟨hlt, hstart, -⟩ := mem_missing.mp hi
    obtain ⟨p, hp, hlow, hhigh⟩ :=
      exists_mem_cut hsize le_rfl (Nat.zero_le i) (by rwa [Nat.zero_add])
    have hchunk := @isChunk_of_mem_cut size total hsize total 0 total (Nat.zero_mod _) (by omega)
      (by omega) p hp
    have hsame := (hchunk.mem_iff hsize hlt).mp ⟨hlow, hhigh⟩
    have hfst := Nat.mul_div_cancel' (Nat.dvd_of_mod_eq_zero hchunk.1)
    have hi := Nat.mul_div_cancel' (Nat.dvd_of_mod_eq_zero hstart)
    rw [List.mem_toFinset, List.mem_map]
    exact ⟨p, hp, by rw [← hfst, ← hi, hsame]⟩
  refine (card_le_card hsubset).trans ((List.toFinset_card_le _).trans ?_)
  rw [List.length_map]

end QpskB210.Lib.Chunks
