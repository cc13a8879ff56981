import QpskB210.Ltp.Engine

/-!
# LTP — ReceivedBytes

A tracker after any sequence of `add_range` calls, against the set of bytes
those calls added: its list is the normal form of that set, `is_complete` and
`get_gaps` are read off it.
-/

namespace QpskB210.Ltp

open QpskB210.Lib ReceptionClaim

namespace ReceptionTracker

/-- The calls `add_range(offset, length)`, one after the other. -/
def addRanges (calls : List ReceptionClaim) : ReceptionTracker :=
  calls.foldl (fun t c => t.addRange c.offset c.length) {}

/-- The byte at position `i` is in one of the ranges. -/
def Within (claims : List ReceptionClaim) (i : Nat) : Prop :=
  ∃ c ∈ claims, c.offset.toNat ≤ i ∧ i < c.offset.toNat + c.length.toNat

instance (claims : List ReceptionClaim) (i : Nat) : Decidable (Within claims i) :=
  inferInstanceAs (Decidable (∃ c ∈ claims, c.offset.toNat ≤ i ∧
    i < c.offset.toNat + c.length.toNat))

theorem within_iff {claims : List ReceptionClaim} {i : Nat} :
    Within claims i ↔ Intervals.Covers (intervals claims) i := by
  simp [Within, Intervals.Covers, intervals, bytes]

theorem received_iff_within {t : ReceptionTracker} {i : Nat} :
    t.Received i ↔ Within t.ranges i :=
  received_iff

/-! ## Sequences of calls -/

/-- What the calls add to a tracker: the invariant stays, and a byte has been
received if it was before or is in one of the ranges. -/
theorem Inv.foldl {t : ReceptionTracker} (ht : t.Inv) {calls : List ReceptionClaim}
    (h : ∀ c ∈ calls, c.NoWrap) :
    (calls.foldl (fun t c => t.addRange c.offset c.length) t).Inv ∧
      ∀ i, (calls.foldl (fun t c => t.addRange c.offset c.length) t).Received i ↔
        Within calls i ∨ t.Received i := by
  induction calls generalizing t with
  | nil => simpa [Within] using ht
  | cons c calls ih =>
      have hc : c.offset.toNat + c.length.toNat < 2 ^ 64 := h c (by simp)
      obtain ⟨hinv, hreceived⟩ := ih (ht.addRange hc) fun d hd => h d (by simp [hd])
      refine ⟨hinv, fun i => ?_⟩
      rw [List.foldl_cons, hreceived, ht.received_addRange hc]
      simp only [Within, List.exists_mem_cons_iff]
      rw [or_left_comm, or_assoc]

theorem addRanges_inv {calls : List ReceptionClaim} (h : ∀ c ∈ calls, c.NoWrap) :
    (addRanges calls).Inv :=
  (Inv.empty.foldl h).1

theorem received_addRanges {calls : List ReceptionClaim} (h : ∀ c ∈ calls, c.NoWrap) {i : Nat} :
    (addRanges calls).Received i ↔ Within calls i := by
  have hreceived := (Inv.empty.foldl h).2 i
  rwa [or_iff_left (not_received_empty i)] at hreceived

/-- A claim is determined by its bytes. -/
theorem bytes_injective : Function.Injective bytes := by
  intro r s h
  rw [bytes, bytes, Prod.mk.injEq] at h
  obtain ⟨hoffset, hend⟩ := h
  have hlength : r.length.toNat = s.length.toNat := by omega
  cases r
  cases s
  rw [ReceptionClaim.mk.injEq]
  exact ⟨UInt64.toNat_inj.mp hoffset, UInt64.toNat_inj.mp hlength⟩

/-- **Canonicity.** Two trackers that received the same bytes are equal. -/
theorem Inv.ext {t u : ReceptionTracker} (ht : t.Inv) (hu : u.Inv)
    (h : ∀ i, t.Received i ↔ u.Received i) : t = u := by
  have hintervals : intervals t.ranges = intervals u.ranges := ht.normal.ext hu.normal h
  have hranges := List.map_injective_iff.mpr bytes_injective hintervals
  cases t
  cases u
  exact congrArg ReceptionTracker.mk hranges

/-! ## What the list looks like -/

theorem Inv.sorted {t : ReceptionTracker} (ht : t.Inv) :
    t.ranges.Pairwise fun r s => r.offset.toNat ≤ s.offset.toNat := by
  have hsorted := ht.normal.sorted
  rw [intervals, List.pairwise_map] at hsorted
  exact hsorted

/-- Non-empty ranges, each ending strictly before every later one begins. -/
structure Canonical (claims : List ReceptionClaim) : Prop where
  sorted : claims.Pairwise fun r s => r.offset < s.offset
  pos : ∀ r ∈ claims, 0 < r.length
  apart : claims.Pairwise fun r s => r.offset.toNat + r.length.toNat < s.offset.toNat

theorem canonical_of_normal {claims : List ReceptionClaim}
    (h : Intervals.Normal (intervals claims)) : Canonical claims := by
  have hapart : claims.Pairwise fun r s => r.offset.toNat + r.length.toNat < s.offset.toNat :=
    List.pairwise_map.mp h.apart
  refine ⟨hapart.imp fun hlt => ?_, fun r hr => ?_, hapart⟩
  · rw [UInt64.lt_iff_toNat_lt]
    omega
  · have hpos := h.pos r.bytes (List.mem_map_of_mem hr)
    rw [bytes] at hpos
    rw [UInt64.lt_iff_toNat_lt, show (0 : UInt64).toNat = 0 from rfl]
    omega

/-! ## total_received -/

theorem toNat_foldl_length {claims : List ReceptionClaim} {total : UInt64}
    (h : total.toNat + (claims.map fun r => r.length.toNat).sum < 2 ^ 64) :
    (claims.foldl (fun total r => total + r.length) total).toNat =
      total.toNat + (claims.map fun r => r.length.toNat).sum := by
  induction claims generalizing total with
  | nil => simp
  | cons r claims ih =>
      rw [List.map_cons, List.sum_cons, ← Nat.add_assoc] at h
      have hadd : (total + r.length).toNat = total.toNat + r.length.toNat :=
        toNat_add_of_lt (by omega)
      rw [List.foldl_cons, ih (by rw [hadd]; exact h), hadd, List.map_cons, List.sum_cons,
        Nat.add_assoc]

theorem sum_intervals (claims : List ReceptionClaim) :
    ((intervals claims).map fun p => p.2 - p.1).sum =
      (claims.map fun r => r.length.toNat).sum := by
  induction claims with
  | nil => rfl
  | cons r claims ih => simp [ih, bytes]

/-- The sum does not wrap, and counts the bytes received. -/
theorem Inv.toNat_totalReceived {t : ReceptionTracker} (ht : t.Inv) :
    t.totalReceived.toNat = {i | t.Received i}.ncard := by
  have hbound : ∀ p ∈ intervals t.ranges, p.2 ≤ 2 ^ 64 - 1 := by
    intro p hp
    obtain ⟨r, hr, rfl⟩ := List.mem_map.mp hp
    have hnoWrap : r.offset.toNat + r.length.toNat < 2 ^ 64 := ht.noWrap r hr
    rw [bytes]
    simp only
    omega
  have hsum := ht.normal.sum_le (fun p _ => Nat.zero_le p.1) hbound
  rw [sum_intervals] at hsum
  rw [totalReceived, toNat_foldl_length (by rw [show (0 : UInt64).toNat = 0 from rfl]; omega),
    show (0 : UInt64).toNat = 0 from rfl, Nat.zero_add, ← sum_intervals]
  exact ht.normal.ncard_covers.symm

/-- **Representation.** After any `add_range` calls that do not wrap, the list
is canonical and holds the bytes the calls added and no others; it does not
depend on their order, and `total_received` counts those bytes. -/
theorem addRanges_represents (calls : List ReceptionClaim) (h : ∀ c ∈ calls, c.NoWrap) :
    Canonical (addRanges calls).ranges ∧
      (∀ i, Within (addRanges calls).ranges i ↔ Within calls i) ∧
      (∀ calls', calls'.Perm calls → (addRanges calls').ranges = (addRanges calls).ranges) ∧
      (addRanges calls).totalReceived.toNat = {i | Within calls i}.ncard := by
  have hinv := addRanges_inv h
  refine ⟨canonical_of_normal hinv.normal, fun i => ?_, fun calls' hperm => ?_, ?_⟩
  · rw [← received_iff_within, received_addRanges h]
  · have h' : ∀ c ∈ calls', c.NoWrap := fun c hc => h c (hperm.mem_iff.mp hc)
    have hsame : addRanges calls' = addRanges calls := by
      refine (addRanges_inv h').ext hinv fun i => ?_
      rw [received_addRanges h', received_addRanges h]
      simp only [Within, hperm.mem_iff]
    rw [hsame]
  · rw [hinv.toNat_totalReceived]
    simp only [received_addRanges h]

theorem addRanges_represents_overlapping :
    (∀ c ∈ [⟨10, 5⟩, ⟨0, 4⟩, ⟨4, 6⟩, ⟨12, 8⟩], NoWrap c) ∧
      (addRanges [⟨10, 5⟩, ⟨0, 4⟩, ⟨4, 6⟩, ⟨12, 8⟩]).totalReceived.toNat =
        {i | Within [⟨10, 5⟩, ⟨0, 4⟩, ⟨4, 6⟩, ⟨12, 8⟩] i}.ncard := by
  have h : ∀ c ∈ [⟨10, 5⟩, ⟨0, 4⟩, ⟨4, 6⟩, ⟨12, 8⟩], NoWrap c := by decide
  exact ⟨h, (addRanges_represents _ h).2.2.2⟩

/-! ## is_complete -/

/-- A tracker passes the test exactly when it received the block and no byte
behind a missing one. -/
theorem Inv.isComplete_iff {t : ReceptionTracker} (ht : t.Inv) {total : UInt64} :
    t.isComplete total = true ↔
      total = 0 ∨ (∀ i < total.toNat, t.Received i) ∧
        ∀ i j, t.Received i → j < i → t.Received j := by
  by_cases hzero : total = 0
  · rw [isComplete, if_pos hzero]
    simp [hzero]
  have hpos := toNat_pos hzero
  refine ⟨fun h => .inr ⟨received_of_isComplete h, fun i j hi hj => ?_⟩, fun h => ?_⟩
  · rw [isComplete, if_neg hzero] at h
    split at h
    · rename_i r hr
      rw [Bool.and_eq_true, decide_eq_true_eq] at h
      have hoffset : r.offset.toNat = 0 := by rw [h.1]; rfl
      rw [received_iff, hr] at hi ⊢
      simp only [List.mem_singleton, exists_eq_left] at hi ⊢
      omega
    · cases h
  · obtain ⟨hall, hdown⟩ := h.resolve_left hzero
    obtain ⟨p, hp, hfst, hsnd⟩ := ht.normal.exists_interval hpos fun i _ hi => hall i hi
    cases hranges : t.ranges with
    | nil =>
        rw [hranges] at hp
        cases hp
    | cons r rest =>
        have hnormal := ht.normal
        rw [hranges, intervals_cons] at hnormal hp
        -- nothing was received behind the first range, for its end is missing
        have hnil : intervals rest = [] := hnormal.tail_eq_nil fun i j hi _ hji => by
          rcases Nat.eq_or_lt_of_le hji with rfl | hlt
          · exact hi
          · have hj := hdown i j (by rw [Received, hranges]; exact hi) hlt
            rwa [Received, hranges] at hj
        rw [hnil, List.mem_singleton] at hp
        rw [hp, bytes] at hfst hsnd
        simp only at hfst hsnd
        have hoffset : r.offset = 0 := UInt64.toNat_inj.mp (Nat.eq_zero_of_le_zero hfst)
        have hrest : rest = [] := List.map_eq_nil_iff.mp hnil
        rw [isComplete, if_neg hzero, hranges, hrest]
        simp only [hoffset, decide_true, Bool.true_and, decide_eq_true_eq, ge_iff_le,
          UInt64.le_iff_toNat_le]
        omega

/-- The test fails a received block when a byte was added behind a missing
one: exactly then is it not "every byte of `[0, total_length)`". -/
theorem isComplete_exact_iff (calls : List ReceptionClaim) (h : ∀ c ∈ calls, c.NoWrap)
    (total : UInt64) :
    ((addRanges calls).isComplete total = true ↔ ∀ i < total.toNat, Within calls i) ↔
      (total = 0 ∨ (∃ i < total.toNat, ¬ Within calls i) ∨
        ∀ i j, Within calls i → j < i → Within calls j) := by
  rw [(addRanges_inv h).isComplete_iff]
  simp only [received_addRanges h]
  by_cases hzero : total = 0
  · simp [hzero]
  · by_cases hall : ∀ i < total.toNat, Within calls i
    · have hnone : ¬ ∃ i < total.toNat, ¬ Within calls i := fun ⟨i, hi, hmissing⟩ =>
        hmissing (hall i hi)
      rw [or_iff_right hzero, or_iff_right hzero, or_iff_right hnone, and_iff_right hall]
      exact iff_true_right hall
    · have hsome : ∃ i < total.toNat, ¬ Within calls i := by
        push Not at hall
        exact hall
      simp only [hzero, hall, hsome, false_or, false_and, true_or]

theorem isComplete_exact_iff_behind :
    (∀ c ∈ [⟨5, 5⟩, ⟨0, 5⟩], NoWrap c) ∧
      (((addRanges [⟨5, 5⟩, ⟨0, 5⟩]).isComplete 10 = true ↔
          ∀ i < (10 : UInt64).toNat, Within [⟨5, 5⟩, ⟨0, 5⟩] i) ↔
        ((10 : UInt64) = 0 ∨ (∃ i < (10 : UInt64).toNat, ¬ Within [⟨5, 5⟩, ⟨0, 5⟩] i) ∨
          ∀ i j, Within [⟨5, 5⟩, ⟨0, 5⟩] i → j < i → Within [⟨5, 5⟩, ⟨0, 5⟩] j)) := by
  have h : ∀ c ∈ [⟨5, 5⟩, ⟨0, 5⟩], NoWrap c := by decide
  exact ⟨h, isComplete_exact_iff _ h 10⟩

/-- The block `[0, 10)` is there, but so is a byte behind the missing `10`. -/
theorem isComplete_not_exact :
    (∀ c ∈ [⟨0, 10⟩, ⟨20, 10⟩], NoWrap c) ∧
      ¬ ((addRanges [⟨0, 10⟩, ⟨20, 10⟩]).isComplete 10 = true ↔
        ∀ i < (10 : UInt64).toNat, Within [⟨0, 10⟩, ⟨20, 10⟩] i) := by
  decide

/-! ## get_gaps -/

theorem foldl_gapStep_done {upper : UInt64} {claims gaps : List ReceptionClaim} {cursor : UInt64}
    (h : upper ≤ cursor) : claims.foldl (gapStep upper) (cursor, gaps) = (cursor, gaps) := by
  induction claims with
  | nil => rfl
  | cons r claims ih =>
      rw [List.foldl_cons, gapStep]
      simp only [if_pos h]
      exact ih

/-- The loop of `get_gaps` pushes what the loop of `compute_gaps` returns. -/
theorem foldl_gapStep {upper : UInt64} {claims : List ReceptionClaim} (cursor : UInt64)
    (gaps : List ReceptionClaim) :
    (let state := claims.foldl (gapStep upper) (cursor, gaps)
      if state.1 < upper then
        state.2 ++ [{ offset := state.1, length := upper - state.1 }]
      else state.2) = gaps ++ gapsFrom upper cursor claims := by
  induction claims generalizing cursor gaps with
  | nil =>
      rw [gapsFrom]
      by_cases h : cursor < upper <;> simp [h]
  | cons r claims ih =>
      rw [List.foldl_cons, gapStep, gapsFrom]
      by_cases hupper : upper ≤ cursor
      · simp only [if_pos hupper, foldl_gapStep_done hupper]
        rw [if_neg (UInt64.not_lt.mpr hupper), List.append_nil]
      · simp only [if_neg hupper]
        by_cases hend : r.offset + r.length ≤ cursor
        · simp only [if_pos hend]
          exact ih cursor gaps
        · simp only [if_neg hend]
          rw [ih]
          by_cases hgap : cursor < r.offset
          · simp [hgap]
          · simp [hgap]

theorem getGaps_eq (t : ReceptionTracker) (lower upper : UInt64) :
    t.getGaps lower upper = computeGaps t.ranges lower upper := by
  rw [getGaps, computeGaps]
  by_cases h : upper ≤ lower
  · rw [if_pos h]
    cases t.ranges with
    | nil => rw [gapsFrom, if_neg (UInt64.not_lt.mpr h)]
    | cons r rest => rw [gapsFrom, if_pos h]
  · rw [if_neg h]
    exact foldl_gapStep lower []

/-- The gaps of claims sorted by offset: exactly the missing bytes. -/
theorem within_computeGaps {claims : List ReceptionClaim} {lower upper : UInt64}
    (h : ∀ c ∈ claims, c.NoWrap)
    (hsorted : claims.Pairwise fun c d => c.offset.toNat ≤ d.offset.toNat) {i : Nat} :
    Within (computeGaps claims lower upper) i ↔
      (lower.toNat ≤ i ∧ i < upper.toNat) ∧ ¬ Within claims i := by
  rw [within_iff, computeGaps, (intervals_gapsFrom h).1, within_iff]
  exact Intervals.covers_gaps (List.pairwise_map.mpr hsorted)

/-- The gaps of claims in any order follow one another. -/
theorem pairwise_computeGaps {claims : List ReceptionClaim} (lower upper : UInt64)
    (h : ∀ c ∈ claims, c.NoWrap) : (computeGaps claims lower upper).Pairwise fun g g' =>
      g.offset.toNat + g.length.toNat ≤ g'.offset.toNat := by
  have hle : ∀ p ∈ intervals claims, p.1 ≤ p.2 := by
    intro p hp
    obtain ⟨c, -, rfl⟩ := List.mem_map.mp hp
    exact Nat.le_add_right _ _
  have hpairwise := @Intervals.pairwise_gaps _ _ upper.toNat lower.toNat _ hle
  rw [← (intervals_gapsFrom h).1] at hpairwise
  exact List.pairwise_map.mp hpairwise

/-- **Gaps.** Both loops find the same gaps of a tracker: the canonical list
of the bytes of the range that were never added. On claims in any order the
gaps are still disjoint, inside the range, and skip no missing byte. -/
theorem gaps_exact (lower upper : UInt64) :
    (∀ calls : List ReceptionClaim, (∀ c ∈ calls, c.NoWrap) →
      (addRanges calls).getGaps lower upper = computeGaps (addRanges calls).ranges lower upper ∧
      Canonical ((addRanges calls).getGaps lower upper) ∧
      ∀ i, Within ((addRanges calls).getGaps lower upper) i ↔
        (lower.toNat ≤ i ∧ i < upper.toNat) ∧ ¬ Within calls i) ∧
    ∀ claims : List ReceptionClaim, (∀ c ∈ claims, c.NoWrap) →
      ((computeGaps claims lower upper).Pairwise fun g g' =>
        g.offset.toNat + g.length.toNat ≤ g'.offset.toNat) ∧
      (∀ g ∈ computeGaps claims lower upper, lower.toNat ≤ g.offset.toNat ∧
        g.offset.toNat + g.length.toNat ≤ upper.toNat) ∧
      ∀ i, lower.toNat ≤ i → i < upper.toNat → ¬ Within claims i →
        Within (computeGaps claims lower upper) i := by
  refine ⟨fun calls h => ⟨getGaps_eq _ _ _, ?_, fun i => ?_⟩, fun claims h => ⟨?_, ?_, ?_⟩⟩
  · have hinv := addRanges_inv h
    rw [getGaps_eq]
    apply canonical_of_normal
    rw [computeGaps, (intervals_gapsFrom hinv.noWrap).1]
    exact Intervals.normal_gaps hinv.normal.pos
  · have hinv := addRanges_inv h
    rw [getGaps_eq, within_computeGaps hinv.noWrap hinv.sorted, ← received_iff_within,
      received_addRanges h]
  · exact pairwise_computeGaps lower upper h
  · intro g hg
    have hmem : g.bytes ∈ intervals (computeGaps claims lower upper) := List.mem_map_of_mem hg
    rw [computeGaps, (intervals_gapsFrom h).1] at hmem
    exact Intervals.le_of_mem_gaps _ hmem
  · intro i hlower hupper hmissing
    rw [within_iff] at hmissing ⊢
    rw [computeGaps, (intervals_gapsFrom h).1]
    exact Intervals.covers_gaps_of_missing hlower hupper hmissing

theorem gaps_exact_unsorted :
    (addRanges [⟨4, 4⟩, ⟨20, 2⟩]).getGaps 2 24 =
        computeGaps (addRanges [⟨4, 4⟩, ⟨20, 2⟩]).ranges 2 24 ∧
      ∀ i, (2 : UInt64).toNat ≤ i → i < (24 : UInt64).toNat → ¬ Within [⟨20, 2⟩, ⟨4, 4⟩] i →
        Within (computeGaps [⟨20, 2⟩, ⟨4, 4⟩] 2 24) i :=
  ⟨((gaps_exact 2 24).1 [⟨4, 4⟩, ⟨20, 2⟩] (by decide)).1,
    ((gaps_exact 2 24).2 [⟨20, 2⟩, ⟨4, 4⟩] (by decide)).2.2⟩

end ReceptionTracker

end QpskB210.Ltp
