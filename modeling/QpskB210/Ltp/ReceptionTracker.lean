import QpskB210.Lib.Intervals
import QpskB210.Ltp.Segment

/-!
# LTP — ReceptionTracker

The byte ranges a receiver session has seen. The tracker's loops run on
`uint64_t` pairs `(offset, length)`; where no `offset + length` wraps they are
the interval operations of `Lib.Intervals` on the pairs `(offset, end)`, and
the tracker's list is the normal form of the set of received bytes.
-/

namespace QpskB210.Ltp

open QpskB210.Lib

/-- Received byte ranges: sorted by offset, non-overlapping, non-adjacent. -/
structure ReceptionTracker where
  ranges : List ReceptionClaim := []
deriving DecidableEq, Repr

namespace ReceptionTracker

/-! ## The tracker's operations -/

/-- Merge with all ranges that overlap or are adjacent, then insert. -/
def mergeRange (newStart newEnd : UInt64) : List ReceptionClaim → List ReceptionClaim
  | [] => [{ offset := newStart, length := newEnd - newStart }]
  | r :: rest =>
    if r.offset ≤ newEnd then
      mergeRange (min newStart r.offset) (max newEnd (r.offset + r.length)) rest
    else { offset := newStart, length := newEnd - newStart } :: r :: rest

/-- Skip ranges that end strictly before `newStart`. -/
def insertRange (newStart newEnd : UInt64) : List ReceptionClaim → List ReceptionClaim
  | [] => mergeRange newStart newEnd []
  | r :: rest =>
    if r.offset + r.length < newStart then r :: insertRange newStart newEnd rest
    else mergeRange newStart newEnd (r :: rest)

/-- `add_range`. -/
def addRange (t : ReceptionTracker) (offset length : UInt64) : ReceptionTracker :=
  if length = 0 then t
  else { ranges := insertRange offset (offset + length) t.ranges }

/-- `is_complete`. -/
def isComplete (t : ReceptionTracker) (totalLength : UInt64) : Bool :=
  if totalLength = 0 then true
  else
    match t.ranges with
    | [r] => r.offset = 0 && r.length ≥ totalLength
    | _ => false

/-- The loop of `get_gaps`, which `LtpEngine::compute_gaps` repeats. -/
def gapsFrom (upper : UInt64) : UInt64 → List ReceptionClaim → List ReceptionClaim
  | cursor, [] => if cursor < upper then [{ offset := cursor, length := upper - cursor }] else []
  | cursor, r :: rest =>
    let rEnd := r.offset + r.length
    if upper ≤ cursor then []
    else if rEnd ≤ cursor then gapsFrom upper cursor rest
    else if cursor < r.offset then
      { offset := cursor, length := min r.offset upper - cursor } ::
        gapsFrom upper (max cursor rEnd) rest
    else gapsFrom upper (max cursor rEnd) rest

/-- The loop body of `get_gaps`, on its cursor and the gaps pushed so far.
Once the cursor has reached the upper bound it stays there: `break`. -/
def gapStep (upper : UInt64) (state : UInt64 × List ReceptionClaim) (r : ReceptionClaim) :
    UInt64 × List ReceptionClaim :=
  let (cursor, gaps) := state
  let rEnd := r.offset + r.length
  if upper ≤ cursor then (cursor, gaps)
  -- Skip ranges entirely before the cursor.
  else if rEnd ≤ cursor then (cursor, gaps)
  else
    let gaps :=
      if cursor < r.offset then
        gaps ++ [{ offset := cursor, length := min r.offset upper - cursor }]
      else gaps
    (max cursor rEnd, gaps)

/-- `get_gaps`. -/
def getGaps (t : ReceptionTracker) (lower upper : UInt64) : List ReceptionClaim :=
  if upper ≤ lower then []
  else
    let (cursor, gaps) := t.ranges.foldl (gapStep upper) (lower, [])
    -- If there's a gap after the last range, record it.
    if cursor < upper then gaps ++ [{ offset := cursor, length := upper - cursor }] else gaps

/-- `total_received`: sum of all range lengths. -/
def totalReceived (t : ReceptionTracker) : UInt64 :=
  t.ranges.foldl (fun total r => total + r.length) 0

end ReceptionTracker

/-! ## Claims as intervals -/

namespace ReceptionClaim

/-- The bytes of a claim, as a half-open interval. -/
def bytes (r : ReceptionClaim) : Nat × Nat := (r.offset.toNat, r.offset.toNat + r.length.toNat)

theorem bytes_fst (r : ReceptionClaim) : r.bytes.1 = r.offset.toNat := rfl

/-- `offset + length` does not wrap. -/
def NoWrap (r : ReceptionClaim) : Prop := r.offset.toNat + r.length.toNat < 2 ^ 64

instance (r : ReceptionClaim) : Decidable r.NoWrap :=
  inferInstanceAs (Decidable (r.offset.toNat + r.length.toNat < 2 ^ 64))

theorem NoWrap.toNat_end {r : ReceptionClaim} (h : r.NoWrap) :
    (r.offset + r.length).toNat = r.bytes.2 :=
  toNat_add_of_lt h

theorem toNat_min (a b : UInt64) : (min a b).toNat = min a.toNat b.toNat := by
  rw [UInt64.min_def]
  split <;> rename_i h <;> rw [UInt64.le_iff_toNat_le] at h <;> omega

theorem toNat_max (a b : UInt64) : (max a b).toNat = max a.toNat b.toNat := by
  rw [UInt64.max_def]
  split <;> rename_i h <;> rw [UInt64.le_iff_toNat_le] at h <;> omega

/-- The claim `[start, stop)`, stored by its length. -/
theorem bytes_mk {start stop : UInt64} (h : start ≤ stop) :
    bytes { offset := start, length := stop - start } = (start.toNat, stop.toNat) := by
  have hle := UInt64.le_iff_toNat_le.mp h
  rw [bytes, UInt64.toNat_sub_of_le _ _ h]
  exact Prod.ext rfl (by simp only; omega)

theorem noWrap_mk {start stop : UInt64} (h : start ≤ stop) :
    NoWrap { offset := start, length := stop - start } := by
  have hbytes := congrArg Prod.snd (bytes_mk h)
  rw [NoWrap]
  exact hbytes.trans_lt stop.toNat_lt

end ReceptionClaim

namespace ReceptionTracker

open ReceptionClaim

/-- A claim list as a list of intervals. -/
def intervals (claims : List ReceptionClaim) : List (Nat × Nat) := claims.map bytes

@[simp] theorem intervals_nil : intervals [] = [] := rfl

@[simp] theorem intervals_cons (r : ReceptionClaim) (rest : List ReceptionClaim) :
    intervals (r :: rest) = r.bytes :: intervals rest := rfl

theorem mergeRange_noWrap {newStart newEnd : UInt64} {claims : List ReceptionClaim}
    (hle : newStart ≤ newEnd) (h : ∀ r ∈ claims, r.NoWrap) :
    ∀ r ∈ mergeRange newStart newEnd claims, r.NoWrap := by
  induction claims generalizing newStart newEnd with
  | nil => simpa [mergeRange] using noWrap_mk hle
  | cons r rest ih =>
      rw [mergeRange]
      split
      · refine ih ?_ fun q hq => h q (by simp [hq])
        rw [UInt64.le_iff_toNat_le] at hle ⊢
        rw [toNat_min, toNat_max]
        omega
      · intro q hq
        rcases List.mem_cons.mp hq with rfl | hq
        · exact noWrap_mk hle
        · exact h q hq

theorem intervals_mergeRange {newStart newEnd : UInt64} {claims : List ReceptionClaim}
    (hle : newStart ≤ newEnd) (h : ∀ r ∈ claims, r.NoWrap) :
    intervals (mergeRange newStart newEnd claims) =
      Intervals.absorb newStart.toNat newEnd.toNat (intervals claims) := by
  induction claims generalizing newStart newEnd with
  | nil => rw [mergeRange, intervals_cons, bytes_mk hle]; rfl
  | cons r rest ih =>
      have hend := (h r (by simp)).toNat_end
      rw [mergeRange, intervals_cons, Intervals.absorb, ← hend, bytes_fst]
      by_cases hreach : r.offset ≤ newEnd
      · have hmerged : min newStart r.offset ≤ max newEnd (r.offset + r.length) := by
          rw [UInt64.le_iff_toNat_le] at hle ⊢
          rw [toNat_min, toNat_max]
          omega
        rw [if_pos hreach, if_pos (UInt64.le_iff_toNat_le.mp hreach),
          ih hmerged fun q hq => h q (by simp [hq]), toNat_min, toNat_max]
      · rw [if_neg hreach, if_neg fun h => hreach (UInt64.le_iff_toNat_le.mpr h), intervals_cons,
          bytes_mk hle, intervals_cons]

theorem insertRange_noWrap {newStart newEnd : UInt64} {claims : List ReceptionClaim}
    (hle : newStart ≤ newEnd) (h : ∀ r ∈ claims, r.NoWrap) :
    ∀ r ∈ insertRange newStart newEnd claims, r.NoWrap := by
  induction claims with
  | nil => exact mergeRange_noWrap hle h
  | cons r rest ih =>
      rw [insertRange]
      split
      · intro q hq
        rcases List.mem_cons.mp hq with rfl | hq
        · exact h q (by simp)
        · exact ih (fun q hq => h q (by simp [hq])) q hq
      · exact mergeRange_noWrap hle h

theorem intervals_insertRange {newStart newEnd : UInt64} {claims : List ReceptionClaim}
    (hle : newStart ≤ newEnd) (h : ∀ r ∈ claims, r.NoWrap) :
    intervals (insertRange newStart newEnd claims) =
      Intervals.insert newStart.toNat newEnd.toNat (intervals claims) := by
  induction claims with
  | nil => exact intervals_mergeRange hle h
  | cons r rest ih =>
      have hend := (h r (by simp)).toNat_end
      rw [insertRange, intervals_cons, Intervals.insert, ← hend]
      by_cases hskip : r.offset + r.length < newStart
      · rw [if_pos hskip, if_pos (UInt64.lt_iff_toNat_lt.mp hskip), intervals_cons,
          ih fun q hq => h q (by simp [hq])]
      · rw [if_neg hskip, if_neg fun h => hskip (UInt64.lt_iff_toNat_lt.mpr h)]
        exact intervals_mergeRange hle h

/-- The gap loop is the interval one, and its own claims do not wrap. -/
theorem intervals_gapsFrom {upper cursor : UInt64} {claims : List ReceptionClaim}
    (h : ∀ r ∈ claims, r.NoWrap) :
    intervals (gapsFrom upper cursor claims) =
        Intervals.gaps upper.toNat cursor.toNat (intervals claims) ∧
      ∀ g ∈ gapsFrom upper cursor claims, g.NoWrap := by
  induction claims generalizing cursor with
  | nil =>
      rw [gapsFrom, intervals_nil, Intervals.gaps]
      simp only [UInt64.lt_iff_toNat_lt]
      split
      · rename_i hlt
        have hle : cursor ≤ upper := UInt64.le_iff_toNat_le.mpr hlt.le
        rw [intervals_cons, bytes_mk hle]
        simpa using noWrap_mk hle
      · simp
  | cons r rest ih =>
      have hend := (h r (by simp)).toNat_end
      have hrest : ∀ q ∈ rest, q.NoWrap := fun q hq => h q (by simp [hq])
      have hmax := @ih (max cursor (r.offset + r.length)) hrest
      rw [toNat_max] at hmax
      rw [gapsFrom, intervals_cons, Intervals.gaps, ← hend, bytes_fst]
      simp only [UInt64.lt_iff_toNat_lt, UInt64.le_iff_toNat_le]
      split
      · simp
      · rename_i hupper
        split
        · exact ih hrest
        · split
          · rename_i hgap
            have hlt : cursor.toNat < r.offset.toNat := hgap
            have hle : cursor ≤ min r.offset upper := by
              rw [UInt64.le_iff_toNat_le, toNat_min]
              omega
            refine ⟨?_, fun g hg => ?_⟩
            · rw [intervals_cons, bytes_mk hle, toNat_min, hmax.1]
            · rcases List.mem_cons.mp hg with rfl | hg
              · exact noWrap_mk hle
              · exact hmax.2 g hg
          · exact hmax

/-! ## The invariant -/

/-- The byte at position `i` has been received. -/
def Received (t : ReceptionTracker) (i : Nat) : Prop := Intervals.Covers (intervals t.ranges) i

/-- What the comment on `ranges_` promises, with no end beyond 64 bits. -/
structure Inv (t : ReceptionTracker) : Prop where
  noWrap : ∀ r ∈ t.ranges, r.NoWrap
  normal : Intervals.Normal (intervals t.ranges)

theorem Inv.empty : Inv {} := ⟨by simp, Intervals.normal_nil⟩

@[simp] theorem not_received_empty (i : Nat) : ¬ Received {} i := Intervals.covers_nil i

theorem received_iff {t : ReceptionTracker} {i : Nat} :
    t.Received i ↔ ∃ r ∈ t.ranges, r.offset.toNat ≤ i ∧ i < r.offset.toNat + r.length.toNat := by
  simp [Received, Intervals.Covers, intervals, ReceptionClaim.bytes]

theorem Inv.addRange {t : ReceptionTracker} (ht : t.Inv) {offset length : UInt64}
    (h : offset.toNat + length.toNat < 2 ^ 64) : (t.addRange offset length).Inv := by
  rw [ReceptionTracker.addRange]
  split
  · exact ht
  · rename_i hne
    have hend := toNat_add_of_lt h
    have hpos := toNat_pos hne
    have hle : offset ≤ offset + length := UInt64.le_iff_toNat_le.mpr (by omega)
    refine ⟨insertRange_noWrap hle ht.noWrap, ?_⟩
    rw [intervals_insertRange hle ht.noWrap]
    exact Intervals.normal_insert (by omega) ht.normal

/-- `add_range` records exactly the bytes of the range. -/
theorem Inv.received_addRange {t : ReceptionTracker} (ht : t.Inv) {offset length : UInt64}
    (h : offset.toNat + length.toNat < 2 ^ 64) {i : Nat} :
    (t.addRange offset length).Received i ↔
      (offset.toNat ≤ i ∧ i < offset.toNat + length.toNat) ∨ t.Received i := by
  rw [ReceptionTracker.addRange]
  split
  · rename_i hzero
    rw [hzero, show (0 : UInt64).toNat = 0 from rfl]
    exact ⟨.inr, fun h => h.resolve_left (by omega)⟩
  · rename_i hne
    have hend := toNat_add_of_lt h
    have hpos := toNat_pos hne
    have hle : offset ≤ offset + length := UInt64.le_iff_toNat_le.mpr (by omega)
    rw [Received, intervals_insertRange hle ht.noWrap, Intervals.covers_insert (by omega) ht.normal,
      hend, Received]

/-- A tracker has no more ranges than there are positions below a bound. -/
theorem Inv.length_ranges_le {t : ReceptionTracker} (ht : t.Inv) {n : Nat}
    (h : ∀ i, t.Received i → i < n) : t.ranges.length ≤ n := by
  have hlength : t.ranges.length = (intervals t.ranges).length := (List.length_map _).symm
  rw [hlength]
  refine ht.normal.length_le (b := 0) (fun _ _ => Nat.zero_le _) fun p hp => ?_
  have hpos := ht.normal.pos p hp
  have hlast : t.Received (p.2 - 1) := ⟨p, hp, by omega, by omega⟩
  have := h _ hlast
  omega

/-- A tracker that passes the completeness test has received the block. -/
theorem received_of_isComplete {t : ReceptionTracker} {total : UInt64}
    (h : t.isComplete total = true) : ∀ i < total.toNat, t.Received i := by
  intro i hi
  rw [isComplete] at h
  split at h
  · rename_i hzero
    rw [hzero] at hi
    cases hi
  · split at h
    · rename_i r hr
      simp only [Bool.and_eq_true, decide_eq_true_eq, ge_iff_le, UInt64.le_iff_toNat_le] at h
      have hzero : r.offset.toNat = 0 := by rw [h.1]; rfl
      exact received_iff.mpr ⟨r, by simp [hr], by omega, by omega⟩
    · cases h

/-- A tracker that has received exactly a non-empty block holds one range. -/
theorem Inv.ranges_eq {t : ReceptionTracker} (ht : t.Inv) {total : UInt64} (hne : total ≠ 0)
    (h : ∀ i, t.Received i ↔ i < total.toNat) :
    t.ranges = [{ offset := 0, length := total }] := by
  have hpos := toNat_pos hne
  have hnormal : Intervals.Normal [(0, total.toNat)] := Intervals.normal_singleton hpos
  have hone : intervals t.ranges = [(0, total.toNat)] :=
    ht.normal.ext hnormal fun i => by
      rw [Intervals.covers_cons]
      simpa [Received] using h i
  rw [intervals, List.map_eq_singleton_iff] at hone
  obtain ⟨r, hr, hbytes⟩ := hone
  rw [ReceptionClaim.bytes, Prod.mk.injEq] at hbytes
  have hoffset : r.offset = 0 := UInt64.toNat_inj.mp hbytes.1
  have hlength : r.length = total := UInt64.toNat_inj.mp (by omega)
  rw [hr, ← hoffset, ← hlength]

theorem Inv.isComplete_of_exact {t : ReceptionTracker} (ht : t.Inv) {total : UInt64}
    (h : ∀ i, t.Received i ↔ i < total.toNat) : t.isComplete total = true := by
  rw [isComplete]
  split
  · rfl
  · rename_i hne
    rw [ht.ranges_eq hne h]
    simp

end ReceptionTracker

end QpskB210.Ltp
