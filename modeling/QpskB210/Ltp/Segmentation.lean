import QpskB210.Lib.Chunks
import QpskB210.Ltp.Wire

/-!
# LTP — Segmentation

The segments of a block. Both sending loops cut a range of the block into
`Chunks`; the segments are one per piece, in order.
-/

namespace QpskB210.Ltp

open QpskB210.Lib

/-! ## segment_data_impl -/

/-- The segment of one piece of the session's block. -/
def blockSegment (session : LtpSession) (cpSerial : UInt64) (p : Nat × Nat) : LtpSegment :=
  (chunkSegment session p.1 p.2 (p.1 + p.2 = session.clientData.length) cpSerial).1

/-- The pieces of a block; an empty one has one empty piece. -/
def blockCuts (maxSeg : UInt32) (size : Nat) : List (Nat × Nat) :=
  if size = 0 then [(0, 0)] else Chunks.cut maxSeg.toNat size 0 size

/-- The checkpoint counter after the block. -/
def nextSerial (session : LtpSession) (cpSerial : UInt64) : UInt64 :=
  if session.isRed then cpSerial + 1 else cpSerial

theorem chunkSegment_snd (session : LtpSession) (offset chunk : Nat) (isLast : Bool)
    (cpSerial : UInt64) :
    (chunkSegment session offset chunk isLast cpSerial).2 =
      if isLast then nextSerial session cpSerial else cpSerial := by
  rw [chunkSegment, nextSerial]
  cases session.isRed <;> cases isLast <;> rfl

/-- The loop produces one segment for each piece. Only the last piece, which
reaches the end of the block, advances the counter. -/
theorem segmentLoop_eq {session : LtpSession} {maxSeg : Nat} (hmax : 0 < maxSeg)
    {fuel offset remaining : Nat} (cpSerial : UInt64) (hfuel : remaining ≤ fuel)
    (hend : offset + remaining = session.clientData.length) (hpos : 0 < remaining) :
    segmentLoop session maxSeg fuel offset remaining cpSerial =
      ((Chunks.cut maxSeg fuel offset remaining).map (blockSegment session cpSerial),
        nextSerial session cpSerial) := by
  induction fuel generalizing offset remaining with
  | zero => omega
  | succ fuel ih =>
      rw [segmentLoop, if_neg (by omega), Chunks.cut_succ (by omega), List.map_cons]
      have hlast : (min maxSeg remaining = remaining) =
          (offset + min maxSeg remaining = session.clientData.length) := by
        rw [← hend, eq_iff_iff]
        omega
      by_cases hdone : min maxSeg remaining = remaining
      · -- the last piece: nothing remains
        have hzero : remaining - min maxSeg remaining = 0 := by omega
        simp only [chunkSegment_snd, hzero, Chunks.cut_zero, List.map_nil, blockSegment]
        rw [show segmentLoop session maxSeg fuel (offset + min maxSeg remaining) 0 _ = ([], _) by
          cases fuel <;> rfl]
        simp only [hlast]
        rw [if_pos (by simpa [← hlast] using hdone)]
      · have hrest := @ih (offset + min maxSeg remaining)
          (remaining - min maxSeg remaining) (by omega) (by omega) (by omega)
        simp only [chunkSegment_snd]
        rw [if_neg (by simpa using hdone), hrest]
        simp only [blockSegment, hlast]

/-- **Segmentation.** `segment_data_impl` returns the segments of the pieces
of the block, unless the segment size is 0 and there is something to cut. -/
theorem segmentDataImpl_eq_ok {session : LtpSession} {maxSeg : UInt32} {cpSerial cpSerial' : UInt64}
    {segments : List LtpSegment} :
    segmentDataImpl session maxSeg cpSerial = .ok (segments, cpSerial') ↔
      (session.clientData = [] ∨ maxSeg ≠ 0) ∧
        segments = (blockCuts maxSeg session.clientData.length).map
          (blockSegment session cpSerial) ∧
        cpSerial' = nextSerial session cpSerial := by
  rw [segmentDataImpl, blockCuts]
  by_cases hempty : session.clientData = []
  · rw [hempty]
    simp [blockSegment, chunkSegment_snd, hempty, Prod.ext_iff, eq_comm]
  · have hne : session.clientData.length ≠ 0 := by simpa using hempty
    rw [if_neg (by simpa using hempty), if_neg hne]
    by_cases hmax : maxSeg = 0
    · rw [if_pos hmax]
      simp [hempty, hmax]
    · have hpos := toNat32_pos hmax
      rw [if_neg hmax]
      dsimp only
      rw [segmentLoop_eq hpos cpSerial le_rfl (Nat.zero_add _) (by omega), Except.ok.injEq,
        Prod.mk.injEq]
      simp [hmax, eq_comm]

/-- The segments of a block name the session's engine and number. -/
theorem blockSegment_ids (session : LtpSession) (cpSerial : UInt64) (p : Nat × Nat) :
    (blockSegment session cpSerial p).engineId = session.engineId ∧
      (blockSegment session cpSerial p).sessionNumber = session.sessionNumber := by
  rw [blockSegment, chunkSegment]
  cases session.isRed <;> by_cases hlast : p.1 + p.2 = session.clientData.length <;>
    simp only [hlast, decide_true, decide_false, if_true, if_false, Bool.false_eq_true,
      LtpSession.dataSegment, and_self]

/-- The pieces of a block: all but the last end inside it. -/
theorem blockCuts_eq {maxSeg : UInt32} {size : Nat} (h : size = 0 ∨ maxSeg ≠ 0) :
    ∃ init last, blockCuts maxSeg size = init ++ [last] ∧ last.1 + last.2 = size ∧
      ∀ p ∈ init, p.1 + p.2 < size := by
  rw [blockCuts]
  by_cases hzero : size = 0
  · rw [if_pos hzero]
    exact ⟨[], (0, 0), rfl, hzero.symm, by simp⟩
  · rw [if_neg hzero]
    have hmax := toNat32_pos (h.resolve_left hzero)
    simpa using @Chunks.exists_last _ _ 0 _ hmax le_rfl (Nat.pos_of_ne_zero hzero)

theorem mem_blockCuts {maxSeg : UInt32} {size : Nat} (h : size = 0 ∨ maxSeg ≠ 0) {p : Nat × Nat}
    (hp : p ∈ blockCuts maxSeg size) : p.1 + p.2 ≤ size ∧ (p.2 = 0 → size = 0) := by
  rw [blockCuts] at hp
  by_cases hzero : size = 0
  · rw [if_pos hzero, List.mem_singleton] at hp
    rw [hp, hzero]
    simp
  · rw [if_neg hzero] at hp
    have hmax := toNat32_pos (h.resolve_left hzero)
    have hin := Chunks.mem_cut hp
    have hpos := Chunks.pos_of_mem_cut hmax hp
    omega

theorem length_le_of_mem_blockCuts {maxSeg : UInt32} {size : Nat}
    {p : Nat × Nat} (hp : p ∈ blockCuts maxSeg size) : p.2 ≤ maxSeg.toNat := by
  rw [blockCuts] at hp
  split at hp
  · rw [List.mem_singleton.mp hp]
    exact Nat.zero_le _
  · exact (Chunks.mem_cut hp).2.2

/-! ## retransmit_gaps -/

/-- The plain red segment of one piece. -/
def plainSegment (session : LtpSession) (p : Nat × Nat) : LtpSegment :=
  session.dataSegment SegType.redData
    { clientServiceId := 1, offset := UInt64.ofNat p.1, length := UInt64.ofNat p.2,
      data := (session.clientData.drop p.1).take p.2 }

theorem gapLoop_eq_ok {session : LtpSession} {maxSeg fuel offset remaining : Nat}
    {segments : List LtpSegment} :
    gapLoop session maxSeg fuel offset remaining = .ok segments ↔
      (∀ p ∈ Chunks.cut maxSeg fuel offset remaining, p.1 + p.2 ≤ session.clientData.length) ∧
        segments = (Chunks.cut maxSeg fuel offset remaining).map (plainSegment session) := by
  induction fuel generalizing offset remaining segments with
  | zero => simp [gapLoop, Chunks.cut, eq_comm]
  | succ fuel ih =>
      rw [gapLoop]
      by_cases hzero : remaining = 0
      · rw [if_pos hzero, hzero, Chunks.cut_zero]
        simp [eq_comm]
      · rw [if_neg hzero, Chunks.cut_succ hzero, bind_eq_ok]
        simp only [assignRange_eq_ok, bind_eq_ok, ih, List.forall_mem_cons, List.map_cons]
        constructor
        · intro h
          obtain ⟨data, ⟨_, hin, rfl⟩, rest, ⟨hrest, rfl⟩, h⟩ := h
          cases h
          refine ⟨⟨hin, hrest⟩, ?_⟩
          rw [plainSegment, Nat.add_sub_cancel_left]
        · intro h
          obtain ⟨⟨hin, hrest⟩, hsegments⟩ := h
          refine ⟨_, ⟨by omega, hin, rfl⟩, _, ⟨hrest, rfl⟩, ?_⟩
          rw [hsegments, plainSegment, Nat.add_sub_cancel_left]
          rfl

/-- The pieces of all gaps. -/
def gapCuts (maxSeg : UInt32) (gaps : List ReceptionClaim) : List (Nat × Nat) :=
  gaps.flatMap fun gap =>
    Chunks.cut maxSeg.toNat gap.length.toNat gap.offset.toNat gap.length.toNat

theorem length_le_of_mem_gapCuts {maxSeg : UInt32} {gaps : List ReceptionClaim} {p : Nat × Nat}
    (hp : p ∈ gapCuts maxSeg gaps) : p.2 ≤ maxSeg.toNat := by
  obtain ⟨gap, -, hcut⟩ := List.mem_flatMap.mp hp
  exact (Chunks.mem_cut hcut).2.2

/-- The gap loops succeed exactly on gaps inside the block, and then give
one plain segment for each piece. -/
theorem gapSegments_eq_ok {session : LtpSession} {maxSeg : UInt32} {gaps : List ReceptionClaim}
    {segments : List LtpSegment} :
    gapSegments session maxSeg gaps = .ok segments ↔
      (∀ gap ∈ gaps, maxSeg = 0 → gap.length = 0) ∧
        (∀ p ∈ gapCuts maxSeg gaps, p.1 + p.2 ≤ session.clientData.length) ∧
        segments = (gapCuts maxSeg gaps).map (plainSegment session) := by
  induction gaps generalizing segments with
  | nil => simp [gapSegments, gapCuts, eq_comm]
  | cons gap gaps ih =>
      rw [gapSegments, gapCuts, List.flatMap_cons, ← gapCuts, List.map_append]
      by_cases hmax : maxSeg = 0 ∧ gap.length ≠ 0
      · rw [if_pos hmax]
        refine ⟨fun h => ?_, fun h => absurd (h.1 gap (by simp) hmax.1) hmax.2⟩
        cases h
      · rw [if_neg hmax]
        simp only [bind_eq_ok, gapLoop_eq_ok, ih, List.forall_mem_cons, List.forall_mem_append]
        constructor
        · intro h
          obtain ⟨first, ⟨hfirst, rfl⟩, rest, ⟨hall, hrest, rfl⟩, h⟩ := h
          cases h
          exact ⟨⟨fun h0 => by_contra fun hne => hmax ⟨h0, hne⟩, hall⟩, ⟨hfirst, hrest⟩, rfl⟩
        · intro h
          obtain ⟨⟨_, hall⟩, ⟨hfirst, hrest⟩, hsegments⟩ := h
          exact ⟨_, ⟨hfirst, rfl⟩, _, ⟨hall, hrest, rfl⟩, by rw [hsegments]; rfl⟩

/-- A piece of a gap that was cut lies in the block and is not empty. -/
theorem mem_gapCuts {session : LtpSession} {maxSeg : UInt32} {gaps : List ReceptionClaim}
    {segments : List LtpSegment} (h : gapSegments session maxSeg gaps = .ok segments)
    {p : Nat × Nat} (hp : p ∈ gapCuts maxSeg gaps) :
    p.1 + p.2 ≤ session.clientData.length ∧ 0 < p.2 := by
  obtain ⟨hmax, hin, -⟩ := gapSegments_eq_ok.mp h
  refine ⟨hin p hp, ?_⟩
  obtain ⟨gap, hgap, hp⟩ := List.mem_flatMap.mp hp
  refine Chunks.pos_of_mem_cut (Nat.pos_of_ne_zero fun h0 => ?_) hp
  -- with a segment size of 0 there is nothing to cut
  rw [hmax gap hgap (UInt32.toNat_inj.mp h0)] at hp
  cases hp

/-- A piece of a gap is small enough to be sent. -/
theorem fits_of_mem_gapCuts {session : LtpSession} {maxSeg : UInt32}
    {gaps : List ReceptionClaim} {segments : List LtpSegment}
    (h : gapSegments session maxSeg gaps = .ok segments) {p : Nat × Nat}
    (hp : p ∈ gapCuts maxSeg gaps) : p.1 + p.2 ≤ session.clientData.length ∧ p.2 < 2 ^ 57 := by
  have hlength := length_le_of_mem_gapCuts hp
  have hsize := maxSeg.toNat_lt
  exact ⟨(mem_gapCuts h hp).1, by omega⟩

/-- The pieces cover what the gaps do. -/
theorem covered_gapCuts_iff {maxSeg : UInt32} (hmax : maxSeg ≠ 0) {gaps : List ReceptionClaim}
    {i : Nat} : Chunks.Covered (gapCuts maxSeg gaps) i ↔
      ∃ gap ∈ gaps, gap.offset.toNat ≤ i ∧ i < gap.offset.toNat + gap.length.toNat := by
  have hpos := toNat32_pos hmax
  constructor
  · intro hcovered
    obtain ⟨p, hp, hlow, hhigh⟩ := hcovered
    obtain ⟨gap, hgap, hcut⟩ := List.mem_flatMap.mp hp
    have hin := Chunks.mem_cut hcut
    exact ⟨gap, hgap, by omega, by omega⟩
  · intro hwithin
    obtain ⟨gap, hgap, hlow, hhigh⟩ := hwithin
    obtain ⟨p, hp, hbounds⟩ := Chunks.exists_mem_cut hpos le_rfl hlow hhigh
    exact ⟨p, List.mem_flatMap.mpr ⟨gap, hgap, hp⟩, hbounds⟩

/-- The pieces of gaps that follow one another do, too. -/
theorem gapCuts_apart {maxSeg : UInt32} {gaps : List ReceptionClaim}
    (h : gaps.Pairwise fun g g' => g.offset.toNat + g.length.toNat ≤ g'.offset.toNat) :
    (gapCuts maxSeg gaps).Pairwise fun p q => p.1 + p.2 ≤ q.1 := by
  rw [gapCuts, List.pairwise_flatMap]
  refine ⟨fun gap _ => Chunks.cut_apart, h.imp fun {g g'} hgap p hp q hq => ?_⟩
  have hp := Chunks.mem_cut hp
  have hq := Chunks.mem_cut hq
  omega

/-- The data segment of one piece as the new checkpoint. -/
def checkpointSegment (session : LtpSession) (serial : UInt64) (p : Nat × Nat) : LtpSegment :=
  session.dataSegment SegType.redDataCp
    { clientServiceId := 1, offset := UInt64.ofNat p.1, length := UInt64.ofNat p.2,
      checkpointSerial := some serial, reportSerial := some 0,
      data := (session.clientData.drop p.1).take p.2 }

/-- Marking the segments of a non-empty list of pieces turns the last one
into a checkpoint. -/
theorem markLast_map {session : LtpSession} (serial : UInt64) (init : List (Nat × Nat))
    (last : Nat × Nat) :
    markLast serial ((init ++ [last]).map (plainSegment session)) =
      .ok (init.map (plainSegment session) ++ [checkpointSegment session serial last]) := by
  induction init with
  | nil => rfl
  | cons p init ih =>
      rw [List.cons_append, List.map_cons]
      cases hrest : (init ++ [last]).map (plainSegment session) with
      | nil => simp at hrest
      | cons q rest =>
          rw [hrest] at ih
          rw [markLast, ih]
          · rfl
          · simp

/-- The gap loop only emits gaps with something in them, that end by the
upper bound. -/
theorem of_mem_gapsFrom {upper cursor : UInt64} {claims : List ReceptionClaim} :
    ∀ gap ∈ ReceptionTracker.gapsFrom upper cursor claims,
      0 < gap.length.toNat ∧ gap.offset.toNat + gap.length.toNat ≤ upper.toNat := by
  have hgap {start stop : UInt64} (h : start < stop) (hstop : stop.toNat ≤ upper.toNat) :
      0 < (stop - start).toNat ∧ start.toNat + (stop - start).toNat ≤ upper.toNat := by
    have hlt := UInt64.lt_iff_toNat_lt.mp h
    rw [UInt64.toNat_sub_of_le _ _ (UInt64.le_of_lt h)]
    omega
  induction claims generalizing cursor with
  | nil =>
      rw [ReceptionTracker.gapsFrom]
      split
      · rename_i h
        simpa using hgap h le_rfl
      · simp
  | cons r rest ih =>
      rw [ReceptionTracker.gapsFrom]
      split
      · simp
      · rename_i hupper
        split
        · exact ih
        · split
          · rename_i hcursor
            rw [UInt64.le_iff_toNat_le] at hupper
            rw [UInt64.lt_iff_toNat_lt] at hcursor
            intro gap hmem
            rcases List.mem_cons.mp hmem with rfl | hmem
            · refine hgap ?_ ?_
              · rw [UInt64.lt_iff_toNat_lt, ReceptionClaim.toNat_min]
                omega
              · rw [ReceptionClaim.toNat_min]
                omega
            · exact ih gap hmem
          · exact ih

/-- Gaps that can be resent have pieces. -/
theorem gapCuts_ne_nil {session : LtpSession} {maxSeg : UInt32} {claims : List ReceptionClaim}
    {lower upper : UInt64} {segments : List LtpSegment}
    (hgaps : computeGaps claims lower upper ≠ [])
    (h : gapSegments session maxSeg (computeGaps claims lower upper) = .ok segments) :
    gapCuts maxSeg (computeGaps claims lower upper) ≠ [] := by
  obtain ⟨hmax, -, -⟩ := gapSegments_eq_ok.mp h
  obtain ⟨gap, hgap⟩ := List.exists_mem_of_ne_nil _ hgaps
  have hpos := (of_mem_gapsFrom gap hgap).1
  have hsize : 0 < maxSeg.toNat := Nat.pos_of_ne_zero fun h0 => by
    have hzero := hmax gap hgap (UInt32.toNat_inj.mp h0)
    rw [hzero] at hpos
    exact absurd hpos (by decide)
  obtain ⟨p, hp, -⟩ := @Chunks.exists_mem_cut _ _ gap.offset.toNat _ hsize
    (le_refl gap.length.toNat) gap.offset.toNat (le_refl _) (by omega)
  exact List.ne_nil_of_mem (List.mem_flatMap.mpr ⟨gap, hgap, hp⟩)

/-- What is resent for gaps is plain but for the last segment, a checkpoint. -/
theorem marked_eq {session : LtpSession} {maxSeg : UInt32} {claims : List ReceptionClaim}
    {lower upper serial : UInt64} {segments marked : List LtpSegment}
    (hgaps : computeGaps claims lower upper ≠ [])
    (h : gapSegments session maxSeg (computeGaps claims lower upper) = .ok segments)
    (hmarked : markLast serial segments = .ok marked) :
    ∃ init last, gapCuts maxSeg (computeGaps claims lower upper) = init ++ [last] ∧
      marked = init.map (plainSegment session) ++ [checkpointSegment session serial last] := by
  have hne := gapCuts_ne_nil hgaps h
  obtain ⟨-, -, rfl⟩ := gapSegments_eq_ok.mp h
  have hcuts := (List.dropLast_append_getLast hne).symm
  rw [hcuts, markLast_map] at hmarked
  exact ⟨_, _, hcuts, (Except.ok.inj hmarked).symm⟩

end QpskB210.Ltp
