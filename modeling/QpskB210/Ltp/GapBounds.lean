import QpskB210.Ltp.EngineProgress

/-!
# LTP — Gap bounds

Which slices of a block an originator reads as it answers a report. Bounds
and claims come from the peer and are used as they are: `compute_gaps` keeps
its gaps inside the report's scope, but nothing compares the scope or the
claims with the block. `GapsInBlock` says of a report, without computing its
gaps, that none of them reaches beyond the block; then, and only then, the
loop that cuts the gaps into segments reads inside it
(`receiveReportSegment_inBlock_iff`).
-/

namespace QpskB210.Ltp

open QpskB210.Lib

/-! ## Where gaps end -/

/-- How far claims reach: the furthest of their ends, which wrap as the
source's do, and of the lower bound. -/
def reach (lower : UInt64) (claims : List ReceptionClaim) : UInt64 :=
  claims.foldl (fun furthest claim => max furthest (claim.offset + claim.length)) lower

theorem reach_cons (lower : UInt64) (claim : ReceptionClaim) (claims : List ReceptionClaim) :
    reach lower (claim :: claims) = reach (max lower (claim.offset + claim.length)) claims := rfl

theorem toNat_le_reach (lower : UInt64) (claims : List ReceptionClaim) :
    lower.toNat ≤ (reach lower claims).toNat := by
  induction claims generalizing lower with
  | nil => exact le_refl _
  | cons claim claims ih =>
      have hmax := ReceptionClaim.toNat_max lower (claim.offset + claim.length)
      have hle := ih (max lower (claim.offset + claim.length))
      rw [reach_cons]
      omega

/-- After the claims before it, this claim starts and ends beyond what they
reach, which is not yet the upper bound: a gap ends where it starts. -/
def OpensGap (lower upper : UInt64) (before : List ReceptionClaim) (claim : ReceptionClaim) : Prop :=
  reach lower before < upper ∧ reach lower before < claim.offset ∧
    reach lower before < claim.offset + claim.length

/-- The scope ends inside the block of this size, or the claims reach its end
and those that open a gap start inside the block. -/
def GapsInBlock (size : Nat) (claims : List ReceptionClaim) (lower upper : UInt64) : Prop :=
  upper.toNat ≤ size ∨
    upper ≤ reach lower claims ∧ ∀ before claim after, claims = before ++ claim :: after →
      OpensGap lower upper before claim → claim.offset.toNat ≤ size

theorem forall_split_cons {α : Type} {P : List α → α → Prop} {a : α} {as : List α} :
    (∀ before x after, a :: as = before ++ x :: after → P before x) ↔
      P [] a ∧ ∀ before x after, as = before ++ x :: after → P (a :: before) x := by
  constructor
  · intro h
    refine ⟨h [] a as rfl, fun before x after has => h (a :: before) x after ?_⟩
    rw [has, List.cons_append]
  · intro h before x after has
    cases before with
    | nil =>
        obtain ⟨rfl, rfl⟩ := List.cons.inj has
        exact h.1
    | cons b before =>
        obtain ⟨hhead, hrest⟩ := List.cons.inj has
        subst hhead
        exact h.2 before x after hrest

theorem gapsInBlock_nil {size : Nat} {lower upper : UInt64} :
    GapsInBlock size [] lower upper ↔ upper.toNat ≤ size ∨ upper ≤ lower := by
  rw [GapsInBlock]
  refine or_congr_right (and_iff_left fun before claim after h => ?_)
  simp at h

/-- The first claim, and the rest from where it reaches. -/
theorem gapsInBlock_cons {size : Nat} {claim : ReceptionClaim} {claims : List ReceptionClaim}
    {lower upper : UInt64} :
    GapsInBlock size (claim :: claims) lower upper ↔
      (upper.toNat ≤ size ∨ (OpensGap lower upper [] claim → claim.offset.toNat ≤ size)) ∧
        GapsInBlock size claims (max lower (claim.offset + claim.length)) upper := by
  rw [GapsInBlock, GapsInBlock, reach_cons, forall_split_cons]
  simp only [OpensGap, reach_cons]
  tauto

/-- From the upper bound on there are no gaps. -/
theorem gapsInBlock_of_le {size : Nat} {claims : List ReceptionClaim} {lower upper : UInt64}
    (h : upper ≤ lower) : GapsInBlock size claims lower upper := by
  rw [UInt64.le_iff_toNat_le] at h
  refine .inr ⟨?_, fun before claim after _ hopens => ?_⟩
  · have := toNat_le_reach lower claims
    rw [UInt64.le_iff_toNat_le]
    omega
  · have := toNat_le_reach lower before
    have hlt := UInt64.lt_iff_toNat_lt.mp hopens.1
    omega

theorem toNat_gap_end {start stop : UInt64} (h : start ≤ stop) :
    start.toNat + (stop - start).toNat = stop.toNat := by
  rw [UInt64.toNat_sub_of_le _ _ h]
  rw [UInt64.le_iff_toNat_le] at h
  omega

/-- **Gaps.** No gap reaches beyond the block exactly if the report is so. -/
theorem gaps_inBlock_iff {size : Nat} {claims : List ReceptionClaim} {lower upper : UInt64} :
    (∀ gap ∈ computeGaps claims lower upper, gap.offset.toNat + gap.length.toNat ≤ size) ↔
      GapsInBlock size claims lower upper := by
  rw [computeGaps]
  induction claims generalizing lower with
  | nil =>
      rw [gapsInBlock_nil, ReceptionTracker.gapsFrom]
      split
      · rename_i hlt
        rw [List.forall_mem_singleton, toNat_gap_end (UInt64.le_of_lt hlt),
          or_iff_left (UInt64.not_le.mpr hlt)]
      · rename_i hlt
        exact iff_of_true (List.forall_mem_nil _) (.inr (UInt64.not_lt.mp hlt))
  | cons claim claims ih =>
      rw [ReceptionTracker.gapsFrom]
      split
      · rename_i hupper
        exact iff_of_true (List.forall_mem_nil _) (gapsInBlock_of_le hupper)
      · rename_i hupper
        rw [gapsInBlock_cons, ← ih]
        split
        · -- a claim that reaches no further
          rename_i hend
          have hmax : max lower (claim.offset + claim.length) = lower := by
            rw [UInt64.le_iff_toNat_le] at hend
            apply UInt64.toNat_inj.mp
            rw [ReceptionClaim.toNat_max]
            omega
          have hcloses : ¬ OpensGap lower upper [] claim :=
            fun hopens => UInt64.not_le.mpr hopens.2.2 hend
          rw [hmax, and_iff_right (.inr fun hopens => absurd hopens hcloses)]
        · rename_i hend
          split
          · rename_i hoffset
            have hle : lower ≤ min claim.offset upper := by
              rw [UInt64.lt_iff_toNat_lt] at hoffset
              rw [UInt64.le_iff_toNat_le] at hupper ⊢
              rw [ReceptionClaim.toNat_min]
              omega
            have hopens : OpensGap lower upper [] claim :=
              ⟨UInt64.not_le.mp hupper, hoffset, UInt64.not_le.mp hend⟩
            rw [List.forall_mem_cons, toNat_gap_end hle, ReceptionClaim.toNat_min]
            refine and_congr_left fun _ => ?_
            rw [forall_prop_of_true hopens]
            omega
          · rename_i hoffset
            have hcloses : ¬ OpensGap lower upper [] claim := fun hopens => hoffset hopens.2.1
            rw [and_iff_right (.inr fun hopens => absurd hopens hcloses)]

/-! ## What is read -/

/-- The pieces of gaps end where the gaps do. -/
theorem gapCuts_inBlock {maxSeg : UInt32} {gaps : List ReceptionClaim} {size : Nat}
    (h : ∀ gap ∈ gaps, gap.offset.toNat + gap.length.toNat ≤ size) :
    ∀ p ∈ gapCuts maxSeg gaps, p.1 + p.2 ≤ size := by
  intro p hp
  obtain ⟨gap, hgap, hp⟩ := List.mem_flatMap.mp hp
  obtain ⟨-, hend, -⟩ := Chunks.mem_cut hp
  exact hend.trans (h gap hgap)

theorem gapCuts_inBlock_iff {maxSeg : UInt32} (hmax : maxSeg ≠ 0) {claims : List ReceptionClaim}
    {lower upper : UInt64} {size : Nat} :
    (∀ p ∈ gapCuts maxSeg (computeGaps claims lower upper), p.1 + p.2 ≤ size) ↔
      GapsInBlock size claims lower upper := by
  rw [← gaps_inBlock_iff]
  refine ⟨fun h gap hgap => ?_, gapCuts_inBlock⟩
  obtain ⟨hpos, -⟩ := of_mem_gapsFrom gap hgap
  obtain ⟨init, last, hcut, hend, -⟩ := @Chunks.exists_last maxSeg.toNat _ gap.offset.toNat _
    (toNat32_pos hmax) (le_refl gap.length.toNat) hpos
  rw [← hend]
  apply h
  refine List.mem_flatMap.mpr ⟨gap, hgap, ?_⟩
  rw [hcut]
  exact List.mem_append_right _ (List.mem_singleton_self _)

/-- The loop over a gap can only fail by a read outside the block. -/
theorem gapLoop_outOfBounds {session : LtpSession} {maxSeg fuel offset remaining : Nat} {ex : Exn}
    (h : gapLoop session maxSeg fuel offset remaining = .error ex) : ex = .outOfBounds := by
  induction fuel generalizing offset remaining with
  | zero => cases h
  | succ fuel ih =>
      rw [gapLoop] at h
      split at h
      · cases h
      · rcases bind_eq_error.mp h with hread | ⟨data, -, h⟩
        · rw [assignRange, if_neg (by omega)] at hread
          split at hread
          · cases hread
            rfl
          · cases hread
        · rcases bind_eq_error.mp h with hrest | ⟨segments, -, h⟩
          · exact ih hrest
          · cases h

/-- And so can the loop over all gaps. -/
theorem gapSegments_outOfBounds {session : LtpSession} {maxSeg : UInt32} (hmax : maxSeg ≠ 0)
    {gaps : List ReceptionClaim} {ex : Exn} (h : gapSegments session maxSeg gaps = .error ex) :
    ex = .outOfBounds := by
  induction gaps with
  | nil => cases h
  | cons gap gaps ih =>
      rw [gapSegments, if_neg fun hzero => hmax hzero.1] at h
      rcases bind_eq_error.mp h with hfirst | ⟨segments, -, h⟩
      · exact gapLoop_outOfBounds hfirst
      · rcases bind_eq_error.mp h with hrest | ⟨rest, -, h⟩
        · exact ih hrest
        · cases h

namespace LtpEngine

variable {e : LtpEngine} {seg : LtpSegment} {rs : ReportSegContent} {session : LtpSession}
  {key : SessionKey}

/-- The report is answered without resending, or asks for nothing beyond the
session's block. -/
def AsksInBlock (e : LtpEngine) (session : LtpSession) (rs : ReportSegContent) : Prop :=
  fullyReceived session rs = true ∨ e.Exhausted session ∨
    GapsInBlock session.clientData.length rs.claims rs.lowerBound rs.upperBound

/-- Where some gap reaches beyond the block, its slices are read out there. -/
theorem retransmitGaps_outOfBounds (hmax : e.config.maxSegmentSize ≠ 0)
    (hout : ¬ GapsInBlock session.clientData.length rs.claims rs.lowerBound rs.upperBound) :
    e.retransmitGaps key session (computeGaps rs.claims rs.lowerBound rs.upperBound) =
      .error .outOfBounds := by
  cases hsegments : gapSegments session e.config.maxSegmentSize
      (computeGaps rs.claims rs.lowerBound rs.upperBound) with
  | error ex =>
      cases gapSegments_outOfBounds hmax hsegments
      rw [retransmitGaps, hsegments]
      rfl
  | ok segments =>
      have hinside := (gapSegments_eq_ok.mp hsegments).2.1
      exact absurd ((gapCuts_inBlock_iff hmax).mp hinside) hout

/-- A report that asks for something beyond the block comes to the gap loops. -/
theorem answerReport_outOfBounds (hmax : e.config.maxSegmentSize ≠ 0)
    (hasks : ¬ e.AsksInBlock session rs) :
    e.answerReport key session rs = .error .outOfBounds := by
  obtain ⟨hfull, hbudget, hout⟩ : fullyReceived session rs ≠ true ∧ ¬ e.Exhausted session ∧
      ¬ GapsInBlock session.clientData.length rs.claims rs.lowerBound rs.upperBound := by
    rwa [AsksInBlock, not_or, not_or] at hasks
  have hgaps : (computeGaps rs.claims rs.lowerBound rs.upperBound).isEmpty = false := by
    by_contra hempty
    have hnone : computeGaps rs.claims rs.lowerBound rs.upperBound = [] :=
      List.isEmpty_iff.mp ((Bool.not_eq_false _).mp hempty)
    refine hout (gaps_inBlock_iff.mp ?_)
    rw [hnone]
    exact List.forall_mem_nil _
  rw [answerReport, if_neg hfull]
  dsimp only
  rw [hgaps, if_neg (by decide), retransmit]
  refine (if_neg hbudget).trans ?_
  have hout' : ¬ GapsInBlock (attempted session).clientData.length rs.claims rs.lowerBound
      rs.upperBound := hout
  exact retransmitGaps_outOfBounds hmax hout'

/-- **Gap bounds.** All slices that `receive_report_segment` reads lie inside
the block exactly if the report asks for nothing beyond it; and then the call
returns. -/
theorem receiveReportSegment_inBlock_iff (e : LtpEngine) (seg : LtpSegment)
    (rs : ReportSegContent) (session : LtpSession) (hmax : e.config.maxSegmentSize ≠ 0)
    (hrs : seg.content = .report rs)
    (hlookup : e.sessions.lookup (e.localKey seg.sessionNumber) = some session)
    (hrole : session.role = .originator) (hactive : session.state = .active) :
    (e.receiveReportSegment seg ≠ .error .outOfBounds ↔ e.AsksInBlock session rs) ∧
      ((∃ e', e.receiveReportSegment seg = .ok e') ↔ e.AsksInBlock session rs) := by
  obtain ⟨e₁, hconfig, heq⟩ := receiveReportSegment_active hrs hlookup hrole hactive
  by_cases hasks : e.AsksInBlock session rs
  · have hreturns : ∃ e', e.receiveReportSegment seg = .ok e' := by
      refine receiveReportSegment_returns hrs fun met hmet hfull hbudget => ?_
      cases hlookup.symm.trans hmet
      refine ⟨hmax, gaps_inBlock_iff.mpr ?_⟩
      exact (hasks.resolve_left (by simp [hfull])).resolve_left hbudget
    refine ⟨iff_of_true ?_ hasks, iff_of_true hreturns hasks⟩
    obtain ⟨e', hcall⟩ := hreturns
    rw [hcall]
    exact fun h => nomatch h
  · have hcall : e.receiveReportSegment seg = .error .outOfBounds := by
      rw [heq]
      refine answerReport_outOfBounds (hconfig ▸ hmax) ?_
      rwa [AsksInBlock, Exhausted, hconfig]
    rw [hcall]
    refine ⟨iff_of_false (not_not.mpr rfl) hasks, iff_of_false ?_ hasks⟩
    rintro ⟨e', h⟩
    cases h

def claimed (claims : List ReceptionClaim) (upperBound : UInt64) : ReportSegContent :=
  { reportSerial := 1, checkpointSerial := 1, upperBound := upperBound, lowerBound := 0,
    claims := claims }

/-- A report about session 1 of engine 1. -/
def reportOf (claims : List ReceptionClaim) (upperBound : UInt64) : LtpSegment :=
  { segmentType := SegType.reportSegment, engineId := 1, sessionNumber := 1
    content := .report (claimed claims upperBound) }

/-- A session that has sent two bytes and heard nothing yet. -/
structure SentTwo (session : LtpSession) : Prop where
  role : session.role = .originator
  active : session.state = .active
  block : session.clientData = [7, 8]
  total : session.totalDataLength = 2
  retransmissions : session.retransmissionCount = 0

theorem length_reportedBlock : ([7, 8] : List UInt8).length < 2 ^ 57 := by decide

theorem exists_sentTwo : ∃ e session, (runs {}).Reachable System.free e ∧ e.config = {} ∧
    e.sessions.lookup (e.localKey 1) = some session ∧ SentTwo session := by
  have hrun : ((create {} none).exec (.startSession ⟨[7, 8], length_reportedBlock⟩ true)).toOption.any
      (fun e => (e.sessions.lookup ⟨1, 1⟩).any fun session =>
        session.role = .originator ∧ session.state = .active ∧ session.clientData = [7, 8] ∧
          session.totalDataLength = 2 ∧ session.retransmissionCount = 0) = true := by
    decide +kernel
  obtain ⟨e, hexec, hcheck⟩ := (Option.any_eq_true _ _).mp hrun
  obtain ⟨session, hlookup, hcheck⟩ := (Option.any_eq_true _ _).mp hcheck
  obtain ⟨hrole, hactive, hblock, htotal, hcount⟩ := of_decide_eq_true hcheck
  have hinit : (runs {}).Reachable System.free (create {} none) := .init ⟨none, rfl⟩
  have hreach := hinit.step trivial (eq_ok_of_toOption hexec)
  have hconfig := config_of_reachable hreach
  have hkey : e.localKey 1 = ⟨1, 1⟩ := by
    rw [localKey, hconfig]
  exact ⟨e, session, hreach, hconfig, hkey ▸ hlookup, hrole, hactive, hblock, htotal, hcount⟩

theorem receiveReportSegment_inBlock_iff_firstByte : ∃ (e : LtpEngine) (session : LtpSession),
    e.sessions.lookup (e.localKey 1) = some session ∧ e.AsksInBlock session (claimed [⟨0, 1⟩] 2) ∧
      e.receiveReportSegment (reportOf [⟨0, 1⟩] 2) ≠ .error .outOfBounds ∧
      ∃ e', e.receiveReportSegment (reportOf [⟨0, 1⟩] 2) = .ok e' := by
  obtain ⟨e, session, -, hconfig, hlookup, hsent⟩ := exists_sentTwo
  have hasks : e.AsksInBlock session (claimed [⟨0, 1⟩] 2) := by
    refine .inr (.inr (.inl ?_))
    rw [hsent.block]
    decide
  have hreads := receiveReportSegment_inBlock_iff e (reportOf [⟨0, 1⟩] 2) (claimed [⟨0, 1⟩] 2)
    session (by rw [hconfig]; decide) rfl hlookup hsent.role hsent.active
  exact ⟨e, session, hlookup, hasks, hreads.1.mpr hasks, hreads.2.mpr hasks⟩

theorem reportOf_travels : (reportOf [] 100).Travels where
  wellFormed :=
    { version := rfl, validType := rfl, headerCount := rfl, trailerCount := rfl
      content := ⟨rfl, by decide⟩ }
  headerExtensions := rfl
  trailerExtensions := rfl
  size := by
    show (0 : Nat) < 2 ^ 57
    decide

/-- A report that asks for 100 bytes of a block of two. -/
theorem receiveReportSegment_outside : ¬ ∀ (config : LtpEngineConfig) (e : LtpEngine)
    (bytes : List UInt8) (seg : LtpSegment) (session : LtpSession), config.Valid →
      (runs config).Reachable System.free e → LtpSegment.decode bytes = .ok (some seg) →
      seg.segmentType = SegType.reportSegment →
      e.sessions.lookup (e.localKey seg.sessionNumber) = some session →
      session.role = .originator → session.state = .active →
      e.receiveReportSegment seg ≠ .error .outOfBounds := by
  intro h
  obtain ⟨e, session, hreach, hconfig, hlookup, hsent⟩ := exists_sentTwo
  refine h {} e (reportOf [] 100).wire (reportOf [] 100) session
    (LtpClaConfig.valid_of_validate LtpClaConfig.validate_defaults) hreach
    reportOf_travels.decode_wire rfl hlookup hsent.role hsent.active ?_
  have hasks : ¬ e.AsksInBlock session (claimed [] 100) := by
    rw [AsksInBlock, fullyReceived, hsent.total, Exhausted, hconfig, hsent.retransmissions,
      hsent.block, claimed, gapsInBlock_nil]
    decide
  have hreport : (reportOf [] 100).content = .report (claimed [] 100) := rfl
  obtain ⟨e₁, hconfig₁, heq⟩ :=
    receiveReportSegment_active hreport hlookup hsent.role hsent.active
  rw [heq]
  refine answerReport_outOfBounds (by rw [hconfig₁, hconfig]; decide) ?_
  rwa [AsksInBlock, Exhausted, hconfig₁]

end LtpEngine

end QpskB210.Ltp
