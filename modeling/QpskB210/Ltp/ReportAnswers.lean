import QpskB210.Ltp.EngineCalls
import QpskB210.Ltp.GapBounds
import QpskB210.Ltp.ReceivedBytes

/-!
# LTP — ReportAnswers

What an originator makes of a report: when it takes the block for received,
and what a second copy of the report does.
-/

namespace QpskB210.Ltp

open QpskB210.Lib ReceptionTracker ReceptionClaim

namespace LtpEngine

variable {e e₁ e' : LtpEngine} {key : SessionKey} {session : LtpSession} {seg : LtpSegment}
  {rs : ReportSegContent}

/-! ## Completion -/

/-- Receiving the report completes the session: the callback is called for
it, and it leaves the table. -/
def CompletedBy (e : LtpEngine) (seg : LtpSegment) (session : LtpSession) : Prop :=
  ∃ e', e.receiveReportSegment seg = .ok e' ∧
    e'.sessions.lookup (e.localKey seg.sessionNumber) = none ∧
    Event.sessionComplete (e.localKey seg.sessionNumber) session.sessionNumber ∈
      e'.trace.drop e.trace.length

theorem reportOutcome_of (hrs : seg.content = .report rs)
    (hlookup : e.sessions.lookup (e.localKey seg.sessionNumber) = some session)
    (hrole : session.role = .originator) (hs : Stored (e.localKey seg.sessionNumber) session)
    (h : e.receiveReportSegment seg = .ok e') :
    ReportOutcome e e' (e.localKey seg.sessionNumber) session rs
      [.send (reportAck seg rs), .cancelCheckpoint (timerKey seg.sessionNumber rs.checkpointSerial)] := by
  obtain ⟨rs', hrs', hcases⟩ := receiveReportSegment_cases h
  rw [hrs] at hrs'
  cases hrs'
  rw [hlookup] at hcases
  dsimp only at hcases
  rw [if_pos ⟨hrole, hs.active⟩] at hcases
  exact hcases hs

/-- The session is completed exactly if the claims pass the test. -/
theorem completedBy_iff (hrs : seg.content = .report rs)
    (hlookup : e.sessions.lookup (e.localKey seg.sessionNumber) = some session)
    (hrole : session.role = .originator) (hs : Stored (e.localKey seg.sessionNumber) session) :
    e.CompletedBy seg session ↔ fullyReceived session rs = true := by
  refine ⟨fun hcompleted => ?_, fun hfull => ?_⟩
  · obtain ⟨e', h, hnone, hmem⟩ := hcompleted
    cases reportOutcome_of hrs hlookup hrole hs h with
    | complete hfull _ => exact hfull
    | waiting _ _ h =>
        rw [Effect.drop_trace h] at hmem
        simp at hmem
    | gaveUp _ _ _ h =>
        rw [Effect.drop_trace h] at hmem
        simp [givingUp] at hmem
    | resent _ _ _ _ _ _ _ h =>
        rw [Effect.drop_trace h] at hmem
        simp at hmem
  · obtain ⟨e', h⟩ := receiveReportSegment_returns hrs fun met hmet hnot => by
      cases hlookup.symm.trans hmet
      rw [hfull] at hnot
      cases hnot
    refine ⟨e', h, ?_⟩
    cases reportOutcome_of hrs hlookup hrole hs h with
    | complete _ h =>
        refine ⟨h.lookup, ?_⟩
        rw [Effect.drop_trace h]
        simp
    | waiting hnot _ _ | gaveUp hnot _ _ _ | resent hnot _ _ _ _ _ _ _ =>
        rw [hfull] at hnot
        cases hnot

/-- The test on a list of claims: one claim, from the start, long enough. -/
theorem fullyReceived_iff (hne : session.totalDataLength ≠ 0) :
    fullyReceived session rs = true ↔
      ∃ claim, rs.claims = [claim] ∧ claim.offset.toNat = 0 ∧
        session.totalDataLength.toNat ≤ claim.length.toNat := by
  rw [fullyReceived, if_neg hne]
  split
  · rename_i claim hclaims
    rw [hclaims]
    simp only [Bool.and_eq_true, decide_eq_true_eq, ge_iff_le, UInt64.le_iff_toNat_le,
      ← UInt64.toNat_inj]
    simp
  · rename_i hnot
    refine iff_of_false (by simp) fun h => ?_
    obtain ⟨claim, hclaims, -⟩ := h
    exact hnot claim hclaims

/-- A single claim that does not wrap covers a range from the start exactly
if it is one from the start. -/
theorem within_singleton_iff {claim : ReceptionClaim} {n : Nat} (hpos : 0 < n) :
    (∀ i < n, Within [claim] i) ↔ claim.offset.toNat = 0 ∧ n ≤ claim.length.toNat := by
  simp only [Within, List.mem_singleton, exists_eq_left]
  refine ⟨fun h => ?_, fun h i hi => by omega⟩
  have hfirst := h 0 hpos
  have hlast := h (n - 1) (by omega)
  omega

/-- **Full coverage.** A report completes the session exactly if its claims
cover the block, unless they cover it by more than one claim: then the
report is taken for a partial one. -/
theorem completion_exact_iff (e : LtpEngine) (seg : LtpSegment) (rs : ReportSegContent)
    (session : LtpSession) (hrs : seg.content = .report rs)
    (hlookup : e.sessions.lookup (e.localKey seg.sessionNumber) = some session)
    (hrole : session.role = .originator) (hs : Stored (e.localKey seg.sessionNumber) session) :
    (e.CompletedBy seg session ↔ ∀ i < session.totalDataLength.toNat, Within rs.claims i) ↔
      (session.totalDataLength = 0 ∨
        (∃ i < session.totalDataLength.toNat, ¬ Within rs.claims i) ∨ rs.claims.length = 1) := by
  rw [completedBy_iff hrs hlookup hrole hs]
  by_cases hzero : session.totalDataLength = 0
  · simp [fullyReceived, hzero]
  have hpos := toNat_pos hzero
  rw [fullyReceived_iff hzero, or_iff_right hzero]
  by_cases hone : rs.claims.length = 1
  · -- one claim: the test and the coverage say the same
    obtain ⟨claim, hclaim⟩ := List.length_eq_one_iff.mp hone
    rw [hclaim, within_singleton_iff hpos]
    simp
  · have hnot : ¬ ∃ claim, rs.claims = [claim] ∧ claim.offset.toNat = 0 ∧
        session.totalDataLength.toNat ≤ claim.length.toNat := by
      intro h
      obtain ⟨claim, hclaim, -⟩ := h
      exact hone (by rw [hclaim]; rfl)
    rw [or_iff_left hone, iff_false_left hnot]
    push Not
    rfl

theorem completion_exact_iff_oneClaim : ∃ (e : LtpEngine) (session : LtpSession),
    e.sessions.lookup (e.localKey 1) = some session ∧
      ((e.CompletedBy (reportOf [⟨0, 2⟩] 2) session ↔
          ∀ i < session.totalDataLength.toNat, Within [⟨0, 2⟩] i) ↔
        (session.totalDataLength = 0 ∨
          (∃ i < session.totalDataLength.toNat, ¬ Within [⟨0, 2⟩] i) ∨ [(0, 2)].length = 1)) := by
  obtain ⟨e, session, hreach, hconfig, hlookup, hsent⟩ := exists_sentTwo
  exact ⟨e, session, hlookup, completion_exact_iff e (reportOf [⟨0, 2⟩] 2) (claimed [⟨0, 2⟩] 2)
    session rfl hlookup hsent.role (wellStored_of_reachable hreach _ _ hlookup)⟩

/-- Two claims that touch cover the block of two bytes, but complete nothing. -/
theorem completion_not_exact : ∃ (e : LtpEngine) (session : LtpSession),
    (runs {}).Reachable System.free e ∧ e.sessions.lookup (e.localKey 1) = some session ∧
      session.role = .originator ∧ session.state = .active ∧
      (∀ c ∈ [⟨0, 1⟩, ⟨1, 1⟩], ReceptionClaim.NoWrap c) ∧
      ¬ (e.CompletedBy (reportOf [⟨0, 1⟩, ⟨1, 1⟩] 2) session ↔
        ∀ i < session.totalDataLength.toNat, Within [⟨0, 1⟩, ⟨1, 1⟩] i) := by
  obtain ⟨e, session, hreach, -, hlookup, hsent⟩ := exists_sentTwo
  refine ⟨e, session, hreach, hlookup, hsent.role, hsent.active, by decide, ?_⟩
  have hcompleted := @completedBy_iff e session (reportOf [⟨0, 1⟩, ⟨1, 1⟩] 2)
    (claimed [⟨0, 1⟩, ⟨1, 1⟩] 2) rfl hlookup hsent.role (wellStored_of_reachable hreach _ _ hlookup)
  rw [hcompleted, fullyReceived, hsent.total]
  decide

/-! ## A second copy of a report -/

/-- The report asks an ACTIVE originator session for bytes, and the session
still has budget to send them. -/
def AsksAgain (e : LtpEngine) (seg : LtpSegment) (rs : ReportSegContent) : Prop :=
  ∃ session, e.sessions.lookup (e.localKey seg.sessionNumber) = some session ∧
    session.role = .originator ∧ session.state = .active ∧ fullyReceived session rs = false ∧
    computeGaps rs.claims rs.lowerBound rs.upperBound ≠ [] ∧ ¬ e.Exhausted session

/-- Receiving the report sends nothing but an acknowledgment, and leaves every
session and the retransmission count as they are. -/
def Settled (e : LtpEngine) (seg : LtpSegment) (rs : ReportSegContent) : Prop :=
  ∃ e', e.receiveReportSegment seg = .ok e' ∧
    (e'.trace = e.trace ∨ e'.trace = e.trace ++ [.sendSegment (reportAck seg rs).wire]) ∧
    (∀ key, e'.sessions.lookup key = e.sessions.lookup key) ∧
    e'.diagnostics.retransmissions = e.diagnostics.retransmissions

theorem Effect.lookup_eq {acts : List Act} {rounds : UInt64}
    (h : Effect e e' key (e.sessions.lookup key) acts rounds) (k : SessionKey) :
    e'.sessions.lookup k = e.sessions.lookup k := by
  by_cases hk : k = key
  · rw [hk, h.lookup]
  · exact h.frame k hk

/-- Without a session under its number, a report is only acknowledged. -/
theorem settled_of_unknown (hrs : seg.content = .report rs)
    (hlookup : e.sessions.lookup (e.localKey seg.sessionNumber) = none) : e.Settled seg rs := by
  obtain ⟨e', h⟩ := receiveReportSegment_returns hrs fun session hmet => by
    rw [hlookup] at hmet
    cases hmet
  obtain ⟨rs', hrs', hcases⟩ := receiveReportSegment_cases h
  rw [hrs] at hrs'
  cases hrs'
  rw [hlookup] at hcases
  dsimp only at hcases
  rw [← hlookup] at hcases
  exact ⟨e', h, .inr hcases.trace, Effect.lookup_eq hcases,
    hcases.retransmissions.trans (UInt64.add_zero _)⟩

/-- A session that is no originator's, or not ACTIVE, ignores a report. -/
theorem settled_of_ignored (hrs : seg.content = .report rs)
    (hlookup : e.sessions.lookup (e.localKey seg.sessionNumber) = some session)
    (hnot : ¬ (session.role = .originator ∧ session.state = .active)) : e.Settled seg rs := by
  obtain ⟨e', h⟩ := @receiveReportSegment_answers e seg rs hrs
    fun met e₁ hmet hrole hactive _ => by
      cases hlookup.symm.trans hmet
      exact absurd ⟨hrole, hactive⟩ hnot
  obtain ⟨rs', hrs', hcases⟩ := receiveReportSegment_cases h
  rw [hlookup] at hcases
  dsimp only at hcases
  rw [if_neg hnot, ← hlookup] at hcases
  exact ⟨e', h, .inl (hcases.trace.trans (List.append_nil _)), Effect.lookup_eq hcases,
    hcases.retransmissions.trans (UInt64.add_zero _)⟩

/-- A report that leaves no gap in its scope is only acknowledged. -/
theorem settled_of_waiting (hrs : seg.content = .report rs)
    (hlookup : e.sessions.lookup (e.localKey seg.sessionNumber) = some session)
    (hrole : session.role = .originator) (hs : Stored (e.localKey seg.sessionNumber) session)
    (hfull : fullyReceived session rs = false)
    (hgaps : computeGaps rs.claims rs.lowerBound rs.upperBound = []) : e.Settled seg rs := by
  obtain ⟨e', h⟩ := @receiveReportSegment_answers e seg rs hrs fun met e₁ hmet _ _ _ => by
    cases hlookup.symm.trans hmet
    rw [answerReport, if_neg (by simp [hfull]), hgaps]
    exact ⟨e₁, rfl⟩
  cases reportOutcome_of hrs hlookup hrole hs h with
  | complete hnot _ =>
      rw [hfull] at hnot
      cases hnot
  | waiting _ _ h' =>
      rw [← hlookup] at h'
      exact ⟨e', h, .inr h'.trace, Effect.lookup_eq h',
        h'.retransmissions.trans (UInt64.add_zero _)⟩
  | gaveUp _ hnot _ _ | resent _ hnot _ _ _ _ _ _ => exact absurd hgaps hnot

theorem checkpointed_fields (session : LtpSession) (segments : List LtpSegment) :
    (checkpointed session segments).role = session.role ∧
      (checkpointed session segments).totalDataLength = session.totalDataLength := by
  obtain ⟨cpSerial, heq⟩ := checkpointed_eq session segments
  rw [heq]
  exact ⟨rfl, rfl⟩

theorem fullyReceived_congr {session' : LtpSession}
    (h : session'.totalDataLength = session.totalDataLength) :
    fullyReceived session' rs = fullyReceived session rs := by
  rw [fullyReceived, fullyReceived, h]

/-- An originator session that a report leaves incomplete and with gaps is not
left alone by it. -/
theorem not_settled_of_gaps (hw : e.WellStored) (hrs : seg.content = .report rs)
    (hlookup : e.sessions.lookup (e.localKey seg.sessionNumber) = some session)
    (hrole : session.role = .originator) (hfull : fullyReceived session rs = false)
    (hgaps : computeGaps rs.claims rs.lowerBound rs.upperBound ≠ []) : ¬ e.Settled seg rs := by
  intro hsettled
  obtain ⟨e', h, -, hsame, hcount⟩ := hsettled
  cases reportOutcome_of hrs hlookup hrole (hw _ _ hlookup) h with
  | complete hnot _ =>
      rw [hfull] at hnot
      cases hnot
  | waiting _ hnot _ => exact hgaps hnot
  | gaveUp _ _ _ h' => cases h'.lookup.symm.trans ((hsame _).trans hlookup)
  | resent _ _ _ _ _ _ _ h' => exact ne_add_one _ (hcount.symm.trans h'.retransmissions)

theorem localKey_of_report (hw : e.WellStored) (h : e.receiveReportSegment seg = .ok e₁) :
    e₁.localKey seg.sessionNumber = e.localKey seg.sessionNumber := by
  rw [localKey, localKey, (receiveReportSegment_affects hw h).confined.config]

/-- After it was answered by resending, the report finds the same session
with the same gaps. -/
theorem AsksAgain.not_settled (hasks : e.AsksAgain seg rs) (hw : e.WellStored)
    (hrs : seg.content = .report rs) (h : e.receiveReportSegment seg = .ok e₁) :
    ¬ e₁.Settled seg rs := by
  obtain ⟨session, hlookup, hrole, -, hfull, hgaps, hmax⟩ := hasks
  cases reportOutcome_of hrs hlookup hrole (hw _ _ hlookup) h with
  | complete hnot _ =>
      rw [hfull] at hnot
      cases hnot
  | waiting _ hnot _ => exact absurd hnot hgaps
  | gaveUp _ _ hspent _ => exact absurd hspent hmax
  | resent _ _ _ segments _ _ _ h' =>
      obtain ⟨hrole', htotal'⟩ := checkpointed_fields (attempted session) segments
      have hlookup' := h'.lookup
      rw [← localKey_of_report hw h] at hlookup'
      refine not_settled_of_gaps (hw.receiveReportSegment h) hrs hlookup' (hrole'.trans hrole) ?_
        hgaps
      rw [fullyReceived_congr htotal']
      exact hfull

/-- A report that was answered otherwise finds no session to answer it, or one
that waits. -/
theorem settled_of_not_asksAgain (hw : e.WellStored) (hrs : seg.content = .report rs)
    (h : e.receiveReportSegment seg = .ok e₁) (hasks : ¬ e.AsksAgain seg rs) :
    e₁.Settled seg rs := by
  have hkey := localKey_of_report hw h
  cases hlookup : e.sessions.lookup (e.localKey seg.sessionNumber) with
  | none =>
      obtain ⟨rs', -, hcases⟩ := receiveReportSegment_cases h
      rw [hlookup] at hcases
      exact settled_of_unknown hrs (hkey ▸ hcases.lookup)
  | some session =>
      have hs := hw _ _ hlookup
      by_cases hrole : session.role = .originator
      · cases reportOutcome_of hrs hlookup hrole hs h with
        | complete _ h' | gaveUp _ _ _ h' => exact settled_of_unknown hrs (hkey ▸ h'.lookup)
        | waiting hfull hgaps h' =>
            exact settled_of_waiting hrs (hkey ▸ h'.lookup) hrole (hkey ▸ hs) hfull hgaps
        | resent hfull hgaps hmax _ _ _ _ _ =>
            exact absurd ⟨session, hlookup, hrole, hs.active, hfull, hgaps, hmax⟩ hasks
      · obtain ⟨rs', -, hcases⟩ := receiveReportSegment_cases h
        rw [hlookup] at hcases
        dsimp only at hcases
        rw [if_neg fun h => hrole h.1] at hcases
        exact settled_of_ignored hrs (hkey ▸ hcases.lookup) fun h => hrole h.1

/-- **Duplicate reports.** A second copy of a report is settled exactly if the
first one asked for nothing that the session still had budget to resend. -/
theorem duplicate_report_iff (config : LtpEngineConfig) (e e₁ : LtpEngine) (seg : LtpSegment)
    (rs : ReportSegContent) (hreach : (calls config).Reachable System.free e)
    (hrs : seg.content = .report rs) (h : e.receiveReportSegment seg = .ok e₁) :
    e₁.Settled seg rs ↔ ¬ e.AsksAgain seg rs := by
  have hw := wellStored_of_calls hreach
  exact ⟨fun hsettled hasks => hasks.not_settled hw hrs h hsettled,
    settled_of_not_asksAgain hw hrs h⟩

theorem duplicate_report_iff_complete : ∃ e e₁ : LtpEngine,
    e.receiveReportSegment (reportOf [⟨0, 2⟩] 2) = .ok e₁ ∧
      (e₁.Settled (reportOf [⟨0, 2⟩] 2) (claimed [⟨0, 2⟩] 2) ↔
        ¬ e.AsksAgain (reportOf [⟨0, 2⟩] 2) (claimed [⟨0, 2⟩] 2)) := by
  obtain ⟨e, session, hreach, -, hlookup, hsent⟩ := exists_sentTwo
  obtain ⟨e₁, h⟩ := @receiveReportSegment_returns e (reportOf [⟨0, 2⟩] 2) (claimed [⟨0, 2⟩] 2) rfl
    fun met hmet hnot _ => by
      cases hlookup.symm.trans hmet
      rw [fullyReceived, hsent.total] at hnot
      exact absurd hnot (by decide)
  exact ⟨e, e₁, h, duplicate_report_iff {} e e₁ (reportOf [⟨0, 2⟩] 2) (claimed [⟨0, 2⟩] 2)
    (reachable_of_runs hreach) rfl h⟩

/-- A report that misses the second of two bytes has it resent twice. -/
theorem duplicate_report_resends : ∃ (e e₁ : LtpEngine) (session : LtpSession),
    (calls {}).Reachable System.free e ∧ e.sessions.lookup (e.localKey 1) = some session ∧
      session.role = .originator ∧
      e.receiveReportSegment (reportOf [⟨0, 1⟩] 2) = .ok e₁ ∧
      ¬ e₁.Settled (reportOf [⟨0, 1⟩] 2) (claimed [⟨0, 1⟩] 2) := by
  obtain ⟨e, session, hreach, hconfig, hlookup, hsent⟩ := exists_sentTwo
  obtain ⟨e₁, h⟩ := @receiveReportSegment_returns e (reportOf [⟨0, 1⟩] 2) (claimed [⟨0, 1⟩] 2) rfl
    fun met hmet _ _ => by
      cases hlookup.symm.trans hmet
      refine ⟨by rw [hconfig]; decide, ?_⟩
      rw [hsent.block]
      decide
  have hasks : e.AsksAgain (reportOf [⟨0, 1⟩] 2) (claimed [⟨0, 1⟩] 2) := by
    refine ⟨session, hlookup, hsent.role, hsent.active, ?_, by decide, ?_⟩
    · rw [fullyReceived, hsent.total]
      decide
    · rw [Exhausted, hconfig, hsent.retransmissions]
      decide
  exact ⟨e, e₁, session, reachable_of_runs hreach, hlookup, hsent.role, h,
    hasks.not_settled (wellStored_of_reachable hreach) rfl h⟩

end LtpEngine

end QpskB210.Ltp
