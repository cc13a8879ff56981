import QpskB210.Ltp.BufferBounds
import QpskB210.Ltp.CheckpointSerials
import QpskB210.Ltp.ReportAnswers
import QpskB210.Ltp.RetransmissionBudget

/-!
# LTP — Selective retransmission

What an originator resends for a report that leaves bytes of its block
unclaimed: those bytes and no others, in order, the last piece as the next
checkpoint.
-/

namespace QpskB210.Ltp

open QpskB210.Lib ReceptionTracker ReceptionClaim

/-- The contents carry the bytes of the block that the report asks for and
does not claim, each once and in ascending order, in pieces that are not
empty and no longer than `maxSeg`. -/
structure Resends (block : List UInt8) (rs : ReportSegContent) (maxSeg : Nat)
    (contents : List DataSegContent) : Prop where
  ascending : (Chunks.points (contents.map DataSegContent.span)).Pairwise (· < ·)
  exact : ∀ i, i ∈ Chunks.points (contents.map DataSegContent.span) ↔
    (rs.lowerBound.toNat ≤ i ∧ i < rs.upperBound.toNat) ∧ ¬ Within rs.claims i
  slices : ∀ ds ∈ contents, ds.data = (block.drop ds.offset.toNat).take ds.length.toNat
  lengths : ∀ ds ∈ contents,
    0 < ds.length.toNat ∧ ds.length.toNat = ds.data.length ∧ ds.length.toNat ≤ maxSeg

/-- Contents that carry the pieces of the gaps resend them. -/
theorem Sliced.resends {block : List UInt8} {rs : ReportSegContent} {maxSeg : UInt32}
    (hmax : maxSeg ≠ 0) (hclaims : ∀ c ∈ rs.claims, c.NoWrap)
    (hsorted : rs.claims.Pairwise fun c d => c.offset.toNat ≤ d.offset.toNat)
    (hupper : rs.upperBound.toNat ≤ block.length) {contents : List DataSegContent}
    (h : Sliced block contents
      (gapCuts maxSeg (computeGaps rs.claims rs.lowerBound rs.upperBound))) :
    Resends block rs maxSeg.toNat contents := by
  refine ⟨?_, fun i => ?_, fun ds hds => (h.mem hds).2, fun ds hds => ?_⟩
  · rw [h.spans]
    exact Chunks.points_ascending (gapCuts_apart (pairwise_computeGaps _ _ hclaims))
  · rw [h.spans, Chunks.mem_points, covered_gapCuts_iff hmax, ← within_computeGaps hclaims hsorted]
    rfl
  · obtain ⟨gap, hgap, hp⟩ := List.mem_flatMap.mp (h.mem hds).1
    have hpos := Chunks.pos_of_mem_cut (toNat32_pos hmax) hp
    have hin := Chunks.mem_cut hp
    have hend := (of_mem_gapsFrom gap hgap).2
    exact ⟨hpos, h.length_data hds (by omega), hin.2.2⟩

namespace LtpEngine

variable {e e' : LtpEngine} {key : SessionKey} {session : LtpSession} {seg : LtpSegment}
  {rs : ReportSegContent}

/-! ## Partial reports -/

/-- A report on an ACTIVE originator session, as `generate_report` makes them,
that leaves some byte of its scope unclaimed and can be answered by resending
it. -/
structure PartialReport (e : LtpEngine) (seg : LtpSegment) (rs : ReportSegContent)
    (session : LtpSession) : Prop where
  content : seg.content = .report rs
  lookup : e.sessions.lookup (e.localKey seg.sessionNumber) = some session
  role : session.role = .originator
  active : session.state = .active
  bounds : rs.lowerBound ≤ rs.upperBound
  upper : rs.upperBound.toNat ≤ session.clientData.length
  sorted : rs.claims.Pairwise fun c d => c.offset ≤ d.offset
  inside : ∀ c ∈ rs.claims, c.offset.toNat + c.length.toNat ≤ session.clientData.length
  incomplete : ¬ e.CompletedBy seg session
  missing : ∃ i, (rs.lowerBound.toNat ≤ i ∧ i < rs.upperBound.toNat) ∧ ¬ Within rs.claims i
  budget : ¬ e.Exhausted session

/-- Receiving the report has sent its acknowledgment and then data segments of
the session with these contents: plain ones, and the last one as the next
checkpoint. -/
structure Resent (e e' : LtpEngine) (seg : LtpSegment) (rs : ReportSegContent)
    (session : LtpSession) (init : List DataSegContent) (last : DataSegContent) : Prop where
  trace : e'.trace = e.trace ++ .sendSegment (reportAck seg rs).wire ::
    (init.map (session.dataSegment SegType.redData) ++
      [session.dataSegment SegType.redDataCp last]).map fun s => .sendSegment s.wire
  decodes : ∀ s ∈ init.map (session.dataSegment SegType.redData) ++
    [session.dataSegment SegType.redDataCp last], LtpSegment.decode s.wire = .ok (some s)
  contents : Resends session.clientData rs e.config.maxSegmentSize.toNat (init ++ [last])
  plain : ∀ ds ∈ init, ds.checkpointSerial = none ∧ ds.reportSerial = none
  checkpoint : last.checkpointSerial = some (session.checkpointSerialCounter + 1)
  reportSerial : last.reportSerial = some 0
  session : e'.sessions.lookup (e.localKey seg.sessionNumber) = some
    { attempted session with checkpointSerialCounter := session.checkpointSerialCounter + 1 }

/-- The content of a piece that is resent as the checkpoint. -/
def checkpointContent (session : LtpSession) (p : Nat × Nat) : DataSegContent :=
  { session.sliceContent p with
    checkpointSerial := some (session.checkpointSerialCounter + 1), reportSerial := some 0 }

namespace PartialReport

theorem stored (h : e.PartialReport seg rs session) (hw : e.WellStored) :
    Stored (e.localKey seg.sessionNumber) session :=
  hw _ _ h.lookup

theorem noWrap (h : e.PartialReport seg rs session)
    (hsize : session.clientData.length < 2 ^ 64) : ∀ c ∈ rs.claims, c.NoWrap :=
  fun c hc => (h.inside c hc).trans_lt hsize

theorem sorted_toNat (h : e.PartialReport seg rs session) :
    rs.claims.Pairwise fun c d => c.offset.toNat ≤ d.offset.toNat :=
  h.sorted.imp fun hle => UInt64.le_iff_toNat_le.mp hle

theorem not_full (h : e.PartialReport seg rs session) (hw : e.WellStored) :
    fullyReceived session rs = false := by
  rw [← Bool.not_eq_true, ← completedBy_iff h.content h.lookup h.role (h.stored hw)]
  exact h.incomplete

theorem gaps_ne_nil (h : e.PartialReport seg rs session)
    (hsize : session.clientData.length < 2 ^ 64) :
    computeGaps rs.claims rs.lowerBound rs.upperBound ≠ [] := by
  obtain ⟨i, hi⟩ := h.missing
  rw [← within_computeGaps (h.noWrap hsize) h.sorted_toNat] at hi
  obtain ⟨gap, hgap, -⟩ := hi
  exact List.ne_nil_of_mem hgap

theorem returns (h : e.PartialReport seg rs session)
    (hmax : e.config.maxSegmentSize ≠ 0) : ∃ e', e.receiveReportSegment seg = .ok e' := by
  refine receiveReportSegment_returns h.content fun met hlookup _ _ => ⟨hmax, fun gap hgap => ?_⟩
  cases h.lookup.symm.trans hlookup
  exact (of_mem_gapsFrom gap hgap).2.trans h.upper

/-- **What a partial report is answered with**, in any engine whose sessions
are in order. -/
theorem resent (h : e.PartialReport seg rs session) (hw : e.WellStored)
    (hmax : e.config.maxSegmentSize ≠ 0) (hsize : session.clientData.length < 2 ^ 64) :
    ∃ e' init last, e.receiveReportSegment seg = .ok e' ∧
      Resent e e' seg rs session init last := by
  obtain ⟨e', hcall⟩ := h.returns hmax
  have hs := h.stored hw
  cases reportOutcome_of h.content h.lookup h.role hs hcall with
  | complete hfull _ => exact absurd (hfull.symm.trans (h.not_full hw)) (by decide)
  | waiting _ hgaps _ => exact absurd hgaps (h.gaps_ne_nil hsize)
  | gaveUp _ _ hspent _ => exact absurd hspent h.budget
  | resent _ hgaps _ segments marked hsegments hmarked heffect =>
      obtain ⟨init, last, hcuts, rfl⟩ := marked_eq hgaps hsegments hmarked
      have hfits := fun p (hp : p ∈ init ++ [last]) => fits_of_mem_gapCuts hsegments (hcuts ▸ hp)
      have hsent : init.map (plainSegment (attempted session)) ++
            [checkpointSegment (attempted session) (session.checkpointSerialCounter + 1) last] =
          (init.map session.sliceContent).map (session.dataSegment SegType.redData) ++
            [session.dataSegment SegType.redDataCp (checkpointContent session last)] := by
        rw [List.map_map]
        rfl
      have htravels := resent_travels (session.checkpointSerialCounter + 1) hfits
      rw [hsent] at htravels heffect
      refine ⟨e', init.map session.sliceContent, checkpointContent session last, hcall, ?_,
        fun s hs => (htravels s hs).decode_wire, ?_, fun ds hds => ?_, rfl, rfl, ?_⟩
      · rw [heffect.trace, events_append, events_map_send]
        rfl
      · refine Sliced.resends hmax (h.noWrap hsize) h.sorted_toNat h.upper ?_
        exact hcuts ▸ sliced_pieces hsize (fun p hp => (hfits p hp).1) rfl rfl
      · obtain ⟨p, -, rfl⟩ := List.mem_map.mp hds
        exact ⟨rfl, rfl⟩
      · rw [heffect.lookup, checkpointed_of_gaps hgaps hsegments]
        rfl

end PartialReport

/-! ## Runs -/

theorem sessionProperty_sized :
    SessionProperty fun session => session.clientData.length < objectBound where
  counters := fun _ _ _ _ h => h
  originator := fun _ _ data _ => data.size_lt.trans (by decide)
  receiver := fun _ => Nat.two_pow_pos 63

/-- No buffer is larger than an object can be. -/
theorem sized_of_reachable {config : LtpEngineConfig} {guard : LtpEngine → Action → Prop}
    (h : (runs config).Reachable guard e) :
    AllSessions (fun session => session.clientData.length < objectBound) e := by
  refine h.invariant_of (P := AllSessions fun s => s.clientData.length < objectBound)
    (fun e₀ hinit => ?_) fun e₁ a e₂ hreach hall _ hstep => ?_
  · obtain ⟨timerManager, rfl⟩ := hinit
    intro key session hlookup
    cases hlookup
  · refine hall.exec sessionProperty_sized (wellStored_of_reachable hreach) ?_ hstep
    intro bytes seg ds session stored _ _ _ _ hs hstore
    obtain ⟨resized, buffer, hresize, hcopy, rfl⟩ := LtpSession.store_eq hstore
    dsimp only
    rw [LtpSession.length_copyData hcopy]
    exact LtpSession.resize_lt hresize hs

end LtpEngine

namespace Logged

open LtpEngine

variable {n : Logged} {seg : LtpSegment} {rs : ReportSegContent} {session : LtpSession}

theorem resent_of_logged {config : LtpEngineConfig} (h : (logged config).Reachable System.free n)
    (hmax : 1 ≤ config.maxSegmentSize) (hreport : n.engine.PartialReport seg rs session) :
    ∃ e' init last, n.engine.receiveReportSegment seg = .ok e' ∧
      Resent n.engine e' seg rs session init last := by
  have hconfig := config_of_logged h
  have hsize := sized_of_reachable (runs_of_logged h) _ _ hreport.lookup
  exact hreport.resent (wellStored_of_logged h) (hconfig ▸ ne_zero_of_one_le hmax)
    (hsize.trans (by decide))

/-- **Selective retransmission.** In every run, a partial report is answered
with the unclaimed bytes of its scope and no others, each once and in order,
the last piece as a checkpoint. Its serial is larger than all that the session
has used, unless it has used up the 64-bit counter. -/
theorem selective_retransmission (config : LtpEngineConfig) (n : Logged) (seg : LtpSegment)
    (rs : ReportSegContent) (session : LtpSession)
    (h : (logged config).Reachable System.free n) (hmax : 1 ≤ config.maxSegmentSize)
    (hreport : n.engine.PartialReport seg rs session) :
    ∃ e' init last serial, n.engine.receiveReportSegment seg = .ok e' ∧
      Resent n.engine e' seg rs session init last ∧ last.checkpointSerial = some serial ∧
      ((∀ used ∈ n.used (n.engine.localKey seg.sessionNumber), used < serial) ↔
        (n.used (n.engine.localKey seg.sessionNumber)).length + 1 < 2 ^ 64) := by
  obtain ⟨e', init, last, hcall, hresent⟩ := resent_of_logged h hmax hreport
  exact ⟨e', init, last, _, hcall, hresent, hresent.checkpoint,
    used_lt_next_iff h hreport.lookup⟩

/-- Segments of two bytes at most. -/
def pairsOnly : LtpEngineConfig := { maxSegmentSize := 2 }

theorem length_eightBytes : ([1, 2, 3, 4, 5, 6, 7, 8] : List UInt8).length < 2 ^ 57 := by decide

/-- A run that has sent eight bytes, with one checkpoint. -/
theorem exists_loggedEight : ∃ (n : Logged) (session : LtpSession),
    ({ engine := create pairsOnly none } : Logged).run
        [.startSession ⟨[1, 2, 3, 4, 5, 6, 7, 8], length_eightBytes⟩ true] = some n ∧
      n.used ⟨1, 1⟩ = [1] ∧ n.engine.sessions.lookup ⟨1, 1⟩ = some session ∧
      session.role = .originator ∧ session.state = .active ∧
      session.clientData = [1, 2, 3, 4, 5, 6, 7, 8] ∧ session.totalDataLength = 8 ∧
      session.retransmissionCount = 0 := by
  have hcheck : (({ engine := create pairsOnly none } : Logged).run
      [.startSession ⟨[1, 2, 3, 4, 5, 6, 7, 8], length_eightBytes⟩ true]).any (fun n =>
        decide (n.used ⟨1, 1⟩ = [1]) && (n.engine.sessions.lookup ⟨1, 1⟩).any fun session =>
          decide (session.role = .originator ∧ session.state = .active ∧
            session.clientData = [1, 2, 3, 4, 5, 6, 7, 8] ∧ session.totalDataLength = 8 ∧
            session.retransmissionCount = 0)) = true := by
    decide +kernel
  obtain ⟨n, hrun, hcheck⟩ := (Option.any_eq_true _ _).mp hcheck
  rw [Bool.and_eq_true] at hcheck
  obtain ⟨session, hlookup, hfields⟩ := (Option.any_eq_true _ _).mp hcheck.2
  exact ⟨n, session, hrun, of_decide_eq_true hcheck.1, hlookup, of_decide_eq_true hfields⟩

/-- Claims on the second and the sixth byte leave three gaps, of one, three
and two bytes, which are resent as checkpoint 2. -/
theorem selective_retransmission_threeGaps : ∃ (n : Logged) (session : LtpSession)
    (e' : LtpEngine) (init : List DataSegContent) (last : DataSegContent) (serial : UInt64),
    ({ engine := create pairsOnly none } : Logged).run
        [.startSession ⟨[1, 2, 3, 4, 5, 6, 7, 8], length_eightBytes⟩ true] = some n ∧
      n.used ⟨1, 1⟩ = [1] ∧
      computeGaps [⟨1, 1⟩, ⟨5, 1⟩] 0 8 = [⟨0, 1⟩, ⟨2, 3⟩, ⟨6, 2⟩] ∧
      n.engine.receiveReportSegment (reportOf [⟨1, 1⟩, ⟨5, 1⟩] 8) = .ok e' ∧
      Resent n.engine e' (reportOf [⟨1, 1⟩, ⟨5, 1⟩] 8) (claimed [⟨1, 1⟩, ⟨5, 1⟩] 8) session init
        last ∧
      last.checkpointSerial = some serial ∧ ∀ used ∈ n.used ⟨1, 1⟩, used < serial := by
  obtain ⟨n, session, hrun, hused, hlookup, hrole, hactive, hblock, htotal, hcount⟩ :=
    exists_loggedEight
  have hreach : (logged pairsOnly).Reachable System.free n :=
    reachable_of_run (.init ⟨none, rfl⟩) (fun _ _ _ => trivial) hrun
  have hkey : n.engine.localKey (reportOf [⟨1, 1⟩, ⟨5, 1⟩] 8).sessionNumber = ⟨1, 1⟩ :=
    localKey_of_logged hreach 1
  have hlookup' := hkey ▸ hlookup
  have hreport : n.engine.PartialReport (reportOf [⟨1, 1⟩, ⟨5, 1⟩] 8)
      (claimed [⟨1, 1⟩, ⟨5, 1⟩] 8) session :=
    { content := rfl
      lookup := hlookup'
      role := hrole
      active := hactive
      bounds := by decide
      upper := by rw [hblock]; decide
      sorted := by simp [claimed]
      inside := by rw [hblock]; decide
      incomplete := by
        rw [completedBy_iff rfl hlookup' hrole (wellStored_of_logged hreach _ _ hlookup'),
          fullyReceived, htotal]
        decide
      missing := ⟨0, by decide⟩
      budget := by
        rw [Exhausted, config_of_logged hreach, hcount]
        decide }
  obtain ⟨e', init, last, serial, hcall, hresent, hserial, hiff⟩ :=
    selective_retransmission pairsOnly n _ _ session hreach (by decide) hreport
  rw [hkey, hused] at hiff
  exact ⟨n, session, e', init, last, serial, hrun, hused, by decide, hcall, hresent, hserial,
    hused ▸ hiff.mpr (by decide)⟩

/-! ## A counter that is used up -/

/-- The largest limit, which no count of attempts exceeds. -/
def unlimited : LtpEngineConfig := { maxRetransmissions := 255 }

/-- Session 1 of the engine has the byte that the report asks for. -/
theorem partialReport_gapReport (h : (logged unlimited).Reachable System.free n)
    (hbyte : n.engine.HoldsByte ⟨1, 1⟩) : ∃ rs session,
      n.engine.PartialReport (gapReport unlimited) rs session ∧
        session.clientData = [7] ∧ session.totalDataLength = 1 := by
  obtain ⟨session, ⟨hlookup, hrole⟩, hdata, htotal⟩ := hbyte
  have hconfig := config_of_logged h
  have hkey : n.engine.localKey (gapReport unlimited).sessionNumber = ⟨1, 1⟩ :=
    localKey_of_logged h 1
  have hlookup : n.engine.sessions.lookup
      (n.engine.localKey (gapReport unlimited).sessionNumber) = some session := hkey ▸ hlookup
  have hs := wellStored_of_logged h _ _ hlookup
  refine ⟨_, session,
    { content := rfl
      lookup := hlookup
      role := hrole
      active := hs.active
      bounds := by decide
      upper := by rw [hdata]; decide
      sorted := .nil
      inside := by simp
      incomplete := ?_
      missing := ⟨0, by decide⟩
      budget := not_exhausted (by rw [hconfig]; rfl) }, hdata, htotal⟩
  rw [completedBy_iff rfl hlookup hrole hs, fullyReceived, htotal]
  decide

/-- The report has one more serial used. -/
theorem used_gapReport (h : (logged unlimited).Reachable System.free n)
    (hbyte : n.engine.HoldsByte ⟨1, 1⟩) : ∃ n' : Logged, (logged unlimited).Reachable System.free n' ∧
      n'.engine.HoldsByte ⟨1, 1⟩ ∧ (n'.used ⟨1, 1⟩).length = (n.used ⟨1, 1⟩).length + 1 := by
  obtain ⟨rs, session, hreport, hdata, htotal⟩ := partialReport_gapReport h hbyte
  obtain ⟨e', init, last, hcall, hresent⟩ := resent_of_logged h (by decide) hreport
  have hexec : n.engine.exec (.receive (gapReport unlimited).wire) = .ok e' := by
    show n.engine.receiveBytes (gapReport unlimited).wire = .ok e'
    rw [receiveBytes_of_decode (gapReport_travels unlimited).decode_wire, receiveSegment_report rfl]
    exact hcall
  have hkey : n.engine.localKey (gapReport unlimited).sessionNumber = ⟨1, 1⟩ :=
    localKey_of_logged h 1
  have hlookup := hreport.lookup
  have hlookup' := hresent.session
  rw [hkey] at hlookup hlookup'
  refine ⟨n.after (.receive (gapReport unlimited).wire) e', h.step trivial ⟨e', hexec, rfl⟩,
    ⟨_, ⟨hlookup', hreport.role⟩, hdata, htotal⟩, ?_⟩
  -- the counter went on, so the next serial was sent
  rcases exec_marks (wellStored_of_logged h) hexec _ _ hlookup' with ⟨-, hsame⟩ | ⟨hone, -⟩
  · rw [serialCounter_of_lookup hlookup] at hsame
    exact absurd hsame.symm (ne_add_one _)
  · rw [marks] at hone
    rw [used_after, since_of_live hlookup, List.length_append, hone]
    rfl

/-- The session uses any number of serials. -/
theorem exists_used (count : Nat) : ∃ n : Logged, (logged unlimited).Reachable System.free n ∧
    n.engine.HoldsByte ⟨1, 1⟩ ∧ (n.used ⟨1, 1⟩).length = count + 1 := by
  induction count with
  | zero =>
      have hcheck : (({ engine := create unlimited none } : Logged).run
          [.startSession oneByte true]).any (fun n =>
            decide ((n.used ⟨1, 1⟩).length = 1) &&
              (n.engine.sessions.lookup ⟨1, 1⟩).any fun session =>
                decide (session.role = .originator ∧ session.clientData = [7] ∧
                  session.totalDataLength = 1)) = true := by
        decide +kernel
      obtain ⟨n, hrun, hcheck⟩ := (Option.any_eq_true _ _).mp hcheck
      rw [Bool.and_eq_true] at hcheck
      obtain ⟨session, hlookup, hfields⟩ := (Option.any_eq_true _ _).mp hcheck.2
      obtain ⟨hrole, hdata, htotal⟩ := of_decide_eq_true hfields
      exact ⟨n, reachable_of_run (.init ⟨none, rfl⟩) (fun _ _ _ => trivial) hrun,
        ⟨session, ⟨hlookup, hrole⟩, hdata, htotal⟩, of_decide_eq_true hcheck.1⟩
  | succ count ih =>
      obtain ⟨n, hreach, hbyte, hlength⟩ := ih
      obtain ⟨n', hreach', hbyte', hlength'⟩ := used_gapReport hreach hbyte
      exact ⟨n', hreach', hbyte', by rw [hlength', hlength]⟩

/-- With a limit of 255 a session can use up its serials; the next checkpoint
has serial 0. -/
theorem selective_retransmission_wraps : ¬ ∀ (config : LtpEngineConfig) (n : Logged)
    (seg : LtpSegment) (rs : ReportSegContent) (session : LtpSession),
    (logged config).Reachable System.free n → 1 ≤ config.maxSegmentSize →
      n.engine.PartialReport seg rs session →
      ∃ e' init last serial, n.engine.receiveReportSegment seg = .ok e' ∧
        Resent n.engine e' seg rs session init last ∧ last.checkpointSerial = some serial ∧
        ∀ used ∈ n.used (n.engine.localKey seg.sessionNumber), used < serial := by
  intro h
  obtain ⟨n, hreach, hbyte, hlength⟩ := exists_used (2 ^ 64 - 2)
  obtain ⟨rs, session, hreport, -, -⟩ := partialReport_gapReport hreach hbyte
  obtain ⟨e', init, last, serial, -, hresent, hserial, hlarger⟩ := h unlimited n
    (gapReport unlimited) rs session hreach (by decide) hreport
  cases hresent.checkpoint.symm.trans hserial
  have hroom := (used_lt_next_iff hreach hreport.lookup).mp hlarger
  have hkey : n.engine.localKey (gapReport unlimited).sessionNumber = ⟨1, 1⟩ :=
    localKey_of_logged hreach 1
  rw [hkey, hlength] at hroom
  omega

end Logged

end QpskB210.Ltp
