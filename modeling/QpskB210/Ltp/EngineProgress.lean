import QpskB210.Ltp.EngineRuns

/-!
# LTP — Engine progress

Which calls return. What an engine sends encodes, so a call can only leave by
an exception where it cuts a block into segments, reads a slice of a buffer
or takes in the data of a segment.
-/

namespace QpskB210.Ltp

open QpskB210.Lib LtpSegment

/-! ## What the sending loops produce travels -/

/-- A data segment of a slice inside a block travels, if its serials fit its
type. -/
theorem dataSegment_travels {session : LtpSession} {type : UInt8} {ds : DataSegContent}
    (htype : SegType.isData type = true) (hlength : ds.length.toNat = ds.data.length)
    (hcp : ds.checkpointSerial.isSome = SegType.hasCheckpoint type)
    (hrs : ds.reportSerial.isSome = SegType.hasCheckpoint type)
    (hsize : ds.data.length < 2 ^ 57) : (session.dataSegment type ds).Travels where
  wellFormed :=
    { version := rfl
      validType := by
        show SegType.isValid type = true
        have hall := @forall_byte (fun b => SegType.isData b = true → SegType.isValid b = true)
          (by decide +kernel)
        exact hall type htype
      headerCount := rfl
      trailerCount := rfl
      content := ⟨htype, hlength, hcp, hrs⟩ }
  headerExtensions := rfl
  trailerExtensions := rfl
  size := hsize

theorem length_slice {data : List UInt8} {p : Nat × Nat} (h : p.1 + p.2 ≤ data.length) :
    ((data.drop p.1).take p.2).length = p.2 := by
  rw [List.length_take, List.length_drop]
  omega

theorem toNat_ofNat_of_le {data : List UInt8} {n : Nat} (h : n ≤ data.length)
    (hsize : data.length < 2 ^ 57) : (UInt64.ofNat n).toNat = n :=
  toNat_ofNat_of_lt (by omega)

section Slices

variable {session : LtpSession} {p : Nat × Nat}

theorem plainSegment_travels (h : p.1 + p.2 ≤ session.clientData.length)
    (hsize : p.2 < 2 ^ 57) : (plainSegment session p).Travels := by
  have hlength := length_slice h
  have hnat := toNat_ofNat_of_lt (show p.2 < 2 ^ 64 by omega)
  exact dataSegment_travels rfl (hnat.trans hlength.symm) rfl rfl
    (show ((session.clientData.drop p.1).take p.2).length < 2 ^ 57 by omega)

theorem checkpointSegment_travels (serial : UInt64) (h : p.1 + p.2 ≤ session.clientData.length)
    (hsize : p.2 < 2 ^ 57) : (checkpointSegment session serial p).Travels := by
  have hlength := length_slice h
  have hnat := toNat_ofNat_of_lt (show p.2 < 2 ^ 64 by omega)
  exact dataSegment_travels rfl (hnat.trans hlength.symm) rfl rfl
    (show ((session.clientData.drop p.1).take p.2).length < 2 ^ 57 by omega)

theorem blockSegment_travels (cpSerial : UInt64) (h : p.1 + p.2 ≤ session.clientData.length)
    (hsize : p.2 < 2 ^ 57) : (blockSegment session cpSerial p).Travels := by
  have hlength := length_slice h
  have hnat := toNat_ofNat_of_lt (show p.2 < 2 ^ 64 by omega)
  have hslice : ((session.clientData.drop p.1).take p.2).length < 2 ^ 57 := by omega
  rw [blockSegment, chunkSegment]
  cases session.isRed <;> by_cases hlast : p.1 + p.2 = session.clientData.length <;>
    simp only [hlast, decide_true, decide_false, if_true, if_false, Bool.false_eq_true] <;>
    exact dataSegment_travels rfl (hnat.trans hlength.symm) rfl rfl hslice

/-- Pieces inside the block travel, the last one as a checkpoint. -/
theorem resent_travels (serial : UInt64) {init : List (Nat × Nat)} {last : Nat × Nat}
    (h : ∀ p ∈ init ++ [last], p.1 + p.2 ≤ session.clientData.length ∧ p.2 < 2 ^ 57) :
    ∀ seg ∈ init.map (plainSegment session) ++ [checkpointSegment session serial last],
      seg.Travels := by
  intro seg hseg
  rcases List.mem_append.mp hseg with hseg | hseg
  · obtain ⟨p, hp, rfl⟩ := List.mem_map.mp hseg
    obtain ⟨hin, hsize⟩ := h p (List.mem_append_left _ hp)
    exact plainSegment_travels hin hsize
  · obtain ⟨hin, hsize⟩ := h last (List.mem_append_right _ (List.mem_singleton_self _))
    rw [List.mem_singleton.mp hseg]
    exact checkpointSegment_travels serial hin hsize

end Slices

/-- A checkpoint type has data content. -/
theorem exists_data_of_hasCheckpoint {type : UInt8} {content : SegmentContent}
    (h : content.Matches type) (hcp : SegType.hasCheckpoint type = true) :
    ∃ ds, content = .data ds := by
  have hall := @forall_byte (fun b => SegType.hasCheckpoint b = true → SegType.isData b = true)
    (by decide +kernel)
  have hdata := hall type hcp
  cases content with
  | data ds => exact ⟨ds, rfl⟩
  | report rs => cases h.1; cases hcp
  | rptAck ra => cases h; cases hcp
  | cancel cc =>
      rcases h with rfl | rfl | ⟨rfl | rfl, -⟩ <;> cases hcp

theorem exists_report_of_type {type : UInt8} {content : SegmentContent}
    (h : content.Matches type) (htype : type = SegType.reportSegment) :
    ∃ rs, content = .report rs := by
  subst htype
  cases content with
  | data ds => exact absurd h.1 (by decide)
  | report rs => exact ⟨rs, rfl⟩
  | rptAck ra => cases h
  | cancel cc =>
      rcases h with h | h | ⟨h | h, -⟩ <;> cases h

namespace LtpEngine

variable {e : LtpEngine} {key : SessionKey}

/-! ## Sending -/

theorem startSegmentTimer_returns (e : LtpEngine) {seg : LtpSegment} (h : seg.Travels) :
    ∃ e', e.startSegmentTimer seg = .ok e' := by
  have hmatches := h.wellFormed.content
  rw [startSegmentTimer]
  split
  · exact ⟨_, rfl⟩
  · by_cases hcp : SegType.hasCheckpoint seg.segmentType = true
    · rw [if_pos hcp]
      obtain ⟨ds, hds⟩ := exists_data_of_hasCheckpoint hmatches hcp
      rw [hds]
      cases hserial : ds.checkpointSerial with
      | none => exact ⟨_, bind_eq_ok.mpr ⟨ds, rfl, by rw [hserial]; rfl⟩⟩
      | some serial => exact ⟨_, bind_eq_ok.mpr ⟨ds, rfl, by rw [hserial]; rfl⟩⟩
    · rw [if_neg hcp]
      by_cases htype : seg.segmentType = SegType.reportSegment
      · rw [if_pos htype]
        obtain ⟨rs, hrs⟩ := exists_report_of_type hmatches htype
        rw [hrs]
        exact ⟨_, bind_eq_ok.mpr ⟨rs, rfl, rfl⟩⟩
      · rw [if_neg htype]
        exact ⟨_, rfl⟩

theorem sendSegment_returns (e : LtpEngine) {seg : LtpSegment} (h : seg.Travels) :
    ∃ e', e.sendSegment seg = .ok e' := by
  obtain ⟨e₁, htimer⟩ :=
    startSegmentTimer_returns (e.count fun d => d.sent seg.segmentType) h
  exact ⟨_, bind_eq_ok.mpr ⟨e₁, htimer, bind_eq_ok.mpr ⟨_, h.encode_eq, rfl⟩⟩⟩

theorem sendSegments_returns (e : LtpEngine) {segments : List LtpSegment}
    (h : ∀ seg ∈ segments, seg.Travels) : ∃ e', e.sendSegments segments = .ok e' := by
  induction segments generalizing e with
  | nil => exact ⟨e, rfl⟩
  | cons seg segments ih =>
      obtain ⟨e₁, hseg⟩ := e.sendSegment_returns (h seg (by simp))
      obtain ⟨e', hrest⟩ := ih e₁ fun s hs => h s (by simp [hs])
      exact ⟨e', bind_eq_ok.mpr ⟨e₁, hseg, hrest⟩⟩

theorem cancelSession_returns (e : LtpEngine) (key : SessionKey) (reason : UInt8) :
    ∃ e', e.cancelSession key.engineId key.sessionNumber reason = .ok e' := by
  cases hlookup : e.sessions.lookup key with
  | none => exact ⟨e, cancelSession_of_none hlookup⟩
  | some session =>
      obtain ⟨e₁, hsend⟩ := e.sendSegment_returns (cancelSegment_travels session.role key reason)
      rw [cancelSession]
      dsimp only
      rw [hlookup]
      exact ⟨_, bind_eq_ok.mpr ⟨e₁, hsend, rfl⟩⟩

/-- The session's block can be cut into segments. -/
structure CanCut (e : LtpEngine) (session : LtpSession) : Prop where
  segmentSize : session.clientData = [] ∨ e.config.maxSegmentSize ≠ 0
  size : session.clientData.length < 2 ^ 57

/-- A block that can be cut is cut into segments that travel. -/
theorem CanCut.segmentDataImpl {session : LtpSession} (h : e.CanCut session) (cpSerial : UInt64) :
    ∃ segments cpSerial', segmentDataImpl session e.config.maxSegmentSize cpSerial =
        .ok (segments, cpSerial') ∧ ∀ seg ∈ segments, seg.Travels := by
  refine ⟨_, _, segmentDataImpl_eq_ok.mpr ⟨h.segmentSize, rfl, rfl⟩, fun seg hseg => ?_⟩
  obtain ⟨p, hp, rfl⟩ := List.mem_map.mp hseg
  have hin := (mem_blockCuts (h.segmentSize.imp_left (congrArg List.length ·)) hp).1
  have hsize := h.size
  exact blockSegment_travels _ hin (by omega)

theorem startSession_returns {data : Block} {reliable : Bool}
    (h : e.CanCut (e.startedSession data.bytes reliable)) :
    ∃ e' sn, e.startSession data reliable = .ok (e', sn) := by
  rw [startSession]
  by_cases hfull : e.isFull = true
  · rw [if_pos hfull]
    exact ⟨_, _, rfl⟩
  · rw [if_neg hfull]
    obtain ⟨hemplace, hsession⟩ := emplaceSession_effect
      { e with sessionCounter := e.sessionCounter + 1 } (e.localKey (e.sessionCounter + 1))
      (originatorSession { e with sessionCounter := e.sessionCounter + 1 } (e.sessionCounter + 1)
        data.bytes reliable)
    obtain ⟨e₁, hpair, hconfig⟩ : ∃ e₁,
        emplaceSession { e with sessionCounter := e.sessionCounter + 1 }
          (e.localKey (e.sessionCounter + 1))
          (originatorSession { e with sessionCounter := e.sessionCounter + 1 }
            (e.sessionCounter + 1) data.bytes reliable) =
          (e₁, e.startedSession data.bytes reliable) ∧ e₁.config = e.config :=
      ⟨_, Prod.ext rfl hsession, hemplace.config⟩
    dsimp only
    rw [hpair]
    obtain ⟨segments, cpSerial, hsegments, htravels⟩ :=
      h.segmentDataImpl (e.startedSession data.bytes reliable).checkpointSerialCounter
    rw [← hconfig] at hsegments
    obtain ⟨e₂, hsend⟩ := sendSegments_returns ((e₁.count fun d =>
      { d with sessionsOriginated := d.sessionsOriginated + 1 }).putSession
        (e.localKey (e.sessionCounter + 1))
        { e.startedSession data.bytes reliable with checkpointSerialCounter := cpSerial }) htravels
    cases reliable with
    | true =>
        exact ⟨_, _, bind_eq_ok.mpr ⟨_, bind_eq_ok.mpr ⟨_, hsegments, rfl⟩,
          bind_eq_ok.mpr ⟨e₂, hsend, rfl⟩⟩⟩
    | false =>
        exact ⟨_, _, bind_eq_ok.mpr ⟨_, bind_eq_ok.mpr ⟨_, hsegments, rfl⟩,
          bind_eq_ok.mpr ⟨e₂, hsend, rfl⟩⟩⟩

theorem lookup_of_keys {sessions : SessionTable} (h : sessions.keys = []) (key : SessionKey) :
    sessions.lookup key = none := by
  rw [AList.lookup_eq_none, AList.mem_keys, h]
  exact List.not_mem_nil

theorem keys_of_lookup {sessions : SessionTable} (h : ∀ key, sessions.lookup key = none) :
    sessions.keys = [] := by
  rw [List.eq_nil_iff_forall_not_mem]
  intro key hkey
  rw [← AList.mem_keys] at hkey
  exact AList.lookup_eq_none.mp (h key) hkey

def emptyBlock : Block := ⟨[], by decide⟩

/-- With a free slot, and no session under the new key, the block goes out. -/
theorem startSession_begins (hfree : e.isFull = false)
    (hnew : e.sessions.lookup (e.localKey (e.sessionCounter + 1)) = none)
    (hsegment : e.config.maxSegmentSize ≠ 0) (data : Block) (reliable : Bool) :
    ∃ e', ∃ (cpSerial : UInt64),
      e.startSession data reliable = .ok (e', e.sessionCounter + 1) ∧
      Effect { e with sessionCounter := e.sessionCounter + 1 } e'
        (e.localKey (e.sessionCounter + 1))
        (if reliable then
          some { e.originatorSession (e.sessionCounter + 1) data.bytes reliable with
            checkpointSerialCounter := cpSerial }
        else none)
        (((blockCuts e.config.maxSegmentSize data.bytes.length).map (blockSegment
          (e.originatorSession (e.sessionCounter + 1) data.bytes reliable) 0)).map Act.send) 0 := by
  have hsession : e.startedSession data.bytes reliable =
      e.originatorSession (e.sessionCounter + 1) data.bytes reliable := by
    rw [startedSession, hnew]
    rfl
  obtain ⟨e', sn, hcall⟩ := @startSession_returns e data reliable
    ⟨.inr hsegment, by rw [hsession]; exact data.size_lt⟩
  rcases startSession_cases hcall with ⟨hfull, -, -⟩ | ⟨-, rfl, segments, cpSerial, himpl, heffect⟩
  · cases hfree.symm.trans hfull
  · rw [hsession] at himpl heffect
    obtain ⟨-, rfl, -⟩ := segmentDataImpl_eq_ok.mp himpl
    exact ⟨e', cpSerial, hcall, heffect⟩

/-- With an empty table every block is started. -/
theorem startSession_of_empty (hempty : e.sessions.keys = [])
    (hmax : e.config.maxConcurrentSessions ≠ 0) (hsegment : e.config.maxSegmentSize ≠ 0)
    (data : Block) (reliable : Bool) :
    ∃ e', ∃ (segments : List LtpSegment) (cpSerial : UInt64),
      e.startSession data reliable = .ok (e', e.sessionCounter + 1) ∧
      Effect { e with sessionCounter := e.sessionCounter + 1 } e'
        (e.localKey (e.sessionCounter + 1))
        (if reliable then
          some { e.originatorSession (e.sessionCounter + 1) data.bytes reliable with
            checkpointSerialCounter := cpSerial }
        else none) (segments.map Act.send) 0 := by
  have hfree : e.isFull = false := by
    have := toNat32_pos hmax
    rw [isFull, sessionCount, hempty, List.length_nil, decide_eq_false_iff_not]
    omega
  obtain ⟨e', cpSerial, hcall, heffect⟩ :=
    startSession_begins hfree (lookup_of_keys hempty _) hsegment data reliable
  exact ⟨e', _, cpSerial, hcall, heffect⟩

/-! ## Answering a report -/

/-- The gaps can be cut from the session's block. -/
structure CanResend (e : LtpEngine) (session : LtpSession) (gaps : List ReceptionClaim) :
    Prop where
  segmentSize : e.config.maxSegmentSize ≠ 0
  inside : ∀ gap ∈ gaps, gap.offset.toNat + gap.length.toNat ≤ session.clientData.length

/-- Gaps inside the block are resent, whatever its size. -/
theorem retransmitGaps_returns {session : LtpSession} {gaps : List ReceptionClaim}
    (h : e.CanResend session gaps) : ∃ e', e.retransmitGaps key session gaps = .ok e' := by
  have hcuts : ∀ p ∈ gapCuts e.config.maxSegmentSize gaps,
      p.1 + p.2 ≤ session.clientData.length ∧ p.2 < 2 ^ 57 := by
    intro p hp
    have hlength := length_le_of_mem_gapCuts hp
    have hsize := e.config.maxSegmentSize.toNat_lt
    obtain ⟨gap, hgap, hp⟩ := List.mem_flatMap.mp hp
    have hin := Chunks.mem_cut hp
    have hgap := h.inside gap hgap
    omega
  have hsegments := gapSegments_eq_ok.mpr
    ⟨fun gap _ h0 => absurd h0 h.segmentSize, fun p hp => (hcuts p hp).1, @rfl (List LtpSegment) _⟩
  obtain ⟨marked, hmarked, htravels⟩ : ∃ marked,
      markLast (session.checkpointSerialCounter + 1)
        ((gapCuts e.config.maxSegmentSize gaps).map (plainSegment session)) = .ok marked ∧
      ∀ seg ∈ marked, seg.Travels := by
    rcases List.eq_nil_or_concat (gapCuts e.config.maxSegmentSize gaps) with hnil | ⟨init, last, hc⟩
    · rw [hnil]
      exact ⟨[], rfl, nofun⟩
    · rw [List.concat_eq_append] at hc
      rw [hc] at hcuts ⊢
      exact ⟨_, markLast_map _ init last, resent_travels _ hcuts⟩
  obtain ⟨e', hsend⟩ := sendSegments_returns _ htravels
  exact ⟨e', bind_eq_ok.mpr ⟨_, hsegments, bind_eq_ok.mpr ⟨marked, hmarked, hsend⟩⟩⟩

theorem retransmit_returns {session : LtpSession}
    {resend : LtpEngine → LtpSession → Except Exn LtpEngine}
    (h : ¬ e.Exhausted session → ∀ e₁ : LtpEngine, e₁.config = e.config →
      ∃ e', resend e₁ (attempted session) = .ok e') :
    ∃ e', e.retransmit key session resend = .ok e' := by
  rw [retransmit]
  by_cases hmax : e.Exhausted session
  · rw [if_pos (show (e.putSession key (attempted session)).config.maxRetransmissions <
      (attempted session).retransmissionCount from hmax)]
    exact cancelSession_returns _ ⟨_, _⟩ _
  · rw [if_neg (show ¬ (e.putSession key (attempted session)).config.maxRetransmissions <
      (attempted session).retransmissionCount from hmax)]
    exact h hmax _ rfl

theorem answerReport_returns {session : LtpSession} {rs : ReportSegContent}
    (h : fullyReceived session rs = false → ¬ e.Exhausted session →
      e.CanResend session (computeGaps rs.claims rs.lowerBound rs.upperBound)) :
    ∃ e', e.answerReport key session rs = .ok e' := by
  rw [answerReport]
  by_cases hfull : fullyReceived session rs = true
  · rw [if_pos hfull]
    exact ⟨_, rfl⟩
  · rw [if_neg hfull]
    dsimp only
    split
    · exact ⟨_, rfl⟩
    · refine retransmit_returns fun hmax e₁ hconfig => retransmitGaps_returns ?_
      have hcan := h (by simpa using hfull) hmax
      exact ⟨hconfig ▸ hcan.segmentSize, hcan.inside⟩

/-- An active originator session answers the report, once it is acknowledged. -/
theorem receiveReportSegment_active {seg : LtpSegment} {rs : ReportSegContent}
    {session : LtpSession} (hrs : seg.content = .report rs)
    (hlookup : e.sessions.lookup (e.localKey seg.sessionNumber) = some session)
    (hrole : session.role = .originator) (hactive : session.state = .active) :
    ∃ e₁ : LtpEngine, e₁.config = e.config ∧
      e.receiveReportSegment seg = e₁.answerReport (e.localKey seg.sessionNumber) session rs := by
  obtain ⟨e₁, hack⟩ := sendSegment_returns
    (e.count fun d => { d with reportsReceived := d.reportsReceived + 1 })
    (reportAck_travels seg rs)
  have heffect := (sendSegment_effect hack (e.localKey seg.sessionNumber)).keep
    (cancelCheckpointTimer_effect _ _ (timerKey seg.sessionNumber rs.checkpointSerial))
  refine ⟨_, heffect.config, ?_⟩
  have hfound : (e.count fun d =>
      { d with reportsReceived := d.reportsReceived + 1 }).sessions.lookup
        (e.localKey seg.sessionNumber) = some session := hlookup
  rw [receiveReportSegment, hrs, show (SegmentContent.report rs).getReport = pure rs from rfl,
    pure_bind]
  dsimp only
  rw [show (e.count fun d => { d with reportsReceived := d.reportsReceived + 1 }).localKey
    seg.sessionNumber = e.localKey seg.sessionNumber from rfl, hfound]
  dsimp only
  rw [if_neg (not_not.mpr hrole), if_neg (not_not.mpr hactive)]
  exact congrArg (· >>= _) hack

/-- A report is answered, if the originator session it finds can answer it. -/
theorem receiveReportSegment_answers {seg : LtpSegment} {rs : ReportSegContent}
    (hrs : seg.content = .report rs)
    (h : ∀ session (e₁ : LtpEngine),
      e.sessions.lookup (e.localKey seg.sessionNumber) = some session →
      session.role = .originator → session.state = .active → e₁.config = e.config →
      ∃ e', e₁.answerReport (e.localKey seg.sessionNumber) session rs = .ok e') :
    ∃ e', e.receiveReportSegment seg = .ok e' := by
  by_cases hanswers : ∃ session, e.sessions.lookup (e.localKey seg.sessionNumber) = some session ∧
      session.role = .originator ∧ session.state = .active
  · obtain ⟨session, hlookup, hrole, hactive⟩ := hanswers
    obtain ⟨e₁, hconfig, heq⟩ := receiveReportSegment_active hrs hlookup hrole hactive
    rw [heq]
    exact h session e₁ hlookup hrole hactive hconfig
  · rw [receiveReportSegment, hrs]
    simp only [bind_eq_ok, SegmentContent.getReport, Except.ok.injEq, exists_eq_left']
    rw [show (e.count fun d => { d with reportsReceived := d.reportsReceived + 1 }).localKey
      seg.sessionNumber = e.localKey seg.sessionNumber from rfl]
    rw [show (e.count fun d => { d with reportsReceived := d.reportsReceived + 1 }).sessions =
      e.sessions from rfl]
    cases hlookup : e.sessions.lookup (e.localKey seg.sessionNumber) with
    | none => exact sendSegment_returns _ (reportAck_travels seg rs)
    | some session =>
        dsimp only
        split
        · exact ⟨_, rfl⟩
        · rename_i hrole
          split
          · exact ⟨_, rfl⟩
          · rename_i hactive
            exact absurd ⟨session, hlookup, not_not.mp hrole, not_not.mp hactive⟩ hanswers

/-- A report is answered, if the gaps to resend for it lie in the block. -/
theorem receiveReportSegment_returns {seg : LtpSegment} {rs : ReportSegContent}
    (hrs : seg.content = .report rs)
    (h : ∀ session, e.sessions.lookup (e.localKey seg.sessionNumber) = some session →
      fullyReceived session rs = false → ¬ e.Exhausted session →
      e.CanResend session (computeGaps rs.claims rs.lowerBound rs.upperBound)) :
    ∃ e', e.receiveReportSegment seg = .ok e' := by
  refine receiveReportSegment_answers hrs fun session e₁ hlookup _ _ hconfig => ?_
  refine answerReport_returns fun hfull hmax => ?_
  rw [Exhausted, hconfig] at hmax
  have hcan := h session hlookup hfull hmax
  exact ⟨hconfig ▸ hcan.segmentSize, hcan.inside⟩

/-! ## Resending the block -/

theorem resendBlock_returns {session : LtpSession} (h : e.CanCut session) :
    ∃ e', e.resendBlock key session = .ok e' := by
  obtain ⟨segments, cpSerial, hsegments, htravels⟩ :=
    h.segmentDataImpl session.checkpointSerialCounter
  obtain ⟨e', hsend⟩ := sendSegments_returns (e.putSession key
    { session with checkpointSerialCounter := cpSerial }) htravels
  exact ⟨e', bind_eq_ok.mpr ⟨_, bind_eq_ok.mpr ⟨_, hsegments, rfl⟩, hsend⟩⟩

theorem checkpointExpiry_returns {event : TimerEvent}
    (h : ∀ session, e.sessions.lookup (e.localKey event.sessionNumber) = some session →
      ¬ e.Exhausted session → e.CanCut session) : ∃ e', e.checkpointExpiry event = .ok e' := by
  rw [checkpointExpiry]
  cases hlookup : e.sessions.lookup (e.localKey event.sessionNumber) with
  | none => exact ⟨_, rfl⟩
  | some session =>
      dsimp only
      split
      · exact ⟨_, rfl⟩
      · split
        · exact ⟨_, rfl⟩
        · refine retransmit_returns fun hmax e₁ hconfig => resendBlock_returns ?_
          have hcut := h session hlookup hmax
          exact ⟨hconfig ▸ hcut.segmentSize, hcut.size⟩

/-! ## Receiver sessions -/

theorem acceptData_returns {session stored : LtpSession} {seg : LtpSegment} {ds : DataSegContent}
    (hstore : session.store seg.segmentType ds = .ok stored)
    (hgreen : SegType.isGreen seg.segmentType = false)
    (hranges : stored.receptionTracker.ranges.length < 2 ^ 57) :
    ∃ e', e.acceptData key session seg ds = .ok e' := by
  rw [acceptData]
  split
  · exact ⟨_, rfl⟩
  · obtain ⟨e₁, hreport⟩ : ∃ e₁, ((e.count fun d => d.received seg.segmentType).putSession key
        stored).reportCheckpoint key stored seg ds = .ok e₁ := by
      rw [reportCheckpoint]
      split
      · exact sendSegment_returns _ (report_travels _ _ hranges)
      · exact ⟨_, rfl⟩
    refine ⟨e₁, bind_eq_ok.mpr ⟨stored, hstore, bind_eq_ok.mpr ⟨e₁, hreport, ?_⟩⟩⟩
    rw [hgreen]
    rfl

/-- A green data segment whose data can be stored is taken in, if at the end
of the block the buffer has all of it. -/
theorem acceptData_returns_green {session stored : LtpSession} {seg : LtpSegment}
    {ds : DataSegContent} (hstore : session.store seg.segmentType ds = .ok stored)
    (hgreen : SegType.isGreen seg.segmentType = true)
    (hend : SegType.hasEob seg.segmentType = true →
      stored.totalDataLength.toNat ≤ stored.clientData.length) :
    ∃ e', e.acceptData key session seg ds = .ok e' := by
  rw [acceptData]
  split
  · exact ⟨_, rfl⟩
  · obtain ⟨e₁, hreport⟩ : ∃ e₁,
        ((e.count fun d => d.received seg.segmentType).putSession key stored).reportCheckpoint key
          stored seg ds = .ok e₁ := by
      rw [reportCheckpoint, SegType.hasCheckpoint_of_isGreen hgreen]
      exact ⟨_, rfl⟩
    obtain ⟨e', hlast⟩ : ∃ e', (if SegType.isGreen seg.segmentType && SegType.hasEob seg.segmentType
        then e₁.deliver key stored else .ok e₁) = .ok e' := by
      by_cases heob : SegType.hasEob seg.segmentType = true
      · have hdata := assignRange_eq_ok.mpr ⟨Nat.zero_le _, hend heob, rfl⟩
        rw [hgreen, heob]
        exact ⟨_, bind_eq_ok.mpr ⟨_, hdata, rfl⟩⟩
      · rw [if_neg fun h => heob (Bool.and_eq_true_iff.mp h).2]
        exact ⟨e₁, rfl⟩
    exact ⟨e', bind_eq_ok.mpr ⟨stored, hstore, bind_eq_ok.mpr ⟨e₁, hreport, hlast⟩⟩⟩

/-- A data segment is taken in, if the session it meets can accept it. -/
theorem receiveDataSegment_accepts {session : LtpSession} {seg : LtpSegment}
    {ds : DataSegContent} (hds : seg.content = .data ds) (hmeets : e.Meets seg session)
    (h : ∀ e₁ : LtpEngine, ∃ e', e₁.acceptData (segmentKey seg) session seg ds = .ok e') :
    ∃ e', e.receiveDataSegment seg = .ok e' := by
  obtain ⟨e₁, -, heq⟩ := receiveDataSegment_meets hds hmeets
  rw [heq]
  exact h e₁

/-- A red data segment whose data can be stored is taken in. -/
theorem receiveDataSegment_returns {session stored : LtpSession} {seg : LtpSegment}
    {ds : DataSegContent} (hds : seg.content = .data ds) (hmeets : e.Meets seg session)
    (hstore : session.store seg.segmentType ds = .ok stored)
    (hgreen : SegType.isGreen seg.segmentType = false)
    (hranges : stored.receptionTracker.ranges.length < 2 ^ 57) :
    ∃ e', e.receiveDataSegment seg = .ok e' :=
  receiveDataSegment_accepts hds hmeets fun _ => acceptData_returns hstore hgreen hranges

/-- A report acknowledgment is taken in, if a complete session's buffer has
its block. -/
theorem receiveReportAck_returns {seg : LtpSegment} {ra : RptAckContent}
    (hra : seg.content = .rptAck ra)
    (h : ∀ session, e.sessions.lookup (segmentKey seg) = some session →
      session.receptionTracker.isComplete session.totalDataLength = true →
      session.totalDataLength.toNat ≤ session.clientData.length) :
    ∃ e', e.receiveReportAck seg = .ok e' := by
  rw [receiveReportAck, hra]
  simp only [bind_eq_ok, SegmentContent.getRptAck, Except.ok.injEq, exists_eq_left']
  rw [show SessionKey.mk seg.engineId seg.sessionNumber = segmentKey seg from rfl]
  rw [show (e.count fun d => { d with reportAcksReceived := d.reportAcksReceived + 1 }).sessions =
    e.sessions from rfl]
  cases hlookup : e.sessions.lookup (segmentKey seg) with
  | none => exact ⟨_, rfl⟩
  | some session =>
      dsimp only
      split
      · exact ⟨_, rfl⟩
      · split
        · rename_i hcomplete
          have hdata := assignRange_eq_ok.mpr ⟨Nat.zero_le _, h session hlookup hcomplete, rfl⟩
          exact ⟨_, bind_eq_ok.mpr ⟨_, hdata, rfl⟩⟩
        · exact ⟨_, rfl⟩

/-! ## What arrives -/

theorem receiveSegment_data {seg : LtpSegment} (h : SegType.isData seg.segmentType = true) :
    e.receiveSegment seg = e.receiveDataSegment seg := by
  rw [receiveSegment, if_pos h]

theorem receiveSegment_reportAck {seg : LtpSegment} (h : seg.segmentType = SegType.reportAck) :
    e.receiveSegment seg = e.receiveReportAck seg := by
  rw [receiveSegment, h]
  rfl

theorem receiveSegment_report {seg : LtpSegment} (h : seg.segmentType = SegType.reportSegment) :
    e.receiveSegment seg = e.receiveReportSegment seg := by
  rw [receiveSegment, h]
  rfl

end LtpEngine

end QpskB210.Ltp
