import QpskB210.Ltp.Partition
import QpskB210.Ltp.SessionLog

/-!
# LTP — Reported checkpoints

A report names the checkpoint that it answers. When the timer of a report
expires, the report is made anew, with the serial of the expired report in the
place of the checkpoint's. `reports_answer_iff` says when that is right.
-/

namespace QpskB210.Ltp

open QpskB210.Lib

namespace LtpEngine

variable {e e' : LtpEngine} {key : SessionKey} {rs : ReportSegContent}

/-! ## Reports among the acts of a call -/

/-- The engine gave the report away from `e` to `e'`. -/
def Sends (e e' : LtpEngine) (key : SessionKey) (rs : ReportSegContent) : Prop :=
  .sendSegment (reportSegment key rs).wire ∈ e.gives e'

/-- Some segments, none of them a report. -/
def NoReports (acts : List Act) : Prop :=
  ∀ key rs, .sendSegment (reportSegment key rs).wire ∉ events acts

theorem Effect.not_sends {held : Option LtpSession} {acts : List Act} {rounds : UInt64}
    {k : SessionKey} (h : Effect e e' k held acts rounds) (hacts : NoReports acts) :
    ¬ e.Sends e' key rs := by
  rw [Sends, h.gives_eq]
  exact hacts key rs

theorem noReports_nil : NoReports [] := fun _ _ h => by cases h

theorem NoReports.append {acts acts' : List Act} (h : NoReports acts) (h' : NoReports acts') :
    NoReports (acts ++ acts') := by
  intro key rs hmem
  rw [events_append, List.mem_append] at hmem
  exact hmem.elim (h key rs) (h' key rs)

theorem not_sends_self : ¬ e.Sends e key rs :=
  Effect.not_sends (.refl e key) noReports_nil

/-- A segment that is sent, and no report. -/
theorem noReports_send {seg : LtpSegment} (hversion : seg.version = 0)
    (htype : seg.segmentType &&& 0x0F ≠ SegType.reportSegment) : NoReports [.send seg] := by
  intro key rs hmem
  rw [events_send, events_nil, List.mem_singleton, Event.sendSegment.injEq] at hmem
  exact wire_ne_reportSegment hversion htype hmem.symm

theorem noReports_sends {segments : List LtpSegment}
    (h : ∀ seg ∈ segments, seg.version = 0 ∧
      seg.segmentType &&& 0x0F ≠ SegType.reportSegment) : NoReports (segments.map Act.send) := by
  induction segments with
  | nil => exact noReports_nil
  | cons seg segments ih =>
      obtain ⟨hversion, htype⟩ := h seg (by simp)
      exact (noReports_send hversion htype).append (ih fun s hs => h s (by simp [hs]))

theorem reportType_of_isData {type : UInt8} (h : SegType.isData type = true) :
    type &&& 0x0F ≠ SegType.reportSegment := by
  have hall := @forall_byte (fun b => SegType.isData b = true →
    b &&& 0x0F ≠ SegType.reportSegment) (by decide +kernel)
  exact hall type h

theorem noReports_dataSegment {session : LtpSession} {type : UInt8} {ds : DataSegContent}
    (h : SegType.isData type = true) : (session.dataSegment type ds).version = 0 ∧
      (session.dataSegment type ds).segmentType &&& 0x0F ≠ SegType.reportSegment :=
  ⟨rfl, reportType_of_isData h⟩

theorem noReports_block {session : LtpSession} {maxSeg : UInt32} {cpSerial cpSerial' : UInt64}
    {segments : List LtpSegment}
    (h : segmentDataImpl session maxSeg cpSerial = .ok (segments, cpSerial')) :
    NoReports (segments.map Act.send) := by
  obtain ⟨-, rfl, -⟩ := segmentDataImpl_eq_ok.mp h
  refine noReports_sends fun seg hseg => ?_
  obtain ⟨p, -, rfl⟩ := List.mem_map.mp hseg
  by_cases hlast : p.1 + p.2 = session.clientData.length
  · rw [blockSegment_of_last hlast, LtpSession.lastType]
    split <;> exact noReports_dataSegment rfl
  · rw [blockSegment_of_inner hlast, LtpSession.innerType]
    split <;> exact noReports_dataSegment rfl

theorem noReports_marked {session : LtpSession} {maxSeg : UInt32} {claims : List ReceptionClaim}
    {lower upper serial : UInt64} {segments marked : List LtpSegment}
    (hgaps : computeGaps claims lower upper ≠ [])
    (h : gapSegments session maxSeg (computeGaps claims lower upper) = .ok segments)
    (hmarked : markLast serial segments = .ok marked) : NoReports (marked.map Act.send) := by
  obtain ⟨init, last, -, rfl⟩ := marked_eq hgaps h hmarked
  refine noReports_sends fun seg hseg => ?_
  rcases List.mem_append.mp hseg with hseg | hseg
  · obtain ⟨p, -, rfl⟩ := List.mem_map.mp hseg
    exact noReports_dataSegment rfl
  · rw [List.mem_singleton.mp hseg]
    exact noReports_dataSegment rfl

theorem noReports_call {event : Event} (h : ∀ bytes, event ≠ .sendSegment bytes) :
    NoReports [.call event] := by
  intro key rs hmem
  rw [events_call, events_nil, List.mem_singleton] at hmem
  exact h _ hmem.symm

theorem cancelType_ne (role : SessionRole) (key : SessionKey) (reason : UInt8) :
    (cancelSegment role key reason).segmentType &&& 0x0F ≠ SegType.reportSegment := by
  rw [cancelSegment]
  dsimp only
  split <;> decide

theorem noReports_givingUp {session : LtpSession} : NoReports (givingUp key session) :=
  (noReports_send rfl (cancelType_ne _ _ _)).append (noReports_call fun _ heq => by cases heq)

theorem cancelAckType_ne (seg : LtpSegment) :
    (cancelAck seg).segmentType &&& 0x0F ≠ SegType.reportSegment := by
  rw [cancelAck]
  dsimp only
  split <;> decide

/-! ## The calls -/

/-- The timer event that a call lets fire. -/
def fires (e : LtpEngine) : Action → Option TimerEvent
  | .handleTimerExpiry event => some event
  | .expire entry =>
    match e.timerManager with
    | none => none
    | some tm => if entry ∈ tm.heap then (tm.popEntry entry).2 else none
  | _ => none

theorem exec_fires {a : Action} {event : TimerEvent} (h : e.fires a = some event) :
    ∃ timerManager, e.exec a =
      handleTimerExpiry { e with timerManager := timerManager } event := by
  cases a with
  | handleTimerExpiry event' =>
      cases h
      exact ⟨e.timerManager, rfl⟩
  | expire entry =>
      rw [fires] at h
      split at h
      · cases h
      · rename_i tm hmanager
        split at h
        · rename_i hmem
          by_cases hcancelled : entry.timerId ∈ tm.cancelled
          · rw [TimerManager.popEntry, if_pos hcancelled] at h
            cases h
          · have hevent : event = entry.event := by
              rw [TimerManager.popEntry, if_neg hcancelled] at h
              exact (Option.some.inj h).symm
            subst hevent
            exact ⟨some (tm.popEntry entry).1, expire_live hmanager hmem hcancelled⟩
        · cases h
  | startSession data reliable => cases h
  | cancelSession engineId sessionNumber reason => cases h
  | receive bytes => cases h

/-- An entry that does not fire leaves the engine as it is, but for its
timers. -/
theorem gives_of_not_fires {entry : TimerEntry} (h : e.fires (.expire entry) = none)
    (hexec : e.expire entry = .ok e') : e.gives e' = [] := by
  rcases expire_cases hexec with rfl | ⟨tm, hmanager, hmem, ⟨-, rfl⟩ | ⟨hlive, -⟩⟩
  · rw [gives, List.drop_length]
  · rw [gives, popped, List.drop_length]
  · rw [fires, hmanager] at h
    dsimp only at h
    rw [if_pos hmem, TimerManager.popEntry, if_neg hlive] at h
    cases h

/-- A report timer has its report made anew: there is a receiver session, and
data to report on. -/
structure Rings (e : LtpEngine) (event : TimerEvent) (session : LtpSession) : Prop where
  type : event.type = .reportSegment
  lookup : e.sessions.lookup (eventKey event) = some session
  role : session.role = .receiver
  total : session.totalDataLength ≠ 0

/-- A report goes out for a checkpoint that arrives, or for a timer. -/
inductive Occasion (e : LtpEngine) (a : Action) (key : SessionKey) (rs : ReportSegContent) :
    Prop where
  | checkpoint (h : (Entry.took a).heard key = some rs.checkpointSerial)
  | timer (event : TimerEvent) (session : LtpSession) (hfires : e.fires a = some event)
      (hkey : key = eventKey event) (hrings : e.Rings event session)
      (hserial : rs.checkpointSerial = event.serialNumber)

/-- What `generate_report` sends is a report of the session on the
checkpoint. -/
theorem report_eq {session : LtpSession} (hs : Stored key session) (cp ub : UInt64) :
    ∃ rs, report session cp ub = reportSegment key rs ∧ rs.checkpointSerial = cp := by
  refine ⟨{ reportSerial := session.reportSerialCounter + 1, checkpointSerial := cp
            upperBound := ub, lowerBound := 0, claims := session.receptionTracker.ranges }, ?_, rfl⟩
  rw [report, reportSegment, hs.engineId, hs.sessionNumber]

theorem sends_report {session : LtpSession} {k : SessionKey} {held : Option LtpSession}
    {cp ub rounds : UInt64} (hs : Stored k session)
    (h : Effect e e' k held [.send (report session cp ub)] rounds) (hsends : e.Sends e' key rs) :
    key = k ∧ rs.checkpointSerial = cp := by
  obtain ⟨rs', hreport, hserial⟩ := report_eq hs cp ub
  rw [Sends, h.gives_eq, events_send, events_nil, List.mem_singleton, Event.sendSegment.injEq,
    hreport] at hsends
  obtain ⟨hkey, -, hsame⟩ := wire_reportSegment_inj hsends
  exact ⟨hkey, hsame.trans hserial⟩

theorem receiveDataSegment_occasion (hw : e.WellStored) {bytes : List UInt8} {seg : LtpSegment}
    (hdecode : LtpSegment.decode bytes = .ok (some seg)) (h : e.receiveDataSegment seg = .ok e')
    (hsends : e.Sends e' key rs) : Occasion e (.receive bytes) key rs := by
  obtain ⟨ds, hds, ⟨-, -, rfl⟩ | ⟨session, hmeets, ⟨-, rfl⟩ | ⟨stored, hstore, hout⟩⟩⟩ :=
    receiveDataSegment_cases h
  · exact absurd hsends not_sends_self
  · exact absurd hsends not_sends_self
  · cases hout with
    | quiet _ h => exact absurd hsends (Effect.not_sends h noReports_nil)
    | delivered _ _ _ _ h =>
        exact absurd hsends (Effect.not_sends h (noReports_call fun _ heq => by cases heq))
    | reported serial hcp hserial h =>
        obtain ⟨rfl, hrs⟩ := sends_report ((hw.meets hmeets).store hstore) h hsends
        refine .checkpoint ?_
        rw [Entry.heard, checkpointIn, hdecode]
        dsimp only
        rw [LtpSegment.checkpointOf, hds]
        simp [hcp, hserial, hrs]

theorem receiveReportSegment_silent (hw : e.WellStored) {seg : LtpSegment}
    (h : e.receiveReportSegment seg = .ok e') : ¬ e.Sends e' key rs := by
  obtain ⟨rs', -, hcases⟩ := receiveReportSegment_cases h
  have hack : NoReports [.send (reportAck seg rs')] :=
    noReports_send rfl (show SegType.reportAck &&& 0x0F ≠ SegType.reportSegment by decide)
  have hacks : NoReports [.send (reportAck seg rs'),
      .cancelCheckpoint (timerKey seg.sessionNumber rs'.checkpointSerial)] := hack
  split at hcases
  · exact Effect.not_sends hcases hack
  · rename_i session hlookup
    split at hcases
    · cases hcases (hw _ _ hlookup) with
      | complete _ h =>
          exact Effect.not_sends h (hacks.append (noReports_call fun _ heq => by cases heq))
      | waiting _ _ h => exact Effect.not_sends h hacks
      | gaveUp _ _ _ h => exact Effect.not_sends h (hacks.append noReports_givingUp)
      | resent _ hgaps _ segments marked hsegments hmarked h =>
          exact Effect.not_sends h (hacks.append (noReports_marked hgaps hsegments hmarked))
    · exact Effect.not_sends hcases noReports_nil

theorem receiveSegment_occasion (hw : e.WellStored) {bytes : List UInt8} {seg : LtpSegment}
    (hdecode : LtpSegment.decode bytes = .ok (some seg)) (h : e.receiveSegment seg = .ok e')
    (hsends : e.Sends e' key rs) : Occasion e (.receive bytes) key rs := by
  rcases receiveSegment_cases h with ⟨-, h⟩ | ⟨-, h⟩ | ⟨-, h⟩ | ⟨-, h⟩ | rfl | rfl
  · exact receiveDataSegment_occasion hw hdecode h hsends
  · exact absurd hsends (receiveReportSegment_silent hw h)
  · obtain ⟨ra, -, ⟨_, _, _, _, _, _, h⟩ | ⟨acts, h, rfl | rfl, -⟩⟩ := receiveReportAck_cases h
    · exact absurd hsends (Effect.not_sends h (noReports_call fun _ heq => by cases heq))
    · exact absurd hsends (Effect.not_sends h noReports_nil)
    · exact absurd hsends (Effect.not_sends h noReports_nil)
  · obtain ⟨cc, -, hcases⟩ := receiveCancelSegment_cases h
    have hack := @noReports_send (cancelAck seg) rfl (cancelAckType_ne seg)
    split at hcases
    · exact absurd hsends (Effect.not_sends hcases hack)
    · exact absurd hsends (Effect.not_sends hcases
        (hack.append (noReports_call fun _ heq => by cases heq)))
  · rw [hw.receiveCancelAck] at hsends
    exact absurd hsends not_sends_self
  · exact absurd hsends not_sends_self

theorem handleTimerExpiry_occasion (hw : e.WellStored) {event : TimerEvent}
    (h : e.handleTimerExpiry event = .ok e') (hsends : e.Sends e' key rs) :
    ∃ session, key = eventKey event ∧ e.Rings event session ∧
      rs.checkpointSerial = event.serialNumber := by
  rw [handleTimerExpiry] at h
  split at h
  · cases checkpointExpiry_outcome h fun session hlookup => hw _ session hlookup with
    | idle h =>
        subst h
        exact absurd hsends not_sends_self
    | gaveUp _ _ _ _ h => exact absurd hsends (Effect.not_sends h noReports_givingUp)
    | resent _ _ _ _ segments _ hsegments h =>
        exact absurd hsends (Effect.not_sends h (noReports_block hsegments))
  · rename_i htype
    rcases reportExpiry_cases h with rfl | ⟨session, hlookup, hrole, ⟨-, h⟩ | ⟨htotal, h⟩⟩
    · exact absurd hsends not_sends_self
    · exact absurd hsends (Effect.not_sends h noReports_nil)
    · obtain ⟨rfl, hrs⟩ := sends_report (hw _ _ hlookup) h hsends
      exact ⟨session, rfl, ⟨htype, hlookup, hrole, htotal⟩, hrs⟩
  · cases h
    exact absurd hsends not_sends_self

/-- **Occasions.** Every report that a call sends has one. -/
theorem exec_occasion (hw : e.WellStored) {a : Action} (h : e.exec a = .ok e')
    (hsends : e.Sends e' key rs) : Occasion e a key rs := by
  have hfired {event : TimerEvent} (hfires : e.fires a = some event) : Occasion e a key rs := by
    obtain ⟨timerManager, hexec⟩ := exec_fires hfires
    obtain ⟨session, hkey, hrings, hserial⟩ := handleTimerExpiry_occasion
      (e := { e with timerManager := timerManager }) hw (hexec.symm.trans h) hsends
    exact .timer event session hfires hkey
      ⟨hrings.type, hrings.lookup, hrings.role, hrings.total⟩ hserial
  cases a with
  | startSession data reliable =>
      obtain ⟨⟨e₁, sn⟩, hstart, h⟩ := bind_eq_ok.mp h
      cases h
      rcases startSession_cases hstart with ⟨-, rfl, -⟩ | ⟨-, rfl, segments, cpSerial, hsegments, h⟩
      · exact absurd hsends not_sends_self
      · rw [Sends] at hsends
        exact absurd (h.gives_eq ▸ hsends) (noReports_block hsegments key rs)
  | cancelSession engineId sessionNumber reason =>
      cases hlookup : e.sessions.lookup ⟨engineId, sessionNumber⟩ with
      | none =>
          cases (@cancelSession_of_none e ⟨engineId, sessionNumber⟩ reason hlookup).symm.trans h
          exact absurd hsends not_sends_self
      | some session =>
          have h := @cancelSession_effect e e' ⟨engineId, sessionNumber⟩ session reason h hlookup
          refine absurd hsends (Effect.not_sends h ?_)
          exact (noReports_send rfl (cancelType_ne _ _ _)).append
            (noReports_call fun _ heq => by cases heq)
  | receive bytes =>
      rcases receiveBytes_cases h with rfl | ⟨seg, hdecode, h⟩
      · exact absurd hsends not_sends_self
      · exact receiveSegment_occasion hw hdecode h hsends
  | expire entry =>
      cases hfires : e.fires (.expire entry) with
      | some event => exact hfired hfires
      | none =>
          rw [Sends, gives_of_not_fires hfires h] at hsends
          cases hsends
  | handleTimerExpiry event => exact hfired rfl

/-- A timer that rings has a report sent, with its own serial as that of the
checkpoint. -/
theorem Rings.sends {a : Action} {event : TimerEvent} {session : LtpSession} (hw : e.WellStored)
    (hrings : e.Rings event session) (hfires : e.fires a = some event)
    (h : e.exec a = .ok e') :
    ∃ rs, e.Sends e' (eventKey event) rs ∧ rs.checkpointSerial = event.serialNumber := by
  have hs := hw _ _ hrings.lookup
  obtain ⟨timerManager, hexec⟩ := exec_fires hfires
  rw [hexec, handleTimerExpiry, hrings.type] at h
  dsimp only at h
  rw [reportExpiry, show SessionKey.mk event.engineId event.sessionNumber = eventKey event from rfl,
    hrings.lookup] at h
  dsimp only at h
  rw [if_neg (not_not.mpr hs.active), if_neg (not_not.mpr hrings.role),
    if_pos (UInt64.pos_iff_ne_zero.mpr hrings.total)] at h
  have heffect := generateReport_effect h
  obtain ⟨rs, hreport, hserial⟩ := report_eq hs event.serialNumber session.totalDataLength
  refine ⟨rs, ?_, hserial⟩
  have hgives : e.gives e' = events [.send (reportSegment (eventKey event) rs)] :=
    hreport ▸ heffect.gives_eq
  rw [Sends, hgives, events_send]
  exact List.mem_cons_self

end LtpEngine

namespace Logged

open LtpEngine

variable {n : Logged} {a : Action} {e' : LtpEngine} {key : SessionKey}

/-! ## Runs -/

/-- The report that a timer is for answers the checkpoint with the report's
own serial. -/
structure Coincides (n : Logged) (event : TimerEvent) : Prop where
  heard : event.serialNumber ∈ n.heard (eventKey event)
  answered : ∀ rs, n.Reported (eventKey event) rs → rs.reportSerial = event.serialNumber →
    rs.checkpointSerial = event.serialNumber

/-- The timers that ring do so for such reports only. -/
def Coinciding (n : Logged) (a : Action) : Prop :=
  ∀ event session, n.engine.fires a = some event → n.engine.Rings event session →
    n.Coincides event

/-- Of one call: every report it sends answers a checkpoint that the session
received, and one that is sent again answers the same as before. -/
structure Answers (n : Logged) (a : Action) (e' : LtpEngine) : Prop where
  heard : ∀ key rs, n.engine.Sends e' key rs → rs.checkpointSerial ∈ (n.after a e').heard key
  again : ∀ event, n.engine.fires a = some event → event.type = .reportSegment →
    ∀ rs rs', n.Reported (eventKey event) rs → rs.reportSerial = event.serialNumber →
      n.engine.Sends e' (eventKey event) rs' → rs'.checkpointSerial = rs.checkpointSerial

/-- A timer hears nothing. -/
theorem heard_after_fires {event : TimerEvent} {session : LtpSession}
    (hfires : n.engine.fires a = some event)
    (hlookup : n.engine.sessions.lookup key = some session) :
    (n.after a e').heard key = n.heard key := by
  have hnone : (Entry.took a).heard key = none := by
    cases a with
    | receive bytes => cases hfires
    | startSession data reliable => rfl
    | cancelSession engineId sessionNumber reason => rfl
    | expire entry => rfl
    | handleTimerExpiry event => rfl
  rw [heard_after, hnone, since_of_live hlookup, heard, Option.toList_none, List.append_nil]

theorem Coinciding.answers (h : n.Coinciding a) (hw : n.engine.WellStored)
    (hexec : n.engine.exec a = .ok e') : n.Answers a e' where
  heard := by
    intro key rs hsends
    cases exec_occasion hw hexec hsends with
    | checkpoint hheard =>
        rw [heard_after, hheard]
        exact List.mem_append_right _ (List.mem_singleton_self _)
    | timer event session hfires hkey hrings hserial =>
        rw [hkey, heard_after_fires hfires hrings.lookup, hserial]
        exact (h event session hfires hrings).heard
  again := by
    intro event hfires _ rs rs' hreported hserial hsends
    cases exec_occasion hw hexec hsends with
    | checkpoint hheard =>
        cases a with
        | receive bytes => cases hfires
        | startSession data reliable => cases hheard
        | cancelSession engineId sessionNumber reason => cases hheard
        | expire entry => cases hheard
        | handleTimerExpiry event => cases hheard
    | timer event' session hfires' hkey hrings hserial' =>
        cases hfires.symm.trans hfires'
        rw [hserial', (h event session hfires hrings).answered rs hreported hserial]

theorem Answers.coinciding (h : n.Answers a e') (hw : n.engine.WellStored)
    (hexec : n.engine.exec a = .ok e') : n.Coinciding a := by
  intro event session hfires hrings
  obtain ⟨rs, hsends, hserial⟩ := hrings.sends hw hfires hexec
  refine ⟨?_, fun rs' hreported hrs' => ?_⟩
  · have hheard := h.heard _ rs hsends
    rwa [heard_after_fires hfires hrings.lookup, hserial] at hheard
  · rw [← h.again event hfires hrings.type rs' rs hreported hrs' hsends, hserial]

/-- Reports stay answers while the session is there. -/
theorem Answers.reported (h : n.Answers a e')
    (hn : ∀ key rs, n.Reported key rs → rs.checkpointSerial ∈ n.heard key) (key : SessionKey)
    (rs : ReportSegContent) (hreported : (n.after a e').Reported key rs) :
    rs.checkpointSerial ∈ (n.after a e').heard key := by
  rcases reported_after.mp hreported with hold | hnew
  · cases hlookup : n.engine.sessions.lookup key with
    | none =>
        rw [since_of_none hlookup] at hold
        cases hold
    | some session =>
        rw [since_of_live hlookup] at hold
        rw [heard_after, since_of_live hlookup]
        exact List.mem_append_left _ (hn key rs hold)
  · exact h.heard key rs hnew

/-- **Reports answer real checkpoints.** In a run in which report timers ring
only for reports whose serial is that of the checkpoint they answer, every
report that a session sent answers a checkpoint that it received. So do the
reports of the next call exactly if the condition holds for it. -/
theorem reports_answer_iff (config : LtpEngineConfig) (n : Logged)
    (h : (logged config).Reachable Coinciding n) :
    (∀ key rs, n.Reported key rs → rs.checkpointSerial ∈ n.heard key) ∧
      ∀ a e', n.engine.exec a = .ok e' → (n.Answers a e' ↔ n.Coinciding a) := by
  have hw := wellStored_of_logged h
  refine ⟨?_, fun a e' hexec => ⟨fun h => h.coinciding hw hexec, fun h => h.answers hw hexec⟩⟩
  refine h.invariant_of (P := fun n => ∀ key rs, n.Reported key rs →
    rs.checkpointSerial ∈ n.heard key) (fun n₀ hinit => ?_) fun n₁ a n₂ hreach hn hguard hstep => ?_
  · obtain ⟨timerManager, rfl⟩ := hinit
    intro key rs hmem
    cases hmem
  · obtain ⟨e', hexec, rfl⟩ := hstep
    exact (hguard.answers (wellStored_of_logged hreach) hexec).reported hn

/-- The only segment of a block of one byte. -/
def oneByteCheckpoint : LtpSegment :=
  { segmentType := SegType.redDataCpEorpEob, engineId := 2, sessionNumber := 1
    content := .data
      { clientServiceId := 1, offset := 0, length := 1, checkpointSerial := some 1
        reportSerial := some 0, data := [7] } }

/-- The timer of the session's report with this serial. -/
def reportTimer (serial : UInt64) : TimerEvent :=
  { type := .reportSegment, engineId := 2, sessionNumber := 1, serialNumber := serial }

/-- An engine with a timer manager, before anything happened. -/
def timedEngine : Logged := { engine := create {} (some {}) }

theorem receive_coinciding (n : Logged) (bytes : List UInt8) : n.Coinciding (.receive bytes) :=
  fun _ _ hfires => by cases hfires

/-- The first report has the serial of its checkpoint, and is sent again
right. -/
theorem reports_answer_iff_first : ∃ n : Logged,
    timedEngine.run [.receive oneByteCheckpoint.wire] = some n ∧
      ∀ e', n.engine.exec (.handleTimerExpiry (reportTimer 1)) = .ok e' →
        n.Answers (.handleTimerExpiry (reportTimer 1)) e' := by
  have hcheck : (timedEngine.run [.receive oneByteCheckpoint.wire]).any (fun n =>
      decide (n.heard ⟨2, 1⟩ = [1])) = true := by decide +kernel
  obtain ⟨n, hrun, hcheck⟩ := (Option.any_eq_true _ _).mp hcheck
  have hheard := of_decide_eq_true hcheck
  have hreach : (logged {}).Reachable Coinciding n := by
    refine reachable_of_run (.init ⟨some {}, rfl⟩) (fun a ha n => ?_) hrun
    rw [List.mem_singleton.mp ha]
    exact receive_coinciding n _
  obtain ⟨hreported, hiff⟩ := reports_answer_iff {} n hreach
  refine ⟨n, hrun, fun e' hexec => (hiff _ e' hexec).mpr fun event session hfires _ => ?_⟩
  cases hfires
  refine ⟨by rw [show eventKey (reportTimer 1) = ⟨2, 1⟩ from rfl, hheard]; decide,
    fun rs hrs _ => ?_⟩
  have hmem := hreported _ rs hrs
  rw [show eventKey (reportTimer 1) = ⟨2, 1⟩ from rfl, hheard] at hmem
  exact List.mem_singleton.mp hmem

/-- The checkpoint comes twice, and is answered twice; the timer of the second
report has the report made for a checkpoint 2. -/
theorem reports_answer_wrong : ¬ ∀ (config : LtpEngineConfig) (n : Logged),
    (logged config).Reachable System.free n → n.engine.timerManager.isSome →
      ∀ a e', n.engine.exec a = .ok e' → n.Answers a e' := by
  intro h
  have hcheck : (timedEngine.run
      [.receive oneByteCheckpoint.wire, .receive oneByteCheckpoint.wire]).any (fun n =>
        decide (n.heard ⟨2, 1⟩ = [1, 1]) && n.engine.timerManager.any (fun tm =>
          tm.heap.any fun entry => decide (entry.event = reportTimer 2 ∧
            entry.timerId ∉ tm.cancelled) && (n.engine.exec (.expire entry)).toOption.isSome) &&
        (n.engine.sessions.lookup ⟨2, 1⟩).any (fun session =>
          decide (session.role = .receiver ∧ session.totalDataLength ≠ 0))) = true := by
    decide +kernel
  obtain ⟨n, hrun, hcheck⟩ := (Option.any_eq_true _ _).mp hcheck
  rw [Bool.and_eq_true, Bool.and_eq_true] at hcheck
  obtain ⟨⟨hheard, htimers⟩, hsession⟩ := hcheck
  obtain ⟨tm, hmanager, hentry⟩ := (Option.any_eq_true _ _).mp htimers
  obtain ⟨entry, hmem, hentry⟩ := List.any_eq_true.mp hentry
  rw [Bool.and_eq_true] at hentry
  obtain ⟨hevent, hlive⟩ := of_decide_eq_true hentry.1
  obtain ⟨e', hexec⟩ := Option.isSome_iff_exists.mp hentry.2
  obtain ⟨session, hlookup, hsession⟩ := (Option.any_eq_true _ _).mp hsession
  obtain ⟨hrole, htotal⟩ := of_decide_eq_true hsession
  have hreach : (logged {}).Reachable System.free n :=
    reachable_of_run (.init ⟨some {}, rfl⟩) (fun _ _ _ => trivial) hrun
  have hanswers := h {} n hreach (by rw [hmanager]; rfl) (.expire entry) e'
    (eq_ok_of_toOption hexec)
  have hfires : n.engine.fires (.expire entry) = some (reportTimer 2) := by
    rw [fires, hmanager]
    dsimp only
    rw [if_pos hmem, TimerManager.popEntry, if_neg hlive, hevent]
  have hcoincides := hanswers.coinciding (wellStored_of_logged hreach) (eq_ok_of_toOption hexec)
    (reportTimer 2) session hfires ⟨rfl, hlookup, hrole, htotal⟩
  have hmem := hcoincides.heard
  rw [show eventKey (reportTimer 2) = ⟨2, 1⟩ from rfl, of_decide_eq_true hheard] at hmem
  exact absurd hmem (by decide)

end Logged

end QpskB210.Ltp
