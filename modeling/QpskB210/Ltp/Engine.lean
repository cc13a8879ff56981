import Mathlib.Data.List.AList
import QpskB210.Ltp.Config
import QpskB210.Ltp.Session
import QpskB210.Ltp.TimerManager

/-!
# LTP — Engine

`LtpEngine` as a state and its entry points as functions on it. A call that
leaves by an exception has no result state: nothing above the engine catches
one, so the process ends there.

The callbacks' calls are kept in order in `trace`. A session is erased in the
step that completes or cancels it, so a table never holds a session in a
state other than ACTIVE.
-/

namespace QpskB210.Ltp

structure LtpDiagnostics where
  sessionsOriginated : UInt64 := 0
  sessionsReceived : UInt64 := 0
  sessionsCompleted : UInt64 := 0
  sessionsCancelled : UInt64 := 0
  redSegmentsSent : UInt64 := 0
  redSegmentsReceived : UInt64 := 0
  greenSegmentsSent : UInt64 := 0
  greenSegmentsReceived : UInt64 := 0
  checkpointsSent : UInt64 := 0
  reportsReceived : UInt64 := 0
  reportsSent : UInt64 := 0
  reportAcksSent : UInt64 := 0
  reportAcksReceived : UInt64 := 0
  retransmissions : UInt64 := 0
  cancelSegmentsSent : UInt64 := 0
  cancelSegmentsReceived : UInt64 := 0
deriving DecidableEq, Repr

/-- One call of a callback. The key is not an argument of the callback: it
says for which session the call was made. -/
inductive Event where
  | sendSegment (encodedSegment : List UInt8)
  | dataArrival (key : SessionKey) (data : List UInt8)
  | sessionComplete (key : SessionKey) (sessionNumber : UInt64)
  | sessionFailure (key : SessionKey) (sessionNumber : UInt64) (reason : UInt8)
deriving DecidableEq, Repr

/-- `std::unordered_map<SessionKey, LtpSession>`. -/
abbrev SessionTable : Type := AList fun _ : SessionKey => LtpSession

/-- `std::unordered_map<uint64_t, uint64_t>`, from timer keys to timer ids. -/
abbrev TimerTable : Type := AList fun _ : UInt64 => UInt64

/-- The engine is the only client of its timer manager. -/
structure LtpEngine where
  config : LtpEngineConfig
  sessionCounter : UInt64 := 0
  sessions : SessionTable := ∅
  diagnostics : LtpDiagnostics := {}
  timerManager : Option TimerManager := none
  checkpointTimers : TimerTable := ∅
  reportTimers : TimerTable := ∅
  trace : List Event := []

/-- `(session_number << 32) | (serial & 0xFFFFFFFF)` -/
def timerKey (sessionNumber serial : UInt64) : UInt64 :=
  (sessionNumber <<< 32) ||| (serial &&& 0xFFFFFFFF)

/-! ## Segmentation -/

/-- A segment of the session with data content. -/
def LtpSession.dataSegment (session : LtpSession) (type : UInt8) (ds : DataSegContent) :
    LtpSegment :=
  { segmentType := type, engineId := session.engineId, sessionNumber := session.sessionNumber,
    content := .data ds }

/-- The loop body of `segment_data_impl`, with the advanced `cp_serial_out`. -/
def chunkSegment (session : LtpSession) (offset chunk : Nat) (isLast : Bool) (cpSerial : UInt64) :
    LtpSegment × UInt64 :=
  let ds : DataSegContent :=
    { clientServiceId := 1, offset := UInt64.ofNat offset, length := UInt64.ofNat chunk,
      data := (session.clientData.drop offset).take chunk }
  if session.isRed then
    if isLast then
      (session.dataSegment SegType.redDataCpEorpEob
        { ds with checkpointSerial := some (cpSerial + 1), reportSerial := some 0 }, cpSerial + 1)
    else (session.dataSegment SegType.redData ds, cpSerial)
  else
    (session.dataSegment (if isLast then SegType.greenDataEob else SegType.greenData) ds, cpSerial)

/-- `while (remaining > 0)`; the first argument bounds the iterations. -/
def segmentLoop (session : LtpSession) (maxSeg : Nat) :
    Nat → Nat → Nat → UInt64 → List LtpSegment × UInt64
  | 0, _, _, cpSerial => ([], cpSerial)
  | fuel + 1, offset, remaining, cpSerial =>
    if remaining = 0 then ([], cpSerial)
    else
      let chunk := min maxSeg remaining
      let (segment, cpSerial) := chunkSegment session offset chunk (chunk = remaining) cpSerial
      let (segments, cpSerial) :=
        segmentLoop session maxSeg fuel (offset + chunk) (remaining - chunk) cpSerial
      (segment :: segments, cpSerial)

/-- `segment_data_impl`: the segments and the advanced checkpoint counter.
An empty block gives one empty last segment. With a segment size of 0 the
loop never advances, and fills the memory with empty segments. -/
def segmentDataImpl (session : LtpSession) (maxSeg : UInt32) (cpSerial : UInt64) :
    Except Exn (List LtpSegment × UInt64) :=
  if session.clientData.isEmpty then
    let (segment, cpSerial) := chunkSegment session 0 0 true cpSerial
    .ok ([segment], cpSerial)
  else if maxSeg = 0 then .error .badAlloc
  else
    let size := session.clientData.length
    .ok (segmentLoop session maxSeg.toNat size 0 size cpSerial)

/-- The gap loop of `retransmit_gaps`, for one gap. -/
def gapLoop (session : LtpSession) (maxSeg : Nat) :
    Nat → Nat → Nat → Except Exn (List LtpSegment)
  | 0, _, _ => .ok []
  | fuel + 1, offset, remaining =>
    if remaining = 0 then .ok []
    else do
      let chunk := min maxSeg remaining
      let data ← assignRange session.clientData offset (offset + chunk)
      let segments ← gapLoop session maxSeg fuel (offset + chunk) (remaining - chunk)
      pure (session.dataSegment SegType.redData
        { clientServiceId := 1, offset := UInt64.ofNat offset, length := UInt64.ofNat chunk,
          data := data } :: segments)

/-- The segments for all gaps, before the last one becomes a checkpoint. -/
def gapSegments (session : LtpSession) (maxSeg : UInt32) :
    List ReceptionClaim → Except Exn (List LtpSegment)
  | [] => .ok []
  | gap :: gaps => do
    let segments ←
      if maxSeg = 0 ∧ gap.length ≠ 0 then .error .badAlloc
      else gapLoop session maxSeg.toNat gap.length.toNat gap.offset.toNat gap.length.toNat
    let rest ← gapSegments session maxSeg gaps
    pure (segments ++ rest)

/-- Turn a data segment into a checkpoint: `RED_DATA_CP`, not EORP. -/
def asCheckpoint (serial : UInt64) (segment : LtpSegment) : Except Exn LtpSegment := do
  let ds ← segment.content.getData
  pure { segment with
    segmentType := SegType.redDataCp
    content := .data { ds with checkpointSerial := some serial, reportSerial := some 0 } }

/-- Mark the last segment as a checkpoint. -/
def markLast (serial : UInt64) : List LtpSegment → Except Exn (List LtpSegment)
  | [] => .ok []
  | [last] => do
    let last ← asCheckpoint serial last
    pure [last]
  | segment :: segments => do
    let segments ← markLast serial segments
    pure (segment :: segments)

/-- `compute_gaps`: unreported byte ranges within `[lower, upper)`. -/
def computeGaps (claims : List ReceptionClaim) (lower upper : UInt64) : List ReceptionClaim :=
  ReceptionTracker.gapsFrom upper lower claims

/-- The originator's test for full coverage. -/
def fullyReceived (session : LtpSession) (rs : ReportSegContent) : Bool :=
  if session.totalDataLength = 0 then true
  else
    match rs.claims with
    | [claim] => claim.offset = 0 && claim.length ≥ session.totalDataLength
    | _ => false

/-- What `send_segment` counts. -/
def LtpDiagnostics.sent (d : LtpDiagnostics) (type : UInt8) : LtpDiagnostics :=
  if SegType.isRed type then
    let d := { d with redSegmentsSent := d.redSegmentsSent + 1 }
    if SegType.hasCheckpoint type then { d with checkpointsSent := d.checkpointsSent + 1 } else d
  else if SegType.isGreen type then { d with greenSegmentsSent := d.greenSegmentsSent + 1 }
  else if type = SegType.reportSegment then { d with reportsSent := d.reportsSent + 1 }
  else if type = SegType.reportAck then { d with reportAcksSent := d.reportAcksSent + 1 }
  else if type = SegType.cancelBySender ∨ type = SegType.cancelByReceiver then
    { d with cancelSegmentsSent := d.cancelSegmentsSent + 1 }
  else d

/-- What `receive_data_segment` counts. -/
def LtpDiagnostics.received (d : LtpDiagnostics) (type : UInt8) : LtpDiagnostics :=
  if SegType.isRed type then { d with redSegmentsReceived := d.redSegmentsReceived + 1 }
  else { d with greenSegmentsReceived := d.greenSegmentsReceived + 1 }

namespace LtpEngine

/-! ## State access -/

/-- `sessions_.size()` -/
def sessionCount (e : LtpEngine) : Nat := e.sessions.keys.length

/-- `sessions_.size() >= config_.max_concurrent_sessions` -/
def isFull (e : LtpEngine) : Bool := e.config.maxConcurrentSessions.toNat ≤ e.sessionCount

def putSession (e : LtpEngine) (key : SessionKey) (session : LtpSession) : LtpEngine :=
  { e with sessions := e.sessions.insert key session }

def eraseSession (e : LtpEngine) (key : SessionKey) : LtpEngine :=
  { e with sessions := e.sessions.erase key }

def count (e : LtpEngine) (f : LtpDiagnostics → LtpDiagnostics) : LtpEngine :=
  { e with diagnostics := f e.diagnostics }

/-- Call a callback. -/
def emit (e : LtpEngine) (event : Event) : LtpEngine := { e with trace := e.trace ++ [event] }

/-- The key of the engine's own session with this number. -/
def localKey (e : LtpEngine) (sessionNumber : UInt64) : SessionKey :=
  { engineId := e.config.localEngineId, sessionNumber := sessionNumber }

/-! ## send_segment -/

def startCheckpointTimer (e : LtpEngine) (tm : TimerManager) (event : TimerEvent) : LtpEngine :=
  let (tm, tid) := tm.startTimer e.config.retransmissionTimeoutMs.toNat event
  { e with
    timerManager := some tm
    checkpointTimers :=
      e.checkpointTimers.insert (timerKey event.sessionNumber event.serialNumber) tid }

def startReportTimer (e : LtpEngine) (tm : TimerManager) (event : TimerEvent) : LtpEngine :=
  let (tm, tid) := tm.startTimer e.config.retransmissionTimeoutMs.toNat event
  { e with
    timerManager := some tm
    reportTimers :=
      e.reportTimers.insert (timerKey event.sessionNumber event.serialNumber) tid }

/-- The retransmission timer of a checkpoint or a report. -/
def startSegmentTimer (e : LtpEngine) (seg : LtpSegment) : Except Exn LtpEngine :=
  match e.timerManager with
  | none => .ok e
  | some tm =>
    if SegType.hasCheckpoint seg.segmentType then do
      let ds ← seg.content.getData
      match ds.checkpointSerial with
      | none => pure e
      | some serial => pure (e.startCheckpointTimer tm
          { type := .checkpoint, engineId := seg.engineId, sessionNumber := seg.sessionNumber,
            serialNumber := serial })
    else if seg.segmentType = SegType.reportSegment then do
      let rs ← seg.content.getReport
      pure (e.startReportTimer tm
        { type := .reportSegment, engineId := seg.engineId, sessionNumber := seg.sessionNumber,
          serialNumber := rs.reportSerial })
    else .ok e

/-- `send_segment`: encode and send via callback. -/
def sendSegment (e : LtpEngine) (seg : LtpSegment) : Except Exn LtpEngine := do
  let e ← (e.count fun d => d.sent seg.segmentType).startSegmentTimer seg
  let bytes ← seg.encode
  pure (e.emit (.sendSegment bytes))

def sendSegments (e : LtpEngine) (segments : List LtpSegment) : Except Exn LtpEngine :=
  segments.foldlM sendSegment e

/-! ## start_session -/

/-- `segment_data`: the segments, and the session with its counter advanced. -/
def segmentData (e : LtpEngine) (session : LtpSession) :
    Except Exn (List LtpSegment × LtpSession) := do
  let (segments, cpSerial) ←
    segmentDataImpl session e.config.maxSegmentSize session.checkpointSerialCounter
  pure (segments, { session with checkpointSerialCounter := cpSerial })

/-- `segment_data_readonly`: the counter it advances is a copy. -/
def segmentDataReadonly (e : LtpEngine) (session : LtpSession) : Except Exn (List LtpSegment) := do
  let (segments, _) ←
    segmentDataImpl session e.config.maxSegmentSize session.checkpointSerialCounter
  pure segments

/-- The session that `start_session` sets up. -/
def originatorSession (e : LtpEngine) (sn : UInt64) (data : List UInt8) (reliable : Bool) :
    LtpSession :=
  { engineId := e.config.localEngineId, sessionNumber := sn, role := .originator, state := .active,
    totalDataLength := UInt64.ofNat data.length, isRed := reliable, clientData := data }

/-- `sessions_.emplace(key, session)` and the lookup of `key` after it: a
session that is already there stays. -/
def emplaceSession (e : LtpEngine) (key : SessionKey) (session : LtpSession) :
    LtpEngine × LtpSession :=
  match e.sessions.lookup key with
  | some held => (e, held)
  | none => (e.putSession key session, session)

/-- `start_session`, with the session number it returns. -/
def startSession (e : LtpEngine) (data : Block) (reliable : Bool) :
    Except Exn (LtpEngine × UInt64) :=
  if e.isFull then .ok (e, 0)
  else do
    let sn := e.sessionCounter + 1
    let key := e.localKey sn
    let e := { e with sessionCounter := sn }
    let (e, session) := e.emplaceSession key (e.originatorSession sn data.bytes reliable)
    let e := e.count fun d => { d with sessionsOriginated := d.sessionsOriginated + 1 }
    let (segments, session) ← e.segmentData session
    let e ← (e.putSession key session).sendSegments segments
    if reliable then pure (e, sn)
    else
      let e := e.eraseSession key
      pure (e.count fun d => { d with sessionsCompleted := d.sessionsCompleted + 1 }, sn)

/-! ## receive_data_segment -/

/-- `generate_report`: build and send a report segment for a checkpoint. -/
def generateReport (e : LtpEngine) (key : SessionKey) (session : LtpSession)
    (checkpointSerial upperBound : UInt64) : Except Exn LtpEngine :=
  let session := { session with reportSerialCounter := session.reportSerialCounter + 1 }
  let rs : ReportSegContent :=
    { reportSerial := session.reportSerialCounter, checkpointSerial := checkpointSerial,
      upperBound := upperBound, lowerBound := 0, claims := session.receptionTracker.ranges }
  (e.putSession key session).sendSegment
    { segmentType := SegType.reportSegment, engineId := session.engineId,
      sessionNumber := session.sessionNumber, content := .report rs }

/-- Deliver the reassembled data, trimmed to `total_data_length`, and erase
the session. -/
def deliver (e : LtpEngine) (key : SessionKey) (session : LtpSession) : Except Exn LtpEngine := do
  let e := e.count fun d => { d with sessionsCompleted := d.sessionsCompleted + 1 }
  let delivered ← assignRange session.clientData 0 session.totalDataLength.toNat
  pure ((e.emit (.dataArrival key delivered)).eraseSession key)

/-- The new receiver session for a first data segment. -/
def receiverSession (seg : LtpSegment) : LtpSession :=
  { engineId := seg.engineId, sessionNumber := seg.sessionNumber, role := .receiver,
    state := .active, isRed := SegType.isRed seg.segmentType }

/-- If this is a checkpoint, generate a report segment. -/
def reportCheckpoint (e : LtpEngine) (key : SessionKey) (session : LtpSession) (seg : LtpSegment)
    (ds : DataSegContent) : Except Exn LtpEngine :=
  match SegType.hasCheckpoint seg.segmentType, ds.checkpointSerial with
  | true, some serial => e.generateReport key session serial (ds.offset + ds.length)
  | _, _ => .ok e

/-- `receive_data_segment`, once the session is there. -/
def acceptData (e : LtpEngine) (key : SessionKey) (session : LtpSession) (seg : LtpSegment)
    (ds : DataSegContent) : Except Exn LtpEngine :=
  if session.state ≠ .active then .ok e
  else do
    let e := e.count fun d => d.received seg.segmentType
    let session ← session.store seg.segmentType ds
    let e := e.putSession key session
    let e ← e.reportCheckpoint key session seg ds
    if SegType.isGreen seg.segmentType && SegType.hasEob seg.segmentType then
      e.deliver key session
    else .ok e

/-- `receive_data_segment`. -/
def receiveDataSegment (e : LtpEngine) (seg : LtpSegment) : Except Exn LtpEngine := do
  let ds ← seg.content.getData
  let key : SessionKey := { engineId := seg.engineId, sessionNumber := seg.sessionNumber }
  match e.sessions.lookup key with
  | some session => e.acceptData key session seg ds
  | none =>
    if e.isFull then pure e
    else
      let session := receiverSession seg
      let e := e.putSession key session
      let e := e.count fun d => { d with sessionsReceived := d.sessionsReceived + 1 }
      e.acceptData key session seg ds

/-! ## cancel_session -/

/-- `cancel_session`. -/
def cancelSession (e : LtpEngine) (engineId sessionNumber : UInt64) (reason : UInt8) :
    Except Exn LtpEngine :=
  let key : SessionKey := { engineId := engineId, sessionNumber := sessionNumber }
  match e.sessions.lookup key with
  | none => .ok e
  | some session => do
    let type :=
      if session.role = .originator then SegType.cancelBySender else SegType.cancelByReceiver
    let e ← e.sendSegment
      { segmentType := type, engineId := engineId, sessionNumber := sessionNumber,
        content := .cancel { reasonCode := reason } }
    let e := e.count fun d => { d with sessionsCancelled := d.sessionsCancelled + 1 }
    pure ((e.emit (.sessionFailure key sessionNumber reason)).eraseSession key)

/-! ## receive_report_segment -/

/-- `send_report_ack`. -/
def sendReportAck (e : LtpEngine) (engineId sessionNumber reportSerial : UInt64) :
    Except Exn LtpEngine :=
  e.sendSegment
    { segmentType := SegType.reportAck, engineId := engineId, sessionNumber := sessionNumber,
      content := .rptAck { reportSerial := reportSerial } }

/-- Cancel the timer kept under the key, if there is one. -/
def cancelCheckpointTimer (e : LtpEngine) (key : UInt64) : LtpEngine :=
  match e.checkpointTimers.lookup key with
  | none => e
  | some tid =>
    { e with
      timerManager := e.timerManager.map fun tm => tm.cancelTimer tid
      checkpointTimers := e.checkpointTimers.erase key }

def cancelReportTimer (e : LtpEngine) (key : UInt64) : LtpEngine :=
  match e.reportTimers.lookup key with
  | none => e
  | some tid =>
    { e with
      timerManager := e.timerManager.map fun tm => tm.cancelTimer tid
      reportTimers := e.reportTimers.erase key }

/-- `retransmit_gaps`: resend data for gap ranges with a new checkpoint. -/
def retransmitGaps (e : LtpEngine) (key : SessionKey) (session : LtpSession)
    (gaps : List ReceptionClaim) : Except Exn LtpEngine := do
  let segments ← gapSegments session e.config.maxSegmentSize gaps
  let serial := session.checkpointSerialCounter + 1
  let marked ← markLast serial segments
  let session :=
    if segments.isEmpty then session else { session with checkpointSerialCounter := serial }
  (e.putSession key session).sendSegments marked

/-- `session.retransmission_count++` -/
def attempted (session : LtpSession) : LtpSession :=
  { session with retransmissionCount := session.retransmissionCount + 1 }

/-- What both retransmission triggers do: count the attempt, and give up or
resend. -/
def retransmit (e : LtpEngine) (key : SessionKey) (session : LtpSession)
    (resend : LtpEngine → LtpSession → Except Exn LtpEngine) : Except Exn LtpEngine :=
  let session := attempted session
  let e := e.putSession key session
  if e.config.maxRetransmissions < session.retransmissionCount then
    e.cancelSession session.engineId session.sessionNumber 0x01
  else resend (e.count fun d => { d with retransmissions := d.retransmissions + 1 }) session

/-- The originator's answer to a report, after the acknowledgment. -/
def answerReport (e : LtpEngine) (key : SessionKey) (session : LtpSession)
    (rs : ReportSegContent) : Except Exn LtpEngine :=
  if fullyReceived session rs then
    let e := e.count fun d => { d with sessionsCompleted := d.sessionsCompleted + 1 }
    .ok ((e.emit (.sessionComplete key session.sessionNumber)).eraseSession key)
  else
    let gaps := computeGaps rs.claims rs.lowerBound rs.upperBound
    -- claims cover the scope but not the full block: wait for more reports
    if gaps.isEmpty then .ok e
    else e.retransmit key session fun e session => e.retransmitGaps key session gaps

/-- `receive_report_segment`: the originator handles an incoming report. -/
def receiveReportSegment (e : LtpEngine) (seg : LtpSegment) : Except Exn LtpEngine := do
  let e := e.count fun d => { d with reportsReceived := d.reportsReceived + 1 }
  let rs ← seg.content.getReport
  let key := e.localKey seg.sessionNumber
  match e.sessions.lookup key with
  | none => e.sendReportAck seg.engineId seg.sessionNumber rs.reportSerial
  | some session =>
    if session.role ≠ .originator then pure e
    else if session.state ≠ .active then pure e
    else do
      let e ← e.sendReportAck seg.engineId seg.sessionNumber rs.reportSerial
      let e := e.cancelCheckpointTimer (timerKey seg.sessionNumber rs.checkpointSerial)
      e.answerReport key session rs

/-! ## receive_report_ack -/

/-- `receive_report_ack`: the receiver handles an incoming report-ack. -/
def receiveReportAck (e : LtpEngine) (seg : LtpSegment) : Except Exn LtpEngine := do
  let e := e.count fun d => { d with reportAcksReceived := d.reportAcksReceived + 1 }
  let ra ← seg.content.getRptAck
  let key : SessionKey := { engineId := seg.engineId, sessionNumber := seg.sessionNumber }
  match e.sessions.lookup key with
  | none => pure e
  | some session =>
    if session.role ≠ .receiver then pure e
    else
      let e := e.cancelReportTimer (timerKey seg.sessionNumber ra.reportSerial)
      if session.receptionTracker.isComplete session.totalDataLength then e.deliver key session
      else pure e

/-! ## handle_timer_expiry -/

/-- Resend the entire block, the last segment as a new checkpoint. -/
def resendBlock (e : LtpEngine) (key : SessionKey) (session : LtpSession) :
    Except Exn LtpEngine := do
  let (segments, session) ← e.segmentData session
  (e.putSession key session).sendSegments segments

/-- A checkpoint timer expired. -/
def checkpointExpiry (e : LtpEngine) (event : TimerEvent) : Except Exn LtpEngine :=
  let key := e.localKey event.sessionNumber
  match e.sessions.lookup key with
  | none => .ok e
  | some session =>
    if session.state ≠ .active then .ok e
    else if session.role ≠ .originator then .ok e
    else e.retransmit key session fun e session => e.resendBlock key session

/-- A report timer expired: resend the report, with the reception state of
now and for the serial the timer carries. -/
def reportExpiry (e : LtpEngine) (event : TimerEvent) : Except Exn LtpEngine :=
  let key : SessionKey := { engineId := event.engineId, sessionNumber := event.sessionNumber }
  match e.sessions.lookup key with
  | none => .ok e
  | some session =>
    if session.state ≠ .active then .ok e
    else if session.role ≠ .receiver then .ok e
    else
      let e := e.count fun d => { d with retransmissions := d.retransmissions + 1 }
      if 0 < session.totalDataLength then
        e.generateReport key session event.serialNumber session.totalDataLength
      else .ok e

/-- `handle_timer_expiry`. -/
def handleTimerExpiry (e : LtpEngine) (event : TimerEvent) : Except Exn LtpEngine :=
  match event.type with
  | .checkpoint => e.checkpointExpiry event
  | .reportSegment => e.reportExpiry event
  | .cancelSegment => .ok e

/-! ## receive_cancel_segment -/

/-- `receive_cancel_segment`: the ack goes out whether or not the session is
known, and no role is checked. -/
def receiveCancelSegment (e : LtpEngine) (seg : LtpSegment) : Except Exn LtpEngine := do
  let e := e.count fun d => { d with cancelSegmentsReceived := d.cancelSegmentsReceived + 1 }
  let cc ← seg.content.getCancel
  let type :=
    if seg.segmentType = SegType.cancelBySender then SegType.cancelAckToSender
    else SegType.cancelAckToReceiver
  let e ← e.sendSegment
    { segmentType := type, engineId := seg.engineId, sessionNumber := seg.sessionNumber,
      content := .cancel { reasonCode := 0 } }
  let key : SessionKey := { engineId := seg.engineId, sessionNumber := seg.sessionNumber }
  match e.sessions.lookup key with
  | none => pure e
  | some session =>
    let e := e.count fun d => { d with sessionsCancelled := d.sessionsCancelled + 1 }
    pure ((e.emit (.sessionFailure key session.sessionNumber cc.reasonCode)).eraseSession key)

/-- `receive_cancel_ack`: clean up a cancelled session if it is still there. -/
def receiveCancelAck (e : LtpEngine) (seg : LtpSegment) : LtpEngine :=
  let key : SessionKey := { engineId := seg.engineId, sessionNumber := seg.sessionNumber }
  match e.sessions.lookup key with
  | none => e
  | some session => if session.state = .cancelled then e.eraseSession key else e

/-! ## receive_segment -/

/-- `receive_segment`: process an incoming segment. -/
def receiveSegment (e : LtpEngine) (seg : LtpSegment) : Except Exn LtpEngine :=
  if SegType.isData seg.segmentType then e.receiveDataSegment seg
  else if seg.segmentType = SegType.reportSegment then e.receiveReportSegment seg
  else if seg.segmentType = SegType.reportAck then e.receiveReportAck seg
  else if seg.segmentType = SegType.cancelBySender ∨ seg.segmentType = SegType.cancelByReceiver then
    e.receiveCancelSegment seg
  else if seg.segmentType = SegType.cancelAckToSender ∨
      seg.segmentType = SegType.cancelAckToReceiver then
    .ok (e.receiveCancelAck seg)
  else .ok e

/-- What arrives from the link: bytes, decoded and handed to the engine. -/
def receiveBytes (e : LtpEngine) (bytes : List UInt8) : Except Exn LtpEngine := do
  match ← LtpSegment.decode bytes with
  | some seg => e.receiveSegment seg
  | none => pure e

/-- An expired entry of the timer manager: its event is handled unless it
was cancelled. -/
def timerExpiry (e : LtpEngine) (tm : TimerManager) (entry : TimerEntry) : Except Exn LtpEngine :=
  let (tm, fired) := tm.popEntry entry
  let e := { e with timerManager := some tm }
  match fired with
  | some event => e.handleTimerExpiry event
  | none => .ok e

end LtpEngine

end QpskB210.Ltp
