import QpskB210.Ltp.Engine

/-!
# LTP — Engine effects

What each entry point of the engine does. A call works on one session key:
`Effect` says what the table holds under that key afterwards, that every
other key is left alone, what the call did to the outside (`Act`: segments
sent, callbacks called, timers cancelled) and by how much the retransmission
counter grew. There is one case lemma per handler, assembled from the effects
of the primitive steps; later proofs cite these and unfold no handler.
-/

namespace QpskB210.Ltp

open QpskB210.Lib

/-- The bytes a segment is sent as. -/
def LtpSegment.wire (seg : LtpSegment) : List UInt8 :=
  match seg.encode with
  | .ok bytes => bytes
  | .error _ => []

theorem LtpSegment.wire_eq {seg : LtpSegment} {bytes : List UInt8} (h : seg.encode = .ok bytes) :
    seg.wire = bytes := by
  rw [wire, h]

/-- What a call does besides changing the table: send a segment (with the
timer that starts), call another callback, or cancel the timer kept under a
timer key. -/
inductive Act where
  | send (seg : LtpSegment)
  | call (event : Event)
  | cancelCheckpoint (timer : UInt64)
  | cancelReport (timer : UInt64)

/-- The callback call of an act. -/
def Act.event : Act → Option Event
  | .send seg => some (.sendSegment seg.wire)
  | .call event => some event
  | _ => none

/-- The callback calls of some acts, in order. -/
def events (acts : List Act) : List Event := acts.filterMap Act.event

@[simp] theorem events_nil : events [] = [] := rfl

@[simp] theorem events_send (seg : LtpSegment) (acts : List Act) :
    events (.send seg :: acts) = .sendSegment seg.wire :: events acts := rfl

@[simp] theorem events_call (event : Event) (acts : List Act) :
    events (.call event :: acts) = event :: events acts := rfl

@[simp] theorem events_cancelCheckpoint (timer : UInt64) (acts : List Act) :
    events (.cancelCheckpoint timer :: acts) = events acts := rfl

@[simp] theorem events_cancelReport (timer : UInt64) (acts : List Act) :
    events (.cancelReport timer :: acts) = events acts := rfl

@[simp] theorem events_append (acts acts' : List Act) :
    events (acts ++ acts') = events acts ++ events acts' :=
  List.filterMap_append

@[simp] theorem events_map_send (segments : List LtpSegment) :
    events (segments.map Act.send) = segments.map fun seg => .sendSegment seg.wire := by
  induction segments with
  | nil => rfl
  | cons seg segments ih => rw [List.map_cons, events_send, ih, List.map_cons]

/-- The timer state of an engine. -/
structure Timers where
  manager : Option TimerManager
  checkpoint : TimerTable
  report : TimerTable

def LtpEngine.timers (e : LtpEngine) : Timers :=
  { manager := e.timerManager, checkpoint := e.checkpointTimers, report := e.reportTimers }

namespace Timers

/-- Start a timer and keep its id under the event's timer key. -/
def start (t : Timers) (timeout : Nat) (event : TimerEvent) : Timers :=
  match t.manager with
  | none => t
  | some tm =>
    let (tm, tid) := tm.startTimer timeout event
    let key := timerKey event.sessionNumber event.serialNumber
    match event.type with
    | .checkpoint => { t with manager := some tm, checkpoint := t.checkpoint.insert key tid }
    | _ => { t with manager := some tm, report := t.report.insert key tid }

def cancelCheckpoint (t : Timers) (timer : UInt64) : Timers :=
  match t.checkpoint.lookup timer with
  | none => t
  | some tid =>
    { t with
      manager := t.manager.map fun tm => tm.cancelTimer tid
      checkpoint := t.checkpoint.erase timer }

def cancelReport (t : Timers) (timer : UInt64) : Timers :=
  match t.report.lookup timer with
  | none => t
  | some tid =>
    { t with
      manager := t.manager.map fun tm => tm.cancelTimer tid
      report := t.report.erase timer }

end Timers

/-- The event of the timer that sending a segment starts. -/
def LtpSegment.timerEvent (seg : LtpSegment) : Option TimerEvent :=
  match seg.content with
  | .data ds =>
    if SegType.hasCheckpoint seg.segmentType then
      ds.checkpointSerial.map fun serial =>
        { type := .checkpoint, engineId := seg.engineId, sessionNumber := seg.sessionNumber,
          serialNumber := serial }
    else none
  | .report rs =>
    if seg.segmentType = SegType.reportSegment then
      some { type := .reportSegment, engineId := seg.engineId, sessionNumber := seg.sessionNumber,
             serialNumber := rs.reportSerial }
    else none
  | _ => none

theorem LtpSegment.timerEvent_of_data {seg : LtpSegment} {ds : DataSegContent}
    (h : seg.content = .data ds) (hcp : SegType.hasCheckpoint seg.segmentType = true) :
    seg.timerEvent = ds.checkpointSerial.map fun serial =>
      { type := .checkpoint, engineId := seg.engineId, sessionNumber := seg.sessionNumber,
        serialNumber := serial } := by
  rw [timerEvent, h]
  exact if_pos hcp

theorem LtpSegment.timerEvent_of_report {seg : LtpSegment} {rs : ReportSegContent}
    (h : seg.content = .report rs) (htype : seg.segmentType = SegType.reportSegment) :
    seg.timerEvent = some
      { type := .reportSegment, engineId := seg.engineId, sessionNumber := seg.sessionNumber,
        serialNumber := rs.reportSerial } := by
  rw [timerEvent, h]
  exact if_pos htype

theorem LtpSegment.timerEvent_eq_none {seg : LtpSegment}
    (hcp : SegType.hasCheckpoint seg.segmentType = false)
    (htype : seg.segmentType ≠ SegType.reportSegment) : seg.timerEvent = none := by
  rw [timerEvent]
  cases seg.content with
  | data ds => exact if_neg (by simp [hcp])
  | report rs => exact if_neg htype
  | rptAck ra => rfl
  | cancel cc => rfl

theorem Timers.start_of_none {t : Timers} (h : t.manager = none) (timeout : Nat)
    (event : TimerEvent) : t.start timeout event = t := by
  unfold Timers.start
  rw [h]

/-- What an act does to the timers. -/
def Act.time (timeout : Nat) (t : Timers) : Act → Timers
  | .send seg =>
    match seg.timerEvent with
    | none => t
    | some event => t.start timeout event
  | .call _ => t
  | .cancelCheckpoint timer => t.cancelCheckpoint timer
  | .cancelReport timer => t.cancelReport timer

theorem Act.time_send_of_none {seg : LtpSegment} (h : seg.timerEvent = none) (timeout : Nat)
    (t : Timers) : Act.time timeout t (.send seg) = t := by
  rw [Act.time, h]

theorem Act.time_send_of_some {seg : LtpSegment} {event : TimerEvent}
    (h : seg.timerEvent = some event) (timeout : Nat) (t : Timers) :
    Act.time timeout t (.send seg) = t.start timeout event := by
  rw [Act.time, h]

/-- What acts, done in order, do to the timers. -/
def timed (timeout : Nat) (acts : List Act) (t : Timers) : Timers :=
  acts.foldl (Act.time timeout) t

theorem timed_append (timeout : Nat) (acts acts' : List Act) (t : Timers) :
    timed timeout (acts ++ acts') t = timed timeout acts' (timed timeout acts t) :=
  List.foldl_append

/-- From `e` to `e'` only the session under `key` changed, to `held`; `acts`
were done, and `rounds` retransmissions counted. -/
structure Effect (e e' : LtpEngine) (key : SessionKey) (held : Option LtpSession)
    (acts : List Act) (rounds : UInt64) : Prop where
  config : e'.config = e.config
  sessionCounter : e'.sessionCounter = e.sessionCounter
  lookup : e'.sessions.lookup key = held
  frame : ∀ k, k ≠ key → e'.sessions.lookup k = e.sessions.lookup k
  trace : e'.trace = e.trace ++ events acts
  timers : e'.timers = timed e.config.retransmissionTimeoutMs.toNat acts e.timers
  retransmissions : e'.diagnostics.retransmissions = e.diagnostics.retransmissions + rounds

namespace Effect

variable {e e₁ e₂ : LtpEngine} {key : SessionKey} {held₁ held₂ : Option LtpSession}
  {acts₁ acts₂ : List Act} {rounds₁ rounds₂ : UInt64}

theorem refl (e : LtpEngine) (key : SessionKey) :
    Effect e e key (e.sessions.lookup key) [] 0 where
  config := rfl
  sessionCounter := rfl
  lookup := rfl
  frame := fun _ _ => rfl
  trace := (List.append_nil _).symm
  timers := rfl
  retransmissions := (UInt64.add_zero _).symm

theorem trans (h₁ : Effect e e₁ key held₁ acts₁ rounds₁)
    (h₂ : Effect e₁ e₂ key held₂ acts₂ rounds₂) :
    Effect e e₂ key held₂ (acts₁ ++ acts₂) (rounds₁ + rounds₂) where
  config := h₂.config.trans h₁.config
  sessionCounter := h₂.sessionCounter.trans h₁.sessionCounter
  lookup := h₂.lookup
  frame := fun k hk => (h₂.frame k hk).trans (h₁.frame k hk)
  trace := by rw [h₂.trace, h₁.trace, events_append, List.append_assoc]
  timers := by rw [h₂.timers, h₁.timers, h₁.config, timed_append]
  retransmissions := by rw [h₂.retransmissions, h₁.retransmissions, UInt64.add_assoc]

/-- A step that calls no callback. -/
theorem quietly (h₁ : Effect e e₁ key held₁ acts₁ rounds₁) (h₂ : Effect e₁ e₂ key held₂ [] 0) :
    Effect e e₂ key held₂ acts₁ rounds₁ := by
  have h := h₁.trans h₂
  rwa [List.append_nil, UInt64.add_zero] at h

/-- A step that leaves the key's session as it was. -/
theorem keep (h₁ : Effect e e₁ key held₁ acts₁ rounds₁)
    (h₂ : Effect e₁ e₂ key (e₁.sessions.lookup key) acts₂ rounds₂) :
    Effect e e₂ key held₁ (acts₁ ++ acts₂) (rounds₁ + rounds₂) :=
  h₁.lookup ▸ h₁.trans h₂

/-- What was called in the meantime. -/
theorem drop_trace (h : Effect e e₁ key held₁ acts₁ rounds₁) :
    e₁.trace.drop e.trace.length = events acts₁ := by
  rw [h.trace, List.drop_left]

end Effect

theorem SegType.hasCheckpoint_of_isGreen {type : UInt8} (h : SegType.isGreen type = true) :
    SegType.hasCheckpoint type = false := by
  simp only [isGreen, hasCheckpoint, Bool.and_eq_true, decide_eq_true_eq, Bool.and_eq_false_iff,
    decide_eq_false_iff_not, ge_iff_le, UInt8.le_iff_toNat_le] at h ⊢
  exact .inr (Nat.not_le.mpr h.1)

theorem getData_eq_ok {content : SegmentContent} {ds : DataSegContent} :
    content.getData = .ok ds ↔ content = .data ds := by
  cases content <;> simp [SegmentContent.getData]

theorem getReport_eq_ok {content : SegmentContent} {rs : ReportSegContent} :
    content.getReport = .ok rs ↔ content = .report rs := by
  cases content <;> simp [SegmentContent.getReport]

theorem getRptAck_eq_ok {content : SegmentContent} {ra : RptAckContent} :
    content.getRptAck = .ok ra ↔ content = .rptAck ra := by
  cases content <;> simp [SegmentContent.getRptAck]

theorem getCancel_eq_ok {content : SegmentContent} {cc : CancelContent} :
    content.getCancel = .ok cc ↔ content = .cancel cc := by
  cases content <;> simp [SegmentContent.getCancel]

namespace LtpEngine

/-! ## The primitive steps -/

section Primitives

variable (e : LtpEngine) (key : SessionKey)

theorem count_effect {f : LtpDiagnostics → LtpDiagnostics}
    (hf : (f e.diagnostics).retransmissions = e.diagnostics.retransmissions) :
    Effect e (e.count f) key (e.sessions.lookup key) [] 0 :=
  { Effect.refl e key with retransmissions := hf.trans (UInt64.add_zero _).symm }

theorem countRetransmission_effect :
    Effect e (e.count fun d => { d with retransmissions := d.retransmissions + 1 }) key
      (e.sessions.lookup key) [] 1 :=
  { Effect.refl e key with retransmissions := rfl }

theorem putSession_effect (session : LtpSession) :
    Effect e (e.putSession key session) key (some session) [] 0 :=
  { Effect.refl e key with
    lookup := AList.lookup_insert _
    frame := fun _ hk => AList.lookup_insert_ne hk }

theorem eraseSession_effect : Effect e (e.eraseSession key) key none [] 0 :=
  { Effect.refl e key with
    lookup := AList.lookup_erase _ _
    frame := fun _ hk => AList.lookup_erase_ne hk }

theorem emit_effect (event : Event) :
    Effect e (e.emit event) key (e.sessions.lookup key) [.call event] 0 :=
  { Effect.refl e key with trace := rfl }

/-- A step that changes only the timers, as `acts` do. -/
theorem timers_effect {e' : LtpEngine} {acts : List Act} (hacts : events acts = [])
    (htimers : e'.timers = timed e.config.retransmissionTimeoutMs.toNat acts e.timers)
    (hrest : e' = { e with
      timerManager := e'.timerManager, checkpointTimers := e'.checkpointTimers
      reportTimers := e'.reportTimers }) :
    Effect e e' key (e.sessions.lookup key) acts 0 where
  config := by rw [hrest]
  sessionCounter := by rw [hrest]
  lookup := by rw [hrest]
  frame := fun k _ => by rw [hrest]
  trace := by rw [hrest, hacts, List.append_nil]
  timers := htimers
  retransmissions := by rw [hrest, UInt64.add_zero]

theorem cancelCheckpointTimer_effect (timer : UInt64) :
    Effect e (e.cancelCheckpointTimer timer) key (e.sessions.lookup key)
      [.cancelCheckpoint timer] 0 := by
  refine timers_effect e key rfl ?_ ?_
  · show _ = e.timers.cancelCheckpoint timer
    rw [cancelCheckpointTimer, Timers.cancelCheckpoint,
      show e.timers.checkpoint = e.checkpointTimers from rfl]
    cases e.checkpointTimers.lookup timer <;> rfl
  · rw [cancelCheckpointTimer]
    cases e.checkpointTimers.lookup timer <;> rfl

theorem cancelReportTimer_effect (timer : UInt64) :
    Effect e (e.cancelReportTimer timer) key (e.sessions.lookup key) [.cancelReport timer] 0 := by
  refine timers_effect e key rfl ?_ ?_
  · show _ = e.timers.cancelReport timer
    rw [cancelReportTimer, Timers.cancelReport, show e.timers.report = e.reportTimers from rfl]
    cases e.reportTimers.lookup timer <;> rfl
  · rw [cancelReportTimer]
    cases e.reportTimers.lookup timer <;> rfl

end Primitives

variable {e e' : LtpEngine} {key : SessionKey}

theorem startCheckpointTimer_timers {tm : TimerManager} {event : TimerEvent}
    (h : e.timerManager = some tm) (htype : event.type = .checkpoint) :
    (e.startCheckpointTimer tm event).timers =
      e.timers.start e.config.retransmissionTimeoutMs.toNat event := by
  unfold Timers.start
  rw [show e.timers.manager = e.timerManager from rfl, h]
  dsimp only
  rw [htype]
  rfl

theorem startReportTimer_timers {tm : TimerManager} {event : TimerEvent}
    (h : e.timerManager = some tm) (htype : event.type = .reportSegment) :
    (e.startReportTimer tm event).timers =
      e.timers.start e.config.retransmissionTimeoutMs.toNat event := by
  unfold Timers.start
  rw [show e.timers.manager = e.timerManager from rfl, h]
  dsimp only
  rw [htype]
  rfl

/-- `startSegmentTimer` starts the timer of the segment's event, and changes
nothing else. -/
theorem startSegmentTimer_eq {seg : LtpSegment} (h : e.startSegmentTimer seg = .ok e') :
    e'.timers = Act.time e.config.retransmissionTimeoutMs.toNat e.timers (.send seg) ∧
      e' = { e with
        timerManager := e'.timerManager, checkpointTimers := e'.checkpointTimers
        reportTimers := e'.reportTimers } := by
  rw [startSegmentTimer] at h
  split at h
  · rename_i hmanager
    cases h
    refine ⟨?_, rfl⟩
    cases hevent : seg.timerEvent with
    | none => exact (Act.time_send_of_none hevent _ _).symm
    | some event => rw [Act.time_send_of_some hevent, Timers.start_of_none hmanager]
  · rename_i tm hmanager
    by_cases hcp : SegType.hasCheckpoint seg.segmentType = true
    · rw [if_pos hcp] at h
      obtain ⟨ds, hds, h⟩ := bind_eq_ok.mp h
      have hevent := LtpSegment.timerEvent_of_data (getData_eq_ok.mp hds) hcp
      cases hserial : ds.checkpointSerial with
      | none =>
          rw [hserial] at h hevent
          cases h
          exact ⟨(Act.time_send_of_none hevent _ _).symm, rfl⟩
      | some serial =>
          rw [hserial] at h hevent
          cases h
          refine ⟨?_, rfl⟩
          rw [Act.time_send_of_some hevent]
          exact startCheckpointTimer_timers hmanager rfl
    · rw [if_neg hcp] at h
      by_cases htype : seg.segmentType = SegType.reportSegment
      · rw [if_pos htype] at h
        obtain ⟨rs, hrs, h⟩ := bind_eq_ok.mp h
        have hevent := LtpSegment.timerEvent_of_report (getReport_eq_ok.mp hrs) htype
        cases h
        refine ⟨?_, rfl⟩
        rw [Act.time_send_of_some hevent]
        exact startReportTimer_timers hmanager rfl
      · rw [if_neg htype] at h
        cases h
        have hevent := LtpSegment.timerEvent_eq_none (by simpa using hcp) htype
        exact ⟨(Act.time_send_of_none hevent _ _).symm, rfl⟩

theorem sent_retransmissions (d : LtpDiagnostics) (type : UInt8) :
    (d.sent type).retransmissions = d.retransmissions := by
  rw [LtpDiagnostics.sent]
  repeat' split <;> try rfl

theorem received_retransmissions (d : LtpDiagnostics) (type : UInt8) :
    (d.received type).retransmissions = d.retransmissions := by
  rw [LtpDiagnostics.received]
  split <;> rfl

theorem sendSegment_effect {seg : LtpSegment} (h : e.sendSegment seg = .ok e')
    (key : SessionKey) : Effect e e' key (e.sessions.lookup key) [.send seg] 0 := by
  obtain ⟨e₁, htimer, h⟩ := bind_eq_ok.mp h
  obtain ⟨bytes, hencode, h⟩ := bind_eq_ok.mp h
  cases h
  obtain ⟨htimers, hrest⟩ := startSegmentTimer_eq htimer
  rw [hrest]
  exact
    { config := rfl
      sessionCounter := rfl
      lookup := rfl
      frame := fun _ _ => rfl
      trace := by
        rw [events_send, LtpSegment.wire_eq hencode]
        rfl
      timers := htimers
      retransmissions := (sent_retransmissions _ _).trans (UInt64.add_zero _).symm }

theorem sendSegments_effect {segments : List LtpSegment} (h : e.sendSegments segments = .ok e')
    (key : SessionKey) :
    Effect e e' key (e.sessions.lookup key) (segments.map Act.send) 0 := by
  induction segments generalizing e with
  | nil =>
      cases h
      exact Effect.refl _ key
  | cons seg segments ih =>
      obtain ⟨e₁, hseg, h⟩ := bind_eq_ok.mp h
      exact (sendSegment_effect hseg key).keep (ih h)

/-! ## The handlers -/

/-- The report that `generate_report` sends. -/
def report (session : LtpSession) (checkpointSerial upperBound : UInt64) : LtpSegment :=
  { segmentType := SegType.reportSegment, engineId := session.engineId,
    sessionNumber := session.sessionNumber
    content := .report
      { reportSerial := session.reportSerialCounter + 1, checkpointSerial := checkpointSerial,
        upperBound := upperBound, lowerBound := 0, claims := session.receptionTracker.ranges } }

/-- The session after `generate_report`. -/
def reported (session : LtpSession) : LtpSession :=
  { session with reportSerialCounter := session.reportSerialCounter + 1 }

theorem generateReport_effect {session : LtpSession} {checkpointSerial upperBound : UInt64}
    (h : e.generateReport key session checkpointSerial upperBound = .ok e') :
    Effect e e' key (some (reported session))
      [.send (report session checkpointSerial upperBound)] 0 :=
  (e.putSession_effect key (reported session)).keep (sendSegment_effect h key)

theorem deliver_effect {session : LtpSession} (h : e.deliver key session = .ok e') :
    ∃ data, assignRange session.clientData 0 session.totalDataLength.toNat = .ok data ∧
      Effect e e' key none [.call (.dataArrival key data)] 0 := by
  obtain ⟨data, hdata, h⟩ := bind_eq_ok.mp h
  cases h
  exact ⟨data, hdata, ((e.count_effect key rfl).keep (emit_effect _ key _)).trans
    (eraseSession_effect _ key)⟩

/-- What receiving a data segment did to its session. `session` is the one
it found or set up, `stored` the one after taking in the data. -/
inductive DataOutcome (e e' : LtpEngine) (seg : LtpSegment) (ds : DataSegContent)
    (key : SessionKey) (stored : LtpSession) : Prop where
  | quiet (hcp : SegType.hasCheckpoint seg.segmentType = true → ds.checkpointSerial = none)
      (h : Effect e e' key (some stored) [] 0)
  | reported (serial : UInt64) (hcp : SegType.hasCheckpoint seg.segmentType = true)
      (hserial : ds.checkpointSerial = some serial)
      (h : Effect e e' key (some (LtpEngine.reported stored))
        [.send (report stored serial (ds.offset + ds.length))] 0)
  | delivered (data : List UInt8) (hgreen : SegType.isGreen seg.segmentType = true)
      (heob : SegType.hasEob seg.segmentType = true)
      (hdata : assignRange stored.clientData 0 stored.totalDataLength.toNat = .ok data)
      (h : Effect e e' key none [.call (.dataArrival key data)] 0)

/-- An outcome after a step that only set up the session. -/
theorem DataOutcome.after {e₁ : LtpEngine} {held : Option LtpSession} {seg : LtpSegment}
    {ds : DataSegContent} {stored : LtpSession} (hout : DataOutcome e₁ e' seg ds key stored)
    (h : Effect e e₁ key held [] 0) : DataOutcome e e' seg ds key stored := by
  cases hout with
  | quiet hcp h' => exact .quiet hcp (h.trans h')
  | reported serial hcp hserial h' => exact .reported serial hcp hserial (h.trans h')
  | delivered data hgreen heob hdata h' => exact .delivered data hgreen heob hdata (h.trans h')

/-- The last green segment delivers what the session has stored. -/
theorem acceptData_delivers {session stored : LtpSession} {seg : LtpSegment} {ds : DataSegContent}
    (h : e.acceptData key session seg ds = .ok e') (hactive : session.state = .active)
    (hstore : session.store seg.segmentType ds = .ok stored)
    (hgreen : SegType.isGreen seg.segmentType = true)
    (heob : SegType.hasEob seg.segmentType = true) :
    ∃ data, assignRange stored.clientData 0 stored.totalDataLength.toNat = .ok data ∧
      Effect e e' key none [.call (.dataArrival key data)] 0 := by
  rw [acceptData, if_neg (not_not.mpr hactive)] at h
  obtain ⟨stored', hstore', h⟩ := bind_eq_ok.mp h
  cases Except.ok.inj (hstore.symm.trans hstore')
  obtain ⟨e₁, hreport, h⟩ := bind_eq_ok.mp h
  rw [if_pos (by rw [hgreen, heob]; rfl)] at h
  -- a green segment is no checkpoint, so nothing was sent before the delivery
  rw [reportCheckpoint, SegType.hasCheckpoint_of_isGreen hgreen] at hreport
  cases hreport
  obtain ⟨data, hdata, hdeliver⟩ := deliver_effect h
  have hcount : Effect e (e.count fun d => d.received seg.segmentType) key
      (e.sessions.lookup key) [] 0 := e.count_effect key (received_retransmissions _ _)
  exact ⟨data, hdata, (hcount.trans (putSession_effect _ key stored)).trans hdeliver⟩

theorem acceptData_outcome {session : LtpSession} {seg : LtpSegment} {ds : DataSegContent}
    (h : e.acceptData key session seg ds = .ok e') (hactive : session.state = .active) :
    ∃ stored, session.store seg.segmentType ds = .ok stored ∧
      DataOutcome e e' seg ds key stored := by
  have haccept := h
  rw [acceptData, if_neg (not_not.mpr hactive)] at h
  obtain ⟨stored, hstore, h⟩ := bind_eq_ok.mp h
  obtain ⟨e₁, hreport, h⟩ := bind_eq_ok.mp h
  have hcount : Effect e (e.count fun d => d.received seg.segmentType) key
      (e.sessions.lookup key) [] 0 := e.count_effect key (received_retransmissions _ _)
  have hput := hcount.trans (putSession_effect _ key stored)
  refine ⟨stored, hstore, ?_⟩
  by_cases hlast : SegType.isGreen seg.segmentType && SegType.hasEob seg.segmentType
  · rw [Bool.and_eq_true] at hlast
    obtain ⟨data, hdata, hdeliver⟩ := acceptData_delivers haccept hactive hstore hlast.1 hlast.2
    exact .delivered data hlast.1 hlast.2 hdata hdeliver
  · rw [if_neg hlast] at h
    cases h
    rw [reportCheckpoint] at hreport
    split at hreport
    · rename_i serial hcp hserial
      exact .reported serial hcp hserial (hput.trans (generateReport_effect hreport))
    · rename_i hnone
      cases hreport
      refine .quiet (fun hcp => ?_) hput
      cases hserial : ds.checkpointSerial with
      | none => rfl
      | some serial => exact (hnone serial hcp hserial).elim

/-- The key a segment to a receiver names. -/
def segmentKey (seg : LtpSegment) : SessionKey :=
  { engineId := seg.engineId, sessionNumber := seg.sessionNumber }

/-- The session a data segment meets: the one in the table, or a new one in
a free slot. -/
def Meets (e : LtpEngine) (seg : LtpSegment) (session : LtpSession) : Prop :=
  e.sessions.lookup (segmentKey seg) = some session ∨
    (e.sessions.lookup (segmentKey seg) = none ∧ e.isFull = false ∧ session = receiverSession seg)

theorem receiveDataSegment_cases {seg : LtpSegment} (h : e.receiveDataSegment seg = .ok e') :
    ∃ ds, seg.content = .data ds ∧
      ((e.sessions.lookup (segmentKey seg) = none ∧ e.isFull = true ∧ e' = e) ∨
        ∃ session, e.Meets seg session ∧ (session.state ≠ .active ∧ e' = e ∨
          ∃ stored, session.store seg.segmentType ds = .ok stored ∧
            DataOutcome e e' seg ds (segmentKey seg) stored)) := by
  obtain ⟨ds, hds, h⟩ := bind_eq_ok.mp h
  refine ⟨ds, getData_eq_ok.mp hds, ?_⟩
  dsimp only at h
  rw [show SessionKey.mk seg.engineId seg.sessionNumber = segmentKey seg from rfl] at h
  split at h
  · rename_i session hlookup
    refine .inr ⟨session, .inl hlookup, ?_⟩
    by_cases hactive : session.state = .active
    · exact .inr (acceptData_outcome h hactive)
    · rw [acceptData, if_pos hactive] at h
      cases h
      exact .inl ⟨hactive, rfl⟩
  · rename_i hlookup
    by_cases hfull : e.isFull = true
    · rw [if_pos hfull] at h
      cases h
      exact .inl ⟨hlookup, hfull, rfl⟩
    · rw [if_neg hfull] at h
      refine .inr ⟨receiverSession seg, .inr ⟨hlookup, by simpa using hfull, rfl⟩, .inr ?_⟩
      obtain ⟨stored, hstore, hout⟩ := acceptData_outcome h rfl
      have hnew : Effect e ((e.putSession (segmentKey seg) (receiverSession seg)).count fun d =>
          { d with sessionsReceived := d.sessionsReceived + 1 }) (segmentKey seg)
          (some (receiverSession seg)) [] 0 :=
        (e.putSession_effect _ _).keep (count_effect _ _ rfl)
      exact ⟨stored, hstore, hout.after hnew⟩

/-- A data segment is accepted by the session it meets, once that is there. -/
theorem receiveDataSegment_meets {session : LtpSession} {seg : LtpSegment} {ds : DataSegContent}
    (hds : seg.content = .data ds) (hmeets : e.Meets seg session) :
    ∃ e₁, Effect e e₁ (segmentKey seg) (some session) [] 0 ∧
      e.receiveDataSegment seg = e₁.acceptData (segmentKey seg) session seg ds := by
  have hget : ∀ f : DataSegContent → Except Exn LtpEngine,
      ((SegmentContent.data ds).getData >>= f) = f ds := fun _ => rfl
  rw [receiveDataSegment, hds, hget]
  dsimp only
  rw [show SessionKey.mk seg.engineId seg.sessionNumber = segmentKey seg from rfl]
  rcases hmeets with hlookup | ⟨hnone, hfree, rfl⟩
  · rw [hlookup]
    exact ⟨e, hlookup ▸ Effect.refl e _, rfl⟩
  · rw [hnone, hfree]
    exact ⟨_, (e.putSession_effect _ (receiverSession seg)).keep (count_effect _ _ rfl), rfl⟩

/-- The cancel segment `cancel_session` sends. -/
def cancelSegment (role : SessionRole) (key : SessionKey) (reason : UInt8) : LtpSegment :=
  { segmentType :=
      if role = .originator then SegType.cancelBySender else SegType.cancelByReceiver
    engineId := key.engineId, sessionNumber := key.sessionNumber
    content := .cancel { reasonCode := reason } }

theorem cancelSession_effect {session : LtpSession} {reason : UInt8}
    (h : e.cancelSession key.engineId key.sessionNumber reason = .ok e')
    (hlookup : e.sessions.lookup key = some session) :
    Effect e e' key none
      [.send (cancelSegment session.role key reason),
        .call (.sessionFailure key key.sessionNumber reason)] 0 := by
  rw [cancelSession] at h
  dsimp only at h
  rw [hlookup] at h
  obtain ⟨e₁, hsend, h⟩ := bind_eq_ok.mp h
  cases h
  have hsent := sendSegment_effect hsend key
  exact ((hsent.keep (count_effect _ key rfl)).keep (emit_effect _ key _)).trans
    (eraseSession_effect _ key)

theorem cancelSession_of_none {reason : UInt8} (hlookup : e.sessions.lookup key = none) :
    e.cancelSession key.engineId key.sessionNumber reason = .ok e := by
  rw [cancelSession]
  dsimp only
  rw [hlookup]

/-- The budget is used up: the next attempt is one too many. -/
def Exhausted (e : LtpEngine) (session : LtpSession) : Prop :=
  e.config.maxRetransmissions < session.retransmissionCount + 1

/-- What `cancel_session` with reason 0x01 tells the peer and the client. -/
def givingUp (key : SessionKey) (session : LtpSession) : List Act :=
  [.send (cancelSegment session.role key 0x01), .call (.sessionFailure key key.sessionNumber 0x01)]

/-- A session is stored under its own key, and is ACTIVE. -/
structure Stored (key : SessionKey) (session : LtpSession) : Prop where
  engineId : session.engineId = key.engineId
  sessionNumber : session.sessionNumber = key.sessionNumber
  active : session.state = .active

theorem retransmit_cases {session : LtpSession}
    {resend : LtpEngine → LtpSession → Except Exn LtpEngine}
    (h : e.retransmit key session resend = .ok e') (hs : Stored key session) :
    (e.Exhausted session ∧ Effect e e' key none (givingUp key session) 0) ∨
      (¬ e.Exhausted session ∧ ∃ e₁, Effect e e₁ key (some (attempted session)) [] 1 ∧
        e₁.config = e.config ∧ resend e₁ (attempted session) = .ok e') := by
  rw [retransmit] at h
  have hput := e.putSession_effect key (attempted session)
  by_cases hmax : e.Exhausted session
  · rw [if_pos (show (e.putSession key (attempted session)).config.maxRetransmissions <
      (attempted session).retransmissionCount from hmax),
      show (attempted session).engineId = key.engineId from hs.engineId,
      show (attempted session).sessionNumber = key.sessionNumber from hs.sessionNumber] at h
    exact .inl ⟨hmax, hput.trans (cancelSession_effect h hput.lookup)⟩
  · rw [if_neg (show ¬ (e.putSession key (attempted session)).config.maxRetransmissions <
      (attempted session).retransmissionCount from hmax)] at h
    exact .inr ⟨hmax, _, hput.keep (countRetransmission_effect _ key), rfl, h⟩

theorem resendBlock_effect {session : LtpSession} (h : e.resendBlock key session = .ok e') :
    ∃ segments cpSerial, segmentDataImpl session e.config.maxSegmentSize
        session.checkpointSerialCounter = .ok (segments, cpSerial) ∧
      Effect e e' key (some { session with checkpointSerialCounter := cpSerial })
        (segments.map Act.send) 0 := by
  obtain ⟨⟨segments, session'⟩, hsegment, h⟩ := bind_eq_ok.mp h
  obtain ⟨⟨segments', cpSerial⟩, himpl, hsegment⟩ := bind_eq_ok.mp hsegment
  cases hsegment
  exact ⟨segments, cpSerial, himpl, (e.putSession_effect key _).keep (sendSegments_effect h key)⟩

/-- The session after `retransmit_gaps`. -/
def checkpointed (session : LtpSession) (segments : List LtpSegment) : LtpSession :=
  if segments.isEmpty then session
  else { session with checkpointSerialCounter := session.checkpointSerialCounter + 1 }

theorem checkpointed_eq (session : LtpSession) (segments : List LtpSegment) :
    ∃ cpSerial, checkpointed session segments =
      { session with checkpointSerialCounter := cpSerial } := by
  rw [checkpointed]
  split
  · exact ⟨session.checkpointSerialCounter, rfl⟩
  · exact ⟨session.checkpointSerialCounter + 1, rfl⟩

theorem retransmitGaps_effect {session : LtpSession} {gaps : List ReceptionClaim}
    (h : e.retransmitGaps key session gaps = .ok e') :
    ∃ segments marked, gapSegments session e.config.maxSegmentSize gaps = .ok segments ∧
      markLast (session.checkpointSerialCounter + 1) segments = .ok marked ∧
      Effect e e' key (some (checkpointed session segments)) (marked.map Act.send) 0 := by
  obtain ⟨segments, hgaps, h⟩ := bind_eq_ok.mp h
  obtain ⟨marked, hmarked, h⟩ := bind_eq_ok.mp h
  exact ⟨segments, marked, hgaps, hmarked,
    (e.putSession_effect key _).keep (sendSegments_effect h key)⟩

/-- What a report did to the originator session it found, besides the
acknowledgment. -/
inductive ReportOutcome (e e' : LtpEngine) (key : SessionKey) (session : LtpSession)
    (rs : ReportSegContent) (ack : List Act) : Prop where
  | complete (hfull : fullyReceived session rs = true)
      (h : Effect e e' key none (ack ++ [.call (.sessionComplete key session.sessionNumber)]) 0)
  | waiting (hfull : fullyReceived session rs = false)
      (hgaps : computeGaps rs.claims rs.lowerBound rs.upperBound = [])
      (h : Effect e e' key (some session) ack 0)
  | gaveUp (hfull : fullyReceived session rs = false)
      (hgaps : computeGaps rs.claims rs.lowerBound rs.upperBound ≠ [])
      (hmax : e.Exhausted session)
      (h : Effect e e' key none (ack ++ givingUp key session) 0)
  | resent (hfull : fullyReceived session rs = false)
      (hgaps : computeGaps rs.claims rs.lowerBound rs.upperBound ≠ [])
      (hmax : ¬ e.Exhausted session) (segments marked : List LtpSegment)
      (hsegments : gapSegments (attempted session) e.config.maxSegmentSize
        (computeGaps rs.claims rs.lowerBound rs.upperBound) = .ok segments)
      (hmarked : markLast (session.checkpointSerialCounter + 1) segments = .ok marked)
      (h : Effect e e' key (some (checkpointed (attempted session) segments))
        (ack ++ marked.map Act.send) 1)

theorem answerReport_outcome {e₁ : LtpEngine} {session : LtpSession} {rs : ReportSegContent}
    {ack : List Act} (h : e₁.answerReport key session rs = .ok e') (hs : Stored key session)
    (hack : Effect e e₁ key (some session) ack 0) : ReportOutcome e e' key session rs ack := by
  rw [answerReport] at h
  by_cases hfull : fullyReceived session rs = true
  · rw [if_pos hfull] at h
    cases h
    exact .complete hfull (hack.trans (((count_effect _ key rfl).keep (emit_effect _ key _)).trans
      (eraseSession_effect _ key)))
  · rw [if_neg hfull] at h
    rw [Bool.not_eq_true] at hfull
    dsimp only at h
    by_cases hgaps : computeGaps rs.claims rs.lowerBound rs.upperBound = []
    · rw [hgaps] at h
      cases h
      exact .waiting hfull hgaps hack
    · rw [if_neg (by simpa using hgaps)] at h
      rcases retransmit_cases h hs with ⟨hmax, hcancel⟩ | ⟨hmax, e₂, hattempt, hconfig, hresend⟩
      · rw [Exhausted, hack.config] at hmax
        exact .gaveUp hfull hgaps hmax (hack.trans hcancel)
      · rw [Exhausted, hack.config] at hmax
        obtain ⟨segments, marked, hsegments, hmarked, hsent⟩ := retransmitGaps_effect hresend
        rw [hconfig, hack.config] at hsegments
        exact .resent hfull hgaps hmax segments marked hsegments hmarked
          (hack.trans (hattempt.trans hsent))

/-- The acknowledgment of a report. -/
def reportAck (seg : LtpSegment) (rs : ReportSegContent) : LtpSegment :=
  { segmentType := SegType.reportAck, engineId := seg.engineId, sessionNumber := seg.sessionNumber
    content := .rptAck { reportSerial := rs.reportSerial } }

theorem receiveReportSegment_cases {seg : LtpSegment} (h : e.receiveReportSegment seg = .ok e') :
    ∃ rs, seg.content = .report rs ∧
      match e.sessions.lookup (e.localKey seg.sessionNumber) with
      | none => Effect e e' (e.localKey seg.sessionNumber) none [.send (reportAck seg rs)] 0
      | some session =>
        if session.role = .originator ∧ session.state = .active then
          Stored (e.localKey seg.sessionNumber) session →
            ReportOutcome e e' (e.localKey seg.sessionNumber) session rs
              [.send (reportAck seg rs),
                .cancelCheckpoint (timerKey seg.sessionNumber rs.checkpointSerial)]
        else Effect e e' (e.localKey seg.sessionNumber) (some session) [] 0 := by
  obtain ⟨rs, hrs, h⟩ := bind_eq_ok.mp h
  refine ⟨rs, getReport_eq_ok.mp hrs, ?_⟩
  dsimp only at h
  have hcount : Effect e (e.count fun d => { d with reportsReceived := d.reportsReceived + 1 })
      (e.localKey seg.sessionNumber) (e.sessions.lookup (e.localKey seg.sessionNumber)) [] 0 :=
    count_effect _ _ rfl
  rw [show (e.count fun d => { d with reportsReceived := d.reportsReceived + 1 }).localKey
    seg.sessionNumber = e.localKey seg.sessionNumber from rfl] at h
  split
  · rename_i hlookup
    rw [show (e.count fun d => { d with reportsReceived := d.reportsReceived + 1 }).sessions =
      e.sessions from rfl, hlookup] at h
    rw [hlookup] at hcount
    exact hcount.keep (sendSegment_effect h _)
  · rename_i session hlookup
    rw [show (e.count fun d => { d with reportsReceived := d.reportsReceived + 1 }).sessions =
      e.sessions from rfl, hlookup] at h
    rw [hlookup] at hcount
    dsimp only at h
    by_cases hrole : session.role = .originator
    · rw [if_neg (not_not.mpr hrole)] at h
      by_cases hactive : session.state = .active
      · rw [if_neg (not_not.mpr hactive)] at h
        rw [if_pos ⟨hrole, hactive⟩]
        intro hs
        obtain ⟨e₁, hack, h⟩ := bind_eq_ok.mp h
        exact answerReport_outcome h hs
          ((hcount.keep (sendSegment_effect hack _)).keep (cancelCheckpointTimer_effect _ _ _))
      · rw [if_pos hactive] at h
        rw [if_neg fun h => hactive h.2]
        cases h
        exact hcount
    · rw [if_pos hrole] at h
      rw [if_neg fun h => hrole h.1]
      cases h
      exact hcount

theorem receiveReportAck_cases {seg : LtpSegment} (h : e.receiveReportAck seg = .ok e') :
    ∃ ra, seg.content = .rptAck ra ∧
      ((∃ session data, e.sessions.lookup (segmentKey seg) = some session ∧
          session.role = .receiver ∧
          session.receptionTracker.isComplete session.totalDataLength = true ∧
          assignRange session.clientData 0 session.totalDataLength.toNat = .ok data ∧
          Effect e e' (segmentKey seg) none
            [.cancelReport (timerKey seg.sessionNumber ra.reportSerial),
              .call (.dataArrival (segmentKey seg) data)] 0) ∨
        ∃ acts, Effect e e' (segmentKey seg) (e.sessions.lookup (segmentKey seg)) acts 0 ∧
          (acts = [] ∨ acts = [.cancelReport (timerKey seg.sessionNumber ra.reportSerial)]) ∧
          ∀ session, e.sessions.lookup (segmentKey seg) = some session →
            session.role = .receiver →
              session.receptionTracker.isComplete session.totalDataLength = false) := by
  obtain ⟨ra, hra, h⟩ := bind_eq_ok.mp h
  refine ⟨ra, getRptAck_eq_ok.mp hra, ?_⟩
  dsimp only at h
  rw [show SessionKey.mk seg.engineId seg.sessionNumber = segmentKey seg from rfl] at h
  have hcount : Effect e
      (e.count fun d => { d with reportAcksReceived := d.reportAcksReceived + 1 }) (segmentKey seg)
      (e.sessions.lookup (segmentKey seg)) [] 0 := count_effect _ _ rfl
  rw [show (e.count fun d => { d with reportAcksReceived := d.reportAcksReceived + 1 }).sessions =
    e.sessions from rfl] at h
  split at h
  · rename_i hnone
    cases h
    refine .inr ⟨_, hcount, .inl rfl, fun session hlookup => ?_⟩
    rw [hnone] at hlookup
    cases hlookup
  · rename_i session hlookup
    have hsame {met : LtpSession} (hmet : e.sessions.lookup (segmentKey seg) = some met) :
        met = session := Option.some.inj (hmet.symm.trans hlookup)
    by_cases hrole : session.role = .receiver
    · rw [if_neg (not_not.mpr hrole)] at h
      have hcancel := hcount.keep (cancelReportTimer_effect _ (segmentKey seg)
        (timerKey seg.sessionNumber ra.reportSerial))
      by_cases hcomplete : session.receptionTracker.isComplete session.totalDataLength = true
      · rw [if_pos hcomplete] at h
        obtain ⟨data, hdata, hdeliver⟩ := deliver_effect h
        exact .inl ⟨session, data, hlookup, hrole, hcomplete, hdata, hcancel.trans hdeliver⟩
      · rw [if_neg hcomplete] at h
        cases h
        refine .inr ⟨_, hcancel, .inr rfl, fun met hmet _ => ?_⟩
        rw [hsame hmet]
        simpa using hcomplete
    · rw [if_pos hrole] at h
      cases h
      exact .inr ⟨_, hcount, .inl rfl, fun met hmet hmrole => absurd (hsame hmet ▸ hmrole) hrole⟩

/-- What an expired checkpoint timer did. -/
inductive CheckpointOutcome (e e' : LtpEngine) (key : SessionKey) : Prop where
  | idle (h : e' = e)
      (hidle : ∀ session, e.sessions.lookup key = some session → session.state = .active →
        session.role ≠ .originator)
  | gaveUp (session : LtpSession) (hlookup : e.sessions.lookup key = some session)
      (hrole : session.role = .originator) (hmax : e.Exhausted session)
      (h : Effect e e' key none (givingUp key session) 0)
  | resent (session : LtpSession) (hlookup : e.sessions.lookup key = some session)
      (hrole : session.role = .originator) (hmax : ¬ e.Exhausted session)
      (segments : List LtpSegment) (cpSerial : UInt64)
      (hsegments : segmentDataImpl (attempted session) e.config.maxSegmentSize
        session.checkpointSerialCounter = .ok (segments, cpSerial))
      (h : Effect e e' key
        (some { attempted session with checkpointSerialCounter := cpSerial })
        (segments.map Act.send) 1)

theorem checkpointExpiry_outcome {event : TimerEvent} (h : e.checkpointExpiry event = .ok e')
    (hs : ∀ session, e.sessions.lookup (e.localKey event.sessionNumber) = some session →
      Stored (e.localKey event.sessionNumber) session) :
    CheckpointOutcome e e' (e.localKey event.sessionNumber) := by
  rw [checkpointExpiry] at h
  split at h
  · rename_i hnone
    cases h
    refine .idle rfl fun session hlookup => ?_
    rw [hnone] at hlookup
    cases hlookup
  · rename_i session hlookup
    have hstored := hs session hlookup
    rw [if_neg (not_not.mpr hstored.active)] at h
    by_cases hrole : session.role = .originator
    · rw [if_neg (not_not.mpr hrole)] at h
      rcases retransmit_cases h hstored with ⟨hmax, hcancel⟩ | ⟨hmax, e₁, hattempt, hconfig, h⟩
      · exact .gaveUp session hlookup hrole hmax hcancel
      · obtain ⟨segments, cpSerial, hsegments, hsent⟩ := resendBlock_effect h
        rw [hconfig] at hsegments
        exact .resent session hlookup hrole hmax segments cpSerial hsegments (hattempt.trans hsent)
    · rw [if_pos hrole] at h
      cases h
      refine .idle rfl fun session' hlookup' _ => ?_
      rw [hlookup] at hlookup'
      cases hlookup'
      exact hrole

/-- The key of the session that a report timer is for. -/
def eventKey (event : TimerEvent) : SessionKey :=
  { engineId := event.engineId, sessionNumber := event.sessionNumber }

theorem reportExpiry_cases {event : TimerEvent} (h : e.reportExpiry event = .ok e') :
    e' = e ∨ ∃ session, e.sessions.lookup (eventKey event) = some session ∧
      session.role = .receiver ∧
        ((session.totalDataLength = 0 ∧ Effect e e' (eventKey event) (some session) [] 1) ∨
          (session.totalDataLength ≠ 0 ∧ Effect e e' (eventKey event) (some (reported session))
            [.send (report session event.serialNumber session.totalDataLength)] 1)) := by
  rw [reportExpiry] at h
  rw [show SessionKey.mk event.engineId event.sessionNumber = eventKey event from rfl] at h
  split at h
  · cases h
    exact .inl rfl
  · rename_i session hlookup
    by_cases hactive : session.state = .active
    · rw [if_neg (not_not.mpr hactive)] at h
      by_cases hrole : session.role = .receiver
      · rw [if_neg (not_not.mpr hrole)] at h
        refine .inr ⟨session, hlookup, hrole, ?_⟩
        have hcount := hlookup ▸ e.countRetransmission_effect (eventKey event)
        by_cases htotal : 0 < session.totalDataLength
        · rw [if_pos htotal] at h
          refine .inr ⟨fun hzero => ?_, hcount.trans (generateReport_effect h)⟩
          rw [hzero] at htotal
          exact absurd htotal (by decide)
        · rw [if_neg htotal] at h
          cases h
          refine .inl ⟨?_, hcount⟩
          rw [UInt64.lt_iff_toNat_lt] at htotal
          exact UInt64.toNat_inj.mp (Nat.eq_zero_of_not_pos htotal)
      · rw [if_pos hrole] at h
        cases h
        exact .inl rfl
    · rw [if_pos hactive] at h
      cases h
      exact .inl rfl

/-- The acknowledgment of a cancel segment. -/
def cancelAck (seg : LtpSegment) : LtpSegment :=
  { segmentType :=
      if seg.segmentType = SegType.cancelBySender then SegType.cancelAckToSender
      else SegType.cancelAckToReceiver
    engineId := seg.engineId, sessionNumber := seg.sessionNumber
    content := .cancel { reasonCode := 0 } }

theorem receiveCancelSegment_cases {seg : LtpSegment} (h : e.receiveCancelSegment seg = .ok e') :
    ∃ cc, seg.content = .cancel cc ∧
      match e.sessions.lookup (segmentKey seg) with
      | none => Effect e e' (segmentKey seg) none [.send (cancelAck seg)] 0
      | some session => Effect e e' (segmentKey seg) none
          [.send (cancelAck seg),
            .call (.sessionFailure (segmentKey seg) session.sessionNumber cc.reasonCode)] 0 := by
  obtain ⟨cc, hcc, h⟩ := bind_eq_ok.mp h
  refine ⟨cc, getCancel_eq_ok.mp hcc, ?_⟩
  obtain ⟨e₁, hsend, h⟩ := bind_eq_ok.mp h
  have hcount : Effect e
      (e.count fun d => { d with cancelSegmentsReceived := d.cancelSegmentsReceived + 1 })
      (segmentKey seg) (e.sessions.lookup (segmentKey seg)) [] 0 := count_effect _ _ rfl
  have hack : Effect e e₁ (segmentKey seg) (e.sessions.lookup (segmentKey seg))
      [.send (cancelAck seg)] 0 := hcount.keep (sendSegment_effect hsend _)
  dsimp only at h
  rw [show SessionKey.mk seg.engineId seg.sessionNumber = segmentKey seg from rfl, hack.lookup] at h
  split
  · rename_i hlookup
    rw [hlookup] at h hack
    cases h
    exact hack
  · rename_i session hlookup
    rw [hlookup] at h
    cases h
    exact ((hack.keep (count_effect _ _ rfl)).keep (emit_effect _ _ _)).trans
      (eraseSession_effect _ _)

theorem receiveCancelAck_effect (e : LtpEngine) (seg : LtpSegment)
    (hs : ∀ session, e.sessions.lookup (segmentKey seg) = some session → session.state = .active) :
    e.receiveCancelAck seg = e := by
  rw [receiveCancelAck]
  rw [show SessionKey.mk seg.engineId seg.sessionNumber = segmentKey seg from rfl]
  split
  · rfl
  · rename_i session hlookup
    rw [if_neg]
    rw [hs session hlookup]
    decide

/-! ## start_session -/

/-- The session `start_session` segments: its own, unless the key is taken. -/
def startedSession (e : LtpEngine) (data : List UInt8) (reliable : Bool) : LtpSession :=
  (e.sessions.lookup (e.localKey (e.sessionCounter + 1))).getD
    (e.originatorSession (e.sessionCounter + 1) data reliable)

theorem emplaceSession_effect (e : LtpEngine) (key : SessionKey) (session : LtpSession) :
    Effect e (e.emplaceSession key session).1 key
      (some ((e.sessions.lookup key).getD session)) [] 0 ∧
      (e.emplaceSession key session).2 = (e.sessions.lookup key).getD session := by
  rw [emplaceSession]
  split
  · rename_i held hlookup
    rw [hlookup]
    exact ⟨hlookup ▸ Effect.refl e key, rfl⟩
  · rename_i hlookup
    rw [hlookup]
    exact ⟨e.putSession_effect key session, rfl⟩

/-- `start_session` either refuses, or segments and sends a block. -/
theorem startSession_cases {data : Block} {reliable : Bool} {sn : UInt64}
    (h : e.startSession data reliable = .ok (e', sn)) :
    (e.isFull = true ∧ e' = e ∧ sn = 0) ∨
      e.isFull = false ∧ sn = e.sessionCounter + 1 ∧
        ∃ segments cpSerial,
          segmentDataImpl (e.startedSession data.bytes reliable) e.config.maxSegmentSize
            (e.startedSession data.bytes reliable).checkpointSerialCounter =
              .ok (segments, cpSerial) ∧
          Effect { e with sessionCounter := sn } e' (e.localKey sn)
            (if reliable then
              some { e.startedSession data.bytes reliable with checkpointSerialCounter := cpSerial }
            else none)
            (segments.map Act.send) 0 := by
  rw [startSession] at h
  by_cases hfull : e.isFull = true
  · rw [if_pos hfull] at h
    cases h
    exact .inl ⟨hfull, rfl, rfl⟩
  · rw [if_neg hfull] at h
    obtain ⟨hemplace, hsession⟩ := emplaceSession_effect
      { e with sessionCounter := e.sessionCounter + 1 }
      (e.localKey (e.sessionCounter + 1))
      (originatorSession { e with sessionCounter := e.sessionCounter + 1 } (e.sessionCounter + 1)
        data.bytes reliable)
    dsimp only at h
    rw [hsession] at h
    obtain ⟨⟨segments, session'⟩, hsegment, h⟩ := bind_eq_ok.mp h
    obtain ⟨⟨segments', cpSerial⟩, himpl, hsegment⟩ := bind_eq_ok.mp hsegment
    cases hsegment
    rw [show ∀ (e : LtpEngine) f, (e.count f).config = e.config from fun _ _ => rfl,
      hemplace.config] at himpl
    obtain ⟨e₁, hsend, h⟩ := bind_eq_ok.mp h
    have hsent := ((hemplace.keep (count_effect _ _ rfl)).trans (putSession_effect _ _ _)).keep
      (sendSegments_effect hsend _)
    refine .inr ⟨by simpa using hfull, ?_⟩
    cases reliable with
    | true =>
        cases h
        exact ⟨rfl, segments, cpSerial, himpl, hsent⟩
    | false =>
        cases h
        exact ⟨rfl, segments, cpSerial, himpl,
          hsent.quietly ((eraseSession_effect _ _).keep (count_effect _ _ rfl))⟩

end LtpEngine

end QpskB210.Ltp
