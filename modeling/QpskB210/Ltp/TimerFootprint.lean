import QpskB210.Ltp.CheckpointTimers
import QpskB210.Ltp.EngineCalls
import QpskB210.Ltp.EngineProgress

/-!
# LTP — Timer footprint

Where the engine keeps the ids of its timers, and what one call does to them.
`Call.footprint` reads from the state before a call which timer it cancels,
which it starts, and whether it leaves no session; `call_left` says that the
call does exactly that.
-/

namespace QpskB210.Ltp

open QpskB210.Lib

/-! ## Slots -/

/-- Where a timer's id is kept: one of the two tables, and a key in it. -/
structure TimerSlot where
  checkpoint : Bool
  key : UInt64
deriving DecidableEq

def TimerEvent.slot (event : TimerEvent) : TimerSlot :=
  { checkpoint := event.type = .checkpoint
    key := timerKey event.sessionNumber event.serialNumber }

namespace Timers

/-- The id in a slot. -/
def held (t : Timers) (s : TimerSlot) : Option UInt64 :=
  if s.checkpoint then t.checkpoint.lookup s.key else t.report.lookup s.key

/-- Cancel the timer whose id is in the slot, if there is one. -/
def cancel (t : Timers) (s : TimerSlot) : Timers :=
  if s.checkpoint then t.cancelCheckpoint s.key else t.cancelReport s.key

variable {t : Timers} {tm : TimerManager}

theorem held_checkpoint (key : UInt64) : t.held ⟨true, key⟩ = t.checkpoint.lookup key := rfl

theorem held_report (key : UInt64) : t.held ⟨false, key⟩ = t.report.lookup key := rfl

theorem cancel_of_none {s : TimerSlot} (h : t.held s = none) : t.cancel s = t := by
  rw [cancel]
  rw [held] at h
  split at h
  · rw [if_pos ‹_›, cancelCheckpoint, h]
  · rw [if_neg ‹_›, cancelReport, h]

theorem cancel_manager {s : TimerSlot} {id : UInt64} (hm : t.manager = some tm)
    (h : t.held s = some id) : (t.cancel s).manager = some (tm.cancelTimer id) := by
  rw [cancel]
  rw [held] at h
  split at h
  · rw [if_pos ‹_›, cancelCheckpoint, h, hm]
    rfl
  · rw [if_neg ‹_›, cancelReport, h, hm]
    rfl

theorem cancel_held_same (s : TimerSlot) : (t.cancel s).held s = none := by
  cases hheld : t.held s with
  | none => rw [cancel_of_none hheld, hheld]
  | some id =>
      rw [held] at hheld
      rw [cancel, held]
      split at hheld
      · rw [if_pos ‹_›, if_pos ‹_›, cancelCheckpoint, hheld]
        exact AList.lookup_erase _ _
      · rw [if_neg ‹_›, if_neg ‹_›, cancelReport, hheld]
        exact AList.lookup_erase _ _

theorem cancel_held_other {s s' : TimerSlot} (h : s' ≠ s) : (t.cancel s).held s' = t.held s' := by
  cases hheld : t.held s with
  | none => rw [cancel_of_none hheld]
  | some id =>
      obtain ⟨checkpoint, key⟩ := s
      obtain ⟨checkpoint', key'⟩ := s'
      have hkey : checkpoint' = checkpoint → key' ≠ key := by
        intro hc hk
        exact h (by rw [hc, hk])
      cases checkpoint with
      | false =>
          rw [held_report] at hheld
          rw [cancel, if_neg (by simp), cancelReport, hheld]
          cases checkpoint' with
          | false => exact AList.lookup_erase_ne (hkey rfl)
          | true => rfl
      | true =>
          rw [held_checkpoint] at hheld
          rw [cancel, if_pos rfl, cancelCheckpoint, hheld]
          cases checkpoint' with
          | false => rfl
          | true => exact AList.lookup_erase_ne (hkey rfl)

theorem start_manager (hm : t.manager = some tm) (timeout : Nat) (event : TimerEvent) :
    (t.start timeout event).manager = some (tm.startTimer timeout event).1 := by
  unfold start
  rw [hm]
  dsimp only
  split <;> rfl

theorem start_held_same (hm : t.manager = some tm) (timeout : Nat) (event : TimerEvent) :
    (t.start timeout event).held event.slot = some (tm.nextId + 1) := by
  obtain ⟨type, engineId, sessionNumber, serialNumber⟩ := event
  unfold start
  rw [hm]
  cases type <;> exact AList.lookup_insert _

theorem start_held_other (timeout : Nat) {event : TimerEvent} {s : TimerSlot} (h : s ≠ event.slot) :
    (t.start timeout event).held s = t.held s := by
  unfold start
  cases hm : t.manager with
  | none => rfl
  | some tm =>
      obtain ⟨checkpoint, key⟩ := s
      have hkey : checkpoint = decide (event.type = .checkpoint) →
          key ≠ timerKey event.sessionNumber event.serialNumber := by
        intro hc hk
        exact h (by rw [hc, hk, TimerEvent.slot])
      dsimp only
      split
      · rename_i htype
        cases checkpoint with
        | false => rfl
        | true => exact AList.lookup_insert_ne (hkey (by simp [htype]))
      · rename_i htype
        cases checkpoint with
        | false => exact AList.lookup_insert_ne (hkey (decide_eq_false htype).symm)
        | true => rfl

end Timers

/-! ## What one call does to the timers -/

namespace Timers

/-- Cancel the slot of one event, then start the timer of another. -/
def turn (timeout : Nat) (cancelled started : Option TimerEvent) (t : Timers) : Timers :=
  let t := match cancelled with
    | none => t
    | some event => t.cancel event.slot
  match started with
  | none => t
  | some event => t.start timeout event

variable {t : Timers} {tm : TimerManager}

theorem cancel_manager_nextId (hm : t.manager = some tm) (s : TimerSlot) :
    ∃ tm', (t.cancel s).manager = some tm' ∧ tm'.nextId = tm.nextId := by
  cases hheld : t.held s with
  | none =>
      rw [cancel_of_none hheld]
      exact ⟨tm, hm, rfl⟩
  | some id => exact ⟨_, cancel_manager hm hheld, rfl⟩

theorem held_turn_started (hm : t.manager = some tm) (timeout : Nat)
    (cancelled : Option TimerEvent) (event : TimerEvent) :
    (t.turn timeout cancelled (some event)).held event.slot = some (tm.nextId + 1) := by
  cases cancelled with
  | none => exact start_held_same hm timeout event
  | some acked =>
      obtain ⟨tm', hm', hnext⟩ := cancel_manager_nextId hm acked.slot
      rw [← hnext]
      exact start_held_same hm' timeout event

theorem held_turn_cancelled (timeout : Nat) (event : TimerEvent) {started : Option TimerEvent}
    (h : ∀ new, started = some new → event.slot ≠ new.slot) :
    (t.turn timeout (some event) started).held event.slot = none := by
  cases started with
  | none => exact cancel_held_same event.slot
  | some new => exact (start_held_other timeout (h new rfl)).trans (cancel_held_same event.slot)

theorem held_turn_other (timeout : Nat) {cancelled started : Option TimerEvent} {s : TimerSlot}
    (hcancelled : ∀ event, cancelled = some event → s ≠ event.slot)
    (hstarted : ∀ event, started = some event → s ≠ event.slot) :
    (t.turn timeout cancelled started).held s = t.held s := by
  have hkept : (t.turn timeout cancelled none).held s = t.held s := by
    cases cancelled with
    | none => rfl
    | some event => exact cancel_held_other (hcancelled event rfl)
  cases started with
  | none => exact hkept
  | some event => exact (start_held_other timeout (hstarted event rfl)).trans hkept

end Timers

/-- The acts of a call turn the timers in this way. -/
def Turns (acts : List Act) (cancelled started : Option TimerEvent) : Prop :=
  ∀ timeout t, timed timeout acts t = t.turn timeout cancelled started

theorem Untimed.turns {acts : List Act} (h : Untimed acts) : Turns acts none none :=
  fun timeout t => h timeout t

theorem turns_of_start {acts : List Act} {event : TimerEvent}
    (h : ∀ timeout t, timed timeout acts t = t.start timeout event) : Turns acts none (some event) :=
  h

/-! ## Footprints -/

/-- What a call does to the timers and to the session it works on: the timer
it cancels, the one it then starts, and whether it leaves no session. -/
structure Footprint where
  cancelled : Option TimerEvent := none
  started : Option TimerEvent := none
  ends : Bool := false

/-- The timer of a session's next checkpoint. -/
def nextCheckpoint (session : LtpSession) : TimerEvent :=
  checkpointEvent session (session.checkpointSerialCounter + 1)

namespace LtpEngine

variable {e e' : LtpEngine} {key : SessionKey}

/-- The timer that a segment is to cancel: the one of the checkpoint or the
report that it acknowledges, of the session it is addressed to. -/
def acknowledged (e : LtpEngine) (seg : LtpSegment) : Option TimerEvent :=
  match seg.content, e.sessions.lookup (e.addressed seg) with
  | .report rs, some session =>
    if seg.segmentType = SegType.reportSegment ∧ session.role = .originator ∧
        session.state = .active then
      some { type := .checkpoint, engineId := e.config.localEngineId,
             sessionNumber := seg.sessionNumber, serialNumber := rs.checkpointSerial }
    else none
  | .rptAck ra, some session =>
    if seg.segmentType = SegType.reportAck ∧ session.role = .receiver then
      some { type := .reportSegment, engineId := seg.engineId,
             sessionNumber := seg.sessionNumber, serialNumber := ra.reportSerial }
    else none
  | _, _ => none

theorem acknowledged_of_ne {seg : LtpSegment} (hreport : seg.segmentType ≠ SegType.reportSegment)
    (hack : seg.segmentType ≠ SegType.reportAck) : e.acknowledged seg = none := by
  rw [acknowledged]
  split
  · rw [if_neg fun h => hreport h.1]
  · rw [if_neg fun h => hack h.1]
  · rfl

instance (e : LtpEngine) (session : LtpSession) : Decidable (e.Exhausted session) :=
  inferInstanceAs (Decidable (_ < _))

/-- One more attempt: the session is given up, or a timer is started. -/
def attemptFootprint (e : LtpEngine) (session : LtpSession) (started : Option TimerEvent) :
    Footprint :=
  if e.Exhausted session then { ends := true } else { started := started }

/-- The session's block is sent with a checkpoint, if it is red. -/
def blockTimer (session : LtpSession) : Option TimerEvent :=
  if session.isRed then some (nextCheckpoint session) else none

def startFootprint (e : LtpEngine) (data : Block) (reliable : Bool) : Footprint :=
  if e.isFull then {}
  else { started := blockTimer (e.startedSession data.bytes reliable), ends := !reliable }

/-- The session that a data segment meets. -/
def met (e : LtpEngine) (seg : LtpSegment) : Option LtpSession :=
  match e.sessions.lookup (segmentKey seg) with
  | some session => some session
  | none => if e.isFull then none else some (receiverSession seg)

def dataFootprint (e : LtpEngine) (seg : LtpSegment) : Footprint :=
  match seg.content, e.met seg with
  | .data ds, some session =>
    { started :=
        if SegType.hasCheckpoint seg.segmentType && ds.checkpointSerial.isSome then
          some (reportEvent session)
        else none
      ends := SegType.isGreen seg.segmentType && SegType.hasEob seg.segmentType }
  | _, _ => {}

def answerFootprint (e : LtpEngine) (session : LtpSession) (rs : ReportSegContent) : Footprint :=
  if fullyReceived session rs then { ends := true }
  else if computeGaps rs.claims rs.lowerBound rs.upperBound = [] then {}
  else e.attemptFootprint session (some (nextCheckpoint session))

def reportFootprint (e : LtpEngine) (seg : LtpSegment) : Footprint :=
  match seg.content, e.sessions.lookup (e.localKey seg.sessionNumber) with
  | .report rs, some session =>
    if session.role = .originator then e.answerFootprint session rs else {}
  | _, _ => {}

def ackFootprint (e : LtpEngine) (seg : LtpSegment) : Footprint :=
  match seg.content, e.sessions.lookup (segmentKey seg) with
  | .rptAck _, some session =>
    { ends := session.role = .receiver &&
        session.receptionTracker.isComplete session.totalDataLength }
  | _, _ => {}

def segmentFootprint (e : LtpEngine) (seg : LtpSegment) : Footprint :=
  if SegType.isData seg.segmentType then e.dataFootprint seg
  else if seg.segmentType = SegType.reportSegment then
    { e.reportFootprint seg with cancelled := e.acknowledged seg }
  else if seg.segmentType = SegType.reportAck then
    { e.ackFootprint seg with cancelled := e.acknowledged seg }
  else if seg.segmentType = SegType.cancelBySender ∨ seg.segmentType = SegType.cancelByReceiver then
    { ends := true }
  else {}

def checkpointFootprint (e : LtpEngine) (event : TimerEvent) : Footprint :=
  match e.sessions.lookup (e.localKey event.sessionNumber) with
  | none => {}
  | some session =>
    if session.role = .originator then e.attemptFootprint session (blockTimer session) else {}

def reportTimerFootprint (e : LtpEngine) (event : TimerEvent) : Footprint :=
  match e.sessions.lookup (eventKey event) with
  | none => {}
  | some session =>
    if session.role = .receiver ∧ 0 < session.totalDataLength then
      { started := some (reportEvent session) }
    else {}

def expiryFootprint (e : LtpEngine) (event : TimerEvent) : Footprint :=
  match event.type with
  | .checkpoint => e.checkpointFootprint event
  | .reportSegment => e.reportTimerFootprint event
  | .cancelSegment => {}

/-- From `e` to `e'` a call that works on the session under `key` left this
footprint. -/
structure Left (e e' : LtpEngine) (key : SessionKey) (f : Footprint) : Prop where
  timers : e'.timers =
    e.timers.turn e.config.retransmissionTimeoutMs.toNat f.cancelled f.started
  frame : ∀ k, k ≠ key → e'.sessions.lookup k = e.sessions.lookup k
  started : ∀ event, f.started = some event → eventKey event = key
  gone : f.ends = true → e'.sessions.lookup key = none
  stays : f.ends = false → f.started.isSome ∨ (e.sessions.lookup key).isSome →
    (e'.sessions.lookup key).isSome

theorem Left.refl (e : LtpEngine) (key : SessionKey) : Left e e key {} where
  timers := rfl
  frame := fun _ _ => rfl
  started := nofun
  gone := nofun
  stays := fun _ h => h.resolve_left (by simp)

variable {f : Footprint} {held : Option LtpSession} {acts : List Act} {rounds : UInt64}

theorem Effect.left (h : Effect e e' key held acts rounds) (hacts : Turns acts f.cancelled f.started)
    (hstarted : ∀ event, f.started = some event → eventKey event = key)
    (hends : f.ends = held.isNone) : Left e e' key f where
  timers := h.timers.trans (hacts _ _)
  frame := h.frame
  started := hstarted
  gone := fun hgone => by
    rw [hends] at hgone
    rw [h.lookup, Option.isNone_iff_eq_none.mp hgone]
  stays := fun hstays _ => by
    rw [hends] at hstays
    rw [h.lookup]
    cases held with
    | none => cases hstays
    | some session => rfl

/-- A call that starts no timer and leaves the session as it was. -/
theorem Effect.left_kept (h : Effect e e' key (e.sessions.lookup key) acts rounds)
    (hacts : Turns acts f.cancelled none) (hstarted : f.started = none) (hends : f.ends = false) :
    Left e e' key f where
  timers := by
    rw [hstarted]
    exact h.timers.trans (hacts _ _)
  frame := h.frame
  started := fun event hevent => by
    rw [hstarted] at hevent
    cases hevent
  gone := fun hgone => by
    rw [hends] at hgone
    cases hgone
  stays := fun _ hor => by
    rw [hstarted] at hor
    rw [h.lookup]
    exact hor.resolve_left (by simp)

/-! ## The calls -/

variable {session : LtpSession}

theorem eventKey_checkpoint (hs : Stored key session) (serial : UInt64) :
    eventKey (checkpointEvent session serial) = key := by
  rw [eventKey, checkpointEvent, hs.engineId, hs.sessionNumber]

theorem eventKey_report (hs : Stored key session) : eventKey (reportEvent session) = key := by
  rw [eventKey, reportEvent, hs.engineId, hs.sessionNumber]

theorem eventKey_blockTimer (hs : Stored key session) {event : TimerEvent}
    (h : blockTimer session = some event) : eventKey event = key := by
  rw [blockTimer] at h
  split at h
  · rw [← Option.some.inj h]
    exact eventKey_checkpoint hs _
  · cases h

theorem turns_block {maxSeg : UInt32} {cpSerial' : UInt64} {segments : List LtpSegment}
    (h : segmentDataImpl session maxSeg session.checkpointSerialCounter = .ok (segments, cpSerial')) :
    Turns (segments.map Act.send) none (blockTimer session) := by
  by_cases hred : session.isRed = true
  · rw [blockTimer, if_pos hred]
    exact turns_of_start (timed_block h hred)
  · rw [blockTimer, if_neg hred]
    exact (untimed_block h (by simpa using hred)).turns

theorem startSession_left (hw : e.WellStored) {data : Block} {reliable : Bool} {sn : UInt64}
    (h : e.startSession data reliable = .ok (e', sn)) :
    Left e e' (e.localKey (e.sessionCounter + 1)) (e.startFootprint data reliable) := by
  rcases startSession_cases h with ⟨hfull, rfl, -⟩ | ⟨hfree, rfl, segments, cpSerial, hsegments, h⟩
  · rw [startFootprint, if_pos hfull]
    exact .refl _ _
  · rw [startFootprint, if_neg (by simp [hfree])]
    have hleft := Effect.left (f := ⟨none, blockTimer _, !reliable⟩) h (turns_block hsegments)
      (fun event hevent => eventKey_blockTimer (hw.startedSession _ _) hevent)
      (by cases reliable <;> rfl)
    exact ⟨hleft.timers, hleft.frame, hleft.started, hleft.gone, hleft.stays⟩

theorem cancelSession_left {reason : UInt8}
    (h : e.cancelSession key.engineId key.sessionNumber reason = .ok e') :
    Left e e' key { ends := true } := by
  cases hlookup : e.sessions.lookup key with
  | none =>
      rw [cancelSession_of_none hlookup] at h
      cases h
      exact ⟨rfl, fun _ _ => rfl, nofun, fun _ => hlookup, nofun⟩
  | some session =>
      exact Effect.left (cancelSession_effect h hlookup)
        (untimed_send (cancelSegment_timerEvent _ _ _) (untimed_call _ untimed_nil)).turns nofun rfl

theorem Meets.met {seg : LtpSegment} (h : e.Meets seg session) : e.met seg = some session := by
  rw [LtpEngine.met]
  rcases h with hlookup | ⟨hnone, hfree, rfl⟩
  · rw [hlookup]
  · rw [hnone]
    dsimp only
    rw [if_neg (by simp [hfree])]

theorem receiveDataSegment_left (hw : e.WellStored) {seg : LtpSegment}
    (h : e.receiveDataSegment seg = .ok e') : Left e e' (segmentKey seg) (e.dataFootprint seg) := by
  obtain ⟨ds, hds, ⟨hnone, hfull, rfl⟩ | ⟨session, hmeets, hcases⟩⟩ := receiveDataSegment_cases h
  · rw [dataFootprint, hds, met, hnone]
    dsimp only
    rw [if_pos hfull]
    exact .refl _ _
  have hs := hw.meets hmeets
  rw [dataFootprint, hds, hmeets.met]
  dsimp only
  obtain ⟨hidle, -⟩ | ⟨stored, hstore, hout⟩ := hcases
  · exact absurd hs.active hidle
  by_cases hlast : (SegType.isGreen seg.segmentType && SegType.hasEob seg.segmentType) = true
  · -- the last green segment is no checkpoint, and delivers
    rw [hlast]
    rw [Bool.and_eq_true] at hlast
    obtain ⟨e₁, hbefore, haccept⟩ := receiveDataSegment_meets hds hmeets
    rw [haccept] at h
    obtain ⟨data, -, hdelivered⟩ := acceptData_delivers h hs.active hstore hlast.1 hlast.2
    rw [SegType.hasCheckpoint_of_isGreen hlast.1]
    exact Effect.left (hbefore.trans hdelivered) (untimed_call _ untimed_nil).turns nofun rfl
  rw [Bool.not_eq_true] at hlast
  rw [hlast]
  have hevent : reportEvent stored = reportEvent session := by
    obtain ⟨resized, buffer, -, -, rfl⟩ := LtpSession.store_eq hstore
    rfl
  cases hout with
  | quiet hcp h =>
      have hnone : (SegType.hasCheckpoint seg.segmentType && ds.checkpointSerial.isSome) = false := by
        cases hcheck : SegType.hasCheckpoint seg.segmentType with
        | false => rfl
        | true =>
            rw [hcp hcheck]
            rfl
      rw [hnone]
      exact Effect.left h untimed_nil.turns nofun rfl
  | reported serial hcp hserial h =>
      rw [hcp, hserial]
      refine Effect.left h ?_ (fun event hstarted => ?_) rfl
      · rw [← hevent]
        exact turns_of_start (timed_report stored serial _)
      · rw [← Option.some.inj hstarted]
        exact eventKey_report hs
  | delivered _ hgreen heob _ h =>
      rw [hgreen, heob] at hlast
      cases hlast

/-- The timer of the checkpoint that a report quotes. -/
def quotedCheckpoint (e : LtpEngine) (seg : LtpSegment) (rs : ReportSegContent) : TimerEvent :=
  { type := .checkpoint, engineId := e.config.localEngineId, sessionNumber := seg.sessionNumber,
    serialNumber := rs.checkpointSerial }

theorem turns_report {seg : LtpSegment} {rs : ReportSegContent} {rest : List Act}
    {started : Option TimerEvent} (h : Turns rest none started) :
    Turns ([.send (reportAck seg rs), .cancelCheckpoint
      (timerKey seg.sessionNumber rs.checkpointSerial)] ++ rest)
      (some (e.quotedCheckpoint seg rs)) started :=
  fun timeout t => h timeout (t.cancelCheckpoint (timerKey seg.sessionNumber rs.checkpointSerial))

theorem receiveReportSegment_left (hw : e.WellStored) {seg : LtpSegment}
    (htype : seg.segmentType = SegType.reportSegment) (h : e.receiveReportSegment seg = .ok e') :
    Left e e' (e.localKey seg.sessionNumber)
      { e.reportFootprint seg with cancelled := e.acknowledged seg } := by
  obtain ⟨rs, hrs, hcases⟩ := receiveReportSegment_cases h
  rw [acknowledged, reportFootprint, hrs, addressed_report htype]
  cases hlookup : e.sessions.lookup (e.localKey seg.sessionNumber) with
  | none =>
      rw [hlookup] at hcases
      dsimp only at hcases
      rw [← hlookup] at hcases
      exact Effect.left_kept hcases
        (untimed_send (reportAck_timerEvent seg rs) untimed_nil).turns rfl rfl
  | some session =>
      rw [hlookup] at hcases
      have hs := hw _ _ hlookup
      dsimp only at hcases ⊢
      by_cases hrole : session.role = .originator
      · rw [if_pos ⟨hrole, hs.active⟩] at hcases
        rw [if_pos ⟨htype, hrole, hs.active⟩, if_pos hrole, answerFootprint]
        cases hcases hs with
        | complete hfull h =>
            rw [if_pos hfull]
            exact Effect.left h (turns_report (untimed_call _ untimed_nil).turns) nofun rfl
        | waiting hfull hgaps h =>
            rw [if_neg (by simp [hfull]), if_pos hgaps]
            exact Effect.left h (turns_report untimed_nil.turns) nofun rfl
        | gaveUp hfull hgaps hmax h =>
            rw [if_neg (by simp [hfull]), if_neg hgaps, attemptFootprint, if_pos hmax]
            exact Effect.left h (turns_report (untimed_givingUp _ _).turns) nofun rfl
        | resent hfull hgaps hmax segments marked hsegments hmarked h =>
            rw [if_neg (by simp [hfull]), if_neg hgaps, attemptFootprint, if_neg hmax]
            obtain ⟨init, last, -, rfl⟩ := marked_eq hgaps hsegments hmarked
            refine Effect.left h (turns_report (turns_of_start (timed_marked init last)))
              (fun event hstarted => ?_) rfl
            rw [← Option.some.inj hstarted]
            exact eventKey_checkpoint hs _
      · rw [if_neg fun h => hrole h.1] at hcases
        rw [if_neg fun h => hrole h.2.1, if_neg hrole]
        exact Effect.left hcases untimed_nil.turns nofun rfl

theorem receiveReportAck_left {seg : LtpSegment} (htype : seg.segmentType = SegType.reportAck)
    (h : e.receiveReportAck seg = .ok e') :
    Left e e' (segmentKey seg) { e.ackFootprint seg with cancelled := e.acknowledged seg } := by
  have haddressed : e.addressed seg = segmentKey seg := addressed_of_ne (by rw [htype]; decide)
  obtain ⟨ra, hra, h⟩ := bind_eq_ok.mp h
  rw [acknowledged, ackFootprint, getRptAck_eq_ok.mp hra, haddressed]
  dsimp only at h
  rw [show SessionKey.mk seg.engineId seg.sessionNumber = segmentKey seg from rfl,
    show (e.count fun d => { d with reportAcksReceived := d.reportAcksReceived + 1 }).sessions =
      e.sessions from rfl] at h
  have hcount : Effect e
      (e.count fun d => { d with reportAcksReceived := d.reportAcksReceived + 1 }) (segmentKey seg)
      (e.sessions.lookup (segmentKey seg)) [] 0 := count_effect _ _ rfl
  cases hlookup : e.sessions.lookup (segmentKey seg) with
  | none =>
      rw [hlookup] at h
      cases h
      exact Effect.left_kept hcount untimed_nil.turns rfl rfl
  | some session =>
      rw [hlookup] at h
      dsimp only at h ⊢
      by_cases hrole : session.role = .receiver
      · rw [if_neg (not_not.mpr hrole)] at h
        rw [if_pos ⟨htype, hrole⟩, decide_eq_true hrole, Bool.true_and]
        have hcancel := hcount.keep (cancelReportTimer_effect _ (segmentKey seg)
          (timerKey seg.sessionNumber ra.reportSerial))
        by_cases hcomplete : session.receptionTracker.isComplete session.totalDataLength = true
        · rw [if_pos hcomplete] at h
          obtain ⟨data, -, hdeliver⟩ := deliver_effect h
          rw [hcomplete]
          exact Effect.left (hcancel.trans hdeliver) (fun _ _ => rfl) nofun rfl
        · rw [if_neg hcomplete] at h
          cases h
          rw [Bool.not_eq_true] at hcomplete
          exact Effect.left_kept hcancel (fun _ _ => rfl) rfl hcomplete
      · rw [if_pos hrole] at h
        cases h
        rw [if_neg fun h => hrole h.2, decide_eq_false hrole, Bool.false_and]
        exact Effect.left_kept hcount untimed_nil.turns rfl rfl

theorem receiveCancelSegment_left {seg : LtpSegment} (h : e.receiveCancelSegment seg = .ok e') :
    Left e e' (segmentKey seg) { ends := true } := by
  have hack := cancelAck_timerEvent seg
  obtain ⟨cc, -, hcases⟩ := receiveCancelSegment_cases h
  split at hcases
  · exact Effect.left hcases (untimed_send hack untimed_nil).turns nofun rfl
  · exact Effect.left hcases (untimed_send hack (untimed_call _ untimed_nil)).turns nofun rfl

theorem receiveSegment_left (hw : e.WellStored) {seg : LtpSegment}
    (h : e.receiveSegment seg = .ok e') :
    Left e e' (e.addressed seg) (e.segmentFootprint seg) := by
  rw [receiveSegment] at h
  rw [segmentFootprint]
  by_cases hdata : SegType.isData seg.segmentType = true
  · rw [if_pos hdata] at h
    rw [if_pos hdata, addressed_data hdata]
    exact receiveDataSegment_left hw h
  rw [if_neg hdata] at h
  rw [if_neg hdata]
  by_cases hreport : seg.segmentType = SegType.reportSegment
  · rw [if_pos hreport] at h
    rw [if_pos hreport, addressed_report hreport]
    exact receiveReportSegment_left hw hreport h
  rw [if_neg hreport] at h
  rw [if_neg hreport, addressed_of_ne hreport]
  by_cases hack : seg.segmentType = SegType.reportAck
  · rw [if_pos hack] at h
    rw [if_pos hack]
    exact receiveReportAck_left hack h
  rw [if_neg hack] at h
  rw [if_neg hack]
  split at h
  · rw [if_pos ‹_›]
    exact receiveCancelSegment_left h
  · rw [if_neg ‹_›]
    split at h
    · cases h
      rw [hw.receiveCancelAck]
      exact .refl _ _
    · cases h
      exact .refl _ _

/-- A segment stops the timer it acknowledges, if it acknowledges one. -/
theorem segmentFootprint_cancelled (seg : LtpSegment) :
    (e.segmentFootprint seg).cancelled = e.acknowledged seg := by
  rw [segmentFootprint]
  by_cases hdata : SegType.isData seg.segmentType = true
  · have hne {type : UInt8} (htype : SegType.isData type = false) : seg.segmentType ≠ type := by
      rintro rfl
      rw [hdata] at htype
      cases htype
    rw [if_pos hdata, acknowledged_of_ne (hne (by decide)) (hne (by decide)), dataFootprint]
    split <;> rfl
  rw [if_neg hdata]
  by_cases hreport : seg.segmentType = SegType.reportSegment
  · rw [if_pos hreport]
  rw [if_neg hreport]
  by_cases hack : seg.segmentType = SegType.reportAck
  · rw [if_pos hack]
  rw [if_neg hack, acknowledged_of_ne hreport hack]
  split <;> rfl

theorem checkpointExpiry_left (hw : e.WellStored) {event : TimerEvent}
    (h : e.checkpointExpiry event = .ok e') :
    Left e e' (e.localKey event.sessionNumber) (e.checkpointFootprint event) := by
  rw [checkpointFootprint]
  cases checkpointExpiry_outcome h fun session hlookup => hw _ session hlookup with
  | idle h hidle =>
      cases h
      cases hlookup : e.sessions.lookup (e.localKey event.sessionNumber) with
      | none => exact .refl _ _
      | some session =>
          dsimp only
          rw [if_neg (hidle session hlookup (hw _ _ hlookup).active)]
          exact .refl _ _
  | gaveUp session hlookup hrole hmax h =>
      rw [hlookup]
      dsimp only
      rw [if_pos hrole, attemptFootprint, if_pos hmax]
      exact Effect.left h (untimed_givingUp _ _).turns nofun rfl
  | resent session hlookup hrole hmax segments cpSerial hsegments h =>
      rw [hlookup]
      dsimp only
      rw [if_pos hrole, attemptFootprint, if_neg hmax]
      exact Effect.left h (@turns_block (attempted session) _ _ _ hsegments)
        (fun event hstarted => eventKey_blockTimer (hw _ _ hlookup) hstarted) rfl

theorem reportExpiry_left (hw : e.WellStored) {event : TimerEvent}
    (h : e.reportExpiry event = .ok e') :
    Left e e' (eventKey event) (e.reportTimerFootprint event) := by
  rw [reportExpiry] at h
  rw [reportTimerFootprint]
  rw [show SessionKey.mk event.engineId event.sessionNumber = eventKey event from rfl] at h
  cases hlookup : e.sessions.lookup (eventKey event) with
  | none =>
      rw [hlookup] at h
      cases h
      exact .refl _ _
  | some session =>
      rw [hlookup] at h
      have hs := hw _ _ hlookup
      dsimp only at h ⊢
      rw [if_neg (not_not.mpr hs.active)] at h
      by_cases hrole : session.role = .receiver
      · rw [if_neg (not_not.mpr hrole)] at h
        have hcount := e.countRetransmission_effect (eventKey event)
        by_cases htotal : 0 < session.totalDataLength
        · rw [if_pos htotal] at h
          rw [if_pos ⟨hrole, htotal⟩]
          refine Effect.left (hcount.trans (generateReport_effect h))
            (turns_of_start (timed_report session _ _)) (fun event hstarted => ?_) rfl
          rw [← Option.some.inj hstarted]
          exact eventKey_report hs
        · rw [if_neg htotal] at h
          cases h
          rw [if_neg fun h => htotal h.2]
          exact Effect.left_kept hcount untimed_nil.turns rfl rfl
      · rw [if_pos hrole] at h
        cases h
        rw [if_neg fun h => hrole h.1]
        exact .refl _ _

theorem handleTimerExpiry_left (hw : e.WellStored) {event : TimerEvent}
    (h : e.handleTimerExpiry event = .ok e') :
    Left e e' (e.timerSession event) (e.expiryFootprint event) := by
  rw [handleTimerExpiry] at h
  rw [expiryFootprint, timerSession]
  cases htype : event.type with
  | checkpoint =>
      rw [htype] at h
      exact checkpointExpiry_left hw h
  | reportSegment =>
      rw [htype] at h
      exact reportExpiry_left hw h
  | cancelSegment =>
      rw [htype] at h
      cases h
      exact .refl _ _

/-! ## Running timers -/

/-- Started, and neither fired nor cancelled. -/
def TimerRuns (e : LtpEngine) (entry : TimerEntry) : Prop :=
  ∃ tm, e.timerManager = some tm ∧ tm.Outstanding entry

theorem timerRuns_iff {tm : TimerManager} (h : e.timerManager = some tm) (entry : TimerEntry) :
    e.TimerRuns entry ↔ tm.Outstanding entry := by
  constructor
  · rintro ⟨tm', hmanager, hout⟩
    cases h.symm.trans hmanager
    exact hout
  · exact fun hout => ⟨tm, h, hout⟩

instance (e : LtpEngine) (entry : TimerEntry) : Decidable (e.TimerRuns entry) :=
  decidable_of_iff (e.timerManager.any fun tm => entry ∈ tm.heap ∧ entry.timerId ∉ tm.cancelled)
    (by simp [TimerRuns, TimerManager.Outstanding, Option.any_eq_true])

/-- The running timers. -/
def runningTimers (e : LtpEngine) : List TimerEntry :=
  (e.timerManager.elim [] TimerManager.heap).filter fun entry => e.TimerRuns entry

theorem mem_runningTimers {entry : TimerEntry} : entry ∈ e.runningTimers ↔ e.TimerRuns entry := by
  rw [runningTimers, List.mem_filter, decide_eq_true_eq, and_iff_right_iff_imp]
  intro hruns
  obtain ⟨tm, hmanager, hout⟩ := hruns
  rw [hmanager]
  exact hout.1

end LtpEngine

/-- The footprint of a call. An entry that expires fires if it still runs. -/
def Call.footprint (e : LtpEngine) : Call → Footprint
  | .startSession data reliable => e.startFootprint data reliable
  | .cancelSession _ _ _ => { ends := true }
  | .receiveSegment seg => e.segmentFootprint seg
  | .handleTimerExpiry event => e.expiryFootprint event
  | .expire entry => if e.TimerRuns entry then e.expiryFootprint entry.event else {}

/-- The engine that the call's handler starts from: an entry that expires is
out of the heap by then. -/
def Call.popped (e : LtpEngine) : Call → LtpEngine
  | .expire entry =>
    match e.timerManager with
    | none => e
    | some tm => if entry ∈ tm.heap then e.popped tm entry else e
  | _ => e

/-- Only the timer manager is another. -/
theorem Call.popped_eq (e : LtpEngine) (c : Call) :
    ∃ manager, c.popped e = { e with timerManager := manager } := by
  cases c with
  | expire entry =>
      rw [Call.popped]
      split
      · exact ⟨_, rfl⟩
      · split <;> exact ⟨_, rfl⟩
  | startSession | cancelSession | receiveSegment | handleTimerExpiry => exact ⟨_, rfl⟩

namespace LtpEngine

variable {e e' : LtpEngine}

/-- **Footprints.** A call turns the timers and ends or keeps its session as
its footprint says. -/
theorem call_left (hw : e.WellStored) {c : Call} (h : e.call c = .ok e') :
    Left (c.popped e) e' (c.key e) (c.footprint e) := by
  cases c with
  | startSession data reliable =>
      obtain ⟨⟨e₁, sn⟩, hstart, h⟩ := bind_eq_ok.mp h
      cases h
      exact startSession_left hw hstart
  | cancelSession engineId sn reason => exact @cancelSession_left e e' ⟨engineId, sn⟩ reason h
  | receiveSegment seg => exact receiveSegment_left hw h
  | handleTimerExpiry event => exact handleTimerExpiry_left hw h
  | expire entry =>
      rw [Call.popped, Call.footprint]
      rw [call] at h
      cases hmanager : e.timerManager with
      | none =>
          have hidle : ¬ e.TimerRuns entry := by
            rintro ⟨tm, hsome, -⟩
            cases hmanager.symm.trans hsome
          rw [expire, hmanager] at h
          cases h
          rw [if_neg hidle]
          exact .refl _ _
      | some tm =>
          have hruns := timerRuns_iff hmanager entry
          dsimp only
          by_cases hmem : entry ∈ tm.heap
          · rw [if_pos hmem]
            by_cases hcancelled : entry.timerId ∈ tm.cancelled
            · rw [expire, hmanager] at h
              dsimp only at h
              rw [if_pos hmem, timerExpiry, TimerManager.popEntry, if_pos hcancelled] at h
              rw [if_neg fun hr => (hruns.mp hr).2 hcancelled, LtpEngine.popped,
                TimerManager.popEntry, if_pos hcancelled]
              cases h
              exact .refl _ _
            · rw [expire_live hmanager hmem hcancelled] at h
              rw [if_pos (hruns.mpr ⟨hmem, hcancelled⟩)]
              exact @handleTimerExpiry_left (e.popped tm entry) e' hw entry.event h
          · rw [expire, hmanager] at h
            dsimp only at h
            rw [if_neg hmem] at h
            cases h
            rw [if_neg hmem, if_neg fun hr => hmem (hruns.mp hr).1]
            exact .refl _ _

end LtpEngine

end QpskB210.Ltp
