import QpskB210.Ltp.EngineCalls

/-!
# LTP — Session ledger

The four counters of `LtpDiagnostics` that record how sessions begin and end,
against the sessions in the table. A call begins or ends at most the session
under its own key, so what it books there must be what it does there: `owed`
is the balance of the counters without that session, and no call changes it.
-/

namespace QpskB210.Ltp

open QpskB210.Lib

/-- Sessions begun less sessions ended, as the 64-bit counters have it. -/
def LtpDiagnostics.balance (d : LtpDiagnostics) : UInt64 :=
  d.sessionsOriginated + d.sessionsReceived - d.sessionsCompleted - d.sessionsCancelled

theorem LtpDiagnostics.balance_sent (d : LtpDiagnostics) (type : UInt8) :
    (d.sent type).balance = d.balance := by
  rw [LtpDiagnostics.sent]
  repeat' split <;> try rfl

theorem LtpDiagnostics.balance_received (d : LtpDiagnostics) (type : UInt8) :
    (d.received type).balance = d.balance := by
  rw [LtpDiagnostics.received]
  split <;> rfl

/-- One for a session that is there. -/
def present (session : Option LtpSession) : UInt64 := if session.isSome then 1 else 0

@[simp] theorem present_none : present none = 0 := rfl

@[simp] theorem present_some (session : LtpSession) : present (some session) = 1 := rfl

namespace LtpEngine

/-- The balance of the counters without the session under the key. -/
def owed (e : LtpEngine) (key : SessionKey) : UInt64 :=
  e.diagnostics.balance - present (e.sessions.lookup key)

/-- From `e` to `e'` the counters moved as the session under the key did. -/
structure Booked (e e' : LtpEngine) (key : SessionKey) (held : Option LtpSession) : Prop where
  lookup : e'.sessions.lookup key = held
  owed : e'.owed key = e.owed key

variable {e e₁ e₂ e' : LtpEngine} {key : SessionKey} {held held₁ held₂ : Option LtpSession}
  {session held₀ : LtpSession}

namespace Booked

theorem refl (h : e.sessions.lookup key = held) : Booked e e key held := ⟨h, rfl⟩

theorem trans (h₁ : Booked e e₁ key held₁) (h₂ : Booked e₁ e₂ key held₂) :
    Booked e e₂ key held₂ :=
  ⟨h₂.lookup, h₂.owed.trans h₁.owed⟩

end Booked

/-! ## The primitive steps -/

/-- What is booked is what is done under the key. -/
theorem Booked.of_balance (h : e'.sessions.lookup key = held)
    (hbalance : e'.diagnostics.balance + present (e.sessions.lookup key) =
      e.diagnostics.balance + present held) : Booked e e' key held := by
  refine ⟨h, ?_⟩
  rw [LtpEngine.owed, LtpEngine.owed, h]
  grind

theorem booked_count {f : LtpDiagnostics → LtpDiagnostics} (h : e.sessions.lookup key = held)
    (hf : (f e.diagnostics).balance = e.diagnostics.balance) : Booked e (e.count f) key held :=
  .of_balance h (by rw [count, hf, h])

theorem booked_put (h : e.sessions.lookup key = some session) (session' : LtpSession) :
    Booked e (e.putSession key session') key (some session') :=
  .of_balance (AList.lookup_insert _) (by rw [h]; rfl)

theorem booked_send {seg : LtpSegment} (h : e.sendSegment seg = .ok e')
    (hlookup : e.sessions.lookup key = held) : Booked e e' key held := by
  obtain ⟨e₁, htimer, h⟩ := bind_eq_ok.mp h
  obtain ⟨bytes, -, h⟩ := bind_eq_ok.mp h
  cases h
  obtain ⟨-, hrest⟩ := startSegmentTimer_eq htimer
  rw [hrest]
  exact .of_balance hlookup (by rw [hlookup]; exact congrArg (· + _) (e.diagnostics.balance_sent _))

theorem booked_sends {segments : List LtpSegment} (h : e.sendSegments segments = .ok e')
    (hlookup : e.sessions.lookup key = held) : Booked e e' key held := by
  induction segments generalizing e with
  | nil =>
      cases h
      exact .refl hlookup
  | cons seg segments ih =>
      obtain ⟨e₁, hseg, h⟩ := bind_eq_ok.mp h
      have hsent := booked_send hseg hlookup
      exact hsent.trans (ih h hsent.lookup)

theorem booked_cancelCheckpointTimer (timer : UInt64) (h : e.sessions.lookup key = held) :
    Booked e (e.cancelCheckpointTimer timer) key held := by
  rw [cancelCheckpointTimer]
  split
  · exact .refl h
  · exact .of_balance h (by rw [h])

theorem booked_cancelReportTimer (timer : UInt64) (h : e.sessions.lookup key = held) :
    Booked e (e.cancelReportTimer timer) key held := by
  rw [cancelReportTimer]
  split
  · exact .refl h
  · exact .of_balance h (by rw [h])

/-- A session that ends is booked as completed or cancelled. -/
theorem booked_end {f : LtpDiagnostics → LtpDiagnostics} {event : Event}
    (h : e.sessions.lookup key = some session)
    (hf : (f e.diagnostics).balance + 1 = e.diagnostics.balance) :
    Booked e (((e.count f).emit event).eraseSession key) key none :=
  .of_balance (AList.lookup_erase _ _) (by rw [h]; exact hf.trans (UInt64.add_zero _).symm)

theorem booked_completed {event : Event} (h : e.sessions.lookup key = some session) :
    Booked e (((e.count fun d =>
      { d with sessionsCompleted := d.sessionsCompleted + 1 }).emit event).eraseSession key)
      key none := by
  apply booked_end h
  simp only [LtpDiagnostics.balance]
  grind

theorem booked_cancelled {event : Event} (h : e.sessions.lookup key = some session) :
    Booked e (((e.count fun d =>
      { d with sessionsCancelled := d.sessionsCancelled + 1 }).emit event).eraseSession key)
      key none := by
  apply booked_end h
  simp only [LtpDiagnostics.balance]
  grind

/-! ## The handlers -/

theorem booked_generateReport {serial upperBound : UInt64}
    (h : e.generateReport key session serial upperBound = .ok e')
    (hlookup : e.sessions.lookup key = some held₀) :
    Booked e e' key (some (reported session)) := by
  have hput := booked_put hlookup (reported session)
  exact hput.trans (booked_send h hput.lookup)

theorem booked_deliver (h : e.deliver key session = .ok e')
    (hlookup : e.sessions.lookup key = some held₀) : Booked e e' key none := by
  obtain ⟨data, -, h⟩ := bind_eq_ok.mp h
  cases h
  exact booked_completed hlookup

theorem booked_acceptData {seg : LtpSegment} {ds : DataSegContent}
    (h : e.acceptData key session seg ds = .ok e')
    (hlookup : e.sessions.lookup key = some session) : ∃ held, Booked e e' key held := by
  rw [acceptData] at h
  split at h
  · cases h
    exact ⟨_, .refl hlookup⟩
  · obtain ⟨stored, -, h⟩ := bind_eq_ok.mp h
    obtain ⟨e₁, hreport, h⟩ := bind_eq_ok.mp h
    have hcount : Booked e (e.count fun d => d.received seg.segmentType) key (some session) :=
      booked_count hlookup (LtpDiagnostics.balance_received _ _)
    have hput := hcount.trans (booked_put hcount.lookup stored)
    have hreported : ∃ session', Booked e e₁ key (some session') := by
      rw [reportCheckpoint] at hreport
      split at hreport
      · exact ⟨_, hput.trans (booked_generateReport hreport hput.lookup)⟩
      · cases hreport
        exact ⟨_, hput⟩
    obtain ⟨session', hreported⟩ := hreported
    split at h
    · exact ⟨_, hreported.trans (booked_deliver h hreported.lookup)⟩
    · cases h
      exact ⟨_, hreported⟩

theorem booked_receiveDataSegment {seg : LtpSegment} (h : e.receiveDataSegment seg = .ok e') :
    ∃ held, Booked e e' (segmentKey seg) held := by
  obtain ⟨ds, -, h⟩ := bind_eq_ok.mp h
  dsimp only at h
  rw [show SessionKey.mk seg.engineId seg.sessionNumber = segmentKey seg from rfl] at h
  split at h
  · rename_i session hlookup
    exact booked_acceptData h hlookup
  · rename_i hlookup
    split at h
    · cases h
      exact ⟨_, .refl hlookup⟩
    · have hbegun : Booked e ((e.putSession (segmentKey seg) (receiverSession seg)).count fun d =>
          { d with sessionsReceived := d.sessionsReceived + 1 }) (segmentKey seg)
          (some (receiverSession seg)) := by
        apply Booked.of_balance (AList.lookup_insert _)
        rw [hlookup]
        simp only [LtpDiagnostics.balance, count, putSession, present_none, present_some]
        grind
      obtain ⟨held, haccept⟩ := booked_acceptData h hbegun.lookup
      exact ⟨held, hbegun.trans haccept⟩

theorem booked_cancelSession {reason : UInt8}
    (h : e.cancelSession key.engineId key.sessionNumber reason = .ok e') :
    ∃ held, Booked e e' key held := by
  rw [cancelSession] at h
  dsimp only at h
  split at h
  · rename_i hlookup
    cases h
    exact ⟨_, .refl hlookup⟩
  · rename_i session hlookup
    obtain ⟨e₁, hsend, h⟩ := bind_eq_ok.mp h
    cases h
    have hsent := booked_send hsend hlookup
    exact ⟨_, hsent.trans (booked_cancelled hsent.lookup)⟩

/-- Both retransmission triggers end the session or leave it there. -/
theorem booked_retransmit {resend : LtpEngine → LtpSession → Except Exn LtpEngine}
    (h : e.retransmit key session resend = .ok e') (hlookup : e.sessions.lookup key = some held₀)
    (hs : Stored key session)
    (hresend : ∀ e₁ session₁ e₂ held₁, resend e₁ session₁ = .ok e₂ →
      e₁.sessions.lookup key = some held₁ → ∃ held, Booked e₁ e₂ key held) :
    ∃ held, Booked e e' key held := by
  rw [retransmit] at h
  have hput := booked_put hlookup (attempted session)
  split at h
  · rw [show (attempted session).engineId = key.engineId from hs.engineId,
      show (attempted session).sessionNumber = key.sessionNumber from hs.sessionNumber] at h
    obtain ⟨held, hcancel⟩ := booked_cancelSession h
    exact ⟨held, hput.trans hcancel⟩
  · have hcount : Booked (e.putSession key (attempted session))
        ((e.putSession key (attempted session)).count fun d =>
          { d with retransmissions := d.retransmissions + 1 }) key (some (attempted session)) :=
      booked_count hput.lookup rfl
    obtain ⟨held, hresent⟩ := hresend _ _ _ _ h hcount.lookup
    exact ⟨held, (hput.trans hcount).trans hresent⟩

theorem booked_resendBlock (h : e.resendBlock key session = .ok e')
    (hlookup : e.sessions.lookup key = some held₀) : ∃ held, Booked e e' key held := by
  obtain ⟨⟨segments, session'⟩, -, h⟩ := bind_eq_ok.mp h
  have hput := booked_put hlookup session'
  exact ⟨_, hput.trans (booked_sends h hput.lookup)⟩

theorem booked_retransmitGaps {gaps : List ReceptionClaim}
    (h : e.retransmitGaps key session gaps = .ok e')
    (hlookup : e.sessions.lookup key = some held₀) : ∃ held, Booked e e' key held := by
  obtain ⟨segments, -, h⟩ := bind_eq_ok.mp h
  obtain ⟨marked, -, h⟩ := bind_eq_ok.mp h
  have hput := booked_put hlookup (checkpointed session segments)
  exact ⟨_, hput.trans (booked_sends h hput.lookup)⟩

theorem booked_answerReport {rs : ReportSegContent} (h : e.answerReport key session rs = .ok e')
    (hlookup : e.sessions.lookup key = some session) (hs : Stored key session) :
    ∃ held, Booked e e' key held := by
  rw [answerReport] at h
  dsimp only at h
  split at h
  · cases h
    exact ⟨_, booked_completed hlookup⟩
  · split at h
    · cases h
      exact ⟨_, .refl hlookup⟩
    · exact booked_retransmit h hlookup hs fun _ _ _ _ => booked_retransmitGaps

theorem booked_receiveReportSegment (hw : e.WellStored) {seg : LtpSegment}
    (h : e.receiveReportSegment seg = .ok e') :
    ∃ held, Booked e e' (e.localKey seg.sessionNumber) held := by
  obtain ⟨rs, -, h⟩ := bind_eq_ok.mp h
  have hcount : Booked e (e.count fun d => { d with reportsReceived := d.reportsReceived + 1 })
      (e.localKey seg.sessionNumber) (e.sessions.lookup (e.localKey seg.sessionNumber)) :=
    booked_count rfl rfl
  dsimp only at h
  split at h
  · rename_i hlookup
    exact ⟨_, hcount.trans (booked_send h hcount.lookup)⟩
  · rename_i session hlookup
    have hlookup : e.sessions.lookup (e.localKey seg.sessionNumber) = some session := hlookup
    rw [hlookup] at hcount
    split at h
    · cases h
      exact ⟨_, hcount⟩
    · split at h
      · cases h
        exact ⟨_, hcount⟩
      · obtain ⟨e₁, hack, h⟩ := bind_eq_ok.mp h
        have hsent := hcount.trans (booked_send hack hcount.lookup)
        have hcancelled := hsent.trans (booked_cancelCheckpointTimer
          (timerKey seg.sessionNumber rs.checkpointSerial) hsent.lookup)
        obtain ⟨held, hanswer⟩ := booked_answerReport h hcancelled.lookup (hw _ _ hlookup)
        exact ⟨held, hcancelled.trans hanswer⟩

theorem booked_receiveReportAck {seg : LtpSegment} (h : e.receiveReportAck seg = .ok e') :
    ∃ held, Booked e e' (segmentKey seg) held := by
  obtain ⟨ra, -, h⟩ := bind_eq_ok.mp h
  have hcount : Booked e
      (e.count fun d => { d with reportAcksReceived := d.reportAcksReceived + 1 })
      (segmentKey seg) (e.sessions.lookup (segmentKey seg)) := booked_count rfl rfl
  dsimp only at h
  split at h
  · cases h
    exact ⟨_, hcount⟩
  · rename_i session hlookup
    have hlookup : e.sessions.lookup (segmentKey seg) = some session := hlookup
    rw [hlookup] at hcount
    split at h
    · cases h
      exact ⟨_, hcount⟩
    · have hcancelled := hcount.trans (booked_cancelReportTimer
        (timerKey seg.sessionNumber ra.reportSerial) hcount.lookup)
      split at h
      · exact ⟨_, hcancelled.trans (booked_deliver h hcancelled.lookup)⟩
      · cases h
        exact ⟨_, hcancelled⟩

theorem booked_receiveCancelSegment {seg : LtpSegment} (h : e.receiveCancelSegment seg = .ok e') :
    ∃ held, Booked e e' (segmentKey seg) held := by
  obtain ⟨cc, -, h⟩ := bind_eq_ok.mp h
  obtain ⟨e₁, hack, h⟩ := bind_eq_ok.mp h
  have hcount : Booked e
      (e.count fun d => { d with cancelSegmentsReceived := d.cancelSegmentsReceived + 1 })
      (segmentKey seg) (e.sessions.lookup (segmentKey seg)) := booked_count rfl rfl
  have hsent := hcount.trans (booked_send hack hcount.lookup)
  dsimp only at h
  split at h
  · cases h
    exact ⟨_, hsent⟩
  · rename_i session hlookup
    cases h
    exact ⟨_, hsent.trans (booked_cancelled hlookup)⟩

theorem booked_receiveSegment (hw : e.WellStored) {seg : LtpSegment}
    (h : e.receiveSegment seg = .ok e') : ∃ held, Booked e e' (e.addressed seg) held := by
  rcases receiveSegment_cases h with
    ⟨htype, h⟩ | ⟨htype, h⟩ | ⟨htype, h⟩ | ⟨htype, h⟩ | rfl | rfl
  · rw [addressed_data htype]
    exact booked_receiveDataSegment h
  · rw [addressed_report htype]
    exact booked_receiveReportSegment hw h
  · rw [addressed_of_ne (by rw [htype]; decide)]
    exact booked_receiveReportAck h
  · rw [addressed_of_ne (by rcases htype with htype | htype <;> rw [htype] <;> decide)]
    exact booked_receiveCancelSegment h
  · rw [hw.receiveCancelAck]
    exact ⟨_, .refl rfl⟩
  · exact ⟨_, .refl rfl⟩

theorem booked_checkpointExpiry (hw : e.WellStored) {event : TimerEvent}
    (h : e.checkpointExpiry event = .ok e') :
    ∃ held, Booked e e' (e.localKey event.sessionNumber) held := by
  rw [checkpointExpiry] at h
  split at h
  · cases h
    exact ⟨_, .refl rfl⟩
  · rename_i session hlookup
    split at h
    · cases h
      exact ⟨_, .refl rfl⟩
    · split at h
      · cases h
        exact ⟨_, .refl rfl⟩
      · exact booked_retransmit h hlookup (hw _ _ hlookup) fun _ _ _ _ => booked_resendBlock

theorem booked_reportExpiry {event : TimerEvent} (h : e.reportExpiry event = .ok e') :
    ∃ held, Booked e e' (eventKey event) held := by
  rw [reportExpiry] at h
  rw [show SessionKey.mk event.engineId event.sessionNumber = eventKey event from rfl] at h
  split at h
  · cases h
    exact ⟨_, .refl rfl⟩
  · rename_i session hlookup
    split at h
    · cases h
      exact ⟨_, .refl rfl⟩
    · split at h
      · cases h
        exact ⟨_, .refl rfl⟩
      · have hcount : Booked e
            (e.count fun d => { d with retransmissions := d.retransmissions + 1 })
            (eventKey event) (some session) := booked_count hlookup rfl
        dsimp only at h
        split at h
        · exact ⟨_, hcount.trans (booked_generateReport h hcount.lookup)⟩
        · cases h
          exact ⟨_, hcount⟩

theorem booked_handleTimerExpiry (hw : e.WellStored) {event : TimerEvent}
    (h : e.handleTimerExpiry event = .ok e') : ∃ held, Booked e e' (e.timerSession event) held := by
  rw [handleTimerExpiry] at h
  split at h
  · rename_i htype
    rw [timerSession, if_pos htype]
    exact booked_checkpointExpiry hw h
  · rename_i htype
    rw [timerSession, if_neg (by rw [htype]; decide)]
    exact booked_reportExpiry h
  · cases h
    exact ⟨_, .refl rfl⟩

/-- A new session is booked as originated, and as completed when it is
green. -/
theorem booked_startSession {data : Block} {reliable : Bool} {sn : UInt64}
    (h : e.startSession data reliable = .ok (e', sn))
    (hfree : e.sessions.lookup (e.localKey (e.sessionCounter + 1)) = none) :
    ∃ held, Booked e e' (e.localKey (e.sessionCounter + 1)) held := by
  rw [startSession] at h
  split at h
  · cases h
    exact ⟨_, .refl rfl⟩
  · dsimp only at h
    generalize hkey : e.localKey (e.sessionCounter + 1) = key at h hfree ⊢
    generalize hnew : originatorSession { e with sessionCounter := e.sessionCounter + 1 }
      (e.sessionCounter + 1) data.bytes reliable = new at h
    have hemplace : emplaceSession { e with sessionCounter := e.sessionCounter + 1 } key new =
        (putSession { e with sessionCounter := e.sessionCounter + 1 } key new, new) := by
      rw [emplaceSession]
      dsimp only
      rw [hfree]
    rw [hemplace] at h
    obtain ⟨⟨segments, session⟩, -, h⟩ := bind_eq_ok.mp h
    obtain ⟨e₁, hsend, h⟩ := bind_eq_ok.mp h
    have hbegun : Booked e ((putSession { e with sessionCounter := e.sessionCounter + 1 } key
        new).count fun d => { d with sessionsOriginated := d.sessionsOriginated + 1 }) key
        (some new) := by
      apply Booked.of_balance (AList.lookup_insert _)
      rw [hfree]
      simp only [LtpDiagnostics.balance, count, putSession, present_none, present_some]
      grind
    have hput := hbegun.trans (booked_put hbegun.lookup session)
    have hsent := hput.trans (booked_sends hsend hput.lookup)
    split at h
    · cases h
      exact ⟨_, hsent⟩
    · cases h
      have hended : Booked e₁ ((e₁.eraseSession key).count fun d =>
          { d with sessionsCompleted := d.sessionsCompleted + 1 }) key none := by
        apply Booked.of_balance (AList.lookup_erase _ _)
        rw [hsent.lookup]
        simp only [LtpDiagnostics.balance, count, eraseSession, present_none, present_some]
        grind
      exact ⟨_, hsent.trans hended⟩

/-- **Booking.** A call books exactly the beginning or the end of the session
it works on. -/
theorem booked_call (hw : e.WellStored) {c : Call} (h : e.call c = .ok e')
    (hfree : ∀ data reliable, c = .startSession data reliable →
      e.sessions.lookup (e.localKey (e.sessionCounter + 1)) = none) :
    e'.owed (c.key e) = e.owed (c.key e) := by
  cases c with
  | startSession data reliable =>
      obtain ⟨⟨e₁, sn⟩, hstart, h⟩ := bind_eq_ok.mp h
      cases h
      obtain ⟨held, hbooked⟩ := booked_startSession hstart (hfree data reliable rfl)
      exact hbooked.owed
  | cancelSession engineId sn reason =>
      obtain ⟨held, hbooked⟩ := @booked_cancelSession e e' ⟨engineId, sn⟩ reason h
      exact hbooked.owed
  | receiveSegment seg =>
      obtain ⟨held, hbooked⟩ := booked_receiveSegment hw h
      exact hbooked.owed
  | handleTimerExpiry event =>
      obtain ⟨held, hbooked⟩ := booked_handleTimerExpiry hw h
      exact hbooked.owed
  | expire entry =>
      rcases expire_cases h with rfl | ⟨tm, -, -, ⟨-, rfl⟩ | ⟨-, h⟩⟩
      · rfl
      · rfl
      · obtain ⟨held, hbooked⟩ := @booked_handleTimerExpiry (e.popped tm entry) e' hw entry.event h
        exact hbooked.owed

end LtpEngine

end QpskB210.Ltp
