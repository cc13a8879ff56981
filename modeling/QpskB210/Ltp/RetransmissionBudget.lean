import QpskB210.Ltp.EngineProgress

/-!
# LTP — Retransmission budget

How often an originator session retransmits. Its 8-bit count is raised by
both triggers, a report with gaps and a checkpoint timer, before it is
compared with the 8-bit limit; so the limit holds unless it is the largest
value, which no count exceeds.
-/

namespace QpskB210.Ltp

open QpskB210.Lib

namespace LtpEngine

/-- The engine originates the session under `key`. -/
def Originates (e : LtpEngine) (key : SessionKey) (session : LtpSession) : Prop :=
  e.sessions.lookup key = some session ∧ session.role = .originator

/-- A checkpoint timer's event, for the originator session under `key`. -/
def Concerns (e : LtpEngine) (key : SessionKey) (session : LtpSession) (event : TimerEvent) :
    Prop :=
  event.type = .checkpoint ∧ key = e.localKey event.sessionNumber ∧ e.Originates key session

/-- A call that asks the originator session under `key` to retransmit: a
report that leaves gaps in its scope, or an expired checkpoint timer. -/
inductive Trigger (e : LtpEngine) (key : SessionKey) : Action → Prop where
  | report {bytes : List UInt8} {seg : LtpSegment} {rs : ReportSegContent} {session : LtpSession}
      (hdecode : LtpSegment.decode bytes = .ok (some seg))
      (htype : seg.segmentType = SegType.reportSegment) (hrs : seg.content = .report rs)
      (hkey : key = e.localKey seg.sessionNumber) (hsession : e.Originates key session)
      (hfull : fullyReceived session rs = false)
      (hgaps : computeGaps rs.claims rs.lowerBound rs.upperBound ≠ []) : Trigger e key (.receive bytes)
  | event {event : TimerEvent} {session : LtpSession} (h : e.Concerns key session event) :
      Trigger e key (.handleTimerExpiry event)
  | expired {entry : TimerEntry} {tm : TimerManager} {session : LtpSession}
      (hmanager : e.timerManager = some tm) (hmem : entry ∈ tm.heap)
      (hlive : entry.timerId ∉ tm.cancelled) (h : e.Concerns key session entry.event) :
      Trigger e key (.expire entry)

/-- One retransmission round: a trigger that was counted as a retransmission. -/
def Round (e : LtpEngine) (key : SessionKey) (a : Action) (e' : LtpEngine) : Prop :=
  e.Trigger key a ∧ e'.diagnostics.retransmissions = e.diagnostics.retransmissions + 1

/-- The session under `key` was cancelled for reason 0x01, after at most an
acknowledgment. -/
def GivenUp (e : LtpEngine) (key : SessionKey) (e' : LtpEngine) : Prop :=
  e'.sessions.lookup key = none ∧
    ∃ acks : List LtpSegment, acks.length ≤ 1 ∧
      e'.trace = e.trace ++ acks.map (fun seg => Event.sendSegment seg.wire) ++
        [.sendSegment (cancelSegment .originator key 0x01).wire,
          .sessionFailure key key.sessionNumber 0x01]

/-- The states in the lifetime of an originator session under `key`, each with
the number of rounds so far. It begins in any reachable state, with the
`start_session` that puts the session into the table, and ends with the state
after the step that removes it. -/
inductive Lifetime (config : LtpEngineConfig) (key : SessionKey) : LtpEngine → Nat → Prop where
  | born {e e' : LtpEngine} {data : Block} {reliable : Bool} {session : LtpSession}
      (hreach : (runs config).Reachable System.free e)
      (hnew : ∀ session, ¬ e.Originates key session)
      (hstep : e.exec (.startSession data reliable) = .ok e') (hsession : e'.Originates key session) :
      Lifetime config key e' 0
  | round {e e' : LtpEngine} {n : Nat} {a : Action} {session : LtpSession}
      (hlife : Lifetime config key e n) (hsession : e.Originates key session)
      (hstep : e.exec a = .ok e') (hround : e.Round key a e') : Lifetime config key e' (n + 1)
  | other {e e' : LtpEngine} {n : Nat} {a : Action} {session : LtpSession}
      (hlife : Lifetime config key e n) (hsession : e.Originates key session)
      (hstep : e.exec a = .ok e') (hround : ¬ e.Round key a e') : Lifetime config key e' n

/-- The budget is kept: no lifetime has more rounds than the limit, and once
they are used up the next trigger gives up. -/
def BudgetKept (config : LtpEngineConfig) : Prop :=
  ∀ key e n, Lifetime config key e n →
    n ≤ config.maxRetransmissions.toNat ∧
      (n = config.maxRetransmissions.toNat → ∀ a, e.Trigger key a →
        ∃ e', e.exec a = .ok e' ∧ e.GivenUp key e' ∧ ¬ e.Round key a e')

variable {e e' : LtpEngine} {key : SessionKey} {session : LtpSession}

/-! ## What a trigger does -/

/-- What a trigger did: it gave up, or it counted one more attempt. -/
inductive TriggerOutcome (e e' : LtpEngine) (key : SessionKey) (session : LtpSession) : Prop where
  | gaveUp (hmax : e.Exhausted session) (h : e.GivenUp key e')
      (hdiag : e'.diagnostics.retransmissions = e.diagnostics.retransmissions)
  | resent (hmax : ¬ e.Exhausted session) (cpSerial : UInt64)
      (hlookup : e'.sessions.lookup key =
        some { attempted session with checkpointSerialCounter := cpSerial })
      (hdiag : e'.diagnostics.retransmissions = e.diagnostics.retransmissions + 1)

theorem givenUp_of_effect {ack : List Act} {segments : List LtpSegment}
    (h : Effect e e' key none (ack ++ givingUp key session) 0)
    (hack : events ack = segments.map fun seg => .sendSegment seg.wire)
    (hlength : segments.length ≤ 1) (hrole : session.role = .originator) : e.GivenUp key e' := by
  refine ⟨h.lookup, segments, hlength, ?_⟩
  rw [h.trace, events_append, hack, givingUp, hrole, ← List.append_assoc]
  rfl

theorem checkpointExpiry_trigger {event : TimerEvent} (hw : e.WellStored)
    (hkey : key = e.localKey event.sessionNumber) (hsession : e.Originates key session)
    (h : e.checkpointExpiry event = .ok e') : TriggerOutcome e e' key session := by
  subst hkey
  obtain ⟨hlookup, hrole⟩ := hsession
  cases checkpointExpiry_outcome h fun session hlookup => hw _ session hlookup with
  | idle _ hidle => exact absurd hrole (hidle session hlookup (hw _ _ hlookup).active)
  | gaveUp session' hlookup' _ hmax h =>
      cases hlookup.symm.trans hlookup'
      refine .gaveUp hmax (@givenUp_of_effect _ _ _ _ [] [] h rfl (by simp) hrole) ?_
      rw [h.retransmissions, UInt64.add_zero]
  | resent session' hlookup' _ hmax segments cpSerial _ h =>
      cases hlookup.symm.trans hlookup'
      exact .resent hmax cpSerial h.lookup h.retransmissions

theorem TriggerOutcome.of_popped {tm : TimerManager} {entry : TimerEntry}
    (h : TriggerOutcome (e.popped tm entry) e' key session) : TriggerOutcome e e' key session := by
  cases h with
  | gaveUp hmax h hdiag => exact .gaveUp hmax h hdiag
  | resent hmax cpSerial hlookup hdiag => exact .resent hmax cpSerial hlookup hdiag

theorem trigger_outcome {a : Action} (hw : e.WellStored) (hsession : e.Originates key session)
    (htrigger : e.Trigger key a) (h : e.exec a = .ok e') : TriggerOutcome e e' key session := by
  have hsame {session' : LtpSession} (h' : e.Originates key session') : session' = session :=
    Option.some.inj (h'.1.symm.trans hsession.1)
  cases htrigger with
  | report hdecode htype hrs hkey hsession' hfull hgaps =>
      cases hsame hsession'
      subst hkey
      have h : e.receiveBytes _ = .ok e' := h
      rw [receiveBytes_of_decode hdecode, receiveSegment_report htype] at h
      obtain ⟨rs', hrs', hcases⟩ := receiveReportSegment_cases h
      cases hrs.symm.trans hrs'
      have hs := hw _ _ hsession.1
      rw [hsession.1] at hcases
      dsimp only at hcases
      rw [if_pos ⟨hsession.2, hs.active⟩] at hcases
      cases hcases hs with
      | complete hfull' _ => exact absurd (hfull'.symm.trans hfull) (by decide)
      | waiting _ hgaps' _ => exact absurd hgaps' hgaps
      | gaveUp _ _ hmax h =>
          refine .gaveUp hmax (@givenUp_of_effect _ _ _ _ _ [reportAck _ _] h rfl le_rfl
            hsession.2) ?_
          rw [h.retransmissions, UInt64.add_zero]
      | resent _ _ hmax segments marked _ _ h =>
          obtain ⟨cpSerial, heq⟩ := checkpointed_eq (attempted session) segments
          exact .resent hmax cpSerial (heq ▸ h.lookup) h.retransmissions
  | event hevent =>
      obtain ⟨htype, hkey, hsession'⟩ := hevent
      have h : e.handleTimerExpiry _ = .ok e' := h
      rw [handleTimerExpiry, htype] at h
      exact checkpointExpiry_trigger hw hkey hsession h
  | expired hmanager hmem hlive hevent =>
      obtain ⟨htype, hkey, -⟩ := hevent
      have h : e.expire _ = .ok e' := h
      rw [expire_live hmanager hmem hlive, handleTimerExpiry, htype] at h
      -- popping the entry changed the timer manager only
      exact TriggerOutcome.of_popped (@checkpointExpiry_trigger (popped e _ _) _ _ _ _ hw hkey hsession h)

/-! ## What every other call leaves -/

/-- The session under `key`, if it is still there, is an originator's with
the same count. -/
def CountKept (e' : LtpEngine) (key : SessionKey) (session : LtpSession) : Prop :=
  ∀ held, e'.sessions.lookup key = some held →
    held.role = .originator ∧ held.retransmissionCount = session.retransmissionCount

theorem countKept_of_effect {k : SessionKey} {held : Option LtpSession} {acts : List Act}
    {rounds : UInt64} (hsession : e.Originates key session)
    (h : Effect e e' k held acts rounds)
    (hheld : key = k → ∀ s, held = some s →
      s.role = .originator ∧ s.retransmissionCount = session.retransmissionCount) :
    e'.CountKept key session := by
  intro s hlookup
  by_cases hk : key = k
  · subst hk
    exact hheld rfl s (h.lookup.symm.trans hlookup)
  · rw [h.frame key hk, hsession.1] at hlookup
    cases hlookup
    exact ⟨hsession.2, rfl⟩

theorem Originates.countKept (hsession : e.Originates key session) : e.CountKept key session := by
  intro s hlookup
  cases hsession.1.symm.trans hlookup
  exact ⟨hsession.2, rfl⟩

theorem receiveDataSegment_countKept {seg : LtpSegment} (hsession : e.Originates key session)
    (h : e.receiveDataSegment seg = .ok e') : e'.CountKept key session := by
  obtain ⟨ds, -, hcases⟩ := receiveDataSegment_cases h
  rcases hcases with ⟨-, -, rfl⟩ | ⟨met, hmeets, ⟨-, rfl⟩ | ⟨stored, hstore, hout⟩⟩
  · exact hsession.countKept
  · exact hsession.countKept
  · obtain ⟨resized, buffer, -, -, rfl⟩ := LtpSession.store_eq hstore
    have hmet : key = segmentKey seg → met = session := by
      intro hk
      rw [Meets, ← hk, hsession.1] at hmeets
      rcases hmeets with hm | ⟨hm, -⟩
      · exact (Option.some.inj hm).symm
      · cases hm
    cases hout with
    | quiet _ h | reported _ _ _ h =>
        refine countKept_of_effect hsession h fun hk s hs => ?_
        cases hs
        rw [← hmet hk] at hsession ⊢
        exact ⟨hsession.2, rfl⟩
    | delivered _ _ _ _ h => exact countKept_of_effect hsession h fun _ _ hs => nomatch hs

theorem checkpointExpiry_countKept {event : TimerEvent} (hw : e.WellStored)
    (hsession : e.Originates key session)
    (hnot : key ≠ e.localKey event.sessionNumber)
    (h : e.checkpointExpiry event = .ok e') : e'.CountKept key session := by
  cases checkpointExpiry_outcome h fun session hlookup => hw _ session hlookup with
  | idle h _ => exact h ▸ hsession.countKept
  | gaveUp _ _ _ _ h => exact countKept_of_effect hsession h fun _ _ hs => nomatch hs
  | resent _ _ _ _ _ _ _ h => exact countKept_of_effect hsession h fun hk => absurd hk hnot

theorem handleTimerExpiry_countKept {event : TimerEvent} (hw : e.WellStored)
    (hsession : e.Originates key session) (hnot : ¬ e.Concerns key session event)
    (h : e.handleTimerExpiry event = .ok e') : e'.CountKept key session := by
  rw [handleTimerExpiry] at h
  split at h
  · rename_i htype
    exact checkpointExpiry_countKept hw hsession (fun hk => hnot ⟨htype, hk, hsession⟩) h
  · rcases reportExpiry_cases h with rfl | ⟨met, hlookup, hrole, hcases⟩
    · exact hsession.countKept
    · -- a report timer works on a receiver session
      have hne : key ≠ eventKey event := by
        intro hk
        cases hsession.1.symm.trans (hk ▸ hlookup)
        exact absurd (hsession.2.symm.trans hrole) (by decide)
      rcases hcases with ⟨-, h⟩ | ⟨-, h⟩ <;>
        exact countKept_of_effect hsession h fun hk => absurd hk hne
  · exact Except.ok.inj h ▸ hsession.countKept

theorem receiveReportSegment_countKept {bytes : List UInt8} {seg : LtpSegment} (hw : e.WellStored)
    (hdecode : LtpSegment.decode bytes = .ok (some seg))
    (htype : seg.segmentType = SegType.reportSegment) (hsession : e.Originates key session)
    (hnot : ¬ e.Trigger key (.receive bytes)) (h : e.receiveReportSegment seg = .ok e') :
    e'.CountKept key session := by
  obtain ⟨rs, hrs, hcases⟩ := receiveReportSegment_cases h
  split at hcases
  · exact countKept_of_effect hsession hcases fun _ _ hs => nomatch hs
  · rename_i met hlookup
    have hmet : key = e.localKey seg.sessionNumber → met = session := by
      intro hk
      exact Option.some.inj (hlookup.symm.trans (hk ▸ hsession.1))
    split at hcases
    · have hs := hw _ _ hlookup
      cases hcases hs with
      | complete _ h => exact countKept_of_effect hsession h fun _ _ hs => nomatch hs
      | waiting _ _ h =>
          refine countKept_of_effect hsession h fun hk s hs => ?_
          cases hs
          exact ⟨hmet hk ▸ hsession.2, by rw [hmet hk]⟩
      | gaveUp _ _ _ h => exact countKept_of_effect hsession h fun _ _ hs => nomatch hs
      | resent hfull hgaps _ _ _ _ _ h =>
          refine countKept_of_effect hsession h fun hk => ?_
          rw [hmet hk] at hfull
          exact absurd (.report hdecode htype hrs hk hsession hfull hgaps) hnot
    · refine countKept_of_effect hsession hcases fun hk s hs => ?_
      cases hs
      exact ⟨hmet hk ▸ hsession.2, by rw [hmet hk]⟩

theorem receiveSegment_countKept {bytes : List UInt8} {seg : LtpSegment} (hw : e.WellStored)
    (hdecode : LtpSegment.decode bytes = .ok (some seg)) (hsession : e.Originates key session)
    (hnot : ¬ e.Trigger key (.receive bytes)) (h : e.receiveSegment seg = .ok e') :
    e'.CountKept key session := by
  rcases receiveSegment_cases h with ⟨-, h⟩ | ⟨htype, h⟩ | ⟨-, h⟩ | ⟨-, h⟩ | rfl | rfl
  · exact receiveDataSegment_countKept hsession h
  · exact receiveReportSegment_countKept hw hdecode htype hsession hnot h
  · obtain ⟨ra, -, ⟨_, _, _, _, _, _, h⟩ | ⟨acts, h, -⟩⟩ := receiveReportAck_cases h
    · exact countKept_of_effect hsession h fun _ _ hs => nomatch hs
    · refine countKept_of_effect hsession h fun hk s hs => ?_
      rw [← hk, hsession.1] at hs
      cases hs
      exact ⟨hsession.2, rfl⟩
  · obtain ⟨cc, -, hcases⟩ := receiveCancelSegment_cases h
    split at hcases <;> exact countKept_of_effect hsession hcases fun _ _ hs => nomatch hs
  · rw [hw.receiveCancelAck]
    exact hsession.countKept
  · exact hsession.countKept

/-- The session `start_session` finds under a key that is taken. -/
theorem startSession_countKept {data : Block} {reliable : Bool} {sn : UInt64}
    (hsession : e.Originates key session) (h : e.startSession data reliable = .ok (e', sn)) :
    e'.CountKept key session := by
  rcases startSession_cases h with ⟨-, rfl, -⟩ | ⟨-, rfl, segments, cpSerial, -, h⟩
  · exact hsession.countKept
  · have hsession' : Originates { e with sessionCounter := e.sessionCounter + 1 } key session :=
      hsession
    refine countKept_of_effect hsession' h fun hk s hs => ?_
    split at hs
    · cases hs
      rw [startedSession, ← hk, hsession.1]
      exact ⟨hsession.2, rfl⟩
    · cases hs

/-- Only a trigger changes the count of an originator session. -/
theorem exec_countKept {a : Action} (hw : e.WellStored) (hsession : e.Originates key session)
    (hnot : ¬ e.Trigger key a) (h : e.exec a = .ok e') : e'.CountKept key session := by
  cases a with
  | startSession data reliable =>
      obtain ⟨⟨e₁, sn⟩, hstart, h⟩ := bind_eq_ok.mp h
      cases h
      exact startSession_countKept hsession hstart
  | cancelSession engineId sessionNumber reason =>
      have h : e.cancelSession engineId sessionNumber reason = .ok e' := h
      cases hlookup : e.sessions.lookup ⟨engineId, sessionNumber⟩ with
      | none =>
          rw [@cancelSession_of_none e ⟨engineId, sessionNumber⟩ reason hlookup] at h
          exact Except.ok.inj h ▸ hsession.countKept
      | some met =>
          exact countKept_of_effect hsession
            (@cancelSession_effect e e' ⟨engineId, sessionNumber⟩ met reason h hlookup)
            fun _ _ hs => nomatch hs
  | receive bytes =>
      rcases receiveBytes_cases h with rfl | ⟨seg, hdecode, h⟩
      · exact hsession.countKept
      · exact receiveSegment_countKept hw hdecode hsession hnot h
  | expire entry =>
      rcases expire_cases h with rfl | ⟨tm, hmanager, hmem, ⟨-, rfl⟩ | ⟨hlive, h⟩⟩
      · exact hsession.countKept
      · exact hsession.countKept
      · exact @handleTimerExpiry_countKept (e.popped tm entry) e' key session entry.event hw hsession
          (fun hc => hnot (.expired hmanager hmem hlive hc)) h
  | handleTimerExpiry event =>
      exact handleTimerExpiry_countKept hw hsession (fun hc => hnot (.event hc)) h

/-! ## The count and the limit -/

theorem exhausted_iff (hmax : e.config.maxRetransmissions ≠ 255)
    (hle : session.retransmissionCount.toNat ≤ e.config.maxRetransmissions.toNat) :
    e.Exhausted session ↔
      session.retransmissionCount.toNat = e.config.maxRetransmissions.toNat := by
  have hlt : e.config.maxRetransmissions.toNat < 255 := by
    have hne : e.config.maxRetransmissions.toNat ≠ 255 := fun h => hmax (UInt8.toNat_inj.mp h)
    have := e.config.maxRetransmissions.toNat_lt
    omega
  have hadd : (session.retransmissionCount + 1).toNat = session.retransmissionCount.toNat + 1 := by
    rw [UInt8.toNat_add]
    exact Nat.mod_eq_of_lt (by change _ + 1 < 256; omega)
  rw [Exhausted, UInt8.lt_iff_toNat_lt, hadd]
  omega

/-- No count exceeds the largest limit. -/
theorem not_exhausted (hmax : e.config.maxRetransmissions = 255) : ¬ e.Exhausted session := by
  rw [Exhausted, hmax, UInt8.lt_iff_toNat_lt]
  have := (session.retransmissionCount + 1).toNat_lt
  rw [show (255 : UInt8).toNat = 255 from rfl]
  omega

/-- A trigger of a session whose budget is used up returns. -/
theorem trigger_returns {a : Action} (hsession : e.Originates key session)
    (htrigger : e.Trigger key a) (hmax : e.Exhausted session) : ∃ e', e.exec a = .ok e' := by
  have hexpiry (e₁ : LtpEngine) (hsessions : e₁.sessions = e.sessions)
      (hconfig : e₁.config = e.config) (event : TimerEvent) (htype : event.type = .checkpoint)
      (hkey : key = e.localKey event.sessionNumber) :
      ∃ e', e₁.handleTimerExpiry event = .ok e' := by
    rw [handleTimerExpiry, htype]
    refine checkpointExpiry_returns fun session' hlookup hnot => ?_
    rw [localKey, hsessions, hconfig] at hlookup
    rw [hkey, localKey] at hsession
    cases hsession.1.symm.trans hlookup
    rw [Exhausted, hconfig] at hnot
    exact absurd hmax hnot
  cases htrigger with
  | report hdecode htype hrs hkey hsession' hfull hgaps =>
      show ∃ e', e.receiveBytes _ = .ok e'
      rw [receiveBytes_of_decode hdecode, receiveSegment_report htype]
      refine receiveReportSegment_returns hrs fun session' hlookup _ hnot => ?_
      cases (hkey ▸ hsession.1).symm.trans hlookup
      exact absurd hmax hnot
  | event hevent => exact hexpiry e rfl rfl _ hevent.1 hevent.2.1
  | expired hmanager hmem hlive hevent =>
      show ∃ e', e.expire _ = .ok e'
      rw [expire_live hmanager hmem hlive]
      exact hexpiry (e.popped _ _) rfl rfl _ hevent.1 hevent.2.1

/-! ## Lifetimes -/

variable {config : LtpEngineConfig} {n : Nat}

theorem Lifetime.reachable (h : Lifetime config key e n) :
    (runs config).Reachable System.free e := by
  induction h with
  | born hreach _ hstep _ => exact hreach.step trivial hstep
  | round _ _ hstep _ ih => exact ih.step trivial hstep
  | other _ _ hstep _ ih => exact ih.step trivial hstep

/-- `start_session` puts its session in with no attempts. -/
theorem count_of_born {data : Block} {reliable : Bool}
    (hnew : ∀ session, ¬ e.Originates key session)
    (h : e.exec (.startSession data reliable) = .ok e') (hsession : e'.Originates key session) :
    session.retransmissionCount = 0 ∧ session.clientData = data.bytes ∧
      session.totalDataLength = UInt64.ofNat data.bytes.length := by
  obtain ⟨⟨e₁, sn⟩, hstart, h⟩ := bind_eq_ok.mp h
  cases h
  rcases startSession_cases hstart with ⟨-, rfl, -⟩ | ⟨-, rfl, segments, cpSerial, -, h⟩
  · exact absurd hsession (hnew session)
  · obtain ⟨hlookup, hrole⟩ := hsession
    by_cases hk : key = e.localKey (e.sessionCounter + 1)
    · rw [hk, h.lookup] at hlookup
      split at hlookup
      · cases hlookup
        -- a session that held the key would be an originator's, so there was none
        cases hheld : e.sessions.lookup (e.localKey (e.sessionCounter + 1)) with
        | none => simp [startedSession, hheld, originatorSession]
        | some held =>
            rw [startedSession, hheld] at hrole
            exact absurd ⟨hk ▸ hheld, hrole⟩ (hnew held)
      · cases hlookup
    · have hlookup := (h.frame key hk).symm.trans hlookup
      exact absurd ⟨hlookup, hrole⟩ (hnew session)

/-- Below the largest limit the count is the number of rounds. -/
theorem Lifetime.count (hmax : config.maxRetransmissions ≠ 255) (h : Lifetime config key e n) :
    n ≤ config.maxRetransmissions.toNat ∧
      ∀ session, e.Originates key session → session.retransmissionCount.toNat = n := by
  induction h with
  | born _ hnew hstep _ =>
      refine ⟨Nat.zero_le _, fun session hsession => ?_⟩
      rw [(count_of_born hnew hstep hsession).1]
      rfl
  | @round e e' n a session hlife hsession hstep hround ih =>
      obtain ⟨hle, hcount⟩ := ih
      have hconfig := config_of_reachable hlife.reachable
      have hn := hcount session hsession
      cases trigger_outcome (wellStored_of_reachable hlife.reachable) hsession hround.1 hstep with
      | gaveUp _ _ hdiag => exact absurd (hdiag.symm.trans hround.2) (ne_add_one _)
      | resent hnot cpSerial hlookup _ =>
          rw [exhausted_iff (hconfig ▸ hmax) (by rw [hn, hconfig]; exact hle), hn, hconfig] at hnot
          have hlt : n < config.maxRetransmissions.toNat := by omega
          refine ⟨hlt, fun session' hsession' => ?_⟩
          cases hlookup.symm.trans hsession'.1
          show (session.retransmissionCount + 1).toNat = n + 1
          have := config.maxRetransmissions.toNat_lt
          rw [UInt8.toNat_add, hn]
          exact Nat.mod_eq_of_lt (by change n + 1 < 256; omega)
  | @other e e' n a session hlife hsession hstep hround ih =>
      obtain ⟨hle, hcount⟩ := ih
      have hw := wellStored_of_reachable hlife.reachable
      refine ⟨hle, fun session' hsession' => ?_⟩
      by_cases htrigger : e.Trigger key a
      · cases trigger_outcome hw hsession htrigger hstep with
        | gaveUp _ hgave _ =>
            have hlookup := hsession'.1
            rw [hgave.1] at hlookup
            cases hlookup
        | resent _ _ _ hdiag => exact absurd ⟨htrigger, hdiag⟩ hround
      · rw [(exec_countKept hw hsession htrigger hstep session' hsession'.1).2]
        exact hcount session hsession

/-- Below the largest limit the budget is kept. -/
theorem budgetKept_of_ne (hmax : config.maxRetransmissions ≠ 255) : BudgetKept config := by
  intro key e n hlife
  obtain ⟨hle, hcount⟩ := hlife.count hmax
  refine ⟨hle, fun hn a htrigger => ?_⟩
  obtain ⟨session, hsession⟩ : ∃ session, e.Originates key session := by
    cases htrigger with
    | report _ _ _ _ hsession _ _ => exact ⟨_, hsession⟩
    | event h => exact ⟨_, h.2.2⟩
    | expired _ _ _ h => exact ⟨_, h.2.2⟩
  have hconfig := config_of_reachable hlife.reachable
  have hcount := hcount session hsession
  have hspent : e.Exhausted session :=
    (exhausted_iff (hconfig ▸ hmax) (by rw [hcount, hconfig]; exact hle)).mpr
      (by rw [hcount, hconfig]; exact hn)
  obtain ⟨e', hstep⟩ := trigger_returns hsession htrigger hspent
  cases trigger_outcome (wellStored_of_reachable hlife.reachable) hsession htrigger hstep with
  | gaveUp _ hgave hdiag =>
      exact ⟨e', hstep, hgave, fun hround => ne_add_one _ (hdiag.symm.trans hround.2)⟩
  | resent hnot _ _ _ => exact absurd hspent hnot

/-! ## The largest limit -/

theorem length_oneByte : ([7] : List UInt8).length < 2 ^ 57 := by decide

/-- A block of one byte. -/
def oneByte : Block := ⟨[7], length_oneByte⟩

/-- A report on the engine's session 1 that claims nothing of one byte. -/
def gapReport (config : LtpEngineConfig) : LtpSegment :=
  { segmentType := SegType.reportSegment, engineId := config.localEngineId, sessionNumber := 1
    content := .report
      { reportSerial := 1, checkpointSerial := 1, upperBound := 1, lowerBound := 0, claims := [] } }

theorem gapReport_travels (config : LtpEngineConfig) : (gapReport config).Travels where
  wellFormed :=
    { version := rfl, validType := rfl, headerCount := rfl, trailerCount := rfl
      content := ⟨rfl, Nat.zero_le _⟩ }
  headerExtensions := rfl
  trailerExtensions := rfl
  size := by
    show (0 : Nat) < 2 ^ 57
    decide

/-- The originator session of that byte. -/
def HoldsByte (e : LtpEngine) (key : SessionKey) : Prop :=
  ∃ session, e.Originates key session ∧ session.clientData = [7] ∧ session.totalDataLength = 1

theorem trigger_gapReport (hkey : key = e.localKey 1) (h : e.HoldsByte key) :
    e.Trigger key (.receive (gapReport config).wire) := by
  obtain ⟨session, hsession, -, htotal⟩ := h
  refine .report (gapReport_travels config).decode_wire rfl rfl hkey hsession ?_ (by decide)
  rw [fullyReceived, htotal]
  rfl

/-- With the largest limit, the report is answered with one more round. -/
theorem round_gapReport (hw : e.WellStored) (hkey : key = e.localKey 1)
    (hconfig : e.config = config) (hvalid : config.Valid)
    (hmax : config.maxRetransmissions = 255) (h : e.HoldsByte key) :
    ∃ e', e.exec (.receive (gapReport config).wire) = .ok e' ∧
      e.Round key (.receive (gapReport config).wire) e' ∧ e'.HoldsByte key := by
  have htrigger := @trigger_gapReport e key config hkey h
  obtain ⟨session, hsession, hdata, htotal⟩ := h
  obtain ⟨e', hstep⟩ : ∃ e', e.exec (.receive (gapReport config).wire) = .ok e' := by
    show ∃ e', e.receiveBytes (gapReport config).wire = .ok e'
    rw [receiveBytes_of_decode (gapReport_travels config).decode_wire, receiveSegment_report rfl]
    refine receiveReportSegment_returns rfl fun session' hlookup _ _ => ?_
    have hlookup' : e.sessions.lookup (e.localKey 1) = some session' := hlookup
    rw [← hkey] at hlookup'
    cases hsession.1.symm.trans hlookup'
    refine ⟨hconfig ▸ hvalid.maxSegmentSize, ?_⟩
    rw [hdata]
    decide
  cases trigger_outcome hw hsession htrigger hstep with
  | gaveUp hspent _ _ => exact absurd hspent (not_exhausted (hconfig ▸ hmax))
  | resent _ cpSerial hlookup hdiag =>
      exact ⟨e', hstep, ⟨htrigger, hdiag⟩, _, ⟨hlookup, hsession.2⟩, hdata, htotal⟩

/-- With the largest limit a lifetime can have any number of rounds. -/
theorem exists_lifetime (hvalid : config.Valid) (hmax : config.maxRetransmissions = 255) (n : Nat) :
    ∃ e, Lifetime config ⟨config.localEngineId, 1⟩ e n ∧
      e.HoldsByte ⟨config.localEngineId, 1⟩ := by
  induction n with
  | zero =>
      have hfull : (create config none).isFull = false := by
        have hne : config.maxConcurrentSessions.toNat ≠ 0 := fun h =>
          hvalid.maxConcurrentSessions (UInt32.toNat_inj.mp h)
        rw [isFull, decide_eq_false_iff_not]
        show ¬ config.maxConcurrentSessions.toNat ≤ 0
        omega
      obtain ⟨e, sn, hstart⟩ := @startSession_returns (create config none) oneByte true
        ⟨.inr hvalid.maxSegmentSize, oneByte.size_lt⟩
      have hexec : (create config none).exec (.startSession oneByte true) = .ok e :=
        bind_eq_ok.mpr ⟨_, hstart, rfl⟩
      rcases startSession_cases hstart with ⟨hfull', -, -⟩ | ⟨-, rfl, segments, cpSerial, -, h⟩
      · exact absurd (hfull.symm.trans hfull') (by decide)
      · refine ⟨e, .born (.init ⟨none, rfl⟩) ?_ hexec ⟨h.lookup, rfl⟩,
          _, ⟨h.lookup, rfl⟩, rfl, rfl⟩
        intro session hsession
        obtain ⟨hlookup, -⟩ := hsession
        cases hlookup
  | succ n ih =>
      obtain ⟨e, hlife, hbyte⟩ := ih
      have hconfig := config_of_reachable hlife.reachable
      have hkey : (⟨config.localEngineId, 1⟩ : SessionKey) = e.localKey 1 := by
        rw [localKey, hconfig]
      obtain ⟨e', hstep, hround, hbyte'⟩ := round_gapReport
        (wellStored_of_reachable hlife.reachable) hkey hconfig hvalid hmax hbyte
      obtain ⟨session, hsession, -⟩ := hbyte
      exact ⟨e', hlife.round hsession hstep hround, hbyte'⟩

theorem not_budgetKept (hvalid : config.Valid) (hmax : config.maxRetransmissions = 255) :
    ¬ BudgetKept config := by
  intro hkept
  obtain ⟨e, hlife, -⟩ := exists_lifetime hvalid hmax 256
  have hle := (hkept _ e 256 hlife).1
  rw [hmax] at hle
  exact absurd hle (by decide)

/-- **Retransmission budget.** A validated configuration keeps the budget
exactly if its limit is not the largest value of the counter's type. -/
theorem retransmission_budget (cfg : LtpClaConfig) (h : cfg.validate = []) :
    BudgetKept cfg.ltp ↔ cfg.ltp.maxRetransmissions ≠ 255 :=
  ⟨fun hkept hmax => not_budgetKept (LtpClaConfig.valid_of_validate h) hmax hkept,
    budgetKept_of_ne⟩

theorem retransmission_budget_defaults : BudgetKept ({} : LtpClaConfig).ltp :=
  (retransmission_budget {} LtpClaConfig.validate_defaults).mpr (by decide)

/-- A validated configuration with the limit 255 retransmits without end. -/
theorem retransmission_budget_unbounded :
    ¬ ∀ cfg : LtpClaConfig, cfg.validate = [] → BudgetKept cfg.ltp := by
  intro h
  have hvalid : LtpClaConfig.validate { ltp := { maxRetransmissions := 255 } } = [] := by
    decide +kernel
  exact not_budgetKept (LtpClaConfig.valid_of_validate hvalid) rfl (h _ hvalid)

end LtpEngine

end QpskB210.Ltp
