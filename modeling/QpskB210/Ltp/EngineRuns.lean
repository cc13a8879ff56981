import QpskB210.Lib.Transition
import QpskB210.Ltp.Segmentation

/-!
# LTP — Engine runs

An engine as a transition system: the calls a program can make, in any order
and number. Every session stays stored under its own key and ACTIVE
(`WellStored`); what else a call does to the session it works on depends on
the call (`Action.Outcome`), which the properties of runs read off.
-/

namespace QpskB210.Ltp

open QpskB210.Lib

/-- One call of the engine's interface. `receive` takes the bytes of one
segment from the link, `expire` one entry of the timer manager's heap, and
`handleTimerExpiry` is the public function called with any event. -/
inductive Action where
  | startSession (data : Block) (reliable : Bool)
  | cancelSession (engineId sessionNumber : UInt64) (reason : UInt8)
  | receive (bytes : List UInt8)
  | expire (entry : TimerEntry)
  | handleTimerExpiry (event : TimerEvent)

namespace LtpEngine

/-- Let an entry of the heap expire; there is nothing to expire without a
timer manager or for an entry that is not in its heap. -/
def expire (e : LtpEngine) (entry : TimerEntry) : Except Exn LtpEngine :=
  match e.timerManager with
  | none => .ok e
  | some tm => if entry ∈ tm.heap then e.timerExpiry tm entry else .ok e

def exec (e : LtpEngine) : Action → Except Exn LtpEngine
  | .startSession data reliable => do
    let (e, _) ← e.startSession data reliable
    pure e
  | .cancelSession engineId sessionNumber reason => e.cancelSession engineId sessionNumber reason
  | .receive bytes => e.receiveBytes bytes
  | .expire entry => e.expire entry
  | .handleTimerExpiry event => e.handleTimerExpiry event

/-- Some calls, one after the other. -/
def run (e : LtpEngine) (actions : List Action) : Except Exn LtpEngine := actions.foldlM exec e

/-- A newly constructed engine, with the timer manager it was given. -/
def create (config : LtpEngineConfig) (timerManager : Option TimerManager) : LtpEngine :=
  { config := config, timerManager := timerManager }

/-- The runs of an engine with this configuration. -/
def runs (config : LtpEngineConfig) : System LtpEngine Action where
  init e := ∃ timerManager, e = create config timerManager
  step e a e' := e.exec a = .ok e'

/-- Every session is stored under its own key, and is ACTIVE. -/
def WellStored (e : LtpEngine) : Prop :=
  ∀ key session, e.sessions.lookup key = some session → Stored key session

/-! ## The calls by cases -/

variable {e e' : LtpEngine} {key : SessionKey}

theorem receiveSegment_cases {seg : LtpSegment} (h : e.receiveSegment seg = .ok e') :
    (SegType.isData seg.segmentType = true ∧ e.receiveDataSegment seg = .ok e') ∨
      (seg.segmentType = SegType.reportSegment ∧ e.receiveReportSegment seg = .ok e') ∨
      (seg.segmentType = SegType.reportAck ∧ e.receiveReportAck seg = .ok e') ∨
      ((seg.segmentType = SegType.cancelBySender ∨ seg.segmentType = SegType.cancelByReceiver) ∧
        e.receiveCancelSegment seg = .ok e') ∨
      (e' = e.receiveCancelAck seg ∨ e' = e) := by
  rw [receiveSegment] at h
  by_cases hdata : SegType.isData seg.segmentType = true
  · rw [if_pos hdata] at h
    exact .inl ⟨hdata, h⟩
  rw [if_neg hdata] at h
  by_cases hreport : seg.segmentType = SegType.reportSegment
  · rw [if_pos hreport] at h
    exact .inr (.inl ⟨hreport, h⟩)
  rw [if_neg hreport] at h
  by_cases hack : seg.segmentType = SegType.reportAck
  · rw [if_pos hack] at h
    exact .inr (.inr (.inl ⟨hack, h⟩))
  rw [if_neg hack] at h
  by_cases hcancel : seg.segmentType = SegType.cancelBySender ∨
      seg.segmentType = SegType.cancelByReceiver
  · rw [if_pos hcancel] at h
    exact .inr (.inr (.inr (.inl ⟨hcancel, h⟩)))
  rw [if_neg hcancel] at h
  refine .inr (.inr (.inr (.inr ?_)))
  split at h
  · exact .inl (Except.ok.inj h).symm
  · exact .inr (Except.ok.inj h).symm

theorem receiveBytes_cases {bytes : List UInt8} (h : e.receiveBytes bytes = .ok e') :
    e' = e ∨ ∃ seg, LtpSegment.decode bytes = .ok (some seg) ∧ e.receiveSegment seg = .ok e' := by
  obtain ⟨seg?, hdecode, h⟩ := bind_eq_ok.mp h
  cases seg? with
  | none => exact .inl (Except.ok.inj h).symm
  | some seg => exact .inr ⟨seg, hdecode, h⟩

theorem receiveBytes_of_decode {bytes : List UInt8} {seg : LtpSegment}
    (h : LtpSegment.decode bytes = .ok (some seg)) :
    e.receiveBytes bytes = e.receiveSegment seg := by
  rw [receiveBytes, h]
  rfl

/-- The engine after its timer manager popped an entry. -/
def popped (e : LtpEngine) (tm : TimerManager) (entry : TimerEntry) : LtpEngine :=
  { e with timerManager := some (tm.popEntry entry).1 }

theorem expire_cases {entry : TimerEntry} (h : e.expire entry = .ok e') :
    e' = e ∨ ∃ tm, e.timerManager = some tm ∧ entry ∈ tm.heap ∧
      ((entry.timerId ∈ tm.cancelled ∧ e' = e.popped tm entry) ∨
        (entry.timerId ∉ tm.cancelled ∧
          (e.popped tm entry).handleTimerExpiry entry.event = .ok e')) := by
  rw [expire] at h
  split at h
  · exact .inl (Except.ok.inj h).symm
  · rename_i tm hmanager
    by_cases hmem : entry ∈ tm.heap
    · rw [if_pos hmem] at h
      refine .inr ⟨tm, hmanager, hmem, ?_⟩
      by_cases hcancelled : entry.timerId ∈ tm.cancelled
      · refine .inl ⟨hcancelled, ?_⟩
        rw [timerExpiry, TimerManager.popEntry, if_pos hcancelled] at h
        rw [popped, TimerManager.popEntry, if_pos hcancelled]
        exact (Except.ok.inj h).symm
      · refine .inr ⟨hcancelled, ?_⟩
        rw [timerExpiry, TimerManager.popEntry, if_neg hcancelled] at h
        rw [popped, TimerManager.popEntry, if_neg hcancelled]
        exact h
    · rw [if_neg hmem] at h
      exact .inl (Except.ok.inj h).symm

/-- An entry that was not cancelled fires. -/
theorem expire_live {tm : TimerManager} {entry : TimerEntry} (hmanager : e.timerManager = some tm)
    (hmem : entry ∈ tm.heap) (hlive : entry.timerId ∉ tm.cancelled) :
    e.expire entry = (e.popped tm entry).handleTimerExpiry entry.event := by
  rw [expire, hmanager]
  dsimp only
  rw [if_pos hmem, timerExpiry, popped, TimerManager.popEntry, if_neg hlive]

/-! ## Sessions are stored under their own keys -/

theorem wellStored_create (config : LtpEngineConfig) (timerManager : Option TimerManager) :
    (create config timerManager).WellStored := by
  intro key session h
  cases h

theorem WellStored.effect {held : Option LtpSession} {acts : List Act} {rounds : UInt64}
    (hw : e.WellStored) (h : Effect e e' key held acts rounds)
    (hheld : ∀ session, held = some session → Stored key session) : e'.WellStored := by
  intro k session hlookup
  by_cases hk : k = key
  · rw [hk] at hlookup ⊢
    exact hheld session (h.lookup.symm.trans hlookup)
  · exact hw k session ((h.frame k hk).symm.trans hlookup)

theorem WellStored.effect_none {acts : List Act} {rounds : UInt64} (hw : e.WellStored)
    (h : Effect e e' key none acts rounds) : e'.WellStored :=
  hw.effect h fun _ hs => nomatch hs

theorem WellStored.effect_some {session : LtpSession} {acts : List Act} {rounds : UInt64}
    (hw : e.WellStored) (h : Effect e e' key (some session) acts rounds)
    (hs : Stored key session) : e'.WellStored :=
  hw.effect h fun _ h => Option.some.inj h ▸ hs

theorem Stored.store {session stored : LtpSession} {type : UInt8} {ds : DataSegContent}
    (hs : Stored key session) (h : session.store type ds = .ok stored) : Stored key stored := by
  obtain ⟨resized, buffer, -, -, rfl⟩ := LtpSession.store_eq h
  exact ⟨hs.engineId, hs.sessionNumber, hs.active⟩

/-- The session that a data segment meets is stored as it should be. -/
theorem WellStored.meets (hw : e.WellStored) {seg : LtpSegment} {session : LtpSession}
    (h : e.Meets seg session) : Stored (segmentKey seg) session := by
  rcases h with h | ⟨-, -, rfl⟩
  · exact hw _ _ h
  · exact ⟨rfl, rfl, rfl⟩

theorem WellStored.receiveDataSegment (hw : e.WellStored) {seg : LtpSegment}
    (h : e.receiveDataSegment seg = .ok e') : e'.WellStored := by
  obtain ⟨ds, -, hcases⟩ := receiveDataSegment_cases h
  rcases hcases with ⟨-, -, rfl⟩ | ⟨session, hmeets, ⟨-, rfl⟩ | ⟨stored, hstore, hout⟩⟩
  · exact hw
  · exact hw
  · have hstored := (hw.meets hmeets).store hstore
    cases hout with
    | quiet _ h => exact hw.effect_some h hstored
    | reported _ _ _ h =>
        exact hw.effect_some h ⟨hstored.engineId, hstored.sessionNumber, hstored.active⟩
    | delivered _ _ _ _ h => exact hw.effect_none h

theorem Stored.checkpointed {session : LtpSession} (hs : Stored key session)
    (segments : List LtpSegment) : Stored key (checkpointed session segments) := by
  rw [LtpEngine.checkpointed]
  split
  · exact hs
  · exact ⟨hs.engineId, hs.sessionNumber, hs.active⟩

theorem Stored.attempted {session : LtpSession} (hs : Stored key session) :
    Stored key (attempted session) :=
  ⟨hs.engineId, hs.sessionNumber, hs.active⟩

theorem WellStored.reportOutcome (hw : e.WellStored) {session : LtpSession}
    {rs : ReportSegContent} {ack : List Act} (hs : Stored key session)
    (h : ReportOutcome e e' key session rs ack) : e'.WellStored := by
  cases h with
  | complete _ h => exact hw.effect_none h
  | waiting _ _ h => exact hw.effect_some h hs
  | gaveUp _ _ _ h => exact hw.effect_none h
  | resent _ _ _ _ _ _ _ h => exact hw.effect_some h (hs.attempted.checkpointed _)

theorem WellStored.receiveReportSegment (hw : e.WellStored) {seg : LtpSegment}
    (h : e.receiveReportSegment seg = .ok e') : e'.WellStored := by
  obtain ⟨rs, -, hcases⟩ := receiveReportSegment_cases h
  split at hcases
  · exact hw.effect_none hcases
  · rename_i session hlookup
    have hs := hw _ _ hlookup
    split at hcases
    · exact hw.reportOutcome hs (hcases hs)
    · exact hw.effect_some hcases hs

theorem WellStored.receiveReportAck (hw : e.WellStored) {seg : LtpSegment}
    (h : e.receiveReportAck seg = .ok e') : e'.WellStored := by
  obtain ⟨ra, -, ⟨_, _, _, _, _, _, h⟩ | ⟨acts, h, -⟩⟩ := receiveReportAck_cases h
  · exact hw.effect_none h
  · exact hw.effect h fun session hlookup => hw _ _ hlookup

theorem WellStored.cancelSession (hw : e.WellStored) {reason : UInt8}
    (h : e.cancelSession key.engineId key.sessionNumber reason = .ok e') : e'.WellStored := by
  cases hlookup : e.sessions.lookup key with
  | none =>
      rw [cancelSession_of_none hlookup] at h
      exact Except.ok.inj h ▸ hw
  | some session => exact hw.effect_none (cancelSession_effect h hlookup)

theorem WellStored.receiveCancelSegment (hw : e.WellStored) {seg : LtpSegment}
    (h : e.receiveCancelSegment seg = .ok e') : e'.WellStored := by
  obtain ⟨cc, -, hcases⟩ := receiveCancelSegment_cases h
  split at hcases
  · exact hw.effect_none hcases
  · exact hw.effect_none hcases

/-- No session is in the state that `receive_cancel_ack` looks for. -/
theorem WellStored.receiveCancelAck (hw : e.WellStored) (seg : LtpSegment) :
    e.receiveCancelAck seg = e :=
  receiveCancelAck_effect e seg fun _ hlookup => (hw _ _ hlookup).active

theorem WellStored.receiveSegment (hw : e.WellStored) {seg : LtpSegment}
    (h : e.receiveSegment seg = .ok e') : e'.WellStored := by
  rcases receiveSegment_cases h with ⟨-, h⟩ | ⟨-, h⟩ | ⟨-, h⟩ | ⟨-, h⟩ | rfl | rfl
  · exact hw.receiveDataSegment h
  · exact hw.receiveReportSegment h
  · exact hw.receiveReportAck h
  · exact hw.receiveCancelSegment h
  · rwa [hw.receiveCancelAck]
  · exact hw

theorem WellStored.checkpointExpiry (hw : e.WellStored) {event : TimerEvent}
    (h : e.checkpointExpiry event = .ok e') : e'.WellStored := by
  cases checkpointExpiry_outcome h fun session hlookup => hw _ session hlookup with
  | idle h => exact h ▸ hw
  | gaveUp _ _ _ _ h => exact hw.effect_none h
  | resent session hlookup _ _ _ _ _ h =>
      have hs := hw _ _ hlookup
      exact hw.effect_some h ⟨hs.engineId, hs.sessionNumber, hs.active⟩

theorem WellStored.reportExpiry (hw : e.WellStored) {event : TimerEvent}
    (h : e.reportExpiry event = .ok e') : e'.WellStored := by
  rcases reportExpiry_cases h with rfl | ⟨session, hlookup, -, ⟨-, h⟩ | ⟨-, h⟩⟩
  · exact hw
  · exact hw.effect_some h (hw _ _ hlookup)
  · have hs := hw _ _ hlookup
    exact hw.effect_some h ⟨hs.engineId, hs.sessionNumber, hs.active⟩

theorem WellStored.handleTimerExpiry (hw : e.WellStored) {event : TimerEvent}
    (h : e.handleTimerExpiry event = .ok e') : e'.WellStored := by
  rw [LtpEngine.handleTimerExpiry] at h
  split at h
  · exact hw.checkpointExpiry h
  · exact hw.reportExpiry h
  · exact Except.ok.inj h ▸ hw

theorem WellStored.startedSession (hw : e.WellStored) (data : List UInt8) (reliable : Bool) :
    Stored (e.localKey (e.sessionCounter + 1)) (e.startedSession data reliable) := by
  rw [LtpEngine.startedSession]
  cases hlookup : e.sessions.lookup (e.localKey (e.sessionCounter + 1)) with
  | none => exact ⟨rfl, rfl, rfl⟩
  | some session => exact hw _ _ hlookup

theorem WellStored.startSession (hw : e.WellStored) {data : Block} {reliable : Bool} {sn : UInt64}
    (h : e.startSession data reliable = .ok (e', sn)) : e'.WellStored := by
  rcases startSession_cases h with ⟨-, rfl, -⟩ | ⟨-, rfl, segments, cpSerial, -, h⟩
  · exact hw
  · refine WellStored.effect (e := { e with sessionCounter := e.sessionCounter + 1 }) hw h ?_
    intro session hsession
    split at hsession
    · cases hsession
      have hs := hw.startedSession data.bytes reliable
      exact ⟨hs.engineId, hs.sessionNumber, hs.active⟩
    · cases hsession

theorem WellStored.exec (hw : e.WellStored) {a : Action} (h : e.exec a = .ok e') :
    e'.WellStored := by
  cases a with
  | startSession data reliable =>
      obtain ⟨⟨e₁, sn⟩, hstart, h⟩ := bind_eq_ok.mp h
      cases h
      exact hw.startSession hstart
  | cancelSession engineId sessionNumber reason =>
      exact @WellStored.cancelSession e e' ⟨engineId, sessionNumber⟩ hw reason h
  | receive bytes =>
      rcases receiveBytes_cases h with rfl | ⟨seg, -, h⟩
      · exact hw
      · exact hw.receiveSegment h
  | expire entry =>
      rcases expire_cases h with rfl | ⟨tm, -, -, ⟨-, rfl⟩ | ⟨-, h⟩⟩
      · exact hw
      · exact hw
      · exact WellStored.handleTimerExpiry (e := e.popped tm entry) hw h
  | handleTimerExpiry event => exact hw.handleTimerExpiry h

theorem wellStored_of_reachable {config : LtpEngineConfig} {guard : LtpEngine → Action → Prop}
    (h : (runs config).Reachable guard e) : e.WellStored :=
  h.invariant (fun _ ⟨_, hcreate⟩ => hcreate ▸ wellStored_create _ _)
    fun _ _ _ hw _ hstep => hw.exec hstep

/-! ## A call works on one session -/

/-- From `e` to `e'` the engine worked on the session under `key` only. -/
structure Confined (e e' : LtpEngine) (key : SessionKey) : Prop where
  config : e'.config = e.config
  frame : ∀ k, k ≠ key → e'.sessions.lookup k = e.sessions.lookup k
  trace : e.trace <+: e'.trace

theorem Confined.refl (e : LtpEngine) (key : SessionKey) : e.Confined e key :=
  ⟨rfl, fun _ _ => rfl, List.prefix_refl _⟩

/-- The key a segment is addressed to: a report comes back to the engine it
is sent by, every other segment names both. -/
def addressed (e : LtpEngine) (seg : LtpSegment) : SessionKey :=
  if seg.segmentType = SegType.reportSegment then e.localKey seg.sessionNumber else segmentKey seg

theorem addressed_report {seg : LtpSegment} (h : seg.segmentType = SegType.reportSegment) :
    e.addressed seg = e.localKey seg.sessionNumber :=
  if_pos h

theorem addressed_of_ne {seg : LtpSegment} (h : seg.segmentType ≠ SegType.reportSegment) :
    e.addressed seg = segmentKey seg :=
  if_neg h

theorem addressed_data {seg : LtpSegment} (h : SegType.isData seg.segmentType = true) :
    e.addressed seg = segmentKey seg := by
  apply addressed_of_ne
  intro hreport
  rw [hreport] at h
  cases h

/-- The key of the session that a timer is for. -/
def timerSession (e : LtpEngine) (event : TimerEvent) : SessionKey :=
  if event.type = .checkpoint then e.localKey event.sessionNumber else eventKey event

/-- From `e` to `e'` some effect on the session under `key`. -/
def Affects (e e' : LtpEngine) (key : SessionKey) : Prop :=
  ∃ held acts rounds, Effect e e' key held acts rounds

theorem Effect.affects {held : Option LtpSession} {acts : List Act} {rounds : UInt64}
    (h : Effect e e' key held acts rounds) : e.Affects e' key :=
  ⟨held, acts, rounds, h⟩

theorem Affects.refl (e : LtpEngine) (key : SessionKey) : e.Affects e key :=
  Effect.affects (.refl e key)

theorem Affects.confined (h : e.Affects e' key) : e.Confined e' key := by
  obtain ⟨held, acts, rounds, h⟩ := h
  exact ⟨h.config, h.frame, ⟨_, h.trace.symm⟩⟩

theorem receiveReportSegment_affects (hw : e.WellStored) {seg : LtpSegment}
    (h : e.receiveReportSegment seg = .ok e') : e.Affects e' (e.localKey seg.sessionNumber) := by
  obtain ⟨rs, -, hcases⟩ := receiveReportSegment_cases h
  split at hcases
  · exact Effect.affects hcases
  · rename_i hlookup
    split at hcases
    · cases hcases (hw _ _ hlookup) with
      | complete _ h | waiting _ _ h | gaveUp _ _ _ h | resent _ _ _ _ _ _ _ h =>
          exact Effect.affects h
    · exact Effect.affects hcases

theorem receiveSegment_affects (hw : e.WellStored) {seg : LtpSegment}
    (h : e.receiveSegment seg = .ok e') : e.Affects e' (e.addressed seg) := by
  rcases receiveSegment_cases h with
    ⟨htype, h⟩ | ⟨htype, h⟩ | ⟨htype, h⟩ | ⟨htype, h⟩ | rfl | rfl
  · rw [addressed_data htype]
    obtain ⟨ds, -, hcases⟩ := receiveDataSegment_cases h
    rcases hcases with ⟨-, -, rfl⟩ | ⟨session, -, ⟨-, rfl⟩ | ⟨stored, -, hout⟩⟩
    · exact .refl _ _
    · exact .refl _ _
    · cases hout with
      | quiet _ h | reported _ _ _ h | delivered _ _ _ _ h => exact Effect.affects h
  · rw [addressed_report htype]
    exact receiveReportSegment_affects hw h
  · rw [addressed_of_ne (by rw [htype]; decide)]
    obtain ⟨ra, -, ⟨_, _, _, _, _, _, h⟩ | ⟨acts, h, -⟩⟩ := receiveReportAck_cases h
    · exact Effect.affects h
    · exact Effect.affects h
  · rw [addressed_of_ne (by rcases htype with htype | htype <;> rw [htype] <;> decide)]
    obtain ⟨cc, -, hcases⟩ := receiveCancelSegment_cases h
    split at hcases <;> exact Effect.affects hcases
  · rw [hw.receiveCancelAck]
    exact .refl _ _
  · exact .refl _ _

theorem handleTimerExpiry_affects (hw : e.WellStored) {event : TimerEvent}
    (h : e.handleTimerExpiry event = .ok e') : e.Affects e' (e.timerSession event) := by
  rw [handleTimerExpiry] at h
  split at h
  · rename_i htype
    rw [timerSession, if_pos htype]
    cases checkpointExpiry_outcome h fun session hlookup => hw _ session hlookup with
    | idle h => exact h ▸ .refl _ _
    | gaveUp _ _ _ _ h | resent _ _ _ _ _ _ _ h => exact Effect.affects h
  · rename_i htype
    rw [timerSession, if_neg (by rw [htype]; decide)]
    rcases reportExpiry_cases h with rfl | ⟨session, -, -, ⟨-, h⟩ | ⟨-, h⟩⟩
    · exact .refl _ _
    · exact Effect.affects h
    · exact Effect.affects h
  · exact Except.ok.inj h ▸ .refl _ _

theorem cancelSession_affects {engineId sessionNumber : UInt64} {reason : UInt8}
    (h : e.cancelSession engineId sessionNumber reason = .ok e') :
    e.Affects e' ⟨engineId, sessionNumber⟩ := by
  cases hlookup : e.sessions.lookup ⟨engineId, sessionNumber⟩ with
  | none =>
      rw [@cancelSession_of_none e ⟨engineId, sessionNumber⟩ reason hlookup] at h
      exact Except.ok.inj h ▸ .refl _ _
  | some session =>
      exact Effect.affects
        (@cancelSession_effect e e' ⟨engineId, sessionNumber⟩ session reason h hlookup)

theorem startSession_confined {data : Block} {reliable : Bool} {sn : UInt64}
    (h : e.startSession data reliable = .ok (e', sn)) :
    e.Confined e' (e.localKey (e.sessionCounter + 1)) := by
  rcases startSession_cases h with ⟨-, rfl, -⟩ | ⟨-, rfl, _, _, -, h⟩
  · exact .refl _ _
  · exact ⟨h.config, h.frame, ⟨_, h.trace.symm⟩⟩

theorem expire_confined (hw : e.WellStored) {entry : TimerEntry} (h : e.expire entry = .ok e') :
    e.Confined e' (e.timerSession entry.event) := by
  rcases expire_cases h with rfl | ⟨tm, -, -, ⟨-, rfl⟩ | ⟨-, h⟩⟩
  · exact .refl _ _
  · exact ⟨rfl, fun _ _ => rfl, List.prefix_refl _⟩
  · have h := (@handleTimerExpiry_affects (e.popped tm entry) e' hw entry.event h).confined
    exact ⟨h.config, h.frame, h.trace⟩

theorem exec_confined (hw : e.WellStored) {a : Action} (h : e.exec a = .ok e') :
    ∃ key, e.Confined e' key := by
  cases a with
  | startSession data reliable =>
      obtain ⟨⟨e₁, sn⟩, hstart, h⟩ := bind_eq_ok.mp h
      cases h
      exact ⟨_, startSession_confined hstart⟩
  | cancelSession engineId sessionNumber reason => exact ⟨_, (cancelSession_affects h).confined⟩
  | receive bytes =>
      rcases receiveBytes_cases h with rfl | ⟨seg, -, h⟩
      · exact ⟨e'.localKey 0, .refl _ _⟩
      · exact ⟨_, (receiveSegment_affects hw h).confined⟩
  | expire entry => exact ⟨_, expire_confined hw h⟩
  | handleTimerExpiry event => exact ⟨_, (handleTimerExpiry_affects hw h).confined⟩

/-- A run keeps the configuration. -/
theorem config_of_reachable {config : LtpEngineConfig} {guard : LtpEngine → Action → Prop}
    (h : (runs config).Reachable guard e) : e.config = config := by
  refine h.invariant_of (P := fun e => e.config = config) (fun e₀ hinit => ?_)
    fun e₁ a e₂ hreach hconfig _ hstep => ?_
  · obtain ⟨timerManager, rfl⟩ := hinit
    rfl
  · obtain ⟨key, hconfined⟩ := exec_confined (wellStored_of_reachable hreach) hstep
    exact hconfined.config.trans hconfig

end LtpEngine

end QpskB210.Ltp
