import QpskB210.Ltp.EngineRuns

/-!
# LTP — Role isolation

Which sessions a segment may touch. Originator and receiver sessions lie in
one table, under keys read from segment headers. The handlers of reports and
report acknowledgments check the role of the session they find; those of data
and cancel segments do not, and neither does `start_session` look whether its
key is taken. `Respects` is the condition on a call under which the missing
checks make no difference, and under it roles stay apart in every run.
-/

namespace QpskB210.Ltp

open QpskB210.Lib

/-- The session ended, with a call that reports it. -/
def Event.Ends (key : SessionKey) : Event → Prop
  | .sessionComplete k _ => k = key
  | .sessionFailure k _ _ => k = key
  | _ => False

namespace LtpEngine

/-! ## The condition -/

/-- A data segment that stores nothing: it has no bytes, lies in the buffer,
and is neither a checkpoint nor the end of the block. -/
def Idle (seg : LtpSegment) (session : LtpSession) : Prop :=
  ∃ ds, seg.content = .data ds ∧ ds.length = 0 ∧ ds.offset.toNat ≤ session.clientData.length ∧
    SegType.hasCheckpoint seg.segmentType = false ∧ SegType.hasEob seg.segmentType = false

/-- Traffic to a receiver that names the engine's own id finds nothing to
work on, and a receiver's cancellation finds no receiver session. -/
structure RespectsRoles (e : LtpEngine) (seg : LtpSegment) : Prop where
  data : SegType.isData seg.segmentType = true → seg.engineId = e.config.localEngineId →
    (e.sessions.lookup (segmentKey seg) = none ∧ e.isFull = true) ∨
      ∃ session, e.sessions.lookup (segmentKey seg) = some session ∧ Idle seg session
  cancelBySender : seg.segmentType = SegType.cancelBySender →
    seg.engineId = e.config.localEngineId → e.sessions.lookup (segmentKey seg) = none
  cancelByReceiver : seg.segmentType = SegType.cancelByReceiver →
    ∀ session, e.sessions.lookup (segmentKey seg) = some session → session.role ≠ .receiver

/-- The guard of the runs: segments respect the roles, and `start_session`
finds its key free. -/
def Respects (e : LtpEngine) : Action → Prop
  | .startSession _ _ => e.sessions.lookup (e.localKey (e.sessionCounter + 1)) = none
  | .receive bytes => ∀ seg, LtpSegment.decode bytes = .ok (some seg) → e.RespectsRoles seg
  | _ => True

/-! ## The property -/

/-- Traffic addressed to a receiver. -/
def ToReceiver (seg : LtpSegment) : Prop :=
  SegType.isData seg.segmentType = true ∨ seg.segmentType = SegType.cancelBySender ∨
    seg.segmentType = SegType.reportAck

/-- Traffic addressed to an originator. -/
def ToOriginator (seg : LtpSegment) : Prop :=
  seg.segmentType = SegType.reportSegment ∨ seg.segmentType = SegType.cancelByReceiver

/-- From `e` to `e'`, receiving the segment touched no session of the other role. -/
structure Isolated (e : LtpEngine) (seg : LtpSegment) (e' : LtpEngine) : Prop where
  toReceiver : ToReceiver seg → ∀ key, key.engineId = e.config.localEngineId →
    e'.sessions.lookup key = e.sessions.lookup key
  toOriginator : ToOriginator seg → ∀ key session, e.sessions.lookup key = some session →
    session.role = .receiver → e'.sessions.lookup key = some session

/-- The block, its length and the role are those of the session. -/
def SameBlock (session session' : LtpSession) : Prop :=
  session'.clientData = session.clientData ∧
    session'.totalDataLength = session.totalDataLength ∧ session'.role = session.role

/-- After `e` the session under `key` was reported complete or failed. -/
def Ended (e : LtpEngine) (key : SessionKey) (e' : LtpEngine) : Prop :=
  ∃ calls, e'.trace = e.trace ++ calls ∧ ∃ call ∈ calls, call.Ends key

/-- The session under `key` is still there with its block, or has ended. -/
def BlockKept (e : LtpEngine) (key : SessionKey) (session : LtpSession) (e' : LtpEngine) : Prop :=
  e.Ended key e' ∨ ∃ session', e'.sessions.lookup key = some session' ∧ SameBlock session session'

/-- What a call of `start_session` that returned `sn` has done and leaves to
the guarded runs after it. -/
structure Started (guard : LtpEngine → Action → Prop) (config : LtpEngineConfig) (e : LtpEngine)
    (data : Block) (reliable : Bool) (e' : LtpEngine) (sn : UInt64) : Prop where
  sent : sn ≠ 0 → ∃ segments cpSerial,
    segmentDataImpl (e.originatorSession sn data.bytes reliable) config.maxSegmentSize 0 =
      .ok (segments, cpSerial) ∧
    e'.trace = e.trace ++ segments.map fun seg => .sendSegment seg.wire
  kept : sn ≠ 0 → reliable = true → ∀ e'', (runs config).Path guard e' e'' →
    e'.BlockKept (e.localKey sn) (e.originatorSession sn data.bytes reliable) e''

/-- Role isolation in the runs held to a guard. -/
def RolesIsolated (guard : LtpEngine → Action → Prop) (config : LtpEngineConfig) : Prop :=
  ∀ e, (runs config).Reachable guard e →
    (∀ bytes seg e', guard e (.receive bytes) → LtpSegment.decode bytes = .ok (some seg) →
      e.receiveSegment seg = .ok e' → e.Isolated seg e') ∧
    ∀ data reliable e' sn, guard e (.startSession data reliable) →
      e.startSession data reliable = .ok (e', sn) → Started guard config e data reliable e' sn

/-! ## Local keys are the originators' -/

variable {e e' : LtpEngine} {key : SessionKey} {session : LtpSession}

/-- The sessions keyed by the engine's own id are its originator sessions. -/
structure RolesApart (e : LtpEngine) : Prop where
  stored : e.WellStored
  role : ∀ key session, e.sessions.lookup key = some session →
    (key.engineId = e.config.localEngineId ↔ session.role = .originator)

theorem RolesApart.not_receiver (hr : e.RolesApart) (hlookup : e.sessions.lookup key = some session)
    (hkey : key.engineId = e.config.localEngineId) : session.role ≠ .receiver := by
  rw [(hr.role key session hlookup).mp hkey]
  decide

theorem RolesApart.effect {held : Option LtpSession} {acts : List Act} {rounds : UInt64}
    (hr : e.RolesApart) (h : Effect e e' key held acts rounds)
    (hheld : ∀ session, held = some session → Stored key session ∧
      (key.engineId = e.config.localEngineId ↔ session.role = .originator)) : e'.RolesApart := by
  refine ⟨hr.stored.effect h fun session hs => (hheld session hs).1, fun k session hlookup => ?_⟩
  rw [h.config]
  by_cases hk : k = key
  · rw [hk] at hlookup ⊢
    exact (hheld session (h.lookup.symm.trans hlookup)).2
  · exact hr.role k session ((h.frame k hk).symm.trans hlookup)

theorem RolesApart.removed {acts : List Act} {rounds : UInt64} (hr : e.RolesApart)
    (h : Effect e e' key none acts rounds) : e'.RolesApart :=
  hr.effect h fun _ hs => nomatch hs

/-- The call kept the role of a session that was there. -/
theorem RolesApart.kept {session' : LtpSession} {acts : List Act} {rounds : UInt64}
    (hr : e.RolesApart) (h : Effect e e' key (some session') acts rounds)
    (hlookup : e.sessions.lookup key = some session) (hs : Stored key session')
    (hrole : session'.role = session.role) : e'.RolesApart := by
  refine hr.effect h fun s hsome => ?_
  cases hsome
  rw [hrole]
  exact ⟨hs, hr.role key session hlookup⟩

/-- An idle segment leaves its session as it is. -/
theorem Idle.store_eq {seg : LtpSegment} {ds : DataSegContent} {stored : LtpSession}
    (h : Idle seg session) (hds : seg.content = .data ds)
    (hstore : session.store seg.segmentType ds = .ok stored) : stored = session := by
  obtain ⟨ds', hds', hlength, hoffset, -, heob⟩ := h
  cases hds.symm.trans hds'
  obtain ⟨resized, buffer, hresize, hcopy, rfl⟩ := LtpSession.store_eq hstore
  rw [LtpSession.resize, hlength, UInt64.add_zero, if_pos hoffset] at hresize
  rw [LtpSession.copyData, if_pos hlength, ← Except.ok.inj hresize] at hcopy
  rw [← Except.ok.inj hcopy, ReceptionTracker.addRange, if_pos hlength, heob]
  rfl

/-- A data segment that respects the roles leaves the sessions under the
engine's own id as they are. -/
theorem receiveDataSegment_local {seg : LtpSegment} (hg : e.RespectsRoles seg)
    (hdata : SegType.isData seg.segmentType = true) (h : e.receiveDataSegment seg = .ok e')
    (hkey : key.engineId = e.config.localEngineId) :
    e'.sessions.lookup key = e.sessions.lookup key := by
  obtain ⟨ds, hds, hcases⟩ := receiveDataSegment_cases h
  rcases hcases with ⟨-, -, rfl⟩ | ⟨met, hmeets, ⟨-, rfl⟩ | ⟨stored, hstore, hout⟩⟩
  · rfl
  · rfl
  by_cases hk : key = segmentKey seg
  · have hlocal : (segmentKey seg).engineId = e.config.localEngineId := hk ▸ hkey
    rcases hg.data hdata hlocal with ⟨hnone, hfull⟩ | ⟨session, hlookup, hidle⟩
    · rcases hmeets with hmeets | ⟨-, hfree, -⟩
      · cases hnone.symm.trans hmeets
      · cases hfull.symm.trans hfree
    · have hmet : met = session := by
        rcases hmeets with hmeets | ⟨hmeets, -⟩
        · exact Option.some.inj (hmeets.symm.trans hlookup)
        · cases hlookup.symm.trans hmeets
      subst hmet
      cases hidle.store_eq hds hstore
      obtain ⟨ds', -, -, -, hcp, heob⟩ := hidle
      cases hout with
      | quiet _ h => rw [hk, h.lookup, hlookup]
      | reported _ hcp' _ _ => cases hcp.symm.trans hcp'
      | delivered _ _ heob' _ _ => cases heob.symm.trans heob'
  · cases hout with
    | quiet _ h | reported _ _ _ h | delivered _ _ _ _ h => exact h.frame key hk

theorem receiveReportAck_local {seg : LtpSegment} (hr : e.RolesApart)
    (h : e.receiveReportAck seg = .ok e') (hkey : key.engineId = e.config.localEngineId) :
    e'.sessions.lookup key = e.sessions.lookup key := by
  obtain ⟨ra, -, ⟨met, _, hlookup, hrole, _, _, h⟩ | ⟨acts, h, -⟩⟩ := receiveReportAck_cases h
  · refine h.frame key fun hk => ?_
    exact hr.not_receiver hlookup (hk ▸ hkey) hrole
  · by_cases hk : key = segmentKey seg
    · rw [hk, h.lookup]
    · exact h.frame key hk

theorem receiveCancelSegment_frame {seg : LtpSegment} (h : e.receiveCancelSegment seg = .ok e')
    (hkey : key = segmentKey seg → e.sessions.lookup key = none) :
    e'.sessions.lookup key = e.sessions.lookup key := by
  obtain ⟨cc, -, hcases⟩ := receiveCancelSegment_cases h
  have hframe {acts : List Act} {rounds : UInt64}
      (h : Effect e e' (segmentKey seg) none acts rounds) :
      e'.sessions.lookup key = e.sessions.lookup key := by
    by_cases hk : key = segmentKey seg
    · rw [hkey hk, hk, h.lookup]
    · exact h.frame key hk
  split at hcases <;> exact hframe hcases

/-- A report works on the engine's own session only. -/
theorem receiveReportSegment_frame {seg : LtpSegment} (hw : e.WellStored)
    (h : e.receiveReportSegment seg = .ok e') (hkey : key ≠ e.localKey seg.sessionNumber) :
    e'.sessions.lookup key = e.sessions.lookup key := by
  obtain ⟨rs, -, hcases⟩ := receiveReportSegment_cases h
  split at hcases
  · exact hcases.frame key hkey
  · rename_i hlookup
    split at hcases
    · cases hcases (hw _ _ hlookup) with
      | complete _ h | waiting _ _ h | gaveUp _ _ _ h | resent _ _ _ _ _ _ _ h =>
          exact h.frame key hkey
    · exact hcases.frame key hkey

/-- **Isolation.** A segment that respects the roles touches no session of the
other role. -/
theorem isolated_of_respects {seg : LtpSegment} (hr : e.RolesApart) (hg : e.RespectsRoles seg)
    (h : e.receiveSegment seg = .ok e') : e.Isolated seg e' := by
  rcases receiveSegment_cases h with ⟨hdata, h⟩ | ⟨htype, h⟩ | ⟨htype, h⟩ | ⟨htype, h⟩ | rfl | rfl
  · refine ⟨fun _ key hkey => receiveDataSegment_local hg hdata h hkey, fun hto => ?_⟩
    rcases hto with htype | htype <;> rw [htype] at hdata <;> cases hdata
  · refine ⟨fun hto => ?_, fun _ key session hlookup hrole => ?_⟩
    · rcases hto with hdata | htype' | htype'
      · rw [htype] at hdata
        cases hdata
      · cases htype.symm.trans htype'
      · cases htype.symm.trans htype'
    · rw [receiveReportSegment_frame hr.stored h, hlookup]
      -- the key of the report is local, so it holds no receiver session
      intro hk
      exact hr.not_receiver hlookup (hk ▸ rfl) hrole
  · refine ⟨fun _ key hkey => receiveReportAck_local hr h hkey, fun hto => ?_⟩
    rcases hto with htype' | htype' <;> cases htype.symm.trans htype'
  · refine ⟨fun hto key hkey => ?_, fun hto key session hlookup hrole => ?_⟩
    · refine receiveCancelSegment_frame h fun hk => hk ▸ hg.cancelBySender ?_ ?_
      · rcases hto with hdata | htype' | htype'
        · rcases htype with htype | htype <;> rw [htype] at hdata <;> cases hdata
        · exact htype'
        · rcases htype with htype | htype <;> cases htype.symm.trans htype'
      · subst hk
        exact hkey
    · obtain ⟨cc, -, hcases⟩ := receiveCancelSegment_cases h
      have hne : key ≠ segmentKey seg := by
        intro hk
        rcases hto with htype' | htype'
        · rcases htype with htype | htype <;> cases htype.symm.trans htype'
        · exact hg.cancelByReceiver htype' session (hk ▸ hlookup) hrole
      split at hcases <;> rw [hcases.frame key hne, hlookup]
  · rw [hr.stored.receiveCancelAck]
    exact ⟨fun _ _ _ => rfl, fun _ _ _ hlookup _ => hlookup⟩
  · exact ⟨fun _ _ _ => rfl, fun _ _ _ hlookup _ => hlookup⟩

/-! ## Roles stay apart -/

theorem rolesApart_create (config : LtpEngineConfig) (timerManager : Option TimerManager) :
    (create config timerManager).RolesApart :=
  ⟨wellStored_create _ _, fun _ _ h => nomatch h⟩

theorem RolesApart.receiveDataSegment {seg : LtpSegment} (hr : e.RolesApart)
    (hg : e.RespectsRoles seg) (hdata : SegType.isData seg.segmentType = true)
    (h : e.receiveDataSegment seg = .ok e') : e'.RolesApart := by
  obtain ⟨ds, -, hcases⟩ := receiveDataSegment_cases h
  rcases hcases with ⟨-, -, rfl⟩ | ⟨met, hmeets, ⟨-, rfl⟩ | ⟨stored, hstore, hout⟩⟩
  · exact hr
  · exact hr
  have hs := (hr.stored.meets hmeets).store hstore
  have hrole : (segmentKey seg).engineId = e.config.localEngineId ↔ met.role = .originator := by
    rcases hmeets with hlookup | ⟨hnone, hfree, rfl⟩
    · exact hr.role _ _ hlookup
    · -- a new session is a receiver's, and its key is not local
      refine ⟨fun hlocal => ?_, fun hrole => by cases hrole⟩
      rcases hg.data hdata hlocal with ⟨-, hfull⟩ | ⟨session, hlookup, -⟩
      · cases hfull.symm.trans hfree
      · cases hlookup.symm.trans hnone
  obtain ⟨resized, buffer, -, -, rfl⟩ := LtpSession.store_eq hstore
  cases hout with
  | quiet _ h =>
      refine hr.effect h fun s hsome => ?_
      cases hsome
      exact ⟨hs, hrole⟩
  | reported _ _ _ h =>
      refine hr.effect h fun s hsome => ?_
      cases hsome
      exact ⟨⟨hs.engineId, hs.sessionNumber, hs.active⟩, hrole⟩
  | delivered _ _ _ _ h => exact hr.removed h

theorem RolesApart.receiveReportSegment {seg : LtpSegment} (hr : e.RolesApart)
    (h : e.receiveReportSegment seg = .ok e') : e'.RolesApart := by
  obtain ⟨rs, -, hcases⟩ := receiveReportSegment_cases h
  split at hcases
  · exact hr.removed hcases
  · rename_i session hlookup
    have hs := hr.stored _ _ hlookup
    split at hcases
    · cases hcases hs with
      | complete _ h => exact hr.removed h
      | waiting _ _ h => exact hr.kept h hlookup hs rfl
      | gaveUp _ _ _ h => exact hr.removed h
      | resent _ _ _ segments _ _ _ h =>
          obtain ⟨cpSerial, heq⟩ := checkpointed_eq (attempted session) segments
          rw [heq] at h
          exact hr.kept h hlookup ⟨hs.engineId, hs.sessionNumber, hs.active⟩ rfl
    · exact hr.kept hcases hlookup hs rfl

theorem RolesApart.receiveSegment {seg : LtpSegment} (hr : e.RolesApart)
    (hg : e.RespectsRoles seg) (h : e.receiveSegment seg = .ok e') : e'.RolesApart := by
  rcases receiveSegment_cases h with ⟨hdata, h⟩ | ⟨-, h⟩ | ⟨-, h⟩ | ⟨-, h⟩ | rfl | rfl
  · exact hr.receiveDataSegment hg hdata h
  · exact hr.receiveReportSegment h
  · obtain ⟨ra, -, ⟨_, _, _, _, _, _, h⟩ | ⟨acts, h, -⟩⟩ := receiveReportAck_cases h
    · exact hr.removed h
    · exact hr.effect h fun session hlookup => ⟨hr.stored _ _ hlookup, hr.role _ _ hlookup⟩
  · obtain ⟨cc, -, hcases⟩ := receiveCancelSegment_cases h
    split at hcases <;> exact hr.removed hcases
  · rwa [hr.stored.receiveCancelAck]
  · exact hr

theorem RolesApart.handleTimerExpiry {event : TimerEvent} (hr : e.RolesApart)
    (h : e.handleTimerExpiry event = .ok e') : e'.RolesApart := by
  rw [LtpEngine.handleTimerExpiry] at h
  split at h
  · cases checkpointExpiry_outcome h fun session hlookup => hr.stored _ session hlookup with
    | idle h => exact h ▸ hr
    | gaveUp _ _ _ _ h => exact hr.removed h
    | resent session hlookup _ _ _ _ _ h =>
        have hs := hr.stored _ _ hlookup
        exact hr.kept h hlookup ⟨hs.engineId, hs.sessionNumber, hs.active⟩ rfl
  · rcases reportExpiry_cases h with rfl | ⟨session, hlookup, -, ⟨-, h⟩ | ⟨-, h⟩⟩
    · exact hr
    · exact hr.kept h hlookup (hr.stored _ _ hlookup) rfl
    · have hs := hr.stored _ _ hlookup
      exact hr.kept h hlookup ⟨hs.engineId, hs.sessionNumber, hs.active⟩ rfl
  · exact Except.ok.inj h ▸ hr

theorem RolesApart.startSession {data : Block} {reliable : Bool} {sn : UInt64} (hr : e.RolesApart)
    (hfree : e.sessions.lookup (e.localKey (e.sessionCounter + 1)) = none)
    (h : e.startSession data reliable = .ok (e', sn)) : e'.RolesApart := by
  rcases startSession_cases h with ⟨-, rfl, -⟩ | ⟨-, rfl, segments, cpSerial, -, h⟩
  · exact hr
  · have hr₀ : RolesApart { e with sessionCounter := e.sessionCounter + 1 } := ⟨hr.stored, hr.role⟩
    rw [startedSession, hfree] at h
    refine hr₀.effect h fun session hsession => ?_
    split at hsession
    · cases hsession
      exact ⟨⟨rfl, rfl, rfl⟩, fun _ => rfl, fun _ => rfl⟩
    · cases hsession

theorem RolesApart.exec {a : Action} (hr : e.RolesApart) (hg : e.Respects a)
    (h : e.exec a = .ok e') : e'.RolesApart := by
  cases a with
  | startSession data reliable =>
      obtain ⟨⟨e₁, sn⟩, hstart, h⟩ := bind_eq_ok.mp h
      cases h
      exact hr.startSession hg hstart
  | cancelSession engineId sessionNumber reason =>
      have h : e.cancelSession engineId sessionNumber reason = .ok e' := h
      cases hlookup : e.sessions.lookup ⟨engineId, sessionNumber⟩ with
      | none =>
          rw [@cancelSession_of_none e ⟨engineId, sessionNumber⟩ reason hlookup] at h
          exact Except.ok.inj h ▸ hr
      | some session =>
          exact hr.removed
            (@cancelSession_effect e e' ⟨engineId, sessionNumber⟩ session reason h hlookup)
  | receive bytes =>
      rcases receiveBytes_cases h with rfl | ⟨seg, hdecode, h⟩
      · exact hr
      · exact hr.receiveSegment (hg seg hdecode) h
  | expire entry =>
      rcases expire_cases h with rfl | ⟨tm, -, -, ⟨-, rfl⟩ | ⟨-, h⟩⟩
      · exact hr
      · exact ⟨hr.stored, hr.role⟩
      · have hr' : (e.popped tm entry).RolesApart := ⟨hr.stored, hr.role⟩
        exact hr'.handleTimerExpiry h
  | handleTimerExpiry event => exact hr.handleTimerExpiry h

theorem rolesApart_of_reachable {config : LtpEngineConfig}
    (h : (runs config).Reachable Respects e) : e.RolesApart :=
  h.invariant (fun _ ⟨_, hcreate⟩ => hcreate ▸ rolesApart_create _ _)
    fun _ _ _ hr hg hstep => hr.exec hg hstep

/-! ## The block stays until the session ends -/

theorem mem_events {acts : List Act} {call : Event} (h : .call call ∈ acts) :
    call ∈ events acts :=
  List.mem_filterMap.mpr ⟨_, h, rfl⟩

theorem mem_second (a b : Act) : b ∈ [a, b] := List.mem_cons_of_mem _ (List.mem_singleton_self _)

theorem SameBlock.refl (session : LtpSession) : SameBlock session session := ⟨rfl, rfl, rfl⟩

theorem SameBlock.trans {session₁ session₂ session₃ : LtpSession}
    (h₁ : SameBlock session₁ session₂) (h₂ : SameBlock session₂ session₃) :
    SameBlock session₁ session₃ :=
  ⟨h₂.1.trans h₁.1, h₂.2.1.trans h₁.2.1, h₂.2.2.trans h₁.2.2⟩

theorem blockKept_of_lookup (h : e'.sessions.lookup key = some session) :
    e.BlockKept key session e' :=
  .inr ⟨session, h, .refl session⟩

theorem blockKept_of_effect {k : SessionKey} {held : Option LtpSession} {acts : List Act}
    {rounds : UInt64} (hlookup : e.sessions.lookup key = some session)
    (h : Effect e e' k held acts rounds)
    (hheld : key = k → (∃ call, .call call ∈ acts ∧ call.Ends key) ∨
      ∃ session', held = some session' ∧ SameBlock session session') :
    e.BlockKept key session e' := by
  by_cases hk : key = k
  · rcases hheld hk with ⟨call, hcall, hends⟩ | ⟨session', rfl, hsame⟩
    · exact .inl ⟨events acts, h.trace, call, mem_events hcall, hends⟩
    · exact .inr ⟨session', hk ▸ h.lookup, hsame⟩
  · exact blockKept_of_lookup ((h.frame key hk).trans hlookup)

theorem receiveReportSegment_blockKept {seg : LtpSegment} (hw : e.WellStored)
    (hlookup : e.sessions.lookup key = some session) (h : e.receiveReportSegment seg = .ok e') :
    e.BlockKept key session e' := by
  obtain ⟨rs, -, hcases⟩ := receiveReportSegment_cases h
  split at hcases
  · rename_i hnone
    refine blockKept_of_effect hlookup hcases fun hk => ?_
    cases (hk ▸ hlookup).symm.trans hnone
  · rename_i met hmet
    have hsame (hk : key = e.localKey seg.sessionNumber) : met = session :=
      Option.some.inj (hmet.symm.trans (hk ▸ hlookup))
    split at hcases
    · cases hcases (hw _ _ hmet) with
      | complete _ h =>
          exact blockKept_of_effect hlookup h fun hk =>
            .inl ⟨_, List.mem_append_right _ (List.mem_singleton_self _), hk.symm⟩
      | waiting _ _ h =>
          exact blockKept_of_effect hlookup h fun hk => .inr ⟨met, rfl, hsame hk ▸ .refl met⟩
      | gaveUp _ _ _ h =>
          exact blockKept_of_effect hlookup h fun hk =>
            .inl ⟨_, List.mem_append_right _ (mem_second _ _), hk.symm⟩
      | resent _ _ _ segments _ _ _ h =>
          obtain ⟨cpSerial, heq⟩ := checkpointed_eq (attempted met) segments
          refine blockKept_of_effect hlookup h fun hk => .inr ⟨_, rfl, ?_⟩
          rw [heq, hsame hk]
          exact ⟨rfl, rfl, rfl⟩
    · exact blockKept_of_effect hlookup hcases fun hk => .inr ⟨met, rfl, hsame hk ▸ .refl met⟩

theorem receiveSegment_blockKept {seg : LtpSegment} (hr : e.RolesApart) (hg : e.RespectsRoles seg)
    (hlookup : e.sessions.lookup key = some session)
    (hkey : key.engineId = e.config.localEngineId) (h : e.receiveSegment seg = .ok e') :
    e.BlockKept key session e' := by
  rcases receiveSegment_cases h with ⟨hdata, h⟩ | ⟨-, h⟩ | ⟨-, h⟩ | ⟨-, h⟩ | rfl | rfl
  · exact blockKept_of_lookup ((receiveDataSegment_local hg hdata h hkey).trans hlookup)
  · exact receiveReportSegment_blockKept hr.stored hlookup h
  · exact blockKept_of_lookup ((receiveReportAck_local hr h hkey).trans hlookup)
  · obtain ⟨cc, -, hcases⟩ := receiveCancelSegment_cases h
    split at hcases
    · rename_i hnone
      refine blockKept_of_effect hlookup hcases fun hk => ?_
      cases (hk ▸ hlookup).symm.trans hnone
    · exact blockKept_of_effect hlookup hcases fun hk => .inl ⟨_, mem_second _ _, hk.symm⟩
  · rw [hr.stored.receiveCancelAck]
    exact blockKept_of_lookup hlookup
  · exact blockKept_of_lookup hlookup

theorem handleTimerExpiry_blockKept {event : TimerEvent} (hr : e.RolesApart)
    (hlookup : e.sessions.lookup key = some session)
    (hkey : key.engineId = e.config.localEngineId) (h : e.handleTimerExpiry event = .ok e') :
    e.BlockKept key session e' := by
  rw [handleTimerExpiry] at h
  split at h
  · cases checkpointExpiry_outcome h fun session hlookup => hr.stored _ session hlookup with
    | idle h _ =>
        subst h
        exact blockKept_of_lookup hlookup
    | gaveUp met _ _ _ h =>
        exact blockKept_of_effect hlookup h fun hk => .inl ⟨_, mem_second _ _, hk.symm⟩
    | resent met hmet _ _ _ _ _ h =>
        refine blockKept_of_effect hlookup h fun hk => .inr ⟨_, rfl, ?_⟩
        cases (hk ▸ hlookup).symm.trans hmet
        exact ⟨rfl, rfl, rfl⟩
  · rcases reportExpiry_cases h with rfl | ⟨met, hmet, hrole, hcases⟩
    · exact blockKept_of_lookup hlookup
    · -- a report timer works on a receiver session
      have hne : key ≠ eventKey event := fun hk =>
        hr.not_receiver hmet (show (eventKey event).engineId = _ from hk ▸ hkey) hrole
      rcases hcases with ⟨-, h⟩ | ⟨-, h⟩ <;>
        exact blockKept_of_lookup ((h.frame key hne).trans hlookup)
  · exact Except.ok.inj h ▸ blockKept_of_lookup hlookup

/-- A call that respects the roles keeps the block of an originator session,
or ends it. -/
theorem exec_blockKept {a : Action} (hr : e.RolesApart) (hg : e.Respects a)
    (hlookup : e.sessions.lookup key = some session)
    (hkey : key.engineId = e.config.localEngineId) (h : e.exec a = .ok e') :
    e.BlockKept key session e' := by
  cases a with
  | startSession data reliable =>
      obtain ⟨⟨e₁, sn⟩, hstart, h⟩ := bind_eq_ok.mp h
      cases h
      rcases startSession_cases hstart with ⟨-, rfl, -⟩ | ⟨-, rfl, segments, cpSerial, -, h⟩
      · exact blockKept_of_lookup hlookup
      · have hne : key ≠ e.localKey (e.sessionCounter + 1) := by
          intro hk
          cases (hk ▸ hlookup).symm.trans hg
        exact blockKept_of_lookup ((h.frame key hne).trans hlookup)
  | cancelSession engineId sessionNumber reason =>
      have h : e.cancelSession engineId sessionNumber reason = .ok e' := h
      cases hmet : e.sessions.lookup ⟨engineId, sessionNumber⟩ with
      | none =>
          rw [@cancelSession_of_none e ⟨engineId, sessionNumber⟩ reason hmet] at h
          exact Except.ok.inj h ▸ blockKept_of_lookup hlookup
      | some met =>
          exact blockKept_of_effect hlookup
            (@cancelSession_effect e e' ⟨engineId, sessionNumber⟩ met reason h hmet)
            fun hk => .inl ⟨_, mem_second _ _, hk.symm⟩
  | receive bytes =>
      rcases receiveBytes_cases h with rfl | ⟨seg, hdecode, h⟩
      · exact blockKept_of_lookup hlookup
      · exact receiveSegment_blockKept hr (hg seg hdecode) hlookup hkey h
  | expire entry =>
      rcases expire_cases h with rfl | ⟨tm, -, -, ⟨-, rfl⟩ | ⟨-, h⟩⟩
      · exact blockKept_of_lookup hlookup
      · exact blockKept_of_lookup hlookup
      · have hr' : (e.popped tm entry).RolesApart := ⟨hr.stored, hr.role⟩
        exact @handleTimerExpiry_blockKept (e.popped tm entry) e' key session entry.event hr'
          hlookup hkey h
  | handleTimerExpiry event => exact handleTimerExpiry_blockKept hr hlookup hkey h

/-- What has ended stays ended. -/
theorem Ended.mono {e'' : LtpEngine} (h : e.Ended key e') (hgrow : e'.trace <+: e''.trace) :
    e.Ended key e'' := by
  obtain ⟨calls, htrace, call, hcall, hends⟩ := h
  obtain ⟨more, hmore⟩ := hgrow
  refine ⟨calls ++ more, ?_, call, List.mem_append_left _ hcall, hends⟩
  rw [← hmore, htrace, List.append_assoc]

theorem BlockKept.trans {e'' : LtpEngine} (hgrow : e.trace <+: e'.trace)
    (h : e.BlockKept key session e')
    (h' : ∀ session', e'.sessions.lookup key = some session' → e'.BlockKept key session' e'')
    (hgrow' : e'.trace <+: e''.trace) : e.BlockKept key session e'' := by
  rcases h with hended | ⟨session', hlookup, hsame⟩
  · exact .inl (hended.mono hgrow')
  · rcases h' session' hlookup with hended | ⟨session'', hlookup', hsame'⟩
    · obtain ⟨calls, hcalls⟩ := hgrow
      obtain ⟨calls', htrace', call, hcall, hends⟩ := hended
      refine .inl ⟨calls ++ calls', ?_, call, List.mem_append_right _ hcall, hends⟩
      rw [htrace', ← hcalls, List.append_assoc]
    · exact .inr ⟨session'', hlookup', hsame.trans hsame'⟩

/-- Over a run that respects the roles, an originator session keeps its block
until it ends. -/
theorem path_blockKept {config : LtpEngineConfig}
    (hr : e.RolesApart) (hlookup : e.sessions.lookup key = some session)
    (hkey : key.engineId = e.config.localEngineId) (h : (runs config).Path Respects e e') :
    e.BlockKept key session e' := by
  have hinv : e'.RolesApart ∧ e'.config = e.config ∧ e.trace <+: e'.trace ∧
      e.BlockKept key session e' := by
    refine h.preserves (P := fun e' => RolesApart e' ∧ e'.config = e.config ∧
      e.trace <+: e'.trace ∧ e.BlockKept key session e') (fun e₁ a e₂ hP hg hstep => ?_)
      ⟨hr, rfl, List.prefix_refl _, blockKept_of_lookup hlookup⟩
    obtain ⟨hr₁, hconfig, hgrow, hkept⟩ := hP
    obtain ⟨_, hconfined⟩ := exec_confined hr₁.stored hstep
    refine ⟨hr₁.exec hg hstep, hconfined.config.trans hconfig, hgrow.trans hconfined.trace, ?_⟩
    refine hkept.trans hgrow (fun session' hlookup' => ?_) hconfined.trace
    exact exec_blockKept hr₁ hg hlookup' (hkey.trans (congrArg _ hconfig.symm)) hstep
  exact hinv.2.2.2

/-- A started session sends the segments of the caller's block, and keeps it. -/
theorem started_of_respects {config : LtpEngineConfig} {data : Block} {reliable : Bool}
    {sn : UInt64} (hr : e.RolesApart) (hconfig : e.config = config)
    (hfree : e.sessions.lookup (e.localKey (e.sessionCounter + 1)) = none)
    (h : e.startSession data reliable = .ok (e', sn)) :
    Started Respects config e data reliable e' sn := by
  have hr' := hr.startSession hfree h
  rcases startSession_cases h with ⟨-, -, rfl⟩ | ⟨-, rfl, segments, cpSerial, hsegments, h⟩
  · exact ⟨fun hne => absurd rfl hne, fun hne => absurd rfl hne⟩
  · rw [startedSession, hfree, Option.getD_none, hconfig] at hsegments
    rw [startedSession, hfree, Option.getD_none] at h
    refine ⟨fun _ => ⟨segments, cpSerial, hsegments, ?_⟩, fun _ hreliable e'' hpath => ?_⟩
    · rw [h.trace, events_map_send]
    · rw [hreliable] at h ⊢
      have hkept := path_blockKept hr' h.lookup (show _ = e'.config.localEngineId by
        rw [h.config]; rfl) hpath
      exact hkept

/-- **Role isolation.** In every run whose calls respect the roles, segments
touch no session of the other role, and every session that was started has
sent the segments of the caller's block and keeps it until it ends. -/
theorem role_isolation (config : LtpEngineConfig) : RolesIsolated Respects config := by
  intro e hreach
  have hr := rolesApart_of_reachable hreach
  refine ⟨fun bytes seg e' hg hdecode h => isolated_of_respects hr (hg seg hdecode) h, ?_⟩
  intro data reliable e' sn hg h
  exact started_of_respects hr (config_of_reachable hreach) hg h

/-- Enough for a call to respect the roles. -/
def respectsCheck (e : LtpEngine) : Action → Bool
  | .startSession _ _ => (e.sessions.lookup (e.localKey (e.sessionCounter + 1))).isNone
  | .receive bytes =>
    match LtpSegment.decode bytes with
    | .ok (some seg) =>
      (seg.engineId ≠ e.config.localEngineId ||
        !SegType.isData seg.segmentType && seg.segmentType ≠ SegType.cancelBySender) &&
          seg.segmentType ≠ SegType.cancelByReceiver
    | _ => true
  | _ => true

theorem respects_of_check (e : LtpEngine) (a : Action) (h : e.respectsCheck a = true) :
    e.Respects a := by
  cases a with
  | startSession data reliable => exact Option.isNone_iff_eq_none.mp h
  | receive bytes =>
      intro seg hdecode
      simp only [respectsCheck, hdecode, Bool.and_eq_true, Bool.or_eq_true, decide_eq_true_eq,
        Bool.not_eq_true'] at h
      obtain ⟨hlocal, hreceiver⟩ := h
      refine ⟨fun hdata hown => ?_, fun hsender hown => ?_, fun htype => absurd htype hreceiver⟩
      · rcases hlocal with hne | ⟨hnone, -⟩
        · exact absurd hown hne
        · cases hnone.symm.trans hdata
      · rcases hlocal with hne | ⟨-, hne⟩
        · exact absurd hown hne
        · exact absurd hsender hne
  | cancelSession | expire | handleTimerExpiry => trivial

/-- Data of engine 2, the first of the three bytes of a block. -/
def peerData : LtpSegment :=
  { segmentType := SegType.redData, engineId := 2, sessionNumber := 1
    content := .data { clientServiceId := 1, offset := 0, length := 1, data := [9] } }

/-- A report on the first byte of session 1 of engine 1. -/
def peerReport : LtpSegment :=
  { segmentType := SegType.reportSegment, engineId := 1, sessionNumber := 1
    content := .report
      { reportSerial := 1, checkpointSerial := 1, upperBound := 2, lowerBound := 0,
        claims := [{ offset := 0, length := 1 }] } }

theorem peerData_travels : peerData.Travels where
  wellFormed :=
    { version := rfl, validType := rfl, headerCount := rfl, trailerCount := rfl
      content := ⟨rfl, rfl, rfl, rfl⟩ }
  headerExtensions := rfl
  trailerExtensions := rfl
  size := by
    show (1 : Nat) < 2 ^ 57
    decide

theorem peerReport_travels : peerReport.Travels where
  wellFormed :=
    { version := rfl, validType := rfl, headerCount := rfl, trailerCount := rfl
      content := ⟨rfl, by decide⟩ }
  headerExtensions := rfl
  trailerExtensions := rfl
  size := by
    show (1 : Nat) < 2 ^ 57
    decide

/-- An engine with a session of its own and one of its peer gets traffic for
both. -/
theorem role_isolation_exchange : ∃ e₁ e₂ e₃ : LtpEngine,
    System.run (fun e a => (e.exec a).toOption) respectsCheck (create {} none)
      [.startSession ⟨[7, 8], by decide⟩ true] = some e₁ ∧
      e₁.receiveSegment peerData = .ok e₂ ∧ e₁.Isolated peerData e₂ ∧
      e₂.sessions.keys = [⟨2, 1⟩, ⟨1, 1⟩] ∧
      e₂.receiveSegment peerReport = .ok e₃ ∧ e₂.Isolated peerReport e₃ := by
  have hcheck : (System.run (fun e a => (e.exec a).toOption) respectsCheck (create {} none)
      [.startSession ⟨[7, 8], by decide⟩ true]).any (fun e₁ =>
        e₁.respectsCheck (.receive peerData.wire) &&
          (e₁.receiveSegment peerData).toOption.any fun e₂ =>
            e₂.respectsCheck (.receive peerReport.wire) &&
              (decide (e₂.sessions.keys = [⟨2, 1⟩, ⟨1, 1⟩]) &&
                (e₂.receiveSegment peerReport).toOption.isSome)) = true := by
    decide +kernel
  obtain ⟨e₁, hstart, hcheck⟩ := (Option.any_eq_true _ _).mp hcheck
  obtain ⟨hdata, hcheck⟩ := (Bool.and_eq_true _ _).mp hcheck
  obtain ⟨e₂, hfirst, hcheck⟩ := (Option.any_eq_true _ _).mp hcheck
  obtain ⟨hreport, hcheck⟩ := (Bool.and_eq_true _ _).mp hcheck
  obtain ⟨hkeys, hsecond⟩ := (Bool.and_eq_true _ _).mp hcheck
  obtain ⟨e₃, hsecond⟩ := Option.isSome_iff_exists.mp hsecond
  have hfirst := eq_ok_of_toOption hfirst
  have hsecond := eq_ok_of_toOption hsecond
  have hpath : (runs {}).Path Respects (create {} none) e₁ :=
    System.path_of_run (fun _ _ _ h => eq_ok_of_toOption h) respects_of_check hstart
  have hreach₁ : (runs {}).Reachable Respects e₁ := ⟨_, ⟨none, rfl⟩, hpath⟩
  have hreach₂ : (runs {}).Reachable Respects e₂ := by
    refine hreach₁.step (respects_of_check e₁ _ hdata) ?_
    show e₁.receiveBytes peerData.wire = .ok e₂
    rw [receiveBytes_of_decode peerData_travels.decode_wire]
    exact hfirst
  exact ⟨e₁, e₂, e₃, hstart, hfirst,
    (role_isolation {} e₁ hreach₁).1 _ peerData e₂ (respects_of_check e₁ _ hdata)
      peerData_travels.decode_wire hfirst,
    of_decide_eq_true hkeys, hsecond,
    (role_isolation {} e₂ hreach₂).1 _ peerReport e₃ (respects_of_check e₂ _ hreport)
      peerReport_travels.decode_wire hsecond⟩

/-- The segment of session 1 of a block of two bytes, back at its sender. -/
def echo : LtpSegment :=
  { segmentType := SegType.redDataCpEorpEob, engineId := 1, sessionNumber := 1
    content := .data
      { clientServiceId := 1, offset := 0, length := 2, checkpointSerial := some 1,
        reportSerial := some 0, data := [7, 8] } }

theorem echo_travels : echo.Travels where
  wellFormed :=
    { version := rfl, validType := rfl, headerCount := rfl, trailerCount := rfl
      content := ⟨rfl, rfl, rfl, rfl⟩ }
  headerExtensions := rfl
  trailerExtensions := rfl
  size := by
    show (2 : Nat) < 2 ^ 57
    decide

/-- An echoed data segment modifies the originator session it came from. -/
theorem role_isolation_echo : ¬ ∀ config, RolesIsolated System.free config := by
  intro h
  have hcheck : (do
      let e ← (create {} none).exec (.startSession ⟨[7, 8], by decide⟩ true)
      let e' ← e.receiveSegment echo
      pure (decide (e'.sessions.lookup ⟨1, 1⟩ = e.sessions.lookup ⟨1, 1⟩)) : Except Exn Bool).toOption =
        some false := by decide +kernel
  cases hstart : (create {} none).exec (.startSession ⟨[7, 8], by decide⟩ true) with
  | error exn =>
      rw [hstart] at hcheck
      cases hcheck
  | ok e =>
      have hreach : (runs {}).Reachable System.free e :=
        (System.Reachable.init (S := runs {}) ⟨none, rfl⟩).step trivial hstart
      cases hecho : e.receiveSegment echo with
      | error exn =>
          rw [hstart] at hcheck
          simp only [bind, Except.bind, hecho] at hcheck
          cases hcheck
      | ok e' =>
          rw [hstart] at hcheck
          simp only [bind, Except.bind, hecho] at hcheck
          have hsame := ((h {} e hreach).1 _ echo e' trivial echo_travels.decode_wire hecho).toReceiver
            (.inl rfl) ⟨1, 1⟩ (show (1 : UInt64) = e.config.localEngineId by
              rw [config_of_reachable hreach])
          rw [hsame] at hcheck
          simp [Except.toOption, pure, Except.pure] at hcheck

end LtpEngine

end QpskB210.Ltp
