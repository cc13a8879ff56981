import QpskB210.Ltp.RedTransfer

/-!
# LTP — At most once

How often a receiver session ends. Every removal of a session of another
engine from the table is reported by exactly one call, so a session ends once
for each time it was put there. Nothing is remembered of a session that has
ended: a late data segment puts it back, if the table has a free slot.
-/

namespace QpskB210.Ltp

open QpskB210.Lib

/-- The call reports the end of a receiver session under `key`: delivered, or
cancelled. -/
def Event.endsAt (key : SessionKey) : Event → Bool
  | .dataArrival k _ => k = key
  | .sessionFailure k _ _ => k = key
  | _ => false

/-- The call delivers the session under `key`. -/
def Event.arrivesAt (key : SessionKey) : Event → Bool
  | .dataArrival k _ => k = key
  | _ => false

/-- How often a session under `key` has ended. -/
def endings (trace : List Event) (key : SessionKey) : Nat := trace.countP (Event.endsAt key)

theorem endings_append (trace trace' : List Event) (key : SessionKey) :
    endings (trace ++ trace') key = endings trace key + endings trace' key :=
  List.countP_append

theorem endings_sends (segments : List LtpSegment) (key : SessionKey) :
    endings (events (segments.map Act.send)) key = 0 := by
  induction segments with
  | nil => rfl
  | cons seg segments ih =>
      rw [List.map_cons, events_send, endings, List.countP_cons_of_neg (by simp [Event.endsAt])]
      exact ih

namespace LtpEngine

/-- No data segment finds a free slot after its session has ended. -/
def NoRevival (e : LtpEngine) : Action → Prop
  | .receive bytes => ∀ seg, LtpSegment.decode bytes = .ok (some seg) →
      SegType.isData seg.segmentType = true → e.sessions.lookup (segmentKey seg) = none →
      e.isFull = false → endings e.trace (segmentKey seg) = 0
  | _ => True

/-- A session of another engine has ended at most once, and not at all while
it is in the table. -/
structure Once (e : LtpEngine) : Prop where
  stored : e.WellStored
  once : ∀ key, key.engineId ≠ e.config.localEngineId → endings e.trace key ≤ 1
  held : ∀ key, key.engineId ≠ e.config.localEngineId → e.sessions.lookup key ≠ none →
    endings e.trace key = 0

variable {e e' : LtpEngine} {key : SessionKey}

/-- The call ends the session under `key` at most once, only if it may be
there and is removed, and no other. -/
structure EndsOnly (e : LtpEngine) (key : SessionKey) (held : Option LtpSession)
    (calls : List Event) : Prop where
  other : ∀ k, k ≠ key → endings calls k = 0
  once : endings calls key ≤ 1
  gone : endings calls key = 1 → held = none
  fresh : endings calls key = 1 ∨ held ≠ none →
    e.sessions.lookup key ≠ none ∨ endings e.trace key = 0

theorem Once.effect {held : Option LtpSession} {acts : List Act} {rounds : UInt64} (h : e.Once)
    (heffect : Effect e e' key held acts rounds) (hstored : e'.WellStored)
    (hends : key.engineId ≠ e.config.localEngineId → e.EndsOnly key held (events acts))
    (hlocal : key.engineId = e.config.localEngineId →
      ∀ k, k ≠ key → endings (events acts) k = 0) : e'.Once := by
  have hother (k : SessionKey) (hk : k ≠ key) : endings (events acts) k = 0 := by
    by_cases hid : key.engineId = e.config.localEngineId
    · exact hlocal hid k hk
    · exact (hends hid).other k hk
  have hfresh (hid : key.engineId ≠ e.config.localEngineId)
      (hch : endings (events acts) key = 1 ∨ held ≠ none) : endings e.trace key = 0 := by
    rcases (hends hid).fresh hch with hheld | hzero
    · exact h.held key hid hheld
    · exact hzero
  refine ⟨hstored, fun k hid => ?_, fun k hid hheld => ?_⟩ <;> rw [heffect.config] at hid <;>
    rw [heffect.trace, endings_append] <;> by_cases hk : k = key
  · subst hk
    have hle := (hends hid).once
    rcases Nat.lt_or_ge (endings (events acts) k) 1 with hzero | hone
    · have := h.once k hid
      omega
    · have := hfresh hid (.inl (by omega))
      omega
  · have := hother k hk
    have := h.once k hid
    omega
  · subst hk
    rw [heffect.lookup] at hheld
    have hnot : endings (events acts) k ≠ 1 := fun h1 => hheld ((hends hid).gone h1)
    have hle := (hends hid).once
    have := hfresh hid (.inr hheld)
    omega
  · rw [heffect.frame k hk] at hheld
    have := hother k hk
    have := h.held k hid hheld
    omega

/-- A call that ends no session. -/
theorem Once.silent {held : Option LtpSession} {acts : List Act} {rounds : UInt64} (h : e.Once)
    (heffect : Effect e e' key held acts rounds) (hstored : e'.WellStored)
    (hcalls : ∀ k, endings (events acts) k = 0)
    (hheld : held ≠ none → e.sessions.lookup key ≠ none ∨ endings e.trace key = 0) : e'.Once := by
  refine h.effect heffect hstored (fun _ => ?_) fun _ k _ => hcalls k
  have hzero := hcalls key
  exact ⟨fun k _ => hcalls k, by omega, fun h1 => by omega,
    fun hch => hheld (hch.resolve_left (by omega))⟩

/-- A call that leaves the session under `key` as it was, and ends none. -/
theorem Once.same {acts : List Act} {rounds : UInt64} (h : e.Once)
    (heffect : Effect e e' key (e.sessions.lookup key) acts rounds) (hstored : e'.WellStored)
    (hcalls : ∀ k, endings (events acts) k = 0) : e'.Once :=
  h.silent heffect hstored hcalls .inl

/-- A call that removes the session under `key`, with one report. -/
theorem Once.ended {acts : List Act} {rounds : UInt64} (h : e.Once)
    (heffect : Effect e e' key none acts rounds) (hstored : e'.WellStored)
    (hother : ∀ k, k ≠ key → endings (events acts) k = 0)
    (hone : endings (events acts) key = 1)
    (hheld : e.sessions.lookup key ≠ none ∨ endings e.trace key = 0) : e'.Once :=
  h.effect heffect hstored (fun _ => ⟨hother, hone.le, fun _ => rfl, fun _ => hheld⟩)
    fun _ => hother

/-- A call that works on one of the engine's own sessions. -/
theorem Once.own {held : Option LtpSession} {acts : List Act} {rounds : UInt64} (h : e.Once)
    (heffect : Effect e e' key held acts rounds) (hstored : e'.WellStored)
    (hlocal : key.engineId = e.config.localEngineId)
    (hother : ∀ k, k ≠ key → endings (events acts) k = 0) : e'.Once :=
  h.effect heffect hstored (fun hid => absurd hlocal hid) fun _ => hother

theorem endings_arrival (data : List UInt8) {k : SessionKey} (hk : k ≠ key) :
    endings [.dataArrival key data] k = 0 := by
  simp [endings, Event.endsAt, hk.symm]

theorem endings_failure (sn : UInt64) (reason : UInt8) {k : SessionKey} (hk : k ≠ key) :
    endings [.sessionFailure key sn reason] k = 0 := by
  simp [endings, Event.endsAt, hk.symm]

/-- The session that was there, with one segment sent, failed. -/
theorem Once.failed {seg : LtpSegment} {session : LtpSession} {sn : UInt64} {reason : UInt8}
    {rounds : UInt64} (h : e.Once) (hlookup : e.sessions.lookup key = some session)
    (heffect : Effect e e' key none [.send seg, .call (.sessionFailure key sn reason)] rounds)
    (hstored : e'.WellStored) : e'.Once := by
  refine h.ended heffect hstored (fun k hk => endings_failure sn reason hk) ?_ (.inl ?_)
  · simp [endings, Event.endsAt]
  · rw [hlookup]
    exact Option.some_ne_none session

theorem Once.receiveDataSegment {seg : LtpSegment} (h : e.Once)
    (hfresh : e.sessions.lookup (segmentKey seg) = none → e.isFull = false →
      endings e.trace (segmentKey seg) = 0)
    (hcall : e.receiveDataSegment seg = .ok e') : e'.Once := by
  have hstored := h.stored.receiveDataSegment hcall
  obtain ⟨ds, -, hcases⟩ := receiveDataSegment_cases hcall
  rcases hcases with ⟨-, -, rfl⟩ | ⟨session, hmeets, ⟨-, rfl⟩ | ⟨stored, -, hout⟩⟩
  · exact h
  · exact h
  have hmay : e.sessions.lookup (segmentKey seg) ≠ none ∨ endings e.trace (segmentKey seg) = 0 := by
    rcases hmeets with hlookup | ⟨hnone, hfree, -⟩
    · rw [hlookup]
      exact .inl (Option.some_ne_none session)
    · exact .inr (hfresh hnone hfree)
  cases hout with
  | quiet _ heffect => exact h.silent heffect hstored (fun _ => rfl) fun _ => hmay
  | reported _ _ _ heffect => exact h.silent heffect hstored (fun _ => rfl) fun _ => hmay
  | delivered data _ _ _ heffect =>
      refine h.ended heffect hstored (fun k hk => endings_arrival data hk) ?_ hmay
      simp [endings, Event.endsAt]

theorem endings_givingUp (session : LtpSession) {k : SessionKey} (hk : k ≠ key) :
    endings (events (givingUp key session)) k = 0 :=
  endings_failure key.sessionNumber 0x01 hk

theorem Once.receiveReportSegment {seg : LtpSegment} (h : e.Once)
    (hcall : e.receiveReportSegment seg = .ok e') : e'.Once := by
  have hstored := h.stored.receiveReportSegment hcall
  obtain ⟨rs, -, hcases⟩ := receiveReportSegment_cases hcall
  split at hcases
  · exact h.own hcases hstored rfl fun _ _ => rfl
  · rename_i session hlookup
    split at hcases
    · cases hcases (h.stored _ _ hlookup) with
      | complete _ heffect => exact h.own heffect hstored rfl fun _ _ => rfl
      | waiting _ _ heffect => exact h.own heffect hstored rfl fun _ _ => rfl
      | gaveUp _ _ _ heffect =>
          exact h.own heffect hstored rfl fun k hk => endings_givingUp session hk
      | resent _ _ _ _ marked _ _ heffect =>
          exact h.own heffect hstored rfl fun k _ => endings_sends marked k
    · exact h.own hcases hstored rfl fun _ _ => rfl

theorem Once.receiveReportAck {seg : LtpSegment} (h : e.Once)
    (hcall : e.receiveReportAck seg = .ok e') : e'.Once := by
  have hstored := h.stored.receiveReportAck hcall
  obtain ⟨ra, -, ⟨session, data, hlookup, -, -, -, heffect⟩ | ⟨acts, heffect, hacts, -⟩⟩ :=
    receiveReportAck_cases hcall
  · refine h.ended heffect hstored (fun k hk => endings_arrival data hk) ?_ (.inl ?_)
    · simp [endings, Event.endsAt]
    · rw [hlookup]
      exact Option.some_ne_none session
  · refine h.same heffect hstored fun k => ?_
    rcases hacts with rfl | rfl <;> rfl

theorem Once.receiveCancelSegment {seg : LtpSegment} (h : e.Once)
    (hcall : e.receiveCancelSegment seg = .ok e') : e'.Once := by
  have hstored := h.stored.receiveCancelSegment hcall
  obtain ⟨cc, -, hcases⟩ := receiveCancelSegment_cases hcall
  split at hcases
  · exact h.silent hcases hstored (fun _ => rfl) fun hne => absurd rfl hne
  · rename_i session hlookup
    exact h.failed hlookup hcases hstored

theorem Once.cancelSession {reason : UInt8} (h : e.Once)
    (hcall : e.cancelSession key.engineId key.sessionNumber reason = .ok e') : e'.Once := by
  have hstored := h.stored.cancelSession hcall
  cases hlookup : e.sessions.lookup key with
  | none =>
      rw [cancelSession_of_none hlookup] at hcall
      exact Except.ok.inj hcall ▸ h
  | some session => exact h.failed hlookup (cancelSession_effect hcall hlookup) hstored

theorem Once.handleTimerExpiry {event : TimerEvent} (h : e.Once)
    (hcall : e.handleTimerExpiry event = .ok e') : e'.Once := by
  have hstored := h.stored.handleTimerExpiry hcall
  rw [LtpEngine.handleTimerExpiry] at hcall
  split at hcall
  · cases checkpointExpiry_outcome hcall fun session hlookup => h.stored _ session hlookup with
    | idle heq _ => exact heq ▸ h
    | gaveUp session _ _ _ heffect =>
        exact h.own heffect hstored rfl fun k hk => endings_givingUp session hk
    | resent _ _ _ _ segments _ _ heffect =>
        exact h.own heffect hstored rfl fun k _ => endings_sends segments k
  · rcases reportExpiry_cases hcall with rfl | ⟨session, hlookup, -, ⟨-, heffect⟩ | ⟨-, heffect⟩⟩
    · exact h
    · exact h.silent heffect hstored (fun _ => rfl) fun _ => .inl (by simp [hlookup])
    · exact h.silent heffect hstored (fun _ => rfl) fun _ => .inl (by simp [hlookup])
  · exact Except.ok.inj hcall ▸ h

theorem Once.startSession {data : Block} {reliable : Bool} {sn : UInt64} (h : e.Once)
    (hcall : e.startSession data reliable = .ok (e', sn)) : e'.Once := by
  have hstored := h.stored.startSession hcall
  rcases startSession_cases hcall with ⟨-, rfl, -⟩ | ⟨-, rfl, segments, cpSerial, -, heffect⟩
  · exact h
  · have h₀ : Once { e with sessionCounter := e.sessionCounter + 1 } := ⟨h.stored, h.once, h.held⟩
    exact h₀.own heffect hstored rfl fun k _ => endings_sends segments k

theorem Once.receiveSegment {seg : LtpSegment} (h : e.Once)
    (hfresh : SegType.isData seg.segmentType = true → e.sessions.lookup (segmentKey seg) = none →
      e.isFull = false → endings e.trace (segmentKey seg) = 0)
    (hcall : e.receiveSegment seg = .ok e') : e'.Once := by
  rcases receiveSegment_cases hcall with ⟨htype, hcall⟩ | ⟨-, hcall⟩ | ⟨-, hcall⟩ | ⟨-, hcall⟩ |
    rfl | rfl
  · exact h.receiveDataSegment (hfresh htype) hcall
  · exact h.receiveReportSegment hcall
  · exact h.receiveReportAck hcall
  · exact h.receiveCancelSegment hcall
  · rwa [h.stored.receiveCancelAck]
  · exact h

/-- A call that revives no session keeps the invariant. -/
theorem Once.exec {a : Action} (h : e.Once) (hguard : NoRevival e a) (hcall : e.exec a = .ok e') :
    e'.Once := by
  cases a with
  | startSession data reliable =>
      obtain ⟨⟨e₁, sn⟩, hstart, hcall⟩ := bind_eq_ok.mp hcall
      cases hcall
      exact h.startSession hstart
  | cancelSession engineId sessionNumber reason =>
      exact @Once.cancelSession e e' ⟨engineId, sessionNumber⟩ reason h hcall
  | receive bytes =>
      rcases receiveBytes_cases hcall with rfl | ⟨seg, hdecode, hcall⟩
      · exact h
      · exact h.receiveSegment (hguard seg hdecode) hcall
  | expire entry =>
      rcases expire_cases hcall with rfl | ⟨tm, -, -, ⟨-, rfl⟩ | ⟨-, hcall⟩⟩
      · exact h
      · exact ⟨h.stored, h.once, h.held⟩
      · have h' : (e.popped tm entry).Once := ⟨h.stored, h.once, h.held⟩
        exact h'.handleTimerExpiry hcall
  | handleTimerExpiry event => exact h.handleTimerExpiry hcall

end LtpEngine

/-! ## Runs -/

/-- The guard: node B's engine revives no session. -/
def NoRevivalAtB (n : Net) : Side × Action → Prop
  | (.a, _) => True
  | (.b, action) => LtpEngine.NoRevival n.b.engine action

/-- Each session of A is delivered at most once, and once it has ended at B
it is not in B's table. -/
def AtMostOnce (configA : LtpEngineConfig) (n : Net) : Prop :=
  ∀ start ∈ n.a.journal.started,
    n.b.engine.trace.countP (Event.arrivesAt ⟨configA.localEngineId, start.sessionNumber⟩) ≤ 1 ∧
      ((∃ event ∈ n.b.engine.trace,
          event.endsAt ⟨configA.localEngineId, start.sessionNumber⟩ = true) →
        n.b.engine.sessions.lookup ⟨configA.localEngineId, start.sessionNumber⟩ = none)

theorem once_of_reachable {configA configB : LtpEngineConfig} {n : Net}
    (h : (network configA configB).Reachable NoRevivalAtB n) :
    n.b.engine.config = configB ∧ n.b.engine.Once := by
  refine h.invariant (P := fun n => n.b.engine.config = configB ∧ n.b.engine.Once)
    (fun n₀ hinit => ?_) fun n₁ step n₂ hP hguard hstep => ?_
  · obtain ⟨nowA, nowB, rfl⟩ := hinit
    exact ⟨rfl, LtpEngine.wellStored_create _ _, fun _ _ => Nat.zero_le _, fun _ _ _ => rfl⟩
  · obtain ⟨hconfig, honce⟩ := hP
    obtain ⟨side, action⟩ := step
    cases side with
    | a =>
        obtain ⟨node, -, rfl⟩ := Option.map_eq_some_iff.mp hstep
        exact ⟨hconfig, honce⟩
    | b =>
        obtain ⟨node, hnode, rfl⟩ := Option.map_eq_some_iff.mp hstep
        have hexec := node_exec hnode
        obtain ⟨key, hconfined⟩ := LtpEngine.exec_confined honce.stored hexec
        exact ⟨hconfined.config.trans hconfig, honce.exec hguard hexec⟩

/-- **At-most-once delivery.** In every run in which no data segment of a
session that has ended at B finds a free slot there, sessions of A are
delivered at most once and do not come back. -/
theorem at_most_once (configA configB : LtpEngineConfig) (n : Net)
    (hids : configA.localEngineId ≠ configB.localEngineId)
    (h : (network configA configB).Reachable NoRevivalAtB n) : AtMostOnce configA n := by
  obtain ⟨hconfig, honce⟩ := once_of_reachable h
  intro start _
  have hid : configA.localEngineId ≠ n.b.engine.config.localEngineId := by
    rw [hconfig]
    exact hids
  have hle := honce.once ⟨configA.localEngineId, start.sessionNumber⟩ hid
  refine ⟨le_trans (List.countP_mono_left fun event _ harrives => ?_) hle, fun hended => ?_⟩
  · cases event with
    | dataArrival k data => exact harrives
    | sendSegment bytes => cases harrives
    | sessionComplete k sn => cases harrives
    | sessionFailure k sn reason => cases harrives
  · by_contra hheld
    have hzero := honce.held ⟨configA.localEngineId, start.sessionNumber⟩ hid hheld
    have hpos := List.countP_pos_iff.mpr hended
    exact absurd hzero (Nat.pos_iff_ne_zero.mp hpos)

/-- A check of the guard. -/
def revivalCheck (n : Net) : Side × Action → Bool
  | (.b, .receive bytes) =>
    match LtpSegment.decode bytes with
    | .ok (some seg) =>
      (n.b.engine.sessions.lookup (LtpEngine.segmentKey seg)).isSome ||
        endings n.b.engine.trace (LtpEngine.segmentKey seg) == 0
    | _ => true
  | _ => true

theorem noRevivalAtB_of_check (n : Net) (step : Side × Action) (h : revivalCheck n step = true) :
    NoRevivalAtB n step := by
  obtain ⟨side, action⟩ := step
  cases side with
  | a => trivial
  | b =>
      cases action with
      | receive bytes =>
          intro seg hdecode _ hnone _
          rw [revivalCheck, hdecode] at h
          dsimp only at h
          rw [hnone] at h
          simpa using h
      | startSession data reliable => trivial
      | cancelSession engineId sessionNumber reason => trivial
      | expire entry => trivial
      | handleTimerExpiry event => trivial

theorem at_most_once_handshake : ∃ n, (twoNodes 1400).run revivalCheck handshake = some n ∧
    n.b.engine.trace.countP (Event.arrivesAt ⟨1, 1⟩) = 1 ∧
    n.b.engine.sessions.lookup ⟨1, 1⟩ = none := by
  have hcheck : ((twoNodes 1400).run revivalCheck handshake).map (fun n =>
      decide (Event.dataArrival ⟨1, 1⟩ [7, 8] ∈ n.b.engine.trace) &&
        decide (⟨1, [7, 8], true⟩ ∈ n.a.journal.started)) = some true := by decide +kernel
  obtain ⟨n, hrun, hn⟩ := Option.map_eq_some_iff.mp hcheck
  rw [Bool.and_eq_true, decide_eq_true_eq, decide_eq_true_eq] at hn
  obtain ⟨hle, hgone⟩ := at_most_once (nodeConfig 1 1400) (nodeConfig 2 1400) n (by decide)
    (reachable_of_run noRevivalAtB_of_check hrun) ⟨1, [7, 8], true⟩ hn.2
  have hpos : 0 < n.b.engine.trace.countP (Event.arrivesAt ⟨1, 1⟩) :=
    List.countP_pos_iff.mpr ⟨_, hn.1, by decide⟩
  have hle : n.b.engine.trace.countP (Event.arrivesAt ⟨1, 1⟩) ≤ 1 := hle
  exact ⟨n, hrun, by omega, hgone ⟨_, hn.1, by decide⟩⟩

/-- A handshake whose data segment and acknowledgment come again. -/
def revival : List (Side × Action) :=
  handshake ++ [(.b, .receive wholeBlock.wire), (.b, .receive ackOfReport.wire)]

/-- A session comes back and is delivered twice. -/
theorem at_most_once_revived : ¬ ∀ (configA configB : LtpEngineConfig) (n : Net),
    configA.localEngineId ≠ configB.localEngineId →
      (network configA configB).Reachable System.free n → AtMostOnce configA n := by
  intro h
  have hcheck : ((twoNodes 1400).run (fun _ _ => true) revival).map (fun n =>
      decide (n.b.engine.trace.countP (Event.arrivesAt ⟨1, 1⟩) = 2) &&
        decide (⟨1, [7, 8], true⟩ ∈ n.a.journal.started)) = some true := by decide +kernel
  obtain ⟨n, hrun, hn⟩ := Option.map_eq_some_iff.mp hcheck
  rw [Bool.and_eq_true, decide_eq_true_eq, decide_eq_true_eq] at hn
  have honce := h (nodeConfig 1 1400) (nodeConfig 2 1400) n (by decide)
    (reachable_of_run (fun _ _ _ => trivial) hrun) ⟨1, [7, 8], true⟩ hn.2
  have hle : n.b.engine.trace.countP (Event.arrivesAt ⟨1, 1⟩) ≤ 1 := honce.1
  omega

end QpskB210.Ltp
