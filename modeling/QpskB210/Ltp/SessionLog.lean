import QpskB210.Ltp.EngineProgress

/-!
# LTP — Session log

An engine with a log for each session key: the calls made on it and the
callbacks it called since the session under the key was set up. What a session
has received and sent is read off its log, from the bytes.
-/

namespace QpskB210.Ltp

open QpskB210.Lib LtpEngine

/-- A call that the engine took, or a callback's call that it gave. -/
inductive Entry where
  | took (a : Action)
  | gave (event : Event)

/-- An engine and the logs of its sessions. -/
structure Logged where
  engine : LtpEngine
  log : SessionKey → List Entry := fun _ => []

/-- The callbacks' calls from `e` to `e'`. -/
def LtpEngine.gives (e e' : LtpEngine) : List Event := e'.trace.drop e.trace.length

namespace Logged

/-- The log goes on while the session is there, and starts anew with the next
one under its key. -/
def since (n : Logged) (key : SessionKey) : List Entry :=
  if (n.engine.sessions.lookup key).isSome then n.log key else []

/-- The logs after a call. -/
def after (n : Logged) (a : Action) (e' : LtpEngine) : Logged :=
  { engine := e'
    log := fun key => n.since key ++ .took a :: (n.engine.gives e').map .gave }

end Logged

/-- The runs of an engine with this configuration, with their logs. -/
def logged (config : LtpEngineConfig) : System Logged Action where
  init n := ∃ timerManager, n = { engine := create config timerManager }
  step n a n' := ∃ e', n.engine.exec a = .ok e' ∧ n' = n.after a e'

theorem Effect.gives_eq {e e' : LtpEngine} {key : SessionKey} {held : Option LtpSession}
    {acts : List Act} {rounds : UInt64} (h : Effect e e' key held acts rounds) :
    e.gives e' = events acts :=
  h.drop_trace

/-! ## What the bytes say -/

/-- The serial of a checkpoint of the session. -/
def LtpSegment.checkpointOf (key : SessionKey) (seg : LtpSegment) : Option UInt64 :=
  match seg.content with
  | .data ds =>
    if SegType.hasCheckpoint seg.segmentType && decide (segmentKey seg = key) then
      ds.checkpointSerial
    else none
  | _ => none

/-- The serial in the bytes of a checkpoint of the session. -/
def checkpointIn (key : SessionKey) (bytes : List UInt8) : Option UInt64 :=
  match LtpSegment.decode bytes with
  | .ok (some seg) => seg.checkpointOf key
  | _ => none

/-- A report of the session. -/
def reportSegment (key : SessionKey) (rs : ReportSegContent) : LtpSegment :=
  { segmentType := SegType.reportSegment, engineId := key.engineId
    sessionNumber := key.sessionNumber, content := .report rs }

theorem wire_reportSegment (key : SessionKey) (rs : ReportSegContent) :
    (reportSegment key rs).wire = SegType.reportSegment ::
      (Sdnv.encode key.engineId ++ (Sdnv.encode key.sessionNumber ++
        ([0, 0] ++ LtpSegment.encodeReport rs))) := by
  have hencode : (reportSegment key rs).encode =
      .ok (LtpSegment.encodeHeader (reportSegment key rs) ++ (LtpSegment.encodeExtensions [] ++
        (LtpSegment.encodeReport rs ++ LtpSegment.encodeExtensions []))) := rfl
  rw [LtpSegment.wire_eq hencode]
  simp [LtpSegment.encodeHeader, LtpSegment.encodeExtensions, reportSegment, SegType.reportSegment]
  rfl

/-- A report is read off its bytes. -/
theorem wire_reportSegment_inj {key key' : SessionKey} {rs rs' : ReportSegContent}
    (h : (reportSegment key rs).wire = (reportSegment key' rs').wire) :
    key = key' ∧ rs.reportSerial = rs'.reportSerial ∧ rs.checkpointSerial = rs'.checkpointSerial := by
  rw [wire_reportSegment, wire_reportSegment, List.cons.injEq] at h
  obtain ⟨hengine, h⟩ := Sdnv.encode_append_inj h.2
  obtain ⟨hnumber, h⟩ := Sdnv.encode_append_inj h
  have h := List.append_cancel_left h
  rw [LtpSegment.encodeReport, LtpSegment.encodeReport] at h
  obtain ⟨hreport, h⟩ := Sdnv.encode_append_inj h
  obtain ⟨hcheckpoint, -⟩ := Sdnv.encode_append_inj h
  refine ⟨?_, hreport, hcheckpoint⟩
  cases key
  cases key'
  cases hengine
  cases hnumber
  rfl

/-- What has another type is not a report. -/
theorem wire_ne_reportSegment {key : SessionKey} {rs : ReportSegContent} {seg : LtpSegment}
    (hversion : seg.version = 0) (htype : seg.segmentType &&& 0x0F ≠ SegType.reportSegment) :
    seg.wire ≠ (reportSegment key rs).wire := by
  intro h
  rw [wire_reportSegment] at h
  exact htype (LtpSegment.head_wire hversion (by rw [h]; rfl)).symm

theorem checkpointIn_of_travels {seg : LtpSegment} (h : seg.Travels) (key : SessionKey) :
    checkpointIn key seg.wire = seg.checkpointOf key := by
  rw [checkpointIn, h.decode_wire]

/-- A report is no checkpoint, however long it is. -/
theorem checkpointIn_reportSegment (key key' : SessionKey) (rs : ReportSegContent) :
    checkpointIn key (reportSegment key' rs).wire = none := by
  rw [checkpointIn]
  split
  · rename_i seg hdecode
    obtain ⟨control, hhead, htype⟩ := LtpSegment.type_of_decode hdecode
    rw [wire_reportSegment, List.head?_cons, Option.some.injEq] at hhead
    rw [LtpSegment.checkpointOf]
    split
    · rename_i ds hds
      have hdata := (LtpSegment.decodeData_of_decode hdecode hds).1
      rw [htype, ← hhead] at hdata
      exact absurd hdata (by decide)
    · rfl
  · rfl

/-- The serial of the checkpoint of the session that the entry received. -/
def Entry.heard (key : SessionKey) : Entry → Option UInt64
  | .took (.receive bytes) => checkpointIn key bytes
  | _ => none

/-- The serial of the checkpoint of the session that the entry sent. -/
def Entry.marked (key : SessionKey) : Entry → Option UInt64
  | .gave (.sendSegment bytes) => checkpointIn key bytes
  | _ => none

namespace Logged

/-- The serials of the checkpoints the session has received. -/
def heard (n : Logged) (key : SessionKey) : List UInt64 := (n.log key).filterMap (Entry.heard key)

/-- The serials the session has used for checkpoints. -/
def used (n : Logged) (key : SessionKey) : List UInt64 := (n.log key).filterMap (Entry.marked key)

/-- The session has sent this report. -/
def Reported (n : Logged) (key : SessionKey) (rs : ReportSegContent) : Prop :=
  .gave (.sendSegment (reportSegment key rs).wire) ∈ n.log key

variable {n n' : Logged} {config : LtpEngineConfig} {guard : Logged → Action → Prop}

/-! ## Runs -/

/-- The engine of a logged run makes the same run. -/
theorem runs_of_logged (h : (logged config).Reachable guard n) :
    (runs config).Reachable System.free n.engine := by
  refine h.invariant (P := fun n => (runs config).Reachable System.free n.engine)
    (fun n₀ hinit => ?_) fun n₁ a n₂ hreach _ hstep => ?_
  · obtain ⟨timerManager, rfl⟩ := hinit
    exact .init ⟨timerManager, rfl⟩
  · obtain ⟨e', hexec, rfl⟩ := hstep
    exact hreach.step trivial hexec

theorem wellStored_of_logged (h : (logged config).Reachable guard n) : n.engine.WellStored :=
  wellStored_of_reachable (runs_of_logged h)

theorem config_of_logged (h : (logged config).Reachable guard n) : n.engine.config = config :=
  config_of_reachable (runs_of_logged h)

theorem localKey_of_logged (h : (logged config).Reachable guard n) (sessionNumber : UInt64) :
    n.engine.localKey sessionNumber = ⟨config.localEngineId, sessionNumber⟩ := by
  rw [localKey, config_of_logged h]

/-- Some calls, one after the other. -/
def run (n : Logged) (actions : List Action) : Option Logged :=
  actions.foldlM (fun n a => (n.engine.exec a).toOption.map (n.after a)) n

theorem reachable_of_run (hn : (logged config).Reachable guard n) {actions : List Action}
    (hguard : ∀ a ∈ actions, ∀ n, guard n a) (h : n.run actions = some n') :
    (logged config).Reachable guard n' := by
  induction actions generalizing n with
  | nil =>
      cases h
      exact hn
  | cons a actions ih =>
      obtain ⟨n₁, hstep, h⟩ := Option.bind_eq_some_iff.mp h
      obtain ⟨e', hexec, rfl⟩ := Option.map_eq_some_iff.mp hstep
      exact ih (hn.step (hguard a (by simp) n) ⟨e', eq_ok_of_toOption hexec, rfl⟩)
        (fun b hb => hguard b (by simp [hb])) h

/-! ## One call -/

variable {a : Action} {e' : LtpEngine} {key : SessionKey} {rs : ReportSegContent}

theorem since_of_live {session : LtpSession} (h : n.engine.sessions.lookup key = some session) :
    n.since key = n.log key := by
  rw [since, h]
  rfl

theorem since_of_none (h : n.engine.sessions.lookup key = none) : n.since key = [] := by
  rw [since, h]
  rfl

theorem heard_after : (n.after a e').heard key =
    (n.since key).filterMap (Entry.heard key) ++ ((Entry.took a).heard key).toList := by
  have hgave : ((n.engine.gives e').map Entry.gave).filterMap (Entry.heard key) = [] := by
    rw [List.filterMap_map]
    exact List.filterMap_eq_nil_iff.mpr fun _ _ => rfl
  rw [heard, after, List.filterMap_append, ← List.singleton_append, List.filterMap_append, hgave,
    List.append_nil, List.filterMap_cons, List.filterMap_nil]
  cases (Entry.took a).heard key <;> rfl

theorem used_after : (n.after a e').used key =
    (n.since key).filterMap (Entry.marked key) ++
      (n.engine.gives e').filterMap fun event => (Entry.gave event).marked key := by
  rw [used, after, List.filterMap_append, List.filterMap_cons, List.filterMap_map]
  rfl

theorem reported_after : (n.after a e').Reported key rs ↔
    .gave (.sendSegment (reportSegment key rs).wire) ∈ n.since key ∨
      .sendSegment (reportSegment key rs).wire ∈ n.engine.gives e' := by
  simp [Reported, after]

end Logged

end QpskB210.Ltp
