import QpskB210.Ltp.EngineRuns

/-!
# LTP — Checkpoint timers

When every originator session in the table has a checkpoint timer running.
`TimersInv` says that timer ids are issued once and that a report timer's id
is never a checkpoint timer's; with it, each act of a call says which timers
it starts and which one it may cancel. A report cancels the checkpoint timer
it finds before it knows what it will do next: `Spared` is the condition
under which that leaves no session without a timer.
-/

namespace QpskB210.Ltp

open QpskB210.Lib

/-! ## Timer ids -/

/-- Ids grow, and a report timer never has a checkpoint timer's id. -/
structure TimersInv (t : Timers) (tm : TimerManager) : Prop where
  manager : t.manager = some tm
  marks : tm.MarksIssued
  heap : ∀ entry ∈ tm.heap, entry.timerId ≤ tm.nextId
  checkpoint : ∀ key id, t.checkpoint.lookup key = some id → id ≤ tm.nextId
  report : ∀ key id, t.report.lookup key = some id → id ≤ tm.nextId
  apart : ∀ key id, t.report.lookup key = some id →
    ∀ entry ∈ tm.heap, entry.timerId = id → entry.event.type ≠ .checkpoint

/-- A checkpoint timer of the session is running. -/
def Running (tm : TimerManager) (key : SessionKey) : Prop :=
  ∃ entry, tm.Outstanding entry ∧ entry.event.type = .checkpoint ∧
    entry.event.engineId = key.engineId ∧ entry.event.sessionNumber = key.sessionNumber

/-- The session has a checkpoint timer running besides the one with this id. -/
def RunningBesides (tm : TimerManager) (id : UInt64) (key : SessionKey) : Prop :=
  ∃ entry, tm.Outstanding entry ∧ entry.event.type = .checkpoint ∧
    entry.event.engineId = key.engineId ∧ entry.event.sessionNumber = key.sessionNumber ∧
    entry.timerId ≠ id

theorem Running.mono {tm tm' : TimerManager} {key : SessionKey}
    (h : ∀ entry, tm.Outstanding entry → entry.event.type = .checkpoint → tm'.Outstanding entry)
    (hr : Running tm key) : Running tm' key := by
  obtain ⟨entry, hout, htype, hkey⟩ := hr
  exact ⟨entry, h entry hout htype, htype, hkey⟩

namespace TimersInv

variable {t : Timers} {tm : TimerManager}

/-- Starting a timer: the others run on, and the new one runs. -/
theorem start (h : TimersInv t tm) (hfresh : tm.HasFreshId) (timeout : Nat) (event : TimerEvent) :
    ∃ tm', TimersInv (t.start timeout event) tm' ∧
      (∀ entry, tm.Outstanding entry → tm'.Outstanding entry) ∧
      ∃ entry, tm'.Outstanding entry ∧ entry.event = event := by
  have hlt : tm.nextId < tm.nextId + 1 := hfresh.lt_add_one
  have hle {id : UInt64} (hid : id ≤ tm.nextId) : id ≤ tm.nextId + 1 :=
    UInt64.le_of_lt (UInt64.lt_of_le_of_lt hid hlt)
  have hheap : ∀ entry ∈ (tm.startTimer timeout event).1.heap, entry.timerId ≤ tm.nextId + 1 := by
    intro entry hentry
    rcases List.mem_cons.mp hentry with rfl | hentry
    · exact UInt64.le_refl _
    · exact hle (h.heap entry hentry)
  refine ⟨(tm.startTimer timeout event).1, ?_, fun entry hout => hout.startTimer timeout event,
    TimerManager.outstanding_startTimer h.marks hfresh timeout event⟩
  unfold Timers.start
  rw [h.manager]
  dsimp only
  split
  · rename_i htype
    refine ⟨rfl, h.marks.startTimer hfresh timeout event, hheap, fun key id hid => ?_,
      fun key id hid => hle (h.report key id hid), fun key id hid entry hentry hentryId => ?_⟩
    · by_cases hkey : key = timerKey event.sessionNumber event.serialNumber
      · rw [hkey, AList.lookup_insert] at hid
        exact Option.some.inj hid ▸ UInt64.le_refl _
      · rw [AList.lookup_insert_ne hkey] at hid
        exact hle (h.checkpoint key id hid)
    · rcases List.mem_cons.mp hentry with rfl | hentry
      · -- the new id is larger than every id a report timer has
        have hid := hentryId ▸ h.report key id hid
        exact absurd hid (UInt64.not_le.mpr hlt)
      · exact h.apart key id hid entry hentry hentryId
  · rename_i htype
    refine ⟨rfl, h.marks.startTimer hfresh timeout event, hheap,
      fun key id hid => hle (h.checkpoint key id hid), fun key id hid => ?_,
      fun key id hid entry hentry hentryId => ?_⟩
    · by_cases hkey : key = timerKey event.sessionNumber event.serialNumber
      · rw [hkey, AList.lookup_insert] at hid
        exact Option.some.inj hid ▸ UInt64.le_refl _
      · rw [AList.lookup_insert_ne hkey] at hid
        exact hle (h.report key id hid)
    · rcases List.mem_cons.mp hentry with rfl | hentry
      · exact htype
      · by_cases hkey : key = timerKey event.sessionNumber event.serialNumber
        · rw [hkey, AList.lookup_insert] at hid
          have hold := h.heap entry hentry
          rw [hentryId, ← Option.some.inj hid] at hold
          exact absurd hold (UInt64.not_le.mpr hlt)
        · rw [AList.lookup_insert_ne hkey] at hid
          exact h.apart key id hid entry hentry hentryId

/-- Cancelling one id strikes no timer with another. -/
theorem cancel (h : TimersInv t tm) {id : UInt64} (hid : id ≤ tm.nextId) :
    TimersInv { t with manager := some (tm.cancelTimer id) } (tm.cancelTimer id) :=
  { h with manager := rfl, marks := h.marks.cancelTimer hid }

theorem cancelCheckpoint (h : TimersInv t tm) (timer : UInt64) :
    ∃ tm', TimersInv (t.cancelCheckpoint timer) tm' ∧ tm'.nextId = tm.nextId ∧
      ∀ entry, tm.Outstanding entry → t.checkpoint.lookup timer ≠ some entry.timerId →
        tm'.Outstanding entry := by
  unfold Timers.cancelCheckpoint
  cases hlookup : t.checkpoint.lookup timer with
  | none => exact ⟨tm, h, rfl, fun entry hout _ => hout⟩
  | some id =>
      have hcancel := h.cancel (h.checkpoint timer id hlookup)
      refine ⟨tm.cancelTimer id, { hcancel with manager := ?_, checkpoint := ?_ }, rfl, ?_⟩
      · dsimp only
        rw [h.manager]
        rfl
      · intro key id' hid
        by_cases hkey : key = timer
        · rw [hkey, AList.lookup_erase] at hid
          cases hid
        · rw [AList.lookup_erase_ne hkey] at hid
          exact h.checkpoint key id' hid
      · intro entry hout hne
        exact hout.cancelTimer fun heq => hne (congrArg some heq.symm)

/-- A report timer's cancellation strikes no checkpoint timer. -/
theorem cancelReport (h : TimersInv t tm) (timer : UInt64) :
    ∃ tm', TimersInv (t.cancelReport timer) tm' ∧
      ∀ entry, tm.Outstanding entry → entry.event.type = .checkpoint → tm'.Outstanding entry := by
  unfold Timers.cancelReport
  cases hlookup : t.report.lookup timer with
  | none => exact ⟨tm, h, fun entry hout _ => hout⟩
  | some id =>
      have hcancel := h.cancel (h.report timer id hlookup)
      refine ⟨tm.cancelTimer id,
        { hcancel with manager := ?_, report := ?_, apart := ?_ }, ?_⟩
      · dsimp only
        rw [h.manager]
        rfl
      · intro key id' hid
        by_cases hkey : key = timer
        · rw [hkey, AList.lookup_erase] at hid
          cases hid
        · rw [AList.lookup_erase_ne hkey] at hid
          exact h.report key id' hid
      · intro key id' hid
        by_cases hkey : key = timer
        · rw [hkey, AList.lookup_erase] at hid
          cases hid
        · rw [AList.lookup_erase_ne hkey] at hid
          exact h.apart key id' hid
      · intro entry hout htype
        exact hout.cancelTimer fun heq => h.apart timer id hlookup entry hout.1 heq htype

theorem popEntry (h : TimersInv t tm) (entry : TimerEntry) :
    TimersInv { t with manager := some (tm.popEntry entry).1 } (tm.popEntry entry).1 := by
  have hnext : (tm.popEntry entry).1.nextId = tm.nextId := by
    rw [TimerManager.popEntry]
    split <;> rfl
  have hheap : (tm.popEntry entry).1.heap = tm.heap.erase entry := by
    rw [TimerManager.popEntry]
    split <;> rfl
  exact
    { manager := rfl
      marks := h.marks.popEntry entry
      heap := fun other hother => by
        rw [hheap] at hother
        rw [hnext]
        exact h.heap other (List.mem_of_mem_erase hother)
      checkpoint := fun key id hid => hnext ▸ h.checkpoint key id hid
      report := fun key id hid => hnext ▸ h.report key id hid
      apart := fun key id hid other hother => by
        rw [hheap] at hother
        exact h.apart key id hid other (List.mem_of_mem_erase hother) }

end TimersInv

/-! ## The timers of sent segments -/

/-- Acts that leave the timers alone. -/
def Untimed (acts : List Act) : Prop := ∀ timeout t, timed timeout acts t = t

theorem untimed_nil : Untimed [] := fun _ _ => rfl

theorem untimed_send {seg : LtpSegment} (h : seg.timerEvent = none) {acts : List Act}
    (hacts : Untimed acts) : Untimed (.send seg :: acts) := by
  intro timeout t
  show timed timeout acts (Act.time timeout t (.send seg)) = t
  rw [Act.time_send_of_none h, hacts]

theorem untimed_call (event : Event) {acts : List Act} (hacts : Untimed acts) :
    Untimed (.call event :: acts) :=
  fun timeout t => hacts timeout t

theorem untimed_map_send {segments : List LtpSegment}
    (h : ∀ seg ∈ segments, seg.timerEvent = none) : Untimed (segments.map Act.send) := by
  induction segments with
  | nil => exact untimed_nil
  | cons seg segments ih =>
      exact untimed_send (h seg (by simp)) (ih fun s hs => h s (by simp [hs]))

namespace LtpEngine

theorem reportAck_timerEvent (seg : LtpSegment) (rs : ReportSegContent) :
    (reportAck seg rs).timerEvent = none := rfl

theorem cancelSegment_timerEvent (role : SessionRole) (key : SessionKey) (reason : UInt8) :
    (cancelSegment role key reason).timerEvent = none := rfl

theorem cancelAck_timerEvent (seg : LtpSegment) : (cancelAck seg).timerEvent = none := rfl

theorem untimed_givingUp (key : SessionKey) (session : LtpSession) :
    Untimed (givingUp key session) :=
  untimed_send (cancelSegment_timerEvent _ _ _) (untimed_call _ untimed_nil)

end LtpEngine

/-- The timer event of a session's checkpoint. -/
def checkpointEvent (session : LtpSession) (serial : UInt64) : TimerEvent :=
  { type := .checkpoint, engineId := session.engineId, sessionNumber := session.sessionNumber,
    serialNumber := serial }

theorem blockSegment_timerEvent (session : LtpSession) (cpSerial : UInt64) (p : Nat × Nat) :
    (blockSegment session cpSerial p).timerEvent =
      if session.isRed ∧ p.1 + p.2 = session.clientData.length then
        some (checkpointEvent session (cpSerial + 1))
      else none := by
  rw [blockSegment, chunkSegment]
  cases hred : session.isRed <;> by_cases hlast : p.1 + p.2 = session.clientData.length <;>
    simp [hlast, LtpSegment.timerEvent, LtpSession.dataSegment, checkpointEvent,
      SegType.hasCheckpoint, SegType.redData, SegType.redDataCpEorpEob, SegType.greenData,
      SegType.greenDataEob]

/-- Sending a red block starts one timer, for its checkpoint. -/
theorem timed_block {session : LtpSession} {maxSeg : UInt32} {cpSerial cpSerial' : UInt64}
    {segments : List LtpSegment}
    (h : segmentDataImpl session maxSeg cpSerial = .ok (segments, cpSerial'))
    (hred : session.isRed = true) (timeout : Nat) (t : Timers) :
    timed timeout (segments.map Act.send) t =
      t.start timeout (checkpointEvent session (cpSerial + 1)) := by
  obtain ⟨hmax, rfl, -⟩ := segmentDataImpl_eq_ok.mp h
  obtain ⟨init, last, hcuts, hend, hinit⟩ :=
    blockCuts_eq (hmax.imp_left (congrArg List.length ·))
  have huntimed : Untimed ((init.map (blockSegment session cpSerial)).map Act.send) := by
    refine untimed_map_send fun seg hseg => ?_
    obtain ⟨p, hp, rfl⟩ := List.mem_map.mp hseg
    rw [blockSegment_timerEvent, if_neg fun h => absurd h.2 (hinit p hp).ne]
  rw [hcuts, List.map_append, List.map_append, timed_append, huntimed]
  refine Act.time_send_of_some ?_ timeout t
  rw [blockSegment_timerEvent, if_pos ⟨hred, hend⟩]

theorem untimed_block {session : LtpSession} {maxSeg : UInt32} {cpSerial cpSerial' : UInt64}
    {segments : List LtpSegment}
    (h : segmentDataImpl session maxSeg cpSerial = .ok (segments, cpSerial'))
    (hgreen : session.isRed = false) : Untimed (segments.map Act.send) := by
  obtain ⟨-, rfl, -⟩ := segmentDataImpl_eq_ok.mp h
  refine untimed_map_send fun seg hseg => ?_
  obtain ⟨p, -, rfl⟩ := List.mem_map.mp hseg
  rw [blockSegment_timerEvent, if_neg fun h => by simp [hgreen] at h]

/-- The timer event of a session's next report. -/
def reportEvent (session : LtpSession) : TimerEvent :=
  { type := .reportSegment, engineId := session.engineId, sessionNumber := session.sessionNumber,
    serialNumber := session.reportSerialCounter + 1 }

theorem timed_report (session : LtpSession) (cp ub : UInt64) (timeout : Nat) (t : Timers) :
    timed timeout [.send (LtpEngine.report session cp ub)] t =
      t.start timeout (reportEvent session) := by
  have hevent : (LtpEngine.report session cp ub).timerEvent = some (reportEvent session) := rfl
  exact Act.time_send_of_some hevent timeout t

/-- Resending gaps starts one timer, for the new checkpoint. -/
theorem timed_marked {session : LtpSession} {serial : UInt64} (init : List (Nat × Nat))
    (last : Nat × Nat) (timeout : Nat) (t : Timers) :
    timed timeout ((init.map (plainSegment session) ++
      [checkpointSegment session serial last]).map Act.send) t =
      t.start timeout (checkpointEvent session serial) := by
  have huntimed : Untimed ((init.map (plainSegment session)).map Act.send) := by
    refine untimed_map_send fun seg hseg => ?_
    obtain ⟨p, -, rfl⟩ := List.mem_map.mp hseg
    rfl
  have hevent : (checkpointSegment session serial last).timerEvent =
      some (checkpointEvent session serial) := rfl
  rw [List.map_append, timed_append, huntimed]
  exact Act.time_send_of_some hevent timeout t

namespace LtpEngine

/-! ## The invariant -/

/-- Every originator session in the table is the engine's own and red. -/
structure OwnOriginators (e : LtpEngine) : Prop where
  stored : e.WellStored
  own : ∀ key session, e.sessions.lookup key = some session → session.role = .originator →
    key.engineId = e.config.localEngineId
  red : ∀ key session, e.sessions.lookup key = some session → session.role = .originator →
    session.isRed = true

/-- ... and has a checkpoint timer running. -/
structure Watched (e : LtpEngine) (tm : TimerManager) : Prop extends e.OwnOriginators where
  timers : TimersInv e.timers tm
  running : ∀ key session, e.sessions.lookup key = some session → session.role = .originator →
    Running tm key

/-- No originator session is left without a timer. -/
def NotStranded (e : LtpEngine) : Prop :=
  ∃ tm, e.timerManager = some tm ∧ ∀ key session, e.sessions.lookup key = some session →
    session.role = .originator → Running tm key

variable {e e' : LtpEngine} {tm tm' : TimerManager} {key : SessionKey}

theorem Watched.notStranded (hw : e.Watched tm) : e.NotStranded :=
  ⟨tm, hw.timers.manager, hw.running⟩

/-- The invariant after a call: its new timers, the session it worked on, and
a timer for every other originator session. -/
theorem OwnOriginators.watched {held : Option LtpSession} {acts : List Act} {rounds : UInt64}
    (ho : e.OwnOriginators) (h : Effect e e' key held acts rounds) (htimers : TimersInv e'.timers tm')
    (hheld : ∀ session, held = some session → Stored key session ∧ (session.role = .originator →
      key.engineId = e.config.localEngineId ∧ session.isRed = true ∧ Running tm' key))
    (hrest : ∀ k session, k ≠ key → e.sessions.lookup k = some session →
      session.role = .originator → Running tm' k) : e'.Watched tm' := by
  have hcases (k : SessionKey) (session : LtpSession) (hl : e'.sessions.lookup k = some session) :
      (k = key ∧ held = some session) ∨ (k ≠ key ∧ e.sessions.lookup k = some session) := by
    by_cases hk : k = key
    · rw [hk, h.lookup] at hl
      exact .inl ⟨hk, hl⟩
    · rw [h.frame k hk] at hl
      exact .inr ⟨hk, hl⟩
  refine ⟨⟨ho.stored.effect h fun session hs => (hheld session hs).1, ?_, ?_⟩, htimers, ?_⟩
  · intro k session hl hrole
    rw [h.config]
    rcases hcases k session hl with ⟨rfl, hs⟩ | ⟨-, hs⟩
    · exact ((hheld session hs).2 hrole).1
    · exact ho.own k session hs hrole
  · intro k session hl hrole
    rcases hcases k session hl with ⟨rfl, hs⟩ | ⟨-, hs⟩
    · exact ((hheld session hs).2 hrole).2.1
    · exact ho.red k session hs hrole
  · intro k session hl hrole
    rcases hcases k session hl with ⟨rfl, hs⟩ | ⟨hk, hs⟩
    · exact ((hheld session hs).2 hrole).2.2
    · exact hrest k session hk hs hrole

/-- A call that touches no timer. -/
theorem Watched.untimed {held : Option LtpSession} {acts : List Act} {rounds : UInt64}
    (hw : e.Watched tm) (h : Effect e e' key held acts rounds) (hacts : Untimed acts)
    (hheld : ∀ session, held = some session → Stored key session ∧
      (session.role = .originator → ∃ old, e.sessions.lookup key = some old ∧
        old.role = .originator ∧ session.isRed = old.isRed)) : e'.Watched tm := by
  have htimers := h.timers
  rw [hacts] at htimers
  refine hw.watched h (htimers ▸ hw.timers) (fun session hs => ⟨(hheld session hs).1, ?_⟩)
    fun k session _ hl hrole => hw.running k session hl hrole
  intro hrole
  obtain ⟨old, hl, hold, hred⟩ := (hheld session hs).2 hrole
  exact ⟨hw.own key old hl hold, hred ▸ hw.red key old hl hold, hw.running key old hl hold⟩

/-- A call that starts one timer and cancels none. -/
theorem Watched.starting {held : Option LtpSession} {acts : List Act} {rounds : UInt64}
    {event : TimerEvent} (hw : e.Watched tm) (hfresh : tm.HasFreshId)
    (h : Effect e e' key held acts rounds)
    (hacts : ∀ timeout t, timed timeout acts t = t.start timeout event)
    (hheld : ∀ session, held = some session → Stored key session ∧
      (session.role = .originator → key.engineId = e.config.localEngineId ∧
        session.isRed = true ∧ ((event.type = .checkpoint ∧ event.engineId = key.engineId ∧
          event.sessionNumber = key.sessionNumber) ∨ Running tm key))) :
    ∃ tm', e'.Watched tm' := by
  obtain ⟨tm', htimers, hkept, entry, hout, rfl⟩ :=
    hw.timers.start hfresh e.config.retransmissionTimeoutMs.toNat event
  have hmono {k : SessionKey} : Running tm k → Running tm' k :=
    Running.mono fun entry hentry _ => hkept entry hentry
  refine ⟨tm', hw.watched h ?_ (fun session hs => ⟨(hheld session hs).1, fun hrole => ?_⟩)
    fun k session _ hl hrole => hmono (hw.running k session hl hrole)⟩
  · rw [h.timers, hacts]
    exact htimers
  · obtain ⟨hown, hred, hrun⟩ := (hheld session hs).2 hrole
    refine ⟨hown, hred, ?_⟩
    rcases hrun with ⟨htype, hengine, hnumber⟩ | hrun
    · exact ⟨entry, hout, htype, hengine, hnumber⟩
    · exact hmono hrun

/-! ## Preservation -/

theorem Watched.receiveDataSegment (hw : e.Watched tm) (hfresh : tm.HasFreshId) {seg : LtpSegment}
    (h : e.receiveDataSegment seg = .ok e') : ∃ tm', e'.Watched tm' := by
  obtain ⟨ds, -, hcases⟩ := receiveDataSegment_cases h
  rcases hcases with ⟨-, -, rfl⟩ | ⟨session, hmeets, ⟨-, rfl⟩ | ⟨stored, hstore, hout⟩⟩
  · exact ⟨tm, hw⟩
  · exact ⟨tm, hw⟩
  · have hstored := (hw.stored.meets hmeets).store hstore
    have hrole : stored.role = .originator →
        e.sessions.lookup (segmentKey seg) = some session ∧ session.role = .originator := by
      obtain ⟨resized, buffer, -, -, rfl⟩ := LtpSession.store_eq hstore
      intro hrole
      rcases hmeets with hlookup | ⟨-, -, rfl⟩
      · exact ⟨hlookup, hrole⟩
      · cases hrole
    have hred : stored.isRed = session.isRed := by
      obtain ⟨resized, buffer, -, -, rfl⟩ := LtpSession.store_eq hstore
      rfl
    cases hout with
    | quiet _ h =>
        refine ⟨tm, hw.untimed h untimed_nil fun s hs => ?_⟩
        cases hs
        exact ⟨hstored, fun horig => ⟨session, (hrole horig).1, (hrole horig).2, hred⟩⟩
    | reported serial _ _ h =>
        refine hw.starting hfresh h (timed_report stored serial _) fun s hs => ?_
        cases hs
        refine ⟨⟨hstored.engineId, hstored.sessionNumber, hstored.active⟩, fun horig => ?_⟩
        obtain ⟨hlookup, horig⟩ := hrole horig
        exact ⟨hw.own _ _ hlookup horig, hred.trans (hw.red _ _ hlookup horig),
          .inr (hw.running _ _ hlookup horig)⟩
    | delivered _ _ _ _ h =>
        exact ⟨tm, hw.untimed h (untimed_call _ untimed_nil) fun _ hs => nomatch hs⟩

theorem Watched.receiveReportAck (hw : e.Watched tm) {seg : LtpSegment}
    (h : e.receiveReportAck seg = .ok e') : ∃ tm', e'.Watched tm' := by
  have hcancel {held : Option LtpSession} {rest : List Act} (timer : UInt64)
      (hrest : Untimed rest)
      (h : Effect e e' (segmentKey seg) held (.cancelReport timer :: rest) 0)
      (hheld : ∀ session, held = some session →
        e.sessions.lookup (segmentKey seg) = some session) : ∃ tm', e'.Watched tm' := by
    obtain ⟨tm', htimers, hkept⟩ := hw.timers.cancelReport timer
    refine ⟨tm', hw.watched h ?_ (fun session hs => ?_) fun k session _ hl hrole =>
      (hw.running k session hl hrole).mono hkept⟩
    · rw [h.timers]
      show TimersInv (timed _ rest (e.timers.cancelReport timer)) tm'
      rw [hrest]
      exact htimers
    · have hl := hheld session hs
      exact ⟨hw.stored _ _ hl, fun hrole =>
        ⟨hw.own _ _ hl hrole, hw.red _ _ hl hrole, (hw.running _ _ hl hrole).mono hkept⟩⟩
  obtain ⟨ra, -, ⟨_, _, _, _, _, _, h⟩ | ⟨acts, h, rfl | rfl, -⟩⟩ := receiveReportAck_cases h
  · exact hcancel _ (untimed_call _ untimed_nil) h fun _ hs => nomatch hs
  · refine ⟨tm, hw.untimed h untimed_nil fun session hl => ⟨hw.stored _ _ hl, fun hrole => ?_⟩⟩
    exact ⟨session, hl, hrole, rfl⟩
  · exact hcancel _ untimed_nil h fun _ hs => hs

theorem Watched.removed {acts : List Act} {rounds : UInt64} (hw : e.Watched tm)
    (h : Effect e e' key none acts rounds) (hacts : Untimed acts) : e'.Watched tm :=
  hw.untimed h hacts fun _ hs => nomatch hs

theorem Watched.cancelSession (hw : e.Watched tm) {reason : UInt8}
    (h : e.cancelSession key.engineId key.sessionNumber reason = .ok e') : e'.Watched tm := by
  cases hlookup : e.sessions.lookup key with
  | none =>
      rw [cancelSession_of_none hlookup] at h
      exact Except.ok.inj h ▸ hw
  | some session =>
      exact hw.removed (cancelSession_effect h hlookup)
        (untimed_send (cancelSegment_timerEvent _ _ _) (untimed_call _ untimed_nil))

theorem Watched.receiveCancelSegment (hw : e.Watched tm) {seg : LtpSegment}
    (h : e.receiveCancelSegment seg = .ok e') : e'.Watched tm := by
  obtain ⟨cc, -, hcases⟩ := receiveCancelSegment_cases h
  split at hcases
  · exact hw.removed hcases (untimed_send (cancelAck_timerEvent seg) untimed_nil)
  · exact hw.removed hcases
      (untimed_send (cancelAck_timerEvent seg) (untimed_call _ untimed_nil))

/-- What a report finds: its session, and the id of the checkpoint timer that
it cancels. -/
structure Strikes (e : LtpEngine) (seg : LtpSegment) (rs : ReportSegContent)
    (session : LtpSession) (id : UInt64) : Prop where
  lookup : e.sessions.lookup (e.localKey seg.sessionNumber) = some session
  role : session.role = .originator
  timer : e.checkpointTimers.lookup (timerKey seg.sessionNumber rs.checkpointSerial) = some id

/-- The report resends nothing and leaves its session in the table: its claims
cover its scope, but not the block. -/
def CoversScopeOnly (session : LtpSession) (rs : ReportSegContent) : Prop :=
  fullyReceived session rs = false ∧ computeGaps rs.claims rs.lowerBound rs.upperBound = []

/-- The checkpoint timer that a report cancels is not the last one running
of another originator session, nor, if the report covers its scope but not
the block, of its own. -/
def Spared (e : LtpEngine) (seg : LtpSegment) (rs : ReportSegContent) : Prop :=
  ∀ session id, e.Strikes seg rs session id → ∀ tm, e.timerManager = some tm →
    ∀ key other, e.sessions.lookup key = some other → other.role = .originator →
      (key = e.localKey seg.sessionNumber → CoversScopeOnly session rs) →
      RunningBesides tm id key

/-- What the cancellation of the struck timer leaves running. -/
theorem Watched.running_spared (hw : e.Watched tm) {seg : LtpSegment} {rs : ReportSegContent}
    {session : LtpSession} (hspared : e.Spared seg rs)
    (hlookup : e.sessions.lookup (e.localKey seg.sessionNumber) = some session)
    (hrole : session.role = .originator) {tm₁ : TimerManager}
    (hkept : ∀ entry, tm.Outstanding entry →
      e.timers.checkpoint.lookup (timerKey seg.sessionNumber rs.checkpointSerial) ≠
        some entry.timerId → tm₁.Outstanding entry)
    {k : SessionKey} {other : LtpSession} (hl : e.sessions.lookup k = some other)
    (horig : other.role = .originator)
    (hcover : k = e.localKey seg.sessionNumber → CoversScopeOnly session rs) :
    Running tm₁ k := by
  have htimers : e.timers.checkpoint = e.checkpointTimers := rfl
  rw [htimers] at hkept
  cases hstruck : e.checkpointTimers.lookup
      (timerKey seg.sessionNumber rs.checkpointSerial) with
  | none =>
      rw [hstruck] at hkept
      exact (hw.running k other hl horig).mono fun entry hout _ =>
        hkept entry hout (Option.some_ne_none _).symm
  | some id =>
      rw [hstruck] at hkept
      obtain ⟨entry, hout, htype, hengine, hnumber, hne⟩ :=
        hspared session id ⟨hlookup, hrole, hstruck⟩ tm hw.timers.manager k other hl horig hcover
      exact ⟨entry, hkept entry hout fun heq => hne (Option.some.inj heq).symm, htype, hengine,
        hnumber⟩

/-- A report that the session answers. -/
theorem Watched.reportOutcome (hw : e.Watched tm) (hfresh : tm.HasFreshId) {seg : LtpSegment}
    {rs : ReportSegContent} {session : LtpSession} (hspared : e.Spared seg rs)
    (hlookup : e.sessions.lookup (e.localKey seg.sessionNumber) = some session)
    (hrole : session.role = .originator)
    (hout : ReportOutcome e e' (e.localKey seg.sessionNumber) session rs
      [.send (reportAck seg rs),
        .cancelCheckpoint (timerKey seg.sessionNumber rs.checkpointSerial)]) :
    ∃ tm', e'.Watched tm' := by
  have hs := hw.stored _ _ hlookup
  have hown := hw.own _ _ hlookup hrole
  have hred := hw.red _ _ hlookup hrole
  obtain ⟨tm₁, htimers, hnext, hkept⟩ := hw.timers.cancelCheckpoint
    (timerKey seg.sessionNumber rs.checkpointSerial)
  have hothers : ∀ k other, k ≠ e.localKey seg.sessionNumber →
      e.sessions.lookup k = some other → other.role = .originator → Running tm₁ k :=
    fun k other hk hl horig =>
      hw.running_spared hspared hlookup hrole hkept hl horig fun heq => absurd heq hk
  have htimed (rest : List Act) (t : Timers) (timeout : Nat) :
      timed timeout ([.send (reportAck seg rs), .cancelCheckpoint
        (timerKey seg.sessionNumber rs.checkpointSerial)] ++ rest) t =
        timed timeout rest (t.cancelCheckpoint
          (timerKey seg.sessionNumber rs.checkpointSerial)) := rfl
  cases hout with
  | complete _ h =>
      refine ⟨tm₁, hw.watched h ?_ (fun _ hs => nomatch hs) hothers⟩
      rw [h.timers, htimed]
      exact htimers
  | waiting hfull hgaps h =>
      refine ⟨tm₁, hw.watched h ?_ (fun s hsome => ?_) hothers⟩
      · rw [h.timers]
        exact htimers
      · cases hsome
        exact ⟨hs, fun horig => ⟨hown, hred,
          hw.running_spared hspared hlookup hrole hkept hlookup horig fun _ => ⟨hfull, hgaps⟩⟩⟩
  | gaveUp _ _ _ h =>
      refine ⟨tm₁, hw.watched h ?_ (fun _ hs => nomatch hs) hothers⟩
      rw [h.timers, htimed, untimed_givingUp]
      exact htimers
  | resent _ hgaps _ segments marked hsegments hmarked h =>
      -- the last segment resent is a checkpoint, with a timer of its own
      obtain ⟨init, last, -, rfl⟩ := marked_eq hgaps hsegments hmarked
      have hfresh₁ : tm₁.HasFreshId := by
        rw [TimerManager.HasFreshId, hnext]
        exact hfresh
      obtain ⟨tm₂, htimers₂, hkept₂, entry, hout, hevent⟩ := htimers.start hfresh₁
        e.config.retransmissionTimeoutMs.toNat
        (checkpointEvent (attempted session) (session.checkpointSerialCounter + 1))
      refine ⟨tm₂, hw.watched h ?_ (fun s hsome => ?_) fun k other hk hl horig =>
        (hothers k other hk hl horig).mono fun entry hout _ => hkept₂ entry hout⟩
      · rw [h.timers, htimed, timed_marked]
        exact htimers₂
      · cases hsome
        refine ⟨hs.attempted.checkpointed _, fun _ => ⟨hown, ?_, entry, hout, ?_⟩⟩
        · rw [checkpointed]
          split <;> exact hred
        · rw [hevent]
          exact ⟨rfl, hs.engineId, hs.sessionNumber⟩

theorem Watched.receiveReportSegment (hw : e.Watched tm) (hfresh : tm.HasFreshId)
    {seg : LtpSegment} (hspared : ∀ rs, seg.content = .report rs → e.Spared seg rs)
    (h : e.receiveReportSegment seg = .ok e') : ∃ tm', e'.Watched tm' := by
  obtain ⟨rs, hrs, hcases⟩ := receiveReportSegment_cases h
  have hack : Untimed [.send (reportAck seg rs)] :=
    untimed_send (reportAck_timerEvent seg rs) untimed_nil
  split at hcases
  · exact ⟨tm, hw.removed hcases hack⟩
  · rename_i session hlookup
    have hs := hw.stored _ _ hlookup
    by_cases hactive : session.role = .originator ∧ session.state = .active
    · rw [if_pos hactive] at hcases
      exact hw.reportOutcome hfresh (hspared rs hrs) hlookup hactive.1 (hcases hs)
    · rw [if_neg hactive] at hcases
      refine ⟨tm, hw.untimed hcases untimed_nil fun s hsome => ?_⟩
      cases hsome
      exact ⟨hs, fun hrole => ⟨session, hlookup, hrole, rfl⟩⟩

theorem Watched.startSession (hw : e.Watched tm) (hfresh : tm.HasFreshId) {data : Block}
    {reliable : Bool} {sn : UInt64} (h : e.startSession data reliable = .ok (e', sn)) :
    ∃ tm', e'.Watched tm' := by
  rcases startSession_cases h with ⟨-, rfl, -⟩ | ⟨-, rfl, segments, cpSerial, hsegments, h⟩
  · exact ⟨tm, hw⟩
  · have hw₀ : Watched { e with sessionCounter := e.sessionCounter + 1 } tm :=
      ⟨⟨hw.stored, hw.own, hw.red⟩, hw.timers, hw.running⟩
    have hs := hw.stored.startedSession data.bytes reliable
    by_cases hred : (e.startedSession data.bytes reliable).isRed = true
    · refine hw₀.starting hfresh h (timed_block hsegments hred) fun session hsession => ?_
      split at hsession
      · cases hsession
        refine ⟨⟨hs.engineId, hs.sessionNumber, hs.active⟩, fun _ => ⟨rfl, hred, .inl ?_⟩⟩
        exact ⟨rfl, hs.engineId, hs.sessionNumber⟩
      · cases hsession
    · -- green: the session is new, and gone, or a receiver's that held the key
      rw [Bool.not_eq_true] at hred
      refine ⟨tm, hw₀.untimed h (untimed_block hsegments hred) fun session hsession => ?_⟩
      split at hsession
      · rename_i hreliable
        cases hsession
        refine ⟨⟨hs.engineId, hs.sessionNumber, hs.active⟩, fun hrole => ?_⟩
        rw [LtpEngine.startedSession] at hred hrole
        cases hlookup : e.sessions.lookup (e.localKey (e.sessionCounter + 1)) with
        | none =>
            rw [hlookup] at hred
            exact absurd (hreliable.symm.trans hred) (by decide)
        | some held =>
            rw [hlookup] at hred hrole
            exact absurd ((hw.red _ _ hlookup hrole).symm.trans hred) (by decide)
      · cases hsession

theorem Watched.receiveSegment (hw : e.Watched tm) (hfresh : tm.HasFreshId) {seg : LtpSegment}
    (hspared : seg.segmentType = SegType.reportSegment →
      ∀ rs, seg.content = .report rs → e.Spared seg rs)
    (h : e.receiveSegment seg = .ok e') : ∃ tm', e'.Watched tm' := by
  rcases receiveSegment_cases h with ⟨-, h⟩ | ⟨htype, h⟩ | ⟨-, h⟩ | ⟨-, h⟩ | rfl | rfl
  · exact hw.receiveDataSegment hfresh h
  · exact hw.receiveReportSegment hfresh (hspared htype) h
  · exact hw.receiveReportAck h
  · exact ⟨tm, hw.receiveCancelSegment h⟩
  · exact ⟨tm, (hw.stored.receiveCancelAck seg).symm ▸ hw⟩
  · exact ⟨tm, hw⟩

/-- The entry is the checkpoint timer of the session under `key`. -/
def WatchedBy (e : LtpEngine) (key : SessionKey) (entry : TimerEntry) : Prop :=
  entry.event.type = .checkpoint ∧ key = e.localKey entry.event.sessionNumber

/-- Popping an entry stops no timer of a session it is not for, and none at
all if it was cancelled. -/
theorem Watched.popped (hw : e.Watched tm) (entry : TimerEntry) {k : SessionKey}
    {session : LtpSession} (hl : e.sessions.lookup k = some session)
    (hrole : session.role = .originator)
    (h : entry.timerId ∈ tm.cancelled ∨ ¬ e.WatchedBy k entry) :
    Running (tm.popEntry entry).1 k := by
  obtain ⟨running, hout, htype, hengine, hnumber⟩ := hw.running k session hl hrole
  refine ⟨running, hout.popEntry fun heq => ?_, htype, hengine, hnumber⟩
  rcases h with hcancelled | hother
  · exact hout.2 (heq ▸ hcancelled)
  · apply hother
    rw [← heq]
    refine ⟨htype, ?_⟩
    rw [localKey, hnumber, ← hw.own k session hl hrole]

theorem OwnOriginators.checkpointExpiry (ho : e.OwnOriginators) (htimers : TimersInv e.timers tm)
    (hfresh : tm.HasFreshId) {event : TimerEvent}
    (hrest : ∀ k session, e.sessions.lookup k = some session → session.role = .originator →
      k ≠ e.localKey event.sessionNumber → Running tm k)
    (h : e.checkpointExpiry event = .ok e') : ∃ tm', e'.Watched tm' := by
  cases checkpointExpiry_outcome h fun session hlookup => ho.stored _ session hlookup with
  | idle heq hidle =>
      subst heq
      refine ⟨tm, ho, htimers, fun k session hl hrole => hrest k session hl hrole fun hk => ?_⟩
      rw [hk] at hl
      exact hidle session hl (ho.stored _ _ hl).active hrole
  | gaveUp session hlookup hrole _ h =>
      refine ⟨tm, ho.watched h ?_ (fun _ hs => nomatch hs) fun k other hk hl hrole =>
        hrest k other hl hrole hk⟩
      rw [h.timers, untimed_givingUp]
      exact htimers
  | resent session hlookup hrole _ segments cpSerial hsegments h =>
      have hs := ho.stored _ _ hlookup
      have hred : session.isRed = true := ho.red _ _ hlookup hrole
      obtain ⟨tm', htimers', hkept, entry, hout, hevent⟩ := htimers.start hfresh
        e.config.retransmissionTimeoutMs.toNat
        (checkpointEvent (attempted session) (session.checkpointSerialCounter + 1))
      refine ⟨tm', ho.watched h ?_ (fun s hsome => ?_) fun k other hk hl hrole =>
        (hrest k other hl hrole hk).mono fun entry hout _ => hkept entry hout⟩
      · rw [h.timers, timed_block hsegments hred]
        exact htimers'
      · cases hsome
        refine ⟨⟨hs.engineId, hs.sessionNumber, hs.active⟩, fun _ => ⟨rfl, hred, entry, hout, ?_⟩⟩
        rw [hevent]
        exact ⟨rfl, hs.engineId, hs.sessionNumber⟩

theorem Watched.reportExpiry (hw : e.Watched tm) (hfresh : tm.HasFreshId) {event : TimerEvent}
    (h : e.reportExpiry event = .ok e') : ∃ tm', e'.Watched tm' := by
  rcases reportExpiry_cases h with rfl | ⟨session, hlookup, hrole, ⟨-, h⟩ | ⟨-, h⟩⟩
  · exact ⟨tm, hw⟩
  · refine ⟨tm, hw.untimed h untimed_nil fun s hs => ?_⟩
    cases hs
    exact ⟨hw.stored _ _ hlookup, fun horig => ⟨session, hlookup, horig, rfl⟩⟩
  · have hs := hw.stored _ _ hlookup
    refine hw.starting hfresh h (timed_report session _ _) fun s hsome => ?_
    cases hsome
    refine ⟨⟨hs.engineId, hs.sessionNumber, hs.active⟩, fun horig => ?_⟩
    exact absurd (hrole.symm.trans horig) (by decide)

theorem Watched.expire (hw : e.Watched tm) (hfresh : tm.HasFreshId) {entry : TimerEntry}
    (h : e.expire entry = .ok e') : ∃ tm', e'.Watched tm' := by
  rcases expire_cases h with rfl | ⟨tm₀, hmanager, -, hcases⟩
  · exact ⟨tm, hw⟩
  have hsame : tm₀ = tm := Option.some.inj (hmanager.symm.trans hw.timers.manager)
  subst hsame
  have ho : (e.popped tm₀ entry).OwnOriginators := ⟨hw.stored, hw.own, hw.red⟩
  have htimers : TimersInv (e.popped tm₀ entry).timers (tm₀.popEntry entry).1 :=
    hw.timers.popEntry entry
  have hfresh' : (tm₀.popEntry entry).1.HasFreshId := by
    rw [TimerManager.popEntry]
    split <;> exact hfresh
  rcases hcases with ⟨hcancelled, rfl⟩ | ⟨-, h⟩
  · exact ⟨_, ho, htimers, fun k session hl hrole => hw.popped entry hl hrole (.inl hcancelled)⟩
  · rw [LtpEngine.handleTimerExpiry] at h
    have hkept (htype : entry.event.type ≠ .checkpoint) :
        (e.popped tm₀ entry).Watched (tm₀.popEntry entry).1 :=
      ⟨ho, htimers, fun k session hl hrole =>
        hw.popped entry hl hrole (.inr fun hby => htype hby.1)⟩
    split at h
    · exact ho.checkpointExpiry htimers hfresh' (fun k session hl hrole hk =>
        hw.popped entry hl hrole (.inr fun hby => hk hby.2)) h
    · rename_i htype
      exact (hkept (by simp [htype])).reportExpiry hfresh' h
    · rename_i htype
      exact ⟨_, Except.ok.inj h ▸ hkept (by simp [htype])⟩

/-! ## Runs -/

/-- The runs of an engine with a timer manager set, in which timer events
are those of fired timers. -/
def timerRuns (config : LtpEngineConfig) : System LtpEngine Action where
  init e := ∃ now, e = create config (some { now := now })
  step e a e' := (∀ event, a ≠ .handleTimerExpiry event) ∧ e.exec a = .ok e'

/-- The timer ids have not run out, and no report cancels the last running
checkpoint timer of a session that it neither resends nor removes. -/
def Careful (e : LtpEngine) (a : Action) : Prop :=
  (∀ tm, e.timerManager = some tm → tm.HasFreshId) ∧
    ∀ bytes seg rs, a = .receive bytes → LtpSegment.decode bytes = .ok (some seg) →
      seg.segmentType = SegType.reportSegment → seg.content = .report rs → e.Spared seg rs

theorem watched_create (config : LtpEngineConfig) (now : Nat) :
    (create config (some { now := now })).Watched { now := now } where
  stored := wellStored_create _ _
  own := fun _ _ h => nomatch h
  red := fun _ _ h => nomatch h
  timers :=
    { manager := rfl
      marks := fun id hid => absurd hid (Finset.notMem_empty id)
      heap := fun _ h => nomatch h
      checkpoint := fun _ _ h => nomatch h
      report := fun _ _ h => nomatch h
      apart := fun _ _ h => nomatch h }
  running := fun _ _ h => nomatch h

theorem Watched.step {config : LtpEngineConfig} {a : Action} (hw : e.Watched tm)
    (hcareful : e.Careful a) (h : (timerRuns config).step e a e') : ∃ tm', e'.Watched tm' := by
  obtain ⟨hfired, h⟩ := h
  have hfresh : tm.HasFreshId := hcareful.1 tm hw.timers.manager
  cases a with
  | startSession data reliable =>
      obtain ⟨⟨e₁, sn⟩, hstart, h⟩ := bind_eq_ok.mp h
      cases h
      exact hw.startSession hfresh hstart
  | cancelSession engineId sessionNumber reason =>
      exact ⟨tm, @Watched.cancelSession e e' tm ⟨engineId, sessionNumber⟩ hw reason h⟩
  | receive bytes =>
      rcases receiveBytes_cases h with rfl | ⟨seg, hdecode, h⟩
      · exact ⟨tm, hw⟩
      · exact hw.receiveSegment hfresh
          (fun htype rs hrs => hcareful.2 bytes seg rs rfl hdecode htype hrs) h
  | expire entry => exact hw.expire hfresh h
  | handleTimerExpiry event => exact absurd rfl (hfired event)

/-- **No stranded originator.** In every run whose steps are all careful,
every originator session in the table has a checkpoint timer that was
started and has neither fired nor been cancelled. -/
theorem originators_not_stranded (config : LtpEngineConfig) (e : LtpEngine)
    (h : (timerRuns config).Reachable Careful e) : e.NotStranded := by
  have hinv : ∃ tm, e.Watched tm := by
    refine h.invariant (P := fun e => ∃ tm, Watched e tm) (fun e₀ hinit => ?_)
      fun e₁ a e₂ hw hcareful hstep => ?_
    · obtain ⟨now, rfl⟩ := hinit
      exact ⟨_, watched_create config now⟩
    · obtain ⟨tm, hw⟩ := hw
      exact hw.step hcareful hstep
  obtain ⟨tm, hw⟩ := hinv
  exact hw.notStranded

/-- A step of the runs, decided. -/
def timedExec (e : LtpEngine) (a : Action) : Option LtpEngine :=
  match a with
  | .handleTimerExpiry _ => none
  | .startSession .. | .cancelSession .. | .receive _ | .expire _ => (e.exec a).toOption

theorem step_of_timedExec {config : LtpEngineConfig} (e : LtpEngine) (a : Action)
    (e' : LtpEngine) (h : e.timedExec a = some e') : (timerRuns config).step e a e' := by
  cases a with
  | handleTimerExpiry => cases h
  | startSession | cancelSession | receive | expire =>
      refine ⟨fun _ ha => Action.noConfusion ha, ?_⟩
      dsimp only [timedExec] at h
      cases hexec : e.exec _ with
      | error exn =>
          rw [hexec] at h
          cases h
      | ok e₁ =>
          rw [hexec] at h
          exact congrArg Except.ok (Option.some.inj h)

/-- `RunningBesides`, decided. -/
def besidesCheck (tm : TimerManager) (id : UInt64) (key : SessionKey) : Bool :=
  tm.heap.any fun entry => entry.timerId ∉ tm.cancelled && entry.event.type = .checkpoint &&
    entry.event.engineId = key.engineId && entry.event.sessionNumber = key.sessionNumber &&
    entry.timerId ≠ id

theorem runningBesides_of_check {id : UInt64} (h : besidesCheck tm id key = true) :
    RunningBesides tm id key := by
  obtain ⟨entry, hentry, h⟩ := List.any_eq_true.mp h
  simp only [Bool.and_eq_true, decide_eq_true_eq] at h
  obtain ⟨⟨⟨⟨hcancelled, htype⟩, hengine⟩, hnumber⟩, hne⟩ := h
  exact ⟨entry, ⟨hentry, hcancelled⟩, htype, hengine, hnumber, hne⟩

/-- `Spared`, decided. -/
def sparedCheck (e : LtpEngine) (seg : LtpSegment) (rs : ReportSegContent) : Bool :=
  (e.sessions.lookup (e.localKey seg.sessionNumber)).all fun session =>
  (e.checkpointTimers.lookup (timerKey seg.sessionNumber rs.checkpointSerial)).all fun id =>
  e.timerManager.all fun tm => e.sessions.entries.all fun entry =>
    entry.2.role ≠ .originator || besidesCheck tm id entry.1 ||
      entry.1 = e.localKey seg.sessionNumber &&
        (fullyReceived session rs || computeGaps rs.claims rs.lowerBound rs.upperBound ≠ [])

theorem spared_of_check {seg : LtpSegment} {rs : ReportSegContent}
    (h : e.sparedCheck seg rs = true) : e.Spared seg rs := by
  intro session id hstrikes tm hmanager key other hlookup horig hcovers
  rw [sparedCheck, hstrikes.lookup, hstrikes.timer, hmanager] at h
  have hentry := List.all_eq_true.mp h _ (AList.mem_lookup_iff.mp hlookup)
  simp only [Bool.or_eq_true, Bool.and_eq_true, decide_eq_true_eq] at hentry
  rcases hentry with (hrole | hbesides) | ⟨hown, hresends⟩
  · exact absurd horig hrole
  · exact runningBesides_of_check hbesides
  · obtain ⟨hless, hnone⟩ := hcovers hown
    rcases hresends with hfull | hgaps
    · exact absurd hfull (by rw [hless]; decide)
    · exact absurd hnone hgaps

/-- `Careful`, decided. -/
def carefulCheck (e : LtpEngine) (a : Action) : Bool :=
  (e.timerManager.all fun tm => tm.nextId.toNat + 1 < 2 ^ 64) &&
  match a with
  | .receive bytes =>
    match LtpSegment.decode bytes with
    | .ok (some seg) =>
      match seg.content with
      | .report rs => e.sparedCheck seg rs
      | _ => true
    | _ => true
  | _ => true

theorem careful_of_check (e : LtpEngine) (a : Action) (h : e.carefulCheck a = true) :
    e.Careful a := by
  unfold carefulCheck at h
  rw [Bool.and_eq_true] at h
  obtain ⟨hfresh, hspared⟩ := h
  refine ⟨fun tm htm => ?_, fun bytes seg rs ha hdecode _ hrs => ?_⟩
  · rw [htm] at hfresh
    simpa [TimerManager.HasFreshId] using hfresh
  · subst ha
    simp only [hdecode, hrs] at hspared
    exact spared_of_check hspared

/-- A block of two bytes. -/
def twoBytes : Block := ⟨[7, 8], by decide⟩

/-- A report for the first checkpoint of session 1, with a claim on its first
byte. -/
def firstByteReport (upperBound : UInt64) : LtpSegment :=
  { segmentType := SegType.reportSegment, engineId := 1, sessionNumber := 1
    content := .report
      { reportSerial := 1, checkpointSerial := 1, upperBound := upperBound, lowerBound := 0,
        claims := [{ offset := 0, length := 1 }] } }

/-- Two sessions, of which the first gets a report with a gap: its timer is
cancelled and a new one started, while that of the other runs on. -/
theorem originators_not_stranded_reported : ∃ e,
    System.run timedExec carefulCheck (create {} (some { now := 0 }))
      [.startSession twoBytes true, .startSession twoBytes true,
        .receive (firstByteReport 2).wire] = some e ∧
      e.sessions.keys.length = 2 ∧ e.NotStranded := by
  have hcheck : (System.run timedExec carefulCheck (create {} (some { now := 0 }))
      [.startSession twoBytes true, .startSession twoBytes true,
        .receive (firstByteReport 2).wire]).map (fun e => e.sessions.keys.length) = some 2 := by
    decide +kernel
  obtain ⟨e, hrun, hkeys⟩ := Option.map_eq_some_iff.mp hcheck
  have hpath : (timerRuns {}).Path Careful (create {} (some { now := 0 })) e :=
    System.path_of_run step_of_timedExec careful_of_check hrun
  exact ⟨e, hrun, hkeys, originators_not_stranded {} e ⟨_, ⟨0, rfl⟩, hpath⟩⟩

/-- The originator session is in the table, with every timer cancelled. -/
def strandedCheck (key : SessionKey) (e : LtpEngine) : Bool :=
  match e.timerManager, e.sessions.lookup key with
  | some tm, some session =>
    session.role = .originator && tm.heap.all fun entry => entry.timerId ∈ tm.cancelled
  | _, _ => false

theorem not_notStranded_of_check (h : e.strandedCheck key = true) : ¬ e.NotStranded := by
  intro hn
  obtain ⟨tm, hmanager, hrunning⟩ := hn
  rw [strandedCheck, hmanager] at h
  cases hlookup : e.sessions.lookup key with
  | none =>
      rw [hlookup] at h
      cases h
  | some session =>
      rw [hlookup] at h
      simp only [Bool.and_eq_true, decide_eq_true_eq, List.all_eq_true] at h
      obtain ⟨entry, hout, -⟩ := hrunning key session hlookup h.1
      exact hout.2 (h.2 entry hout.1)

/-- A report of less than the block strands its session. -/
theorem originator_stranded : ¬ ∀ (config : LtpEngineConfig) (e : LtpEngine),
    (timerRuns config).Reachable System.free e → e.NotStranded := by
  intro h
  have hcheck : (System.run timedExec (fun _ _ => true) (create {} (some { now := 0 }))
      [.startSession twoBytes true, .receive (firstByteReport 1).wire]).map
        (strandedCheck ⟨1, 1⟩) = some true := by decide +kernel
  obtain ⟨e, hrun, hstranded⟩ := Option.map_eq_some_iff.mp hcheck
  have hpath : (timerRuns {}).Path System.free (create {} (some { now := 0 })) e :=
    System.path_of_run step_of_timedExec (fun _ _ _ => trivial) hrun
  exact not_notStranded_of_check hstranded (h {} e ⟨_, ⟨0, rfl⟩, hpath⟩)

end LtpEngine

end QpskB210.Ltp
