import QpskB210.Ltp.Partition
import QpskB210.Ltp.SessionLog

/-!
# LTP — Checkpoint serials

Every checkpoint that a session sends takes the next serial: its counter
counts the checkpoints it has sent, modulo `2 ^ 64`. What it has sent is read
off its log.
-/

namespace QpskB210.Ltp

open QpskB210.Lib LtpEngine

/-! ## Serials among the acts of a call -/

/-- The serials of the session's checkpoints among the callbacks' calls. -/
def marks (key : SessionKey) (events : List Event) : List UInt64 :=
  events.filterMap fun event => (Entry.gave event).marked key

@[simp] theorem marks_append (key : SessionKey) (events events' : List Event) :
    marks key (events ++ events') = marks key events ++ marks key events' :=
  List.filterMap_append

theorem marks_sends {segments : List LtpSegment} (h : ∀ seg ∈ segments, seg.Travels)
    (key : SessionKey) : marks key (events (segments.map Act.send)) =
      segments.filterMap (LtpSegment.checkpointOf key) := by
  rw [events_map_send, marks, List.filterMap_map]
  refine List.filterMap_congr fun seg hseg => ?_
  exact checkpointIn_of_travels (h seg hseg) key

/-- No checkpoint is sent. -/
def Unmarked (acts : List Act) : Prop := ∀ key, marks key (events acts) = []

theorem unmarked_nil : Unmarked [] := fun _ => rfl

theorem Unmarked.append {acts acts' : List Act} (h : Unmarked acts) (h' : Unmarked acts') :
    Unmarked (acts ++ acts') := by
  intro key
  rw [events_append, marks_append, h key, h' key]
  rfl

theorem unmarked_call {event : Event} (h : ∀ bytes, event ≠ .sendSegment bytes) :
    Unmarked [.call event] := by
  intro key
  rw [events_call, events_nil]
  cases event with
  | sendSegment bytes => exact absurd rfl (h bytes)
  | dataArrival key data => rfl
  | sessionComplete key sn => rfl
  | sessionFailure key sn reason => rfl

/-- A segment without data is no checkpoint. -/
theorem unmarked_send {seg : LtpSegment} (h : seg.Travels)
    (hdata : ∀ ds, seg.content ≠ .data ds) : Unmarked [.send seg] := by
  intro key
  have hmarks := marks_sends (List.forall_mem_singleton.mpr h) key
  rw [List.map_singleton] at hmarks
  rw [hmarks, List.filterMap_cons, List.filterMap_nil, LtpSegment.checkpointOf]
  cases hcontent : seg.content with
  | data ds => exact absurd hcontent (hdata ds)
  | report rs => rfl
  | rptAck ra => rfl
  | cancel cc => rfl

theorem unmarked_report (session : LtpSession) (cp ub : UInt64) :
    Unmarked [.send (report session cp ub)] := by
  intro key
  have hnone := checkpointIn_reportSegment key ⟨session.engineId, session.sessionNumber⟩
    { reportSerial := session.reportSerialCounter + 1, checkpointSerial := cp, upperBound := ub
      lowerBound := 0, claims := session.receptionTracker.ranges }
  rw [events_send, events_nil, marks, List.filterMap_cons, List.filterMap_nil]
  rw [show (Entry.gave (.sendSegment (report session cp ub).wire)).marked key = none from hnone]

theorem unmarked_reportAck (seg : LtpSegment) (rs : ReportSegContent) :
    Unmarked [.send (reportAck seg rs)] :=
  unmarked_send (reportAck_travels seg rs) fun _ h => by cases h

theorem unmarked_cancelAck (seg : LtpSegment) : Unmarked [.send (cancelAck seg)] :=
  unmarked_send (cancelAck_travels seg) fun _ h => by cases h

theorem unmarked_failure (role : SessionRole) (key : SessionKey) (reason : UInt8)
    (sn : UInt64) (why : UInt8) :
    Unmarked [.send (cancelSegment role key reason), .call (.sessionFailure key sn why)] :=
  (unmarked_send (cancelSegment_travels role key reason) fun _ h => by cases h).append
    (unmarked_call fun _ h => by cases h)

/-! ## Serials of a session's segments -/

section Segments

variable {session : LtpSession} {key k : SessionKey} {p : Nat × Nat}

theorem checkpointOf_dataSegment (hs : Stored key session) (type : UInt8) (ds : DataSegContent)
    (k : SessionKey) : (session.dataSegment type ds).checkpointOf k =
      if SegType.hasCheckpoint type = true ∧ key = k then ds.checkpointSerial else none := by
  have hkey : segmentKey (session.dataSegment type ds) = key := by
    rw [segmentKey, LtpSession.dataSegment, hs.engineId, hs.sessionNumber]
  rw [LtpSegment.checkpointOf, hkey]
  simp [LtpSession.dataSegment]

/-- A counter goes on with the serials that are sent. -/
def Follows (before : UInt64) (sent : List UInt64) (after : UInt64) : Prop :=
  sent = [] ∧ after = before ∨ sent = [before + 1] ∧ after = before + 1

theorem Follows.refl (serial : UInt64) : Follows serial [] serial := .inl ⟨rfl, rfl⟩

/-- Only the last piece of a red block is a checkpoint. -/
theorem checkpointOf_inner (hs : Stored key session) {cpSerial : UInt64}
    (h : p.1 + p.2 ≠ session.clientData.length) :
    (blockSegment session cpSerial p).checkpointOf k = none := by
  rw [blockSegment_of_inner h, checkpointOf_dataSegment hs, LtpSession.innerType]
  cases session.isRed <;> exact if_neg fun h => absurd h.1 (by decide)

theorem checkpointOf_last (hs : Stored key session) {cpSerial : UInt64}
    (h : p.1 + p.2 = session.clientData.length) :
    (blockSegment session cpSerial p).checkpointOf k =
      if session.isRed = true ∧ key = k then some (cpSerial + 1) else none := by
  rw [blockSegment_of_last h, checkpointOf_dataSegment hs, LtpSession.lastType,
    LtpSession.lastContent]
  cases session.isRed with
  | true => rfl
  | false => simp [SegType.hasCheckpoint]

theorem checkpointOf_plainSegment (hs : Stored key session) :
    (plainSegment session p).checkpointOf k = none := by
  rw [plainSegment, checkpointOf_dataSegment hs]
  exact if_neg fun h => absurd h.1 (by decide)

theorem checkpointOf_checkpointSegment (hs : Stored key session) {serial : UInt64} :
    (checkpointSegment session serial p).checkpointOf k =
      if key = k then some serial else none := by
  rw [checkpointSegment, checkpointOf_dataSegment hs]
  simp [show SegType.hasCheckpoint SegType.redDataCp = true from rfl]

/-- A list of which at most the last entry counts. -/
theorem filterMap_last {α β : Type} {f : α → Option β} {init : List α} {last : α}
    (h : ∀ a ∈ init, f a = none) : (init ++ [last]).filterMap f = (f last).toList := by
  rw [List.filterMap_append, List.filterMap_eq_nil_iff.mpr h, List.nil_append]
  cases hlast : f last <;> simp [hlast]

/-- A red block ends with a checkpoint; a green one has none. -/
theorem marks_block {maxSeg : UInt32} {cpSerial cpSerial' : UInt64} {segments : List LtpSegment}
    (hs : Stored key session)
    (h : segmentDataImpl session maxSeg cpSerial = .ok (segments, cpSerial')) :
    marks k (events (segments.map Act.send)) =
      (if session.isRed = true ∧ key = k then some (cpSerial + 1) else none).toList := by
  obtain ⟨hmax, rfl, -⟩ := segmentDataImpl_eq_ok.mp h
  have hcut : session.clientData.length = 0 ∨ maxSeg ≠ 0 := hmax.imp List.length_eq_zero_iff.mpr id
  have htravels : ∀ seg ∈ (blockCuts maxSeg session.clientData.length).map
      (blockSegment session cpSerial), seg.Travels := by
    intro seg hseg
    obtain ⟨p, hp, rfl⟩ := List.mem_map.mp hseg
    have hlength := length_le_of_mem_blockCuts hp
    have := maxSeg.toNat_lt
    exact blockSegment_travels cpSerial (mem_blockCuts hcut hp).1 (by omega)
  rw [marks_sends htravels]
  obtain ⟨init, last, hcuts, hlast, hinit⟩ := blockCuts_eq hcut
  rw [hcuts, List.map_append, List.map_singleton, filterMap_last, checkpointOf_last hs hlast]
  intro seg hseg
  obtain ⟨p, hp, rfl⟩ := List.mem_map.mp hseg
  exact checkpointOf_inner hs (hinit p hp).ne

/-- What is resent for gaps ends with a checkpoint. -/
theorem marks_marked {maxSeg : UInt32} {claims : List ReceptionClaim}
    {lower upper serial : UInt64} {segments marked : List LtpSegment} (hs : Stored key session)
    (hgaps : computeGaps claims lower upper ≠ [])
    (h : gapSegments session maxSeg (computeGaps claims lower upper) = .ok segments)
    (hmarked : markLast serial segments = .ok marked) :
    marks k (events (marked.map Act.send)) = (if key = k then some serial else none).toList := by
  obtain ⟨init, last, hcuts, rfl⟩ := marked_eq hgaps h hmarked
  rw [marks_sends (resent_travels serial fun p hp => fits_of_mem_gapCuts h (hcuts ▸ hp)),
    filterMap_last, checkpointOf_checkpointSegment hs]
  intro seg hseg
  obtain ⟨p, -, rfl⟩ := List.mem_map.mp hseg
  exact checkpointOf_plainSegment hs

end Segments

/-! ## The calls -/

namespace LtpEngine

variable {e e' : LtpEngine} {key : SessionKey}

/-- The checkpoint counter under the key; a new session starts from 0. -/
def serialCounter (e : LtpEngine) (key : SessionKey) : UInt64 :=
  match e.sessions.lookup key with
  | none => 0
  | some session => session.checkpointSerialCounter

theorem serialCounter_of_lookup {session : LtpSession}
    (h : e.sessions.lookup key = some session) :
    e.serialCounter key = session.checkpointSerialCounter := by
  rw [serialCounter, h]

theorem serialCounter_of_none (h : e.sessions.lookup key = none) : e.serialCounter key = 0 := by
  rw [serialCounter, h]

/-- What is resent for gaps advances the counter. -/
theorem checkpointed_of_gaps {session : LtpSession} {maxSeg : UInt32}
    {claims : List ReceptionClaim} {lower upper : UInt64} {segments : List LtpSegment}
    (hgaps : computeGaps claims lower upper ≠ [])
    (h : gapSegments session maxSeg (computeGaps claims lower upper) = .ok segments) :
    checkpointed session segments =
      { session with checkpointSerialCounter := session.checkpointSerialCounter + 1 } := by
  have hne := gapCuts_ne_nil hgaps h
  obtain ⟨-, -, rfl⟩ := gapSegments_eq_ok.mp h
  rw [checkpointed, if_neg (by simpa using hne)]

/-- Every session that is there after a call went on from its counter. -/
def Marks (e e' : LtpEngine) : Prop :=
  ∀ key session, e'.sessions.lookup key = some session →
    Follows (e.serialCounter key) (marks key (e.gives e')) session.checkpointSerialCounter

theorem marks_of_effect {held : Option LtpSession} {acts : List Act} {rounds : UInt64}
    (h : Effect e e' key held acts rounds)
    (hframe : ∀ k, key ≠ k → marks k (events acts) = [])
    (hheld : ∀ session, held = some session →
      Follows (e.serialCounter key) (marks key (events acts)) session.checkpointSerialCounter) :
    e.Marks e' := by
  intro k session hlookup
  rw [h.gives_eq]
  by_cases hk : k = key
  · rw [hk] at hlookup ⊢
    exact hheld session (h.lookup.symm.trans hlookup)
  · rw [h.frame k hk] at hlookup
    rw [hframe k (Ne.symm hk), serialCounter_of_lookup hlookup]
    exact .refl _

theorem marks_of_unmarked {held : Option LtpSession} {acts : List Act} {rounds : UInt64}
    (h : Effect e e' key held acts rounds) (hacts : Unmarked acts)
    (hheld : ∀ session, held = some session →
      session.checkpointSerialCounter = e.serialCounter key) : e.Marks e' := by
  refine marks_of_effect h (fun k _ => hacts k) fun session hsession => ?_
  rw [hacts key, hheld session hsession]
  exact .refl _

theorem marks_of_erased {acts : List Act} {rounds : UInt64}
    (h : Effect e e' key none acts rounds) (hacts : Unmarked acts) : e.Marks e' :=
  marks_of_unmarked h hacts fun _ hsession => by cases hsession

theorem Marks.refl : e.Marks e :=
  marks_of_unmarked (.refl e ⟨0, 0⟩) unmarked_nil fun _ hlookup =>
    (serialCounter_of_lookup hlookup).symm

theorem serialCounter_of_meets {seg : LtpSegment} {session : LtpSession}
    (h : e.Meets seg session) :
    session.checkpointSerialCounter = e.serialCounter (segmentKey seg) := by
  rcases h with hlookup | ⟨hnone, -, rfl⟩
  · exact (serialCounter_of_lookup hlookup).symm
  · exact (serialCounter_of_none hnone).symm

theorem receiveDataSegment_marks {seg : LtpSegment} (h : e.receiveDataSegment seg = .ok e') :
    e.Marks e' := by
  obtain ⟨ds, -, ⟨-, -, rfl⟩ | ⟨session, hmeets, ⟨-, rfl⟩ | ⟨stored, hstore, hout⟩⟩⟩ :=
    receiveDataSegment_cases h
  · exact .refl
  · exact .refl
  · have hcounter := serialCounter_of_meets hmeets
    obtain ⟨resized, buffer, -, -, rfl⟩ := LtpSession.store_eq hstore
    cases hout with
    | quiet _ h =>
        refine marks_of_unmarked h unmarked_nil fun session' hsession => ?_
        cases hsession
        exact hcounter
    | reported serial _ _ h =>
        refine marks_of_unmarked h (unmarked_report _ _ _) fun session' hsession => ?_
        cases hsession
        exact hcounter
    | delivered data _ _ _ h => exact marks_of_erased h (unmarked_call fun _ heq => by cases heq)

theorem receiveReportSegment_marks (hw : e.WellStored) {seg : LtpSegment}
    (h : e.receiveReportSegment seg = .ok e') : e.Marks e' := by
  obtain ⟨rs, -, hcases⟩ := receiveReportSegment_cases h
  have hack := unmarked_reportAck seg rs
  have hacks : Unmarked [.send (reportAck seg rs),
      .cancelCheckpoint (timerKey seg.sessionNumber rs.checkpointSerial)] := hack
  split at hcases
  · exact marks_of_erased hcases hack
  · rename_i session hlookup
    have hcounter := serialCounter_of_lookup hlookup
    have hs := hw _ _ hlookup
    split at hcases
    · cases hcases hs with
      | complete _ h =>
          exact marks_of_erased h (hacks.append (unmarked_call fun _ heq => by cases heq))
      | waiting _ _ h =>
          refine marks_of_unmarked h hacks fun session' hsession => ?_
          cases hsession
          exact hcounter.symm
      | gaveUp _ _ _ h => exact marks_of_erased h (hacks.append (unmarked_failure _ _ _ _ _))
      | resent _ hgaps _ segments marked hsegments hmarked h =>
          have hsent (k : SessionKey) := @marks_marked _ _ k _ _ _ _ _ _ _ hs.attempted hgaps
            hsegments hmarked
          refine marks_of_effect h (fun k hk => ?_) fun session' hsession => ?_
          · rw [events_append, marks_append, hacks k, hsent k, if_neg hk]
            rfl
          · cases hsession
            rw [events_append, marks_append, hacks, hsent, if_pos rfl, hcounter,
              checkpointed_of_gaps hgaps hsegments]
            exact .inr ⟨rfl, rfl⟩
    · refine marks_of_unmarked hcases unmarked_nil fun session' hsession => ?_
      cases hsession
      exact hcounter.symm

theorem receiveSegment_marks (hw : e.WellStored) {seg : LtpSegment}
    (h : e.receiveSegment seg = .ok e') : e.Marks e' := by
  rcases receiveSegment_cases h with ⟨-, h⟩ | ⟨-, h⟩ | ⟨-, h⟩ | ⟨-, h⟩ | rfl | rfl
  · exact receiveDataSegment_marks h
  · exact receiveReportSegment_marks hw h
  · obtain ⟨ra, -, ⟨_, _, _, _, _, _, h⟩ | ⟨acts, h, hacts, -⟩⟩ := receiveReportAck_cases h
    · exact marks_of_erased h (unmarked_call fun _ heq => by cases heq)
    · have hnone : Unmarked acts := by
        rcases hacts with rfl | rfl
        · exact unmarked_nil
        · exact unmarked_nil
      exact marks_of_unmarked h hnone fun _ hlookup => (serialCounter_of_lookup hlookup).symm
  · obtain ⟨cc, -, hcases⟩ := receiveCancelSegment_cases h
    have hack := unmarked_cancelAck seg
    split at hcases
    · exact marks_of_erased hcases hack
    · exact marks_of_erased hcases (hack.append (unmarked_call fun _ heq => by cases heq))
  · rw [hw.receiveCancelAck]
    exact .refl
  · exact .refl

/-- A block that goes out for the session under its key. -/
theorem marks_of_block {session : LtpSession} {maxSeg : UInt32} {cpSerial : UInt64}
    {held : Option LtpSession} {segments : List LtpSegment} {rounds : UInt64}
    (hs : Stored key session) (hcounter : e.serialCounter key = session.checkpointSerialCounter)
    (hsegments : segmentDataImpl session maxSeg session.checkpointSerialCounter =
      .ok (segments, cpSerial))
    (h : Effect e e' key held (segments.map Act.send) rounds)
    (hheld : ∀ session', held = some session' → session'.checkpointSerialCounter = cpSerial) :
    e.Marks e' := by
  have hsent (k : SessionKey) := @marks_block _ _ k _ _ _ _ hs hsegments
  obtain ⟨-, -, hnext⟩ := segmentDataImpl_eq_ok.mp hsegments
  refine marks_of_effect h (fun k hk => ?_) fun session' hsession => ?_
  · rw [hsent k, if_neg fun h => hk h.2]
    rfl
  · rw [hsent key, hheld session' hsession, hcounter, hnext, nextSerial]
    cases session.isRed with
    | true => exact .inr ⟨by simp, rfl⟩
    | false => exact .inl ⟨by simp, rfl⟩

theorem handleTimerExpiry_marks (hw : e.WellStored) {event : TimerEvent}
    (h : e.handleTimerExpiry event = .ok e') : e.Marks e' := by
  rw [handleTimerExpiry] at h
  split at h
  · cases checkpointExpiry_outcome h fun session hlookup => hw _ session hlookup with
    | idle h => exact h ▸ .refl
    | gaveUp session _ _ _ h => exact marks_of_erased h (unmarked_failure _ _ _ _ _)
    | resent session hlookup _ _ segments cpSerial hsegments h =>
        have hcounter : e.serialCounter (e.localKey event.sessionNumber) =
            (attempted session).checkpointSerialCounter := (serialCounter_of_lookup hlookup).trans rfl
        refine marks_of_block (hw _ _ hlookup).attempted hcounter hsegments h
          fun session' hsession => ?_
        cases hsession
        rfl
  · rcases reportExpiry_cases h with rfl | ⟨session, hlookup, -, ⟨-, h⟩ | ⟨-, h⟩⟩
    · exact .refl
    · refine marks_of_unmarked h unmarked_nil fun session' hsession => ?_
      cases hsession
      exact (serialCounter_of_lookup hlookup).symm
    · refine marks_of_unmarked h (unmarked_report _ _ _) fun session' hsession => ?_
      cases hsession
      exact (serialCounter_of_lookup hlookup).symm
  · exact Except.ok.inj h ▸ .refl

theorem startSession_marks (hw : e.WellStored) {data : Block} {reliable : Bool} {sn : UInt64}
    (h : e.startSession data reliable = .ok (e', sn)) : e.Marks e' := by
  rcases startSession_cases h with ⟨-, rfl, -⟩ | ⟨-, rfl, segments, cpSerial, hsegments, h⟩
  · exact .refl
  · have hcounter : e.serialCounter (e.localKey (e.sessionCounter + 1)) =
        (e.startedSession data.bytes reliable).checkpointSerialCounter := by
      rw [startedSession]
      cases hlookup : e.sessions.lookup (e.localKey (e.sessionCounter + 1)) with
      | none => exact serialCounter_of_none hlookup
      | some session => exact serialCounter_of_lookup hlookup
    refine @marks_of_block { e with sessionCounter := e.sessionCounter + 1 } _ _ _ _ _ _ _ _
      (hw.startedSession data.bytes reliable) hcounter hsegments h fun session' hsession => ?_
    split at hsession
    · cases hsession
      rfl
    · cases hsession

/-- **Serials.** Whatever a call does, a checkpoint it sends has the next
serial of its session, and there is at most one. -/
theorem exec_marks (hw : e.WellStored) {a : Action} (h : e.exec a = .ok e') : e.Marks e' := by
  cases a with
  | startSession data reliable =>
      obtain ⟨⟨e₁, sn⟩, hstart, h⟩ := bind_eq_ok.mp h
      cases h
      exact startSession_marks hw hstart
  | cancelSession engineId sessionNumber reason =>
      cases hlookup : e.sessions.lookup ⟨engineId, sessionNumber⟩ with
      | none =>
          cases (@cancelSession_of_none e ⟨engineId, sessionNumber⟩ reason hlookup).symm.trans h
          exact .refl
      | some session =>
          exact marks_of_erased (@cancelSession_effect e e' ⟨engineId, sessionNumber⟩ session reason
            h hlookup) (unmarked_failure _ _ _ _ _)
  | receive bytes =>
      rcases receiveBytes_cases h with rfl | ⟨seg, -, h⟩
      · exact .refl
      · exact receiveSegment_marks hw h
  | expire entry =>
      rcases expire_cases h with rfl | ⟨tm, -, -, ⟨-, rfl⟩ | ⟨-, h⟩⟩
      · exact .refl
      · exact .refl
      · exact @handleTimerExpiry_marks (e.popped tm entry) e' hw entry.event h
  | handleTimerExpiry event => exact handleTimerExpiry_marks hw h

end LtpEngine

/-! ## Runs -/

/-- The first serials, in order. -/
def serials (count : Nat) : List UInt64 := (List.range count).map fun i => UInt64.ofNat (i + 1)

theorem ofNat_succ (n : Nat) : UInt64.ofNat (n + 1) = UInt64.ofNat n + 1 :=
  UInt64.ofNat_add n 1

theorem serials_succ (count : Nat) :
    serials (count + 1) = serials count ++ [UInt64.ofNat count + 1] := by
  rw [serials, List.range_succ, List.map_append, List.map_singleton, ofNat_succ]
  rfl

theorem length_serials (count : Nat) : (serials count).length = count := by
  rw [serials, List.length_map, List.length_range]

/-- The next serial is larger than all before, until the counter wraps. -/
theorem lt_next_iff {count : Nat} :
    (∀ serial ∈ serials count, serial < UInt64.ofNat count + 1) ↔ count + 1 < 2 ^ 64 := by
  constructor
  · intro hall
    by_contra hfull
    -- the largest serial has been used
    have hmem : UInt64.ofNat (2 ^ 64 - 2 + 1) ∈ serials count :=
      List.mem_map.mpr ⟨2 ^ 64 - 2, List.mem_range.mpr (by omega), rfl⟩
    have hlt := UInt64.lt_iff_toNat_lt.mp (hall _ hmem)
    have hbound := (UInt64.ofNat count + 1).toNat_lt
    rw [toNat_ofNat_of_lt (by omega)] at hlt
    omega
  · intro hroom serial hmem
    obtain ⟨i, hi, rfl⟩ := List.mem_map.mp hmem
    rw [List.mem_range] at hi
    rw [← ofNat_succ, UInt64.lt_iff_toNat_lt, toNat_ofNat_of_lt (by omega), toNat_ofNat_of_lt hroom]
    omega

namespace Logged

variable {n : Logged} {config : LtpEngineConfig} {guard : Logged → Action → Prop}
  {key : SessionKey} {session : LtpSession}

/-- A session has used the first serials, as many as its counter counts. -/
def InOrder (n : Logged) : Prop :=
  ∀ key session, n.engine.sessions.lookup key = some session →
    ∃ count, n.used key = serials count ∧ session.checkpointSerialCounter = UInt64.ofNat count

theorem InOrder.since (h : n.InOrder) (key : SessionKey) : ∃ count,
    (n.since key).filterMap (Entry.marked key) = serials count ∧
      n.engine.serialCounter key = UInt64.ofNat count := by
  cases hlookup : n.engine.sessions.lookup key with
  | none =>
      refine ⟨0, ?_, LtpEngine.serialCounter_of_none hlookup⟩
      rw [since_of_none hlookup]
      rfl
  | some session =>
      obtain ⟨count, hused, hcounter⟩ := h key session hlookup
      refine ⟨count, ?_, (LtpEngine.serialCounter_of_lookup hlookup).trans hcounter⟩
      rw [since_of_live hlookup]
      exact hused

theorem InOrder.after (h : n.InOrder) (hw : n.engine.WellStored) {a : Action} {e' : LtpEngine}
    (hexec : n.engine.exec a = .ok e') : (n.after a e').InOrder := by
  intro key session hlookup
  obtain ⟨count, hsince, hcounter⟩ := h.since key
  have hused : (n.after a e').used key = serials count ++ marks key (n.engine.gives e') := by
    rw [used_after, hsince]
    rfl
  rcases LtpEngine.exec_marks hw hexec key session hlookup with
    ⟨hnone, hsame⟩ | ⟨hone, hnext⟩
  · exact ⟨count, by rw [hused, hnone, List.append_nil], hsame.trans hcounter⟩
  · refine ⟨count + 1, ?_, ?_⟩
    · rw [hused, hone, hcounter, serials_succ]
    · rw [hnext, hcounter, ofNat_succ]

/-- **Serials in order.** In every run, the serials that a session has used are
`1, 2, ...`, up to its counter. -/
theorem inOrder_of_reachable (h : (logged config).Reachable guard n) : n.InOrder := by
  refine h.invariant_of (P := InOrder) (fun n₀ hinit => ?_) fun n₁ a n₂ hreach hn _ hstep => ?_
  · obtain ⟨timerManager, rfl⟩ := hinit
    intro key session hlookup
    cases hlookup
  · obtain ⟨e', hexec, rfl⟩ := hstep
    exact hn.after (wellStored_of_logged hreach) hexec

/-- The next serial of a session is larger than all that it has used, unless it
has used up the counter. -/
theorem used_lt_next_iff (h : (logged config).Reachable guard n)
    (hlookup : n.engine.sessions.lookup key = some session) :
    (∀ serial ∈ n.used key, serial < session.checkpointSerialCounter + 1) ↔
      (n.used key).length + 1 < 2 ^ 64 := by
  obtain ⟨count, hserials, hcounter⟩ := inOrder_of_reachable h key session hlookup
  rw [hserials, hcounter, length_serials]
  exact lt_next_iff

end Logged

end QpskB210.Ltp
