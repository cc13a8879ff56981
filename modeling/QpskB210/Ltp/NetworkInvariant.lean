import QpskB210.Ltp.Network

/-!
# LTP — Network invariant

What holds of both nodes in every run. `Sound` is the invariant of one node,
relative to the journals of both: every session in its table is either its
own, with a block it started, or belongs to a session of the peer and knows
only bytes that have arrived; every segment it sent is honest about these.
What is said about a node's sessions by their numbers only holds while its
session counter has not wrapped: it is looked at for the node's own sessions
if `mine`, and for those of the peer if `theirs`. Journals only grow, and all
of this is kept when they do.
-/

namespace QpskB210.Ltp

open QpskB210.Lib LtpEngine

/-! ## Journals -/

namespace Journal

/-- The other journal has at least what this one has. -/
structure Grows (j j' : Journal) : Prop where
  id : j'.id = j.id
  started : ∀ start ∈ j.started, start ∈ j'.started
  received : ∀ seg ∈ j.received, seg ∈ j'.received

theorem Grows.refl (j : Journal) : j.Grows j := ⟨rfl, fun _ h => h, fun _ h => h⟩

/-- Session numbers are not used twice. -/
def Unique (j : Journal) : Prop :=
  ∀ start ∈ j.started, ∀ start' ∈ j.started,
    start.sessionNumber = start'.sessionNumber → start = start'

/-- A data segment of the session with byte `i` of its block has arrived. -/
def Has (j : Journal) (key : SessionKey) (block : List UInt8) (i : Nat) : Prop :=
  ∃ seg ∈ j.received, ∃ ds, SegType.isData seg.segmentType = true ∧ segmentKey seg = key ∧
    seg.content = .data ds ∧ ds.offset.toNat ≤ i ∧ i < ds.offset.toNat + ds.data.length ∧
    ds.data[i - ds.offset.toNat]? = block[i]?

theorem Has.mono {j j' : Journal} (h : j.Grows j') {key : SessionKey} {block : List UInt8} {i : Nat}
    (hhas : j.Has key block i) : j'.Has key block i := by
  obtain ⟨seg, hmem, hrest⟩ := hhas
  exact ⟨seg, h.received seg hmem, hrest⟩

end Journal

/-! ## What a node promises -/

/-- The segment carries a block, one that a session was started with. -/
structure HonestData (mine : Prop) (x : Journal) (seg : LtpSegment) (start : Start)
    (ds : DataSegContent) : Prop where
  engineId : seg.engineId = x.id
  content : seg.content = .data ds
  started : mine → start ∈ x.started
  sessionNumber : start.sessionNumber = seg.sessionNumber
  size : start.data.length < 2 ^ 57
  carries : Carries start.data start.reliable seg.segmentType ds

/-- A report on a session of the peer claims only what has arrived. -/
structure HonestReport (x y : Journal) (seg : LtpSegment) (start : Start) (rs : ReportSegContent) :
    Prop where
  engineId : seg.engineId = y.id
  content : seg.content = .report rs
  started : start ∈ y.started
  sessionNumber : start.sessionNumber = seg.sessionNumber
  claims : ∀ claim ∈ rs.claims, ∀ i, claim.offset.toNat ≤ i →
    i < claim.offset.toNat + claim.length.toNat → x.Has (segmentKey seg) start.data i

/-- What the engine with journal `x` sends to the one with journal `y`. -/
structure Honest (mine theirs : Prop) (x y : Journal) (seg : LtpSegment) : Prop where
  travels : seg.Travels
  data : SegType.isData seg.segmentType = true → ∃ start ds, HonestData mine x seg start ds
  report : theirs → seg.segmentType = SegType.reportSegment →
    ∃ start rs, HonestReport x y seg start rs

/-- An own session holds a block, the one it was started with. -/
structure OwnSession (mine : Prop) (x : Journal) (key : SessionKey) (session : LtpSession) :
    Prop where
  engineId : key.engineId = x.id
  started : mine → ⟨key.sessionNumber, session.clientData, true⟩ ∈ x.started
  size : session.clientData.length < 2 ^ 57
  total : session.totalDataLength = UInt64.ofNat session.clientData.length
  isRed : session.isRed = true

/-- A session of the peer knows bytes of its block that have arrived. -/
structure PeerSession (x y : Journal) (key : SessionKey) (session : LtpSession) (start : Start) :
    Prop where
  engineId : key.engineId = y.id
  started : start ∈ y.started
  sessionNumber : start.sessionNumber = key.sessionNumber
  isRed : session.isRed = start.reliable
  reassembles : Reassembles start.data session
  nonempty : session.clientData = [] → start.data = []
  arrived : ∀ i, session.receptionTracker.Received i → x.Has key start.data i

/-- A tracker of bytes of blocks. -/
structure Bounded (session : LtpSession) : Prop where
  tracker : session.receptionTracker.Inv
  received : ∀ i, session.receptionTracker.Received i → i < 2 ^ 57 - 1

def SessionOk (mine theirs : Prop) (x y : Journal) (key : SessionKey) (session : LtpSession) :
    Prop :=
  match session.role with
  | .originator => OwnSession mine x key session
  | .receiver => key.engineId = y.id ∧ Bounded session ∧
      (theirs → ∃ start, PeerSession x y key session start)

/-- The block that was delivered is the one a session of the peer was started
with, if that was red. -/
def Arrived (y : Journal) (key : SessionKey) (data : List UInt8) : Prop :=
  key.engineId = y.id ∧ ∃ start ∈ y.started, start.sessionNumber = key.sessionNumber ∧
    (start.reliable = true → data = start.data)

/-- A completed session's block has arrived at the peer. -/
def Completed (x y : Journal) (key : SessionKey) : Prop :=
  key.engineId = x.id ∧ ∃ block, ⟨key.sessionNumber, block, true⟩ ∈ x.started ∧
    ∀ i < block.length, y.Has key block i

/-- What a callback's call means. Deliveries are looked at if `strict`. -/
def EventOk (strict mine theirs : Prop) (x y : Journal) : Event → Prop
  | .sendSegment bytes => ∃ seg, Honest mine theirs x y seg ∧ bytes = seg.wire
  | .dataArrival key data => strict → theirs → Arrived y key data
  | .sessionComplete key _ => mine → Completed x y key
  | .sessionFailure _ _ _ => True

/-- The invariant of a node. -/
structure Sound (strict mine theirs : Prop) (node : Node) (y : Journal) : Prop where
  id : node.journal.id = node.engine.config.localEngineId
  stored : node.engine.WellStored
  counter : mine → ∀ start ∈ node.journal.started,
    start.sessionNumber.toNat ≤ node.engine.sessionCounter.toNat
  unique : mine → node.journal.Unique
  sessions : ∀ key session, node.engine.sessions.lookup key = some session →
    SessionOk mine theirs node.journal y key session
  events : ∀ event ∈ node.engine.trace, EventOk strict mine theirs node.journal y event

/-! ## Growing journals -/

section Mono

variable {strict mine theirs : Prop} {x x' y y' : Journal}

theorem HonestData.mono (hx : x.Grows x') {seg : LtpSegment} {start : Start} {ds : DataSegContent}
    (h : HonestData mine x seg start ds) : HonestData mine x' seg start ds :=
  { h with
    engineId := h.engineId.trans hx.id.symm
    started := fun hmine => hx.started _ (h.started hmine) }

theorem HonestReport.mono (hx : x.Grows x') (hy : y.Grows y') {seg : LtpSegment} {start : Start}
    {rs : ReportSegContent} (h : HonestReport x y seg start rs) :
    HonestReport x' y' seg start rs :=
  { h with
    engineId := h.engineId.trans hy.id.symm
    started := hy.started _ h.started
    claims := fun claim hclaim i hlow hhigh => (h.claims claim hclaim i hlow hhigh).mono hx }

theorem Honest.mono (hx : x.Grows x') (hy : y.Grows y') {seg : LtpSegment}
    (h : Honest mine theirs x y seg) : Honest mine theirs x' y' seg where
  travels := h.travels
  data := fun htype => by
    obtain ⟨start, ds, hdata⟩ := h.data htype
    exact ⟨start, ds, hdata.mono hx⟩
  report := fun htheirs htype => by
    obtain ⟨start, rs, hreport⟩ := h.report htheirs htype
    exact ⟨start, rs, hreport.mono hx hy⟩

theorem PeerSession.mono (hx : x.Grows x') (hy : y.Grows y') {key : SessionKey}
    {session : LtpSession} {start : Start} (h : PeerSession x y key session start) :
    PeerSession x' y' key session start :=
  { h with
    engineId := h.engineId.trans hy.id.symm
    started := hy.started _ h.started
    arrived := fun i hi => (h.arrived i hi).mono hx }

theorem SessionOk.mono (hx : x.Grows x') (hy : y.Grows y') {key : SessionKey}
    {session : LtpSession} (h : SessionOk mine theirs x y key session) :
    SessionOk mine theirs x' y' key session := by
  rw [SessionOk] at h ⊢
  cases hrole : session.role with
  | originator =>
      rw [hrole] at h
      exact { h with
        engineId := h.engineId.trans hx.id.symm
        started := fun hmine => hx.started _ (h.started hmine) }
  | receiver =>
      rw [hrole] at h
      obtain ⟨hid, hbounded, hpeer⟩ := h
      refine ⟨hid.trans hy.id.symm, hbounded, fun htheirs => ?_⟩
      obtain ⟨start, hstart⟩ := hpeer htheirs
      exact ⟨start, hstart.mono hx hy⟩

theorem EventOk.mono (hx : x.Grows x') (hy : y.Grows y') {event : Event}
    (h : EventOk strict mine theirs x y event) : EventOk strict mine theirs x' y' event := by
  cases event with
  | sendSegment bytes =>
      obtain ⟨seg, hseg, hbytes⟩ := h
      exact ⟨seg, hseg.mono hx hy, hbytes⟩
  | dataArrival key data =>
      intro hstrict htheirs
      obtain ⟨hid, start, hstart, hrest⟩ := h hstrict htheirs
      exact ⟨hid.trans hy.id.symm, start, hy.started _ hstart, hrest⟩
  | sessionComplete key sn =>
      intro hmine
      obtain ⟨hid, block, hstart, hall⟩ := h hmine
      exact ⟨hid.trans hx.id.symm, block, hx.started _ hstart, fun i hi => (hall i hi).mono hy⟩
  | sessionFailure key sn reason => trivial

/-- The peer's journal grew. -/
theorem Sound.peer {node : Node} (h : Sound strict mine theirs node y) (hy : y.Grows y') :
    Sound strict mine theirs node y' :=
  { h with
    sessions := fun key session hlookup => (h.sessions key session hlookup).mono (.refl _) hy
    events := fun event hevent => (h.events event hevent).mono (.refl _) hy }

end Mono

/-! ## What is sent is honest -/

/-- The session of a block the engine started, on its way to be sent. -/
structure Source (mine : Prop) (x : Journal) (session : LtpSession) (start : Start) : Prop where
  engineId : session.engineId = x.id
  started : mine → start ∈ x.started
  sessionNumber : start.sessionNumber = session.sessionNumber
  data : session.clientData = start.data
  isRed : session.isRed = start.reliable
  size : start.data.length < 2 ^ 57

section Honesty

variable {mine theirs : Prop} {x y : Journal} {key : SessionKey} {session : LtpSession}
  {start : Start} {seg : LtpSegment}

theorem honest_of_carries {ds : DataSegContent} (htravels : seg.Travels)
    (h : HonestData mine x seg start ds) : Honest mine theirs x y seg where
  travels := htravels
  data := fun _ => ⟨start, ds, h⟩
  report := fun _ htype => by
    have hdata := h.carries.isData
    rw [htype] at hdata
    cases hdata

/-- An acknowledgment or a cancel segment promises nothing. -/
theorem honest_of_control (htravels : seg.Travels)
    (h : (SegType.isData seg.segmentType || seg.segmentType == SegType.reportSegment) = false) :
    Honest mine theirs x y seg := by
  rw [Bool.or_eq_false_iff, beq_eq_false_iff_ne] at h
  exact
    { travels := htravels
      data := fun hdata => absurd (h.1.symm.trans hdata) (by decide)
      report := fun _ hreport => absurd hreport h.2 }

theorem honest_reportAck (seg : LtpSegment) (rs : ReportSegContent) :
    Honest mine theirs x y (reportAck seg rs) :=
  honest_of_control (reportAck_travels seg rs) rfl

theorem honest_cancelSegment (role : SessionRole) (key : SessionKey) (reason : UInt8) :
    Honest mine theirs x y (cancelSegment role key reason) :=
  honest_of_control (cancelSegment_travels role key reason) (by cases role <;> rfl)

theorem honest_cancelAck (seg : LtpSegment) : Honest mine theirs x y (cancelAck seg) := by
  refine honest_of_control (cancelAck_travels seg) ?_
  rw [cancelAck]
  dsimp only
  split <;> rfl

theorem Source.blockSegment (h : Source mine x session start) {maxSeg : UInt32} {p : Nat × Nat}
    (hmax : session.clientData = [] ∨ maxSeg ≠ 0)
    (hp : p ∈ blockCuts maxSeg session.clientData.length) (cpSerial : UInt64) :
    Honest mine theirs x y (blockSegment session cpSerial p) := by
  obtain ⟨hin, hempty⟩ := mem_blockCuts (hmax.imp_left (congrArg List.length ·)) hp
  have hsize : session.clientData.length < 2 ^ 57 := h.data ▸ h.size
  obtain ⟨hid, hnumber⟩ := blockSegment_ids session cpSerial p
  obtain ⟨ds, hds, hcarries⟩ := blockSegment_carries cpSerial hsize hin hempty
  rw [h.data, h.isRed] at hcarries
  exact honest_of_carries (blockSegment_travels cpSerial hin (by omega))
    { engineId := hid.trans h.engineId, content := hds, started := h.started
      sessionNumber := h.sessionNumber.trans hnumber.symm, size := h.size, carries := hcarries }

theorem Source.plainSegment (h : Source mine x session start) (hred : start.reliable = true)
    {p : Nat × Nat} (hin : p.1 + p.2 ≤ session.clientData.length) (hpos : 0 < p.2) :
    Honest mine theirs x y (plainSegment session p) := by
  have hsize : session.clientData.length < 2 ^ 57 := h.data ▸ h.size
  obtain ⟨ds, hds, hcarries⟩ := plainSegment_carries hsize hin hpos
  rw [h.data, ← hred] at hcarries
  exact honest_of_carries (plainSegment_travels hin (by omega))
    ⟨h.engineId, hds, h.started, h.sessionNumber, h.size, hcarries⟩

theorem Source.checkpointSegment (h : Source mine x session start) (hred : start.reliable = true)
    (serial : UInt64) {p : Nat × Nat} (hin : p.1 + p.2 ≤ session.clientData.length)
    (hpos : 0 < p.2) : Honest mine theirs x y (checkpointSegment session serial p) := by
  have hsize : session.clientData.length < 2 ^ 57 := h.data ▸ h.size
  obtain ⟨ds, hds, hcarries⟩ := checkpointSegment_carries serial hsize hin hpos
  rw [h.data, ← hred] at hcarries
  exact honest_of_carries (checkpointSegment_travels serial hin (by omega))
    ⟨h.engineId, hds, h.started, h.sessionNumber, h.size, hcarries⟩

theorem OwnSession.source (h : OwnSession mine x key session) (hs : Stored key session) :
    Source mine x session ⟨key.sessionNumber, session.clientData, true⟩ where
  engineId := hs.engineId.trans h.engineId
  started := h.started
  sessionNumber := hs.sessionNumber.symm
  data := rfl
  isRed := h.isRed
  size := h.size

theorem Bounded.length_ranges_lt (h : Bounded session) :
    session.receptionTracker.ranges.length < 2 ^ 57 :=
  (h.tracker.length_ranges_le h.received).trans_lt (by decide)

theorem bounded_new (seg : LtpSegment) : Bounded (receiverSession seg) :=
  ⟨.empty, fun i hi => absurd hi (ReceptionTracker.not_received_empty i)⟩

theorem Bounded.stored (h : Bounded session) {block : List UInt8} {red : Bool} {type : UInt8}
    {ds : DataSegContent} (hc : Carries block red type ds) (hsize : block.length < 2 ^ 57) :
    Bounded (stored session type ds) where
  tracker := h.tracker.addRange (by have := hc.inside; rw [hc.length]; omega)
  received := by
    intro i hi
    rcases (received_stored hc hsize h.tracker i).mp hi with hrange | hold
    · have := hc.inside
      omega
    · exact h.received i hold

theorem PeerSession.reported (h : PeerSession x y key session start) :
    PeerSession x y key (reported session) start :=
  { h with
    reassembles :=
      { tracker := h.reassembles.tracker, size := h.reassembles.size
        received := h.reassembles.received, total := h.reassembles.total } }

theorem SessionOk.own (h : SessionOk mine theirs x y key session)
    (hrole : session.role = .originator) : OwnSession mine x key session := by
  rwa [SessionOk, hrole] at h

theorem SessionOk.peer (h : SessionOk mine theirs x y key session)
    (hrole : session.role = .receiver) : key.engineId = y.id ∧ Bounded session ∧
      (theirs → ∃ start, PeerSession x y key session start) := by
  rwa [SessionOk, hrole] at h

theorem sessionOk_of_own (h : OwnSession mine x key session) (hrole : session.role = .originator) :
    SessionOk mine theirs x y key session := by
  rw [SessionOk, hrole]
  exact h

theorem sessionOk_of_peer (hid : key.engineId = y.id) (hbounded : Bounded session)
    (hrole : session.role = .receiver) (h : theirs → ∃ start, PeerSession x y key session start) :
    SessionOk mine theirs x y key session := by
  rw [SessionOk, hrole]
  exact ⟨hid, hbounded, h⟩

/-- After a report the session is as good as before. -/
theorem SessionOk.reported (h : SessionOk mine theirs x y key session)
    (hrole : session.role = .receiver) :
    SessionOk mine theirs x y key (LtpEngine.reported session) := by
  obtain ⟨hid, hbounded, hpeer⟩ := h.peer hrole
  refine sessionOk_of_peer hid ⟨hbounded.tracker, hbounded.received⟩ hrole fun htheirs => ?_
  obtain ⟨start, hstart⟩ := hpeer htheirs
  exact ⟨start, hstart.reported⟩

/-- The report on a session of the peer claims what has arrived. -/
theorem SessionOk.report (h : SessionOk mine theirs x y key session)
    (hrole : session.role = .receiver) (hs : Stored key session) (cp ub : UInt64) :
    Honest mine theirs x y (LtpEngine.report session cp ub) := by
  obtain ⟨-, hbounded, hpeer⟩ := h.peer hrole
  have hkey : segmentKey (LtpEngine.report session cp ub) = key := by
    rw [segmentKey, LtpEngine.report, hs.engineId, hs.sessionNumber]
  refine ⟨report_travels cp ub hbounded.length_ranges_lt, fun htype => (by cases htype),
    fun htheirs _ => ?_⟩
  obtain ⟨start, hstart⟩ := hpeer htheirs
  refine ⟨start, _,
    { engineId := hs.engineId.trans hstart.engineId
      content := rfl
      started := hstart.started
      sessionNumber := hstart.sessionNumber.trans hs.sessionNumber.symm
      claims := fun claim hclaim i hlow hhigh => ?_ }⟩
  rw [hkey]
  exact hstart.arrived i (ReceptionTracker.received_iff.mpr ⟨claim, hclaim, hlow, hhigh⟩)

end Honesty

/-! ## Preservation -/

/-- The peer's sessions are told apart. -/
structure Peers (theirs : Prop) (x y : Journal) : Prop where
  distinct : x.id ≠ y.id
  unique : theirs → y.Unique

/-- What an act means. -/
def ActOk (strict mine theirs : Prop) (x y : Journal) : Act → Prop
  | .send seg => Honest mine theirs x y seg
  | .call event => EventOk strict mine theirs x y event
  | _ => True

section Preservation

variable {strict mine theirs : Prop} {x y : Journal} {e e' : LtpEngine} {key : SessionKey}
  {session : LtpSession} {seg : LtpSegment}

theorem eventOk_of_acts {acts : List Act} (h : ∀ act ∈ acts, ActOk strict mine theirs x y act) :
    ∀ event ∈ events acts, EventOk strict mine theirs x y event := by
  intro event hevent
  obtain ⟨act, hact, heq⟩ := List.mem_filterMap.mp hevent
  have hok := h act hact
  cases act with
  | send seg =>
      cases heq
      exact ⟨seg, hok, rfl⟩
  | call event' =>
      cases heq
      exact hok
  | cancelCheckpoint timer => cases heq
  | cancelReport timer => cases heq

theorem Sound.effect {held : Option LtpSession} {acts : List Act} {rounds : UInt64}
    (h : Sound strict mine theirs ⟨e, x⟩ y) (heffect : Effect e e' key held acts rounds)
    (hheld : ∀ session, held = some session →
      Stored key session ∧ SessionOk mine theirs x y key session)
    (hacts : ∀ act ∈ acts, ActOk strict mine theirs x y act) :
    Sound strict mine theirs ⟨e', x⟩ y where
  id := by
    rw [heffect.config]
    exact h.id
  stored := h.stored.effect heffect fun session hs => (hheld session hs).1
  counter := by
    rw [heffect.sessionCounter]
    exact h.counter
  unique := h.unique
  sessions := fun k session hlookup => by
    by_cases hk : k = key
    · rw [hk] at hlookup ⊢
      exact (hheld session (heffect.lookup.symm.trans hlookup)).2
    · exact h.sessions k session ((heffect.frame k hk).symm.trans hlookup)
  events := fun event hevent => by
    rw [heffect.trace] at hevent
    rcases List.mem_append.mp hevent with hevent | hevent
    · exact h.events event hevent
    · exact eventOk_of_acts hacts event hevent

theorem Sound.removed {acts : List Act} {rounds : UInt64} (h : Sound strict mine theirs ⟨e, x⟩ y)
    (heffect : Effect e e' key none acts rounds)
    (hacts : ∀ act ∈ acts, ActOk strict mine theirs x y act) :
    Sound strict mine theirs ⟨e', x⟩ y :=
  h.effect heffect (fun _ hs => nomatch hs) hacts

/-- The call kept a session that was there. -/
theorem Sound.kept {acts : List Act} {rounds : UInt64} (h : Sound strict mine theirs ⟨e, x⟩ y)
    (heffect : Effect e e' key (some session) acts rounds)
    (hlookup : e.sessions.lookup key = some session)
    (hacts : ∀ act ∈ acts, ActOk strict mine theirs x y act) :
    Sound strict mine theirs ⟨e', x⟩ y :=
  h.effect heffect (fun _ hs => Option.some.inj hs ▸ ⟨h.stored _ _ hlookup, h.sessions _ _ hlookup⟩)
    hacts

/-- What is known of the session that a data segment of the peer meets. -/
structure Met (x : Journal) (key : SessionKey) (session : LtpSession) (start : Start) : Prop where
  isRed : session.isRed = start.reliable
  reassembles : Reassembles start.data session
  arrived : ∀ i, session.receptionTracker.Received i → x.Has key start.data i

theorem Sound.meets (h : Sound strict mine theirs ⟨e, x⟩ y) (hp : Peers theirs x y) {start : Start}
    {ds : DataSegContent} (hd : HonestData theirs y seg start ds) (hmeets : e.Meets seg session) :
    session.role = .receiver ∧ Bounded session ∧
      (theirs → Met x (segmentKey seg) session start) := by
  rcases hmeets with hlookup | ⟨-, -, rfl⟩
  · have hok := h.sessions _ _ hlookup
    cases hrole : session.role with
    | originator => exact absurd ((hok.own hrole).engineId.symm.trans hd.engineId) hp.distinct
    | receiver =>
        obtain ⟨-, hbounded, hpeer⟩ := hok.peer hrole
        refine ⟨rfl, hbounded, fun htheirs => ?_⟩
        obtain ⟨start', hstart'⟩ := hpeer htheirs
        have hsame : start' = start := hp.unique htheirs _ hstart'.started _ (hd.started htheirs)
          (hstart'.sessionNumber.trans hd.sessionNumber.symm)
        subst hsame
        exact ⟨hstart'.isRed, hstart'.reassembles, hstart'.arrived⟩
  · exact ⟨rfl, bounded_new seg, fun _ => ⟨hd.carries.isRed, reassembles_new seg,
      fun i hi => absurd hi (ReceptionTracker.not_received_empty i)⟩⟩

/-- Storing the segment's data keeps the session sound. -/
theorem Met.stored {start : Start} {ds : DataSegContent} (h : Met x (segmentKey seg) session start)
    (hd : HonestData theirs y seg start ds) (hstarted : start ∈ y.started)
    (hmem : seg ∈ x.received) :
    PeerSession x y (segmentKey seg) (stored session seg.segmentType ds) start where
  engineId := hd.engineId
  started := hstarted
  sessionNumber := hd.sessionNumber
  isRed := h.isRed
  reassembles := h.reassembles.stored hd.carries hd.size
  nonempty := nonempty_stored hd.carries
  arrived := by
    intro i hi
    rcases (received_stored hd.carries hd.size h.reassembles.tracker i).mp hi with hrange | hold
    · refine ⟨seg, hmem, ds, hd.carries.isData, rfl, hd.content, hrange.1, hrange.2, ?_⟩
      rw [hd.carries.slice, List.getElem?_take_of_lt (by omega), List.getElem?_drop,
        Nat.add_sub_cancel' hrange.1]
    · exact h.arrived i hold

theorem Sound.receiveDataSegment (h : Sound strict mine theirs ⟨e, x⟩ y) (hp : Peers theirs x y)
    (hhonest : Honest theirs mine y x seg) (hmem : seg ∈ x.received)
    (htype : SegType.isData seg.segmentType = true) (hcall : e.receiveDataSegment seg = .ok e') :
    Sound strict mine theirs ⟨e', x⟩ y := by
  obtain ⟨start, ds, hd⟩ := hhonest.data htype
  obtain ⟨ds', hds', hcases⟩ := receiveDataSegment_cases hcall
  cases hd.content.symm.trans hds'
  rcases hcases with ⟨-, -, rfl⟩ | ⟨met, hmeets, ⟨-, rfl⟩ | ⟨after, hstore, hout⟩⟩
  · exact h
  · exact h
  obtain ⟨hrole, hbounded, hmet⟩ := h.meets hp hd hmeets
  have hs := (h.stored.meets hmeets).store hstore
  cases (store_carried hd.carries hd.size).symm.trans hstore
  have hrole' : (Ltp.stored met seg.segmentType ds).role = .receiver := hrole
  have hok : SessionOk mine theirs x y (segmentKey seg) (Ltp.stored met seg.segmentType ds) :=
    sessionOk_of_peer hd.engineId (hbounded.stored hd.carries hd.size) hrole' fun htheirs =>
      ⟨start, (hmet htheirs).stored hd (hd.started htheirs) hmem⟩
  cases hout with
  | quiet _ heffect =>
      refine h.effect heffect (fun s hsome => ?_) (fun _ hact => nomatch hact)
      cases hsome
      exact ⟨hs, hok⟩
  | reported serial _ _ heffect =>
      refine h.effect heffect (fun s hsome => ?_) fun act hact => ?_
      · cases hsome
        exact ⟨⟨hs.engineId, hs.sessionNumber, hs.active⟩, hok.reported hrole'⟩
      · rw [List.mem_singleton.mp hact]
        exact hok.report hrole' hs _ _
  | delivered data hgreen _ _ heffect =>
      refine h.removed heffect fun act hact => ?_
      rw [List.mem_singleton.mp hact]
      -- the session is green: nothing is promised of its delivery
      intro _ htheirs
      refine ⟨hd.engineId, start, hd.started htheirs, hd.sessionNumber, fun hred => ?_⟩
      rw [hd.carries.isGreen, hred] at hgreen
      cases hgreen

theorem OwnSession.retried (h : OwnSession mine x key session) (cpSerial : UInt64) :
    OwnSession mine x key { attempted session with checkpointSerialCounter := cpSerial } :=
  ⟨h.engineId, h.started, h.size, h.total, h.isRed⟩

theorem actOk_givingUp (key : SessionKey) (session : LtpSession) :
    ∀ act ∈ givingUp key session, ActOk strict mine theirs x y act := by
  intro act hact
  rcases List.mem_cons.mp hact with rfl | hact
  · exact honest_cancelSegment _ _ _
  · rw [List.mem_singleton.mp hact]
    trivial

/-- A report on a session of this node that covers the block: the block has
arrived. -/
theorem HonestReport.completed {start : Start} {rs : ReportSegContent}
    (h : HonestReport y x seg start rs) (hown : OwnSession mine x key session) (hmine : mine)
    (hunique : x.Unique) (hkey : segmentKey seg = key)
    (hfull : fullyReceived session rs = true) : Completed x y key := by
  refine ⟨hown.engineId, session.clientData, hown.started hmine, fun i hi => ?_⟩
  obtain ⟨claim, hclaim, hlow, hhigh⟩ := covered_of_fullyReceived hown.total hown.size hfull hi
  have hnumber : start.sessionNumber = key.sessionNumber :=
    h.sessionNumber.trans (congrArg SessionKey.sessionNumber hkey)
  have hsame : start = ⟨key.sessionNumber, session.clientData, true⟩ :=
    hunique _ h.started _ (hown.started hmine) hnumber
  have hhas := h.claims claim hclaim i hlow hhigh
  rw [hsame, hkey] at hhas
  exact hhas

/-- The segments that fill the gaps of a report, the last one a checkpoint. -/
theorem Source.markedSegments {start : Start} (h : Source mine x session start)
    (hred : start.reliable = true) {maxSeg : UInt32} {rs : ReportSegContent} {serial : UInt64}
    {segments marked : List LtpSegment}
    (hgaps : computeGaps rs.claims rs.lowerBound rs.upperBound ≠ [])
    (hsegments : gapSegments session maxSeg
      (computeGaps rs.claims rs.lowerBound rs.upperBound) = .ok segments)
    (hmarked : markLast serial segments = .ok marked) {seg' : LtpSegment} (hseg' : seg' ∈ marked) :
    Honest mine theirs x y seg' := by
  obtain ⟨init, last, hcuts, rfl⟩ := marked_eq hgaps hsegments hmarked
  rcases List.mem_append.mp hseg' with hseg' | hseg'
  · obtain ⟨p, hp, rfl⟩ := List.mem_map.mp hseg'
    have hcut : p ∈ gapCuts maxSeg (computeGaps rs.claims rs.lowerBound rs.upperBound) := by
      rw [hcuts]
      exact List.mem_append_left _ hp
    obtain ⟨hin, hpos⟩ := mem_gapCuts hsegments hcut
    exact h.plainSegment hred hin hpos
  · rw [List.mem_singleton.mp hseg']
    have hcut : last ∈ gapCuts maxSeg (computeGaps rs.claims rs.lowerBound rs.upperBound) := by
      rw [hcuts]
      exact List.mem_append_right _ (List.mem_singleton_self last)
    obtain ⟨hin, hpos⟩ := mem_gapCuts hsegments hcut
    exact h.checkpointSegment hred _ hin hpos

/-- A report that the session answers. -/
theorem Sound.reportOutcome (h : Sound strict mine theirs ⟨e, x⟩ y) {rs : ReportSegContent}
    {acks : List Act} (hacks : ∀ act ∈ acks, ActOk strict mine theirs x y act)
    (hlookup : e.sessions.lookup key = some session) (hrole : session.role = .originator)
    (hcompleted : OwnSession mine x key session → mine → fullyReceived session rs = true →
      Completed x y key)
    (hout : ReportOutcome e e' key session rs acks) : Sound strict mine theirs ⟨e', x⟩ y := by
  have hs := h.stored _ _ hlookup
  have hown := (h.sessions _ _ hlookup).own hrole
  have hboth {more : List Act} (hmore : ∀ act ∈ more, ActOk strict mine theirs x y act) :
      ∀ act ∈ acks ++ more, ActOk strict mine theirs x y act :=
    fun act hact => (List.mem_append.mp hact).elim (hacks act) (hmore act)
  cases hout with
  | complete hfull heffect =>
      refine h.removed heffect (hboth fun act hact => ?_)
      rw [List.mem_singleton.mp hact]
      exact fun hmine => hcompleted hown hmine hfull
  | waiting _ _ heffect => exact h.kept heffect hlookup hacks
  | gaveUp _ _ _ heffect => exact h.removed heffect (hboth (actOk_givingUp _ _))
  | resent _ hgaps _ segments marked hsegments hmarked heffect =>
      obtain ⟨cpSerial, heq⟩ := checkpointed_eq (attempted session) segments
      rw [heq] at heffect
      refine h.effect heffect (fun s hsome => ?_) (hboth fun act hact => ?_)
      · cases hsome
        exact ⟨⟨hs.engineId, hs.sessionNumber, hs.active⟩,
          sessionOk_of_own (hown.retried cpSerial) hrole⟩
      · obtain ⟨seg', hseg', rfl⟩ := List.mem_map.mp hact
        have hsource := hown.source hs
        have hsource' : Source mine x (attempted session)
            ⟨key.sessionNumber, session.clientData, true⟩ :=
          ⟨hsource.engineId, hsource.started, hsource.sessionNumber, rfl, hsource.isRed,
            hsource.size⟩
        exact hsource'.markedSegments rfl hgaps hsegments hmarked hseg'

theorem Sound.receiveReportSegment (h : Sound strict mine theirs ⟨e, x⟩ y)
    (hhonest : Honest theirs mine y x seg) (htype : seg.segmentType = SegType.reportSegment)
    (hcall : e.receiveReportSegment seg = .ok e') : Sound strict mine theirs ⟨e', x⟩ y := by
  obtain ⟨rs, hrs, hcases⟩ := receiveReportSegment_cases hcall
  have hack : ActOk strict mine theirs x y (.send (reportAck seg rs)) := honest_reportAck seg rs
  split at hcases
  · refine h.removed hcases fun act hact => ?_
    rw [List.mem_singleton.mp hact]
    exact hack
  · rename_i session hlookup
    by_cases hactive : session.role = .originator ∧ session.state = .active
    · rw [if_pos hactive] at hcases
      refine h.reportOutcome (fun act hact => ?_) hlookup hactive.1 (fun hown hmine hfull => ?_)
        (hcases (h.stored _ _ hlookup))
      · rcases List.mem_cons.mp hact with rfl | hact
        · exact hack
        · rw [List.mem_singleton.mp hact]
          trivial
      · obtain ⟨start, rs', hreport⟩ := hhonest.report hmine htype
        cases hreport.content.symm.trans hrs
        have hkey : segmentKey seg = e.localKey seg.sessionNumber := by
          rw [segmentKey, localKey, hreport.engineId]
          exact congrArg (SessionKey.mk · seg.sessionNumber) h.id
        exact hreport.completed hown hmine (h.unique hmine) hkey hfull
    · rw [if_neg hactive] at hcases
      exact h.kept hcases hlookup fun _ hact => nomatch hact

/-- A report acknowledgment; what it may deliver is the hypothesis. -/
theorem Sound.receiveReportAck (h : Sound strict mine theirs ⟨e, x⟩ y)
    (harrived : strict → theirs → ∀ session data,
      e.sessions.lookup (segmentKey seg) = some session → session.role = .receiver →
      session.receptionTracker.isComplete session.totalDataLength = true →
      assignRange session.clientData 0 session.totalDataLength.toNat = .ok data →
      Arrived y (segmentKey seg) data)
    (hcall : e.receiveReportAck seg = .ok e') : Sound strict mine theirs ⟨e', x⟩ y := by
  obtain ⟨ra, -, ⟨session, data, hlookup, hrole, hcomplete, hdata, heffect⟩ | ⟨acts, heffect, hacts, -⟩⟩ :=
    receiveReportAck_cases hcall
  · refine h.removed heffect fun act hact => ?_
    rcases List.mem_cons.mp hact with rfl | hact
    · trivial
    · rw [List.mem_singleton.mp hact]
      exact fun hstrict htheirs =>
        harrived hstrict htheirs session data hlookup hrole hcomplete hdata
  · refine h.effect heffect (fun s hs => ⟨h.stored _ _ hs, h.sessions _ _ hs⟩) fun act hact => ?_
    rcases hacts with rfl | rfl
    · cases hact
    · rw [List.mem_singleton.mp hact]
      trivial

theorem Sound.receiveCancelSegment (h : Sound strict mine theirs ⟨e, x⟩ y)
    (hcall : e.receiveCancelSegment seg = .ok e') : Sound strict mine theirs ⟨e', x⟩ y := by
  obtain ⟨cc, -, hcases⟩ := receiveCancelSegment_cases hcall
  split at hcases
  · refine h.removed hcases fun act hact => ?_
    rw [List.mem_singleton.mp hact]
    exact honest_cancelAck seg
  · refine h.removed hcases fun act hact => ?_
    rcases List.mem_cons.mp hact with rfl | hact
    · exact honest_cancelAck seg
    · rw [List.mem_singleton.mp hact]
      trivial

theorem Sound.cancelSession (h : Sound strict mine theirs ⟨e, x⟩ y) {reason : UInt8}
    (hcall : e.cancelSession key.engineId key.sessionNumber reason = .ok e') :
    Sound strict mine theirs ⟨e', x⟩ y := by
  cases hlookup : e.sessions.lookup key with
  | none =>
      rw [cancelSession_of_none hlookup] at hcall
      exact Except.ok.inj hcall ▸ h
  | some session =>
      refine h.removed (cancelSession_effect hcall hlookup) fun act hact => ?_
      rcases List.mem_cons.mp hact with rfl | hact
      · exact honest_cancelSegment _ _ _
      · rw [List.mem_singleton.mp hact]
        trivial

theorem Sound.checkpointExpiry (h : Sound strict mine theirs ⟨e, x⟩ y) {event : TimerEvent}
    (hcall : e.checkpointExpiry event = .ok e') : Sound strict mine theirs ⟨e', x⟩ y := by
  cases checkpointExpiry_outcome hcall fun session hlookup => h.stored _ session hlookup with
  | idle heq => exact heq ▸ h
  | gaveUp session hlookup _ _ heffect =>
      exact h.removed heffect (actOk_givingUp _ _)
  | resent session hlookup hrole _ segments cpSerial hsegments heffect =>
      have hs := h.stored _ _ hlookup
      have hown := (h.sessions _ _ hlookup).own hrole
      have hsource := hown.source hs
      have hsource' : Source mine x (attempted session) _ :=
        ⟨hsource.engineId, hsource.started, hsource.sessionNumber, hsource.data, hsource.isRed,
          hsource.size⟩
      refine h.effect heffect (fun s hsome => ?_) fun act hact => ?_
      · cases hsome
        exact ⟨⟨hs.engineId, hs.sessionNumber, hs.active⟩,
          sessionOk_of_own (hown.retried cpSerial) hrole⟩
      · obtain ⟨seg, hseg, rfl⟩ := List.mem_map.mp hact
        obtain ⟨hmax, rfl, -⟩ := segmentDataImpl_eq_ok.mp hsegments
        obtain ⟨p, hp, rfl⟩ := List.mem_map.mp hseg
        exact hsource'.blockSegment hmax hp _

theorem Sound.reportExpiry (h : Sound strict mine theirs ⟨e, x⟩ y) {event : TimerEvent}
    (hcall : e.reportExpiry event = .ok e') : Sound strict mine theirs ⟨e', x⟩ y := by
  rcases reportExpiry_cases hcall with rfl | ⟨session, hlookup, hrole, ⟨-, heffect⟩ | ⟨-, heffect⟩⟩
  · exact h
  · exact h.kept heffect hlookup fun _ hact => nomatch hact
  · have hs := h.stored _ _ hlookup
    have hok := h.sessions _ _ hlookup
    refine h.effect heffect (fun s hsome => ?_) fun act hact => ?_
    · cases hsome
      exact ⟨⟨hs.engineId, hs.sessionNumber, hs.active⟩, hok.reported hrole⟩
    · rw [List.mem_singleton.mp hact]
      exact hok.report hrole hs _ _

theorem Sound.handleTimerExpiry (h : Sound strict mine theirs ⟨e, x⟩ y) {event : TimerEvent}
    (hcall : e.handleTimerExpiry event = .ok e') : Sound strict mine theirs ⟨e', x⟩ y := by
  rw [LtpEngine.handleTimerExpiry] at hcall
  split at hcall
  · exact h.checkpointExpiry hcall
  · exact h.reportExpiry hcall
  · exact Except.ok.inj hcall ▸ h

theorem Sound.expire (h : Sound strict mine theirs ⟨e, x⟩ y) {entry : TimerEntry}
    (hcall : e.expire entry = .ok e') : Sound strict mine theirs ⟨e', x⟩ y := by
  rcases expire_cases hcall with rfl | ⟨tm, -, -, ⟨-, rfl⟩ | ⟨-, hcall⟩⟩
  · exact h
  · exact ⟨h.id, h.stored, h.counter, h.unique, h.sessions, h.events⟩
  · have h' : Sound strict mine theirs ⟨e.popped tm entry, x⟩ y :=
      ⟨h.id, h.stored, h.counter, h.unique, h.sessions, h.events⟩
    exact h'.handleTimerExpiry hcall

end Preservation

end QpskB210.Ltp
