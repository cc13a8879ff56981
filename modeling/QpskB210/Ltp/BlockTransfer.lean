import QpskB210.Ltp.Link

/-!
# LTP — Block transfer

What the two engines of one red session do with what reaches them, where
nothing else is going on. On the receiver's side, each segment of the block
adds its piece to what the session has, a checkpoint is answered with a
report, and the acknowledgment of the report on a complete session delivers
the block. On the originator's side, a report on the whole block completes
the session, and any other is answered with the pieces that are missing.
-/

namespace QpskB210.Ltp

open QpskB210.Lib LtpEngine

/-! ## Calls -/

/-- From `e` to `e'` the client was called with `calls`, and `rounds`
retransmissions were counted. -/
structure Since (e e' : LtpEngine) (calls : List Event) (rounds : UInt64) : Prop where
  config : e'.config = e.config
  upcalls : upcalls e'.trace = upcalls e.trace ++ calls
  retransmissions : e'.diagnostics.retransmissions = e.diagnostics.retransmissions + rounds

theorem Since.refl (e : LtpEngine) : Since e e [] 0 :=
  ⟨rfl, (List.append_nil _).symm, (UInt64.add_zero _).symm⟩

theorem Since.trans {e e₁ e₂ : LtpEngine} {calls₁ calls₂ : List Event} {rounds₁ rounds₂ : UInt64}
    (h₁ : Since e e₁ calls₁ rounds₁) (h₂ : Since e₁ e₂ calls₂ rounds₂) :
    Since e e₂ (calls₁ ++ calls₂) (rounds₁ + rounds₂) where
  config := h₂.config.trans h₁.config
  upcalls := by rw [h₂.upcalls, h₁.upcalls, List.append_assoc]
  retransmissions := by rw [h₂.retransmissions, h₁.retransmissions, UInt64.add_assoc]

theorem Effect.since {e e' : LtpEngine} {key : SessionKey} {held : Option LtpSession}
    {acts : List Act} {rounds : UInt64} {calls : List Event}
    (h : Effect e e' key held acts rounds) (hcalls : Ltp.upcalls (events acts) = calls) :
    Since e e' calls rounds where
  config := h.config
  upcalls := by rw [h.trace, upcalls_append, hcalls]
  retransmissions := h.retransmissions

/-! ## The receiver's session -/

/-- A receiver session that has the bytes at the positions in `got`, and has
seen the end of the block if `ended`. -/
structure Holds (key : SessionKey) (block : List UInt8) (got : Nat → Prop) (ended : Prop)
    (session : LtpSession) : Prop where
  stored : Stored key session
  role : session.role = .receiver
  reassembles : Reassembles block session
  received : ∀ i, session.receptionTracker.Received i ↔ got i
  total : ended → session.totalDataLength.toNat = block.length

/-- A red segment of the session that carries the piece `p` of the block. -/
structure Piece (key : SessionKey) (block : List UInt8) (p : Nat × Nat) (seg : LtpSegment)
    (ds : DataSegContent) : Prop where
  travels : seg.Travels
  key : segmentKey seg = key
  content : seg.content = .data ds
  carries : Carries block true seg.segmentType ds
  offset : ds.offset.toNat = p.1
  length : ds.data.length = p.2

section Receiver

variable {e : LtpEngine} {key : SessionKey} {block : List UInt8} {got got' : Nat → Prop}
  {ended ended' : Prop} {session : LtpSession} {p : Nat × Nat} {seg : LtpSegment}
  {ds : DataSegContent}

theorem Holds.mono (h : Holds key block got ended session) (hgot : ∀ i, got i ↔ got' i)
    (hended : ended' → ended) : Holds key block got' ended' session :=
  { h with
    received := fun i => (h.received i).trans (hgot i)
    total := fun h' => h.total (hended h') }

theorem holds_new (seg : LtpSegment) :
    Holds (segmentKey seg) block (fun _ => False) False (receiverSession seg) where
  stored := ⟨rfl, rfl, rfl⟩
  role := rfl
  reassembles := reassembles_new seg
  received := fun i => iff_of_false (ReceptionTracker.not_received_empty i) id
  total := False.elim

/-- Storing a piece adds its positions. -/
theorem Holds.stored_piece (h : Holds key block got ended session) (hp : Piece key block p seg ds)
    (hsize : block.length < 2 ^ 57) :
    Holds key block (fun i => got i ∨ (p.1 ≤ i ∧ i < p.1 + p.2))
      (ended ∨ SegType.hasEob seg.segmentType = true) (Ltp.stored session seg.segmentType ds) where
  stored := h.stored.store (store_carried hp.carries hsize)
  role := h.role
  reassembles := h.reassembles.stored hp.carries hsize
  received := by
    intro i
    rw [received_stored hp.carries hsize h.reassembles.tracker, h.received, hp.offset, hp.length, or_comm]
  total := by
    intro hended
    show (if SegType.hasEob seg.segmentType = true then ds.offset + ds.length else _).toNat = _
    split
    · rename_i heob
      exact (hp.carries.toNat_end hsize).trans (hp.carries.eob heob)
    · rename_i heob
      exact h.total (hended.resolve_right heob)

theorem Holds.reported (h : Holds key block got ended session) :
    Holds key block got ended (LtpEngine.reported session) where
  stored := ⟨h.stored.engineId, h.stored.sessionNumber, h.stored.active⟩
  role := h.role
  reassembles := ⟨h.reassembles.tracker, h.reassembles.size, h.reassembles.received,
    h.reassembles.total⟩
  received := h.received
  total := h.total

theorem Holds.lt (h : Holds key block got ended session) {i : Nat} (hi : got i) :
    i < block.length := by
  have hin := (h.reassembles.received i ((h.received i).mpr hi)).1
  exact hin.trans_le h.reassembles.size

/-- A data segment of the session meets a session that has `got`. -/
def Awaits (e : LtpEngine) (key : SessionKey) (block : List UInt8) (got : Nat → Prop)
    (ended : Prop) : Prop :=
  ∀ seg, segmentKey seg = key → ∃ session, e.Meets seg session ∧ Holds key block got ended session

theorem isFull_of_empty (hsessions : e.sessions = ∅)
    (hmax : 1 ≤ e.config.maxConcurrentSessions) : e.isFull = false := by
  have hpos := UInt32.le_iff_toNat_le.mp hmax
  have hcount : e.sessionCount = 0 := by
    rw [sessionCount, hsessions]
    rfl
  rw [isFull, hcount]
  exact decide_eq_false (Nat.not_le.mpr hpos)

theorem awaits_new (hsessions : e.sessions = ∅) (hmax : 1 ≤ e.config.maxConcurrentSessions) :
    Awaits e key block (fun _ => False) False := by
  intro seg hseg
  have hnone : e.sessions.lookup (segmentKey seg) = none := by
    rw [hsessions]
    rfl
  exact ⟨receiverSession seg, .inr ⟨hnone, isFull_of_empty hsessions hmax, rfl⟩,
    hseg ▸ holds_new seg⟩

theorem awaits_of_lookup (hlookup : e.sessions.lookup key = some session)
    (h : Holds key block got ended session) : Awaits e key block got ended := by
  intro seg hseg
  exact ⟨session, .inl (hseg ▸ hlookup), h⟩

theorem Awaits.mono (h : Awaits e key block got ended) (hgot : ∀ i, got i ↔ got' i)
    (hended : ended' → ended) : Awaits e key block got' ended' := by
  intro seg hseg
  obtain ⟨session, hmeets, hholds⟩ := h seg hseg
  exact ⟨session, hmeets, hholds.mono hgot hended⟩

/-- The segment is taken in by the session it meets. -/
theorem outcome_of_meets {e' : LtpEngine} {stored : LtpSession} (hmeets : e.Meets seg session)
    (hactive : session.state = .active) (hds : seg.content = .data ds)
    (hstore : session.store seg.segmentType ds = .ok stored)
    (h : e.receiveDataSegment seg = .ok e') : DataOutcome e e' seg ds (segmentKey seg) stored := by
  obtain ⟨ds', hds', hcases⟩ := receiveDataSegment_cases h
  cases hds.symm.trans hds'
  have hsame {met : LtpSession} (hmet : e.Meets seg met) : met = session := by
    rcases hmeets with hlookup | ⟨hnone, -, rfl⟩ <;> rcases hmet with hlookup' | ⟨hnone', -, rfl⟩
    · exact Option.some.inj (hlookup'.symm.trans hlookup)
    · cases hlookup.symm.trans hnone'
    · cases hlookup'.symm.trans hnone
    · rfl
  rcases hcases with ⟨hnone, hfull, -⟩ | ⟨met, hmet, hrest⟩
  · rcases hmeets with hlookup | ⟨-, hfree, -⟩
    · cases hlookup.symm.trans hnone
    · cases hfree.symm.trans hfull
  · rw [hsame hmet] at hrest
    rcases hrest with ⟨hidle, -⟩ | ⟨stored', hstore', hout⟩
    · exact absurd hactive hidle
    · rwa [Except.ok.inj (hstore.symm.trans hstore')]

/-- A piece that arrives is stored. -/
theorem Awaits.receive (h : Awaits e key block got ended) (hp : Piece key block p seg ds)
    (hsize : block.length < 2 ^ 57) :
    ∃ e' session, e.receiveBytes seg.wire = .ok e' ∧
      Holds key block (fun i => got i ∨ (p.1 ≤ i ∧ i < p.1 + p.2))
        (ended ∨ SegType.hasEob seg.segmentType = true) session ∧
      DataOutcome e e' seg ds key session := by
  obtain ⟨session, hmeets, hholds⟩ := h seg hp.key
  have hstore : session.store seg.segmentType ds = .ok (stored session seg.segmentType ds) :=
    store_carried hp.carries hsize
  have hkept := hholds.stored_piece hp hsize
  have hcall : e.receiveBytes seg.wire = e.receiveDataSegment seg := by
    rw [receiveBytes_of_decode hp.travels.decode_wire, receiveSegment_data hp.carries.isData]
  obtain ⟨e', hreturns⟩ := receiveDataSegment_returns hp.content hmeets hstore hp.carries.isGreen
    (hkept.reassembles.length_ranges_le.trans_lt hsize)
  refine ⟨e', stored session seg.segmentType ds, hcall.trans hreturns, hkept, ?_⟩
  exact hp.key ▸ outcome_of_meets hmeets hholds.stored.active hp.content hstore hreturns

/-- A piece that is no checkpoint is stored in silence. -/
theorem Awaits.receive_plain (h : Awaits e key block got ended) (hp : Piece key block p seg ds)
    (hcp : SegType.hasCheckpoint seg.segmentType = false) (hsize : block.length < 2 ^ 57) :
    ∃ e', e.receiveBytes seg.wire = .ok e' ∧ e'.sentSince e.trace = [] ∧ Since e e' [] 0 ∧
      Awaits e' key block (fun i => got i ∨ (p.1 ≤ i ∧ i < p.1 + p.2)) ended := by
  obtain ⟨e', session, hreceive, hholds, hout⟩ := h.receive hp hsize
  have hawaits (heffect : Effect e e' key (some session) [] 0) :
      Awaits e' key block (fun i => got i ∨ (p.1 ≤ i ∧ i < p.1 + p.2)) ended :=
    awaits_of_lookup heffect.lookup (hholds.mono (fun _ => .rfl) .inl)
  cases hout with
  | quiet _ heffect =>
      exact ⟨e', hreceive, heffect.sentSince, heffect.since rfl, hawaits heffect⟩
  | reported _ hcp' => cases hcp.symm.trans hcp'
  | delivered _ hgreen => cases hp.carries.isGreen.symm.trans hgreen

/-- A checkpoint is answered with a report on the session. -/
theorem Awaits.receive_checkpoint (h : Awaits e key block got ended)
    (hp : Piece key block p seg ds) (hcp : SegType.hasCheckpoint seg.segmentType = true)
    {serial : UInt64} (hserial : ds.checkpointSerial = some serial)
    (hsize : block.length < 2 ^ 57) :
    ∃ e' session, e.receiveBytes seg.wire = .ok e' ∧
      e'.sentSince e.trace = [(report session serial (ds.offset + ds.length)).wire] ∧
      Since e e' [] 0 ∧ e'.sessions.lookup key = some (LtpEngine.reported session) ∧
      Holds key block (fun i => got i ∨ (p.1 ≤ i ∧ i < p.1 + p.2))
        (ended ∨ SegType.hasEob seg.segmentType = true) session := by
  obtain ⟨e', session, hreceive, hholds, hout⟩ := h.receive hp hsize
  cases hout with
  | quiet hnone => cases hserial.symm.trans (hnone hcp)
  | reported serial' _ hserial' heffect =>
      cases hserial.symm.trans hserial'
      exact ⟨e', session, hreceive, heffect.sentSince, heffect.since rfl, heffect.lookup, hholds⟩
  | delivered _ hgreen => cases hp.carries.isGreen.symm.trans hgreen

/-! ## The acknowledgment of a report -/

/-- A complete session's buffer has its block. -/
theorem Reassembles.total_le (h : Reassembles block session)
    (hcomplete : session.receptionTracker.isComplete session.totalDataLength = true) :
    session.totalDataLength.toNat ≤ session.clientData.length := by
  rcases Nat.eq_zero_or_pos session.totalDataLength.toNat with hzero | hpos
  · omega
  · have hlast := ReceptionTracker.received_of_isComplete hcomplete
      (session.totalDataLength.toNat - 1) (by omega)
    have hlt := (h.received _ hlast).1
    omega

/-- The acknowledgment of a report on the session arrives. -/
theorem receive_reportAck {peer : LtpSession} {serial upper : UInt64} (rs : ReportSegContent)
    (hpeer : Stored key peer) (hlookup : e.sessions.lookup key = some session)
    (h : Holds key block got True session) :
    ∃ e', e.receiveBytes (reportAck (report peer serial upper) rs).wire = .ok e' ∧
      e'.sentSince e.trace = [] ∧
      ((∀ i < block.length, got i) ∧ e'.sessions.lookup key = none ∧
          Since e e' [.dataArrival key block] 0 ∨
        (∃ i < block.length, ¬ got i) ∧ e'.sessions.lookup key = some session ∧
          Since e e' [] 0) := by
  have hkey : segmentKey (reportAck (report peer serial upper) rs) = key := by
    rw [segmentKey, reportAck, report, hpeer.engineId, hpeer.sessionNumber]
  have hcall : e.receiveBytes (reportAck (report peer serial upper) rs).wire =
      e.receiveReportAck (reportAck (report peer serial upper) rs) := by
    rw [receiveBytes_of_decode (reportAck_travels _ rs).decode_wire, receiveSegment_reportAck rfl]
  have hbuffer : ∀ met,
      e.sessions.lookup (segmentKey (reportAck (report peer serial upper) rs)) = some met →
        met.receptionTracker.isComplete met.totalDataLength = true →
          met.totalDataLength.toNat ≤ met.clientData.length := by
    intro met hmet hcomplete
    rw [hkey, hlookup] at hmet
    cases hmet
    exact h.reassembles.total_le hcomplete
  obtain ⟨e', hreturns⟩ := receiveReportAck_returns rfl hbuffer
  refine ⟨e', hcall.trans hreturns, ?_⟩
  obtain ⟨ra, -, ⟨met, data, hmet, -, hcomplete, hdata, heffect⟩ | ⟨acts, heffect, hacts, hopen⟩⟩ :=
    receiveReportAck_cases hreturns
  · rw [hkey] at hmet heffect
    cases hlookup.symm.trans hmet
    have hall := ReceptionTracker.received_of_isComplete hcomplete
    have hblock : data = block := by
      refine h.reassembles.delivered (fun hzero => ?_) hcomplete hdata
      rw [← List.length_eq_zero_iff, ← h.total trivial, hzero]
      rfl
    rw [hblock] at heffect
    refine ⟨heffect.sentSince, .inl ⟨fun i hi => ?_, heffect.lookup, heffect.since rfl⟩⟩
    exact (h.received i).mp (hall i (by rw [h.total trivial]; exact hi))
  · rw [hkey] at heffect hopen
    have hmissing : ∃ i < block.length, ¬ got i := by
      by_contra hall
      have hexact (i : Nat) :
          session.receptionTracker.Received i ↔ i < session.totalDataLength.toNat := by
        rw [h.received, h.total trivial]
        exact ⟨h.lt, fun hi => by_contra fun hgot => hall ⟨i, hi, hgot⟩⟩
      have hcomplete := h.reassembles.tracker.isComplete_of_exact hexact
      rw [hopen session hlookup h.role] at hcomplete
      cases hcomplete
    have hquiet : Ltp.upcalls (events acts) = [] ∧ sends (events acts) = [] := by
      rcases hacts with rfl | rfl <;> exact ⟨rfl, rfl⟩
    exact ⟨heffect.sentSince.trans hquiet.2,
      .inr ⟨hmissing, heffect.lookup.trans hlookup, heffect.since hquiet.1⟩⟩

end Receiver

/-! ## The originator's session -/

/-- The originator's session of the block. -/
structure Offers (e : LtpEngine) (key : SessionKey) (data : Block) (session : LtpSession) :
    Prop where
  lookup : e.sessions.lookup key = some session
  engineId : key.engineId = e.config.localEngineId
  stored : Stored key session
  role : session.role = .originator
  clientData : session.clientData = data.bytes
  total : session.totalDataLength = UInt64.ofNat data.bytes.length
  segmentSize : e.config.maxSegmentSize ≠ 0

section Pieces

variable {key : SessionKey} {session : LtpSession} {data : Block} {p : Nat × Nat}

theorem piece_of_slice {type : UInt8} {ds : DataSegContent} (hs : Stored key session)
    (htravels : (session.dataSegment type ds).Travels) (hcarries : Carries data.bytes true type ds)
    (hoffset : ds.offset = UInt64.ofNat p.1) (hlength : ds.length = UInt64.ofNat p.2)
    (hin : p.1 + p.2 ≤ data.bytes.length) :
    Piece key data.bytes p (session.dataSegment type ds) ds where
  travels := htravels
  key := by rw [segmentKey, LtpSession.dataSegment, hs.engineId, hs.sessionNumber]
  content := rfl
  carries := hcarries
  offset := by rw [hoffset, toNat_ofNat_of_le (by omega) data.size_lt]
  length := by rw [← hcarries.length, hlength, toNat_ofNat_of_le (by omega) data.size_lt]

/-- A plain segment of the session carries its piece. -/
theorem plainSegment_piece (hs : Stored key session) (hdata : session.clientData = data.bytes)
    (hin : p.1 + p.2 ≤ data.bytes.length) (hpos : 0 < p.2) :
    ∃ ds, Piece key data.bytes p (plainSegment session p) ds := by
  rw [← hdata] at hin
  have hsize : session.clientData.length < 2 ^ 57 := hdata ▸ data.size_lt
  obtain ⟨ds, hds, hcarries⟩ := plainSegment_carries hsize hin hpos
  cases hds
  exact ⟨_, piece_of_slice hs (plainSegment_travels hin (by omega)) (hdata ▸ hcarries) rfl rfl
    (hdata ▸ hin)⟩

/-- So does a new checkpoint. -/
theorem checkpointSegment_piece (hs : Stored key session) (hdata : session.clientData = data.bytes)
    (serial : UInt64) (hin : p.1 + p.2 ≤ data.bytes.length) (hpos : 0 < p.2) :
    ∃ ds, Piece key data.bytes p (checkpointSegment session serial p) ds ∧
      ds.checkpointSerial = some serial ∧ (ds.offset + ds.length).toNat ≤ data.bytes.length := by
  rw [← hdata] at hin
  have hsize : session.clientData.length < 2 ^ 57 := hdata ▸ data.size_lt
  obtain ⟨ds, hds, hcarries⟩ := checkpointSegment_carries serial hsize hin hpos
  cases hds
  refine ⟨_, piece_of_slice hs (checkpointSegment_travels serial hin (by omega)) (hdata ▸ hcarries)
    rfl rfl (hdata ▸ hin), rfl, ?_⟩
  rw [hcarries.toNat_end hsize, ← hdata]
  exact hcarries.inside

/-- But for the last, the segments of a red block are plain. -/
theorem blockSegment_inner (cpSerial : UInt64) (hred : session.isRed = true)
    (hin : p.1 + p.2 < session.clientData.length) :
    blockSegment session cpSerial p = plainSegment session p := by
  rw [blockSegment, chunkSegment, hred, decide_eq_false hin.ne]
  rfl

/-- The last segment of a red block is a checkpoint, and ends the block. -/
theorem blockSegment_last (hs : Stored key session) (hdata : session.clientData = data.bytes)
    (hred : session.isRed = true) (cpSerial : UInt64) (hend : p.1 + p.2 = data.bytes.length)
    (hempty : p.2 = 0 → data.bytes.length = 0) :
    ∃ ds, Piece key data.bytes p (blockSegment session cpSerial p) ds ∧
      (blockSegment session cpSerial p).segmentType = SegType.redDataCpEorpEob ∧
      ds.checkpointSerial = some (cpSerial + 1) ∧
      (ds.offset + ds.length).toNat = data.bytes.length := by
  rw [← hdata] at hend hempty
  have hsize : session.clientData.length < 2 ^ 57 := hdata ▸ data.size_lt
  have htravels := blockSegment_travels cpSerial hend.le (by omega)
  obtain ⟨ds, hds, hcarries⟩ := blockSegment_carries cpSerial hsize hend.le hempty
  rw [blockSegment, chunkSegment, hred, decide_eq_true hend] at htravels hds hcarries ⊢
  cases hds
  refine ⟨_, piece_of_slice hs htravels (hdata ▸ hcarries) rfl rfl (hdata ▸ hend.le), rfl, rfl, ?_⟩
  rw [hcarries.toNat_end hsize, ← hdata]
  exact hcarries.eob rfl

end Pieces

section Originator

variable {e : LtpEngine} {key : SessionKey} {data : Block} {got : Nat → Prop}
  {own peer : LtpSession} {serial upper : UInt64}

/-- With room in the table, `start_session` sends the segments of the block. -/
theorem startSession_offers (hsessions : e.sessions = ∅)
    (hmax : 1 ≤ e.config.maxConcurrentSessions) (hsize : 1 ≤ e.config.maxSegmentSize) :
    ∃ e' sn own, e.startSession data true = .ok (e', sn) ∧
      Offers e' (e.localKey sn) data own ∧ own.isRed = true ∧ own.retransmissionCount = 0 ∧
      Since e e' [] 0 ∧
      e'.sentSince e.trace = ((blockCuts e.config.maxSegmentSize data.bytes.length).map
        (blockSegment own 0)).map LtpSegment.wire := by
  have hpos := ne_zero_of_one_le hsize
  have hnew : e.sessions.lookup (e.localKey (e.sessionCounter + 1)) = none := by
    rw [hsessions]
    rfl
  obtain ⟨e', cpSerial, hstart, heffect⟩ :=
    startSession_begins (isFull_of_empty hsessions hmax) hnew hpos data true
  have hsince := heffect.since (upcalls_sent _)
  have hoffers : Offers e' (e.localKey (e.sessionCounter + 1)) data
      { e.originatorSession (e.sessionCounter + 1) data.bytes true with
        checkpointSerialCounter := cpSerial } :=
    { lookup := heffect.lookup
      engineId := (congrArg LtpEngineConfig.localEngineId heffect.config).symm
      stored := ⟨rfl, rfl, rfl⟩
      role := rfl
      clientData := rfl
      total := rfl
      segmentSize := heffect.config ▸ hpos }
  exact ⟨e', _, _, hstart, hoffers, rfl, rfl,
    ⟨hsince.config, hsince.upcalls, hsince.retransmissions⟩,
    heffect.sentSince.trans (sends_sent _)⟩

/-- The gaps below an upper bound are what the receiver is missing there. -/
theorem covers_computeGaps {block : List UInt8} (h : Holds key block got True peer) {i : Nat} :
    Intervals.Covers (ReceptionTracker.intervals
      (computeGaps peer.receptionTracker.ranges 0 upper)) i ↔ i < upper.toNat ∧ ¬ got i := by
  have hinv := h.reassembles.tracker
  rw [← h.received, show computeGaps peer.receptionTracker.ranges 0 upper =
    ReceptionTracker.gapsFrom upper 0 peer.receptionTracker.ranges from rfl,
    (ReceptionTracker.intervals_gapsFrom hinv.noWrap).1, Intervals.covers_gaps hinv.normal.sorted,
    ReceptionTracker.Received]
  simp

/-- The pieces that are cut for a report are those below its upper bound that
the receiver is missing. -/
theorem covered_gapCuts {block : List UInt8} {maxSeg : UInt32} (hmax : maxSeg ≠ 0)
    (h : Holds key block got True peer) {i : Nat} :
    Chunks.Covered (gapCuts maxSeg (computeGaps peer.receptionTracker.ranges 0 upper)) i ↔
      i < upper.toNat ∧ ¬ got i := by
  rw [covered_gapCuts_iff hmax, ← covers_computeGaps h]
  simp [Intervals.Covers, ReceptionTracker.intervals, ReceptionClaim.bytes]

/-- A report on the receiver's session reaches the originator. -/
theorem Offers.receive_report (h : Offers e key data own)
    (hpeer : Holds key data.bytes got True peer) (hupper : upper.toNat ≤ data.bytes.length) :
    ∃ e' rs, e.receiveBytes (report peer serial upper).wire = .ok e' ∧
      rs.claims = peer.receptionTracker.ranges ∧ rs.lowerBound = 0 ∧ rs.upperBound = upper ∧
      ReportOutcome e e' key own rs [.send (reportAck (report peer serial upper) rs),
        .cancelCheckpoint (timerKey key.sessionNumber rs.checkpointSerial)] := by
  have htravels : (report peer serial upper).Travels :=
    report_travels serial upper (hpeer.reassembles.length_ranges_le.trans_lt data.size_lt)
  have hcall : e.receiveBytes (report peer serial upper).wire =
      e.receiveReportSegment (report peer serial upper) := by
    rw [receiveBytes_of_decode htravels.decode_wire, receiveSegment_report rfl]
  have hnumber : (report peer serial upper).sessionNumber = key.sessionNumber :=
    hpeer.stored.sessionNumber
  have hkey : e.localKey (report peer serial upper).sessionNumber = key := by
    rw [localKey, hnumber, ← h.engineId]
  obtain ⟨rs, hrs, hclaims, hlower, hbound⟩ : ∃ rs,
      (report peer serial upper).content = .report rs ∧
        rs.claims = peer.receptionTracker.ranges ∧ rs.lowerBound = 0 ∧ rs.upperBound = upper :=
    ⟨_, rfl, rfl, rfl, rfl⟩
  have hresend : ∀ session,
      e.sessions.lookup (e.localKey (report peer serial upper).sessionNumber) = some session →
        fullyReceived session rs = false → ¬ e.Exhausted session →
          e.CanResend session (computeGaps rs.claims rs.lowerBound rs.upperBound) := by
    intro session hlookup _ _
    rw [hkey, h.lookup] at hlookup
    cases hlookup
    refine ⟨h.segmentSize, fun gap hgap => ?_⟩
    have hend := (of_mem_gapsFrom gap hgap).2
    rw [hbound] at hend
    rw [h.clientData]
    exact hend.trans hupper
  obtain ⟨e', hreturns⟩ := receiveReportSegment_returns hrs hresend
  refine ⟨e', rs, hcall.trans hreturns, hclaims, hlower, hbound, ?_⟩
  obtain ⟨rs', hrs', hcases⟩ := receiveReportSegment_cases hreturns
  cases hrs.symm.trans hrs'
  rw [hkey, h.lookup] at hcases
  dsimp only at hcases
  rw [if_pos ⟨h.role, h.stored.active⟩, hnumber] at hcases
  exact hcases h.stored

/-- A report on the whole block completes the session. -/
theorem Offers.complete (h : Offers e key data own)
    (hpeer : Holds key data.bytes got True peer) (hupper : upper.toNat ≤ data.bytes.length)
    (hall : ∀ i < data.bytes.length, got i) :
    ∃ e' rs, e.receiveBytes (report peer serial upper).wire = .ok e' ∧
      e'.sentSince e.trace = [(reportAck (report peer serial upper) rs).wire] ∧
      e'.sessions.lookup key = none ∧
      Since e e' [.sessionComplete key key.sessionNumber] 0 := by
  obtain ⟨e', rs, hreceive, hclaims, -, -, hout⟩ := h.receive_report hpeer hupper
  have hfull : fullyReceived own rs = true := by
    have hexact (i : Nat) :
        peer.receptionTracker.Received i ↔ i < own.totalDataLength.toNat := by
      rw [hpeer.received, h.total, data.toNat_size]
      exact ⟨hpeer.lt, hall i⟩
    rw [fullyReceived]
    split
    · rfl
    · rename_i hne
      rw [hclaims, hpeer.reassembles.tracker.ranges_eq hne hexact]
      simp
  cases hout with
  | complete _ heffect =>
      refine ⟨e', rs, hreceive, heffect.sentSince, heffect.lookup, ?_⟩
      rw [h.stored.sessionNumber] at heffect
      exact heffect.since rfl
  | waiting hnot => cases hfull.symm.trans hnot
  | gaveUp hnot => cases hfull.symm.trans hnot
  | resent hnot => cases hfull.symm.trans hnot

/-- A report on a part of the block leaves gaps. -/
theorem Offers.leaves_gaps {rs : ReportSegContent} (h : Offers e key data own)
    (hpeer : Holds key data.bytes got True peer) (hupper : upper.toNat ≤ data.bytes.length)
    (hclaims : rs.claims = peer.receptionTracker.ranges) (hlower : rs.lowerBound = 0)
    (hbound : rs.upperBound = upper) (hmissing : ∃ i < upper.toNat, ¬ got i) :
    fullyReceived own rs = false ∧ computeGaps rs.claims rs.lowerBound rs.upperBound ≠ [] := by
  obtain ⟨i, hi, hgot⟩ := hmissing
  constructor
  · rw [← Bool.not_eq_true]
    intro hfull
    obtain ⟨claim, hclaim, hlow, hhigh⟩ :=
      covered_of_fullyReceived h.total data.size_lt hfull (hi.trans_le hupper)
    rw [hclaims] at hclaim
    have hreceived := ReceptionTracker.received_iff.mpr ⟨claim, hclaim, hlow, hhigh⟩
    exact hgot ((hpeer.received i).mp hreceived)
  · intro hgaps
    have hcovered := (@covered_gapCuts key got peer upper data.bytes e.config.maxSegmentSize
      h.segmentSize hpeer i).mpr ⟨hi, hgot⟩
    rw [← hclaims, ← hbound, ← hlower, hgaps] at hcovered
    exact Chunks.not_covered_nil hcovered

/-- A report on a part of the block is answered with the pieces that are
missing, the last of them as a new checkpoint. -/
theorem Offers.resend (h : Offers e key data own)
    (hpeer : Holds key data.bytes got True peer) (hupper : upper.toNat ≤ data.bytes.length)
    (hmissing : ∃ i < upper.toNat, ¬ got i) (hmax : ¬ e.Exhausted own) :
    ∃ e' rs init last serial', e.receiveBytes (report peer serial upper).wire = .ok e' ∧
      e'.sentSince e.trace = (reportAck (report peer serial upper) rs).wire ::
        (init.map (plainSegment own) ++ [checkpointSegment own serial' last]).map
          LtpSegment.wire ∧
      init ++ [last] =
        gapCuts e.config.maxSegmentSize (computeGaps peer.receptionTracker.ranges 0 upper) ∧
      (∀ p ∈ init ++ [last], p.1 + p.2 ≤ data.bytes.length ∧ 0 < p.2) ∧
      (∀ i, Chunks.Covered (init ++ [last]) i ↔ i < upper.toNat ∧ ¬ got i) ∧
      (∃ own', Offers e' key data own' ∧
        own'.retransmissionCount = own.retransmissionCount + 1) ∧ Since e e' [] 1 := by
  obtain ⟨e', rs, hreceive, hclaims, hlower, hbound, hout⟩ := h.receive_report hpeer hupper
  obtain ⟨hnot, hne⟩ := h.leaves_gaps hpeer hupper hclaims hlower hbound hmissing
  have hpieces (i : Nat) :=
    @covered_gapCuts key got peer upper data.bytes e.config.maxSegmentSize h.segmentSize hpeer i
  rw [← hclaims, ← hbound, ← hlower] at hpieces
  cases hout with
  | complete hfull => cases hnot.symm.trans hfull
  | waiting _ hgaps => exact absurd hgaps hne
  | gaveUp _ _ hexhausted => exact absurd hexhausted hmax
  | resent _ hgaps _ segments marked hsegments hmarked heffect =>
      obtain ⟨init, last, hcuts, rfl⟩ := marked_eq hgaps hsegments hmarked
      rw [hcuts, hbound] at hpieces
      refine ⟨e', rs, init, last, own.checkpointSerialCounter + 1, hreceive, ?_, ?_,
        fun p hp => ?_, hpieces, ?_, ?_⟩
      · rw [heffect.sentSince, events_append, sends_append, sends_sent]
        rfl
      · rw [← hcuts, hclaims, hlower, hbound]
      · have hin := mem_gapCuts hsegments (hcuts ▸ hp)
        rwa [show (attempted own).clientData = data.bytes from h.clientData] at hin
      · obtain ⟨cpSerial, hown⟩ := checkpointed_eq (attempted own) segments
        refine ⟨checkpointed (attempted own) segments, ?_⟩
        have hlookup := heffect.lookup
        rw [hown] at hlookup ⊢
        have hoffers : Offers e' key data
            { attempted own with checkpointSerialCounter := cpSerial } :=
          { lookup := hlookup
            engineId := h.engineId.trans (congrArg _ heffect.config).symm
            stored := ⟨h.stored.engineId, h.stored.sessionNumber, h.stored.active⟩
            role := h.role
            clientData := h.clientData
            total := h.total
            segmentSize := heffect.config ▸ h.segmentSize }
        exact ⟨hoffers, rfl⟩
      · refine heffect.since ?_
        rw [events_append, upcalls_append, upcalls_sent]
        rfl

/-- With the budget used up, such a report is answered with a cancel segment,
and the session has failed. -/
theorem Offers.give_up (h : Offers e key data own)
    (hpeer : Holds key data.bytes got True peer) (hupper : upper.toNat ≤ data.bytes.length)
    (hmissing : ∃ i < upper.toNat, ¬ got i) (hmax : e.Exhausted own) :
    ∃ e' rs, e.receiveBytes (report peer serial upper).wire = .ok e' ∧
      e'.sentSince e.trace = [(reportAck (report peer serial upper) rs).wire,
        (cancelSegment .originator key 0x01).wire] ∧
      e'.sessions.lookup key = none ∧
      Since e e' [.sessionFailure key key.sessionNumber 0x01] 0 := by
  obtain ⟨e', rs, hreceive, hclaims, hlower, hbound, hout⟩ := h.receive_report hpeer hupper
  obtain ⟨hnot, hne⟩ := h.leaves_gaps hpeer hupper hclaims hlower hbound hmissing
  cases hout with
  | complete hfull => cases hnot.symm.trans hfull
  | waiting _ hgaps => exact absurd hgaps hne
  | gaveUp _ _ _ heffect =>
      rw [givingUp, h.role] at heffect
      exact ⟨e', rs, hreceive, heffect.sentSince, heffect.lookup, heffect.since rfl⟩
  | resent _ _ hroom => exact absurd hmax hroom

end Originator

end QpskB210.Ltp
