import QpskB210.Ltp.BlockTransfer
import QpskB210.Ltp.Partition

/-!
# LTP — Green delivery

A green block goes out once and is delivered when its last segment arrives,
with zeros where a segment was lost. `Patched` says what a reassembly buffer
holds of the block, whatever came in which order.
-/

namespace QpskB210.Ltp

open QpskB210.Lib LtpEngine

/-- The segment carries the byte at position `i`. -/
def LtpSegment.Covers (seg : LtpSegment) (i : Nat) : Prop :=
  ∃ ds, seg.content = .data ds ∧ ds.offset.toNat ≤ i ∧ i < ds.offset.toNat + ds.length.toNat

/-! ## The buffer -/

/-- The buffer has the block's bytes at the positions in `got`, and reads as
zero elsewhere. -/
structure Patched (block : List UInt8) (got : Nat → Prop) (buffer : List UInt8) : Prop where
  size : buffer.length ≤ block.length
  there : ∀ i, got i → buffer.getD i 0 = block.getD i 0
  missing : ∀ i, ¬ got i → buffer.getD i 0 = 0

/-- A slice read back: its own bytes inside, the buffer's outside, where the
buffer was extended by zeros. -/
theorem getD_spliced (buffer data : List UInt8) (offset i : Nat) :
    (spliced buffer offset data).getD i 0 =
      if offset ≤ i ∧ i < offset + data.length then data.getD (i - offset) 0
      else buffer.getD i 0 := by
  simp only [List.getD_eq_getElem?_getD]
  by_cases hin : offset ≤ i ∧ i < offset + data.length
  · rw [if_pos hin, getElem?_spliced_inside hin.1 hin.2]
  rw [if_neg hin]
  by_cases hlt : i < buffer.length
  · rcases Nat.lt_or_ge i offset with hbefore | hafter
    · rw [getElem?_spliced_of_lt hbefore hlt]
    · rw [getElem?_spliced_of_ge (by omega) hlt]
  · rw [List.getElem?_eq_none (Nat.not_lt.mp hlt)]
    by_cases hbefore : i < offset
    · -- behind the old end, before the slice
      rw [spliced, List.getElem?_append_left (by simp; omega), List.getElem?_take_of_lt hbefore,
        List.getElem?_append_right (Nat.not_lt.mp hlt), List.getElem?_replicate]
      split <;> rfl
    · rw [List.getElem?_eq_none (by rw [length_spliced]; omega)]

theorem patched_nil (block : List UInt8) : Patched block (fun _ => False) [] :=
  ⟨Nat.zero_le _, fun _ h => h.elim, fun _ _ => rfl⟩

theorem Patched.congr {block buffer : List UInt8} {got got' : Nat → Prop}
    (h : Patched block got buffer) (hgot : ∀ i, got i ↔ got' i) : Patched block got' buffer :=
  ⟨h.size, fun i hi => h.there i ((hgot i).mpr hi), fun i hi => h.missing i fun hg =>
    hi ((hgot i).mp hg)⟩

/-- A slice of the block adds its positions. -/
theorem Patched.spliced {block buffer : List UInt8} {got : Nat → Prop} {red : Bool} {type : UInt8}
    {ds : DataSegContent} (h : Patched block got buffer) (hc : Carries block red type ds) :
    Patched block
      (fun i => got i ∨ (ds.offset.toNat ≤ i ∧ i < ds.offset.toNat + ds.length.toNat))
      (spliced buffer ds.offset.toNat ds.data) where
  size := by
    have hsize := h.size
    have hin := hc.inside
    rw [length_spliced]
    omega
  there := by
    intro i hi
    rw [getD_spliced, ← hc.length]
    split
    · rename_i hin
      rw [List.getD_eq_getElem?_getD, List.getD_eq_getElem?_getD, hc.slice,
        List.getElem?_take_of_lt (by rw [← hc.length]; omega), List.getElem?_drop,
        Nat.add_sub_cancel' hin.1]
    · rename_i hout
      exact h.there i (hi.resolve_right hout)
  missing := by
    intro i hi
    rw [not_or] at hi
    rw [getD_spliced, ← hc.length, if_neg hi.2]
    exact h.missing i hi.1

/-- A patched buffer of the block's size, byte by byte. -/
theorem Patched.getElem? {block buffer : List UInt8} {got : Nat → Prop}
    (h : Patched block got buffer) (hlength : buffer.length = block.length) {i : Nat}
    (hi : i < block.length) :
    (got i → buffer[i]? = block[i]?) ∧ (¬ got i → buffer[i]? = some 0) := by
  have hbuffer : buffer[i]? = some (buffer.getD i 0) := by
    rw [List.getD_eq_getElem?_getD, List.getElem?_eq_getElem (by omega)]
    rfl
  have hblock : block[i]? = some (block.getD i 0) := by
    rw [List.getD_eq_getElem?_getD, List.getElem?_eq_getElem hi]
    rfl
  rw [hbuffer, hblock]
  exact ⟨fun hgot => congrArg some (h.there i hgot), fun hgot => congrArg some (h.missing i hgot)⟩

/-! ## The receiver -/

/-- A green segment of the session that carries a slice of the block. -/
structure GreenPiece (key : SessionKey) (block : List UInt8) (seg : LtpSegment)
    (ds : DataSegContent) : Prop where
  travels : seg.Travels
  key : segmentKey seg = key
  content : seg.content = .data ds
  carries : Carries block false seg.segmentType ds

theorem GreenPiece.covers_iff {key : SessionKey} {block : List UInt8} {seg : LtpSegment}
    {ds : DataSegContent} (h : GreenPiece key block seg ds) {i : Nat} :
    seg.Covers i ↔ ds.offset.toNat ≤ i ∧ i < ds.offset.toNat + ds.length.toNat := by
  refine ⟨fun hcovers => ?_, fun hin => ⟨ds, h.content, hin⟩⟩
  obtain ⟨ds', hds', hin⟩ := hcovers
  cases h.content.symm.trans hds'
  exact hin

/-- A segment of the session meets one whose buffer is patched. -/
def Fills (e : LtpEngine) (key : SessionKey) (block : List UInt8) (got : Nat → Prop) : Prop :=
  ∀ seg, segmentKey seg = key → ∃ session, e.Meets seg session ∧ session.state = .active ∧
    Patched block got session.clientData

section Receiver

variable {e : LtpEngine} {key : SessionKey} {block : List UInt8} {got : Nat → Prop}
  {seg : LtpSegment} {ds : DataSegContent}

theorem fills_new (hfree : e.isFull = false) (hnone : e.sessions.lookup key = none) :
    Fills e key block fun _ => False := by
  intro seg hseg
  exact ⟨receiverSession seg, .inr ⟨hseg ▸ hnone, hfree, rfl⟩, rfl, patched_nil block⟩

/-- What storing a green segment makes of the session it meets. -/
structure TakesIn (e : LtpEngine) (block : List UInt8) (got : Nat → Prop) (seg : LtpSegment)
    (ds : DataSegContent) (session stored : LtpSession) : Prop where
  meets : e.Meets seg session
  active : session.state = .active
  store : session.store seg.segmentType ds = .ok stored
  patched : Patched block (fun i => got i ∨ seg.Covers i) stored.clientData
  last : SegType.hasEob seg.segmentType = true → stored.clientData.length = block.length ∧
    stored.totalDataLength.toNat = block.length

theorem Fills.takesIn (h : Fills e key block got) (hp : GreenPiece key block seg ds)
    (hsize : block.length < 2 ^ 57) :
    ∃ session, TakesIn e block got seg ds session (stored session seg.segmentType ds) := by
  obtain ⟨session, hmeets, hactive, hpatched⟩ := h seg hp.key
  refine ⟨session, hmeets, hactive, store_carried hp.carries hsize,
    (hpatched.spliced hp.carries).congr fun i => or_congr_right hp.covers_iff.symm, fun heob => ?_⟩
  have hreach := hp.carries.eob heob
  have hle := hpatched.size
  refine ⟨?_, ?_⟩
  · show (spliced session.clientData ds.offset.toNat ds.data).length = _
    rw [length_spliced]
    omega
  · show (if SegType.hasEob seg.segmentType = true then ds.offset + ds.length else _).toNat = _
    rw [if_pos heob, hp.carries.toNat_end hsize, hreach]

/-- A green segment that arrives is taken in. -/
theorem TakesIn.receive {session stored : LtpSession}
    (h : TakesIn e block got seg ds session stored) (hp : GreenPiece key block seg ds) :
    ∃ e₁ e', Effect e e₁ key (some session) [] 0 ∧
      e₁.acceptData key session seg ds = .ok e' ∧ e.receiveBytes seg.wire = .ok e' := by
  have hcall : e.receiveBytes seg.wire = e.receiveDataSegment seg := by
    rw [receiveBytes_of_decode hp.travels.decode_wire, receiveSegment_data hp.carries.isData]
  obtain ⟨e₁, heffect, heq⟩ := receiveDataSegment_meets hp.content h.meets
  rw [hp.key] at heffect heq
  obtain ⟨e', haccept⟩ := @acceptData_returns_green e₁ key _ _ _ _ h.store hp.carries.isGreen
    fun heob => by rw [(h.last heob).1, (h.last heob).2]
  exact ⟨e₁, e', heffect, haccept, (hcall.trans heq).trans haccept⟩

/-- A segment before the last is stored in silence. -/
theorem Fills.receive_inner (h : Fills e key block got) (hp : GreenPiece key block seg ds)
    (heob : SegType.hasEob seg.segmentType = false) (hsize : block.length < 2 ^ 57) :
    ∃ e', e.receiveBytes seg.wire = .ok e' ∧ e'.trace = e.trace ∧
      Fills e' key block fun i => got i ∨ seg.Covers i := by
  obtain ⟨session, htakes⟩ := h.takesIn hp hsize
  obtain ⟨e₁, e', heffect, haccept, hreceive⟩ := htakes.receive hp
  obtain ⟨stored', hstore', hout⟩ := acceptData_outcome haccept htakes.active
  cases Except.ok.inj (htakes.store.symm.trans hstore')
  cases hout.after heffect with
  | quiet _ hquiet =>
      refine ⟨e', hreceive, hquiet.trace.trans (List.append_nil _), fun seg' hseg' => ?_⟩
      exact ⟨stored session seg.segmentType ds, .inl (hseg' ▸ hquiet.lookup), htakes.active,
        htakes.patched⟩
  | reported _ hcp =>
      rw [SegType.hasCheckpoint_of_isGreen hp.carries.isGreen] at hcp
      cases hcp
  | delivered _ _ heob' => cases heob.symm.trans heob'

/-- The last segment delivers the buffer, and removes the session. -/
theorem Fills.receive_last (h : Fills e key block got) (hp : GreenPiece key block seg ds)
    (heob : SegType.hasEob seg.segmentType = true) (hsize : block.length < 2 ^ 57) :
    ∃ e' data, e.receiveBytes seg.wire = .ok e' ∧
      e'.trace = e.trace ++ [.dataArrival key data] ∧ e'.sessions.lookup key = none ∧
      data.length = block.length ∧ Patched block (fun i => got i ∨ seg.Covers i) data := by
  obtain ⟨session, htakes⟩ := h.takesIn hp hsize
  obtain ⟨e₁, e', heffect, haccept, hreceive⟩ := htakes.receive hp
  obtain ⟨data, hdata, hdeliver⟩ :=
    acceptData_delivers haccept htakes.active htakes.store hp.carries.isGreen heob
  obtain ⟨hlength, htotal⟩ := htakes.last heob
  obtain ⟨-, -, rfl⟩ := assignRange_eq_ok.mp hdata
  have hall := heffect.trans hdeliver
  rw [htotal, ← hlength, List.drop_zero, Nat.sub_zero, List.take_length] at hall
  exact ⟨e', _, hreceive, hall.trace, hall.lookup, hlength, htakes.patched⟩

/-- Any segments before the last, in any order, are stored in silence. -/
theorem Fills.run_inner (h : Fills e key block got) (hsize : block.length < 2 ^ 57)
    {fed : List LtpSegment} (hfed : ∀ seg ∈ fed, SegType.hasEob seg.segmentType = false ∧
      ∃ ds, GreenPiece key block seg ds) :
    ∃ e', e.run (fed.map fun seg => .receive seg.wire) = .ok e' ∧ e'.trace = e.trace ∧
      Fills e' key block fun i => got i ∨ ∃ seg ∈ fed, seg.Covers i := by
  induction fed generalizing e got with
  | nil =>
      refine ⟨e, rfl, rfl, fun seg hseg => ?_⟩
      obtain ⟨session, hmeets, hactive, hpatched⟩ := h seg hseg
      exact ⟨session, hmeets, hactive, hpatched.congr fun i => by simp⟩
  | cons seg fed ih =>
      obtain ⟨heob, ds, hp⟩ := hfed seg (by simp)
      obtain ⟨e₁, hreceive, htrace, hfills⟩ := h.receive_inner hp heob hsize
      obtain ⟨e', hrun, htrace', hfills'⟩ := ih hfills fun s hs => hfed s (by simp [hs])
      refine ⟨e', bind_eq_ok.mpr ⟨e₁, hreceive, hrun⟩, htrace'.trans htrace, fun s hs => ?_⟩
      obtain ⟨session, hmeets, hactive, hpatched⟩ := hfills' s hs
      refine ⟨session, hmeets, hactive, hpatched.congr fun i => ?_⟩
      rw [or_assoc, List.exists_mem_cons_iff]

/-- A receiver with room delivers the block with its last segment. -/
theorem run_delivers (hroom : e.isFull = false) (hnone : e.sessions.lookup key = none)
    (hsize : block.length < 2 ^ 57) {fed : List LtpSegment}
    (hfed : ∀ seg ∈ fed, SegType.hasEob seg.segmentType = false ∧
      ∃ ds, GreenPiece key block seg ds)
    (hp : GreenPiece key block seg ds) (heob : SegType.hasEob seg.segmentType = true) :
    ∃ e₁ e₂ data, e.run (fed.map fun seg => .receive seg.wire) = .ok e₁ ∧
      e₁.trace = e.trace ∧ e₁.exec (.receive seg.wire) = .ok e₂ ∧
      e₂.trace = e.trace ++ [.dataArrival key data] ∧ e₂.sessions.lookup key = none ∧
      data.length = block.length ∧
      ∀ i < block.length,
        ((∃ s ∈ fed ++ [seg], s.Covers i) → data[i]? = block[i]?) ∧
        ((¬ ∃ s ∈ fed ++ [seg], s.Covers i) → data[i]? = some 0) := by
  obtain ⟨e₁, hrun, htrace, hfills⟩ := (fills_new hroom hnone).run_inner hsize hfed
  obtain ⟨e₂, data, hreceive, hdelivered, hgone, hlength, hpatched⟩ :=
    hfills.receive_last hp heob hsize
  refine ⟨e₁, e₂, data, hrun, htrace, hreceive, htrace ▸ hdelivered, hgone, hlength,
    fun i hi => ?_⟩
  have hgot (i : Nat) : ((False ∨ ∃ s ∈ fed, s.Covers i) ∨ seg.Covers i) ↔
      ∃ s ∈ fed ++ [seg], s.Covers i := by
    simp [or_and_right, exists_or]
  exact (hpatched.congr hgot).getElem? hlength hi

end Receiver

/-! ## The sender -/

section Sender

variable {session : LtpSession} {key : SessionKey} {maxSeg : UInt32} {p : Nat × Nat}
  {cpSerial : UInt64}

/-- The segments of a green session's block. -/
theorem blockSegment_greenPiece (hgreen : session.isRed = false) (hs : Stored key session)
    (hsize : session.clientData.length < 2 ^ 57) (hmax : maxSeg ≠ 0)
    (hp : p ∈ blockCuts maxSeg session.clientData.length) (cpSerial : UInt64) :
    ∃ ds, GreenPiece key session.clientData (blockSegment session cpSerial p) ds := by
  obtain ⟨hin, hempty⟩ := mem_blockCuts (.inr hmax) hp
  obtain ⟨ds, hds, hcarries⟩ := blockSegment_carries cpSerial hsize hin hempty
  obtain ⟨hid, hnumber⟩ := blockSegment_ids session cpSerial p
  rw [hgreen] at hcarries
  refine ⟨ds, blockSegment_travels cpSerial hin (by omega), ?_, hds, hcarries⟩
  rw [segmentKey, hid, hnumber, hs.engineId, hs.sessionNumber]

/-- Only the last of them ends the block. -/
theorem hasEob_blockSegment (hgreen : session.isRed = false) :
    SegType.hasEob (blockSegment session cpSerial p).segmentType =
      decide (p.1 + p.2 = session.clientData.length) := by
  by_cases hlast : p.1 + p.2 = session.clientData.length
  · rw [blockSegment_of_last hlast, LtpSession.lastType, hgreen]
    simp [LtpSession.dataSegment, hlast, SegType.hasEob, SegType.greenDataEob]
  · rw [blockSegment_of_inner hlast, LtpSession.innerType, hgreen]
    simp [LtpSession.dataSegment, hlast, SegType.hasEob, SegType.greenData]

/-- The segment of a piece covers the positions of the piece. -/
theorem blockSegment_covers (hin : p.1 + p.2 ≤ session.clientData.length)
    (hsize : session.clientData.length < 2 ^ 57) {i : Nat} (hi : p.1 ≤ i ∧ i < p.1 + p.2) :
    (blockSegment session cpSerial p).Covers i := by
  have hspan := span_sliceContent (hsize.trans (by decide)) hin
  rw [← hspan] at hi
  by_cases hlast : p.1 + p.2 = session.clientData.length
  · rw [blockSegment_of_last hlast]
    exact ⟨_, rfl, hi⟩
  · rw [blockSegment_of_inner hlast]
    exact ⟨_, rfl, hi⟩

/-- Every position of the block is in one of its pieces. -/
theorem blockCuts_covered (hmax : maxSeg ≠ 0) {size i : Nat} (hi : i < size) :
    Chunks.Covered (blockCuts maxSeg size) i := by
  rw [blockCuts, if_neg (by omega)]
  exact Chunks.exists_mem_cut (toNat32_pos hmax) le_rfl (Nat.zero_le i) (by omega)

end Sender

/-- **Green delivery.** A green block goes out in segments of which only the
last ends it. Whatever of the others arrives before the last, in whatever
order and however often: the block is delivered with the last, of its full
size, with zeros where no segment arrived. Nothing is sent back, and the
session is gone. -/
theorem green_delivery (a : LtpEngine) (block : Block) (hmax : 1 ≤ a.config.maxSegmentSize)
    (hfree : a.isFull = false)
    (hnew : a.sessions.lookup (a.localKey (a.sessionCounter + 1)) = none) :
    ∃ (a' : LtpEngine) (inner : List LtpSegment) (last : LtpSegment),
      a.startSession block false = .ok (a', a.sessionCounter + 1) ∧
      a'.trace = a.trace ++ (inner ++ [last]).map (fun seg => .sendSegment seg.wire) ∧
      SegType.hasEob last.segmentType = true ∧
      (∀ seg ∈ inner, SegType.hasEob seg.segmentType = false) ∧
      (∀ i < block.bytes.length, ∃ seg ∈ inner ++ [last], seg.Covers i) ∧
      ∀ (e : LtpEngine) (fed : List LtpSegment), (∀ seg ∈ fed, seg ∈ inner) →
        e.isFull = false → e.sessions.lookup (a.localKey (a.sessionCounter + 1)) = none →
        ∃ e₁ e₂ data, e.run (fed.map fun seg => .receive seg.wire) = .ok e₁ ∧
          e₁.trace = e.trace ∧ e₁.exec (.receive last.wire) = .ok e₂ ∧
          e₂.trace = e.trace ++ [.dataArrival (a.localKey (a.sessionCounter + 1)) data] ∧
          e₂.sessions.lookup (a.localKey (a.sessionCounter + 1)) = none ∧
          data.length = block.bytes.length ∧
          ∀ i < block.bytes.length,
            ((∃ seg ∈ fed ++ [last], seg.Covers i) → data[i]? = block.bytes[i]?) ∧
            ((¬ ∃ seg ∈ fed ++ [last], seg.Covers i) → data[i]? = some 0) := by
  have hne := ne_zero_of_one_le hmax
  obtain ⟨a', cpSerial, hstart, heffect⟩ := startSession_begins hfree hnew hne block false
  obtain ⟨session, hsession⟩ :
      ∃ session, a.originatorSession (a.sessionCounter + 1) block.bytes false = session := ⟨_, rfl⟩
  have hgreen : session.isRed = false := hsession ▸ rfl
  have hs : Stored (a.localKey (a.sessionCounter + 1)) session := hsession ▸ ⟨rfl, rfl, rfl⟩
  have hdata : session.clientData = block.bytes := hsession ▸ rfl
  have hsize : session.clientData.length < 2 ^ 57 := hdata ▸ block.size_lt
  rw [hsession, ← hdata] at heffect
  rw [← hdata]
  obtain ⟨init, last, hcuts, hlast, hinit⟩ :=
    @blockCuts_eq a.config.maxSegmentSize session.clientData.length (.inr hne)
  have hpiece {p : Nat × Nat} (hp : p ∈ init ++ [last]) :=
    blockSegment_greenPiece hgreen hs hsize hne (hcuts ▸ hp) 0
  have hinner : ∀ seg ∈ init.map (blockSegment session 0),
      SegType.hasEob seg.segmentType = false ∧
        ∃ ds, GreenPiece (a.localKey (a.sessionCounter + 1)) session.clientData seg ds := by
    intro seg hseg
    obtain ⟨p, hp, rfl⟩ := List.mem_map.mp hseg
    refine ⟨?_, hpiece (by simp [hp])⟩
    rw [hasEob_blockSegment hgreen, decide_eq_false_iff_not]
    exact (hinit p hp).ne
  have heob : SegType.hasEob (blockSegment session 0 last).segmentType = true := by
    rw [hasEob_blockSegment hgreen, decide_eq_true hlast]
  refine ⟨a', init.map (blockSegment session 0), blockSegment session 0 last, hstart, ?_, heob,
    fun seg hseg => (hinner seg hseg).1, fun i hi => ?_, ?_⟩
  · rw [heffect.trace, hcuts, events_map_send, List.map_append, List.map_singleton]
  · obtain ⟨p, hp, hin⟩ := blockCuts_covered hne hi
    have hend := (mem_blockCuts (.inr hne) hp).1
    refine ⟨blockSegment session 0 p, ?_, blockSegment_covers hend hsize hin⟩
    rw [← List.map_singleton, ← List.map_append, ← hcuts]
    exact List.mem_map_of_mem hp
  · intro e fed hfed hroom hnone
    obtain ⟨ds, hp⟩ := hpiece (List.mem_append_right init (List.mem_singleton_self last))
    exact run_delivers hroom hnone hsize (fun seg hseg => hinner seg (hfed seg hseg)) hp heob

/-- Three bytes in three segments; the second is lost, and the first comes
twice. -/
theorem green_delivery_oneLost :
    ∃ (a' : LtpEngine) (inner : List LtpSegment) (last : LtpSegment),
      (create { localEngineId := 1, maxSegmentSize := 1 } none).startSession
        ⟨[7, 8, 9], by decide⟩ false = .ok (a', 1) ∧
      ∃ e₁ e₂ data,
        (create { localEngineId := 2 } none).run ((inner.take 1 ++ inner.take 1).map fun seg =>
          .receive seg.wire) = .ok e₁ ∧
        e₁.exec (.receive last.wire) = .ok e₂ ∧ e₂.trace = [.dataArrival ⟨1, 1⟩ data] ∧
        data.length = 3 := by
  obtain ⟨a', inner, last, hstart, -, -, -, -, hdelivery⟩ :=
    green_delivery (create { localEngineId := 1, maxSegmentSize := 1 } none)
      ⟨[7, 8, 9], by decide⟩ (by decide) rfl rfl
  have hfed : ∀ seg ∈ inner.take 1 ++ inner.take 1, seg ∈ inner := by
    intro seg hseg
    rw [List.mem_append, or_self] at hseg
    exact List.mem_of_mem_take hseg
  obtain ⟨e₁, e₂, data, hrun, -, hlast, htrace, -, hlength, -⟩ :=
    hdelivery (create { localEngineId := 2 } none) _ hfed rfl rfl
  exact ⟨a', inner, last, hstart, e₁, e₂, data, hrun, hlast, htrace, hlength⟩

end QpskB210.Ltp
