import QpskB210.Ltp.BlockTransfer
import QpskB210.Ltp.RedTransfer

/-!
# LTP — Recovery

One round of retransmission recovers every loss. A run of the link without
timers has no choice at any step: the segments that got through reach the
receiver, whose report reaches the originator; if bytes are missing, their
pieces go out once more, and the next report is on the whole block. Each of
these phases is a `Leads` between two states of the link.
-/

namespace QpskB210.Ltp

open QpskB210.Lib LtpEngine

/-- B has a session with the bytes in `got` and the total length, and its
report on it is all that is in flight. -/
structure Reporting (key : SessionKey) (data : Block) (got : Nat → Prop) (own peer : LtpSession)
    (serial upper : UInt64) (link : Link) : Prop where
  offers : Offers link.a key data own
  held : link.b.sessions.lookup key = some (reported peer)
  holds : Holds key data.bytes got True peer
  inside : upper.toNat ≤ data.bytes.length
  toA : link.toA = [(report peer serial upper).wire]
  toB : link.toB = []

section Phases

variable {start : Link} {key : SessionKey} {data : Block} {got : Nat → Prop} {ended : Prop}
  {own peer : LtpSession} {serial upper : UInt64}

/-- Plain segments that are next in line are stored, one after the other. -/
theorem leads_plain {a b : LtpEngine} {rest : List (List UInt8)} {pieces : List (Nat × Nat)}
    (h : Awaits b key data.bytes got ended) (hs : Stored key own)
    (hdata : own.clientData = data.bytes)
    (hpieces : ∀ p ∈ pieces, p.1 + p.2 ≤ data.bytes.length ∧ 0 < p.2) :
    ∃ b', (Link.deliveries start).Leads
        { a := a, b := b, toB := (pieces.map (plainSegment own)).map LtpSegment.wire ++ rest }
        { a := a, b := b', toB := rest } ∧
      Since b b' [] 0 ∧
      Awaits b' key data.bytes (fun i => got i ∨ Chunks.Covered pieces i) ended := by
  induction pieces generalizing b got with
  | nil => exact ⟨b, .refl, .refl b, h.mono (fun i => by simp) id⟩
  | cons p pieces ih =>
      obtain ⟨hin, hpos⟩ := hpieces p (by simp)
      obtain ⟨ds, hp⟩ := plainSegment_piece hs hdata hin hpos
      obtain ⟨b₁, hreceive, hsent, hsince, hawaits⟩ := h.receive_plain hp rfl data.size_lt
      obtain ⟨b', hleads, hsince', hawaits'⟩ := ih hawaits fun q hq => hpieces q (by simp [hq])
      refine ⟨b', (Link.leads_b hreceive hsent).trans hleads, hsince.trans hsince', ?_⟩
      exact hawaits'.mono (fun i => by rw [Chunks.covered_cons, or_assoc]) id

/-- A checkpoint that comes in is answered with a report on the session. -/
theorem Awaits.reporting {a b : LtpEngine} {p : Nat × Nat} {seg : LtpSegment}
    {ds : DataSegContent} (h : Awaits b key data.bytes got ended) (ha : Offers a key data own)
    (hp : Piece key data.bytes p seg ds) (hcp : SegType.hasCheckpoint seg.segmentType = true)
    (hserial : ds.checkpointSerial = some serial)
    (hended : ended ∨ SegType.hasEob seg.segmentType = true)
    (hupper : (ds.offset + ds.length).toNat ≤ data.bytes.length) :
    ∃ b' peer, b.receiveBytes seg.wire = .ok b' ∧
      b'.sentSince b.trace = [(report peer serial (ds.offset + ds.length)).wire] ∧
      Since b b' [] 0 ∧
      Reporting key data (fun i => got i ∨ (p.1 ≤ i ∧ i < p.1 + p.2)) own peer serial
        (ds.offset + ds.length)
        { a := a, b := b', toA := [(report peer serial (ds.offset + ds.length)).wire] } := by
  obtain ⟨b', peer, hreceive, hsent, hsince, hlookup, hholds⟩ :=
    h.receive_checkpoint hp hcp hserial data.size_lt
  refine ⟨b', peer, hreceive, hsent, hsince, ?_⟩
  exact
    { offers := ha
      held := hlookup
      holds := hholds.mono (fun _ => .rfl) fun _ => hended
      inside := hupper
      toA := rfl
      toB := rfl }

/-- A report on the whole block completes the session, and its acknowledgment
delivers the block. -/
theorem Reporting.finish {link : Link} (h : Reporting key data got own peer serial upper link)
    (hall : ∀ i < data.bytes.length, got i) :
    ∃ a' rs b', link.a.receiveBytes (report peer serial upper).wire = .ok a' ∧
      a'.sentSince link.a.trace = [(reportAck (report peer serial upper) rs).wire] ∧
      link.b.receiveBytes (reportAck (report peer serial upper) rs).wire = .ok b' ∧
      b'.sentSince link.b.trace = [] ∧
      a'.sessions.lookup key = none ∧ b'.sessions.lookup key = none ∧
      Since link.a a' [.sessionComplete key key.sessionNumber] 0 ∧
      Since link.b b' [.dataArrival key data.bytes] 0 := by
  obtain ⟨a', rs, hreceive, hsent, hgone, hsince⟩ := h.offers.complete h.holds h.inside hall
  obtain ⟨b', hack, hnone, ⟨-, hgone', hsince'⟩ | ⟨⟨i, hi, hgot⟩, -⟩⟩ :=
    @receive_reportAck link.b key data.bytes got (reported peer) peer serial upper rs
      h.holds.stored h.held h.holds.reported
  · exact ⟨a', rs, b', hreceive, hsent, hack, hnone, hgone, hgone', hsince, hsince'⟩
  · exact absurd (hall i hi) hgot

/-- A report that leaves gaps is answered with their pieces, and its
acknowledgment finds an incomplete session. -/
theorem Reporting.resume {link : Link} (h : Reporting key data got own peer serial upper link)
    (hmissing : ∃ i < upper.toNat, ¬ got i) (hmax : ¬ link.a.Exhausted own) :
    ∃ a' rs b' init last serial',
      link.a.receiveBytes (report peer serial upper).wire = .ok a' ∧
      a'.sentSince link.a.trace = (reportAck (report peer serial upper) rs).wire ::
        (init.map (plainSegment own) ++ [checkpointSegment own serial' last]).map
          LtpSegment.wire ∧
      link.b.receiveBytes (reportAck (report peer serial upper) rs).wire = .ok b' ∧
      b'.sentSince link.b.trace = [] ∧
      init ++ [last] =
        gapCuts link.a.config.maxSegmentSize
          (computeGaps peer.receptionTracker.ranges 0 upper) ∧
      (∀ p ∈ init ++ [last], p.1 + p.2 ≤ data.bytes.length ∧ 0 < p.2) ∧
      (∀ i, Chunks.Covered (init ++ [last]) i ↔ i < upper.toNat ∧ ¬ got i) ∧
      (∃ own', Offers a' key data own' ∧
        own'.retransmissionCount = own.retransmissionCount + 1) ∧
      Awaits b' key data.bytes got True ∧ Since link.a a' [] 1 ∧ Since link.b b' [] 0 := by
  obtain ⟨a', rs, init, last, serial', hreceive, hsent, hcuts, hpieces, hcovered, hown, hsince⟩ :=
    h.offers.resend h.holds h.inside hmissing hmax
  obtain ⟨b', hack, hnone, ⟨hall, -⟩ | ⟨-, hheld, hsince'⟩⟩ :=
    @receive_reportAck link.b key data.bytes got (reported peer) peer serial upper rs
      h.holds.stored h.held h.holds.reported
  · obtain ⟨i, hi, hgot⟩ := hmissing
    exact absurd (hall i (hi.trans_le h.inside)) hgot
  · exact ⟨a', rs, b', init, last, serial', hreceive, hsent, hack, hnone, hcuts, hpieces, hcovered,
      hown, awaits_of_lookup hheld h.holds.reported, hsince, hsince'⟩

/-- **Completion.** A report on the whole block ends the session on both
sides. -/
theorem Reporting.completes {link : Link} (h : Reporting key data got own peer serial upper link)
    (hall : ∀ i < data.bytes.length, got i) :
    ∃ link', (Link.deliveries start).Leads link link' ∧ link'.Quiet ∧
      link'.a.sessions.lookup key = none ∧ link'.b.sessions.lookup key = none ∧
      Since link.a link'.a [.sessionComplete key key.sessionNumber] 0 ∧
      Since link.b link'.b [.dataArrival key data.bytes] 0 := by
  obtain ⟨a', rs, b', hreceive, hsent, hack, hnone, hgone, hgone', hsince, hsince'⟩ :=
    h.finish hall
  obtain ⟨a, b, toA, toB⟩ := link
  obtain ⟨-, -, -, -, htoA, htoB⟩ := h
  dsimp only at htoA htoB
  subst htoA htoB
  exact ⟨_, (Link.leads_a hreceive hsent).trans (Link.leads_b hack hnone), ⟨rfl, rfl⟩, hgone,
    hgone', hsince, hsince'⟩

/-- **Retransmission.** A report on a part of the block leads to one on the
whole block. -/
theorem Reporting.resends {link : Link} (h : Reporting key data got own peer serial upper link)
    (hwhole : upper.toNat = data.bytes.length) (hmissing : ∃ i < data.bytes.length, ¬ got i)
    (hmax : ¬ link.a.Exhausted own) :
    ∃ link' own' peer' serial' upper' got', (Link.deliveries start).Leads link link' ∧
      Reporting key data got' own' peer' serial' upper' link' ∧
      (∀ i < data.bytes.length, got' i) ∧ Since link.a link'.a [] 1 ∧
      Since link.b link'.b [] 0 := by
  obtain ⟨a', rs, b₁, init, last, serial', hreceive, hsent, hack, hnone, -, hpieces, hcovered,
    ⟨own', hown', -⟩, hawaits, hsince, hsince₁⟩ := h.resume (by rwa [hwhole]) hmax
  obtain ⟨a, b, toA, toB⟩ := link
  obtain ⟨hown, -, -, -, htoA, htoB⟩ := h
  dsimp only at hown htoA htoB
  subst htoA htoB
  obtain ⟨b₂, hleads₂, hsince₂, hawaits₂⟩ := @leads_plain start key data got True own a' b₁
    [(checkpointSegment own serial' last).wire] init hawaits hown.stored hown.clientData
    fun p hp => hpieces p (by simp [hp])
  obtain ⟨hin, hpos⟩ := hpieces last (by simp)
  obtain ⟨ds, hp, hserial, hend⟩ :=
    checkpointSegment_piece hown.stored hown.clientData serial' hin hpos
  obtain ⟨b₃, peer', hreceive₃, hsent₃, hsince₃, hreporting⟩ :=
    @Awaits.reporting key data _ True own' serial' a' b₂ last _ ds hawaits₂ hown' hp rfl
      hserial (.inl trivial) hend
  refine ⟨_, own', peer', serial', _, _, ?_, hreporting, fun i hi => ?_, hsince,
    hsince₁.trans (hsince₂.trans hsince₃)⟩
  · refine ((Link.leads_a hreceive hsent).trans (Link.leads_b hack hnone)).trans ?_
    rw [List.map_append]
    exact hleads₂.trans (Link.leads_b hreceive₃ hsent₃)
  · -- what was there and what was sent again make up the block
    by_cases hgot : got i
    · exact .inl (.inl hgot)
    · have hboth := (hcovered i).mpr ⟨hwhole ▸ hi, hgot⟩
      rw [Chunks.covered_append, Chunks.covered_cons] at hboth
      rcases hboth with hinit | hlast | hnil
      · exact .inl (.inr hinit)
      · exact .inr hlast
      · exact absurd hnil Chunks.not_covered_nil

/-- The first position of a piece that was lost is in no piece that got
through. -/
theorem not_covered_survivors {lost : Finset Nat} {pieces : List (Nat × Nat)}
    (hapart : pieces.Pairwise fun p q => p.1 + p.2 ≤ q.1) {k : Nat} {p : Nat × Nat} (hk : k ∈ lost)
    (hp : pieces[k]? = some p) (hpos : 0 < p.2) :
    ¬ Chunks.Covered (survivors lost 0 pieces) p.1 := by
  intro hcovered
  obtain ⟨q, hq, hlow, hhigh⟩ := hcovered
  obtain ⟨j, hj, hq⟩ := mem_survivors.mp hq
  rw [Nat.zero_add] at hj
  obtain ⟨hkl, rfl⟩ := List.getElem?_eq_some_iff.mp hp
  obtain ⟨hjl, rfl⟩ := List.getElem?_eq_some_iff.mp hq
  rw [List.pairwise_iff_getElem] at hapart
  rcases Nat.lt_trichotomy j k with hlt | rfl | hlt
  · have := hapart j k hjl hkl hlt
    omega
  · exact hj hk
  · have := hapart k j hkl hjl hlt
    omega

/-- Without a loss every byte gets through, and with one not every byte
does. -/
theorem covered_iff_no_loss {maxSeg : UInt32} {size : Nat} {lost : Finset Nat}
    (hmax : maxSeg ≠ 0) (hlost : ∀ i ∈ lost, i + 1 < (blockCuts maxSeg size).length) :
    (∀ i < size, Chunks.Covered (survivors lost 0 (blockCuts maxSeg size)) i) ↔ lost = ∅ := by
  have hpos := toNat32_pos hmax
  rw [blockCuts] at hlost ⊢
  by_cases hzero : size = 0
  · rw [if_pos hzero, List.length_singleton] at hlost
    refine iff_of_true (fun i hi => by omega) (Finset.eq_empty_of_forall_notMem fun i hi => ?_)
    have := hlost i hi
    omega
  · rw [if_neg hzero] at hlost ⊢
    constructor
    · intro hall
      by_contra hne
      obtain ⟨k, hk⟩ := Finset.nonempty_iff_ne_empty.mpr hne
      have hbound := hlost k hk
      have hp := List.getElem?_eq_getElem (Nat.lt_of_succ_lt hbound)
      have hmem := List.mem_of_getElem? hp
      have hlength := Chunks.pos_of_mem_cut hpos hmem
      have hin := Chunks.mem_cut hmem
      exact not_covered_survivors Chunks.cut_apart hk hp hlength (hall _ (by omega))
    · intro hnone i hi
      rw [hnone, survivors_empty]
      exact Chunks.exists_mem_cut hpos le_rfl (Nat.zero_le i) (by omega)

/-- **Transmission.** What gets through of the block's segments leads to a
report on its pieces. -/
theorem leads_report {a b : LtpEngine} {lost : Finset Nat} (ha : Offers a key data own)
    (hred : own.isRed = true) (hb : Awaits b key data.bytes (fun _ => False) False)
    (hlost : ∀ i ∈ lost,
      i + 1 < (blockCuts a.config.maxSegmentSize data.bytes.length).length) :
    ∃ link peer serial upper,
      (Link.deliveries start).Leads
        { a := a, b := b
          toB := survivors lost 0 (((blockCuts a.config.maxSegmentSize data.bytes.length).map
            (blockSegment own 0)).map LtpSegment.wire) } link ∧
      Reporting key data (Chunks.Covered
        (survivors lost 0 (blockCuts a.config.maxSegmentSize data.bytes.length)))
        own peer serial upper link ∧
      upper.toNat = data.bytes.length ∧ link.a = a ∧ Since b link.b [] 0 := by
  have hcuttable : data.bytes.length = 0 ∨ a.config.maxSegmentSize ≠ 0 := .inr ha.segmentSize
  have hmem {p : Nat × Nat} (hp : p ∈ blockCuts a.config.maxSegmentSize data.bytes.length) :=
    mem_blockCuts hcuttable hp
  obtain ⟨init, last, hcuts, hend, hinner⟩ := blockCuts_eq hcuttable
  rw [hcuts] at hlost hmem ⊢
  -- the last segment gets through
  have hlast : survivors lost 0 (init ++ [last]) = survivors lost 0 init ++ [last] := by
    rw [survivors_append, survivors, if_neg fun hmem => ?_, survivors]
    have := hlost _ hmem
    rw [List.length_append, List.length_singleton] at this
    omega
  have hkept {p : Nat × Nat} (hp : p ∈ survivors lost 0 init) : p ∈ init := by
    obtain ⟨i, -, hi⟩ := mem_survivors.mp hp
    exact List.mem_of_getElem? hi
  have hplain : (survivors lost 0 init).map (blockSegment own 0) =
      (survivors lost 0 init).map (plainSegment own) := by
    refine List.map_congr_left fun p hp => blockSegment_inner 0 hred ?_
    rw [ha.clientData]
    exact hinner p (hkept hp)
  have hpieces : ∀ p ∈ survivors lost 0 init, p.1 + p.2 ≤ data.bytes.length ∧ 0 < p.2 := by
    intro p hp
    have hin := hinner p (hkept hp)
    have hempty := (hmem (List.mem_append_left _ (hkept hp))).2
    omega
  obtain ⟨b₁, hleads₁, hsince₁, hawaits₁⟩ := @leads_plain start key data _ False own a b
    [(blockSegment own 0 last).wire] _ hb ha.stored ha.clientData hpieces
  obtain ⟨ds, hp, htype, hserial, hupper⟩ :=
    blockSegment_last ha.stored ha.clientData hred 0 hend (hmem (by simp)).2
  obtain ⟨b₂, peer, hreceive, hsent, hsince₂, hreporting⟩ :=
    @Awaits.reporting key data _ False own _ a b₁ last _ ds hawaits₁ ha hp
      (by rw [htype]; rfl) hserial (.inr (by rw [htype]; rfl)) hupper.le
  refine ⟨_, peer, _, _, ?_, { hreporting with holds := ?_ }, hupper, rfl, hsince₁.trans hsince₂⟩
  · rw [survivors_map, survivors_map, hlast, List.map_append, List.map_append, hplain]
    exact hleads₁.trans (Link.leads_b hreceive hsent)
  · exact hreporting.holds.mono (fun i => by rw [hlast]; simp) id

end Phases

/-! ## The theorem -/

/-- How the link ends: the session is over on both sides, each client was
told once, and A resent at most once. -/
structure Recovered (a b : LtpEngine) (data : Block) (sn : UInt64) (lost : Finset Nat)
    (link : Link) : Prop where
  completed : upcalls link.a.trace = upcalls a.trace ++ [.sessionComplete (a.localKey sn) sn]
  arrived : upcalls link.b.trace = upcalls b.trace ++ [.dataArrival (a.localKey sn) data.bytes]
  closedA : link.a.sessions.lookup (a.localKey sn) = none
  closedB : link.b.sessions.lookup (a.localKey sn) = none
  retransmissions : link.a.diagnostics.retransmissions =
    a.diagnostics.retransmissions + if lost = ∅ then 0 else 1

/-- **One-round recovery.** Whatever segments but the last are lost of the
first transmission of a red block, the link gets quiet, and has then
recovered. -/
theorem one_round_recovery (a b : LtpEngine) (data : Block) (ha : a.sessions = ∅)
    (hb : b.sessions = ∅) (hsize : 1 ≤ a.config.maxSegmentSize)
    (hroomA : 1 ≤ a.config.maxConcurrentSessions) (hroomB : 1 ≤ b.config.maxConcurrentSessions)
    (hbudget : 1 ≤ a.config.maxRetransmissions) :
    ∃ a' sn, a.startSession data true = .ok (a', sn) ∧
      ∀ lost : Finset Nat, (∀ i ∈ lost, i + 1 < (a'.sentSince a.trace).length) →
        let start : Link := { a := a', b := b, toB := survivors lost 0 (a'.sentSince a.trace) }
        (Link.deliveries start).Inevitable Link.Quiet start ∧
          ∀ link, (Link.deliveries start).Reachable System.free link → link.Quiet →
            Recovered a b data sn lost link := by
  obtain ⟨a', sn, own, hstart, hoffers, hred, hcount, hsince, hsent⟩ :=
    @startSession_offers a data ha hroomA hsize
  refine ⟨a', sn, hstart, fun lost hlost => ?_⟩
  have hlost' : ∀ i ∈ lost,
      i + 1 < (blockCuts a'.config.maxSegmentSize data.bytes.length).length := by
    rw [hsince.config]
    simpa [hsent] using hlost
  rw [hsent, ← hsince.config]
  intro start
  obtain ⟨link₁, peer, serial, upper, hleads, hreporting, hupper, hsame, hsinceB⟩ :=
    @leads_report start (a.localKey sn) data own a' b lost hoffers hred (awaits_new hb hroomB) hlost'
  have hcovered := covered_iff_no_loss hoffers.segmentSize hlost'
  -- with a loss, one round of retransmission comes first
  obtain ⟨link₂, own', peer', serial', upper', got, hleads', hreporting', hall, hsinceA', hsinceB'⟩ :
      ∃ link₂ own' peer' serial' upper' got, (Link.deliveries start).Leads link₁ link₂ ∧
        Reporting (a.localKey sn) data got own' peer' serial' upper' link₂ ∧
        (∀ i < data.bytes.length, got i) ∧
        Since link₁.a link₂.a [] (if lost = ∅ then 0 else 1) ∧ Since link₁.b link₂.b [] 0 := by
    by_cases hnone : lost = ∅
    · rw [if_pos hnone]
      exact ⟨link₁, own, peer, serial, upper, _, .refl, hreporting, hcovered.mpr hnone, .refl _,
        .refl _⟩
    · rw [if_neg hnone]
      have hmissing : ∃ i < data.bytes.length, ¬ Chunks.Covered
          (survivors lost 0 (blockCuts a'.config.maxSegmentSize data.bytes.length)) i := by
        by_contra hno
        refine hnone (hcovered.mp fun i hi => ?_)
        by_contra hgot
        exact hno ⟨i, hi, hgot⟩
      have hmax : ¬ link₁.a.Exhausted own := by
        rw [Exhausted, hcount, hsame, hsince.config]
        exact UInt8.not_lt.mpr hbudget
      exact hreporting.resends hupper hmissing hmax
  obtain ⟨link₃, hleads'', hquiet, hgoneA, hgoneB, hdoneA, hdoneB⟩ := hreporting'.completes hall
  have hsinceA := hsince.trans ((hsame ▸ hsinceA').trans hdoneA)
  have hsinceB := hsinceB.trans (hsinceB'.trans hdoneB)
  obtain ⟨hinevitable, honly⟩ :=
    Link.quiet_of_leads ((hleads.trans hleads').trans hleads'') hquiet
  refine ⟨hinevitable, fun link hreach hdone => ?_⟩
  rw [honly link hreach hdone]
  exact
    { completed := hsinceA.upcalls
      arrived := hsinceB.upcalls
      closedA := hgoneA
      closedB := hgoneB
      retransmissions := by
        rw [hsinceA.retransmissions, UInt64.zero_add, UInt64.add_zero] }

/-- The first of two segments is lost. -/
theorem one_round_recovery_firstByte :
    ∃ a' sn, (LtpEngine.create (nodeConfig 1 1) none).startSession twoBytesBlock true =
        .ok (a', sn) ∧
      (a'.sentSince []).length = 2 ∧
      ∃ link, Recovered (LtpEngine.create (nodeConfig 1 1) none)
        (LtpEngine.create (nodeConfig 2 1) none) twoBytesBlock sn {0} link := by
  obtain ⟨a', sn, hstart, hrecovers⟩ := one_round_recovery
    (LtpEngine.create (nodeConfig 1 1) none) (LtpEngine.create (nodeConfig 2 1) none) twoBytesBlock
    rfl rfl (by decide) (by decide) (by decide) (by decide)
  have hlength : ((LtpEngine.create (nodeConfig 1 1) none).startSession twoBytesBlock true).toOption.map
      (fun result => (result.1.sentSince []).length) = some 2 := by decide +kernel
  rw [hstart] at hlength
  have htwo : (a'.sentSince []).length = 2 := Option.some.inj hlength
  obtain ⟨hinevitable, hrecovered⟩ := hrecovers {0} fun i hi => by
    rw [Finset.mem_singleton.mp hi]
    exact lt_of_lt_of_eq (by decide) htwo.symm
  obtain ⟨link, hpath, hquiet⟩ := hinevitable.exists_path
  exact ⟨a', sn, hstart, htwo, link, hrecovered link ⟨_, rfl, hpath⟩ hquiet⟩

end QpskB210.Ltp
