import QpskB210.Lib.Alignment
import QpskB210.Ltp.ReceivedBytes
import QpskB210.Ltp.Recovery
import QpskB210.Ltp.RetransmissionBudget

/-!
# LTP — Recovery on a lossy link

A link whose channel to B may lose any red segment that is no checkpoint, in
a retransmission as well as at first. Only whole pieces of the block are ever
missing, and a retransmission cuts what is missing into the same pieces
again. Its checkpoint is one of them and is not lost; so each round leaves
fewer missing than the one before, and either the block arrives or the
retransmissions run out.
-/

namespace QpskB210.Ltp

open QpskB210.Lib LtpEngine Finset

/-! ## The lossy link -/

/-- A red data segment that is no checkpoint. -/
def isPlain (bytes : List UInt8) : Bool :=
  match LtpSegment.decode bytes with
  | .ok (some seg) => seg.segmentType = SegType.redData
  | _ => false

theorem isPlain_wire {seg : LtpSegment} (h : seg.Travels) :
    isPlain seg.wire = decide (seg.segmentType = SegType.redData) := by
  rw [isPlain, h.decode_wire]

theorem isPlain_reportAck (seg : LtpSegment) (rs : ReportSegContent) :
    isPlain (reportAck seg rs).wire = false := by
  rw [isPlain_wire (reportAck_travels seg rs)]
  rfl

namespace Link

/-- The channel to B loses its oldest segment, if it is a plain one. -/
def lose (link : Link) : Option Link :=
  match link.toB with
  | [] => none
  | bytes :: rest => if isPlain bytes then some { link with toB := rest } else none

/-- A side takes in a segment, or one is lost. -/
def lossyExec (link : Link) : Option Side → Option Link
  | some side => link.exec side
  | none => link.lose

/-- The runs of a lossy link from a given state. -/
def lossy (start : Link) : System Link (Option Side) where
  init link := link = start
  step link action link' := link.lossyExec action = some link'

variable {start link : Link} {P : Link → Prop}

theorem Quiet.stuck_lossy (h : link.Quiet) (action : Option Side) (link' : Link) :
    ¬ (lossy start).step link action link' := by
  intro hstep
  cases action with
  | none =>
      replace hstep : link.lose = some link' := hstep
      rw [lose, h.2] at hstep
      cases hstep
  | some side => exact @Quiet.stuck start link h side link' hstep

/-- The oldest segment in flight to B is taken in, or lost if it is plain. -/
theorem inevitable_b {a b b' : LtpEngine} {bytes : List UInt8} {rest sent : List (List UInt8)}
    (hreceive : b.receiveBytes bytes = .ok b') (hsent : b'.sentSince b.trace = sent)
    (hlost : isPlain bytes = true → (lossy start).Inevitable P { a := a, b := b, toB := rest })
    (h : (lossy start).Inevitable P { a := a, b := b', toA := sent, toB := rest }) :
    (lossy start).Inevitable P { a := a, b := b, toB := bytes :: rest } := by
  have hexec : exec { a := a, b := b, toB := bytes :: rest } .b =
      some { a := a, b := b', toA := sent, toB := rest } := by
    rw [exec]
    dsimp only
    rw [hreceive, ← hsent]
    rfl
  refine .later ⟨some .b, _, hexec⟩ fun action link' hstep => ?_
  cases action with
  | none =>
      replace hstep : lose { a := a, b := b, toB := bytes :: rest } = some link' := hstep
      rw [lose] at hstep
      dsimp only at hstep
      split at hstep
      · rename_i hplain
        cases hstep
        exact hlost hplain
      · cases hstep
  | some side =>
      cases side with
      | a => cases hstep
      | b =>
          cases hexec.symm.trans hstep
          exact h

/-- With nothing on the way to B, the oldest segment in flight to A is taken
in. -/
theorem inevitable_a {a a' b : LtpEngine} {bytes : List UInt8} {rest sent : List (List UInt8)}
    (hreceive : a.receiveBytes bytes = .ok a') (hsent : a'.sentSince a.trace = sent)
    (h : (lossy start).Inevitable P { a := a', b := b, toA := rest, toB := sent }) :
    (lossy start).Inevitable P { a := a, b := b, toA := bytes :: rest } := by
  have hexec : exec { a := a, b := b, toA := bytes :: rest } .a =
      some { a := a', b := b, toA := rest, toB := sent } := by
    rw [exec]
    dsimp only
    rw [hreceive, ← hsent]
    rfl
  refine .later ⟨some .a, _, hexec⟩ fun action link' hstep => ?_
  cases action with
  | none => cases hstep
  | some side =>
      cases side with
      | a =>
          cases hexec.symm.trans hstep
          exact h
      | b => cases hstep

end Link

/-! ## Cancelling -/

section Cancelling

variable {e : LtpEngine} {key : SessionKey} {session : LtpSession}

theorem receiveCancelSegment_returns {seg : LtpSegment} {cc : CancelContent}
    (hcc : seg.content = .cancel cc) : ∃ e', e.receiveCancelSegment seg = .ok e' := by
  obtain ⟨e₁, hsend⟩ := sendSegment_returns
    (e.count fun d => { d with cancelSegmentsReceived := d.cancelSegmentsReceived + 1 })
    (cancelAck_travels seg)
  cases hlookup : e₁.sessions.lookup (segmentKey seg) with
  | none =>
      refine ⟨e₁, bind_eq_ok.mpr ⟨cc, by rw [hcc]; rfl, bind_eq_ok.mpr ⟨e₁, hsend, ?_⟩⟩⟩
      dsimp only
      rw [show e₁.sessions.lookup ⟨seg.engineId, seg.sessionNumber⟩ = none from hlookup]
      rfl
  | some session =>
      refine ⟨((e₁.count fun d => { d with sessionsCancelled := d.sessionsCancelled + 1 }).emit
        (.sessionFailure (segmentKey seg) session.sessionNumber cc.reasonCode)).eraseSession
          (segmentKey seg), bind_eq_ok.mpr ⟨cc, by rw [hcc]; rfl, bind_eq_ok.mpr ⟨e₁, hsend, ?_⟩⟩⟩
      dsimp only
      rw [show e₁.sessions.lookup ⟨seg.engineId, seg.sessionNumber⟩ = some session from hlookup]
      rfl

/-- A cancel segment of its peer ends a session. -/
theorem receive_cancel (reason : UInt8) (hlookup : e.sessions.lookup key = some session)
    (hs : Stored key session) :
    ∃ e', e.receiveBytes (cancelSegment .originator key reason).wire = .ok e' ∧
      e'.sentSince e.trace = [(cancelAck (cancelSegment .originator key reason)).wire] ∧
      e'.sessions.lookup key = none ∧
      Since e e' [.sessionFailure key key.sessionNumber reason] 0 := by
  have hcall : e.receiveBytes (cancelSegment .originator key reason).wire =
      e.receiveCancelSegment (cancelSegment .originator key reason) := by
    rw [receiveBytes_of_decode (cancelSegment_travels .originator key reason).decode_wire,
      receiveSegment, cancelSegment]
    rfl
  obtain ⟨e', hreturns⟩ := @receiveCancelSegment_returns e
    (cancelSegment .originator key reason) { reasonCode := reason } rfl
  obtain ⟨cc, hcc, heffect⟩ := receiveCancelSegment_cases hreturns
  rw [show segmentKey (cancelSegment .originator key reason) = key from rfl, hlookup] at heffect
  dsimp only at heffect
  cases hcc
  rw [hs.sessionNumber] at heffect
  exact ⟨e', hcall.trans hreturns, heffect.sentSince, heffect.lookup, heffect.since rfl⟩

/-- Its acknowledgment finds no session any more. -/
theorem receive_cancelAck (reason : UInt8) (hgone : e.sessions.lookup key = none) :
    e.receiveBytes (cancelAck (cancelSegment .originator key reason)).wire = .ok e := by
  rw [receiveBytes_of_decode (cancelAck_travels (cancelSegment .originator key reason)).decode_wire,
    show e.receiveSegment (cancelAck (cancelSegment .originator key reason)) =
      .ok (e.receiveCancelAck (cancelAck (cancelSegment .originator key reason))) from rfl,
    receiveCancelAck_effect]
  intro session hlookup
  cases hgone.symm.trans hlookup

end Cancelling

/-! ## One round -/

/-- The number of segments a block is cut into. -/
def segmentCount (maxSeg : UInt32) (data : Block) : Nat :=
  (blockCuts maxSeg data.bytes.length).length

/-- How a transfer ends that began where the engines were `a` and `b`. -/
inductive Settled (a b : LtpEngine) (key : SessionKey) (data : Block) (link : Link) : Prop where
  | arrived (rounds : Nat) (hrounds : rounds < segmentCount a.config.maxSegmentSize data)
      (hbudget : a.config.maxRetransmissions ≠ 255 → rounds ≤ a.config.maxRetransmissions.toNat)
      (hgoneA : link.a.sessions.lookup key = none) (hgoneB : link.b.sessions.lookup key = none)
      (hA : Since a link.a [.sessionComplete key key.sessionNumber] (UInt64.ofNat rounds))
      (hB : Since b link.b [.dataArrival key data.bytes] 0)
  | failed (rounds : Nat) (hrounds : rounds + 1 < segmentCount a.config.maxSegmentSize data)
      (hbudget : rounds = a.config.maxRetransmissions.toNat)
      (hmax : a.config.maxRetransmissions ≠ 255)
      (hgoneA : link.a.sessions.lookup key = none) (hgoneB : link.b.sessions.lookup key = none)
      (hA : Since a link.a [.sessionFailure key key.sessionNumber 0x01] (UInt64.ofNat rounds))
      (hB : Since b link.b [.sessionFailure key key.sessionNumber 0x01] 0)

section Rounds

variable {start : Link} {key : SessionKey} {data : Block} {got : Nat → Prop} {ended : Prop}
  {own peer : LtpSession} {serial upper : UInt64}

/-- The pieces that are cut for a report are pieces of the block, if only such
are missing. -/
theorem isChunk_of_gapCuts {maxSeg : UInt32} (hmax : maxSeg ≠ 0)
    (h : Holds key data.bytes got True peer) (hupper : upper.toNat ≤ data.bytes.length)
    (hbelow : ∀ i < data.bytes.length, ¬ got i → i < upper.toNat)
    (haligned : Chunks.Aligned maxSeg.toNat data.bytes.length got) {p : Nat × Nat}
    (hp : p ∈ gapCuts maxSeg (computeGaps peer.receptionTracker.ranges 0 upper)) :
    Chunks.IsChunk maxSeg.toNat data.bytes.length p := by
  obtain ⟨gap, hgap, hcut⟩ := List.mem_flatMap.mp hp
  have hinv := h.reassembles.tracker
  have hnormal : Intervals.Normal (ReceptionTracker.intervals
      (computeGaps peer.receptionTracker.ranges 0 upper)) := by
    rw [show computeGaps peer.receptionTracker.ranges 0 upper =
      ReceptionTracker.gapsFrom upper 0 peer.receptionTracker.ranges from rfl,
      (ReceptionTracker.intervals_gapsFrom hinv.noWrap).1]
    exact Intervals.normal_gaps hinv.normal.pos
  have hcovers (i : Nat) : Intervals.Covers (ReceptionTracker.intervals
      (computeGaps peer.receptionTracker.ranges 0 upper)) i ↔
        i < data.bytes.length ∧ ¬ got i := by
    rw [covers_computeGaps h]
    exact ⟨fun hi => ⟨hi.1.trans_le hupper, hi.2⟩, fun hi => ⟨hbelow i hi.1 hi.2, hi.2⟩⟩
  have hpiece : p ∈ Chunks.cut maxSeg.toNat gap.length.toNat gap.bytes.1
      (gap.bytes.2 - gap.bytes.1) := by
    rwa [ReceptionClaim.bytes, Nat.add_sub_cancel_left]
  exact Chunks.isChunk_of_missing (toNat32_pos hmax) haligned hnormal hcovers
    (List.mem_map_of_mem hgap) hpiece

/-- Plain segments that are next in line are stored or lost. -/
theorem inevitable_plain {a b : LtpEngine} {rest : List (List UInt8)} {pieces : List (Nat × Nat)}
    {size : Nat} (hsize : 0 < size) (h : Awaits b key data.bytes got ended)
    (haligned : Chunks.Aligned size data.bytes.length got) (hs : Stored key own)
    (hdata : own.clientData = data.bytes)
    (hpieces : ∀ p ∈ pieces, p.1 + p.2 ≤ data.bytes.length ∧ 0 < p.2)
    (hchunks : ∀ p ∈ pieces, Chunks.IsChunk size data.bytes.length p) :
    (Link.lossy start).Inevitable
      (fun link => ∃ b' got', link = { a := a, b := b', toB := rest } ∧ Since b b' [] 0 ∧
        Awaits b' key data.bytes got' ended ∧ Chunks.Aligned size data.bytes.length got' ∧
        ∀ i, got i → got' i)
      { a := a, b := b, toB := (pieces.map (plainSegment own)).map LtpSegment.wire ++ rest } := by
  induction pieces generalizing b got with
  | nil => exact .now ⟨b, got, rfl, .refl b, h, haligned, fun _ => id⟩
  | cons p pieces ih =>
      rw [List.forall_mem_cons] at hpieces hchunks
      obtain ⟨ds, hp⟩ := plainSegment_piece hs hdata hpieces.1.1 hpieces.1.2
      obtain ⟨b₁, hreceive, hsent, hsince, hawaits⟩ := h.receive_plain hp rfl data.size_lt
      refine Link.inevitable_b hreceive hsent (fun _ => ?_) ?_
      · exact ih h haligned hpieces.2 hchunks.2
      · refine (ih hawaits (haligned.add hsize hchunks.1) hpieces.2 hchunks.2).mono fun link hlink => ?_
        obtain ⟨b', got', hlink, hsince', hawaits', haligned', hgot⟩ := hlink
        exact ⟨b', got', hlink, hsince.trans hsince', hawaits', haligned', fun i hi => hgot i (.inl hi)⟩

/-- The link after so many retransmissions, with a report in flight to A. Each
of them has brought one missing piece at least. -/
structure InRound (a₀ b₀ : LtpEngine) (key : SessionKey) (data : Block) (rounds : Nat)
    (got : Nat → Prop) (own peer : LtpSession) (serial upper : UInt64) (link : Link) : Prop where
  reporting : Reporting key data got own peer serial upper link
  sinceA : Since a₀ link.a [] (UInt64.ofNat rounds)
  sinceB : Since b₀ link.b [] 0
  below : ∀ i < data.bytes.length, ¬ got i → i < upper.toNat
  aligned : Chunks.Aligned a₀.config.maxSegmentSize.toNat data.bytes.length got
  attempts : own.retransmissionCount = UInt8.ofNat rounds
  budget : a₀.config.maxRetransmissions ≠ 255 → rounds ≤ a₀.config.maxRetransmissions.toNat
  left : #(Chunks.missing a₀.config.maxSegmentSize.toNat data.bytes.length got) + rounds <
    segmentCount a₀.config.maxSegmentSize data

variable {a₀ b₀ : LtpEngine} {rounds : Nat} {link : Link}

/-- The budget is used up when the rounds are as many as the limit. -/
theorem InRound.exhausted_iff (h : InRound a₀ b₀ key data rounds got own peer serial upper link)
    (hmax : a₀.config.maxRetransmissions ≠ 255) :
    link.a.Exhausted own ↔ rounds = a₀.config.maxRetransmissions.toNat := by
  have hle := h.budget hmax
  have hlt := a₀.config.maxRetransmissions.toNat_lt
  have hcount : own.retransmissionCount.toNat = rounds := by
    rw [h.attempts]
    exact Nat.mod_eq_of_lt (by omega)
  rw [LtpEngine.exhausted_iff (h.sinceA.config ▸ hmax) (by rwa [hcount, h.sinceA.config]), hcount,
    h.sinceA.config]

/-- A piece that is missing is missing below the upper bound of the report. -/
theorem InRound.missing_below (h : InRound a₀ b₀ key data rounds got own peer serial upper link)
    (hmissing : ∃ i < data.bytes.length, ¬ got i) : ∃ i < upper.toNat, ¬ got i := by
  obtain ⟨i, hi, hgot⟩ := hmissing
  exact ⟨i, h.below i hi hgot, hgot⟩

/-- **Arrival.** With no piece missing, the link settles. -/
theorem InRound.arrives (h : InRound a₀ b₀ key data rounds got own peer serial upper link)
    (hall : ∀ i < data.bytes.length, got i) :
    (Link.lossy start).Inevitable (fun link => link.Quiet ∧ Settled a₀ b₀ key data link) link := by
  obtain ⟨a', rs, b', hreceive, hsent, hack, hnone, hgone, hgone', hsince, hsince'⟩ :=
    h.reporting.finish hall
  have hrounds := h.left
  have hsettled : Settled a₀ b₀ key data { a := a', b := b' } := by
    refine .arrived rounds (by omega) h.budget hgone hgone' ?_ (h.sinceB.trans hsince')
    simpa using h.sinceA.trans hsince
  obtain ⟨⟨-, -, -, -, htoA, htoB⟩, -⟩ := h
  obtain ⟨a, b, toA, toB⟩ := link
  dsimp only at htoA htoB
  subst htoA htoB
  refine Link.inevitable_a hreceive hsent (Link.inevitable_b hack hnone (fun hplain => ?_)
    (.now ⟨⟨rfl, rfl⟩, hsettled⟩))
  rw [isPlain_reportAck] at hplain
  cases hplain

/-- **Failure.** With pieces missing and the budget used up, it settles as
well. -/
theorem InRound.fails (h : InRound a₀ b₀ key data rounds got own peer serial upper link)
    (hsize : 0 < a₀.config.maxSegmentSize.toNat) (hmissing : ∃ i < data.bytes.length, ¬ got i)
    (hmax : link.a.Exhausted own) :
    (Link.lossy start).Inevitable (fun link => link.Quiet ∧ Settled a₀ b₀ key data link) link := by
  have hne : a₀.config.maxRetransmissions ≠ 255 := fun heq =>
    not_exhausted (h.sinceA.config ▸ heq) hmax
  have hrounds := (h.exhausted_iff hne).mp hmax
  have hleft : rounds + 1 < segmentCount a₀.config.maxSegmentSize data := by
    obtain ⟨i, hi, hgot⟩ := hmissing
    have hpos := Finset.card_pos.mpr (h.aligned.missing_nonempty hsize hi hgot)
    have hrounds := h.left
    omega
  obtain ⟨⟨hown, hheld, hholds, hinside, htoA, htoB⟩, hsinceA, hsinceB, hbelow, -⟩ := id h
  obtain ⟨a', rs, hreceive, hsent, hgone, hsince⟩ :=
    @Offers.give_up link.a key data got own peer serial upper hown hholds hinside
      (h.missing_below hmissing) hmax
  obtain ⟨b₁, hack, hnone, ⟨hall, -⟩ | ⟨-, hheld₁, hsince₁⟩⟩ :=
    @receive_reportAck link.b key data.bytes got (reported peer) peer serial upper rs hholds.stored
      hheld hholds.reported
  · obtain ⟨i, hi, hgot⟩ := hmissing
    exact absurd (hall i hi) hgot
  obtain ⟨b', hcancel, hsent', hgone', hsince'⟩ :=
    receive_cancel 0x01 hheld₁ hholds.reported.stored
  have hsettled : Settled a₀ b₀ key data { a := a', b := b' } := by
    refine .failed rounds hleft hrounds hne hgone hgone' ?_ (hsinceB.trans (hsince₁.trans hsince'))
    simpa using hsinceA.trans hsince
  obtain ⟨a, b, toA, toB⟩ := link
  dsimp only at htoA htoB
  subst htoA htoB
  refine Link.inevitable_a hreceive hsent (Link.inevitable_b hack hnone (fun hplain => ?_)
    (Link.inevitable_b hcancel hsent' (fun hplain => ?_)
      (Link.inevitable_a (receive_cancelAck 0x01 hgone) ?_ (.now ⟨⟨rfl, rfl⟩, hsettled⟩))))
  · rw [isPlain_reportAck] at hplain
    cases hplain
  · rw [isPlain_wire (cancelSegment_travels .originator key 0x01)] at hplain
    cases hplain
  · rw [LtpEngine.sentSince, List.drop_length]
    rfl

/-- **Progress.** With pieces missing and the budget not used up, the link
gets to a report on fewer of them. -/
theorem InRound.next (h : InRound a₀ b₀ key data rounds got own peer serial upper link)
    (hsize : 0 < a₀.config.maxSegmentSize.toNat) (hmissing : ∃ i < data.bytes.length, ¬ got i)
    (hmax : ¬ link.a.Exhausted own) :
    (Link.lossy start).Inevitable
      (fun link' => ∃ got' own' peer' serial' upper',
        InRound a₀ b₀ key data (rounds + 1) got' own' peer' serial' upper' link' ∧
        #(Chunks.missing a₀.config.maxSegmentSize.toNat data.bytes.length got') <
          #(Chunks.missing a₀.config.maxSegmentSize.toNat data.bytes.length got)) link := by
  obtain ⟨a', rs, b₁, init, last, serial', hreceive, hsent, hack, hnone, hcuts, hpieces, hcovered,
    ⟨own', hown', hattempts⟩, hawaits, hsince, hsince₁⟩ :=
    h.reporting.resume (h.missing_below hmissing) hmax
  have hconfig := h.sinceA.config
  have hmaxSeg : a₀.config.maxSegmentSize ≠ 0 := hconfig ▸ h.reporting.offers.segmentSize
  have hchunks : ∀ p ∈ init ++ [last],
      Chunks.IsChunk a₀.config.maxSegmentSize.toNat data.bytes.length p := by
    intro p hp
    rw [hcuts, hconfig] at hp
    exact isChunk_of_gapCuts hmaxSeg h.reporting.holds h.reporting.inside h.below h.aligned hp
  have hapart := @gapCuts_apart link.a.config.maxSegmentSize _
    (ReceptionTracker.pairwise_computeGaps 0 upper h.reporting.holds.reassembles.tracker.noWrap)
  rw [← hcuts, List.pairwise_append] at hapart
  obtain ⟨hin, hpos⟩ := hpieces last (by simp)
  -- the checkpoint carries the last piece that is missing
  have hlast : ∀ i < data.bytes.length, ¬ got i → i < last.1 + last.2 := by
    intro i hi hgot
    have hboth := (hcovered i).mpr ⟨h.below i hi hgot, hgot⟩
    rw [Chunks.covered_append, Chunks.covered_cons] at hboth
    rcases hboth with hinit | hlast | hnil
    · obtain ⟨p, hp, -, hend⟩ := hinit
      have hle := hapart.2.2 p hp last (by simp)
      omega
    · exact hlast.2
    · exact absurd hnil Chunks.not_covered_nil
  have hfirst : ¬ got last.1 :=
    ((hcovered last.1).mp (Chunks.covered_append.mpr (.inr ⟨last, by simp, le_rfl, by omega⟩))).2
  obtain ⟨⟨hown, -, -, -, htoA, htoB⟩, hsinceA, hsinceB, -, haligned, hcount, hbudget, hleft⟩ :=
    id h
  have hattempt : rounds + 1 ≤ a₀.config.maxRetransmissions.toNat ∨
      a₀.config.maxRetransmissions = 255 := by
    by_cases hne : a₀.config.maxRetransmissions = 255
    · exact .inr hne
    · have hle := hbudget hne
      rw [h.exhausted_iff hne] at hmax
      omega
  obtain ⟨a, b, toA, toB⟩ := link
  dsimp only at hown htoA htoB
  subst htoA htoB
  refine Link.inevitable_a hreceive hsent (Link.inevitable_b hack hnone (fun hplain => ?_) ?_)
  · rw [isPlain_reportAck] at hplain
    cases hplain
  rw [List.map_append]
  refine (inevitable_plain hsize hawaits haligned hown.stored hown.clientData
    (fun p hp => hpieces p (by simp [hp])) fun p hp => hchunks p (by simp [hp])).trans
      fun link hlink => ?_
  obtain ⟨b₂, got₂, rfl, hsince₂, hawaits₂, haligned₂, hgot₂⟩ := hlink
  obtain ⟨ds, hp, hserial, hend⟩ :=
    checkpointSegment_piece hown.stored hown.clientData serial' hin hpos
  obtain ⟨b₃, peer', hreceive₃, hsent₃, hsince₃, hreporting⟩ :=
    @Awaits.reporting key data got₂ True own' serial' a' b₂ last _ ds hawaits₂ hown' hp rfl
      hserial (.inl trivial) hend
  have hupper : (ds.offset + ds.length).toNat = last.1 + last.2 := by
    rw [hp.carries.toNat_end data.size_lt, hp.offset, hp.length]
  have hfewer := @Chunks.card_missing_lt a₀.config.maxSegmentSize.toNat data.bytes.length got
    (fun i => got₂ i ∨ (last.1 ≤ i ∧ i < last.1 + last.2)) last (hchunks last (by simp))
    (fun i hi => .inl (hgot₂ i hi)) hfirst (.inr ⟨le_rfl, by omega⟩)
  refine Link.inevitable_b hreceive₃ hsent₃ (fun hplain => ?_) (.now ⟨_, own', peer', serial',
    ds.offset + ds.length, ?_, hfewer⟩)
  · rw [isPlain_wire hp.travels] at hplain
    cases hplain
  · exact
      { reporting := hreporting
        sinceA := by simpa [UInt64.ofNat_add] using hsinceA.trans hsince
        sinceB := hsinceB.trans (hsince₁.trans (hsince₂.trans hsince₃))
        below := fun i hi hgot => by
          rw [hupper]
          exact hlast i hi fun hbefore => hgot (.inl (hgot₂ i hbefore))
        aligned := haligned₂.add hsize (hchunks last (by simp))
        attempts := by rw [hattempts, hcount, UInt8.ofNat_add]; rfl
        budget := fun hne => hattempt.resolve_right hne
        left := by omega }

/-- **Rounds.** Whatever is missing, the link settles. -/
theorem InRound.settles (h : InRound a₀ b₀ key data rounds got own peer serial upper link)
    (hsize : 0 < a₀.config.maxSegmentSize.toNat) :
    (Link.lossy start).Inevitable (fun link => link.Quiet ∧ Settled a₀ b₀ key data link) link := by
  -- by strong induction on the number of pieces that are missing
  induction hn : #(Chunks.missing a₀.config.maxSegmentSize.toNat data.bytes.length got)
    using Nat.strong_induction_on generalizing rounds got own peer serial upper link with
  | h n ih =>
      by_cases hall : ∀ i < data.bytes.length, got i
      · exact h.arrives hall
      · have hmissing : ∃ i < data.bytes.length, ¬ got i := by simpa using hall
        by_cases hmax : link.a.Exhausted own
        · exact h.fails hsize hmissing hmax
        · refine (h.next hsize hmissing hmax).trans fun link' hlink' => ?_
          obtain ⟨got', own', peer', serial', upper', hround, hfewer⟩ := hlink'
          exact ih _ (hn ▸ hfewer) hround rfl

/-- **Transmission.** What gets through of the block's segments leads to a
report that leaves less missing than there are segments. -/
theorem inevitable_report {a b : LtpEngine} (ha : Offers a key data own) (hred : own.isRed = true)
    (hcount : own.retransmissionCount = 0) (hb : Awaits b key data.bytes (fun _ => False) False)
    (hsinceA : Since a₀ a [] 0) (hsinceB : Since b₀ b [] 0) :
    (Link.lossy start).Inevitable
      (fun link => ∃ got peer serial upper,
        InRound a₀ b₀ key data 0 got own peer serial upper link)
      { a := a, b := b
        toB := ((blockCuts a.config.maxSegmentSize data.bytes.length).map
          (blockSegment own 0)).map LtpSegment.wire } := by
  have hmaxSeg := ha.segmentSize
  have hconfig := hsinceA.config
  rw [hconfig] at hmaxSeg ⊢
  have hsize := toNat32_pos hmaxSeg
  obtain ⟨init, last, hcuts, hend, hinner⟩ := @blockCuts_eq a₀.config.maxSegmentSize
    data.bytes.length (.inr hmaxSeg)
  have hmem {p : Nat × Nat} (hp : p ∈ init ++ [last]) := mem_blockCuts (.inr hmaxSeg) (hcuts ▸ hp)
  have hchunks (hne : data.bytes.length ≠ 0) : ∀ p ∈ init ++ [last],
      Chunks.IsChunk a₀.config.maxSegmentSize.toNat data.bytes.length p := by
    intro p hp
    rw [← hcuts, blockCuts, if_neg hne] at hp
    exact Chunks.isChunk_of_mem_cut hsize (Nat.zero_mod _) (by omega) (by omega) hp
  have hplain : init.map (blockSegment own 0) = init.map (plainSegment own) := by
    refine List.map_congr_left fun p hp => blockSegment_inner 0 hred ?_
    rw [ha.clientData]
    exact hinner p hp
  have hpieces : ∀ p ∈ init, p.1 + p.2 ≤ data.bytes.length ∧ 0 < p.2 := by
    intro p hp
    have hin := hinner p hp
    have hempty := (hmem (List.mem_append_left _ hp)).2
    omega
  rw [hcuts, List.map_append, hplain, List.map_append]
  refine (inevitable_plain hsize hb Chunks.aligned_false ha.stored ha.clientData hpieces
    fun p hp => ?_).trans fun link hlink => ?_
  · have hin := hinner p hp
    exact hchunks (by omega) p (by simp [hp])
  obtain ⟨b₁, got, rfl, hsince₁, hawaits, haligned, -⟩ := hlink
  obtain ⟨ds, hp, htype, hserial, hupper⟩ :=
    blockSegment_last ha.stored ha.clientData hred 0 hend (hmem (by simp)).2
  obtain ⟨b₂, peer, hreceive, hsent, hsince₂, hreporting⟩ :=
    @Awaits.reporting key data got False own _ a b₁ last _ ds hawaits ha hp
      (by rw [htype]; rfl) hserial (.inr (by rw [htype]; rfl)) hupper.le
  -- the last piece is there, unless the block is empty
  have hleft : #(Chunks.missing a₀.config.maxSegmentSize.toNat data.bytes.length
      fun i => got i ∨ (last.1 ≤ i ∧ i < last.1 + last.2)) <
        segmentCount a₀.config.maxSegmentSize data := by
    rw [segmentCount, hcuts]
    by_cases hne : data.bytes.length = 0
    · simp [Chunks.missing, hne]
    · have hpos : 0 < last.2 := Nat.pos_of_ne_zero fun h0 => hne ((hmem (by simp)).2 h0)
      have hfewer := @Chunks.card_missing_lt a₀.config.maxSegmentSize.toNat data.bytes.length
        (fun _ => False) (fun i => got i ∨ (last.1 ≤ i ∧ i < last.1 + last.2)) last
        (hchunks hne last (by simp)) (fun _ => False.elim) id (.inr ⟨le_rfl, by omega⟩)
      have hall := @Chunks.card_missing_le a₀.config.maxSegmentSize.toNat data.bytes.length hsize
        fun _ => False
      rw [blockCuts, if_neg hne] at hcuts
      rw [hcuts] at hall
      omega
  have hround : InRound a₀ b₀ key data 0 (fun i => got i ∨ (last.1 ≤ i ∧ i < last.1 + last.2)) own
      peer (0 + 1) (ds.offset + ds.length)
      { a := a, b := b₂, toA := [(report peer (0 + 1) (ds.offset + ds.length)).wire] } :=
    { reporting := hreporting
      sinceA := hsinceA
      sinceB := hsinceB.trans (hsince₁.trans hsince₂)
      below := fun i hi _ => by rwa [hupper]
      aligned := by
        by_cases hne : data.bytes.length = 0
        · intro i j hi
          omega
        · exact haligned.add hsize (hchunks hne last (by simp))
      attempts := hcount
      budget := fun _ => Nat.zero_le _
      left := hleft }
  refine Link.inevitable_b hreceive hsent (fun hplain => ?_) (.now ⟨_, _, _, _, hround⟩)
  rw [isPlain_wire hp.travels, htype] at hplain
  cases hplain

end Rounds

/-! ## The theorem -/

/-- **Recovery on a lossy link.** Whatever plain segments are lost, in the
transmission or in retransmissions, the link gets quiet, and has then
settled. -/
theorem lossy_recovery (a b : LtpEngine) (data : Block) (ha : a.sessions = ∅)
    (hb : b.sessions = ∅) (hsize : 1 ≤ a.config.maxSegmentSize)
    (hroomA : 1 ≤ a.config.maxConcurrentSessions) (hroomB : 1 ≤ b.config.maxConcurrentSessions) :
    ∃ a' sn, a.startSession data true = .ok (a', sn) ∧
      let start : Link := { a := a', b := b, toB := a'.sentSince a.trace }
      (Link.lossy start).Inevitable Link.Quiet start ∧
        ∀ link, (Link.lossy start).Reachable System.free link → link.Quiet →
          Settled a b (a.localKey sn) data link := by
  obtain ⟨a', sn, own, hstart, hoffers, hred, hcount, hsince, hsent⟩ :=
    @startSession_offers a data ha hroomA hsize
  refine ⟨a', sn, hstart, ?_⟩
  rw [hsent, ← hsince.config]
  intro start
  have hsettles : (Link.lossy start).Inevitable
      (fun link => link.Quiet ∧ Settled a b (a.localKey sn) data link) start := by
    refine (inevitable_report hoffers hred hcount (awaits_new hb hroomB) hsince (.refl b)).trans
      fun link hlink => ?_
    obtain ⟨got, peer, serial, upper, hround⟩ := hlink
    exact hround.settles (toNat32_pos (ne_zero_of_one_le hsize))
  refine ⟨hsettles.mono fun _ h => h.1, fun link hreach hquiet => ?_⟩
  obtain ⟨s₀, hs₀, hpath⟩ := hreach
  cases hs₀
  exact (hsettles.of_stuck (fun _ h => h.1.stuck_lossy) hpath hquiet.stuck_lossy).2

/-- Of two segments the first is lost, or not. -/
theorem lossy_recovery_twoBytes :
    ∃ a' sn, (LtpEngine.create (nodeConfig 1 1) none).startSession twoBytesBlock true =
        .ok (a', sn) ∧
      ∃ link, Settled (LtpEngine.create (nodeConfig 1 1) none)
        (LtpEngine.create (nodeConfig 2 1) none)
        ((LtpEngine.create (nodeConfig 1 1) none).localKey sn) twoBytesBlock link := by
  obtain ⟨a', sn, hstart, hinevitable, hsettled⟩ := lossy_recovery
    (LtpEngine.create (nodeConfig 1 1) none) (LtpEngine.create (nodeConfig 2 1) none) twoBytesBlock
    rfl rfl (by decide) (by decide) (by decide)
  obtain ⟨link, hpath, hquiet⟩ := hinevitable.exists_path
  exact ⟨a', sn, hstart, link, hsettled link ⟨_, rfl, hpath⟩ hquiet⟩

end QpskB210.Ltp
