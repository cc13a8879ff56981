import QpskB210.Ltp.EngineProgress

/-!
# LTP — Variants

`std::get` throws when a segment's content is of another variant than the one
asked for, and the encoder and every handler ask without checking. What they
ask for is decided by the segment type, and `Fits` is the type's variant. The
decoder returns nothing but fitting content, and the engine itself builds
nothing else, so no `std::get` behind `receive_segment` throws.
-/

namespace QpskB210.Ltp

open LtpSegment

/-- The content is of the variant that goes with the type. -/
def SegmentContent.Fits (type : UInt8) : SegmentContent → Prop
  | .data _ => SegType.isData type = true
  | .report _ => type = SegType.reportSegment
  | .rptAck _ => type = SegType.reportAck
  | .cancel _ => type = SegType.cancelBySender ∨ type = SegType.cancelByReceiver ∨
      type = SegType.cancelAckToSender ∨ type = SegType.cancelAckToReceiver

namespace SegmentContent

variable {type : UInt8} {content : SegmentContent}

theorem Matches.fits (h : content.Matches type) : content.Fits type := by
  cases content with
  | data ds => exact h.1
  | report rs => exact h.1
  | rptAck ra => exact h
  | cancel cc => exact h.imp_right (Or.imp_right And.left)

theorem Fits.data (h : content.Fits type) (htype : SegType.isData type = true) :
    ∃ ds, content = .data ds := by
  cases content with
  | data ds => exact ⟨ds, rfl⟩
  | report rs => cases h; cases htype
  | rptAck ra => cases h; cases htype
  | cancel cc => rcases h with rfl | rfl | rfl | rfl <;> cases htype

theorem Fits.report (h : content.Fits type) (htype : type = SegType.reportSegment) :
    ∃ rs, content = .report rs := by
  subst htype
  cases content with
  | data ds => cases h
  | report rs => exact ⟨rs, rfl⟩
  | rptAck ra => cases h
  | cancel cc => rcases h with h | h | h | h <;> cases h

theorem Fits.rptAck (h : content.Fits type) (htype : type = SegType.reportAck) :
    ∃ ra, content = .rptAck ra := by
  subst htype
  cases content with
  | data ds => cases h
  | report rs => cases h
  | rptAck ra => exact ⟨ra, rfl⟩
  | cancel cc => rcases h with h | h | h | h <;> cases h

theorem Fits.cancel (h : content.Fits type)
    (htype : type = SegType.cancelBySender ∨ type = SegType.cancelByReceiver) :
    ∃ cc, content = .cancel cc := by
  cases content with
  | data ds => rcases htype with rfl | rfl <;> cases h
  | report rs => cases h; rcases htype with h | h <;> cases h
  | rptAck ra => cases h; rcases htype with h | h <;> cases h
  | cancel cc => exact ⟨cc, rfl⟩

end SegmentContent

/-! ## Calls that do not end in `bad_variant_access` -/

/-- The call does not end in `std::bad_variant_access`. -/
def VariantSafe {α : Type} (x : Except Exn α) : Prop := x ≠ .error .badVariantAccess

namespace VariantSafe

variable {α β : Type}

theorem ok (a : α) : VariantSafe (.ok a : Except Exn α) := nofun

theorem error {e : Exn} (h : e ≠ .badVariantAccess) : VariantSafe (.error e : Except Exn α) :=
  fun heq => h (Except.error.inj heq)

theorem bind {x : Except Exn α} {f : α → Except Exn β} (hx : VariantSafe x)
    (hf : ∀ a, x = .ok a → VariantSafe (f a)) : VariantSafe (x >>= f) := by
  cases x with
  | error e =>
      intro h
      exact hx (congrArg Except.error (Except.error.inj h))
  | ok a => exact hf a rfl

theorem ite {c : Prop} [Decidable c] {x y : Except Exn α} (hx : c → VariantSafe x)
    (hy : ¬ c → VariantSafe y) : VariantSafe (if c then x else y) := by
  by_cases hc : c
  · rw [if_pos hc]
    exact hx hc
  · rw [if_neg hc]
    exact hy hc

end VariantSafe

theorem assignRange_variantSafe (data : List UInt8) (first last : Nat) :
    VariantSafe (assignRange data first last) := by
  rw [assignRange]
  apply VariantSafe.ite (fun _ => .error (by decide))
  intro _
  exact VariantSafe.ite (fun _ => .error (by decide)) fun _ => .ok _

theorem encodeContent_variantSafe {type : UInt8} {content : SegmentContent}
    (h : content.Fits type) : VariantSafe (encodeContent type content) := by
  rw [encodeContent]
  apply VariantSafe.ite
  · intro htype
    obtain ⟨ds, rfl⟩ := h.data htype
    exact .ok _
  intro _
  apply VariantSafe.ite
  · intro htype
    obtain ⟨rs, rfl⟩ := h.report htype
    exact .ok _
  intro _
  apply VariantSafe.ite
  · intro htype
    obtain ⟨ra, rfl⟩ := h.rptAck htype
    exact .ok _
  intro _
  apply VariantSafe.ite
  · intro htype
    obtain ⟨cc, rfl⟩ := h.cancel htype
    exact .ok _
  · intro _
    exact .ok _

theorem LtpSession.store_variantSafe (session : LtpSession) (type : UInt8) (ds : DataSegContent) :
    VariantSafe (session.store type ds) := by
  rw [store]
  apply VariantSafe.bind
  · rw [resize]
    apply VariantSafe.ite (fun _ => .ok _)
    intro _
    exact VariantSafe.ite (fun _ => .error (by decide)) fun _ => .ok _
  · intro buffer _
    apply VariantSafe.bind
    · rw [copyData]
      apply VariantSafe.ite (fun _ => .ok _)
      intro _
      exact VariantSafe.ite (fun _ => .ok _) fun _ => .error (by decide)
    · intro _ _
      exact .ok _

namespace LtpEngine

variable {key : SessionKey}

/-! ## Sending -/

theorem startSegmentTimer_variantSafe (e : LtpEngine) {seg : LtpSegment}
    (h : seg.content.Fits seg.segmentType) : VariantSafe (e.startSegmentTimer seg) := by
  rw [startSegmentTimer]
  split
  · exact .ok _
  · apply VariantSafe.ite
    · intro hcp
      have hall := @forall_byte (fun b => SegType.hasCheckpoint b = true → SegType.isData b = true)
        (by decide +kernel)
      obtain ⟨ds, hds⟩ := h.data (hall _ hcp)
      rw [hds]
      apply VariantSafe.bind
      · exact .ok _
      · intro ds _
        split <;> exact .ok _
    intro _
    apply VariantSafe.ite
    · intro htype
      obtain ⟨rs, hrs⟩ := h.report htype
      rw [hrs]
      exact .ok _
    · intro _
      exact .ok _

theorem sendSegment_variantSafe (e : LtpEngine) {seg : LtpSegment}
    (h : seg.content.Fits seg.segmentType) : VariantSafe (e.sendSegment seg) := by
  rw [sendSegment]
  apply VariantSafe.bind (startSegmentTimer_variantSafe _ h)
  intro e₁ _
  apply VariantSafe.bind
  · exact (encodeContent_variantSafe h).bind fun _ _ => .ok _
  · intro _ _
    exact .ok _

theorem sendSegments_variantSafe (e : LtpEngine) {segments : List LtpSegment}
    (h : ∀ seg ∈ segments, seg.content.Fits seg.segmentType) :
    VariantSafe (e.sendSegments segments) := by
  induction segments generalizing e with
  | nil => exact .ok _
  | cons seg segments ih =>
      apply VariantSafe.bind (e.sendSegment_variantSafe (h seg (by simp)))
      intro e₁ _
      exact ih e₁ fun s hs => h s (by simp [hs])

theorem cancelSession_variantSafe (e : LtpEngine) (engineId sessionNumber : UInt64)
    (reason : UInt8) : VariantSafe (e.cancelSession engineId sessionNumber reason) := by
  rw [cancelSession]
  dsimp only
  split
  · exact .ok _
  · apply VariantSafe.bind
    · apply sendSegment_variantSafe
      dsimp only
      split
      · exact .inl rfl
      · exact .inr (.inl rfl)
    · intro _ _
      exact .ok _

/-! ## The handlers -/

theorem generateReport_variantSafe (e : LtpEngine) (session : LtpSession)
    (checkpointSerial upperBound : UInt64) :
    VariantSafe (e.generateReport key session checkpointSerial upperBound) := by
  rw [generateReport]
  apply sendSegment_variantSafe
  rfl

theorem deliver_variantSafe (e : LtpEngine) (session : LtpSession) :
    VariantSafe (e.deliver key session) := by
  rw [deliver]
  exact (assignRange_variantSafe _ _ _).bind fun _ _ => .ok _

theorem acceptData_variantSafe (e : LtpEngine) (session : LtpSession) (seg : LtpSegment)
    (ds : DataSegContent) : VariantSafe (e.acceptData key session seg ds) := by
  rw [acceptData]
  apply VariantSafe.ite (fun _ => .ok _)
  intro _
  apply VariantSafe.bind (session.store_variantSafe seg.segmentType ds)
  intro stored _
  apply VariantSafe.bind
  · rw [reportCheckpoint]
    split
    · exact generateReport_variantSafe _ _ _ _
    · exact .ok _
  · intro e₁ _
    exact VariantSafe.ite (fun _ => deliver_variantSafe _ _) fun _ => .ok _

theorem receiveDataSegment_variantSafe (e : LtpEngine) {seg : LtpSegment}
    (h : seg.content.Fits seg.segmentType) (htype : SegType.isData seg.segmentType = true) :
    VariantSafe (e.receiveDataSegment seg) := by
  obtain ⟨ds, hds⟩ := h.data htype
  rw [receiveDataSegment]
  apply VariantSafe.bind
  · rw [hds]
    exact .ok _
  intro ds' _
  dsimp only
  split
  · exact acceptData_variantSafe _ _ _ _
  · exact VariantSafe.ite (fun _ => .ok _) fun _ => acceptData_variantSafe _ _ _ _

/-- The segments for the gaps fit, and so does the last one as a checkpoint. -/
theorem retransmitGaps_variantSafe (e : LtpEngine) (session : LtpSession)
    (gaps : List ReceptionClaim) : VariantSafe (e.retransmitGaps key session gaps) := by
  have hloop : ∀ fuel offset remaining, VariantSafe
      (gapLoop session e.config.maxSegmentSize.toNat fuel offset remaining) := by
    intro fuel
    induction fuel with
    | zero => exact fun _ _ => .ok _
    | succ fuel ih =>
        intro offset remaining
        rw [gapLoop]
        apply VariantSafe.ite (fun _ => .ok _)
        intro _
        apply VariantSafe.bind (assignRange_variantSafe _ _ _)
        intro _ _
        exact (ih _ _).bind fun _ _ => .ok _
  have hgaps : VariantSafe (gapSegments session e.config.maxSegmentSize gaps) := by
    induction gaps with
    | nil => exact .ok _
    | cons gap gaps ih =>
        rw [gapSegments]
        apply VariantSafe.ite
        · exact fun _ => .error (by decide)
        · intro _
          apply VariantSafe.bind (hloop _ _ _)
          intro _ _
          exact ih.bind fun _ _ => .ok _
  rw [retransmitGaps]
  apply VariantSafe.bind hgaps
  intro segments hsegments
  obtain ⟨-, -, rfl⟩ := gapSegments_eq_ok.mp hsegments
  -- either there is nothing to mark, or the last piece becomes the checkpoint
  rcases List.eq_nil_or_concat (gapCuts e.config.maxSegmentSize gaps) with hnil | ⟨init, last, hcuts⟩
  · rw [hnil]
    exact .ok _
  · rw [hcuts, List.concat_eq_append]
    dsimp only
    rw [markLast_map]
    apply VariantSafe.bind (.ok _)
    intro marked hmarked
    cases hmarked
    apply sendSegments_variantSafe
    intro seg hseg
    rcases List.mem_append.mp hseg with hseg | hseg
    · obtain ⟨p, -, rfl⟩ := List.mem_map.mp hseg
      rfl
    · cases List.mem_singleton.mp hseg
      rfl

theorem retransmit_variantSafe (e : LtpEngine) (session : LtpSession)
    {resend : LtpEngine → LtpSession → Except Exn LtpEngine}
    (h : ∀ e session, VariantSafe (resend e session)) :
    VariantSafe (e.retransmit key session resend) := by
  rw [retransmit]
  exact VariantSafe.ite (fun _ => cancelSession_variantSafe _ _ _ _) fun _ => h _ _

theorem receiveReportSegment_variantSafe (e : LtpEngine) {seg : LtpSegment}
    (h : seg.content.Fits seg.segmentType) (htype : seg.segmentType = SegType.reportSegment) :
    VariantSafe (e.receiveReportSegment seg) := by
  obtain ⟨rs, hrs⟩ := h.report htype
  have hack : ∀ (e : LtpEngine) (engineId sessionNumber serial : UInt64),
      VariantSafe (e.sendReportAck engineId sessionNumber serial) :=
    fun e _ _ _ => sendSegment_variantSafe e rfl
  rw [receiveReportSegment, hrs]
  apply VariantSafe.bind (.ok _)
  intro rs' _
  dsimp only
  split
  · exact hack _ _ _ _
  · apply VariantSafe.ite (fun _ => .ok _)
    intro _
    apply VariantSafe.ite (fun _ => .ok _)
    intro _
    apply VariantSafe.bind (hack _ _ _ _)
    intro e₁ _
    rw [answerReport]
    apply VariantSafe.ite (fun _ => .ok _)
    intro _
    apply VariantSafe.ite (fun _ => .ok _)
    intro _
    exact retransmit_variantSafe _ _ fun e session => retransmitGaps_variantSafe e session _

theorem receiveReportAck_variantSafe (e : LtpEngine) {seg : LtpSegment}
    (h : seg.content.Fits seg.segmentType) (htype : seg.segmentType = SegType.reportAck) :
    VariantSafe (e.receiveReportAck seg) := by
  obtain ⟨ra, hra⟩ := h.rptAck htype
  rw [receiveReportAck, hra]
  apply VariantSafe.bind (.ok _)
  intro ra' _
  dsimp only
  split
  · exact .ok _
  · apply VariantSafe.ite (fun _ => .ok _)
    intro _
    exact VariantSafe.ite (fun _ => deliver_variantSafe _ _) fun _ => .ok _

theorem receiveCancelSegment_variantSafe (e : LtpEngine) {seg : LtpSegment}
    (h : seg.content.Fits seg.segmentType)
    (htype : seg.segmentType = SegType.cancelBySender ∨
      seg.segmentType = SegType.cancelByReceiver) : VariantSafe (e.receiveCancelSegment seg) := by
  obtain ⟨cc, hcc⟩ := h.cancel htype
  rw [receiveCancelSegment, hcc]
  apply VariantSafe.bind (.ok _)
  intro cc' _
  apply VariantSafe.bind
  · apply sendSegment_variantSafe
    dsimp only
    split
    · exact .inr (.inr (.inl rfl))
    · exact .inr (.inr (.inr rfl))
  · intro e₁ _
    dsimp only
    split <;> exact .ok _

/-- **Unchecked access is safe.** A segment whose content fits its type makes
no `std::get` throw, whatever the state of the engine. -/
theorem receiveSegment_variantSafe (e : LtpEngine) {seg : LtpSegment}
    (h : seg.content.Fits seg.segmentType) : VariantSafe (e.receiveSegment seg) := by
  rw [receiveSegment]
  apply VariantSafe.ite (receiveDataSegment_variantSafe e h)
  intro _
  apply VariantSafe.ite (receiveReportSegment_variantSafe e h)
  intro _
  apply VariantSafe.ite (receiveReportAck_variantSafe e h)
  intro _
  apply VariantSafe.ite (receiveCancelSegment_variantSafe e h)
  intro _
  exact VariantSafe.ite (fun _ => .ok _) fun _ => .ok _

/-- **Accepted segments.** For every input the decoder accepts, the segment is
well formed, can be handed to any engine without a failing `std::get`, and
decodes from its own encoding, which is no longer than the input. -/
theorem accepted_segment (b : List UInt8) (s : LtpSegment) (hb : b.length < objectBound)
    (h : decode b = .ok (some s)) :
    s.WellFormed ∧
      (∃ bytes, s.encode = .ok bytes ∧ bytes.length ≤ b.length ∧ decode bytes = .ok (some s)) ∧
      ∀ e : LtpEngine, e.receiveSegment s ≠ .error .badVariantAccess := by
  obtain ⟨hwellFormed, hencode⟩ := decode_reencodes hb h
  exact ⟨hwellFormed, hencode, fun e => e.receiveSegment_variantSafe hwellFormed.content.fits⟩

/-- A report acknowledgment with two-byte codes for small numbers, and two
bytes more than it takes. -/
def looseAck : List UInt8 := [0x07, 0x80, 1, 0x80, 2, 0, 0, 0x80, 3, 0xAB, 0xCD]

theorem accepted_segment_looseAck :
    let s : LtpSegment :=
      { segmentType := SegType.reportAck, engineId := 1, sessionNumber := 2,
        content := .rptAck { reportSerial := 3 } }
    s.WellFormed ∧
      (∃ bytes, s.encode = .ok bytes ∧ bytes.length ≤ looseAck.length ∧
        decode bytes = .ok (some s)) ∧
      ∀ e : LtpEngine, e.receiveSegment s ≠ .error .badVariantAccess :=
  accepted_segment looseAck _ (by decide) (by decide +kernel)

end LtpEngine

end QpskB210.Ltp
