import QpskB210.Ltp.EngineEffects
import QpskB210.Ltp.SegmentCodec

/-!
# LTP — Wire

The segments an engine sends reach the peer's `decode` unaltered: they are
well formed, carry no extensions and are small enough to be one object.
-/

namespace QpskB210.Ltp

namespace LtpSegment

/-- The number of data bytes or claims in the content. -/
def contentSize : SegmentContent → Nat
  | .data ds => ds.data.length
  | .report rs => rs.claims.length
  | _ => 0

/-- A segment that arrives as it was sent. -/
structure Travels (seg : LtpSegment) : Prop where
  wellFormed : seg.WellFormed
  headerExtensions : seg.headerExtensions = []
  trailerExtensions : seg.trailerExtensions = []
  size : contentSize seg.content < 2 ^ 57

theorem length_flatMap_encodeClaim (claims : List ReceptionClaim) :
    (claims.flatMap encodeClaim).length ≤ 20 * claims.length := by
  induction claims with
  | nil => simp
  | cons claim claims ih =>
      have hoffset := Sdnv.length_encode_le claim.offset
      have hlength := Sdnv.length_encode_le claim.length
      rw [List.flatMap_cons, List.length_append, encodeClaim, List.length_append, List.length_cons]
      rw [Sdnv.maxBytes] at hoffset hlength
      omega

theorem length_encodeSerials_le (type : UInt8) (ds : DataSegContent) :
    (encodeSerials type ds).length ≤ 20 := by
  have hcp := Sdnv.length_encode_le (ds.checkpointSerial.getD 0)
  have hrs := Sdnv.length_encode_le (ds.reportSerial.getD 0)
  rw [Sdnv.maxBytes] at hcp hrs
  rw [encodeSerials]
  split
  · rw [List.length_append]
    omega
  · exact Nat.zero_le _

theorem length_encodeContent_le {type : UInt8} {content : SegmentContent} {bytes : List UInt8}
    (h : encodeContent type content = .ok bytes) :
    bytes.length ≤ 50 + 20 * contentSize content := by
  rw [encodeContent] at h
  split at h
  · obtain ⟨ds, hds, h⟩ := bind_eq_ok.mp h
    rw [getData_eq_ok.mp hds]
    cases h
    have hid := Sdnv.length_encode_le ds.clientServiceId
    have hoffset := Sdnv.length_encode_le ds.offset
    have hlength := Sdnv.length_encode_le ds.length
    have hserials := length_encodeSerials_le type ds
    rw [Sdnv.maxBytes] at hid hoffset hlength
    simp only [encodeData, contentSize, List.length_append]
    omega
  · split at h
    · obtain ⟨rs, hrs, h⟩ := bind_eq_ok.mp h
      rw [getReport_eq_ok.mp hrs]
      cases h
      have hserial := Sdnv.length_encode_le rs.reportSerial
      have hcp := Sdnv.length_encode_le rs.checkpointSerial
      have hupper := Sdnv.length_encode_le rs.upperBound
      have hlower := Sdnv.length_encode_le rs.lowerBound
      have hcount := Sdnv.length_encode_le (UInt64.ofNat rs.claims.length)
      have hclaims := length_flatMap_encodeClaim rs.claims
      rw [Sdnv.maxBytes] at hserial hcp hupper hlower hcount
      simp only [encodeReport, contentSize, List.length_append]
      omega
    · split at h
      · obtain ⟨ra, -, h⟩ := bind_eq_ok.mp h
        cases h
        have hserial := Sdnv.length_encode_le ra.reportSerial
        rw [Sdnv.maxBytes] at hserial
        omega
      · split at h
        · obtain ⟨cc, -, h⟩ := bind_eq_ok.mp h
          cases h
          rw [List.length_singleton]
          omega
        · cases h
          simp

/-- **Transport.** What the peer decodes is the segment that was sent. -/
theorem Travels.decode_wire {seg : LtpSegment} (h : seg.Travels) :
    decode seg.wire = .ok (some seg) := by
  obtain ⟨bytes, hencode, -⟩ := segmentLang_encode h.wellFormed
  rw [wire_eq hencode]
  refine decode_encode h.wellFormed hencode ?_
  obtain ⟨content, hcontent, hbytes⟩ := bind_eq_ok.mp hencode
  cases hbytes
  have hlength := length_encodeContent_le hcontent
  have hsize := h.size
  have hengine := Sdnv.length_encode_le seg.engineId
  have hsession := Sdnv.length_encode_le seg.sessionNumber
  rw [Sdnv.maxBytes] at hengine hsession
  rw [h.headerExtensions, h.trailerExtensions]
  simp only [encodeHeader, encodeExtensions, List.flatMap_nil, List.length_append,
    List.length_cons, List.length_nil, objectBound]
  omega

/-- The type of a segment is in its first byte. -/
theorem head_wire {seg : LtpSegment} {control : UInt8} (hversion : seg.version = 0)
    (h : seg.wire.head? = some control) : control = seg.segmentType &&& 0x0F := by
  cases hencode : seg.encode with
  | error e =>
      rw [wire, hencode] at h
      cases h
  | ok bytes =>
      obtain ⟨content, -, hbytes⟩ := bind_eq_ok.mp hencode
      cases hbytes
      rw [wire_eq hencode, encodeHeader, hversion] at h
      simpa using h.symm

theorem Travels.encode_eq {seg : LtpSegment} (h : seg.Travels) : seg.encode = .ok seg.wire := by
  obtain ⟨bytes, hencode, -⟩ := segmentLang_encode h.wellFormed
  rw [wire_eq hencode, hencode]

end LtpSegment

namespace LtpEngine

open LtpSegment

theorem report_travels {session : LtpSession} (cp ub : UInt64)
    (h : session.receptionTracker.ranges.length < 2 ^ 57) : (report session cp ub).Travels where
  wellFormed :=
    { version := rfl, validType := rfl, headerCount := rfl, trailerCount := rfl
      content := ⟨rfl, by
        show session.receptionTracker.ranges.length ≤ maxClaimsSize
        rw [maxClaimsSize]
        omega⟩ }
  headerExtensions := rfl
  trailerExtensions := rfl
  size := h

theorem reportAck_travels (seg : LtpSegment) (rs : ReportSegContent) :
    (reportAck seg rs).Travels where
  wellFormed :=
    { version := rfl, validType := rfl, headerCount := rfl, trailerCount := rfl, content := rfl }
  headerExtensions := rfl
  trailerExtensions := rfl
  size := by
    show (0 : Nat) < 2 ^ 57
    decide

theorem cancelSegment_travels (role : SessionRole) (key : SessionKey) (reason : UInt8) :
    (cancelSegment role key reason).Travels where
  wellFormed :=
    { version := rfl, validType := by cases role <;> rfl, headerCount := rfl, trailerCount := rfl
      content := by
        cases role
        · exact .inl rfl
        · exact .inr (.inl rfl) }
  headerExtensions := rfl
  trailerExtensions := rfl
  size := by
    show (0 : Nat) < 2 ^ 57
    decide

theorem cancelAck_travels (seg : LtpSegment) : (cancelAck seg).Travels where
  wellFormed :=
    { version := rfl
      validType := by
        rw [cancelAck]
        dsimp only
        split <;> rfl
      headerCount := rfl, trailerCount := rfl
      content := by
        rw [cancelAck]
        dsimp only
        split
        · exact .inr (.inr ⟨.inl rfl, rfl⟩)
        · exact .inr (.inr ⟨.inr rfl, rfl⟩) }
  headerExtensions := rfl
  trailerExtensions := rfl
  size := by
    show (0 : Nat) < 2 ^ 57
    decide

end LtpEngine

end QpskB210.Ltp
