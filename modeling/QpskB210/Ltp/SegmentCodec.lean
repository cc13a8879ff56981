import QpskB210.Ltp.SegmentGrammar

/-!
# LTP — Segment codec

What the encoder and the decoder are to each other. The encoder writes words
of the grammar (`segmentLang_encode`), so the decoder, which recognises the
grammar, reads them back whatever follows, refuses every proper prefix, and
throws only where the grammar has a trap.
-/

namespace QpskB210.Ltp

open QpskB210.Lib

/-- The content variant and its redundant fields agree with the type. A
claim list is one its vector can hold. -/
def SegmentContent.Matches (type : UInt8) : SegmentContent → Prop
  | .data ds => SegType.isData type = true ∧ ds.length.toNat = ds.data.length ∧
      ds.checkpointSerial.isSome = SegType.hasCheckpoint type ∧
      ds.reportSerial.isSome = SegType.hasCheckpoint type
  | .report rs => type = SegType.reportSegment ∧ rs.claims.length ≤ maxClaimsSize
  | .rptAck _ => type = SegType.reportAck
  | .cancel cc => type = SegType.cancelBySender ∨ type = SegType.cancelByReceiver ∨
      ((type = SegType.cancelAckToSender ∨ type = SegType.cancelAckToReceiver) ∧
        cc.reasonCode = 0)

/-- A well-formed segment: version 0, a valid type, extension counts equal to
the sizes of their lists, and matching content. -/
structure LtpSegment.WellFormed (s : LtpSegment) : Prop where
  version : s.version = 0
  validType : SegType.isValid s.segmentType = true
  headerCount : s.headerExtCount.toNat = s.headerExtensions.length
  trailerCount : s.trailerExtCount.toNat = s.trailerExtensions.length
  content : s.content.Matches s.segmentType

namespace LtpSegment

/-! ## The encoder writes words of the grammar -/

theorem extensionLang_encode {ext : LtpExtension} (h : ext.value.length < 2 ^ 64) :
    extensionLang (encodeExtension ext) ext := by
  have hvalue : bytesLang (UInt64.ofNat ext.value.length) ext.value ext.value :=
    ⟨rfl, (toNat_ofNat_of_lt h).symm⟩
  have htag : byteLang [ext.tag] ext.tag := rfl
  exact Lang.bind_intro htag (Lang.bind_intro (Sdnv.lang_encode _)
    (Lang.bind_pure_intro (f := LtpExtension.mk ext.tag) hvalue))

theorem extensionsLang_encode {exts : List LtpExtension} {count : UInt8}
    (hcount : count.toNat = exts.length) (h : ∀ ext ∈ exts, ext.value.length < 2 ^ 64) :
    extensionsLang count (encodeExtensions exts) exts := by
  rw [extensionsLang, hcount]
  exact Lang.replicate_flatMap fun ext hext => extensionLang_encode (h ext hext)

theorem serialsLang_encode {type : UInt8} {ds : DataSegContent}
    (hcp : ds.checkpointSerial.isSome = SegType.hasCheckpoint type)
    (hrs : ds.reportSerial.isSome = SegType.hasCheckpoint type) :
    serialsLang type (encodeSerials type ds) (ds.checkpointSerial, ds.reportSerial) := by
  rw [serialsLang, encodeSerials]
  split
  · rename_i h
    rw [h] at hcp hrs
    obtain ⟨c, hc⟩ := Option.isSome_iff_exists.mp hcp
    obtain ⟨r, hr⟩ := Option.isSome_iff_exists.mp hrs
    rw [hc, hr]
    exact Lang.bind_intro (Sdnv.lang_encode c)
      (Lang.bind_pure_intro (f := fun r => (some c, some r)) (Sdnv.lang_encode r))
  · rename_i h
    rw [Bool.not_eq_true] at h
    rw [h, Option.isSome_eq_false_iff, Option.isNone_iff_eq_none] at hcp hrs
    rw [hcp, hrs]
    exact ⟨rfl, rfl⟩

theorem dataLang_encode {type : UInt8} {ds : DataSegContent}
    (h : (SegmentContent.data ds).Matches type) :
    dataLang type (encodeData type ds) (.data ds) := by
  obtain ⟨-, hlen, hcp, hrs⟩ := h
  have hdata : bytesLang ds.length ds.data ds.data := ⟨rfl, hlen.symm⟩
  refine Lang.bind_intro (Sdnv.lang_encode _) (Lang.bind_intro (Sdnv.lang_encode _)
    (Lang.bind_intro (Sdnv.lang_encode _) (Lang.bind_intro (serialsLang_encode hcp hrs) ?_)))
  exact ⟨ds.data, ds.data, [], by simp, hdata, rfl, rfl⟩

theorem claimLang_encode (claim : ReceptionClaim) : claimLang (encodeClaim claim) claim :=
  Lang.bind_intro (Sdnv.lang_encode claim.offset)
    (Lang.bind_pure_intro (f := ReceptionClaim.mk claim.offset) (Sdnv.lang_encode claim.length))

theorem reportLang_encode {rs : ReportSegContent} (h : rs.claims.length ≤ maxClaimsSize) :
    reportLang {} (encodeReport rs) (.report rs) := by
  have hcount : (UInt64.ofNat rs.claims.length).toNat = rs.claims.length :=
    toNat_ofNat_of_lt (by rw [maxClaimsSize] at h; omega)
  have hclaims : (claimLang.replicate (UInt64.ofNat rs.claims.length).toNat)
      (rs.claims.flatMap encodeClaim) rs.claims := by
    rw [hcount]
    exact Lang.replicate_flatMap fun claim _ => claimLang_encode claim
  refine Lang.bind_intro (Sdnv.lang_encode _) (Lang.bind_intro (Sdnv.lang_encode _)
    (Lang.bind_intro (Sdnv.lang_encode _) (Lang.bind_intro (Sdnv.lang_encode _)
      (Lang.bind_intro (Sdnv.lang_encode _) ?_))))
  refine ⟨(), [], _, rfl, ⟨rfl, by rw [hcount]; exact h, by rw [hcount]; exact h⟩, ?_⟩
  exact ⟨rs.claims, _, [], (List.append_nil _).symm, hclaims, rfl, rfl⟩

/-- Matching content is encodable, as a word of its type's language. -/
theorem contentLang_encode {type : UInt8} {content : SegmentContent}
    (h : content.Matches type) :
    ∃ bytes, encodeContent type content = .ok bytes ∧ contentLang {} type bytes content := by
  cases content with
  | data ds =>
      refine ⟨encodeData type ds, ?_, ?_⟩
      · rw [encodeContent, if_pos h.1]
        rfl
      · rw [contentLang, if_pos h.1]
        exact dataLang_encode h
  | report rs =>
      obtain ⟨rfl, hsize⟩ := h
      exact ⟨_, rfl, reportLang_encode hsize⟩
  | rptAck ra =>
      cases h
      have hserial : Sdnv.lang.bind (fun r => Lang.pure (SegmentContent.rptAck ⟨r⟩))
          (Sdnv.encode ra.reportSerial) (.rptAck ra) :=
        Lang.bind_pure_intro (f := fun r => SegmentContent.rptAck ⟨r⟩) (Sdnv.lang_encode _)
      exact ⟨_, rfl, hserial⟩
  | cancel cc =>
      have hbyte : byteLang [cc.reasonCode] cc.reasonCode := rfl
      have hreason : byteLang.bind (fun r => Lang.pure (SegmentContent.cancel ⟨r⟩))
          [cc.reasonCode] (.cancel cc) :=
        Lang.bind_pure_intro (f := fun r => SegmentContent.cancel ⟨r⟩) hbyte
      obtain ⟨reason⟩ := cc
      rcases h with rfl | rfl | ⟨rfl | rfl, rfl⟩
      · exact ⟨_, rfl, hreason⟩
      · exact ⟨_, rfl, hreason⟩
      · exact ⟨_, rfl, ⟨rfl, rfl⟩⟩
      · exact ⟨_, rfl, ⟨rfl, rfl⟩⟩

theorem headerLang_encode {s : LtpSegment} (hs : s.WellFormed) :
    headerLang (encodeHeader s)
      { segmentType := s.segmentType, engineId := s.engineId, sessionNumber := s.sessionNumber,
        headerExtCount := s.headerExtCount, trailerExtCount := s.trailerExtCount } := by
  have hcontrol : (s.version <<< 4) ||| (s.segmentType &&& 0x0F) = s.segmentType := by
    have hall := @forall_byte (fun b => b < 16 → ((0 : UInt8) <<< 4) ||| (b &&& 0x0F) = b)
      (by decide +kernel)
    rw [hs.version]
    exact hall _ (SegType.lt_of_isValid hs.validType)
  have htype : controlLang [s.segmentType] s.segmentType := ⟨rfl, hs.validType⟩
  rw [encodeHeader, hcontrol]
  refine Lang.bind_intro htype ?_
  refine Lang.bind_intro (Sdnv.lang_encode _) (Lang.bind_intro (Sdnv.lang_encode _) ?_)
  exact ⟨(s.headerExtCount, s.trailerExtCount), _, [], by simp, rfl, rfl, rfl⟩

theorem length_value_lt {exts : List LtpExtension}
    (h : (encodeExtensions exts).length < 2 ^ 64) :
    ∀ ext ∈ exts, ext.value.length < 2 ^ 64 := by
  intro ext hext
  have hle : (encodeExtension ext).length ≤ (encodeExtensions exts).length := by
    rw [encodeExtensions, List.flatMap_def]
    exact (List.sublist_flatten_of_mem (List.mem_map.mpr ⟨ext, hext, rfl⟩)).length_le
  rw [encodeExtension, List.length_cons, List.length_append] at hle
  omega

/-- A well-formed segment encodes; if the result is an object at all, it is a
word of the grammar that carries the segment. -/
theorem segmentLang_encode {s : LtpSegment} (hs : s.WellFormed) :
    ∃ bytes, s.encode = .ok bytes ∧ (bytes.length < objectBound → segmentLang {} bytes s) := by
  obtain ⟨content, hcontent, hlang⟩ := contentLang_encode hs.content
  refine ⟨_, by rw [encode, hcontent]; rfl, fun hbound => ?_⟩
  simp only [List.length_append, objectBound] at hbound
  have hheader := extensionsLang_encode hs.headerCount (length_value_lt (by omega))
  have htrailer := extensionsLang_encode hs.trailerCount (length_value_lt (by omega))
  refine Lang.bind_intro (headerLang_encode hs) (Lang.bind_intro hheader
    (Lang.bind_intro hlang ?_))
  refine ⟨s.trailerExtensions, _, [], by simp, htrailer, rfl, ?_⟩
  have hversion := hs.version
  cases s
  simp only at hversion
  subst hversion
  rfl

/-! ## Reading back -/

theorem decode_eq_ok_some {data : List UInt8} {s : LtpSegment} {n : Nat}
    (h : decodeSegment {} data 0 = .ok (s, n)) : decode data = .ok (some s) := by
  rw [decode, h]

/-- Only the reader of data segments returns data. -/
theorem decodeContent_data {type : UInt8} {data : List UInt8} {ds : DataSegContent}
    {offset stop : Nat} (h : decodeContent {} type data offset = .ok (.data ds, stop)) :
    SegType.isData type = true ∧ decodeData type data offset = .ok (.data ds, stop) := by
  rw [decodeContent] at h
  split at h
  · rename_i htype
    exact ⟨htype, h⟩
  split at h
  · obtain ⟨_, _, -, h⟩ := Reader.bind_eq_ok.mp h
    obtain ⟨_, _, -, h⟩ := Reader.bind_eq_ok.mp h
    obtain ⟨_, _, -, h⟩ := Reader.bind_eq_ok.mp h
    obtain ⟨_, _, -, h⟩ := Reader.bind_eq_ok.mp h
    obtain ⟨_, _, -, h⟩ := Reader.bind_eq_ok.mp h
    obtain ⟨_, _, -, h⟩ := Reader.bind_eq_ok.mp h
    obtain ⟨_, _, -, h⟩ := Reader.bind_eq_ok.mp h
    cases h
  split at h
  · obtain ⟨_, _, -, h⟩ := Reader.bind_eq_ok.mp h
    cases h
  split at h
  · obtain ⟨_, _, -, h⟩ := Reader.bind_eq_ok.mp h
    cases h
  split at h
  · cases h
  · cases h

/-- What `decode` returns was read by the header's and the content's reader. -/
theorem decode_eq_some {data : List UInt8} {s : LtpSegment} (h : decode data = .ok (some s)) :
    ∃ header headerStop offset stop, decodeHeader data 0 = .ok (header, headerStop) ∧
      s.segmentType = header.segmentType ∧
      decodeContent {} s.segmentType data offset = .ok (s.content, stop) := by
  rw [decode] at h
  split at h
  · rename_i hsegment
    cases h
    obtain ⟨header, headerStop, hheader, hsegment⟩ := Reader.bind_eq_ok.mp hsegment
    obtain ⟨extensions, offset, -, hsegment⟩ := Reader.bind_eq_ok.mp hsegment
    obtain ⟨content, stop, hcontent, hsegment⟩ := Reader.bind_eq_ok.mp hsegment
    obtain ⟨trailers, _, -, hsegment⟩ := Reader.bind_eq_ok.mp hsegment
    cases hsegment
    exact ⟨header, headerStop, offset, stop, hheader, rfl, Reader.mapError_eq_ok.mp hcontent⟩
  · cases h
  · cases h

theorem decodeData_of_decode {data : List UInt8} {s : LtpSegment} {ds : DataSegContent}
    (h : decode data = .ok (some s)) (hds : s.content = .data ds) :
    SegType.isData s.segmentType = true ∧
      ∃ offset stop, decodeData s.segmentType data offset = .ok (.data ds, stop) := by
  obtain ⟨_, _, offset, stop, -, -, hcontent⟩ := decode_eq_some h
  rw [hds] at hcontent
  obtain ⟨htype, hdata⟩ := decodeContent_data hcontent
  exact ⟨htype, offset, stop, hdata⟩

/-- The type of a decoded segment is in its first byte. -/
theorem type_of_decode {data : List UInt8} {s : LtpSegment} (h : decode data = .ok (some s)) :
    ∃ control, data.head? = some control ∧ s.segmentType = control &&& 0x0F := by
  obtain ⟨header, _, _, _, hheader, htype, -⟩ := decode_eq_some h
  obtain ⟨type, _, hcontrol, hheader⟩ := Reader.bind_eq_ok.mp hheader
  obtain ⟨_, _, -, hheader⟩ := Reader.bind_eq_ok.mp hheader
  obtain ⟨_, _, -, hheader⟩ := Reader.bind_eq_ok.mp hheader
  obtain ⟨_, _, -, hheader⟩ := Reader.bind_eq_ok.mp hheader
  cases hheader
  obtain ⟨control, _, hbyte, hcontrol⟩ := Reader.bind_eq_ok.mp hcontrol
  have hhead : data.head? = some control := by
    rw [nextByte] at hbyte
    split at hbyte
    · cases hbyte
    · rw [readByte, ← List.head?_eq_getElem?] at hbyte
      split at hbyte
      · rename_i hsome
        cases hbyte
        exact hsome
      · cases hbyte
  refine ⟨control, hhead, htype.trans ?_⟩
  split at hcontrol
  · cases hcontrol
  · split at hcontrol
    · cases hcontrol
      rfl
    · cases hcontrol

/-- What a word of the grammar carries is read back, whatever follows it. -/
theorem decode_of_segmentLang {bytes t : List UInt8} {s : LtpSegment}
    (hs : segmentLang {} bytes s) (hb : (bytes ++ t).length < objectBound) :
    decode (bytes ++ t) = .ok (some s) :=
  decode_eq_ok_some ((recognises_segment {}).read_append hs hb)

/-- The form the engine's runs use: a sent segment arrives as it was. -/
theorem decode_encode {s : LtpSegment} {bytes : List UInt8} (hs : s.WellFormed)
    (henc : s.encode = .ok bytes) (hb : bytes.length < objectBound) :
    decode bytes = .ok (some s) := by
  obtain ⟨bytes', henc', hlang⟩ := segmentLang_encode hs
  rw [henc, Except.ok.injEq] at henc'
  subst henc'
  have h := decode_of_segmentLang (t := []) (hlang hb) (by simpa using hb)
  rwa [List.append_nil] at h

/-- **Round trip.** Every well-formed segment encodes, and decoding the
result followed by any bytes returns the segment. -/
theorem decode_encode_append (s : LtpSegment) (hs : s.WellFormed) :
    ∃ bytes, s.encode = .ok bytes ∧ ∀ t : List UInt8,
      (bytes ++ t).length < objectBound → decode (bytes ++ t) = .ok (some s) := by
  obtain ⟨bytes, henc, hlang⟩ := segmentLang_encode hs
  refine ⟨bytes, henc, fun t hb => ?_⟩
  have hbytes : bytes.length < objectBound := by
    rw [List.length_append] at hb
    omega
  exact decode_of_segmentLang (hlang hbytes) hb

/-- A report with claims, an extension and a value of full width. -/
def sampleReport : LtpSegment :=
  { segmentType := SegType.reportSegment, engineId := 0xFFFFFFFFFFFFFFFF, sessionNumber := 300,
    headerExtCount := 1, headerExtensions := [{ tag := 7, value := [1, 2, 3] }],
    content := .report { reportSerial := 1, checkpointSerial := 2, upperBound := 400,
                         claims := [{ offset := 0, length := 100 },
                                    { offset := 200, length := 200 }] } }

theorem sampleReport_wellFormed : sampleReport.WellFormed where
  version := rfl
  validType := rfl
  headerCount := rfl
  trailerCount := rfl
  content := ⟨rfl, by decide⟩

theorem decode_encode_append_sample :
    ∃ bytes, sampleReport.encode = .ok bytes ∧ ∀ t : List UInt8,
      (bytes ++ t).length < objectBound → decode (bytes ++ t) = .ok (some sampleReport) :=
  decode_encode_append sampleReport sampleReport_wellFormed

/-- **Truncation.** No proper prefix of an encoded segment is accepted as a
shorter segment: decoding it returns `nullopt`. -/
theorem decode_take_encode (s : LtpSegment) (hs : s.WellFormed) :
    ∃ bytes, s.encode = .ok bytes ∧ (bytes.length < objectBound →
      ∀ n < bytes.length, decode (bytes.take n) = .ok none) := by
  obtain ⟨bytes, henc, hlang⟩ := segmentLang_encode hs
  refine ⟨bytes, henc, fun hb n hn => ?_⟩
  have hlen : (bytes.take n).length < bytes.length := by
    rw [List.length_take]
    omega
  obtain ⟨e, he, hfatal⟩ := (recognises_segment {}).prefix_rejected (hlang hb) hb
    (List.take_prefix n bytes) hlen
  rw [decode, he, not_not.mp hfatal]

theorem decode_take_encode_sample :
    ∃ bytes, sampleReport.encode = .ok bytes ∧ (bytes.length < objectBound →
      ∀ n < bytes.length, decode (bytes.take n) = .ok none) :=
  decode_take_encode sampleReport sampleReport_wellFormed

/-! ## Accepted segments -/

theorem extensionLang_shortest {w : List UInt8} {ext : LtpExtension} (h : extensionLang w ext) :
    (encodeExtension ext).length ≤ w.length := by
  obtain ⟨tag, _, _, rfl, rfl, len, wlen, _, rfl, hlen, h⟩ := h
  obtain ⟨value, _, _, rfl, ⟨rfl, hvalue⟩, rfl, rfl⟩ := h
  have hsize := Sdnv.length_encode_le_of_lang hlen
  rw [encodeExtension, hvalue, UInt64.ofNat_toNat]
  simp only [List.length_cons, List.length_append, List.length_nil]
  omega

/-- A list of extensions has as many as its count says. -/
theorem extensionsLang_shortest {count : UInt8} {w : List UInt8} {exts : List LtpExtension}
    (h : extensionsLang count w exts) :
    count.toNat = exts.length ∧ (encodeExtensions exts).length ≤ w.length := by
  obtain ⟨hcount, hbytes⟩ := Lang.replicate_shortest (fun _ _ hw => extensionLang_shortest hw) h
  exact ⟨hcount.symm, hbytes⟩

theorem serialsLang_shortest {type : UInt8} {w : List UInt8} {ds : DataSegContent}
    (h : serialsLang type w (ds.checkpointSerial, ds.reportSerial)) :
    ds.checkpointSerial.isSome = SegType.hasCheckpoint type ∧
      ds.reportSerial.isSome = SegType.hasCheckpoint type ∧
      (encodeSerials type ds).length ≤ w.length := by
  rw [serialsLang] at h
  rw [encodeSerials]
  split at h
  · rename_i hcp
    obtain ⟨c, wc, _, rfl, hc, r, wr, _, rfl, hr, rfl, hserials⟩ := h
    rw [Prod.mk.injEq] at hserials
    obtain ⟨hcs, hrs⟩ := hserials
    have hclen := Sdnv.length_encode_le_of_lang hc
    have hrlen := Sdnv.length_encode_le_of_lang hr
    rw [hcs, hrs, if_pos hcp, hcp]
    refine ⟨rfl, rfl, ?_⟩
    simp only [Option.getD_some, List.length_append, List.length_nil]
    omega
  · rename_i hcp
    obtain ⟨rfl, hserials⟩ := h
    rw [Prod.mk.injEq] at hserials
    rw [hserials.1, hserials.2, if_neg hcp]
    rw [Bool.not_eq_true] at hcp
    exact ⟨hcp.symm, hcp.symm, Nat.le_refl _⟩

theorem dataLang_shortest {type : UInt8} {w : List UInt8} {content : SegmentContent}
    (htype : SegType.isData type = true) (h : dataLang type w content) :
    content.Matches type ∧ ∃ ds, content = .data ds ∧ (encodeData type ds).length ≤ w.length := by
  obtain ⟨id, _, _, rfl, hid, offset, _, _, rfl, hoffset, length, _, _, rfl, hlength, h⟩ := h
  obtain ⟨serials, _, _, rfl, hserials, data, _, _, rfl, ⟨rfl, hdata⟩, rfl, rfl⟩ := h
  have hidlen := Sdnv.length_encode_le_of_lang hid
  have hofflen := Sdnv.length_encode_le_of_lang hoffset
  have hlenlen := Sdnv.length_encode_le_of_lang hlength
  obtain ⟨hcp, hrs, hserlen⟩ := @serialsLang_shortest type _
    { checkpointSerial := serials.1, reportSerial := serials.2 } hserials
  refine ⟨⟨htype, hdata.symm, hcp, hrs⟩, _, rfl, ?_⟩
  have hser : ∀ ds : DataSegContent, ds.checkpointSerial = serials.1 → ds.reportSerial = serials.2 →
      encodeSerials type ds = encodeSerials type
        { checkpointSerial := serials.1, reportSerial := serials.2 } := by
    intro ds hc hr
    rw [encodeSerials, encodeSerials, hc, hr]
  rw [encodeData, hser _ rfl rfl]
  simp only [List.length_append, List.length_nil]
  omega

theorem claimLang_shortest {w : List UInt8} {claim : ReceptionClaim} (h : claimLang w claim) :
    (encodeClaim claim).length ≤ w.length := by
  obtain ⟨offset, _, _, rfl, hoffset, length, _, _, rfl, hlength, rfl, rfl⟩ := h
  have hofflen := Sdnv.length_encode_le_of_lang hoffset
  have hlenlen := Sdnv.length_encode_le_of_lang hlength
  simp only [encodeClaim, List.length_append, List.length_nil]
  omega

theorem reportLang_shortest {w : List UInt8} {content : SegmentContent}
    (h : reportLang {} w content) :
    content.Matches SegType.reportSegment ∧
      ∃ rs, content = .report rs ∧ (encodeReport rs).length ≤ w.length := by
  obtain ⟨serial, _, _, rfl, hserial, cp, _, _, rfl, hcp, upper, _, _, rfl, hupper, h⟩ := h
  obtain ⟨lower, _, _, rfl, hlower, count, _, _, rfl, hcount, _, _, _, rfl, hreserve, h⟩ := h
  obtain ⟨rfl, hsize, -⟩ := hreserve
  obtain ⟨claims, _, _, rfl, hclaims, rfl, rfl⟩ := h
  obtain ⟨hnumber, hclaimslen⟩ := Lang.replicate_shortest (fun _ _ hw => claimLang_shortest hw)
    hclaims
  have hclaimslen : (claims.flatMap encodeClaim).length ≤ _ := hclaimslen
  have hseriallen := Sdnv.length_encode_le_of_lang hserial
  have hcplen := Sdnv.length_encode_le_of_lang hcp
  have hupperlen := Sdnv.length_encode_le_of_lang hupper
  have hlowerlen := Sdnv.length_encode_le_of_lang hlower
  have hcountlen := Sdnv.length_encode_le_of_lang hcount
  refine ⟨⟨rfl, by rw [hnumber]; exact hsize⟩, _, rfl, ?_⟩
  simp only [encodeReport, hnumber, UInt64.ofNat_toNat, List.length_append, List.length_nil]
  omega

/-- Accepted content is of its type's variant, and writing it again takes no
more bytes. -/
theorem contentLang_shortest {type : UInt8} {w : List UInt8} {content : SegmentContent}
    (h : contentLang {} type w content) :
    content.Matches type ∧
      ∃ bytes, encodeContent type content = .ok bytes ∧ bytes.length ≤ w.length := by
  rw [contentLang] at h
  by_cases hdata : SegType.isData type = true
  · rw [if_pos hdata] at h
    obtain ⟨hmatches, ds, rfl, hlen⟩ := dataLang_shortest hdata h
    exact ⟨hmatches, _, by rw [encodeContent, if_pos hdata]; rfl, hlen⟩
  rw [if_neg hdata] at h
  by_cases hreport : type = SegType.reportSegment
  · subst hreport
    rw [if_pos rfl] at h
    obtain ⟨hmatches, rs, rfl, hlen⟩ := reportLang_shortest h
    exact ⟨hmatches, _, rfl, hlen⟩
  rw [if_neg hreport] at h
  by_cases hack : type = SegType.reportAck
  · subst hack
    rw [if_pos rfl] at h
    obtain ⟨serial, _, _, rfl, hserial, rfl, rfl⟩ := h
    have hlen := Sdnv.length_encode_le_of_lang hserial
    exact ⟨rfl, _, rfl, by simpa using hlen⟩
  rw [if_neg hack] at h
  by_cases hcancel : type = SegType.cancelBySender ∨ type = SegType.cancelByReceiver
  · rw [if_pos hcancel] at h
    obtain ⟨reason, _, _, rfl, rfl, rfl, rfl⟩ := h
    refine ⟨hcancel.imp_right .inl, [reason], ?_, by simp⟩
    rcases hcancel with rfl | rfl <;> rfl
  rw [if_neg hcancel] at h
  by_cases hcancelAck : type = SegType.cancelAckToSender ∨ type = SegType.cancelAckToReceiver
  · erw [if_pos hcancelAck] at h
    obtain ⟨rfl, rfl⟩ := h
    refine ⟨.inr (.inr ⟨hcancelAck, rfl⟩), [], ?_, Nat.le_refl _⟩
    rcases hcancelAck with rfl | rfl <;> rfl
  · erw [if_neg hcancelAck] at h
    exact h.elim

/-- A word of the grammar carries a well-formed segment, and is no shorter
than that segment's encoding. -/
theorem segmentLang_shortest {w : List UInt8} {s : LtpSegment} (h : segmentLang {} w s) :
    s.WellFormed ∧ ∃ bytes, s.encode = .ok bytes ∧ bytes.length ≤ w.length := by
  obtain ⟨header, _, _, rfl, hheader, hexts, _, _, rfl, hheaderExts, h⟩ := h
  obtain ⟨content, _, _, rfl, hcontent, texts, _, _, rfl, htrailerExts, rfl, rfl⟩ := h
  obtain ⟨type, _, _, rfl, ⟨rfl, htype⟩, engineId, _, _, rfl, hengine, hheader⟩ := hheader
  obtain ⟨sessionNumber, _, _, rfl, hsession, counts, _, _, rfl, rfl, rfl, rfl⟩ := hheader
  obtain ⟨hheaderCount, hheaderLen⟩ := extensionsLang_shortest hheaderExts
  obtain ⟨htrailerCount, htrailerLen⟩ := extensionsLang_shortest htrailerExts
  obtain ⟨hmatches, bytes, hencode, hcontentLen⟩ := contentLang_shortest hcontent
  have hengineLen := Sdnv.length_encode_le_of_lang hengine
  have hsessionLen := Sdnv.length_encode_le_of_lang hsession
  refine ⟨⟨rfl, htype, hheaderCount, htrailerCount, hmatches⟩, _,
    bind_eq_ok.mpr ⟨bytes, hencode, rfl⟩, ?_⟩
  simp only [encodeHeader, List.length_append, List.length_cons, List.length_nil]
  omega

/-- **Accepted segments.** What the decoder returns is well formed, and is
what its own encoding, which is no longer than the input, decodes to. -/
theorem decode_reencodes {b : List UInt8} {s : LtpSegment} (hb : b.length < objectBound)
    (h : decode b = .ok (some s)) :
    s.WellFormed ∧ ∃ bytes, s.encode = .ok bytes ∧ bytes.length ≤ b.length ∧
      decode bytes = .ok (some s) := by
  obtain ⟨n, hread⟩ : ∃ n, decodeSegment {} b 0 = .ok (s, n) := by
    rw [decode] at h
    split at h
    · rename_i n hread
      cases h
      exact ⟨n, hread⟩
    · cases h
    · cases h
  obtain ⟨w, hpre, hlang, -⟩ := ((recognises_segment {}).ok_iff hb (Nat.zero_le _) s n).mp hread
  obtain ⟨hwellFormed, bytes, hencode, hlen⟩ := segmentLang_shortest hlang
  have hw : w.length ≤ b.length := by
    rw [List.drop_zero] at hpre
    exact hpre.length_le
  have hle : bytes.length ≤ b.length := hlen.trans hw
  exact ⟨hwellFormed, bytes, hencode, hle, decode_encode hwellFormed hencode (by omega)⟩

/-! ## Totality -/

/-- Some length field of the input is too large: `b` starts with a well-formed
part of a segment that ends in an extension or data length reaching past
`2 ^ 64`, or in a claim count that no vector can hold or that there is no
memory for. -/
def OverlongLength (heap : Heap) (b : List UInt8) : Prop :=
  ∃ w e, w <+: b ∧ segmentTrap heap 0 w e

/-- The exceptions of a vector that cannot take what it is given. -/
def Exit.Vector (e : Exit) : Prop := e = .thrown .lengthError ∨ e = .thrown .badAlloc

variable {heap : Heap}

theorem decode_error_iff {b : List UInt8} {e : Exn} :
    decode b heap = .error e ↔ decodeSegment heap b 0 = .error (.thrown e) := by
  rw [decode]
  cases h : decodeSegment heap b 0 with
  | ok r => simp
  | error exit => cases exit <;> simp

theorem bytesTrap_only (len : UInt64) : Trap.Only Exit.Vector (bytesTrap len) :=
  fun _ _ _ h => .inl h.2.2

theorem reserveTrap_only (claimCount : UInt64) :
    Trap.Only Exit.Vector (reserveTrap heap claimCount) := by
  rintro _ _ _ ⟨-, ⟨-, he⟩ | ⟨-, -, he⟩⟩
  · exact .inl he
  · exact .inr he

theorem extensionsTrap_only (count : UInt8) : Trap.Only Exit.Vector (extensionsTrap count) :=
  Trap.Only.replicate (.after fun _ => .after bytesTrap_only) _

theorem contentTrap_only (type : UInt8) : Trap.Only Exit.Vector (contentTrap heap type) := by
  rw [contentTrap]
  split
  · exact .after fun _ => .after fun _ => .after fun length => .after fun _ => bytesTrap_only length
  · split
    · exact .after fun _ => .after fun _ => .after fun _ => .after fun _ => .after reserveTrap_only
    · exact .none

/-- The only exceptions that leave the decoder are `std::length_error` and
`std::bad_alloc`. -/
theorem segmentTrap_only : Trap.Only Exit.Vector (segmentTrap heap) :=
  .after fun _ => .bind (extensionsTrap_only _) fun _ =>
    .bind (contentTrap_only _) fun _ => extensionsTrap_only _

theorem decode_throws_iff {b : List UInt8} (hb : b.length < objectBound) (e : Exn) :
    decode b heap = .error e ↔ ∃ w, w <+: b ∧ segmentTrap heap 0 w (.thrown e) := by
  have h := (recognises_segment heap).fatal_iff hb (Nat.zero_le _) (.thrown e)
  rw [List.drop_zero] at h
  rw [decode_error_iff, ← h]
  exact ⟨fun he => ⟨he, Exit.noConfusion⟩, fun he => he.1⟩

/-- **Totality.** Whatever memory there is, the decoder returns a segment or
`nullopt` exactly on the inputs without an overlong length, and reads inside
the buffer on all. -/
theorem decode_returns_iff (heap : Heap) (b : List UInt8) (hb : b.length < objectBound) :
    ((∃ r, decode b heap = .ok r) ↔ ¬ OverlongLength heap b) ∧
      decode b heap ≠ .error .outOfBounds := by
  refine ⟨⟨?_, fun h => ?_⟩, fun h => ?_⟩
  · intro hreturns htrapped
    obtain ⟨r, hr⟩ := hreturns
    obtain ⟨w, e, hw, htrap⟩ := htrapped
    obtain ⟨ex, rfl⟩ : ∃ ex, e = .thrown ex := by
      rcases segmentTrap_only _ _ _ htrap with he | he
      · exact ⟨_, he⟩
      · exact ⟨_, he⟩
    rw [(decode_throws_iff hb ex).mpr ⟨w, hw, htrap⟩] at hr
    cases hr
  · cases hd : decode b heap with
    | ok r => exact ⟨r, rfl⟩
    | error e =>
        obtain ⟨w, hw, htrap⟩ := (decode_throws_iff hb e).mp hd
        exact (h ⟨w, _, hw, htrap⟩).elim
  · obtain ⟨w, -, htrap⟩ := (decode_throws_iff hb .outOfBounds).mp h
    rcases segmentTrap_only _ _ _ htrap with he | he
    · cases he
    · cases he

/-- A red data segment that announces `2 ^ 64 - 1` bytes. -/
def overlongData : List UInt8 :=
  [0x00, 1, 1, 0, 0, 1, 0, 0x81, 0xFF, 0xFF, 0xFF, 0xFF, 0xFF, 0xFF, 0xFF, 0xFF, 0x7F]

theorem decode_overlongData : decode overlongData = .error .lengthError := by
  decide +kernel

/-- A report that announces `2 ^ 59 - 1` claims, the most a vector can count,
where there is memory for `2 ^ 53` of them. -/
example : decode [0x06, 1, 1, 0, 0, 1, 1, 0, 0, 0x87, 0xFF, 0xFF, 0xFF, 0xFF, 0xFF, 0xFF, 0xFF,
    0x7F] { claims := 2 ^ 53 } = .error .badAlloc := by
  decide +kernel

theorem decode_returns_iff_overlongData :
    ((∃ r, decode overlongData { claims := 2 ^ 53 } = .ok r) ↔
        ¬ OverlongLength { claims := 2 ^ 53 } overlongData) ∧
      decode overlongData { claims := 2 ^ 53 } ≠ .error .outOfBounds :=
  decode_returns_iff { claims := 2 ^ 53 } overlongData (by decide)

/-- The decoder is not total: the announced length wraps the bounds check. -/
theorem decode_not_total : ¬ ∀ (heap : Heap) (b : List UInt8), b.length < objectBound →
    ∃ r, decode b heap = .ok r := by
  intro h
  obtain ⟨r, hr⟩ := h {} overlongData (by decide)
  rw [decode_overlongData] at hr
  cases hr

end LtpSegment

end QpskB210.Ltp
