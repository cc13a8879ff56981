import QpskB210.Ltp.Sdnv

/-!
# LTP — Segment

The segment data model and the two hand-written walks over its wire format,
`LtpSegment.encode` and `LtpSegment.decode`.

The decoder runs as a `Reader`. Its three ways out besides a segment are the
source's: `nullopt` for malformed input, a caught `std::runtime_error` (which
becomes `nullopt`), and anything else thrown, which leaves `decode`.
-/

namespace QpskB210.Ltp

open QpskB210.Lib

/-! ## Segment type codes (4-bit field) -/

namespace SegType

def redData : UInt8 := 0
def redDataCp : UInt8 := 1
def redDataCpEorp : UInt8 := 2
def redDataCpEorpEob : UInt8 := 3
def greenData : UInt8 := 4
def greenDataEob : UInt8 := 5
def reportSegment : UInt8 := 6
def reportAck : UInt8 := 7
def cancelBySender : UInt8 := 8
def cancelAckToSender : UInt8 := 9
def cancelByReceiver : UInt8 := 12
def cancelAckToReceiver : UInt8 := 13

/-- The type code is a valid LTP segment type. -/
def isValid (type : UInt8) : Bool :=
  type ∈ [0, 1, 2, 3, 4, 5, 6, 7, 8, 9, 12, 13]

/-- The segment type is a data segment (red or green). -/
def isData (type : UInt8) : Bool := type ≤ 5

/-- The segment type is a red data segment. -/
def isRed (type : UInt8) : Bool := type ≤ 3

/-- The segment type is a green data segment. -/
def isGreen (type : UInt8) : Bool := type ≥ 4 && type ≤ 5

/-- The segment type has the checkpoint flag. -/
def hasCheckpoint (type : UInt8) : Bool := type ≥ 1 && type ≤ 3

/-- The segment type has the EOB flag. -/
def hasEob (type : UInt8) : Bool := type = 3 || type = 5

end SegType

/-! ## Segments -/

structure LtpExtension where
  tag : UInt8 := 0
  value : List UInt8 := []
deriving DecidableEq, Repr

structure ReceptionClaim where
  offset : UInt64 := 0
  length : UInt64 := 0
deriving DecidableEq, Repr

structure DataSegContent where
  clientServiceId : UInt64 := 1
  offset : UInt64 := 0
  length : UInt64 := 0
  checkpointSerial : Option UInt64 := none
  reportSerial : Option UInt64 := none
  data : List UInt8 := []
deriving DecidableEq, Repr

structure ReportSegContent where
  reportSerial : UInt64 := 0
  checkpointSerial : UInt64 := 0
  upperBound : UInt64 := 0
  lowerBound : UInt64 := 0
  claims : List ReceptionClaim := []
deriving DecidableEq, Repr

structure RptAckContent where
  reportSerial : UInt64 := 0
deriving DecidableEq, Repr

structure CancelContent where
  reasonCode : UInt8 := 0
deriving DecidableEq, Repr

/-- The `std::variant` of the four content types. -/
inductive SegmentContent where
  | data (ds : DataSegContent)
  | report (rs : ReportSegContent)
  | rptAck (ra : RptAckContent)
  | cancel (cc : CancelContent)
deriving DecidableEq, Repr

namespace SegmentContent

/-- `std::get<DataSegContent>`; the other three follow. -/
def getData : SegmentContent → Except Exn DataSegContent
  | .data ds => .ok ds
  | _ => .error .badVariantAccess

def getReport : SegmentContent → Except Exn ReportSegContent
  | .report rs => .ok rs
  | _ => .error .badVariantAccess

def getRptAck : SegmentContent → Except Exn RptAckContent
  | .rptAck ra => .ok ra
  | _ => .error .badVariantAccess

def getCancel : SegmentContent → Except Exn CancelContent
  | .cancel cc => .ok cc
  | _ => .error .badVariantAccess

end SegmentContent

structure LtpSegment where
  version : UInt8 := 0
  segmentType : UInt8 := 0
  engineId : UInt64 := 0
  sessionNumber : UInt64 := 0
  headerExtCount : UInt8 := 0
  trailerExtCount : UInt8 := 0
  headerExtensions : List LtpExtension := []
  trailerExtensions : List LtpExtension := []
  content : SegmentContent := .data {}
deriving DecidableEq, Repr

namespace LtpSegment

/-! ## encode -/

def encodeExtension (ext : LtpExtension) : List UInt8 :=
  ext.tag :: (Sdnv.encode (UInt64.ofNat ext.value.length) ++ ext.value)

def encodeExtensions (exts : List LtpExtension) : List UInt8 :=
  exts.flatMap encodeExtension

def encodeClaim (claim : ReceptionClaim) : List UInt8 :=
  Sdnv.encode claim.offset ++ Sdnv.encode claim.length

/-- The serials of a checkpoint, `value_or(0)` when the segment lacks one. -/
def encodeSerials (type : UInt8) (ds : DataSegContent) : List UInt8 :=
  if SegType.hasCheckpoint type then
    Sdnv.encode (ds.checkpointSerial.getD 0) ++ Sdnv.encode (ds.reportSerial.getD 0)
  else []

def encodeData (type : UInt8) (ds : DataSegContent) : List UInt8 :=
  Sdnv.encode ds.clientServiceId ++ (Sdnv.encode ds.offset ++ (Sdnv.encode ds.length ++
    (encodeSerials type ds ++ ds.data)))

def encodeReport (rs : ReportSegContent) : List UInt8 :=
  Sdnv.encode rs.reportSerial ++ (Sdnv.encode rs.checkpointSerial ++
    (Sdnv.encode rs.upperBound ++ (Sdnv.encode rs.lowerBound ++
      (Sdnv.encode (UInt64.ofNat rs.claims.length) ++ rs.claims.flatMap encodeClaim))))

/-- Segment content (type-dependent). Cancel-ack segments have no body. -/
def encodeContent (type : UInt8) (content : SegmentContent) : Except Exn (List UInt8) :=
  if SegType.isData type then do
    let ds ← content.getData
    pure (encodeData type ds)
  else if type = SegType.reportSegment then do
    let rs ← content.getReport
    pure (encodeReport rs)
  else if type = SegType.reportAck then do
    let ra ← content.getRptAck
    pure (Sdnv.encode ra.reportSerial)
  else if type = SegType.cancelBySender ∨ type = SegType.cancelByReceiver then do
    let cc ← content.getCancel
    pure [cc.reasonCode]
  else pure []

/-- Control byte, session id, extension counts. -/
def encodeHeader (s : LtpSegment) : List UInt8 :=
  ((s.version <<< 4) ||| (s.segmentType &&& 0x0F)) ::
    (Sdnv.encode s.engineId ++ (Sdnv.encode s.sessionNumber ++
      [s.headerExtCount, s.trailerExtCount]))

/-- `LtpSegment::encode`. -/
def encode (s : LtpSegment) : Except Exn (List UInt8) := do
  let content ← encodeContent s.segmentType s.content
  pure (encodeHeader s ++ (encodeExtensions s.headerExtensions ++
    (content ++ encodeExtensions s.trailerExtensions)))

/-! ## decode -/

/-- How `decode` is left without a segment: by `return nullopt`, or by an
exception on its way out. -/
inductive Exit where
  | nullopt
  | thrown (e : Exn)
deriving DecidableEq, Repr

abbrev Decoder (α : Type) : Type := Reader UInt8 Exit α

/-- `catch (const std::runtime_error&) { return std::nullopt; }` -/
def catchRuntimeError : Exit → Exit
  | .thrown (.runtimeError _) => .nullopt
  | e => e

/-- `data[offset++]`, unchecked in the source. -/
def readByte : Decoder UInt8 := fun data offset =>
  match data[offset]? with
  | some byte => .ok (byte, offset + 1)
  | none => .error (.thrown .outOfBounds)

/-- `if (offset >= length) return nullopt;` and then `data[offset++]`. -/
def nextByte : Decoder UInt8 := fun data offset =>
  if data.length ≤ offset then .error .nullopt else readByte data offset

/-- Extension counts, behind the check `offset + 2 > length`. -/
def extensionCounts : Decoder (UInt8 × UInt8) := fun data offset =>
  if data.length < offset + 2 then .error .nullopt
  else (do
    let headerExtCount ← readByte
    let trailerExtCount ← readByte
    pure (headerExtCount, trailerExtCount) : Decoder (UInt8 × UInt8)) data offset

/-- `sdnv::decode(data, length, offset)`. -/
def sdnv : Decoder UInt64 := Sdnv.decode.mapError .thrown

/-- The check `offset + len > length` (in 64 bits), the `assign` of the
bytes it lets through, and `offset += len`. -/
def takeBytes (len : UInt64) : Decoder (List UInt8) := fun data offset =>
  let stop := (offset + len.toNat) % 2 ^ 64
  if data.length < stop then .error .nullopt
  else
    match assignRange data offset stop with
    | .ok bytes => .ok (bytes, stop)
    | .error e => .error (.thrown e)

/-- `claims.reserve(claim_count)`: the vector can count no further, or there
is no memory for so many. -/
def reserveClaims (heap : Heap) (claimCount : UInt64) : Decoder Unit :=
  if maxClaimsSize < claimCount.toNat then Reader.fail (.thrown .lengthError)
  else if heap.claims < claimCount.toNat then Reader.fail (.thrown .badAlloc)
  else pure ()

/-- The loop body of `decode_extensions`; only the SDNV is inside its
`try`/`catch (...)`. -/
def decodeExtension : Decoder LtpExtension := do
  let tag ← nextByte
  let valLen ← sdnv.mapError fun _ => .nullopt
  let value ← takeBytes valLen
  pure { tag := tag, value := value }

/-- `decode_extensions`; both callers turn its `false` into `nullopt`. -/
def decodeExtensions (count : UInt8) : Decoder (List LtpExtension) :=
  decodeExtension.replicate count.toNat

/-- The two serials of a checkpoint segment. -/
def decodeSerials (type : UInt8) : Decoder (Option UInt64 × Option UInt64) :=
  if SegType.hasCheckpoint type then do
    let checkpointSerial ← sdnv
    let reportSerial ← sdnv
    pure (some checkpointSerial, some reportSerial)
  else pure (none, none)

def decodeData (type : UInt8) : Decoder SegmentContent := do
  let clientServiceId ← sdnv
  let offset ← sdnv
  let length ← sdnv
  let serials ← decodeSerials type
  let data ← takeBytes length
  pure (.data { clientServiceId := clientServiceId, offset := offset, length := length,
                checkpointSerial := serials.1, reportSerial := serials.2, data := data })

def decodeClaim : Decoder ReceptionClaim := do
  let offset ← sdnv
  let length ← sdnv
  pure { offset := offset, length := length }

def decodeReport (heap : Heap) : Decoder SegmentContent := do
  let reportSerial ← sdnv
  let checkpointSerial ← sdnv
  let upperBound ← sdnv
  let lowerBound ← sdnv
  let claimCount ← sdnv
  reserveClaims heap claimCount
  let claims ← decodeClaim.replicate claimCount.toNat
  pure (.report { reportSerial := reportSerial, checkpointSerial := checkpointSerial,
                  upperBound := upperBound, lowerBound := lowerBound, claims := claims })

/-- Segment content, by type. -/
def decodeContent (heap : Heap) (type : UInt8) : Decoder SegmentContent :=
  if SegType.isData type then decodeData type
  else if type = SegType.reportSegment then decodeReport heap
  else if type = SegType.reportAck then do
    let reportSerial ← sdnv
    pure (.rptAck { reportSerial := reportSerial })
  else if type = SegType.cancelBySender ∨ type = SegType.cancelByReceiver then do
    let reasonCode ← nextByte
    pure (.cancel { reasonCode := reasonCode })
  else if type = SegType.cancelAckToSender ∨ type = SegType.cancelAckToReceiver then
    pure (.cancel { reasonCode := 0 })
  else Reader.fail .nullopt

/-- The control byte, with the version and type checks. -/
def decodeControl : Decoder UInt8 := do
  let control ← nextByte
  if (control >>> 4) &&& 0x0F ≠ 0 then Reader.fail .nullopt
  else if SegType.isValid (control &&& 0x0F) then pure (control &&& 0x0F)
  else Reader.fail .nullopt

/-- The fixed fields in front of the header extensions; version, extension
lists and content keep their defaults. -/
def decodeHeader : Decoder LtpSegment := do
  let segmentType ← decodeControl
  let engineId ← sdnv.mapError catchRuntimeError
  let sessionNumber ← sdnv.mapError catchRuntimeError
  let counts ← extensionCounts
  pure { segmentType := segmentType, engineId := engineId, sessionNumber := sessionNumber,
         headerExtCount := counts.1, trailerExtCount := counts.2 }

def decodeSegment (heap : Heap) : Decoder LtpSegment := do
  let seg ← decodeHeader
  let headerExtensions ← decodeExtensions seg.headerExtCount
  let content ← (decodeContent heap seg.segmentType).mapError catchRuntimeError
  let trailerExtensions ← decodeExtensions seg.trailerExtCount
  pure { seg with headerExtensions := headerExtensions, content := content,
                  trailerExtensions := trailerExtensions }

/-- `LtpSegment::decode`. -/
def decode (data : List UInt8) (heap : Heap := {}) : Except Exn (Option LtpSegment) :=
  match decodeSegment heap data 0 with
  | .ok (seg, _) => .ok (some seg)
  | .error .nullopt => .ok none
  | .error (.thrown e) => .error e

end LtpSegment

end QpskB210.Ltp
