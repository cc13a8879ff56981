import QpskB210.Ltp.ReceptionTracker

/-!
# LTP — Session

The state of one session, and how a receiver session takes in the data of a
segment.
-/

namespace QpskB210.Ltp

inductive SessionRole where
  | originator
  | receiver
deriving DecidableEq, Repr

inductive SessionState where
  | active
  | completed
  | cancelled
deriving DecidableEq, Repr

/-- `clientData` is the full block at the originator and the reassembly
buffer at the receiver. -/
structure LtpSession where
  engineId : UInt64 := 0
  sessionNumber : UInt64 := 0
  role : SessionRole := .originator
  state : SessionState := .active
  clientData : List UInt8 := []
  totalDataLength : UInt64 := 0
  isRed : Bool := true
  receptionTracker : ReceptionTracker := {}
  checkpointSerialCounter : UInt64 := 0
  reportSerialCounter : UInt64 := 0
  retransmissionCount : UInt8 := 0
deriving DecidableEq, Repr

structure SessionKey where
  engineId : UInt64 := 0
  sessionNumber : UInt64 := 0
deriving DecidableEq, Repr

/-- A client-service block: the bytes of a `std::vector`, which lie in one
process's address space (57 bits with five-level paging). -/
structure Block where
  bytes : List UInt8
  size_lt : bytes.length < 2 ^ 57

theorem Block.toNat_size (data : Block) :
    (UInt64.ofNat data.bytes.length).toNat = data.bytes.length :=
  toNat_ofNat_of_lt (data.size_lt.trans (by decide))

namespace LtpSession

/-- `client_data.resize(seg_end)`, for a `seg_end` beyond the buffer. -/
def resize (buffer : List UInt8) (segEnd : Nat) : Except Exn (List UInt8) :=
  if segEnd ≤ buffer.length then .ok buffer
  else if objectBound ≤ segEnd then .error .lengthError
  else .ok (buffer ++ List.replicate (segEnd - buffer.length) 0)

/-- `std::copy` of the segment's data to its offset, unchecked in the source. -/
def copyData (buffer : List UInt8) (ds : DataSegContent) : Except Exn (List UInt8) :=
  let offset := ds.offset.toNat
  if ds.length = 0 then .ok buffer
  else if offset + ds.data.length ≤ buffer.length then
    .ok (buffer.take offset ++ (ds.data ++ buffer.drop (offset + ds.data.length)))
  else .error .outOfBounds

/-- Store the data in the reassembly buffer, track the received byte range
and take the total length from an EOB segment. -/
def store (session : LtpSession) (type : UInt8) (ds : DataSegContent) :
    Except Exn LtpSession := do
  let segEnd := ds.offset + ds.length
  let buffer ← resize session.clientData segEnd.toNat
  let buffer ← copyData buffer ds
  pure { session with
    clientData := buffer
    receptionTracker := session.receptionTracker.addRange ds.offset ds.length
    totalDataLength := if SegType.hasEob type then segEnd else session.totalDataLength }

/-- Taking in data changes the buffer, the tracker and the total length only. -/
theorem store_eq {session stored : LtpSession} {type : UInt8} {ds : DataSegContent}
    (h : session.store type ds = .ok stored) :
    ∃ resized buffer, resize session.clientData (ds.offset + ds.length).toNat = .ok resized ∧
      copyData resized ds = .ok buffer ∧
      stored =
        { session with
          clientData := buffer
          receptionTracker := session.receptionTracker.addRange ds.offset ds.length
          totalDataLength :=
            if SegType.hasEob type then ds.offset + ds.length else session.totalDataLength } := by
  obtain ⟨resized, hresize, h⟩ := bind_eq_ok.mp h
  obtain ⟨buffer, hcopy, h⟩ := bind_eq_ok.mp h
  cases h
  exact ⟨resized, buffer, hresize, hcopy, rfl⟩

end LtpSession

end QpskB210.Ltp
