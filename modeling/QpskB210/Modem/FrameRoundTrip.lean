import QpskB210.Modem.Frame

/-!
# Modem — FrameRoundTrip

What a builder has put into a frame comes out of the parser: the fields of
the caller, and the number of the frame in the order of building, modulo
4096.
-/

namespace QpskB210.Modem

open QpskB210.Lib.Bits

/-- The arguments of one call of `build_frame`. -/
structure BuildCall where
  payload : List UInt8
  paddingBits : UInt8
  fecEnabled : Bool
  fecCodeRate : CodeRate
deriving DecidableEq, Repr

namespace FrameBuilder

/-- A builder with this preamble that has built these frames. -/
def after (preamble : List Bool) (calls : List BuildCall) : FrameBuilder :=
  calls.foldl
    (fun b call => (b.buildFrame call.payload call.paddingBits call.fecEnabled call.fecCodeRate).2)
    { preamble := preamble }

theorem after_concat (preamble : List Bool) (calls : List BuildCall) (call : BuildCall) :
    after preamble (calls ++ [call]) = { after preamble calls with
      seqNum := ((after preamble calls).seqNum + 1) &&& 0x0FFF } := by
  rw [after, List.foldl_append]
  rfl

@[simp] theorem preamble_after (preamble : List Bool) (calls : List BuildCall) :
    (after preamble calls).preamble = preamble := by
  induction calls using List.reverseRecOn with
  | nil => rfl
  | append_singleton calls call ih => rw [after_concat, ih]

/-- The counter is the number of frames built, modulo 4096. -/
theorem toNat_seqNum_after (preamble : List Bool) (calls : List BuildCall) :
    (after preamble calls).seqNum.toNat = calls.length % 4096 := by
  induction calls using List.reverseRecOn with
  | nil => rfl
  | append_singleton calls call ih =>
      have hone : (1 : UInt32).toNat = 1 := rfl
      rw [after_concat, toNat_and_0fff, UInt32.toNat_add, ih, hone, List.length_append,
        List.length_singleton]
      omega

/-- The sequence number in the header of the next frame. -/
theorem toNat_sequenceNumber_header (preamble : List Bool) (calls : List BuildCall)
    (payload : List UInt8) (paddingBits : UInt8) (fecEnabled : Bool) (fecCodeRate : CodeRate) :
    ((after preamble calls).header payload paddingBits fecEnabled fecCodeRate
      ).sequenceNumber.toNat = calls.length % 4096 := by
  rw [header, UInt32.toNat_toUInt16, toNat_and_0fff, toNat_seqNum_after]
  omega

theorem drop_buildFrame (preamble : List Bool) (calls : List BuildCall) (payload : List UInt8)
    (paddingBits : UInt8) (fecEnabled : Bool) (fecCodeRate : CodeRate) :
    ((after preamble calls).buildFrame payload paddingBits fecEnabled fecCodeRate).1.drop
        preamble.length =
      frameBits ((after preamble calls).header payload paddingBits fecEnabled fecCodeRate) payload
        (frameCrc ((after preamble calls).header payload paddingBits fecEnabled fecCodeRate)
          payload) := by
  rw [buildFrame, frameBits]
  dsimp only
  rw [preamble_after, List.drop_left]

end FrameBuilder

/-- The frame carries these fields. -/
structure Carried (frame : Frame) (call : BuildCall) (count : Nat) : Prop where
  payload : frame.payload = call.payload
  payloadLength : frame.header.payloadLength.toNat = call.payload.length
  paddingBits : frame.header.paddingBits = call.paddingBits
  fecEnabled : frame.header.fecEnabled = call.fecEnabled
  fecCodeRate : CodeRate.ofUInt8? frame.header.fecCodeRate = some call.fecCodeRate
  sequenceNumber : frame.header.sequenceNumber.toNat = count % 4096

/-- **Frames come back**, from a builder that has built any frames before;
and over all bit vectors, the parser that checks the CRC accepts exactly what
the other one reads with a right CRC. -/
theorem frame_round_trip :
    (∀ (preamble : List Bool) (before : List BuildCall) (call : BuildCall),
      call.payload.length ≤ 65535 → call.paddingBits.toNat ≤ 15 →
        let bits := ((FrameBuilder.after preamble before).buildFrame call.payload
          call.paddingBits call.fecEnabled call.fecCodeRate).1.drop preamble.length
        ∃ frame, parse bits = some frame ∧ frame.crcValid = true ∧
          Carried frame call before.length ∧
          parseUnchecked bits = some { frame with crcValid := false }) ∧
      ∀ (bits : List Bool) (frame : Frame), parse bits = some frame ↔
        ∃ fields, parseUnchecked bits = some fields ∧ verifyCrc fields = true ∧
          frame = { fields with crcValid := true } := by
  constructor
  · intro preamble before call hpayload hpadding
    dsimp only
    have hfits := (FrameBuilder.after preamble before).header_fits call.payload
      (Nat.lt_succ_of_le hpadding) call.fecEnabled call.fecCodeRate
    rw [FrameBuilder.drop_buildFrame]
    refine ⟨_, parse_frameBits hfits rfl, rfl, ?_, parseUnchecked_frameBits hfits⟩
    constructor
    · rfl
    · show (UInt16.ofNat call.payload.length).toNat = call.payload.length
      rw [UInt16.toNat_ofNat']
      omega
    · rfl
    · rfl
    · show CodeRate.ofUInt8? (call.fecCodeRate.toUInt8 &&& 0x03) = some call.fecCodeRate
      cases call.fecCodeRate <;> rfl
    · exact FrameBuilder.toNat_sequenceNumber_header preamble before _ _ _ _
  · intro bits frame
    rw [parse_eq, Option.bind_eq_some_iff]
    constructor
    · intro h
      obtain ⟨fields, hfields, h⟩ := h
      split at h
      · rename_i hvalid
        exact ⟨fields, hfields, hvalid, (Option.some.inj h).symm⟩
      · cases h
    · intro h
      obtain ⟨fields, hfields, hvalid, rfl⟩ := h
      exact ⟨fields, hfields, if_pos hvalid⟩

/-- The second frame of a builder. -/
theorem frame_round_trip_second :
    ∃ frame, parse (((FrameBuilder.after [true, false] [⟨[7], 0, true, .rate34⟩]).buildFrame
        [0, 255, 9] 15 false .rate12).1.drop [true, false].length) = some frame ∧
      Carried frame ⟨[0, 255, 9], 15, false, .rate12⟩ 1 := by
  obtain ⟨frame, hparse, -, hcarried, -⟩ := frame_round_trip.1 [true, false]
    [⟨[7], 0, true, .rate34⟩] ⟨[0, 255, 9], 15, false, .rate12⟩ (by decide) (by decide)
  exact ⟨frame, hparse, hcarried⟩

end QpskB210.Modem
