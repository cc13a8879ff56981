import QpskB210.Ltp.Segmentation

/-!
# LTP — Reassembly

What a data segment says about the block it was cut from (`Carries`), and
what a receiver session knows of that block (`Reassembles`). Every segment
that the segmentation and the gap loop make carries a slice of the session's
block, and storing such a slice keeps what the receiver session knows.
-/

namespace QpskB210.Ltp

open QpskB210.Lib

/-- The data is the slice of the block at its offset. A segment of a
non-empty block is not empty, and one with the EOB flag reaches its end. -/
structure Carries (block : List UInt8) (red : Bool) (type : UInt8) (ds : DataSegContent) :
    Prop where
  isRed : SegType.isRed type = red
  isGreen : SegType.isGreen type = !red
  length : ds.length.toNat = ds.data.length
  inside : ds.offset.toNat + ds.data.length ≤ block.length
  slice : ds.data = (block.drop ds.offset.toNat).take ds.data.length
  eob : SegType.hasEob type = true → ds.offset.toNat + ds.data.length = block.length
  nonempty : ds.data = [] → block = []

/-- What a receiver session knows of the block whose segments it stored. -/
structure Reassembles (block : List UInt8) (session : LtpSession) : Prop where
  tracker : session.receptionTracker.Inv
  size : session.clientData.length ≤ block.length
  received : ∀ i, session.receptionTracker.Received i →
    i < session.clientData.length ∧ session.clientData[i]? = block[i]?
  total : session.totalDataLength = 0 ∨ session.totalDataLength.toNat = block.length

/-! ## Segments carry their block -/

section Slices

variable {session : LtpSession} {p : Nat × Nat}

theorem carries_slice {block : List UInt8} {red : Bool} {type : UInt8} {ds : DataSegContent}
    (hsize : block.length < 2 ^ 57) (hin : p.1 + p.2 ≤ block.length)
    (hoffset : ds.offset = UInt64.ofNat p.1) (hlength : ds.length = UInt64.ofNat p.2)
    (hdata : ds.data = (block.drop p.1).take p.2) (hred : SegType.isRed type = red)
    (hgreen : SegType.isGreen type = !red) (heob : SegType.hasEob type = true → p.1 + p.2 = block.length)
    (hempty : p.2 = 0 → block = []) : Carries block red type ds := by
  have hlen : ds.data.length = p.2 := by
    rw [hdata, List.length_take, List.length_drop]
    omega
  have hoff : ds.offset.toNat = p.1 := by
    rw [hoffset]
    exact toNat_ofNat_of_lt (by omega)
  refine ⟨hred, hgreen, ?_, ?_, ?_, fun h => ?_, fun h => hempty ?_⟩
  · rw [hlength, hlen]
    exact toNat_ofNat_of_lt (by omega)
  · rw [hoff, hlen]
    exact hin
  · rw [hoff, hlen, hdata]
  · rw [hoff, hlen]
    exact heob h
  · rw [← hlen, h]
    rfl

theorem plainSegment_carries (hsize : session.clientData.length < 2 ^ 57)
    (hin : p.1 + p.2 ≤ session.clientData.length) (hpos : 0 < p.2) :
    ∃ ds, (plainSegment session p).content = .data ds ∧
      Carries session.clientData true (plainSegment session p).segmentType ds :=
  ⟨_, rfl, carries_slice hsize hin rfl rfl rfl rfl rfl (fun h => by cases h) (by omega)⟩

theorem checkpointSegment_carries (serial : UInt64) (hsize : session.clientData.length < 2 ^ 57)
    (hin : p.1 + p.2 ≤ session.clientData.length) (hpos : 0 < p.2) :
    ∃ ds, (checkpointSegment session serial p).content = .data ds ∧
      Carries session.clientData true (checkpointSegment session serial p).segmentType ds :=
  ⟨_, rfl, carries_slice hsize hin rfl rfl rfl rfl rfl (fun h => by cases h) (by omega)⟩

theorem blockSegment_carries (cpSerial : UInt64) (hsize : session.clientData.length < 2 ^ 57)
    (hin : p.1 + p.2 ≤ session.clientData.length)
    (hempty : p.2 = 0 → session.clientData.length = 0) :
    ∃ ds, (blockSegment session cpSerial p).content = .data ds ∧
      Carries session.clientData session.isRed (blockSegment session cpSerial p).segmentType ds := by
  have hempty : p.2 = 0 → session.clientData = [] := fun h => List.length_eq_zero_iff.mp (hempty h)
  rw [blockSegment, chunkSegment]
  cases session.isRed <;> by_cases hlast : p.1 + p.2 = session.clientData.length <;>
    simp only [hlast, decide_true, decide_false, if_true, if_false, Bool.false_eq_true]
  · exact ⟨_, rfl, carries_slice hsize hin rfl rfl rfl rfl rfl (fun _ => hlast) hempty⟩
  · exact ⟨_, rfl, carries_slice hsize hin rfl rfl rfl rfl rfl (fun h => by cases h) hempty⟩
  · exact ⟨_, rfl, carries_slice hsize hin rfl rfl rfl rfl rfl (fun _ => hlast) hempty⟩
  · exact ⟨_, rfl, carries_slice hsize hin rfl rfl rfl rfl rfl (fun h => by cases h) hempty⟩

end Slices

/-! ## Storing a slice -/

/-- The buffer after a slice was stored at its offset. -/
def spliced (buffer : List UInt8) (offset : Nat) (data : List UInt8) : List UInt8 :=
  let resized := buffer ++ List.replicate (offset + data.length - buffer.length) 0
  resized.take offset ++ (data ++ resized.drop (offset + data.length))

theorem length_spliced (buffer : List UInt8) (offset : Nat) (data : List UInt8) :
    (spliced buffer offset data).length = max buffer.length (offset + data.length) := by
  simp only [spliced, List.length_append, List.length_take, List.length_drop,
    List.length_replicate]
  omega

theorem getElem?_spliced_of_lt {buffer data : List UInt8} {offset i : Nat}
    (h : i < offset) (hi : i < buffer.length) : (spliced buffer offset data)[i]? = buffer[i]? := by
  rw [spliced, List.getElem?_append_left (by simp; omega), List.getElem?_take_of_lt h,
    List.getElem?_append_left hi]

theorem getElem?_spliced_inside {buffer data : List UInt8} {offset i : Nat} (h : offset ≤ i)
    (hi : i < offset + data.length) : (spliced buffer offset data)[i]? = data[i - offset]? := by
  have hlen : ((buffer ++ List.replicate (offset + data.length - buffer.length) (0 : UInt8)).take
      offset).length = offset := by
    rw [List.length_take, List.length_append, List.length_replicate]
    omega
  rw [spliced, List.getElem?_append_right (by omega), hlen, List.getElem?_append_left (by omega)]

theorem getElem?_spliced_of_ge {buffer data : List UInt8} {offset i : Nat}
    (h : offset + data.length ≤ i) (hi : i < buffer.length) :
    (spliced buffer offset data)[i]? = buffer[i]? := by
  have hlen : ((buffer ++ List.replicate (offset + data.length - buffer.length) (0 : UInt8)).take
      offset).length = offset := by
    rw [List.length_take, List.length_append, List.length_replicate]
    omega
  rw [spliced, List.getElem?_append_right (by omega), hlen, List.getElem?_append_right (by omega),
    List.getElem?_drop, List.getElem?_append_left (by omega)]
  congr 1
  omega

/-- The session after it stored a slice. -/
def stored (session : LtpSession) (type : UInt8) (ds : DataSegContent) : LtpSession :=
  { session with
    clientData := spliced session.clientData ds.offset.toNat ds.data
    receptionTracker := session.receptionTracker.addRange ds.offset ds.length
    totalDataLength :=
      if SegType.hasEob type then ds.offset + ds.length else session.totalDataLength }

section Storing

variable {block : List UInt8} {red : Bool} {type : UInt8} {ds : DataSegContent}
  {session : LtpSession}

theorem Carries.toNat_end (hc : Carries block red type ds) (hsize : block.length < 2 ^ 57) :
    (ds.offset + ds.length).toNat = ds.offset.toNat + ds.data.length := by
  have hin := hc.inside
  rw [toNat_add_of_lt (by rw [hc.length]; omega), hc.length]

theorem Carries.isData (h : Carries block red type ds) : SegType.isData type = true := by
  have hall := @forall_byte (fun b => SegType.isRed b = true ∨ SegType.isGreen b = true →
    SegType.isData b = true) (by decide +kernel)
  have htype := hall type
  rw [h.isRed, h.isGreen] at htype
  cases red with
  | true => exact htype (.inl rfl)
  | false => exact htype (.inr rfl)

/-- A slice of a block is stored. -/
theorem store_carried (hc : Carries block red type ds) (hsize : block.length < 2 ^ 57) :
    session.store type ds = .ok (stored session type ds) := by
  have hend := hc.toNat_end hsize
  have hin := hc.inside
  have hresize : LtpSession.resize session.clientData (ds.offset + ds.length).toNat =
      .ok (session.clientData ++
        List.replicate (ds.offset.toNat + ds.data.length - session.clientData.length) 0) := by
    rw [LtpSession.resize, hend]
    by_cases hfits : ds.offset.toNat + ds.data.length ≤ session.clientData.length
    · rw [if_pos hfits, Nat.sub_eq_zero_of_le hfits, List.replicate_zero, List.append_nil]
    · rw [if_neg hfits, if_neg (by rw [objectBound]; omega)]
  have hcopy : LtpSession.copyData (session.clientData ++
      List.replicate (ds.offset.toNat + ds.data.length - session.clientData.length) 0) ds =
        .ok (spliced session.clientData ds.offset.toNat ds.data) := by
    rw [LtpSession.copyData, spliced]
    by_cases hzero : ds.length = 0
    · have hnil : ds.data = [] := by
        rw [← List.length_eq_zero_iff, ← hc.length, hzero]
        rfl
      rw [if_pos hzero, hnil]
      simp
    · rw [if_neg hzero, if_pos]
      rw [List.length_append, List.length_replicate]
      omega
  exact bind_eq_ok.mpr ⟨_, hresize, bind_eq_ok.mpr ⟨_, hcopy, rfl⟩⟩

theorem received_stored (hc : Carries block red type ds) (hsize : block.length < 2 ^ 57)
    (ht : session.receptionTracker.Inv) (i : Nat) :
    (stored session type ds).receptionTracker.Received i ↔
      (ds.offset.toNat ≤ i ∧ i < ds.offset.toNat + ds.data.length) ∨
        session.receptionTracker.Received i := by
  have hin := hc.inside
  rw [stored, ht.received_addRange (by rw [hc.length]; omega), hc.length]

/-- **Reassembly.** Storing a slice of the block keeps what the session knows
of it. -/
theorem Reassembles.stored (hr : Reassembles block session) (hc : Carries block red type ds)
    (hsize : block.length < 2 ^ 57) : Reassembles block (stored session type ds) where
  tracker := hr.tracker.addRange (by have := hc.inside; rw [hc.length]; omega)
  size := by
    have hin := hc.inside
    have := hr.size
    show (spliced session.clientData ds.offset.toNat ds.data).length ≤ _
    rw [length_spliced]
    omega
  received := by
    intro i hi
    show i < (spliced session.clientData ds.offset.toNat ds.data).length ∧
      (spliced session.clientData ds.offset.toNat ds.data)[i]? = _
    rw [length_spliced]
    by_cases hrange : ds.offset.toNat ≤ i ∧ i < ds.offset.toNat + ds.data.length
    · refine ⟨by omega, ?_⟩
      rw [getElem?_spliced_inside hrange.1 hrange.2, hc.slice, List.getElem?_take_of_lt (by omega),
        List.getElem?_drop, Nat.add_sub_cancel' hrange.1]
    · obtain ⟨hlt, heq⟩ :=
        hr.received i (((received_stored hc hsize hr.tracker i).mp hi).resolve_left hrange)
      refine ⟨by omega, ?_⟩
      rw [← heq]
      rcases Nat.lt_or_ge i ds.offset.toNat with hbefore | hafter
      · exact getElem?_spliced_of_lt hbefore hlt
      · exact getElem?_spliced_of_ge (by omega) hlt
  total := by
    show (if SegType.hasEob type = true then ds.offset + ds.length else _) = 0 ∨
      (if SegType.hasEob type = true then ds.offset + ds.length else _).toNat = _
    split
    · rename_i heob
      exact .inr ((hc.toNat_end hsize).trans (hc.eob heob))
    · exact hr.total

/-- A session that stored a slice of a non-empty block has a buffer. -/
theorem nonempty_stored (hc : Carries block red type ds)
    (h : (stored session type ds).clientData = []) : block = [] := by
  have hlength := congrArg List.length h
  rw [show (Ltp.stored session type ds).clientData =
    spliced session.clientData ds.offset.toNat ds.data from rfl, length_spliced,
    List.length_nil] at hlength
  exact hc.nonempty (List.length_eq_zero_iff.mp (by omega))

/-- A tracker has no more ranges than the block has bytes. -/
theorem Reassembles.length_ranges_le (h : Reassembles block session) :
    session.receptionTracker.ranges.length ≤ block.length :=
  h.tracker.length_ranges_le fun i hi => (h.received i hi).1.trans_le h.size

/-- A new receiver session knows nothing. -/
theorem reassembles_new (seg : LtpSegment) : Reassembles block (LtpEngine.receiverSession seg) where
  tracker := .empty
  size := Nat.zero_le _
  received := fun i h => absurd h (ReceptionTracker.not_received_empty i)
  total := .inl rfl

/-- **Delivery.** A complete session that has seen the end of the block, or
whose block is empty, delivers it. -/
theorem Reassembles.delivered (hr : Reassembles block session) {data : List UInt8}
    (htotal : session.totalDataLength = 0 → block = [])
    (hcomplete : session.receptionTracker.isComplete session.totalDataLength = true)
    (hdata : assignRange session.clientData 0 session.totalDataLength.toNat = .ok data) :
    data = block := by
  obtain ⟨-, -, rfl⟩ := assignRange_eq_ok.mp hdata
  have hsize : session.totalDataLength.toNat = block.length := by
    rcases hr.total with hzero | hlength
    · rw [htotal hzero, hzero]
      rfl
    · exact hlength
  have hall := ReceptionTracker.received_of_isComplete hcomplete
  rw [List.drop_zero, Nat.sub_zero, hsize]
  rw [hsize] at hall
  apply List.ext_getElem?
  intro i
  by_cases hi : i < block.length
  · rw [List.getElem?_take_of_lt hi]
    exact (hr.received i (hall i hi)).2
  · rw [List.getElem?_eq_none_iff.mpr (Nat.not_lt.mp hi), List.getElem?_eq_none_iff,
      List.length_take]
    omega

/-- Full coverage by a report: its claim has every byte of the block. -/
theorem covered_of_fullyReceived {rs : ReportSegContent}
    (htotal : session.totalDataLength = UInt64.ofNat block.length) (hsize : block.length < 2 ^ 57)
    (hfull : fullyReceived session rs = true) {i : Nat} (hi : i < block.length) :
    ∃ claim ∈ rs.claims, claim.offset.toNat ≤ i ∧
      i < claim.offset.toNat + claim.length.toNat := by
  have hlength : (UInt64.ofNat block.length).toNat = block.length :=
    toNat_ofNat_of_lt (by omega)
  rw [fullyReceived, htotal] at hfull
  split at hfull
  · rename_i hzero
    rw [hzero] at hlength
    rw [← hlength] at hi
    cases hi
  · split at hfull
    · rename_i claim hclaims
      simp only [Bool.and_eq_true, decide_eq_true_eq, ge_iff_le, UInt64.le_iff_toNat_le] at hfull
      have hzero : claim.offset.toNat = 0 := by rw [hfull.1]; rfl
      exact ⟨claim, by simp [hclaims], by omega, by omega⟩
    · cases hfull

end Storing

end QpskB210.Ltp
