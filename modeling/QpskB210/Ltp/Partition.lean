import QpskB210.Ltp.Segmentation

/-!
# LTP — Partition

What `segment_data` returns: the block cut into pieces that follow one
another, as few as the segment size allows, the last one marked. Its `const`
variant returns the same list.
-/

namespace QpskB210.Ltp

open QpskB210.Lib

/-- The bytes a data segment says it carries: offset and length. -/
def DataSegContent.span (ds : DataSegContent) : Nat × Nat := (ds.offset.toNat, ds.length.toNat)

/-- The contents cut the block, from its start to its end, into as few pieces
of at most `maxSeg` bytes as there can be; an empty block has one. -/
structure Partitions (block : List UInt8) (maxSeg : Nat) (contents : List DataSegContent) :
    Prop where
  contiguous : Chunks.Tiles 0 block.length (contents.map DataSegContent.span)
  lengths : ∀ ds ∈ contents, ds.length.toNat = ds.data.length ∧ ds.length.toNat ≤ maxSeg
  concat : contents.flatMap DataSegContent.data = block
  count : contents.length = if block = [] then 1 else (block.length + maxSeg - 1) / maxSeg

/-! ## The segments of a session's block -/

namespace LtpSession

/-- The type of all segments of the block but the last. -/
def innerType (session : LtpSession) : UInt8 :=
  if session.isRed then SegType.redData else SegType.greenData

def lastType (session : LtpSession) : UInt8 :=
  if session.isRed then SegType.redDataCpEorpEob else SegType.greenDataEob

/-- The content of a piece of the block, without serials. -/
def sliceContent (session : LtpSession) (p : Nat × Nat) : DataSegContent :=
  { clientServiceId := 1, offset := UInt64.ofNat p.1, length := UInt64.ofNat p.2,
    data := (session.clientData.drop p.1).take p.2 }

/-- The content of the last piece: a red one is a checkpoint. -/
def lastContent (session : LtpSession) (cpSerial : UInt64) (p : Nat × Nat) : DataSegContent :=
  { session.sliceContent p with
    checkpointSerial := if session.isRed then some (cpSerial + 1) else none
    reportSerial := if session.isRed then some 0 else none }

end LtpSession

variable {session : LtpSession} {p : Nat × Nat}

theorem blockSegment_of_inner {cpSerial : UInt64} (h : p.1 + p.2 ≠ session.clientData.length) :
    blockSegment session cpSerial p =
      session.dataSegment session.innerType (session.sliceContent p) := by
  rw [blockSegment, chunkSegment, LtpSession.innerType]
  cases session.isRed <;> simp [h, LtpSession.sliceContent]

theorem blockSegment_of_last {cpSerial : UInt64} (h : p.1 + p.2 = session.clientData.length) :
    blockSegment session cpSerial p =
      session.dataSegment session.lastType (session.lastContent cpSerial p) := by
  rw [blockSegment, chunkSegment, LtpSession.lastType, LtpSession.lastContent]
  cases session.isRed <;> simp [h, LtpSession.sliceContent]

theorem blockCuts_tiles {maxSeg : UInt32} (hmax : maxSeg ≠ 0) (size : Nat) :
    Chunks.Tiles 0 size (blockCuts maxSeg size) := by
  rw [blockCuts]
  split
  · rename_i hzero
    exact ⟨rfl, hzero.symm⟩
  · have htiles := @Chunks.tiles_cut _ size 0 _ (toNat32_pos hmax) (le_refl size)
    rwa [Nat.zero_add] at htiles

/-- A piece inside the block, as the content says. -/
theorem span_sliceContent (hsize : session.clientData.length < 2 ^ 64)
    (hin : p.1 + p.2 ≤ session.clientData.length) : (session.sliceContent p).span = p :=
  Prod.ext (toNat_ofNat_of_lt (by omega)) (toNat_ofNat_of_lt (by omega))

/-- The contents carry the slices of these pieces, in order. -/
def Sliced (block : List UInt8) (contents : List DataSegContent) (pieces : List (Nat × Nat)) :
    Prop :=
  contents.map (fun ds => (ds.span, ds.data)) = pieces.map fun p => (p, (block.drop p.1).take p.2)

namespace Sliced

variable {block : List UInt8} {contents : List DataSegContent} {pieces : List (Nat × Nat)}

theorem spans (h : Sliced block contents pieces) : contents.map DataSegContent.span = pieces := by
  have hmap := congrArg (List.map Prod.fst) h
  rw [List.map_map, List.map_map] at hmap
  exact hmap.trans (List.map_id _)

theorem flatMap_data (h : Sliced block contents pieces) : contents.flatMap DataSegContent.data =
    pieces.flatMap fun p => (block.drop p.1).take p.2 := by
  have hmap := congrArg (List.map Prod.snd) h
  rw [List.map_map, List.map_map] at hmap
  rw [List.flatMap_def, List.flatMap_def]
  exact congrArg List.flatten hmap

theorem mem (h : Sliced block contents pieces) {ds : DataSegContent} (hds : ds ∈ contents) :
    ds.span ∈ pieces ∧ ds.data = (block.drop ds.offset.toNat).take ds.length.toNat := by
  have hmem : (ds.span, ds.data) ∈ contents.map fun ds => (ds.span, ds.data) :=
    List.mem_map_of_mem hds
  rw [h] at hmem
  obtain ⟨p, hp, heq⟩ := List.mem_map.mp hmem
  obtain ⟨hspan, hdata⟩ := Prod.mk.inj heq
  rw [← hdata, hspan]
  rw [hspan] at hp
  exact ⟨hp, rfl⟩

/-- A content whose piece lies in the block is as long as it says. -/
theorem length_data (h : Sliced block contents pieces) {ds : DataSegContent} (hds : ds ∈ contents)
    (hin : ds.span.1 + ds.span.2 ≤ block.length) : ds.length.toNat = ds.data.length := by
  have hin : ds.offset.toNat + ds.length.toNat ≤ block.length := hin
  rw [(h.mem hds).2, List.length_take, List.length_drop]
  omega

end Sliced

/-- The contents of pieces inside the session's block carry them, whatever
serials the last one has. -/
theorem sliced_pieces {init : List (Nat × Nat)} {last : Nat × Nat} {content : DataSegContent}
    (hsize : session.clientData.length < 2 ^ 64)
    (hin : ∀ p ∈ init ++ [last], p.1 + p.2 ≤ session.clientData.length)
    (hspan : content.span = (session.sliceContent last).span)
    (hdata : content.data = (session.sliceContent last).data) :
    Sliced session.clientData (init.map session.sliceContent ++ [content]) (init ++ [last]) := by
  have hspans (p : Nat × Nat) (hp : p ∈ init ++ [last]) : (session.sliceContent p).span = p :=
    span_sliceContent hsize (hin p hp)
  rw [Sliced, List.map_append, List.map_append, List.map_map, List.map_singleton,
    List.map_singleton, hspan, hspans last (by simp), hdata]
  congr 1
  refine List.map_congr_left fun p hp => ?_
  rw [Function.comp_apply, hspans p (by simp [hp])]
  rfl

/-- Contents that carry the pieces of a block partition it. -/
theorem Sliced.partitions {block : List UInt8} {maxSeg : UInt32} (hmax : maxSeg ≠ 0)
    {contents : List DataSegContent}
    (h : Sliced block contents (blockCuts maxSeg block.length)) :
    Partitions block maxSeg.toNat contents := by
  have htiles := blockCuts_tiles hmax block.length
  refine ⟨h.spans.symm ▸ htiles, fun ds hds => ?_, ?_, ?_⟩
  · have hp := (h.mem hds).1
    exact ⟨h.length_data hds (mem_blockCuts (.inr hmax) hp).1, length_le_of_mem_blockCuts hp⟩
  · rw [h.flatMap_data, htiles.flatMap_slice]
    simp
  · rw [← List.length_map DataSegContent.span, h.spans, blockCuts]
    by_cases hempty : block = []
    · simp [hempty]
    · rw [if_neg (by simpa using hempty), if_neg hempty]
      exact Chunks.length_cut (toNat32_pos hmax) le_rfl

/-- **Segmentation is a partition.** `segment_data` returns segments of the
session that partition its block. All are plain but the last, which ends the
block and, for a red session, is a checkpoint with the next serial. Only the
counter of the session changes, and the `const` variant returns the same. -/
theorem segmentData_partitions (e : LtpEngine) (session : LtpSession)
    (hmax : 1 ≤ e.config.maxSegmentSize) (hsize : session.clientData.length < 2 ^ 64) :
    ∃ (init : List DataSegContent) (last : DataSegContent),
      e.segmentData session =
        .ok (init.map (session.dataSegment session.innerType) ++
            [session.dataSegment session.lastType last],
          { session with checkpointSerialCounter := if session.isRed then
              session.checkpointSerialCounter + 1 else session.checkpointSerialCounter }) ∧
      e.segmentDataReadonly session =
        .ok (init.map (session.dataSegment session.innerType) ++
          [session.dataSegment session.lastType last]) ∧
      Partitions session.clientData e.config.maxSegmentSize.toNat (init ++ [last]) ∧
      (∀ ds ∈ init, ds.checkpointSerial = none ∧ ds.reportSerial = none) ∧
      last.checkpointSerial =
        (if session.isRed then some (session.checkpointSerialCounter + 1) else none) ∧
      last.reportSerial = (if session.isRed then some 0 else none) := by
  have hne := ne_zero_of_one_le hmax
  obtain ⟨init, last, hcuts, hlast, hinit⟩ := @blockCuts_eq e.config.maxSegmentSize
    session.clientData.length (.inr hne)
  have hsegments : (blockCuts e.config.maxSegmentSize session.clientData.length).map
      (blockSegment session session.checkpointSerialCounter) =
        (init.map session.sliceContent).map (session.dataSegment session.innerType) ++
          [session.dataSegment session.lastType
            (session.lastContent session.checkpointSerialCounter last)] := by
    rw [hcuts, List.map_append, List.map_map, List.map_singleton, blockSegment_of_last hlast]
    congr 1
    exact List.map_congr_left fun p hp => blockSegment_of_inner (hinit p hp).ne
  have himpl := segmentDataImpl_eq_ok.mpr
    ⟨(.inr hne : session.clientData = [] ∨ e.config.maxSegmentSize ≠ 0), rfl,
      (rfl : nextSerial session session.checkpointSerialCounter = _)⟩
  rw [hsegments] at himpl
  refine ⟨init.map session.sliceContent,
    session.lastContent session.checkpointSerialCounter last, ?_, ?_, ?_, ?_, rfl, rfl⟩
  · exact bind_eq_ok.mpr ⟨_, himpl, rfl⟩
  · exact bind_eq_ok.mpr ⟨_, himpl, rfl⟩
  · refine Sliced.partitions hne (hcuts.symm ▸ sliced_pieces hsize (fun p hp => ?_) rfl rfl)
    exact (mem_blockCuts (.inr hne) (hcuts ▸ hp)).1
  · intro ds hds
    obtain ⟨p, -, rfl⟩ := List.mem_map.mp hds
    exact ⟨rfl, rfl⟩

/-- Three bytes in segments of two. -/
theorem segmentData_partitions_threeBytes :
    ∃ (init : List DataSegContent) (last : DataSegContent),
      LtpEngine.segmentDataReadonly { config := { maxSegmentSize := 2 } }
          { clientData := [1, 2, 3] } =
        .ok (init.map (LtpSession.dataSegment { clientData := [1, 2, 3] } SegType.redData) ++
          [LtpSession.dataSegment { clientData := [1, 2, 3] } SegType.redDataCpEorpEob last]) ∧
      Partitions [1, 2, 3] 2 (init ++ [last]) := by
  obtain ⟨init, last, -, hreadonly, hpartitions, -⟩ := segmentData_partitions
    { config := { maxSegmentSize := 2 } } { clientData := [1, 2, 3] } (by decide) (by decide)
  exact ⟨init, last, hreadonly, hpartitions⟩

end QpskB210.Ltp
