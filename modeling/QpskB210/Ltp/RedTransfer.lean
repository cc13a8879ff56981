import QpskB210.Ltp.NetworkRuns

/-!
# LTP — Red transfer

The block that a red session delivers. A receiver session without the end of
its block has a total length of 0, which the completeness test takes for an
empty block; so an acknowledgment that comes too early, for a report of an
earlier session with the same key, delivers nothing in place of the block.
-/

namespace QpskB210.Ltp

open QpskB210.Lib

/-- Whatever B delivers for a red session of A is the block that session was
started with. -/
def RedIntact (configA : LtpEngineConfig) (n : Net) : Prop :=
  ∀ sn block, ⟨sn, block, true⟩ ∈ n.a.journal.started →
    ∀ data, .dataArrival ⟨configA.localEngineId, sn⟩ data ∈ n.b.engine.trace → data = block

/-- **Red-transfer integrity.** In every run in which A's session counter does
not wrap and no report is acknowledged to a red receiver session of B that has
data but not the end of its block, B delivers the blocks of A's red
sessions. -/
theorem red_transfer_intact (configA configB : LtpEngineConfig) (n : Net)
    (hids : configA.localEngineId ≠ configB.localEngineId)
    (h : (network configA configB).Reachable (NetGuard True) n) : RedIntact configA n := by
  have hsound := netSound_of_reachable hids h
  intro sn block hstart data harrival
  obtain ⟨-, start, hstart', hnumber, hdata⟩ := hsound.b.events _ harrival trivial trivial
  have hsame : start = ⟨sn, block, true⟩ := hsound.a.unique trivial start hstart' _ hstart hnumber
  subst hsame
  exact hdata rfl

/-- The guard on B is exact: the first step that fails it delivers an empty
block in place of one with data. -/
theorem red_transfer_broken {configA configB : LtpEngineConfig} {n n' : Net} {action : Action}
    (hids : configA.localEngineId ≠ configB.localEngineId)
    (h : (network configA configB).Reachable (NetGuard True) n)
    (hlate : ¬ TimelyAcks n.b.engine action) (hstep : n.exec (.b, action) = some n') :
    ¬ RedIntact configA n' := by
  have hsound := netSound_of_reachable hids h
  intro hintact
  obtain ⟨node, hnode, rfl⟩ := Option.map_eq_some_iff.mp hstep
  have hexec := node_exec hnode
  cases action with
  | receive bytes =>
      apply hlate
      intro seg hdecode htype session hlookup hrole hred hzero
      by_contra hdata
      obtain ⟨hid, -, hpeer⟩ := (hsound.b.sessions _ _ hlookup).peer hrole
      obtain ⟨start, hstart⟩ := hpeer trivial
      have hcall : n.b.engine.receiveBytes bytes = .ok node.engine := hexec
      rw [LtpEngine.receiveBytes_of_decode hdecode, LtpEngine.receiveSegment_reportAck htype] at hcall
      have hcomplete : session.receptionTracker.isComplete session.totalDataLength = true := by
        rw [hzero]
        rfl
      obtain ⟨ra, -, ⟨met, delivered, hmet, -, -, hdelivered, heffect⟩ | ⟨acts, -, -, hopen⟩⟩ :=
        LtpEngine.receiveReportAck_cases hcall
      · cases hlookup.symm.trans hmet
        obtain ⟨-, -, rfl⟩ := assignRange_eq_ok.mp hdelivered
        have harrival : Event.dataArrival (LtpEngine.segmentKey seg) [] ∈ node.engine.trace := by
          rw [heffect.trace, hzero]
          exact List.mem_append_right _ (List.mem_singleton_self _)
        have hsame : start = ⟨(LtpEngine.segmentKey seg).sessionNumber, start.data, true⟩ := by
          rw [← hstart.sessionNumber, ← hred, hstart.isRed]
        have hkey : LtpEngine.segmentKey seg =
            ⟨configA.localEngineId, (LtpEngine.segmentKey seg).sessionNumber⟩ := by
          rw [← hsound.idA, ← hid]
        rw [hkey] at harrival
        have hempty := hintact _ start.data (hsame ▸ hstart.started) [] harrival
        have hsize := hstart.reassembles.size
        rw [← hempty] at hsize
        exact hdata (List.length_eq_zero_iff.mp (Nat.le_zero.mp hsize))
      · cases hcomplete.symm.trans (hopen session hlookup hrole)
  | startSession data reliable => exact hlate trivial
  | cancelSession engineId sessionNumber reason => exact hlate trivial
  | expire entry => exact hlate trivial
  | handleTimerExpiry event => exact hlate trivial

/-! ## A transfer of two bytes -/

def nodeConfig (id : UInt64) (maxSegmentSize : UInt32) : LtpEngineConfig :=
  { localEngineId := id, maxSegmentSize := maxSegmentSize }

/-- Engines 1 and 2, before anything happened. -/
def twoNodes (maxSegmentSize : UInt32) : Net :=
  { a := Node.create (nodeConfig 1 maxSegmentSize) 0
    b := Node.create (nodeConfig 2 maxSegmentSize) 0 }

theorem length_twoBytes : ([7, 8] : List UInt8).length < 2 ^ 57 := by decide

def twoBytesBlock : Block := ⟨[7, 8], length_twoBytes⟩

/-- A data segment of session 1 of engine 1. -/
def dataOf (type : UInt8) (offset : UInt64) (data : List UInt8) (serial : Option UInt64) :
    LtpSegment :=
  { segmentType := type, engineId := 1, sessionNumber := 1
    content := .data
      { offset := offset, length := UInt64.ofNat data.length, data := data
        checkpointSerial := serial, reportSerial := serial.map fun _ => 0 } }

def wholeBlock : LtpSegment := dataOf SegType.redDataCpEorpEob 0 [7, 8] (some 1)

def firstByte : LtpSegment := dataOf SegType.redData 0 [7] none

def lastByte : LtpSegment := dataOf SegType.redDataCpEorpEob 1 [8] (some 1)

/-- The report of engine 2 on both bytes. -/
def fullReport : LtpSegment :=
  { segmentType := SegType.reportSegment, engineId := 1, sessionNumber := 1
    content := .report
      { reportSerial := 1, checkpointSerial := 1, upperBound := 2, lowerBound := 0,
        claims := [{ offset := 0, length := 2 }] } }

def ackOfReport : LtpSegment :=
  { segmentType := SegType.reportAck, engineId := 1, sessionNumber := 1
    content := .rptAck { reportSerial := 1 } }

/-- A check of `TimelyAcks`. -/
def timelyAck (e : LtpEngine) : Action → Bool
  | .receive bytes =>
    match LtpSegment.decode bytes with
    | .ok (some seg) =>
      match e.sessions.lookup (LtpEngine.segmentKey seg) with
      | some session => session.totalDataLength != 0 || session.clientData.isEmpty
      | none => true
    | _ => true
  | _ => true

theorem timelyAcks_of_check {e : LtpEngine} {a : Action} (h : timelyAck e a = true) :
    TimelyAcks e a := by
  cases a with
  | receive bytes =>
      intro seg hdecode _ session hlookup _ _ hzero
      rw [timelyAck, hdecode] at h
      dsimp only at h
      rw [hlookup] at h
      dsimp only at h
      rw [hzero] at h
      simpa using h
  | startSession data reliable => trivial
  | cancelSession engineId sessionNumber reason => trivial
  | expire entry => trivial
  | handleTimerExpiry event => trivial

/-- A check of `NoWrap`. -/
def noWrap (e : LtpEngine) : Action → Bool
  | .startSession _ _ => e.sessionCounter.toNat + 1 < 2 ^ 64
  | _ => true

theorem noWrap_of_check {e : LtpEngine} {a : Action} (h : noWrap e a = true) : NoWrap e a := by
  cases a with
  | startSession data reliable =>
      show e.sessionCounter.toNat + 1 < 2 ^ 64
      exact of_decide_eq_true h
  | cancelSession engineId sessionNumber reason => trivial
  | receive bytes => trivial
  | expire entry => trivial
  | handleTimerExpiry event => trivial

/-- A check of the guard. -/
def timelyCheck (n : Net) : Side × Action → Bool
  | (.a, action) => noWrap n.a.engine action
  | (.b, action) => timelyAck n.b.engine action

theorem netGuard_of_check (n : Net) (step : Side × Action) (h : timelyCheck n step = true) :
    NetGuard True n step := by
  obtain ⟨side, action⟩ := step
  cases side with
  | a => exact noWrap_of_check h
  | b => exact fun _ => timelyAcks_of_check h

/-- One segment, its report, and the acknowledgment. -/
def handshake : List (Side × Action) :=
  [(.a, .startSession twoBytesBlock true), (.b, .receive wholeBlock.wire),
    (.a, .receive fullReport.wire), (.b, .receive ackOfReport.wire)]

theorem reachable_of_run {check : Net → Side × Action → Bool} {guard : Net → Side × Action → Prop}
    (hcheck : ∀ n step, check n step = true → guard n step) {maxSegmentSize : UInt32} {n : Net}
    {steps : List (Side × Action)} (h : (twoNodes maxSegmentSize).run check steps = some n) :
    (network (nodeConfig 1 maxSegmentSize) (nodeConfig 2 maxSegmentSize)).Reachable guard n :=
  ⟨_, ⟨0, 0, rfl⟩, path_of_run hcheck h⟩

theorem red_transfer_intact_handshake : ∃ n,
    (twoNodes 1400).run timelyCheck handshake = some n ∧
      .dataArrival ⟨1, 1⟩ [7, 8] ∈ n.b.engine.trace ∧
      ∀ data, .dataArrival ⟨1, 1⟩ data ∈ n.b.engine.trace → data = [7, 8] := by
  have hcheck : ((twoNodes 1400).run timelyCheck handshake).map (fun n =>
      decide (Event.dataArrival ⟨1, 1⟩ [7, 8] ∈ n.b.engine.trace) &&
        decide (⟨1, [7, 8], true⟩ ∈ n.a.journal.started)) = some true := by decide +kernel
  obtain ⟨n, hrun, hn⟩ := Option.map_eq_some_iff.mp hcheck
  rw [Bool.and_eq_true, decide_eq_true_eq, decide_eq_true_eq] at hn
  refine ⟨n, hrun, hn.1, ?_⟩
  exact red_transfer_intact (nodeConfig 1 1400) (nodeConfig 2 1400) n (by decide)
    (reachable_of_run netGuard_of_check hrun) 1 [7, 8] hn.2

/-- Both bytes, in two segments, are delivered; then the first segment and the
acknowledgment come again. -/
def earlyAck : List (Side × Action) :=
  [(.a, .startSession twoBytesBlock true), (.b, .receive firstByte.wire),
    (.b, .receive lastByte.wire), (.a, .receive fullReport.wire), (.b, .receive ackOfReport.wire),
    (.b, .receive firstByte.wire), (.b, .receive ackOfReport.wire)]

/-- An empty block is delivered in place of two bytes. -/
theorem red_transfer_truncated : ¬ ∀ (configA configB : LtpEngineConfig) (n : Net),
    configA.localEngineId ≠ configB.localEngineId →
      (network configA configB).Reachable System.free n → RedIntact configA n := by
  intro h
  have hcheck : ((twoNodes 1).run (fun _ _ => true) earlyAck).map (fun n =>
      decide (Event.dataArrival ⟨1, 1⟩ [] ∈ n.b.engine.trace) &&
        decide (⟨1, [7, 8], true⟩ ∈ n.a.journal.started)) = some true := by decide +kernel
  obtain ⟨n, hrun, hn⟩ := Option.map_eq_some_iff.mp hcheck
  rw [Bool.and_eq_true, decide_eq_true_eq, decide_eq_true_eq] at hn
  have hintact := h (nodeConfig 1 1) (nodeConfig 2 1) n (by decide)
    (reachable_of_run (fun _ _ _ => trivial) hrun)
  exact absurd (hintact 1 [7, 8] hn.2 [] hn.1) (by decide)

end QpskB210.Ltp
