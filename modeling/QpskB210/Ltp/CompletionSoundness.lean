import QpskB210.Ltp.RedTransfer

/-!
# LTP — Completion soundness

What the originator may conclude from a completed session. Reports carry no
more than the session number to say which block they are about, so the
conclusion is sound as long as session numbers are not used twice.
-/

namespace QpskB210.Ltp

open QpskB210.Lib LtpEngine

/-- The latest call of `start_session` that returned this session number. -/
def Journal.lastStart (j : Journal) (sn : UInt64) : Option Start :=
  j.started.reverse.find? fun start => start.sessionNumber = sn

theorem Journal.mem_of_lastStart {j : Journal} {sn : UInt64} {start : Start}
    (h : j.lastStart sn = some start) : start ∈ j.started ∧ start.sessionNumber = sn :=
  ⟨List.mem_reverse.mp (List.mem_of_find?_eq_some h), by simpa using List.find?_some h⟩

/-- If A reports a session complete between `n` and `n'`, and it was a red
session, then segments that arrived at B before carry its whole block. -/
def CompletionHeard (configA : LtpEngineConfig) (n n' : Net) : Prop :=
  ∀ sn number calls start, n'.a.engine.trace = n.a.engine.trace ++ calls →
    .sessionComplete ⟨configA.localEngineId, sn⟩ number ∈ calls →
    n.a.journal.lastStart sn = some start → start.reliable = true →
    ∀ i < start.data.length, n.b.journal.Has ⟨configA.localEngineId, sn⟩ start.data i

/-- **Completion soundness.** In every run in which A's session counter does
not wrap, a red session of A is only reported complete when all of its block
has arrived at B. -/
theorem completion_heard (configA configB : LtpEngineConfig) (n n' : Net) (step : Side × Action)
    (hids : configA.localEngineId ≠ configB.localEngineId)
    (h : (network configA configB).Reachable (NetGuard False) n)
    (hguard : NetGuard False n step) (hstep : n.exec step = some n') :
    CompletionHeard configA n n' := by
  have hsound := netSound_of_reachable hids h
  obtain ⟨hsound', hgrows⟩ := hsound.exec hids hguard hstep
  intro sn number calls start htrace hcall hlast hred
  obtain ⟨side, action⟩ := step
  cases side with
  | a =>
      obtain ⟨node, hnode, rfl⟩ := Option.map_eq_some_iff.mp hstep
      have hevent : Event.sessionComplete ⟨configA.localEngineId, sn⟩ number ∈ node.engine.trace := by
        rw [show node.engine.trace = n.a.engine.trace ++ calls from htrace]
        exact List.mem_append_right _ hcall
      obtain ⟨-, block, hblock, hall⟩ := hsound'.a.events _ hevent trivial
      obtain ⟨hstart, hnumber⟩ := Journal.mem_of_lastStart hlast
      have hsame : start = ⟨sn, block, true⟩ :=
        hsound'.a.unique trivial start (hgrows.started _ hstart) _ hblock hnumber
      subst hsame
      exact hall
  | b =>
      -- a step of B leaves A's trace as it is
      obtain ⟨node, -, rfl⟩ := Option.map_eq_some_iff.mp hstep
      rw [List.self_eq_append_right.mp htrace] at hcall
      cases hcall

/-- A check of the guard. -/
def noWrapCheck (n : Net) : Side × Action → Bool
  | (.a, action) => noWrap n.a.engine action
  | (.b, _) => true

theorem noWrapGuard_of_check (n : Net) (step : Side × Action) (h : noWrapCheck n step = true) :
    NetGuard False n step := by
  obtain ⟨side, action⟩ := step
  cases side with
  | a => exact noWrap_of_check h
  | b => exact False.elim

/-- A block has been sent, and its report is under way. -/
def reporting : List (Side × Action) :=
  [(.a, .startSession twoBytesBlock true), (.b, .receive wholeBlock.wire)]

theorem completion_heard_report : ∃ n n',
    (twoNodes 1400).run noWrapCheck reporting = some n ∧
      n.exec (.a, .receive fullReport.wire) = some n' ∧
      .sessionComplete ⟨1, 1⟩ 1 ∈ n'.a.engine.trace ∧
      ∀ i < 2, n.b.journal.Has ⟨1, 1⟩ [7, 8] i := by
  have hcheck : ((twoNodes 1400).run noWrapCheck reporting).map (fun n =>
      (n.exec (.a, .receive fullReport.wire)).map fun n' =>
        decide (n'.a.engine.trace = n.a.engine.trace ++
          [.sendSegment ackOfReport.wire, .sessionComplete ⟨1, 1⟩ 1]) &&
        decide (n.a.journal.lastStart 1 = some ⟨1, [7, 8], true⟩)) = some (some true) := by
    decide +kernel
  obtain ⟨n, hrun, hn⟩ := Option.map_eq_some_iff.mp hcheck
  obtain ⟨n', hstep, hn'⟩ := Option.map_eq_some_iff.mp hn
  rw [Bool.and_eq_true, decide_eq_true_eq, decide_eq_true_eq] at hn'
  have hheard := completion_heard (nodeConfig 1 1400) (nodeConfig 2 1400) n n'
    (.a, .receive fullReport.wire) (by decide) (reachable_of_run noWrapGuard_of_check hrun)
    trivial hstep
  refine ⟨n, n', hrun, hstep, ?_, hheard 1 1 _ _ hn'.1 (by simp [nodeConfig]) hn'.2 rfl⟩
  rw [hn'.1]
  exact List.mem_append_right _ (by simp)

/-! ## When the counter wraps -/

/-- The first of two blocks with the same session number, reported. -/
def oneByteBlock : Block := ⟨[7], by decide⟩

/-- The second one. -/
def otherByteBlock : Block := ⟨[8], by decide⟩

def oneByteSegment : LtpSegment := dataOf SegType.redDataCpEorpEob 0 [7] (some 1)

def oneByteReport : LtpSegment :=
  { segmentType := SegType.reportSegment, engineId := 1, sessionNumber := 1
    content := .report
      { reportSerial := 1, checkpointSerial := 1, upperBound := 1, lowerBound := 0,
        claims := [{ offset := 0, length := 1 }] } }

theorem oneByteReport_travels : oneByteReport.Travels where
  wellFormed :=
    { version := rfl, validType := rfl, headerCount := rfl, trailerCount := rfl
      content := ⟨rfl, by decide⟩ }
  headerExtensions := rfl
  trailerExtensions := rfl
  size := by
    show (1 : Nat) < 2 ^ 57
    decide

/-- A session of one byte, started, reported and completed. -/
def firstTransfer : List (Side × Action) :=
  [(.a, .startSession oneByteBlock true), (.b, .receive oneByteSegment.wire),
    (.a, .receive oneByteReport.wire)]

/-- A's table is empty and its counter stands at `counter`; B has received one
segment, and its report may arrive again. -/
structure Stale (counter : UInt64) (n : Net) : Prop where
  reachable : (network (nodeConfig 1 1400) (nodeConfig 2 1400)).Reachable System.free n
  config : n.a.engine.config = nodeConfig 1 1400
  counter : n.a.engine.sessionCounter = counter
  empty : n.a.engine.sessions.keys = []
  reported : .sendSegment oneByteReport.wire ∈ n.b.engine.trace
  received : n.b.journal.received = [oneByteSegment]

theorem exists_stale : ∃ n, Stale 1 n := by
  have hcheck : ((twoNodes 1400).run (fun _ _ => true) firstTransfer).map (fun n =>
      decide (n.a.engine.config = nodeConfig 1 1400) &&
        decide (n.a.engine.sessionCounter = 1) && decide (n.a.engine.sessions.keys = []) &&
        decide (Event.sendSegment oneByteReport.wire ∈ n.b.engine.trace) &&
        decide (n.b.journal.received = [oneByteSegment])) = some true := by decide +kernel
  obtain ⟨n, hrun, hn⟩ := Option.map_eq_some_iff.mp hcheck
  simp only [Bool.and_eq_true, decide_eq_true_eq] at hn
  obtain ⟨⟨⟨⟨hconfig, hcounter⟩, hempty⟩, hreported⟩, hreceived⟩ := hn
  exact ⟨n, reachable_of_run (fun _ _ _ => trivial) hrun, hconfig, hcounter, hempty, hreported,
    hreceived⟩

section Stale

variable {counter : UInt64} {n : Net}

/-- With an empty table a block that can be cut is started. -/
theorem Stale.start (h : Stale counter n) (data : Block) (reliable : Bool) :
    ∃ e, ∃ (segments : List LtpSegment) (cpSerial : UInt64),
      n.a.engine.startSession data reliable = .ok (e, counter + 1) ∧
      Effect { n.a.engine with sessionCounter := counter + 1 } e ⟨1, counter + 1⟩
        (if reliable then some { n.a.engine.originatorSession (counter + 1) data.bytes reliable with
          checkpointSerialCounter := cpSerial } else none) (segments.map Act.send) 0 := by
  obtain ⟨e, segments, cpSerial, hcall, heffect⟩ :=
    @startSession_of_empty n.a.engine h.empty (by rw [h.config]; decide) (by rw [h.config]; decide)
      data reliable
  have hkey : n.a.engine.localKey (counter + 1) = ⟨1, counter + 1⟩ := by
    rw [localKey, h.config]
    rfl
  rw [h.counter] at hcall heffect
  rw [hkey] at heffect
  exact ⟨e, segments, cpSerial, hcall, heffect⟩

/-- An empty green block leaves nothing behind but the counter. -/
theorem Stale.next (h : Stale counter n) : ∃ n', Stale (counter + 1) n' := by
  obtain ⟨e, segments, cpSerial, hcall, heffect⟩ := h.start emptyBlock false
  have hstep : n.exec (.a, .startSession emptyBlock false) = some { n with
      a := { engine := e, journal := Node.noteStart n.a.journal ⟨counter + 1, [], false⟩ } } := by
    rw [Net.exec, Node.exec, hcall]
    rfl
  refine ⟨_, h.reachable.step trivial hstep, heffect.config.trans h.config, heffect.sessionCounter,
    keys_of_lookup fun key => ?_, h.reported, h.received⟩
  by_cases hk : key = ⟨1, counter + 1⟩
  · rw [hk]
    exact heffect.lookup
  · exact (heffect.frame key hk).trans (lookup_of_keys h.empty key)

/-- The counter gets to any value. -/
theorem exists_stale_at (k : Nat) : ∃ n, Stale (1 + UInt64.ofNat k) n := by
  induction k with
  | zero => exact exists_stale
  | succ k ih =>
      obtain ⟨n, h⟩ := ih
      obtain ⟨n', h'⟩ := h.next
      rw [UInt64.add_assoc] at h'
      refine ⟨n', ?_⟩
      rwa [UInt64.ofNat_add]

/-- Session number 1 again, with another block, and the old report. -/
theorem Stale.reused (h : Stale 0 n) : ∃ n₁ n₂,
    (network (nodeConfig 1 1400) (nodeConfig 2 1400)).Reachable System.free n₁ ∧
      n₁.exec (.a, .receive oneByteReport.wire) = some n₂ ∧
      n₁.a.journal.lastStart 1 = some ⟨1, [8], true⟩ ∧
      n₁.b.journal.received = [oneByteSegment] ∧
      n₂.a.engine.trace = n₁.a.engine.trace ++
        [.sendSegment ackOfReport.wire, .sessionComplete ⟨1, 1⟩ 1] := by
  obtain ⟨e, segments, cpSerial, hcall, heffect⟩ := h.start otherByteBlock true
  have hstep : n.exec (.a, .startSession otherByteBlock true) = some { n with
      a := { engine := e, journal := Node.noteStart n.a.journal ⟨0 + 1, [8], true⟩ } } := by
    rw [Net.exec, Node.exec, hcall]
    rfl
  have hconfig : e.config = nodeConfig 1 1400 := heffect.config.trans h.config
  have hkey : e.localKey oneByteReport.sessionNumber = ⟨1, 1⟩ := by
    rw [localKey, hconfig]
    rfl
  have hlookup : e.sessions.lookup ⟨1, 1⟩ =
      some { n.a.engine.originatorSession 1 [8] true with checkpointSerialCounter := cpSerial } :=
    heffect.lookup
  have hfull : fullyReceived
      { n.a.engine.originatorSession 1 [8] true with checkpointSerialCounter := cpSerial }
      { reportSerial := 1, checkpointSerial := 1, upperBound := 1, lowerBound := 0,
        claims := [{ offset := 0, length := 1 }] } = true := rfl
  obtain ⟨e₂, hreport⟩ := @receiveReportSegment_returns e oneByteReport _ rfl
    fun session hl hnot => by
      rw [hkey, hlookup] at hl
      cases hl
      cases hfull.symm.trans hnot
  obtain ⟨rs, hrs, hcases⟩ := receiveReportSegment_cases hreport
  cases hrs
  rw [hkey, hlookup] at hcases
  dsimp only at hcases
  rw [if_pos ⟨rfl, rfl⟩] at hcases
  have htrace : e₂.trace = e.trace ++
      [.sendSegment ackOfReport.wire, .sessionComplete ⟨1, 1⟩ 1] := by
    have hid : n.a.engine.config.localEngineId = 1 := by
      rw [h.config]
      rfl
    cases hcases ⟨hid, rfl, rfl⟩ with
    | complete _ heffect => exact heffect.trace
    | waiting hnot _ _ => cases hfull.symm.trans hnot
    | gaveUp hnot _ _ _ => cases hfull.symm.trans hnot
    | resent hnot _ _ _ _ _ _ _ => cases hfull.symm.trans hnot
  have hreceive : e.receiveBytes oneByteReport.wire = .ok e₂ := by
    rw [receiveBytes_of_decode oneByteReport_travels.decode_wire, receiveSegment_report rfl]
    exact hreport
  refine ⟨_, { a := { engine := e₂, journal := { Node.noteStart n.a.journal ⟨0 + 1, [8], true⟩ with
      received := (Node.noteStart n.a.journal ⟨0 + 1, [8], true⟩).received ++
        decoded oneByteReport.wire } }, b := n.b },
    h.reachable.step trivial hstep, ?_, ?_, h.received, htrace⟩
  · rw [Net.exec, Node.exec, if_pos h.reported, hreceive]
    rfl
  · rw [Journal.lastStart, Node.noteStart, if_neg (by decide)]
    rw [List.reverse_append]
    rfl

/-- A session is reported complete for the report of an earlier block. -/
theorem completion_stale : ¬ ∀ (configA configB : LtpEngineConfig) (n n' : Net)
    (step : Side × Action), configA.localEngineId ≠ configB.localEngineId →
      (network configA configB).Reachable System.free n → n.exec step = some n' →
        CompletionHeard configA n n' := by
  intro h
  obtain ⟨n, hstale⟩ := exists_stale_at (2 ^ 64 - 1)
  obtain ⟨n₁, n₂, hreach, hstep, hlast, hreceived, htrace⟩ := Stale.reused (n := n) hstale
  obtain ⟨seg, hseg, ds, -, -, hds, hlow, hhigh, hbyte⟩ :=
    h (nodeConfig 1 1400) (nodeConfig 2 1400) n₁ n₂ _ (by decide) hreach hstep 1 1 _ _ htrace
      (by simp [nodeConfig]) hlast rfl 0 (by decide)
  rw [hreceived, List.mem_singleton] at hseg
  subst hseg
  cases hds
  exact absurd hbyte (by decide)

end Stale

end QpskB210.Ltp
