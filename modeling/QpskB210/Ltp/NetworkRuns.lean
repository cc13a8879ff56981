import QpskB210.Ltp.NetworkInvariant

/-!
# LTP — Network runs

The invariant over whole runs of the network, for the sessions of A. A run is
held to `NoWrap` at A, so that A's session numbers stay unique, and, where
B's deliveries are looked at, to `TimelyAcks` at B: no report is acknowledged
to a red session that has data but not yet the end of its block.
-/

namespace QpskB210.Ltp

open QpskB210.Lib LtpEngine

/-! ## The guards -/

/-- `start_session` is not called when its next number would be 0. -/
def NoWrap (e : LtpEngine) : Action → Prop
  | .startSession _ _ => e.sessionCounter.toNat + 1 < 2 ^ 64
  | _ => True

/-- A red session for which a report is acknowledged has seen the end of its
block, or has no data. -/
def TimelyAcks (e : LtpEngine) : Action → Prop
  | .receive bytes => ∀ seg, LtpSegment.decode bytes = .ok (some seg) →
      seg.segmentType = SegType.reportAck →
      ∀ session, e.sessions.lookup (segmentKey seg) = some session → session.role = .receiver →
        session.isRed = true → session.totalDataLength = 0 → session.clientData = []
  | _ => True

/-- The guard on a run; B's deliveries are looked at if `strict`. -/
def NetGuard (strict : Prop) (n : Net) (step : Side × Action) : Prop :=
  match step with
  | (.a, action) => NoWrap n.a.engine action
  | (.b, action) => strict → TimelyAcks n.b.engine action

/-! ## Starting a session -/

section Step

variable {strict strict' mine theirs : Prop} {x y : Journal} {e e' : LtpEngine}

theorem noteStart_grows (j : Journal) (start : Start) : j.Grows (Node.noteStart j start) := by
  rw [Node.noteStart]
  split
  · exact .refl j
  · exact ⟨rfl, fun s hs => List.mem_append_left _ hs, fun _ h => h⟩

theorem mem_noteStart {j : Journal} {start s : Start} (h : s ∈ (Node.noteStart j start).started) :
    s ∈ j.started ∨ s = start := by
  rw [Node.noteStart] at h
  split at h
  · exact .inl h
  · exact (List.mem_append.mp h).imp_right List.mem_singleton.mp

theorem noteStart_mem {j : Journal} {start : Start} (h : start.sessionNumber ≠ 0) :
    start ∈ (Node.noteStart j start).started := by
  rw [Node.noteStart, if_neg h]
  exact List.mem_append_right _ (List.mem_singleton_self _)

/-- A counter that does not wrap has a next number, which is not 0. -/
theorem next_number (hwrap : e.sessionCounter.toNat + 1 < 2 ^ 64) :
    (e.sessionCounter + 1).toNat = e.sessionCounter.toNat + 1 ∧ e.sessionCounter + 1 ≠ 0 := by
  have hnext : (e.sessionCounter + 1).toNat = e.sessionCounter.toNat + 1 := toNat_add_of_lt hwrap
  refine ⟨hnext, fun h0 => ?_⟩
  rw [h0] at hnext
  cases hnext

/-- The state in which a new session has its number, but is not in the table. -/
theorem Sound.numbered (h : Sound strict mine theirs ⟨e, x⟩ y)
    (hwrap : mine → e.sessionCounter.toNat + 1 < 2 ^ 64) (data : Block) (reliable : Bool) :
    Sound strict mine theirs ⟨{ e with sessionCounter := e.sessionCounter + 1 },
      Node.noteStart x ⟨e.sessionCounter + 1, data.bytes, reliable⟩⟩ y := by
  have hgrows := noteStart_grows x ⟨e.sessionCounter + 1, data.bytes, reliable⟩
  have hold (hmine : mine) : ∀ start ∈ x.started, start.sessionNumber ≠ e.sessionCounter + 1 := by
    intro start hstart heq
    have hle : start.sessionNumber.toNat ≤ e.sessionCounter.toNat := h.counter hmine start hstart
    rw [heq, (next_number (hwrap hmine)).1] at hle
    omega
  refine ⟨hgrows.id.trans h.id, h.stored, fun hmine start hstart => ?_,
    fun hmine start hstart start' hstart' heq => ?_,
    fun key session hlookup => (h.sessions key session hlookup).mono hgrows (.refl y),
    fun event hevent => (h.events event hevent).mono hgrows (.refl y)⟩
  · show start.sessionNumber.toNat ≤ (e.sessionCounter + 1).toNat
    rcases mem_noteStart hstart with hstart | rfl
    · have hle : start.sessionNumber.toNat ≤ e.sessionCounter.toNat := h.counter hmine start hstart
      rw [(next_number (hwrap hmine)).1]
      omega
    · exact le_rfl
  · rcases mem_noteStart hstart with hstart | rfl <;>
      rcases mem_noteStart hstart' with hstart' | rfl
    · exact h.unique hmine start hstart start' hstart' heq
    · exact absurd heq (hold hmine start hstart)
    · exact absurd heq.symm (hold hmine start' hstart')
    · rfl

/-- Only an own session can be under the key of the next session, and none is
while the counter does not wrap. -/
theorem Sound.next_key (h : Sound strict mine theirs ⟨e, x⟩ y) (hdistinct : x.id ≠ y.id)
    (hwrap : mine → e.sessionCounter.toNat + 1 < 2 ^ 64) {session : LtpSession}
    (hlookup : e.sessions.lookup (e.localKey (e.sessionCounter + 1)) = some session) :
    session.role = .originator ∧ ¬ mine := by
  have hok := h.sessions _ _ hlookup
  have hid : (e.localKey (e.sessionCounter + 1)).engineId = x.id := h.id.symm
  cases hrole : session.role with
  | originator =>
      refine ⟨rfl, fun hmine => ?_⟩
      have hle : (e.sessionCounter + 1).toNat ≤ e.sessionCounter.toNat :=
        h.counter hmine _ ((hok.own hrole).started hmine)
      rw [(next_number (hwrap hmine)).1] at hle
      omega
  | receiver => exact absurd (hid.symm.trans (hok.peer hrole).1) hdistinct

/-- What `start_session` segments is a block of this node; the one it was
called with, while the counter does not wrap. -/
theorem Sound.startedSession (h : Sound strict mine theirs ⟨e, x⟩ y) (hdistinct : x.id ≠ y.id)
    (hwrap : mine → e.sessionCounter.toNat + 1 < 2 ^ 64) (data : Block) (reliable : Bool) :
    ∃ start, Source mine (Node.noteStart x ⟨e.sessionCounter + 1, data.bytes, reliable⟩)
        (e.startedSession data.bytes reliable) start ∧
      Stored (e.localKey (e.sessionCounter + 1)) (e.startedSession data.bytes reliable) ∧
      (e.startedSession data.bytes reliable).role = .originator ∧
      (e.startedSession data.bytes reliable).totalDataLength =
        UInt64.ofNat (e.startedSession data.bytes reliable).clientData.length ∧
      (reliable = true → (e.startedSession data.bytes reliable).isRed = true) := by
  have hid := (noteStart_grows x ⟨e.sessionCounter + 1, data.bytes, reliable⟩).id
  rw [LtpEngine.startedSession]
  cases hlookup : e.sessions.lookup (e.localKey (e.sessionCounter + 1)) with
  | none =>
      refine ⟨⟨e.sessionCounter + 1, data.bytes, reliable⟩,
        { engineId := (hid.trans h.id).symm, started := fun hmine => ?_, sessionNumber := rfl, data := rfl
          isRed := rfl, size := data.size_lt }, ⟨rfl, rfl, rfl⟩, rfl, rfl, fun hred => hred⟩
      exact noteStart_mem (next_number (hwrap hmine)).2
  | some session =>
      obtain ⟨hrole, hwrapped⟩ := h.next_key hdistinct hwrap hlookup
      have hs := h.stored _ _ hlookup
      have hown := (h.sessions _ _ hlookup).own hrole
      have hsource := hown.source hs
      exact ⟨_, { hsource with
        engineId := hsource.engineId.trans hid.symm
        started := fun hmine => absurd hmine hwrapped }, hs, hrole, hown.total,
        fun _ => hown.isRed⟩

theorem Sound.startSession (h : Sound strict mine theirs ⟨e, x⟩ y) (hdistinct : x.id ≠ y.id)
    (hwrap : mine → e.sessionCounter.toNat + 1 < 2 ^ 64) {data : Block} {reliable : Bool}
    {sn : UInt64} (hcall : e.startSession data reliable = .ok (e', sn)) :
    Sound strict mine theirs ⟨e', Node.noteStart x ⟨sn, data.bytes, reliable⟩⟩ y := by
  rcases startSession_cases hcall with ⟨-, rfl, rfl⟩ | ⟨-, rfl, segments, cpSerial, hsegments, heffect⟩
  · exact h
  obtain ⟨start, hsource, hs, hrole, htotal, hred⟩ :=
    h.startedSession hdistinct hwrap data reliable
  refine (h.numbered hwrap data reliable).effect heffect (fun session hsession => ?_)
    fun act hact => ?_
  · split at hsession
    · rename_i hreliable
      cases hsession
      refine ⟨⟨hs.engineId, hs.sessionNumber, hs.active⟩, sessionOk_of_own ?_ hrole⟩
      refine ⟨hs.engineId.symm.trans hsource.engineId, fun hmine => ?_, ?_, htotal, hred hreliable⟩
      · have hstart : start = ⟨e.sessionCounter + 1,
            (e.startedSession data.bytes reliable).clientData, true⟩ := by
          rw [hsource.data, ← hred hreliable, hsource.isRed]
          rw [show e.sessionCounter + 1 = start.sessionNumber from
            hs.sessionNumber.symm.trans hsource.sessionNumber.symm]
        exact hstart ▸ hsource.started hmine
      · show (e.startedSession data.bytes reliable).clientData.length < _
        rw [hsource.data]
        exact hsource.size
    · cases hsession
  · obtain ⟨seg, hseg, rfl⟩ := List.mem_map.mp hact
    obtain ⟨hmax, rfl, -⟩ := segmentDataImpl_eq_ok.mp hsegments
    obtain ⟨p, hp, rfl⟩ := List.mem_map.mp hseg
    exact hsource.blockSegment hmax hp _

/-! ## One step of a node -/

/-- Under the guard, what an acknowledged report lets the node deliver is the
peer's block. -/
theorem Sound.arrived (h : Sound strict mine theirs ⟨e, x⟩ y) (htheirs : theirs)
    {seg : LtpSegment} {session : LtpSession} {data : List UInt8}
    (hlookup : e.sessions.lookup (segmentKey seg) = some session)
    (hrole : session.role = .receiver)
    (htimely : session.isRed = true → session.totalDataLength = 0 → session.clientData = [])
    (hcomplete : session.receptionTracker.isComplete session.totalDataLength = true)
    (hdata : assignRange session.clientData 0 session.totalDataLength.toNat = .ok data) :
    Arrived y (segmentKey seg) data := by
  obtain ⟨start, hpeer⟩ := ((h.sessions _ _ hlookup).peer hrole).2.2 htheirs
  refine ⟨hpeer.engineId, start, hpeer.started, hpeer.sessionNumber, fun hred => ?_⟩
  have hempty (hzero : session.totalDataLength = 0) : start.data = [] :=
    hpeer.nonempty (htimely (hpeer.isRed.trans hred) hzero)
  exact hpeer.reassembles.delivered hempty hcomplete hdata

theorem Sound.receiveSegment (h : Sound strict mine theirs ⟨e, x⟩ y) (hp : Peers theirs x y)
    {seg : LtpSegment} (hhonest : Honest theirs mine y x seg) (hmem : seg ∈ x.received)
    (htimely : strict → seg.segmentType = SegType.reportAck →
      ∀ session, e.sessions.lookup (segmentKey seg) = some session → session.role = .receiver →
        session.isRed = true → session.totalDataLength = 0 → session.clientData = [])
    (hcall : e.receiveSegment seg = .ok e') : Sound strict mine theirs ⟨e', x⟩ y := by
  rcases receiveSegment_cases hcall with ⟨htype, hcall⟩ | ⟨htype, hcall⟩ | ⟨htype, hcall⟩ |
    ⟨-, hcall⟩ | rfl | rfl
  · exact h.receiveDataSegment hp hhonest hmem htype hcall
  · exact h.receiveReportSegment hhonest htype hcall
  · refine h.receiveReportAck
      (fun hstrict htheirs session data hlookup hrole hcomplete hdata => ?_) hcall
    exact h.arrived htheirs hlookup hrole (htimely hstrict htype session hlookup hrole) hcomplete
      hdata
  · exact h.receiveCancelSegment hcall
  · rw [h.stored.receiveCancelAck]
    exact h
  · exact h

theorem decoded_wire {seg : LtpSegment} (h : seg.Travels) : decoded seg.wire = [seg] := by
  rw [decoded, h.decode_wire]

/-- **One step.** A guarded step of a node keeps it sound, and its journal
grows. -/
theorem Sound.exec {node node' peer : Node} {a : Action}
    (h : Sound strict mine theirs node peer.journal)
    (hpeer : Sound strict' theirs mine peer node.journal)
    (hdistinct : node.journal.id ≠ peer.journal.id) (hwrap : mine → NoWrap node.engine a)
    (htimely : strict → TimelyAcks node.engine a)
    (hstep : node.exec peer.engine.trace a = some node') :
    Sound strict mine theirs node' peer.journal ∧ node.journal.Grows node'.journal := by
  obtain ⟨e, x⟩ := node
  cases a with
  | startSession data reliable =>
      rw [Node.exec] at hstep
      split at hstep
      · rename_i e' sn hcall
        cases hstep
        exact ⟨h.startSession hdistinct hwrap hcall, noteStart_grows x _⟩
      · cases hstep
  | cancelSession engineId sessionNumber reason =>
      rw [Node.exec] at hstep
      split at hstep
      · rename_i e' hcall
        cases hstep
        exact ⟨@Sound.cancelSession strict mine theirs x peer.journal e e'
          ⟨engineId, sessionNumber⟩ h reason hcall, .refl x⟩
      · cases hstep
  | receive bytes =>
      rw [Node.exec] at hstep
      split at hstep
      · rename_i hsent
        split at hstep
        · rename_i e' hcall
          cases hstep
          obtain ⟨seg, hhonest, rfl⟩ := hpeer.events _ hsent
          have hdecode := hhonest.travels.decode_wire
          have hgrows : x.Grows { x with received := x.received ++ decoded seg.wire } :=
            ⟨rfl, fun _ h => h, fun s hs => List.mem_append_left _ hs⟩
          have hx : Sound strict mine theirs
              ⟨e, { x with received := x.received ++ decoded seg.wire }⟩ peer.journal :=
            ⟨h.id, h.stored, h.counter, h.unique,
              fun key session hlookup => (h.sessions key session hlookup).mono hgrows (.refl _),
              fun event hevent => (h.events event hevent).mono hgrows (.refl _)⟩
          have hcall : e.receiveBytes seg.wire = .ok e' := hcall
          rw [receiveBytes_of_decode hdecode] at hcall
          refine ⟨hx.receiveSegment ⟨hdistinct, hpeer.unique⟩ (hhonest.mono (.refl _) hgrows) ?_
            (fun hstrict => htimely hstrict seg hdecode) hcall, hgrows⟩
          rw [decoded_wire hhonest.travels]
          exact List.mem_append_right _ (List.mem_singleton_self _)
        · cases hstep
      · cases hstep
  | expire entry =>
      rw [Node.exec] at hstep
      split at hstep
      · rename_i e' hcall
        cases hstep
        exact ⟨h.expire hcall, .refl x⟩
      · cases hstep
  | handleTimerExpiry event => cases hstep

end Step

/-! ## Runs -/

/-- The invariant of the network, for the sessions of A. -/
structure NetSound (configA configB : LtpEngineConfig) (strict : Prop) (n : Net) : Prop where
  a : Sound False True False n.a n.b.journal
  b : Sound strict False True n.b n.a.journal
  idA : n.a.journal.id = configA.localEngineId
  idB : n.b.journal.id = configB.localEngineId

variable {configA configB : LtpEngineConfig} {strict : Prop} {n n' : Net}

theorem sound_create (config : LtpEngineConfig) (now : Nat) (strict mine theirs : Prop)
    (y : Journal) : Sound strict mine theirs (Node.create config now) y where
  id := rfl
  stored := wellStored_create _ _
  counter := fun _ _ h => nomatch h
  unique := fun _ _ h => nomatch h
  sessions := fun _ _ h => nomatch h
  events := fun _ h => nomatch h

theorem NetSound.exec (hids : configA.localEngineId ≠ configB.localEngineId)
    (h : NetSound configA configB strict n) {step : Side × Action}
    (hguard : NetGuard strict n step) (hstep : n.exec step = some n') :
    NetSound configA configB strict n' ∧ n.a.journal.Grows n'.a.journal := by
  have hdistinct : n.a.journal.id ≠ n.b.journal.id := by
    rw [h.idA, h.idB]
    exact hids
  obtain ⟨side, action⟩ := step
  cases side with
  | a =>
      obtain ⟨node, hnode, rfl⟩ := Option.map_eq_some_iff.mp hstep
      obtain ⟨hsound, hgrows⟩ := h.a.exec h.b hdistinct (fun _ => hguard) False.elim hnode
      exact ⟨⟨hsound, h.b.peer hgrows, hgrows.id.trans h.idA, h.idB⟩, hgrows⟩
  | b =>
      obtain ⟨node, hnode, rfl⟩ := Option.map_eq_some_iff.mp hstep
      obtain ⟨hsound, hgrows⟩ := h.b.exec h.a hdistinct.symm False.elim hguard hnode
      exact ⟨⟨h.a.peer hgrows, hsound, h.idA, hgrows.id.trans h.idB⟩, .refl _⟩

theorem netSound_of_reachable (hids : configA.localEngineId ≠ configB.localEngineId)
    (h : (network configA configB).Reachable (NetGuard strict) n) :
    NetSound configA configB strict n := by
  refine h.invariant (fun n₀ hinit => ?_) fun _ _ _ hsound hguard hstep =>
    (hsound.exec hids hguard hstep).1
  obtain ⟨nowA, nowB, rfl⟩ := hinit
  exact ⟨sound_create _ _ _ _ _ _, sound_create _ _ _ _ _ _, rfl, rfl⟩

end QpskB210.Ltp
