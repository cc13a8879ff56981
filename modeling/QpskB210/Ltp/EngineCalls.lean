import QpskB210.Ltp.EngineRuns

/-!
# LTP — Engine calls

The engine's public functions as a transition system, with `receive_segment`
taking any segment at all, whether or not it has been decoded. Each call works
on one session key, which is known before the call (`Call.key`).
-/

namespace QpskB210.Ltp

open QpskB210.Lib

/-- One call of a public function, or one entry of the timer manager's heap
that expires. -/
inductive Call where
  | startSession (data : Block) (reliable : Bool)
  | cancelSession (engineId sessionNumber : UInt64) (reason : UInt8)
  | receiveSegment (seg : LtpSegment)
  | handleTimerExpiry (event : TimerEvent)
  | expire (entry : TimerEntry)

namespace LtpEngine

def call (e : LtpEngine) : Call → Except Exn LtpEngine
  | .startSession data reliable => do
    let (e, _) ← e.startSession data reliable
    pure e
  | .cancelSession engineId sessionNumber reason => e.cancelSession engineId sessionNumber reason
  | .receiveSegment seg => e.receiveSegment seg
  | .handleTimerExpiry event => e.handleTimerExpiry event
  | .expire entry => e.expire entry

/-- The runs of an engine with this configuration. -/
def calls (config : LtpEngineConfig) : System LtpEngine Call where
  init e := ∃ timerManager, e = create config timerManager
  step e c e' := e.call c = .ok e'

/-- Some calls, one after the other, as long as each passes the check. -/
def callEach (check : LtpEngine → Call → Bool) (e : LtpEngine) : List Call → Option LtpEngine
  | [] => some e
  | c :: cs =>
    if check e c then (e.call c).toOption.bind fun e' => callEach check e' cs else none

theorem path_of_callEach {S : System LtpEngine Call}
    (hS : ∀ e c e', e.call c = .ok e' → S.step e c e') {guard : LtpEngine → Call → Prop}
    {check : LtpEngine → Call → Bool} (hcheck : ∀ e c, check e c = true → guard e c)
    {e e' : LtpEngine} {cs : List Call} (h : e.callEach check cs = some e') :
    S.Path guard e e' := by
  induction cs generalizing e with
  | nil =>
      cases h
      exact .refl
  | cons c cs ih =>
      rw [callEach] at h
      split at h
      · next hpass =>
        obtain ⟨e₁, hcall, h⟩ := Option.bind_eq_some_iff.mp h
        exact .head ⟨c, hcheck e c hpass, hS e c e₁ (eq_ok_of_toOption hcall)⟩ (ih h)
      · cases h

theorem reachable_of_callEach {config : LtpEngineConfig} {guard : LtpEngine → Call → Prop}
    {check : LtpEngine → Call → Bool} (hcheck : ∀ e c, check e c = true → guard e c)
    {e e' : LtpEngine} {cs : List Call} (he : (calls config).Reachable guard e)
    (h : e.callEach check cs = some e') : (calls config).Reachable guard e' :=
  he.path (path_of_callEach (fun _ _ _ hstep => hstep) hcheck h)

end LtpEngine

/-- The key a call works on. -/
def Call.key (e : LtpEngine) : Call → SessionKey
  | .startSession _ _ => e.localKey (e.sessionCounter + 1)
  | .cancelSession engineId sessionNumber _ => ⟨engineId, sessionNumber⟩
  | .receiveSegment seg => e.addressed seg
  | .handleTimerExpiry event => e.timerSession event
  | .expire entry => e.timerSession entry.event

/-- The session counter after the call. -/
def Call.counter (e : LtpEngine) : Call → UInt64
  | .startSession _ _ => if e.isFull then e.sessionCounter else e.sessionCounter + 1
  | _ => e.sessionCounter

namespace LtpEngine

variable {e e' : LtpEngine} {key : SessionKey}

theorem WellStored.call (hw : e.WellStored) {c : Call} (h : e.call c = .ok e') :
    e'.WellStored := by
  cases c with
  | startSession data reliable => exact hw.exec (a := .startSession data reliable) h
  | cancelSession engineId sn reason => exact hw.exec (a := .cancelSession engineId sn reason) h
  | receiveSegment seg => exact hw.receiveSegment h
  | handleTimerExpiry event => exact hw.handleTimerExpiry h
  | expire entry => exact hw.exec (a := .expire entry) h

theorem wellStored_of_calls {config : LtpEngineConfig} {guard : LtpEngine → Call → Prop}
    (h : (calls config).Reachable guard e) : e.WellStored :=
  h.invariant (fun _ ⟨_, hcreate⟩ => hcreate ▸ wellStored_create _ _)
    fun _ _ _ hw _ hstep => hw.call hstep

/-- What runs on bytes from the link reach, runs on decoded segments reach. -/
theorem reachable_of_runs {config : LtpEngineConfig}
    (h : (runs config).Reachable System.free e) : (calls config).Reachable System.free e := by
  refine h.invariant (fun e hinit => .init hinit) fun e a e' he _ hstep => ?_
  cases a with
  | startSession data reliable => exact he.step (a := .startSession data reliable) trivial hstep
  | cancelSession engineId sn reason =>
      exact he.step (a := .cancelSession engineId sn reason) trivial hstep
  | receive bytes =>
      rcases receiveBytes_cases hstep with rfl | ⟨seg, -, hseg⟩
      · exact he
      · exact he.step (a := .receiveSegment seg) trivial hseg
  | expire entry => exact he.step (a := .expire entry) trivial hstep
  | handleTimerExpiry event => exact he.step (a := .handleTimerExpiry event) trivial hstep

/-- **Frame.** A call changes no session but the one it works on. -/
theorem call_confined (hw : e.WellStored) {c : Call} (h : e.call c = .ok e') :
    e.Confined e' (c.key e) := by
  cases c with
  | startSession data reliable =>
      obtain ⟨⟨e₁, sn⟩, hstart, h⟩ := bind_eq_ok.mp h
      cases h
      exact startSession_confined hstart
  | cancelSession engineId sn reason => exact (cancelSession_affects h).confined
  | receiveSegment seg => exact (receiveSegment_affects hw h).confined
  | handleTimerExpiry event => exact (handleTimerExpiry_affects hw h).confined
  | expire entry => exact expire_confined hw h

theorem call_sessionCounter (hw : e.WellStored) {c : Call} (h : e.call c = .ok e') :
    e'.sessionCounter = c.counter e := by
  cases c with
  | startSession data reliable =>
      obtain ⟨⟨e₁, sn⟩, hstart, h⟩ := bind_eq_ok.mp h
      cases h
      rw [Call.counter]
      rcases startSession_cases hstart with ⟨hfull, rfl, -⟩ | ⟨hfree, rfl, _, _, -, h⟩
      · rw [if_pos hfull]
      · rw [if_neg (by simp [hfree]), h.sessionCounter]
  | cancelSession engineId sn reason =>
      obtain ⟨_, _, _, heffect⟩ := cancelSession_affects h
      exact heffect.sessionCounter
  | receiveSegment seg =>
      obtain ⟨_, _, _, heffect⟩ := receiveSegment_affects hw h
      exact heffect.sessionCounter
  | handleTimerExpiry event =>
      obtain ⟨_, _, _, heffect⟩ := handleTimerExpiry_affects hw h
      exact heffect.sessionCounter
  | expire entry =>
      rcases expire_cases h with rfl | ⟨tm, -, -, ⟨-, rfl⟩ | ⟨-, h⟩⟩
      · rfl
      · rfl
      · obtain ⟨_, _, _, heffect⟩ := @handleTimerExpiry_affects (e.popped tm entry) e' hw _ h
        exact heffect.sessionCounter

/-! ## What becomes of the session -/

/-- A session before a call and after it: its transfer may have gone on. Only
data changes its block. -/
structure Succeeds (session session' : LtpSession) (data : Prop) : Prop where
  role : session'.role = session.role
  isRed : session'.isRed = session.isRed
  block : session'.clientData = session.clientData ∧
    session'.totalDataLength = session.totalDataLength ∨ data

/-- What the table holds under the key succeeds what it held before. -/
def Leaves (e e' : LtpEngine) (key : SessionKey) (data : Prop) : Prop :=
  ∀ session', e'.sessions.lookup key = some session' →
    ∃ session, e.sessions.lookup key = some session ∧ Succeeds session session' data

/-- The session that a call leaves under its key: the one that was there, or
a new one in a free slot. -/
inductive Holds (e : LtpEngine) (c : Call) (session' : LtpSession) : Prop where
  | same (session : LtpSession) (hlookup : e.sessions.lookup (c.key e) = some session)
      (hs : Succeeds session session' (∃ seg, c = .receiveSegment seg ∧
        SegType.isData seg.segmentType = true))
  | received (seg : LtpSegment) (hc : c = .receiveSegment seg)
      (hdata : SegType.isData seg.segmentType = true) (hfree : e.isFull = false)
      (hrole : session'.role = .receiver)
  | started (data : Block) (cpSerial : UInt64) (hc : c = .startSession data true)
      (hfree : e.isFull = false)
      (hs : session' = { e.originatorSession (e.sessionCounter + 1) data.bytes true with
        checkpointSerialCounter := cpSerial })

variable {data : Prop} {session session' : LtpSession} {acts : List Act} {rounds : UInt64}

theorem Leaves.refl (e : LtpEngine) (key : SessionKey) : Leaves e e key data :=
  fun session' h => ⟨session', h, rfl, rfl, .inl ⟨rfl, rfl⟩⟩

theorem leaves_none (h : Effect e e' key none acts rounds) : Leaves e e' key data := by
  intro session' hlookup
  rw [h.lookup] at hlookup
  cases hlookup

theorem leaves_some (h : Effect e e' key (some session') acts rounds)
    (hlookup : e.sessions.lookup key = some session) (hs : Succeeds session session' data) :
    Leaves e e' key data := by
  intro s hs'
  rw [h.lookup] at hs'
  cases hs'
  exact ⟨session, hlookup, hs⟩

/-- Where a call changes no more than the serial counters and the count of
retransmissions, the session is the same. -/
theorem succeeds_of_eq (hrole : session'.role = session.role) (hred : session'.isRed = session.isRed)
    (hdata : session'.clientData = session.clientData)
    (htotal : session'.totalDataLength = session.totalDataLength) : Succeeds session session' data :=
  ⟨hrole, hred, .inl ⟨hdata, htotal⟩⟩

theorem receiveReportSegment_leaves (hw : e.WellStored) {seg : LtpSegment}
    (h : e.receiveReportSegment seg = .ok e') :
    Leaves e e' (e.localKey seg.sessionNumber) data := by
  obtain ⟨rs, -, hcases⟩ := receiveReportSegment_cases h
  split at hcases
  · exact leaves_none hcases
  · rename_i session hlookup
    split at hcases
    · cases hcases (hw _ _ hlookup) with
      | complete _ h => exact leaves_none h
      | waiting _ _ h => exact leaves_some h hlookup (succeeds_of_eq rfl rfl rfl rfl)
      | gaveUp _ _ _ h => exact leaves_none h
      | resent _ _ _ segments _ _ _ h =>
          obtain ⟨cpSerial, heq⟩ := checkpointed_eq (attempted session) segments
          rw [heq] at h
          exact leaves_some h hlookup (succeeds_of_eq rfl rfl rfl rfl)
    · exact leaves_some hcases hlookup (succeeds_of_eq rfl rfl rfl rfl)

theorem receiveReportAck_leaves {seg : LtpSegment} (h : e.receiveReportAck seg = .ok e') :
    Leaves e e' (segmentKey seg) data := by
  obtain ⟨ra, -, ⟨_, _, _, _, _, _, h⟩ | ⟨acts, h, -⟩⟩ := receiveReportAck_cases h
  · exact leaves_none h
  · intro session' hlookup
    rw [h.lookup] at hlookup
    exact Leaves.refl e _ session' hlookup

theorem receiveCancelSegment_leaves {seg : LtpSegment} (h : e.receiveCancelSegment seg = .ok e') :
    Leaves e e' (segmentKey seg) data := by
  obtain ⟨cc, -, hcases⟩ := receiveCancelSegment_cases h
  split at hcases <;> exact leaves_none hcases

theorem cancelSession_leaves {engineId sessionNumber : UInt64} {reason : UInt8}
    (h : e.cancelSession engineId sessionNumber reason = .ok e') :
    Leaves e e' ⟨engineId, sessionNumber⟩ data := by
  cases hlookup : e.sessions.lookup ⟨engineId, sessionNumber⟩ with
  | none =>
      rw [@cancelSession_of_none e ⟨engineId, sessionNumber⟩ reason hlookup] at h
      cases h
      exact .refl _ _
  | some session =>
      exact leaves_none (@cancelSession_effect e e' ⟨engineId, sessionNumber⟩ _ reason h hlookup)

theorem handleTimerExpiry_leaves (hw : e.WellStored) {event : TimerEvent}
    (h : e.handleTimerExpiry event = .ok e') : Leaves e e' (e.timerSession event) data := by
  rw [handleTimerExpiry] at h
  split at h
  · rename_i htype
    rw [timerSession, if_pos htype]
    cases checkpointExpiry_outcome h fun session hlookup => hw _ session hlookup with
    | idle h =>
        subst h
        exact .refl _ _
    | gaveUp _ _ _ _ h => exact leaves_none h
    | resent session hlookup _ _ _ _ _ h =>
        exact leaves_some h hlookup (succeeds_of_eq rfl rfl rfl rfl)
  · rename_i htype
    rw [timerSession, if_neg (by rw [htype]; decide)]
    rcases reportExpiry_cases h with rfl | ⟨session, hlookup, -, ⟨-, h⟩ | ⟨-, h⟩⟩
    · exact .refl _ _
    · exact leaves_some h hlookup (succeeds_of_eq rfl rfl rfl rfl)
    · exact leaves_some h hlookup (succeeds_of_eq rfl rfl rfl rfl)
  · cases h
    exact .refl _ _

theorem expire_leaves (hw : e.WellStored) {entry : TimerEntry} (h : e.expire entry = .ok e') :
    Leaves e e' (e.timerSession entry.event) data := by
  rcases expire_cases h with rfl | ⟨tm, -, -, ⟨-, rfl⟩ | ⟨-, h⟩⟩
  · exact .refl _ _
  · exact Leaves.refl e _
  · exact @handleTimerExpiry_leaves (e.popped tm entry) e' data hw entry.event h

/-- A data segment goes to the session that is there or sets one up. -/
theorem receiveDataSegment_holds {seg : LtpSegment} (htype : SegType.isData seg.segmentType = true)
    (h : e.receiveDataSegment seg = .ok e')
    (hlookup : e'.sessions.lookup (segmentKey seg) = some session') :
    Holds e (.receiveSegment seg) session' := by
  have hkey : (Call.receiveSegment seg).key e = segmentKey seg := addressed_data htype
  obtain ⟨ds, -, ⟨hnone, -, rfl⟩ | ⟨session, hmeets, ⟨-, rfl⟩ | ⟨stored, hstore, hout⟩⟩⟩ :=
    receiveDataSegment_cases h
  · cases hnone.symm.trans hlookup
  · exact .same session' (hkey ▸ hlookup) (succeeds_of_eq rfl rfl rfl rfl)
  have hfields : session'.role = session.role ∧ session'.isRed = session.isRed := by
    obtain ⟨resized, buffer, -, -, rfl⟩ := LtpSession.store_eq hstore
    cases hout with
    | quiet _ h | reported _ _ _ h =>
        rw [h.lookup] at hlookup
        cases hlookup
        exact ⟨rfl, rfl⟩
    | delivered _ _ _ _ h =>
        rw [h.lookup] at hlookup
        cases hlookup
  rcases hmeets with hmet | ⟨hnone, hfree, rfl⟩
  · exact .same session (hkey ▸ hmet) ⟨hfields.1, hfields.2, .inr ⟨seg, rfl, htype⟩⟩
  · exact .received seg rfl htype hfree hfields.1

theorem startSession_holds {data : Block} {reliable : Bool} {sn : UInt64}
    (h : e.startSession data reliable = .ok (e', sn))
    (hlookup : e'.sessions.lookup (e.localKey (e.sessionCounter + 1)) = some session') :
    Holds e (.startSession data reliable) session' := by
  rcases startSession_cases h with ⟨-, rfl, -⟩ | ⟨hfree, rfl, segments, cpSerial, -, h⟩
  · exact .same session' hlookup (succeeds_of_eq rfl rfl rfl rfl)
  · rw [h.lookup] at hlookup
    cases reliable with
    | false => cases hlookup
    | true =>
        obtain rfl := Option.some.inj hlookup
        cases hmet : e.sessions.lookup (e.localKey (e.sessionCounter + 1)) with
        | none =>
            refine .started data cpSerial rfl hfree ?_
            rw [startedSession, hmet]
            rfl
        | some session =>
            refine .same session hmet ?_
            rw [startedSession, hmet]
            exact succeeds_of_eq rfl rfl rfl rfl

/-- **Succession.** Whatever a call leaves under its key is the session that
was there, or one that it has set up. -/
theorem call_holds (hw : e.WellStored) {c : Call} (h : e.call c = .ok e')
    (hlookup : e'.sessions.lookup (c.key e) = some session') : Holds e c session' := by
  have hsame : ∀ {data : Prop}, Leaves e e' (c.key e) data →
      (data → ∃ seg, c = .receiveSegment seg ∧ SegType.isData seg.segmentType = true) →
      Holds e c session' := by
    intro data hleaves hdata
    obtain ⟨session, hmet, hs⟩ := hleaves session' hlookup
    exact .same session hmet ⟨hs.role, hs.isRed, hs.block.imp_right hdata⟩
  cases c with
  | startSession data reliable =>
      obtain ⟨⟨e₁, sn⟩, hstart, h⟩ := bind_eq_ok.mp h
      cases h
      exact startSession_holds hstart hlookup
  | cancelSession engineId sn reason => exact hsame (cancelSession_leaves h) False.elim
  | receiveSegment seg =>
      rcases receiveSegment_cases h with
        ⟨htype, h⟩ | ⟨htype, h⟩ | ⟨htype, h⟩ | ⟨htype, h⟩ | rfl | rfl
      · exact receiveDataSegment_holds htype h (addressed_data htype ▸ hlookup)
      · refine hsame ?_ False.elim
        rw [Call.key, addressed_report htype]
        exact receiveReportSegment_leaves hw h
      · refine hsame ?_ False.elim
        rw [Call.key, addressed_of_ne (by rw [htype]; decide)]
        exact receiveReportAck_leaves h
      · refine hsame ?_ False.elim
        rw [Call.key, addressed_of_ne (by rcases htype with htype | htype <;> rw [htype] <;> decide)]
        exact receiveCancelSegment_leaves h
      · rw [hw.receiveCancelAck] at hsame
        exact hsame (.refl _ _) False.elim
      · exact hsame (.refl _ _) False.elim
  | handleTimerExpiry event => exact hsame (handleTimerExpiry_leaves hw h) False.elim
  | expire entry => exact hsame (expire_leaves hw h) False.elim

end LtpEngine

end QpskB210.Ltp
