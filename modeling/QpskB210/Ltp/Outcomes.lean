import QpskB210.Ltp.EngineCalls

/-!
# LTP — Outcomes

The end of a session is told by `on_session_complete` or
`on_session_failure`, with the bare session number. `Told` is an engine with
a record of its runs: the numbers that `start_session(data, true)` returned,
and for each of these two callbacks the session that it was called for. A
failure is told for sessions of both roles, so the number alone does not say
whose session failed; an originator session is told of once for each time its
number was returned.
-/

namespace QpskB210.Ltp

open QpskB210.Lib

/-- One call of `on_session_complete` or `on_session_failure`: its session
number, and the key and the role of the session that it was called for. -/
structure Outcome where
  sessionNumber : UInt64
  key : SessionKey
  role : Option SessionRole
  complete : Bool
deriving DecidableEq

/-- The outcome that a callback's call tells, of a session in this table. -/
def Event.outcome (sessions : SessionTable) : Event → Option Outcome
  | .sessionComplete key sn => some ⟨sn, key, (sessions.lookup key).map (·.role), true⟩
  | .sessionFailure key sn _ => some ⟨sn, key, (sessions.lookup key).map (·.role), false⟩
  | _ => none

namespace LtpEngine

/-- The outcomes told from `e` to `e'`, of the sessions that `e` holds. -/
def outcomes (e e' : LtpEngine) : List Outcome :=
  (e'.trace.drop e.trace.length).filterMap (Event.outcome e.sessions)

/-- The number that the call returns, if it starts a red session. -/
def returned (e : LtpEngine) : Call → List UInt64
  | .startSession data true =>
    match e.startSession data true with
    | .ok (_, sn) => [sn]
    | .error _ => []
  | _ => []

end LtpEngine

/-- An engine and the record of its run. -/
structure Told where
  engine : LtpEngine
  returned : List UInt64 := []
  outcomes : List Outcome := []

namespace Told

/-- The record after a call. -/
def after (n : Told) (c : Call) (e' : LtpEngine) : Told :=
  { engine := e'
    returned := n.returned ++ n.engine.returned c
    outcomes := n.outcomes ++ n.engine.outcomes e' }

def exec (n : Told) (c : Call) : Option Told := (n.engine.call c).toOption.map (n.after c)

end Told

/-- The runs of an engine with this configuration, with their record. -/
def told (config : LtpEngineConfig) : System Told Call where
  init n := ∃ timerManager, n = { engine := LtpEngine.create config timerManager }
  step n c n' := n.exec c = some n'

namespace LtpEngine

variable {e e' : LtpEngine} {key : SessionKey}

/-! ## The outcomes of one call -/

/-- The call tells of no session, or of the one that it removes. -/
inductive Tells (e e' : LtpEngine) (key : SessionKey) : Prop where
  | nothing (h : e.outcomes e' = [])
  | ended (session : LtpSession) (complete : Bool)
      (hlookup : e.sessions.lookup key = some session) (hgone : e'.sessions.lookup key = none)
      (h : e.outcomes e' = [⟨key.sessionNumber, key, some session.role, complete⟩])
      (hcomplete : complete = true → session.role = .originator)

theorem Tells.mem (h : Tells e e' key) {o : Outcome} (ho : o ∈ e.outcomes e') :
    ∃ session, e.sessions.lookup key = some session ∧ o.key = key ∧
      o.sessionNumber = key.sessionNumber ∧ o.role = some session.role ∧
      (o.complete = true → session.role = .originator) := by
  cases h with
  | nothing h =>
      rw [h] at ho
      cases ho
  | ended session complete hlookup hgone h hcomplete =>
      rw [h, List.mem_singleton] at ho
      subst ho
      exact ⟨session, hlookup, rfl, rfl, rfl, hcomplete⟩

theorem Tells.refl (e : LtpEngine) (key : SessionKey) : Tells e e key := by
  refine .nothing ?_
  rw [outcomes, List.drop_length]
  rfl

theorem Effect.outcomes_eq {held : Option LtpSession} {acts : List Act} {rounds : UInt64}
    (h : Effect e e' key held acts rounds) :
    e.outcomes e' = (events acts).filterMap (Event.outcome e.sessions) := by
  rw [outcomes, h.drop_trace]

theorem Effect.tells_nothing {held : Option LtpSession} {acts : List Act} {rounds : UInt64}
    (h : Effect e e' key held acts rounds)
    (hacts : (events acts).filterMap (Event.outcome e.sessions) = []) : Tells e e' key :=
  .nothing ((Effect.outcomes_eq h).trans hacts)

theorem Effect.tells_failure {acts : List Act} {rounds : UInt64} {session : LtpSession}
    (h : Effect e e' key none acts rounds)
    (hlookup : e.sessions.lookup key = some session)
    (hacts : (events acts).filterMap (Event.outcome e.sessions) =
      [⟨key.sessionNumber, key, (e.sessions.lookup key).map (·.role), false⟩]) : Tells e e' key := by
  rw [hlookup] at hacts
  exact .ended session false hlookup h.lookup ((Effect.outcomes_eq h).trans hacts) nofun

theorem outcomes_sends (sessions : SessionTable) (segments : List LtpSegment) :
    (events (segments.map Act.send)).filterMap (Event.outcome sessions) = [] := by
  induction segments with
  | nil => rfl
  | cons seg segments ih => exact ih

theorem receiveDataSegment_tells {seg : LtpSegment} (h : e.receiveDataSegment seg = .ok e') :
    Tells e e' (segmentKey seg) := by
  obtain ⟨ds, -, ⟨-, -, rfl⟩ | ⟨session, -, ⟨-, rfl⟩ | ⟨stored, -, hout⟩⟩⟩ :=
    receiveDataSegment_cases h
  · exact .refl _ _
  · exact .refl _ _
  · cases hout with
    | quiet _ h | reported _ _ _ h | delivered _ _ _ _ h => exact Effect.tells_nothing h rfl

theorem receiveReportSegment_tells (hw : e.WellStored) {seg : LtpSegment}
    (h : e.receiveReportSegment seg = .ok e') : Tells e e' (e.localKey seg.sessionNumber) := by
  obtain ⟨rs, -, hcases⟩ := receiveReportSegment_cases h
  split at hcases
  · exact Effect.tells_nothing hcases rfl
  · rename_i session hlookup
    have hs := hw _ _ hlookup
    split at hcases
    · rename_i hactive
      cases hcases hs with
      | complete _ h =>
          refine .ended session true hlookup h.lookup ?_ fun _ => hactive.1
          rw [Effect.outcomes_eq h, hs.sessionNumber, ← Option.map_some, ← hlookup]
          rfl
      | waiting _ _ h => exact Effect.tells_nothing h rfl
      | gaveUp _ _ _ h => exact Effect.tells_failure h hlookup rfl
      | resent _ _ _ segments marked _ _ h =>
          refine Effect.tells_nothing h ?_
          rw [events_append, List.filterMap_append, outcomes_sends]
          rfl
    · exact Effect.tells_nothing hcases rfl

theorem receiveReportAck_tells {seg : LtpSegment} (h : e.receiveReportAck seg = .ok e') :
    Tells e e' (segmentKey seg) := by
  obtain ⟨ra, -, ⟨_, _, _, _, _, _, h⟩ | ⟨acts, h, rfl | rfl, -⟩⟩ := receiveReportAck_cases h
  · exact Effect.tells_nothing h rfl
  · exact Effect.tells_nothing h rfl
  · exact Effect.tells_nothing h rfl

theorem receiveCancelSegment_tells (hw : e.WellStored) {seg : LtpSegment}
    (h : e.receiveCancelSegment seg = .ok e') : Tells e e' (segmentKey seg) := by
  obtain ⟨cc, -, hcases⟩ := receiveCancelSegment_cases h
  split at hcases
  · exact Effect.tells_nothing hcases rfl
  · rename_i session hlookup
    refine Effect.tells_failure hcases hlookup ?_
    rw [(hw _ _ hlookup).sessionNumber]
    rfl

theorem receiveSegment_tells (hw : e.WellStored) {seg : LtpSegment}
    (h : e.receiveSegment seg = .ok e') : Tells e e' (e.addressed seg) := by
  rcases receiveSegment_cases h with
    ⟨htype, h⟩ | ⟨htype, h⟩ | ⟨htype, h⟩ | ⟨htype, h⟩ | rfl | rfl
  · rw [addressed_data htype]
    exact receiveDataSegment_tells h
  · rw [addressed_report htype]
    exact receiveReportSegment_tells hw h
  · rw [addressed_of_ne (by rw [htype]; decide)]
    exact receiveReportAck_tells h
  · rw [addressed_of_ne (by rcases htype with htype | htype <;> rw [htype] <;> decide)]
    exact receiveCancelSegment_tells hw h
  · rw [hw.receiveCancelAck]
    exact .refl _ _
  · exact .refl _ _

theorem cancelSession_tells {reason : UInt8}
    (h : e.cancelSession key.engineId key.sessionNumber reason = .ok e') : Tells e e' key := by
  cases hlookup : e.sessions.lookup key with
  | none =>
      rw [cancelSession_of_none hlookup] at h
      exact Except.ok.inj h ▸ .refl _ _
  | some session => exact Effect.tells_failure (cancelSession_effect h hlookup) hlookup rfl

theorem handleTimerExpiry_tells (hw : e.WellStored) {event : TimerEvent}
    (h : e.handleTimerExpiry event = .ok e') : Tells e e' (e.timerSession event) := by
  rw [handleTimerExpiry] at h
  split at h
  · rename_i htype
    rw [timerSession, if_pos htype]
    cases checkpointExpiry_outcome h fun session hlookup => hw _ session hlookup with
    | idle h => exact h ▸ .refl _ _
    | gaveUp session hlookup _ _ h => exact Effect.tells_failure h hlookup rfl
    | resent _ _ _ _ segments _ _ h => exact Effect.tells_nothing h (outcomes_sends _ segments)
  · rename_i htype
    rw [timerSession, if_neg (by rw [htype]; decide)]
    rcases reportExpiry_cases h with rfl | ⟨session, -, -, ⟨-, h⟩ | ⟨-, h⟩⟩
    · exact .refl _ _
    · exact Effect.tells_nothing h rfl
    · exact Effect.tells_nothing h rfl
  · exact Except.ok.inj h ▸ .refl _ _

/-- **One call.** A call tells of no session but the one that it works on,
and only as it removes it. -/
theorem call_tells (hw : e.WellStored) {c : Call} (h : e.call c = .ok e') :
    Tells e e' (c.key e) := by
  cases c with
  | startSession data reliable =>
      obtain ⟨⟨e₁, sn⟩, hstart, h⟩ := bind_eq_ok.mp h
      cases h
      rcases startSession_cases hstart with ⟨-, rfl, -⟩ | ⟨-, rfl, segments, cpSerial, -, h⟩
      · exact .refl _ _
      · exact .nothing ((Effect.outcomes_eq h).trans (outcomes_sends _ segments))
  | cancelSession engineId sn reason => exact @cancelSession_tells e e' ⟨engineId, sn⟩ reason h
  | receiveSegment seg => exact receiveSegment_tells hw h
  | handleTimerExpiry event => exact handleTimerExpiry_tells hw h
  | expire entry =>
      rcases expire_cases h with rfl | ⟨tm, -, -, ⟨-, rfl⟩ | ⟨-, h⟩⟩
      · exact .refl _ _
      · exact .nothing (by rw [outcomes, popped, List.drop_length]; rfl)
      · cases handleTimerExpiry_tells (e := e.popped tm entry) hw h with
        | nothing h => exact .nothing h
        | ended session complete hlookup hgone h hcomplete =>
            exact .ended session complete hlookup hgone h hcomplete

end LtpEngine

/-! ## Runs -/

/-- The outcome is that of an originator session with this number. -/
def Outcome.ofOriginator (sn : UInt64) (o : Outcome) : Bool :=
  o.sessionNumber = sn && o.role = some .originator

/-- What is told of the originator sessions with a number was told at most once
for each time the number was returned, only they are told complete, and every
outcome is that of a session in the table, told by its own number. -/
structure Told.Unambiguous (n : Told) : Prop where
  once : ∀ sn, n.outcomes.countP (Outcome.ofOriginator sn) ≤ n.returned.count sn
  complete : ∀ o ∈ n.outcomes, o.complete = true → o.role = some .originator
  own : ∀ o ∈ n.outcomes, o.role = some .originator →
    o.key.engineId = n.engine.config.localEngineId
  named : ∀ o ∈ n.outcomes, o.role ≠ none ∧ o.key.sessionNumber = o.sessionNumber

namespace LtpEngine

variable {e e' : LtpEngine}

/-- Originator sessions are the engine's own. -/
def OwnsOriginators (e : LtpEngine) : Prop :=
  ∀ key session, e.sessions.lookup key = some session → session.role = .originator →
    key.engineId = e.config.localEngineId

/-- 1 as long as there is an originator session with this number. -/
def live (e : LtpEngine) (sn : UInt64) : Nat :=
  if (e.sessions.lookup (e.localKey sn)).map (·.role) = some .originator then 1 else 0

theorem live_of_none {sn : UInt64} (h : e.sessions.lookup (e.localKey sn) = none) :
    e.live sn = 0 := by
  rw [live, h]
  rfl

theorem live_of_originator {sn : UInt64} {session : LtpSession}
    (h : e.sessions.lookup (e.localKey sn) = some session) (hrole : session.role = .originator) :
    e.live sn = 1 := by
  rw [live, h, Option.map_some, hrole]
  rfl

theorem localKey_of_confined {key : SessionKey} (h : e.Confined e' key) (sn : UInt64) :
    e'.localKey sn = e.localKey sn := by
  rw [localKey, localKey, h.config]

theorem live_of_ne {key : SessionKey} (h : e.Confined e' key) {sn : UInt64}
    (hne : e.localKey sn ≠ key) : e'.live sn = e.live sn := by
  rw [live, live, localKey_of_confined h, h.frame _ hne]

/-- Only `start_session` makes an originator session, and returns its number. -/
theorem live_le (hw : e.WellStored) {c : Call} (h : e.call c = .ok e') (sn : UInt64) :
    e'.live sn ≤ e.live sn + (e.returned c).count sn := by
  have hconfined := call_confined hw h
  by_cases hkey : e.localKey sn = c.key e
  swap
  · rw [live_of_ne hconfined hkey]
    exact Nat.le_add_right _ _
  rw [live, localKey_of_confined hconfined, hkey]
  split
  swap
  · exact Nat.zero_le _
  rename_i hrole
  obtain ⟨session', hlookup, hrole⟩ := Option.map_eq_some_iff.mp hrole
  cases call_holds hw h hlookup with
  | same session hbefore hs =>
      rw [live_of_originator (hkey ▸ hbefore) (hs.role.symm.trans hrole)]
      exact Nat.le_add_right _ _
  | received _ _ _ _ hreceiver =>
      rw [hrole] at hreceiver
      cases hreceiver
  | started data cpSerial hc hfree hs =>
      subst hc
      obtain ⟨⟨e₁, number⟩, hstart, -⟩ := bind_eq_ok.mp h
      have hnumber : number = sn := by
        rcases startSession_cases hstart with ⟨hfull, -, -⟩ | ⟨-, rfl, -⟩
        · rw [hfree] at hfull
          cases hfull
        · exact (congrArg SessionKey.sessionNumber hkey).symm
      rw [returned, hstart, hnumber, List.count_singleton_self]
      exact Nat.le_add_left _ _

theorem OwnsOriginators.call (ho : e.OwnsOriginators) (hw : e.WellStored) {c : Call}
    (h : e.call c = .ok e') : e'.OwnsOriginators := by
  intro key session hlookup hrole
  have hconfined := call_confined hw h
  rw [hconfined.config]
  by_cases hkey : key = c.key e
  swap
  · exact ho key session ((hconfined.frame key hkey).symm.trans hlookup) hrole
  subst hkey
  cases call_holds hw h hlookup with
  | same before hbefore hs => exact ho _ before hbefore (hs.role.symm.trans hrole)
  | received _ _ _ _ hreceiver =>
      rw [hrole] at hreceiver
      cases hreceiver
  | started data cpSerial hc hfree hs =>
      subst hc
      rfl

end LtpEngine

namespace Told

/-- ... and while such a session is in the table there is one more to tell of. -/
structure TellInv (n : Told) : Prop extends n.Unambiguous where
  stored : n.engine.WellStored
  originators : n.engine.OwnsOriginators
  counted : ∀ sn, n.outcomes.countP (Outcome.ofOriginator sn) + n.engine.live sn ≤
    n.returned.count sn

variable {n : Told} {c : Call} {e' : LtpEngine}

/-- What a call tells of originator sessions, it takes from those that live. -/
theorem TellInv.counted_after (hn : n.TellInv) (h : n.engine.call c = .ok e') (sn : UInt64) :
    (n.after c e').outcomes.countP (Outcome.ofOriginator sn) + e'.live sn ≤
      (n.after c e').returned.count sn := by
  have hconfined := LtpEngine.call_confined hn.stored h
  have hlive := LtpEngine.live_le hn.stored h sn
  have hcounted := hn.counted sn
  rw [after, List.countP_append, List.count_append]
  cases LtpEngine.call_tells hn.stored h with
  | nothing hnone =>
      rw [hnone, List.countP_nil]
      omega
  | ended session complete hlookup hgone hone hcomplete =>
      rw [hone, List.countP_singleton]
      by_cases hkey : n.engine.localKey sn = c.key n.engine
      · have hnone : e'.live sn = 0 := by
          apply LtpEngine.live_of_none
          rw [LtpEngine.localKey_of_confined hconfined, hkey]
          exact hgone
        split
        · rename_i hown
          rw [Outcome.ofOriginator, Bool.and_eq_true, decide_eq_true_eq, decide_eq_true_eq,
            Option.some.injEq] at hown
          rw [LtpEngine.live_of_originator (hkey ▸ hlookup) hown.2] at hcounted
          omega
        · omega
      · rw [if_neg, LtpEngine.live_of_ne hconfined hkey]
        · omega
        · -- an originator session's key is the engine's own
          intro hown
          rw [Outcome.ofOriginator, Bool.and_eq_true, decide_eq_true_eq, decide_eq_true_eq,
            Option.some.injEq] at hown
          apply hkey
          rw [LtpEngine.localKey, ← hown.1, ← hn.originators _ session hlookup hown.2]

theorem TellInv.after (hn : n.TellInv) (h : n.engine.call c = .ok e') : (n.after c e').TellInv := by
  have hconfig := (LtpEngine.call_confined hn.stored h).config
  have htells := LtpEngine.call_tells hn.stored h
  refine ⟨⟨fun sn => (Nat.le_add_right _ _).trans (hn.counted_after h sn), ?_, ?_, ?_⟩,
    hn.stored.call h, hn.originators.call hn.stored h, hn.counted_after h⟩
  · intro o ho hcomplete
    rcases List.mem_append.mp ho with hold | hnew
    · exact hn.complete o hold hcomplete
    · obtain ⟨session, -, -, -, hrole, horiginator⟩ := htells.mem hnew
      rw [hrole, horiginator hcomplete]
  · intro o ho hrole
    rw [show (n.after c e').engine = e' from rfl, hconfig]
    rcases List.mem_append.mp ho with hold | hnew
    · exact hn.own o hold hrole
    · obtain ⟨session, hlookup, hkey, -, hmet, -⟩ := htells.mem hnew
      rw [hkey]
      exact hn.originators _ session hlookup (Option.some.inj (hmet.symm.trans hrole))
  · intro o ho
    rcases List.mem_append.mp ho with hold | hnew
    · exact hn.named o hold
    · obtain ⟨session, -, hkey, hnumber, hrole, -⟩ := htells.mem hnew
      rw [hrole, hkey, hnumber]
      exact ⟨Option.some_ne_none _, rfl⟩

theorem tellInv_create (config : LtpEngineConfig) (timerManager : Option TimerManager) :
    TellInv { engine := LtpEngine.create config timerManager } where
  once _ := Nat.zero_le _
  complete := nofun
  own := nofun
  named := nofun
  stored := LtpEngine.wellStored_create _ _
  originators := nofun
  counted _ := Nat.zero_le _

theorem tellInv_of_reachable {config : LtpEngineConfig} (h : (told config).Reachable System.free n) :
    n.TellInv := by
  refine h.invariant (fun n₀ hinit => ?_) fun n₁ c n₂ hn _ hstep => ?_
  · obtain ⟨timerManager, rfl⟩ := hinit
    exact tellInv_create config timerManager
  · obtain ⟨e', hcall, rfl⟩ := Option.map_eq_some_iff.mp hstep
    exact hn.after (eq_ok_of_toOption hcall)

/-- **Outcomes.** In every run an originator session is told of at most once
for each time its number was returned. -/
theorem outcomes_unambiguous (config : LtpEngineConfig) (n : Told)
    (h : (told config).Reachable System.free n) : n.Unambiguous :=
  (tellInv_of_reachable h).toUnambiguous

/-- Some calls, one after the other. -/
def run (n : Told) (cs : List Call) : Option Told := cs.foldlM exec n

theorem reachable_of_run {config : LtpEngineConfig} {n n' : Told} {cs : List Call}
    (hn : (told config).Reachable System.free n) (h : n.run cs = some n') :
    (told config).Reachable System.free n' := by
  induction cs generalizing n with
  | nil =>
      cases h
      exact hn
  | cons c cs ih =>
      obtain ⟨n₁, hstep, h⟩ := Option.bind_eq_some_iff.mp h
      exact ih (hn.step trivial hstep) h

theorem length_ownBytes : ([7, 8] : List UInt8).length < 2 ^ 57 := by decide

/-- A block of the engine's own, and session 1 of engine 2, which its sender
cancels; then the own session is cancelled, too. -/
def bothWays : List Call :=
  [.startSession ⟨[7, 8], length_ownBytes⟩ true,
    .receiveSegment
      { segmentType := SegType.redData, engineId := 2, sessionNumber := 1
        content := .data { clientServiceId := 1, offset := 0, length := 1, data := [9] } },
    .receiveSegment
      { segmentType := SegType.cancelBySender, engineId := 2, sessionNumber := 1
        content := .cancel { reasonCode := 3 } },
    .cancelSession 1 1 5]

theorem outcomes_unambiguous_bothWays : ∃ n : Told, n.Unambiguous ∧ n.returned = [1] ∧
    n.outcomes.length = 2 := by
  have hcheck : (run { engine := LtpEngine.create {} none } bothWays).any (fun n =>
      decide (n.returned = [1] ∧ n.outcomes.length = 2)) = true := by decide +kernel
  obtain ⟨n, hrun, hcheck⟩ := (Option.any_eq_true _ _).mp hcheck
  have hinit : (told {}).Reachable System.free { engine := LtpEngine.create {} none } :=
    .init ⟨none, rfl⟩
  exact ⟨n, outcomes_unambiguous {} n (reachable_of_run hinit hrun), of_decide_eq_true hcheck⟩

/-- The failure of the peer's session is told by the number of the engine's
own one. -/
theorem outcomes_ambiguous : ¬ ∀ (config : LtpEngineConfig) (n : Told),
    (told config).Reachable System.free n → ∀ sn ∈ n.returned,
      (n.outcomes.countP fun o => o.sessionNumber = sn) ≤ 1 ∧
        ∀ o ∈ n.outcomes, o.sessionNumber = sn → o.role = some .originator := by
  intro h
  have hcheck : (run { engine := LtpEngine.create {} none } bothWays).any (fun n =>
      decide (1 ∈ n.returned ∧ 1 < n.outcomes.countP fun o => o.sessionNumber = 1)) = true := by
    decide +kernel
  obtain ⟨n, hrun, hcheck⟩ := (Option.any_eq_true _ _).mp hcheck
  have hinit : (told {}).Reachable System.free { engine := LtpEngine.create {} none } :=
    .init ⟨none, rfl⟩
  obtain ⟨hreturned, htwice⟩ := of_decide_eq_true hcheck
  exact Nat.not_le.mpr htwice (h {} n (reachable_of_run hinit hrun) 1 hreturned).1

end Told

end QpskB210.Ltp
