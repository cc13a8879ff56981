import QpskB210.Ltp.Outcomes
import QpskB210.Ltp.RetransmissionBudget
import QpskB210.Ltp.TimerFootprint

/-!
# LTP — Dead peer

An engine under a clock, whose timers fire when they are due or a little
later. When nothing arrives any more, every block in transfer is given up:
each expiry of a checkpoint timer counts one attempt and leaves another timer
running, so the attempts bound the time.
-/

namespace QpskB210.Ltp

open QpskB210.Lib

/-- A call of the engine, or the clock going on. -/
inductive ClockAct where
  | call (a : Action)
  | wait (now : Nat)

namespace LtpEngine

/-- The runs of an engine under a clock. The timer thread lets no entry of the
heap expire early, and leaves none there for more than `latency` after it is
due. -/
def clockRuns (config : LtpEngineConfig) (latency : Nat) : System LtpEngine ClockAct where
  init e := ∃ now, e = create config (some { now := now })
  step e act e' := ∃ tm, e.timerManager = some tm ∧
    match act with
    | .call a =>
      (∀ entry, a = .expire entry → entry.expiry ≤ tm.now) ∧ (timerRuns config).step e a e'
    | .wait now =>
      tm.now ≤ now ∧ (∀ entry ∈ tm.heap, now ≤ entry.expiry + latency) ∧
        e' = { e with timerManager := some { tm with now := now } }

/-- A careful call, with the session counter not at its last value when a
session is started. -/
def Steady (e : LtpEngine) : ClockAct → Prop
  | .call a => e.Careful a ∧
      ∀ data reliable, a = .startSession data reliable → e.sessionCounter.toNat + 1 < 2 ^ 64
  | .wait _ => True

/-- Nothing arrives, and the program does not cancel the session under the
key. -/
def Silent (key : SessionKey) (e : LtpEngine) (act : ClockAct) : Prop :=
  e.Steady act ∧ (∀ bytes, act ≠ .call (.receive bytes)) ∧
    ∀ engineId sn reason, act = .call (.cancelSession engineId sn reason) →
      key ≠ ⟨engineId, sn⟩

end LtpEngine

/-- The call tells of the end of an originator session under `key`. -/
def Event.isEndOf (key : SessionKey) : Event → Bool
  | .sessionComplete k _ => k = key
  | .sessionFailure k _ _ => k = key
  | _ => false

namespace LtpEngine

/-- What has been told of the end of the session since `e`. -/
def toldOf (key : SessionKey) (e e' : LtpEngine) : List Event :=
  (e'.trace.drop e.trace.length).filter (Event.isEndOf key)

variable {e e' : LtpEngine} {tm tm' : TimerManager} {key : SessionKey}
  {config : LtpEngineConfig} {latency : Nat}

/-! ## The heap -/

/-- Every entry of the heap is due within a timeout, and none is late. -/
structure OnTime (timeout latency : Nat) (tm : TimerManager) : Prop where
  soon : ∀ entry ∈ tm.heap, entry.expiry ≤ tm.now + timeout
  prompt : ∀ entry ∈ tm.heap, tm.now ≤ entry.expiry + latency

/-- The clock stands, and what is new in the heap is due in a timeout. -/
def Adds (timeout : Nat) (tm tm' : TimerManager) : Prop :=
  tm'.now = tm.now ∧ ∀ entry ∈ tm'.heap, entry ∈ tm.heap ∨ entry.expiry = tm.now + timeout

theorem Adds.refl (timeout : Nat) (tm : TimerManager) : Adds timeout tm tm :=
  ⟨rfl, fun _ h => .inl h⟩

theorem Adds.trans {timeout : Nat} {tm₁ : TimerManager} (h : Adds timeout tm tm₁)
    (h' : Adds timeout tm₁ tm') : Adds timeout tm tm' := by
  refine ⟨h'.1.trans h.1, fun entry hentry => ?_⟩
  rcases h'.2 entry hentry with hin | hnew
  · exact h.2 entry hin
  · exact .inr (hnew.trans (by rw [h.1]))

theorem OnTime.adds {timeout : Nat} (h : OnTime timeout latency tm) (hadds : Adds timeout tm tm') :
    OnTime timeout latency tm' := by
  obtain ⟨hnow, hheap⟩ := hadds
  constructor <;> intro entry hentry <;> rw [hnow] <;> rcases hheap entry hentry with hin | hnew
  · exact h.soon entry hin
  · exact hnew.le
  · exact h.prompt entry hin
  · omega

theorem adds_popEntry (timeout : Nat) (tm : TimerManager) (entry : TimerEntry) :
    Adds timeout tm (tm.popEntry entry).1 := by
  rw [TimerManager.popEntry]
  split <;> exact ⟨rfl, fun _ h => .inl (List.mem_of_mem_erase h)⟩

theorem adds_turn {t : Timers} (hm : t.manager = some tm) (timeout : Nat)
    (cancelled started : Option TimerEvent) :
    ∃ tm', (t.turn timeout cancelled started).manager = some tm' ∧ Adds timeout tm tm' := by
  obtain ⟨tm₁, hm₁, hadds⟩ : ∃ tm₁, (t.turn timeout cancelled none).manager = some tm₁ ∧
      Adds timeout tm tm₁ := by
    cases cancelled with
    | none => exact ⟨tm, hm, .refl _ _⟩
    | some event =>
        cases hheld : t.held event.slot with
        | none => exact ⟨tm, (congrArg Timers.manager (Timers.cancel_of_none hheld)).trans hm, .refl _ _⟩
        | some id => exact ⟨_, Timers.cancel_manager hm hheld, rfl, fun _ h => .inl h⟩
  cases started with
  | none => exact ⟨tm₁, hm₁, hadds⟩
  | some event =>
      refine ⟨_, Timers.start_manager hm₁ timeout event, hadds.trans ⟨rfl, fun entry hentry => ?_⟩⟩
      rcases List.mem_cons.mp hentry with rfl | hin
      · exact .inr rfl
      · exact .inl hin

/-- What a call does, some call of a public function does as well. -/
theorem exec_call {a : Action} (h : e.exec a = .ok e') :
    e' = e ∨ ∃ c, e.call c = .ok e' ∧
      ∀ data reliable, c = .startSession data reliable → a = .startSession data reliable := by
  cases a with
  | startSession data reliable =>
      exact .inr ⟨.startSession data reliable, h, fun _ _ hc => by cases hc; rfl⟩
  | cancelSession engineId sn reason => exact .inr ⟨.cancelSession engineId sn reason, h, nofun⟩
  | receive bytes =>
      rcases receiveBytes_cases h with rfl | ⟨seg, -, h⟩
      · exact .inl rfl
      · exact .inr ⟨.receiveSegment seg, h, nofun⟩
  | expire entry => exact .inr ⟨.expire entry, h, nofun⟩
  | handleTimerExpiry event => exact .inr ⟨.handleTimerExpiry event, h, nofun⟩

theorem popped_adds {c : Call} (hm : e.timerManager = some tm) (timeout : Nat) :
    ∃ tm₁, (c.popped e).timerManager = some tm₁ ∧ Adds timeout tm tm₁ := by
  cases c with
  | expire entry =>
      rw [Call.popped, hm]
      dsimp only
      split
      · exact ⟨_, rfl, adds_popEntry _ _ _⟩
      · exact ⟨tm, hm, .refl _ _⟩
  | startSession | cancelSession | receiveSegment | handleTimerExpiry =>
      exact ⟨tm, hm, .refl _ _⟩

theorem exec_adds (hw : e.WellStored) (hm : e.timerManager = some tm) {a : Action}
    (h : e.exec a = .ok e') :
    ∃ tm', e'.timerManager = some tm' ∧ Adds e.config.retransmissionTimeoutMs.toNat tm tm' := by
  rcases exec_call h with rfl | ⟨c, hcall, -⟩
  · exact ⟨tm, hm, .refl _ _⟩
  · obtain ⟨tm₁, hm₁, hpopped⟩ := @popped_adds e tm c hm e.config.retransmissionTimeoutMs.toNat
    have hconfig : (c.popped e).config = e.config := by
      obtain ⟨manager, heq⟩ := c.popped_eq e
      rw [heq]
    have hleft := (call_left hw hcall).timers
    rw [hconfig] at hleft
    obtain ⟨tm', hm', hturn⟩ := adds_turn (t := (c.popped e).timers) hm₁
      e.config.retransmissionTimeoutMs.toNat (c.footprint e).cancelled (c.footprint e).started
    rw [← hleft] at hm'
    exact ⟨tm', hm', hpopped.trans hturn⟩

/-! ## Every run -/

/-- An originator session's number has been counted. -/
def Numbered (e : LtpEngine) : Prop :=
  ∀ key session, e.Originates key session →
    key.sessionNumber.toNat ≤ e.sessionCounter.toNat

theorem call_counter_le (hw : e.WellStored) {c : Call}
    (hcounter : ∀ data reliable, c = .startSession data reliable →
      e.sessionCounter.toNat + 1 < 2 ^ 64) (h : e.call c = .ok e') :
    e.sessionCounter.toNat ≤ e'.sessionCounter.toNat := by
  rw [call_sessionCounter hw h]
  cases c with
  | startSession data reliable =>
      rw [Call.counter]
      split
      · exact le_rfl
      · rw [toNat_add_of_lt (hcounter data reliable rfl)]
        exact Nat.le_succ _
  | cancelSession | receiveSegment | handleTimerExpiry | expire => exact le_rfl

theorem Numbered.call (hn : e.Numbered) (hw : e.WellStored) {c : Call}
    (hcounter : ∀ data reliable, c = .startSession data reliable →
      e.sessionCounter.toNat + 1 < 2 ^ 64) (h : e.call c = .ok e') : e'.Numbered := by
  have hcount := call_sessionCounter hw h
  have hle := call_counter_le hw hcounter h
  intro key session hsession
  by_cases hkey : key = c.key e
  · subst hkey
    cases call_holds hw h hsession.1 with
    | same before hbefore hs => exact (hn _ before ⟨hbefore, hs.role.symm.trans hsession.2⟩).trans hle
    | received _ _ _ _ hreceiver => exact absurd (hreceiver.symm.trans hsession.2) (by decide)
    | started data cpSerial hc hfree _ =>
        subst hc
        rw [Call.counter, if_neg (by simp [hfree])] at hcount
        rw [hcount]
        exact le_rfl
  · have hbefore := (call_confined hw h).frame key hkey
    exact (hn key session ⟨hbefore.symm.trans hsession.1, hsession.2⟩).trans hle

/-- No count of attempts is beyond the limit. -/
def Counted (e : LtpEngine) : Prop :=
  ∀ key session, e.Originates key session →
    session.retransmissionCount ≤ e.config.maxRetransmissions

theorem Counted.exec (hcounted : e.Counted) (hw : e.WellStored) {a : Action}
    (h : e.exec a = .ok e') : e'.Counted := by
  obtain ⟨k, hconfined⟩ := exec_confined hw h
  intro key after hafter
  rw [hconfined.config]
  rcases exec_call h with rfl | ⟨c, hcall, -⟩
  · exact hcounted key after hafter
  by_cases hbefore : ∃ session, e.Originates key session
  · obtain ⟨session, hsession⟩ := hbefore
    by_cases htrigger : e.Trigger key a
    · cases trigger_outcome hw hsession htrigger h with
      | gaveUp _ hgone _ => cases hafter.1.symm.trans hgone.1
      | resent hleft cpSerial hlookup _ =>
          cases hafter.1.symm.trans hlookup
          exact UInt8.not_lt.mp hleft
    · rw [(exec_countKept hw hsession htrigger h after hafter.1).2]
      exact hcounted key session hsession
  · -- only a new session was not there before
    have hkey : key = c.key e := by
      by_contra hne
      exact hbefore ⟨after, ((call_confined hw hcall).frame key hne).symm.trans hafter.1, hafter.2⟩
    cases call_holds hw hcall (hkey ▸ hafter.1) with
    | same before hlookup hs =>
        exact absurd ⟨before, hkey ▸ hlookup, hs.role.symm.trans hafter.2⟩ hbefore
    | received _ _ _ _ hreceiver => exact absurd (hreceiver.symm.trans hafter.2) (by decide)
    | started data cpSerial _ _ hs =>
        rw [hs]
        exact UInt8.zero_le

/-- What holds of an engine under a clock. -/
structure Clocked (config : LtpEngineConfig) (latency : Nat) (e : LtpEngine) (tm : TimerManager) :
    Prop where
  configured : e.config = config
  watched : e.Watched tm
  heap : OnTime config.retransmissionTimeoutMs.toNat latency tm
  numbered : e.Numbered
  counted : e.Counted

theorem Watched.wait (hw : e.Watched tm) (now : Nat) :
    ({ e with timerManager := some { tm with now := now } } : LtpEngine).Watched
      { tm with now := now } where
  stored := hw.stored
  own := hw.own
  red := hw.red
  timers := ⟨rfl, hw.timers.marks, hw.timers.heap, hw.timers.checkpoint, hw.timers.report,
    hw.timers.apart⟩
  running := hw.running

theorem Clocked.call (hc : Clocked config latency e tm) {a : Action} (hsteady : e.Steady (.call a))
    (h : (timerRuns config).step e a e') : ∃ tm', Clocked config latency e' tm' ∧
      Adds config.retransmissionTimeoutMs.toNat tm tm' := by
  obtain ⟨tm', hw'⟩ := hc.watched.step hsteady.1 h
  obtain ⟨tm₁, hm₁, hadds⟩ := exec_adds hc.watched.stored hc.watched.timers.manager h.2
  cases hw'.timers.manager.symm.trans hm₁
  rw [hc.configured] at hadds
  refine ⟨tm', ⟨?_, hw', hc.heap.adds hadds, ?_, hc.counted.exec hc.watched.stored h.2⟩, hadds⟩
  · obtain ⟨key, hconfined⟩ := exec_confined hc.watched.stored h.2
    exact hconfined.config.trans hc.configured
  · rcases exec_call h.2 with rfl | ⟨c, hcall, hstart⟩
    · exact hc.numbered
    · exact hc.numbered.call hc.watched.stored
        (fun data reliable heq => hsteady.2 data reliable (hstart data reliable heq)) hcall

theorem Clocked.step (hc : Clocked config latency e tm) {act : ClockAct} (hsteady : e.Steady act)
    (h : (clockRuns config latency).step e act e') : ∃ tm', Clocked config latency e' tm' := by
  obtain ⟨tm₁, hm₁, h⟩ := h
  cases hc.watched.timers.manager.symm.trans hm₁
  cases act with
  | call a =>
      obtain ⟨tm', hc', -⟩ := hc.call hsteady h.2
      exact ⟨tm', hc'⟩
  | wait now =>
      obtain ⟨hle, hprompt, rfl⟩ := h
      exact ⟨_, hc.configured, hc.watched.wait now,
        ⟨fun entry hentry => (hc.heap.soon entry hentry).trans (Nat.add_le_add_right hle _),
          hprompt⟩, hc.numbered, hc.counted⟩

theorem clocked_of_reachable (h : (clockRuns config latency).Reachable Steady e) :
    ∃ tm, Clocked config latency e tm := by
  refine h.invariant (P := fun e => ∃ tm, Clocked config latency e tm) (fun e₀ hinit => ?_)
    fun e₁ act e₂ hc hsteady hstep => ?_
  · obtain ⟨now, rfl⟩ := hinit
    exact ⟨_, rfl, watched_create config now, ⟨nofun, nofun⟩, (fun _ _ h => nomatch h.1),
      (fun _ _ h => nomatch h.1)⟩
  · obtain ⟨tm, hc⟩ := hc
    exact hc.step hsteady hstep

/-! ## One step of the silence -/

theorem toldOf_trans {e₀ : LtpEngine} (h₀ : e₀.trace <+: e.trace) (h : e.trace <+: e'.trace) :
    toldOf key e₀ e' = toldOf key e₀ e ++ toldOf key e e' := by
  obtain ⟨calls, hcalls⟩ := h
  rw [toldOf, toldOf, toldOf, ← hcalls, List.drop_append_of_le_length h₀.length_le, List.drop_left,
    List.filter_append]

theorem exists_outcome {event : Event} (h : event.isEndOf key = true) (sessions : SessionTable) :
    ∃ o, event.outcome sessions = some o ∧ o.key = key := by
  cases event with
  | sessionComplete k sn => exact ⟨_, rfl, of_decide_eq_true h⟩
  | sessionFailure k sn reason => exact ⟨_, rfl, of_decide_eq_true h⟩
  | sendSegment | dataArrival => cases h

/-- The end of a session is told by a call that removes it. -/
theorem toldOf_call (hw : e.WellStored) {c : Call} (h : e.call c = .ok e')
    (hkept : (e.sessions.lookup key).isSome → (e'.sessions.lookup key).isSome) :
    toldOf key e e' = [] := by
  rw [toldOf, List.filter_eq_nil_iff]
  intro event hevent hend
  obtain ⟨o, ho, rfl⟩ := exists_outcome hend e.sessions
  have hmem : o ∈ e.outcomes e' := List.mem_filterMap.mpr ⟨event, hevent, ho⟩
  cases call_tells hw h with
  | nothing hnone =>
      rw [hnone] at hmem
      cases hmem
  | ended session complete hlookup hgone hone _ =>
      rw [hone, List.mem_singleton] at hmem
      rw [hmem] at hkept
      dsimp only at hkept
      rw [hlookup, hgone] at hkept
      exact absurd (hkept rfl) (by decide)

/-- A call leaves a session that it does not end. -/
theorem call_stays (hw : e.WellStored) {c : Call} (h : e.call c = .ok e')
    (hsome : (e.sessions.lookup key).isSome)
    (hends : key = c.key e → (c.footprint e).ends = false) : (e'.sessions.lookup key).isSome := by
  have hleft := call_left hw h
  have hsame : (c.popped e).sessions = e.sessions := by
    obtain ⟨manager, heq⟩ := c.popped_eq e
    rw [heq]
  by_cases hkey : key = c.key e
  · rw [hkey] at hsome ⊢
    exact hleft.stays (hends hkey) (.inr (by rwa [hsame]))
  · rwa [hleft.frame key hkey, hsame]

/-- The next session number is a new one. -/
theorem ne_next (hnumber : key.sessionNumber.toNat ≤ e.sessionCounter.toNat)
    (hcounter : e.sessionCounter.toNat + 1 < 2 ^ 64) : key ≠ e.localKey (e.sessionCounter + 1) := by
  intro hkey
  have hnext : (e.sessionCounter + 1).toNat = e.sessionCounter.toNat + 1 :=
    toNat_add_of_lt hcounter
  have hsame : key.sessionNumber = e.sessionCounter + 1 := congrArg (·.sessionNumber) hkey
  rw [hsame] at hnumber
  omega

/-- A call that cancels no timer leaves every other one running. -/
theorem call_outstanding (hw : e.WellStored) (hm : e.timerManager = some tm) {c : Call}
    (hcancelled : (c.footprint e).cancelled = none) {entry : TimerEntry}
    (hout : tm.Outstanding entry) (hne : c ≠ .expire entry) (h : e.call c = .ok e')
    (hm' : e'.timerManager = some tm') : tm'.Outstanding entry := by
  obtain ⟨tm₁, hm₁, hout₁⟩ : ∃ tm₁, (c.popped e).timers.manager = some tm₁ ∧
      tm₁.Outstanding entry := by
    cases c with
    | expire top =>
        rw [Call.popped, hm]
        dsimp only
        split
        · exact ⟨_, rfl, hout.popEntry fun heq => hne (congrArg Call.expire heq.symm)⟩
        · exact ⟨tm, hm, hout⟩
    | startSession | cancelSession | receiveSegment | handleTimerExpiry => exact ⟨tm, hm, hout⟩
  have hleft := (call_left hw h).timers
  rw [hcancelled] at hleft
  have hmanager : e'.timers.manager = some tm' := hm'
  cases hstarted : (c.footprint e).started with
  | none =>
      rw [hstarted] at hleft
      rw [hleft] at hmanager
      cases hm₁.symm.trans hmanager
      exact hout₁
  | some event =>
      rw [hstarted] at hleft
      rw [hleft] at hmanager
      cases (Timers.start_manager hm₁ _ event).symm.trans hmanager
      exact hout₁.startTimer _ _

/-- The expiry of a timer cancels none. -/
theorem expiryFootprint_cancelled (e : LtpEngine) (event : TimerEvent) :
    (e.expiryFootprint event).cancelled = none := by
  rw [expiryFootprint]
  split
  · rw [checkpointFootprint]
    split
    · rfl
    · rw [attemptFootprint]
      split <;> [split; skip] <;> rfl
  · rw [reportTimerFootprint]
    split
    · rfl
    · split <;> rfl
  · rfl

/-- A call that starts no session under the key, and ends the one that is
there only if a timer asks it to. -/
structure Quiet (e : LtpEngine) (key : SessionKey) (a : Action) (c : Call) : Prop where
  expired : ∀ entry, c = .expire entry → a = .expire entry
  counter : ∀ data reliable, c = .startSession data reliable → e.sessionCounter.toNat + 1 < 2 ^ 64
  cancelled : (c.footprint e).cancelled = none
  received : ∀ seg, c ≠ .receiveSegment seg
  started : ∀ data reliable, c = .startSession data reliable → key ≠ c.key e
  ends : ∀ session, e.Originates key session → key = c.key e → (c.footprint e).ends = true →
    e.Trigger key a

theorem Silent.quiet (hnumber : key.sessionNumber.toNat ≤ e.sessionCounter.toNat) {a : Action}
    (hsilent : e.Silent key (.call a)) (hfired : ∀ event, a ≠ .handleTimerExpiry event)
    (h : e.exec a = .ok e') : ∃ c, e.call c = .ok e' ∧ e.Quiet key a c := by
  obtain ⟨hsteady, hreceive, hcancel⟩ := hsilent
  cases a with
  | startSession data reliable =>
      have hcounter := hsteady.2 data reliable rfl
      refine ⟨.startSession data reliable, h, fun _ heq => (by cases heq), fun _ _ _ => hcounter, ?_,
        fun _ heq => (by cases heq), fun _ _ _ => ne_next hnumber hcounter, fun _ _ hkey => ?_⟩
      · rw [Call.footprint, startFootprint]
        split <;> rfl
      · exact absurd hkey (ne_next hnumber hcounter)
  | cancelSession engineId sn reason =>
      exact ⟨.cancelSession engineId sn reason, h, fun _ heq => (by cases heq),
        fun _ _ heq => (by cases heq), rfl, fun _ heq => (by cases heq), fun _ _ heq => (by cases heq),
        fun _ _ hkey => absurd hkey (hcancel engineId sn reason rfl)⟩
  | receive bytes => exact absurd rfl (hreceive bytes)
  | expire entry =>
      refine ⟨.expire entry, h, fun _ heq => congrArg Action.expire (Call.expire.inj heq),
        fun _ _ heq => (by cases heq), ?_, fun _ heq => (by cases heq), fun _ _ heq => (by cases heq),
        fun session hsession hkey hends => ?_⟩
      · rw [Call.footprint]
        split
        · exact expiryFootprint_cancelled _ _
        · rfl
      · rw [Call.footprint] at hends
        split at hends
        · obtain ⟨tm, hm, hmem, hlive⟩ := ‹e.TimerRuns entry›
          have htype : entry.event.type = .checkpoint := by
            rw [expiryFootprint] at hends
            split at hends
            · assumption
            · rw [reportTimerFootprint] at hends
              split at hends
              · cases hends
              · split at hends <;> cases hends
            · cases hends
          rw [Call.key, timerSession, if_pos htype] at hkey
          exact .expired hm hmem hlive ⟨htype, hkey, hsession⟩
        · cases hends
  | handleTimerExpiry event => exact absurd rfl (hfired event)

/-! ## The silence -/

/-- What has become of a session when the peer has been silent from `e₀`, at
`since`, to `e`. -/
inductive Fate (latency since : Nat) (key : SessionKey) (e₀ e : LtpEngine) (tm : TimerManager) :
    Prop where
  | waiting (session : LtpSession) (entry : TimerEntry) (hsession : e.Originates key session)
      (hout : tm.Outstanding entry) (hby : e.WatchedBy key entry)
      (hcount : session.retransmissionCount.toNat ≤ e.config.maxRetransmissions.toNat)
      (hdue : entry.expiry + latency ≤ since + (session.retransmissionCount.toNat + 1) *
        (e.config.retransmissionTimeoutMs.toNat + latency))
      (htold : toldOf key e₀ e = [])
  | gaveUp (hgone : e.sessions.lookup key = none)
      (htold : toldOf key e₀ e = [.sessionFailure key key.sessionNumber 0x01])

/-- The clock and the fate of a session, at a point of the silence. -/
structure Fated (config : LtpEngineConfig) (latency since : Nat) (key : SessionKey)
    (e₀ e : LtpEngine) (tm : TimerManager) : Prop extends Clocked config latency e tm where
  trace : e₀.trace <+: e.trace
  number : key.sessionNumber.toNat ≤ e.sessionCounter.toNat
  fate : Fate latency since key e₀ e tm

/-- A session that is there has a checkpoint timer, due within a timeout. -/
theorem Clocked.exists_watchedBy (hc : Clocked config latency e tm) {session : LtpSession}
    (hsession : e.Originates key session) : ∃ entry, tm.Outstanding entry ∧
      e.WatchedBy key entry ∧ entry.expiry ≤ tm.now + config.retransmissionTimeoutMs.toNat := by
  obtain ⟨entry, hout, htype, -, hnumber⟩ := hc.watched.running key session hsession.1 hsession.2
  refine ⟨entry, hout, ⟨htype, ?_⟩, hc.heap.soon entry hout.1⟩
  rw [localKey, hnumber, ← hc.watched.own key session hsession.1 hsession.2]

/-- The silence begins. -/
theorem Clocked.fated (hc : Clocked config latency e tm) {session : LtpSession}
    (hsession : e.Originates key session) : Fated config latency tm.now key e e tm := by
  refine ⟨hc, List.prefix_refl _, hc.numbered key session hsession, ?_⟩
  obtain ⟨entry, hout, hby, hsoon⟩ := hc.exists_watchedBy hsession
  refine .waiting session entry hsession hout hby
    (UInt8.le_iff_toNat_le.mp (hc.counted key session hsession)) ?_ ?_
  · rw [hc.configured, Nat.succ_mul]
    omega
  · rw [toldOf, List.drop_length]
    rfl

theorem toldOf_givenUp (h : e.GivenUp key e') :
    toldOf key e e' = [.sessionFailure key key.sessionNumber 0x01] := by
  obtain ⟨-, acks, -, htrace⟩ := h
  have hacks : (acks.map fun seg => Event.sendSegment seg.wire).filter (Event.isEndOf key) = [] := by
    rw [List.filter_eq_nil_iff]
    intro event hevent
    obtain ⟨seg, -, rfl⟩ := List.mem_map.mp hevent
    exact Bool.false_ne_true
  rw [toldOf, htrace, List.append_assoc, List.drop_left, List.filter_append, hacks]
  simp [Event.isEndOf]

/-- One more attempt, and one more timeout. -/
theorem Fate.resent {since : Nat} {e₀ : LtpEngine} {session : LtpSession} {entry : TimerEntry}
    {cpSerial : UInt64} (hc : Clocked config latency e tm) (hc' : Clocked config latency e' tm')
    (hnow : tm'.now = tm.now) (hmax : config.maxRetransmissions ≠ 255)
    (hsession : e.Originates key session) (hmem : entry ∈ tm.heap)
    (hcount : session.retransmissionCount.toNat ≤ config.maxRetransmissions.toNat)
    (hdue : entry.expiry + latency ≤ since + (session.retransmissionCount.toNat + 1) *
      (config.retransmissionTimeoutMs.toNat + latency))
    (hleft : ¬ e.Exhausted session)
    (hlookup : e'.sessions.lookup key =
      some { attempted session with checkpointSerialCounter := cpSerial })
    (htold : toldOf key e₀ e' = []) : Fate latency since key e₀ e' tm' := by
  obtain ⟨entry', hout', hby', hsoon⟩ := hc'.exists_watchedBy ⟨hlookup, hsession.2⟩
  have hlimit : session.retransmissionCount.toNat < config.maxRetransmissions.toNat := by
    refine lt_of_le_of_ne hcount fun heq => hleft ((exhausted_iff ?_ ?_).mpr ?_) <;>
      rw [hc.configured]
    · exact hmax
    · exact hcount
    · exact heq
  have hbelow := config.maxRetransmissions.toNat_lt
  have hnext : (session.retransmissionCount + 1).toNat = session.retransmissionCount.toNat + 1 := by
    rw [UInt8.toNat_add]
    exact Nat.mod_eq_of_lt (by change _ + 1 < 256; omega)
  have hprompt := hc.heap.prompt entry hmem
  refine .waiting _ entry' ⟨hlookup, hsession.2⟩ hout' hby' ?_ ?_ htold
  · show (session.retransmissionCount + 1).toNat ≤ _
    rw [hnext, hc'.configured]
    omega
  · show _ ≤ since + ((session.retransmissionCount + 1).toNat + 1) * _
    rw [hnext, hc'.configured]
    -- the entry that was waited for was not late, and the new one is due in a timeout
    calc entry'.expiry + latency
        ≤ entry.expiry + latency + (config.retransmissionTimeoutMs.toNat + latency) := by omega
      _ ≤ since + (session.retransmissionCount.toNat + 1) *
            (config.retransmissionTimeoutMs.toNat + latency) +
            (config.retransmissionTimeoutMs.toNat + latency) := Nat.add_le_add_right hdue _
      _ = since + (session.retransmissionCount.toNat + 1 + 1) *
            (config.retransmissionTimeoutMs.toNat + latency) := by ring

theorem Fate.call {since : Nat} {e₀ : LtpEngine} (hc : Clocked config latency e tm)
    (hc' : Clocked config latency e' tm') (hnow : tm'.now = tm.now)
    (hmax : config.maxRetransmissions ≠ 255) (htrace : e₀.trace <+: e.trace)
    (htrace' : e.trace <+: e'.trace)
    (hnumber : key.sessionNumber.toNat ≤ e.sessionCounter.toNat) {a : Action}
    (hsilent : e.Silent key (.call a)) (hstep : (timerRuns config).step e a e')
    (hf : Fate latency since key e₀ e tm) : Fate latency since key e₀ e' tm' := by
  have hw := hc.watched.stored
  obtain ⟨c, hcall, hquiet⟩ := hsilent.quiet hnumber hstep.1 hstep.2
  have htold := @toldOf_trans e e' key e₀ htrace htrace'
  cases hf with
  | gaveUp hgone htold₀ =>
      have hgone' : e'.sessions.lookup key = none := by
        by_cases hkey : key = c.key e
        · subst hkey
          cases hlookup : e'.sessions.lookup (c.key e) with
          | none => rfl
          | some session =>
              cases call_holds hw hcall hlookup with
              | same before hbefore _ => cases hgone.symm.trans hbefore
              | received seg hc _ _ _ => exact absurd hc (hquiet.received seg)
              | started data _ hc _ _ => exact absurd rfl (hquiet.started data true hc)
        · exact ((call_confined hw hcall).frame key hkey).trans hgone
      refine .gaveUp hgone' ?_
      rw [htold, htold₀, toldOf_call hw hcall (by simp [hgone])]
      rfl
  | waiting session entry hsession hout hby hcount hdue htold₀ =>
      rw [htold₀, List.nil_append] at htold
      rw [hc.configured] at hcount hdue
      by_cases htrigger : e.Trigger key a
      · cases trigger_outcome hw hsession htrigger hstep.2 with
        | gaveUp _ h _ => exact .gaveUp h.1 (htold.trans (toldOf_givenUp h))
        | resent hleft cpSerial hlookup _ =>
            exact .resent hc hc' hnow hmax hsession hout.1 hcount hdue hleft hlookup
              (htold.trans (toldOf_call hw hcall fun _ => by rw [hlookup]; rfl))
      · have hne : a ≠ .expire entry := by
          rintro rfl
          exact htrigger (.expired hc.watched.timers.manager hout.1 hout.2 ⟨hby.1, hby.2, hsession⟩)
        have hstays : (e'.sessions.lookup key).isSome := by
          refine call_stays hw hcall (by rw [hsession.1]; rfl) fun hkey => ?_
          rw [Bool.eq_false_iff]
          exact fun hends => htrigger (hquiet.ends session hsession hkey hends)
        obtain ⟨held, hheld⟩ := Option.isSome_iff_exists.mp hstays
        obtain ⟨hrole, hsame⟩ := exec_countKept hw hsession htrigger hstep.2 held hheld
        refine .waiting held entry ⟨hheld, hrole⟩ ?_ ⟨hby.1, ?_⟩ ?_ ?_
          (htold.trans (toldOf_call hw hcall fun _ => hstays))
        · exact call_outstanding hw hc.watched.timers.manager hquiet.cancelled hout
            (fun heq => hne (hquiet.expired entry heq)) hcall hc'.watched.timers.manager
        · rw [localKey, hc'.configured, ← hc.configured]
          exact hby.2
        · rw [hc'.configured, hsame]
          exact hcount
        · rw [hc'.configured, hsame]
          exact hdue

theorem Fated.step {since : Nat} {e₀ : LtpEngine} (hmax : config.maxRetransmissions ≠ 255)
    (hf : Fated config latency since key e₀ e tm) {act : ClockAct} (hsilent : e.Silent key act)
    (h : (clockRuns config latency).step e act e') :
    ∃ tm', Fated config latency since key e₀ e' tm' := by
  have hstep := h
  obtain ⟨tm₁, hm₁, h⟩ := h
  cases hf.watched.timers.manager.symm.trans hm₁
  cases act with
  | call a =>
      obtain ⟨tm', hc', hnow, -⟩ := hf.toClocked.call hsilent.1 h.2
      obtain ⟨c, hcall, hquiet⟩ := hsilent.quiet hf.number h.2.1 h.2.2
      have htrace' := (call_confined hf.watched.stored hcall).trace
      exact ⟨tm', hc', hf.trace.trans htrace',
        hf.number.trans (call_counter_le hf.watched.stored hquiet.counter hcall),
        hf.fate.call hf.toClocked hc' hnow hmax hf.trace htrace' hf.number hsilent h.2⟩
  | wait now =>
      obtain ⟨tm', hc'⟩ := hf.toClocked.step hsilent.1 hstep
      obtain ⟨-, -, rfl⟩ := h
      cases hc'.watched.timers.manager
      refine ⟨_, hc', hf.trace, hf.number, ?_⟩
      cases hf.fate with
      | waiting session entry hsession hout hby hcount hdue htold =>
          exact .waiting session entry hsession hout hby hcount hdue htold
      | gaveUp hgone htold => exact .gaveUp hgone htold

/-- **Dead peer.** Once nothing arrives any more, a block in transfer is given
up within `max_retransmissions + 1` timeouts, each as late as the timer thread
is: its session has gone, and the client was told once, of the failure. -/
theorem dead_peer (hmax : config.maxRetransmissions ≠ 255) {e₀ : LtpEngine} {tm₀ : TimerManager}
    (hreach : (clockRuns config latency).Reachable Steady e₀) (hm₀ : e₀.timerManager = some tm₀)
    {session : LtpSession} (hsession : e₀.sessions.lookup key = some session)
    (hrole : session.role = .originator)
    (hpath : (clockRuns config latency).Path (Silent key) e₀ e) (hm : e.timerManager = some tm)
    (hlate : tm₀.now + (config.maxRetransmissions.toNat + 1) *
      (config.retransmissionTimeoutMs.toNat + latency) < tm.now) :
    e.sessions.lookup key = none ∧
      toldOf key e₀ e = [.sessionFailure key key.sessionNumber 0x01] := by
  have hreached : ∃ tm, Fated config latency tm₀.now key e₀ e tm := by
    refine hpath.preserves (P := fun e => ∃ tm, Fated config latency tm₀.now key e₀ e tm)
      (fun e₁ act e₂ hf hsilent hstep => ?_) ?_
    · obtain ⟨tm₁, hf⟩ := hf
      exact hf.step hmax hsilent hstep
    · obtain ⟨tm₁, hc⟩ := clocked_of_reachable hreach
      cases hm₀.symm.trans hc.watched.timers.manager
      exact ⟨tm₀, hc.fated ⟨hsession, hrole⟩⟩
  obtain ⟨tm₁, hf⟩ := hreached
  cases hm.symm.trans hf.watched.timers.manager
  cases hf.fate with
  | gaveUp hgone htold => exact ⟨hgone, htold⟩
  | waiting session entry _ hout _ hcount hdue _ =>
      exfalso
      have hprompt := hf.heap.prompt entry hout.1
      rw [hf.configured] at hcount hdue
      have hmost := Nat.mul_le_mul_right (config.retransmissionTimeoutMs.toNat + latency)
        (Nat.succ_le_succ hcount)
      simp only [Nat.succ_eq_add_one] at hmost
      omega

/-! ## A run -/

/-- A step of `clockRuns`. -/
def clockExec (latency : Nat) (e : LtpEngine) : ClockAct → Option LtpEngine
  | .call (.handleTimerExpiry _) => none
  | .call (.expire entry) =>
    if e.timerManager.any fun tm => entry.expiry ≤ tm.now then (e.expire entry).toOption else none
  | .call a => if e.timerManager.isSome then (e.exec a).toOption else none
  | .wait now =>
    e.timerManager.bind fun tm =>
      if tm.now ≤ now ∧ ∀ entry ∈ tm.heap, now ≤ entry.expiry + latency then
        some { e with timerManager := some { tm with now := now } }
      else none

theorem clockStep_of_exec {act : ClockAct} (h : clockExec latency e act = some e') :
    (clockRuns config latency).step e act e' := by
  have hplain : ∀ a, (∀ entry, a ≠ .expire entry) → (∀ event, a ≠ .handleTimerExpiry event) →
      (if e.timerManager.isSome then (e.exec a).toOption else none) = some e' →
      (clockRuns config latency).step e (.call a) e' := by
    intro a hexpire hevent h
    cases hm : e.timerManager with
    | none => simp [hm] at h
    | some tm =>
        rw [hm] at h
        exact ⟨tm, hm, fun entry heq => absurd heq (hexpire entry), hevent, eq_ok_of_toOption h⟩
  cases act with
  | wait now =>
      obtain ⟨tm, hm, h⟩ := Option.bind_eq_some_iff.mp h
      split at h
      · exact ⟨tm, hm, (‹_ ∧ _›).1, (‹_ ∧ _›).2, (Option.some.inj h).symm⟩
      · cases h
  | call a =>
      cases a with
      | startSession data reliable => exact hplain _ nofun nofun h
      | cancelSession engineId sn reason => exact hplain _ nofun nofun h
      | receive bytes => exact hplain _ nofun nofun h
      | handleTimerExpiry event => cases h
      | expire entry =>
          rw [clockExec] at h
          split at h
          · rename_i hdue
            cases hm : e.timerManager with
            | none => simp [hm] at hdue
            | some tm =>
                rw [hm] at hdue
                refine ⟨tm, hm, fun top heq => ?_, nofun, eq_ok_of_toOption h⟩
                cases heq
                exact of_decide_eq_true hdue
          · cases h

/-- No segment arrives, nothing is cancelled, and no counter is at its end. -/
def silentCheck (e : LtpEngine) : ClockAct → Bool
  | .call (.startSession _ _) =>
    e.timerManager.all (fun tm => tm.nextId.toNat + 1 < 2 ^ 64) &&
      decide (e.sessionCounter.toNat + 1 < 2 ^ 64)
  | .call (.expire _) => e.timerManager.all fun tm => tm.nextId.toNat + 1 < 2 ^ 64
  | .call _ => false
  | .wait _ => true

theorem silent_of_check {act : ClockAct} (h : silentCheck e act = true) : e.Silent key act := by
  have hfresh : (e.timerManager.all fun tm => tm.nextId.toNat + 1 < 2 ^ 64) = true →
      ∀ tm, e.timerManager = some tm → tm.HasFreshId := by
    intro hall tm hm
    rw [hm] at hall
    show tm.nextId.toNat + 1 < 2 ^ 64
    exact of_decide_eq_true hall
  cases act with
  | wait now => exact ⟨trivial, nofun, nofun⟩
  | call a =>
      cases a with
      | startSession data reliable =>
          rw [silentCheck, Bool.and_eq_true] at h
          exact ⟨⟨⟨hfresh h.1, nofun⟩, fun _ _ _ => of_decide_eq_true h.2⟩, nofun, nofun⟩
      | expire entry => exact ⟨⟨⟨hfresh h, nofun⟩, nofun⟩, nofun, nofun⟩
      | cancelSession | receive | handleTimerExpiry => cases h

/-- The timer of a checkpoint of session 1, due at `expiry`. -/
def checkpointEntry (serial : UInt64) (expiry : Nat) : TimerEntry :=
  { timerId := serial, expiry := expiry
    event := { type := .checkpoint, engineId := 1, sessionNumber := 1, serialNumber := serial } }

/-- With one retransmission and no report, a block is given up after two
timeouts. -/
theorem dead_peer_twoBytes : ∃ e₀ e,
    System.run (clockExec 5) silentCheck (create { maxRetransmissions := 1 } (some { now := 0 }))
      [.call (.startSession twoBytes true)] = some e₀ ∧
    System.run (clockExec 5) silentCheck e₀
      [.wait 30005, .call (.expire (checkpointEntry 1 30000)), .wait 60009,
        .call (.expire (checkpointEntry 2 60005)), .wait 60011] = some e ∧
    e.sessions.lookup ⟨1, 1⟩ = none ∧ toldOf ⟨1, 1⟩ e₀ e = [.sessionFailure ⟨1, 1⟩ 1 0x01] := by
  have hcheck : ((System.run (clockExec 5) silentCheck
      (create { maxRetransmissions := 1 } (some { now := 0 }))
      [.call (.startSession twoBytes true)]).bind fun e₀ =>
        (System.run (clockExec 5) silentCheck e₀
          [.wait 30005, .call (.expire (checkpointEntry 1 30000)), .wait 60009,
            .call (.expire (checkpointEntry 2 60005)), .wait 60011]).map fun e =>
          decide ((e₀.sessions.lookup ⟨1, 1⟩).map (·.role) = some .originator) &&
            decide (e₀.timerManager.map (·.now) = some 0) &&
              decide (e.timerManager.map (·.now) = some 60011)) = some true := by
    decide +kernel
  obtain ⟨e₀, hstart, hcheck⟩ := Option.bind_eq_some_iff.mp hcheck
  obtain ⟨e, hrun, hcheck⟩ := Option.map_eq_some_iff.mp hcheck
  simp only [Bool.and_eq_true, decide_eq_true_eq, Option.map_eq_some_iff] at hcheck
  obtain ⟨⟨⟨session, hlookup, hrole⟩, tm₀, hm₀, hnow₀⟩, tm, hm, hnow⟩ := hcheck
  have hsteps : ∀ e₁ act e₂, clockExec 5 e₁ act = some e₂ →
      (clockRuns { maxRetransmissions := 1 } 5).step e₁ act e₂ :=
    fun _ _ _ h => clockStep_of_exec h
  have hreach : (clockRuns { maxRetransmissions := 1 } 5).Reachable Steady e₀ :=
    ⟨_, ⟨0, rfl⟩, System.path_of_run hsteps
      (fun e act h => (@silent_of_check e ⟨1, 1⟩ act h).1) hstart⟩
  refine ⟨e₀, e, hstart, hrun, ?_⟩
  refine dead_peer (by decide) hreach hm₀ hlookup hrole
    (System.path_of_run hsteps (fun _ _ => silent_of_check) hrun) hm ?_
  rw [hnow₀, hnow]
  decide

end LtpEngine

end QpskB210.Ltp
