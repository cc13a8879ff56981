import QpskB210.Ltp.TimerIsolation

/-!
# LTP — Timer bookkeeping

Whether the ids in the engine's two tables are those of its running timers.
An id is entered when a timer is started, and taken out by the report or the
acknowledgment that stops the timer: a timer that fires and a session that
ends leave theirs behind. `Tidy` is the condition under which a call does
not, and exactly under it the tables still correspond to the timers.
-/

namespace QpskB210.Ltp

open QpskB210.Lib

namespace LtpEngine

/-! ## The correspondence -/

/-- The timer whose id is kept in the slot: it runs, and its session is in
the table. -/
structure TimerOf (e : LtpEngine) (s : TimerSlot) (id : UInt64) (entry : TimerEntry) : Prop where
  runs : e.TimerRuns entry
  timerId : entry.timerId = id
  slot : entry.event.slot = s
  session : (e.sessions.lookup (eventKey entry.event)).isSome

/-- The slots in use. -/
def slots (e : LtpEngine) : List TimerSlot :=
  e.checkpointTimers.keys.map (TimerSlot.mk true) ++ e.reportTimers.keys.map (TimerSlot.mk false)

/-- Every entry of the two tables is that of one running timer whose session
is in the table, and every running timer is found through its entry, and
through it cancelled with no other. -/
structure Corresponds (e : LtpEngine) : Prop where
  entries : ∀ s id, e.timers.held s = some id → ∃! entry, e.TimerOf s id entry
  found : ∀ entry, e.TimerRuns entry → e.timers.held entry.event.slot = some entry.timerId
  cancels : ∀ entry, e.TimerRuns entry → ∃ tm,
    (e.timers.cancel entry.event.slot).manager = some tm ∧
      ∀ other, tm.Outstanding other ↔ e.TimerRuns other ∧ other ≠ entry
  count : e.slots.length = e.runningTimers.length

/-- The timer runs, and the call neither fires nor cancels it. -/
structure Survives (e : LtpEngine) (c : Call) (entry : TimerEntry) : Prop where
  runs : e.TimerRuns entry
  unfired : c ≠ .expire entry
  uncancelled : ∀ event, (c.footprint e).cancelled = some event → event.slot ≠ entry.event.slot

/-- A timer that fires leaves its slot to the one started in its place, none
is started in the slot of another, and a session that ends leaves no timer. -/
structure Tidy (e : LtpEngine) (c : Call) : Prop where
  fresh : ∀ tm, e.timerManager = some tm → tm.HasFreshId
  fires : ∀ entry, c = .expire entry → e.TimerRuns entry →
    ∃ event, (c.footprint e).started = some event ∧ event.slot = entry.event.slot
  starts : ∀ event entry, (c.footprint e).started = some event → e.Survives c entry →
    entry.event.slot ≠ event.slot
  ends : (c.footprint e).ends = true → (c.footprint e).started = none ∧
    ∀ entry, e.Survives c entry → eventKey entry.event ≠ c.key e

/-- The invariant. -/
structure TimersBooked (e : LtpEngine) (tm : TimerManager) : Prop where
  stored : e.WellStored
  indexed : Indexed e.timers tm
  slotted : Slotted e.timers tm
  live : ∀ s id, e.timers.held s = some id → ∃ entry, tm.Outstanding entry ∧
    entry.timerId = id ∧ (e.sessions.lookup (eventKey entry.event)).isSome

variable {e e' : LtpEngine} {tm : TimerManager} {c : Call}

theorem mem_slots {s : TimerSlot} : s ∈ e.slots ↔ ∃ id, e.timers.held s = some id := by
  obtain ⟨checkpoint, key⟩ := s
  rw [slots, List.mem_append, List.mem_map, List.mem_map]
  cases checkpoint with
  | true =>
      rw [Timers.held_checkpoint, ← Option.isSome_iff_exists, AList.lookup_isSome]
      simp [AList.mem_keys, timers]
  | false =>
      rw [Timers.held_report, ← Option.isSome_iff_exists, AList.lookup_isSome]
      simp [AList.mem_keys, timers]

theorem nodup_slots (e : LtpEngine) : e.slots.Nodup := by
  refine List.nodup_append.mpr ⟨?_, ?_, fun s hs s' hs' heq => ?_⟩
  · exact e.checkpointTimers.keys_nodup.map fun _ _ h => (TimerSlot.mk.inj h).2
  · exact e.reportTimers.keys_nodup.map fun _ _ h => (TimerSlot.mk.inj h).2
  · obtain ⟨_, -, rfl⟩ := List.mem_map.mp hs
    obtain ⟨_, -, rfl⟩ := List.mem_map.mp hs'
    cases (TimerSlot.mk.inj heq).1

namespace TimersBooked

variable (hb : e.TimersBooked tm)
include hb

theorem runs_iff (entry : TimerEntry) : e.TimerRuns entry ↔ tm.Outstanding entry :=
  timerRuns_iff hb.indexed.manager entry

/-- Ids are unique. -/
theorem eq_of_timerId {a b : TimerEntry} (ha : e.TimerRuns a) (hb' : e.TimerRuns b)
    (h : a.timerId = b.timerId) : a = b :=
  List.inj_on_of_nodup_map hb.indexed.unique ((hb.runs_iff a).mp ha).1 ((hb.runs_iff b).mp hb').1 h

theorem found {entry : TimerEntry} (h : e.TimerRuns entry) :
    e.timers.held entry.event.slot = some entry.timerId :=
  hb.slotted entry ((hb.runs_iff entry).mp h)

/-- A slot holds a running timer's id only if it is its own. -/
theorem held_iff {entry : TimerEntry} (h : e.TimerRuns entry) (s : TimerSlot) :
    e.timers.held s = some entry.timerId ↔ s = entry.event.slot := by
  refine ⟨fun hheld => ?_, fun hs => hs ▸ hb.found h⟩
  exact (hb.indexed.slots s _ hheld entry ((hb.runs_iff entry).mp h).1 rfl).symm

theorem timerOf {s : TimerSlot} {id : UInt64} (h : e.timers.held s = some id) :
    ∃ entry, e.TimerOf s id entry := by
  obtain ⟨entry, hout, hid, hsession⟩ := hb.live s id h
  exact ⟨entry, (hb.runs_iff entry).mpr hout, hid, hb.indexed.slots s id h entry hout.1 hid, hsession⟩

theorem slots_perm : e.slots.Perm (e.runningTimers.map fun entry => entry.event.slot) := by
  have hslot : ∀ a ∈ e.runningTimers, ∀ b ∈ e.runningTimers, a.event.slot = b.event.slot → a = b := by
    intro a ha b hb' hs
    have hheld := hb.found (mem_runningTimers.mp ha)
    rw [hs, hb.found (mem_runningTimers.mp hb')] at hheld
    exact hb.eq_of_timerId (mem_runningTimers.mp ha) (mem_runningTimers.mp hb')
      (Option.some.inj hheld).symm
  have hnodup : e.runningTimers.Nodup := by
    rw [runningTimers, show e.timerManager = some tm from hb.indexed.manager]
    exact (List.Nodup.of_map _ hb.indexed.unique).filter _
  refine (List.perm_ext_iff_of_nodup e.nodup_slots (hnodup.map_on hslot)).mpr fun s => ?_
  rw [mem_slots, List.mem_map]
  constructor
  · rintro ⟨id, hheld⟩
    obtain ⟨entry, hof⟩ := hb.timerOf hheld
    exact ⟨entry, mem_runningTimers.mpr hof.runs, hof.slot⟩
  · rintro ⟨entry, hentry, rfl⟩
    exact ⟨_, hb.found (mem_runningTimers.mp hentry)⟩

theorem corresponds : e.Corresponds where
  entries := fun s id hheld => by
    obtain ⟨entry, hof⟩ := hb.timerOf hheld
    exact ⟨entry, hof, fun other hother =>
      hb.eq_of_timerId hother.runs hof.runs (hother.timerId.trans hof.timerId.symm)⟩
  found := fun entry => hb.found
  cancels := fun entry hentry => by
    obtain ⟨tm', hindexed, -, -, hout⟩ := hb.indexed.cancel entry.event.slot
    refine ⟨tm', hindexed.manager, fun other => ?_⟩
    rw [hout other, hb.found hentry, ← hb.runs_iff]
    refine and_congr_right fun hother => not_congr ⟨fun heq => ?_, fun heq => heq ▸ rfl⟩
    exact hb.eq_of_timerId hother hentry (Option.some.inj heq).symm
  count := by rw [hb.slots_perm.length_eq, List.length_map]

end TimersBooked

/-! ## One call -/

theorem popped_sessions (c : Call) : (c.popped e).sessions = e.sessions := by
  obtain ⟨manager, heq⟩ := c.popped_eq e
  rw [heq]

/-- No timer is cancelled where one fires. -/
theorem footprint_expire (e : LtpEngine) (entry : TimerEntry) :
    ((Call.expire entry).footprint e).cancelled = none := by
  have hattempt (session : LtpSession) (started : Option TimerEvent) :
      (e.attemptFootprint session started).cancelled = none := by
    rw [attemptFootprint]
    split <;> rfl
  rw [Call.footprint]
  split
  · rw [expiryFootprint]
    split
    · rw [checkpointFootprint]
      split
      · rfl
      · split
        · exact hattempt _ _
        · rfl
    · rw [reportTimerFootprint]
      split
      · rfl
      · split <;> rfl
    · rfl
  · rfl

/-- From `e` to `e'` the call turned the timers; a timer it started has this
id. -/
structure Turned (e : LtpEngine) (c : Call) (e' : LtpEngine) (tm' : TimerManager) (id : UInt64) :
    Prop where
  indexed : Indexed e'.timers tm'
  started : ∀ event, (c.footprint e).started = some event →
    e'.timers.held event.slot = some id ∧
      ∃ entry, e'.TimerRuns entry ∧ entry.timerId = id ∧ entry.event = event
  survives : ∀ entry, e.Survives c entry → e'.TimerRuns entry
  runs : ∀ entry, e'.TimerRuns entry → e.Survives c entry ∨
    ∃ event, (c.footprint e).started = some event ∧ entry.timerId = id ∧ entry.event = event
  new : ∀ entry, e.TimerRuns entry → entry.timerId ≠ id
  cancelled : ∀ event, (c.footprint e).cancelled = some event →
    (∀ new, (c.footprint e).started = some new → event.slot ≠ new.slot) →
      e'.timers.held event.slot = none
  other : ∀ s, (∀ event, (c.footprint e).cancelled = some event → s ≠ event.slot) →
    (∀ event, (c.footprint e).started = some event → s ≠ event.slot) →
      e'.timers.held s = e.timers.held s

theorem TimersBooked.turned (hb : e.TimersBooked tm) (hfresh : tm.HasFreshId)
    (h : e.call c = .ok e') : ∃ tm', Turned e c e' tm' (tm.nextId + 1) := by
  obtain ⟨tm₀, hi, hnext, hout₀⟩ := indexed_popped hb.indexed c
  have htimers := (call_left hb.stored h).timers
  have hfresh₀ : tm₀.HasFreshId := by
    rw [TimerManager.HasFreshId, hnext]
    exact hfresh
  obtain ⟨tm', hindexed, hout⟩ := hi.turn hfresh₀
    (c.popped e).config.retransmissionTimeoutMs.toNat (c.footprint e).cancelled
    (c.footprint e).started
  rw [← htimers] at hindexed
  -- what the turn leaves of the timers from before
  have hsurvives (entry : TimerEntry) : e.Survives c entry ↔ tm₀.Outstanding entry ∧
      ∀ event, (c.footprint e).cancelled = some event →
        (c.popped e).timers.held event.slot ≠ some entry.timerId := by
    rw [hout₀, ← hb.runs_iff]
    constructor
    · intro hs
      refine ⟨⟨hs.runs, hs.unfired⟩, fun event hevent hheld => hs.uncancelled event hevent ?_⟩
      rw [held_popped] at hheld
      exact (hb.held_iff hs.runs _).mp hheld
    · rintro ⟨⟨hruns, hunfired⟩, hheld⟩
      refine ⟨hruns, hunfired, fun event hevent hslot => hheld event hevent ?_⟩
      rw [held_popped]
      exact (hb.held_iff hruns _).mpr hslot
  have hruns (entry : TimerEntry) := timerRuns_iff (e := e') hindexed.manager entry
  refine ⟨tm', hindexed, fun event hevent => ⟨?_, ?_⟩, fun entry hs => ?_, fun entry hentry => ?_,
    fun entry hentry => ?_, fun event hevent hnew => ?_, fun s hcancelled hstarted => ?_⟩
  · rw [htimers, hevent, ← hnext]
    exact Timers.held_turn_started hi.manager _ _ event
  · refine ⟨_, (hruns _).mpr ((hout _).mpr (.inr ⟨event, hevent, rfl⟩)), ?_, rfl⟩
    rw [← hnext]
  · exact (hruns entry).mpr ((hout entry).mpr (.inl ((hsurvives entry).mp hs)))
  · rcases (hout entry).mp ((hruns entry).mp hentry) with hold | ⟨event, hevent, rfl⟩
    · exact .inl ((hsurvives entry).mpr hold)
    · exact .inr ⟨event, hevent, congrArg (· + 1) hnext, rfl⟩
  · exact hb.indexed.ne_next hfresh ((hb.runs_iff entry).mp hentry).1
  · rw [htimers, hevent]
    exact Timers.held_turn_cancelled _ event hnew
  · rw [htimers, Timers.held_turn_other _ hcancelled hstarted, held_popped]

/-- **A tidy call.** It keeps the tables in correspondence with the timers. -/
theorem TimersBooked.call (hb : e.TimersBooked tm) (hg : e.Tidy c) (h : e.call c = .ok e') :
    ∃ tm', e'.TimersBooked tm' := by
  obtain ⟨tm', ht⟩ := hb.turned (hg.fresh tm hb.indexed.manager) h
  have hleft := call_left hb.stored h
  have hruns := timerRuns_iff (e := e') ht.indexed.manager
  -- a session with a timer left is still there
  have hsession (entry : TimerEntry) (hs : e.Survives c entry)
      (hmet : (e.sessions.lookup (eventKey entry.event)).isSome) :
      (e'.sessions.lookup (eventKey entry.event)).isSome := by
    rw [← popped_sessions c] at hmet
    by_cases hkey : eventKey entry.event = c.key e
    · rw [hkey] at hmet ⊢
      refine hleft.stays ?_ (.inr hmet)
      by_contra hends
      exact (hg.ends (by simpa using hends)).2 entry hs hkey
    · rw [hleft.frame _ hkey]
      exact hmet
  refine ⟨tm', hb.stored.call h, ht.indexed, fun entry hentry => ?_, fun s id hheld => ?_⟩
  · rcases ht.runs entry ((hruns entry).mpr hentry) with hs | ⟨event, hevent, hid, rfl⟩
    · rw [ht.other _ (fun event hevent => (hs.uncancelled event hevent).symm)
        fun event hevent => hg.starts event entry hevent hs]
      exact hb.found hs.runs
    · rw [hid]
      exact (ht.started _ hevent).1
  · by_cases hnew : ∃ event, (c.footprint e).started = some event ∧ s = event.slot
    · -- the slot of the timer that was started
      obtain ⟨event, hevent, rfl⟩ := hnew
      obtain ⟨hheld', entry, hentry, hid, heq⟩ := ht.started event hevent
      rw [hheld'] at hheld
      refine ⟨entry, (hruns entry).mp hentry, hid.trans (Option.some.inj hheld), ?_⟩
      rw [heq, hleft.started event hevent]
      refine hleft.stays ?_ (.inl (by rw [hevent]; rfl))
      by_contra hends
      rw [(hg.ends (by simpa using hends)).1] at hevent
      cases hevent
    · have hne : ∀ event, (c.footprint e).started = some event → s ≠ event.slot :=
        fun event hevent hs => hnew ⟨event, hevent, hs⟩
      have hkept : ∀ event, (c.footprint e).cancelled = some event → s ≠ event.slot := by
        rintro event hevent rfl
        rw [ht.cancelled event hevent hne] at hheld
        cases hheld
      rw [ht.other s hkept hne] at hheld
      obtain ⟨entry, hof⟩ := hb.timerOf hheld
      have hs : e.Survives c entry := by
        refine ⟨hof.runs, fun hfired => ?_, fun event hevent heq => ?_⟩
        · obtain ⟨event, hevent, heq⟩ := hg.fires entry hfired hof.runs
          exact hne event hevent (hof.slot.symm.trans heq.symm)
        · exact hkept event hevent (hof.slot.symm.trans heq.symm)
      exact ⟨entry, (hruns entry).mp (ht.survives entry hs), hof.timerId, hsession entry hs hof.session⟩

/-- A call that is not tidy breaks the correspondence. -/
theorem TimersBooked.tidy_of_corresponds (hb : e.TimersBooked tm) (hfresh : tm.HasFreshId)
    (h : e.call c = .ok e') (hc : e'.Corresponds) : e.Tidy c := by
  obtain ⟨tm', ht⟩ := hb.turned hfresh h
  have hleft := call_left hb.stored h
  -- the timer of an entry that the call has not renewed
  have hold (entry : TimerEntry) (hruns : e.TimerRuns entry)
      (hheld : e'.timers.held entry.event.slot = some entry.timerId) :
      e.Survives c entry ∧ (e'.sessions.lookup (eventKey entry.event)).isSome := by
    obtain ⟨kept, hof, -⟩ := hc.entries _ _ hheld
    rcases ht.runs kept hof.runs with hs | ⟨event, -, hid, -⟩
    · rw [← hb.eq_of_timerId hs.runs hruns hof.timerId]
      exact ⟨hs, hof.session⟩
    · exact absurd (hof.timerId.symm.trans hid) (ht.new entry hruns)
  refine ⟨fun tm₁ hmanager => ?_, fun entry hfired hruns => ?_, fun event entry hevent hs heq => ?_,
    fun hends => ⟨?_, fun entry hs hkey => ?_⟩⟩
  · cases hmanager.symm.trans hb.indexed.manager
    exact hfresh
  · -- else the fired timer's entry stays
    by_contra hnone
    have hkept : e'.timers.held entry.event.slot = e.timers.held entry.event.slot := by
      refine ht.other _ (fun event hcancelled => ?_) fun event hstarted heq =>
        hnone ⟨event, hstarted, heq.symm⟩
      rw [hfired, footprint_expire] at hcancelled
      cases hcancelled
    exact (hold entry hruns (hkept.trans (hb.found hruns))).1.unfired hfired
  · -- else the slot holds the new timer's id
    have hheld := hc.found entry (ht.survives entry hs)
    rw [heq, (ht.started event hevent).1] at hheld
    exact ht.new entry hs.runs (Option.some.inj hheld).symm
  · rw [Option.eq_none_iff_forall_ne_some]
    intro event hevent
    obtain ⟨hheld, -⟩ := ht.started event hevent
    obtain ⟨kept, hof, -⟩ := hc.entries _ _ hheld
    have hsession := hof.session
    rcases ht.runs kept hof.runs with hs | ⟨event', hevent', -, heq⟩
    · exact ht.new kept hs.runs hof.timerId
    · rw [heq, hleft.started event' hevent', hleft.gone hends] at hsession
      cases hsession
  · have hsession := (hold entry hs.runs (hc.found entry (ht.survives entry hs))).2
    rw [hkey, hleft.gone hends] at hsession
    cases hsession

/-! ## Runs -/

theorem timersBooked_create (config : LtpEngineConfig) (now : Nat) :
    (create config (some { now := now })).TimersBooked { now := now } where
  stored := wellStored_create _ _
  indexed := (timersKept_create config now).indexed
  slotted := fun _ hout => nomatch hout.1
  live := fun s id hid => by
    rw [Timers.held] at hid
    split at hid <;> cases hid

theorem timersBooked_of_reachable {config : LtpEngineConfig}
    (h : (timerCalls config).Reachable Tidy e) : ∃ tm, e.TimersBooked tm := by
  refine h.invariant (P := fun e => ∃ tm, TimersBooked e tm) (fun e₀ hinit => ?_)
    fun e₁ c e₂ hb hg hstep => ?_
  · obtain ⟨now, rfl⟩ := hinit
    exact ⟨_, timersBooked_create config now⟩
  · obtain ⟨tm, hb⟩ := hb
    exact hb.call hg hstep

/-- **Timer bookkeeping.** In every run of tidy calls the tables correspond
to the running timers; and as long as timer ids last, the first call that is
not tidy ends that. -/
theorem timers_correspond (config : LtpEngineConfig) :
    (∀ e, (timerCalls config).Reachable Tidy e → e.Corresponds) ∧
      ∀ e c e', (timerCalls config).Reachable Tidy e →
        (∀ tm, e.timerManager = some tm → tm.HasFreshId) → e.call c = .ok e' →
          (e'.Corresponds ↔ e.Tidy c) := by
  refine ⟨fun e hreach => ?_, fun e c e' hreach hfresh h => ⟨fun hc => ?_, fun hg => ?_⟩⟩
  · obtain ⟨tm, hb⟩ := timersBooked_of_reachable hreach
    exact hb.corresponds
  · obtain ⟨tm, hb⟩ := timersBooked_of_reachable hreach
    exact hb.tidy_of_corresponds (hfresh tm hb.indexed.manager) h hc
  · obtain ⟨tm, hb⟩ := timersBooked_of_reachable (hreach.step hg h)
    exact hb.corresponds

/-- `Survives`, decided. -/
def survivesCheck (e : LtpEngine) (c : Call) (entry : TimerEntry) : Bool :=
  e.TimerRuns entry &&
  (match c with
  | .expire fired => fired ≠ entry
  | _ => true) &&
  (c.footprint e).cancelled.all fun event => event.slot ≠ entry.event.slot

theorem survivesCheck_of_survives {entry : TimerEntry} (h : e.Survives c entry) :
    e.survivesCheck c entry = true := by
  unfold survivesCheck
  rw [Bool.and_eq_true, Bool.and_eq_true, decide_eq_true_eq, Option.all_eq_true]
  refine ⟨⟨h.runs, ?_⟩, fun event hevent => by simpa using h.uncancelled event hevent⟩
  cases c with
  | expire fired =>
      have hunfired : fired ≠ entry := fun heq => h.unfired (congrArg Call.expire heq)
      exact decide_eq_true hunfired
  | startSession | cancelSession | receiveSegment | handleTimerExpiry => rfl

/-- `Tidy`, decided. -/
def tidyCheck (e : LtpEngine) (c : Call) : Bool :=
  (e.timerManager.all fun tm => tm.nextId.toNat + 1 < 2 ^ 64) &&
  (match c with
  | .expire fired => !e.TimerRuns fired ||
    (c.footprint e).started.any fun event => event.slot = fired.event.slot
  | _ => true) &&
  (e.runningTimers.all fun entry => !e.survivesCheck c entry ||
    ((c.footprint e).started.all (fun event => entry.event.slot ≠ event.slot) &&
      (!(c.footprint e).ends || eventKey entry.event ≠ c.key e))) &&
  (!(c.footprint e).ends || (c.footprint e).started.isNone)

theorem tidy_of_check (e : LtpEngine) (c : Call) (h : e.tidyCheck c = true) : e.Tidy c := by
  unfold tidyCheck at h
  rw [Bool.and_eq_true, Bool.and_eq_true, Bool.and_eq_true] at h
  obtain ⟨⟨⟨hfresh, hfires⟩, hothers⟩, hends⟩ := h
  have hother (entry : TimerEntry) (hs : e.Survives c entry) :
      (c.footprint e).started.all (fun event => entry.event.slot ≠ event.slot) = true ∧
        ((c.footprint e).ends = true → eventKey entry.event ≠ c.key e) := by
    have hentry := List.all_eq_true.mp hothers entry (mem_runningTimers.mpr hs.runs)
    rw [survivesCheck_of_survives hs, Bool.not_true, Bool.false_or, Bool.and_eq_true] at hentry
    refine ⟨hentry.1, fun hgone => ?_⟩
    simpa [hgone] using hentry.2
  refine ⟨fun tm htm => ?_, fun entry hc hruns => ?_, fun event entry hevent hs => ?_,
    fun hgone => ⟨?_, fun entry hs => (hother entry hs).2 hgone⟩⟩
  · rw [htm] at hfresh
    simpa [TimerManager.HasFreshId] using hfresh
  · subst hc
    dsimp only at hfires
    rw [decide_eq_true hruns, Bool.not_true, Bool.false_or, Option.any_eq_true] at hfires
    obtain ⟨event, hevent, heq⟩ := hfires
    exact ⟨event, hevent, of_decide_eq_true heq⟩
  · have hstarted := (hother entry hs).1
    rw [hevent] at hstarted
    simpa using hstarted
  · rw [hgone, Bool.not_true, Bool.false_or] at hends
    exact Option.isNone_iff_eq_none.mp hends

theorem length_bookedBytes : ([7, 8] : List UInt8).length < 2 ^ 57 := by decide

/-- A block of two bytes, and a report that it has all arrived. -/
def reportedBlock : List Call :=
  [.startSession ⟨[7, 8], length_bookedBytes⟩ true,
    .receiveSegment (byteFrom 2 1),
    .receiveSegment
      { segmentType := SegType.reportSegment, engineId := 1, sessionNumber := 1
        content := .report
          { reportSerial := 1, checkpointSerial := 1, upperBound := 2, lowerBound := 0,
            claims := [{ offset := 0, length := 2 }] } }]

theorem timers_correspond_reportedBlock : ∃ e : LtpEngine, e.Corresponds ∧
    e.slots.length = 1 ∧ e.sessionCount = 1 := by
  have hrun : ((create {} (some { now := 0 })).callEach tidyCheck reportedBlock).any (fun e =>
      decide (e.slots.length = 1 ∧ e.sessionCount = 1)) = true := by decide +kernel
  obtain ⟨e, hrun, hcheck⟩ := (Option.any_eq_true _ _).mp hrun
  have hinit : (timerCalls {}).Reachable Tidy (create {} (some { now := 0 })) := .init ⟨0, rfl⟩
  have hreach := hinit.path (path_of_callEach (fun _ _ _ hstep => hstep) tidy_of_check hrun)
  exact ⟨e, (timers_correspond {}).1 e hreach, of_decide_eq_true hcheck⟩

/-- A session that is cancelled leaves its timer, and the timer's entry. -/
theorem timers_diverge : ¬ ∀ (config : LtpEngineConfig) (e : LtpEngine),
    (timerCalls config).Reachable System.free e → e.Corresponds := by
  intro h
  have hrun : ((create {} (some { now := 0 })).callEach (fun _ _ => true)
      [.startSession ⟨[7, 8], length_bookedBytes⟩ true, .cancelSession 1 1 5]).any (fun e =>
        e.timers.held ⟨true, timerKey 1 1⟩ = some 1 && e.runningTimers.all fun entry =>
          (e.sessions.lookup (eventKey entry.event)).isNone) = true := by decide +kernel
  obtain ⟨e, hrun, hcheck⟩ := (Option.any_eq_true _ _).mp hrun
  rw [Bool.and_eq_true, decide_eq_true_eq] at hcheck
  obtain ⟨hheld, hgone⟩ := hcheck
  have hinit : (timerCalls {}).Reachable System.free (create {} (some { now := 0 })) :=
    .init ⟨0, rfl⟩
  have hreach := hinit.path (path_of_callEach (fun _ _ _ hstep => hstep)
    (fun _ _ _ => trivial) hrun)
  obtain ⟨entry, hof, -⟩ := (h {} e hreach).entries _ _ hheld
  have hnone := List.all_eq_true.mp hgone entry (mem_runningTimers.mpr hof.runs)
  rw [Option.isNone_iff_eq_none] at hnone
  have hsession := hof.session
  rw [hnone] at hsession
  cases hsession

end LtpEngine

end QpskB210.Ltp
