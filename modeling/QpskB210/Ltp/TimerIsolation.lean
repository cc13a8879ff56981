import Mathlib.Data.List.Nodup
import QpskB210.Ltp.TimerFootprint

/-!
# LTP — Timer isolation

Which timers a segment cancels. A timer's id is kept in a slot that is named
by the timer's kind and by 32 bits each of its session number and serial, so
timers of different sessions can share a slot. `DistinctKeys` is the condition
under which they do not; with it, `Slotted` says that every running timer is
found in its own slot, and a report or its acknowledgment cancels the timer
it is for and no other.
-/

namespace QpskB210.Ltp

open QpskB210.Lib

/-! ## The invariant -/

/-- Ids are issued once, and an id in a slot is the id of no timer of another
slot. -/
structure Indexed (t : Timers) (tm : TimerManager) : Prop where
  manager : t.manager = some tm
  marks : tm.MarksIssued
  heap : ∀ entry ∈ tm.heap, entry.timerId ≤ tm.nextId
  unique : (tm.heap.map TimerEntry.timerId).Nodup
  issued : ∀ s id, t.held s = some id → id ≤ tm.nextId
  slots : ∀ s id, t.held s = some id → ∀ entry ∈ tm.heap, entry.timerId = id → entry.event.slot = s

/-- Every running timer is found in its slot. -/
def Slotted (t : Timers) (tm : TimerManager) : Prop :=
  ∀ entry, tm.Outstanding entry → t.held entry.event.slot = some entry.timerId

/-- No two running timers share a slot. -/
def TimerManager.Distinct (tm : TimerManager) : Prop :=
  ∀ a b, tm.Outstanding a → tm.Outstanding b → a.event.slot = b.event.slot → a = b

namespace Indexed

variable {t : Timers} {tm : TimerManager}

/-- The next id is the id of no timer. -/
theorem ne_next (h : Indexed t tm) (hfresh : tm.HasFreshId) {entry : TimerEntry}
    (hentry : entry ∈ tm.heap) : entry.timerId ≠ tm.nextId + 1 := by
  intro heq
  have hle := h.heap entry hentry
  rw [heq] at hle
  exact absurd hle (UInt64.not_le.mpr hfresh.lt_add_one)

theorem start (h : Indexed t tm) (hfresh : tm.HasFreshId) (timeout : Nat) (event : TimerEvent) :
    Indexed (t.start timeout event) (tm.startTimer timeout event).1 := by
  have hlt : tm.nextId < tm.nextId + 1 := hfresh.lt_add_one
  have hle {id : UInt64} (hid : id ≤ tm.nextId) : id ≤ tm.nextId + 1 :=
    UInt64.le_of_lt (UInt64.lt_of_le_of_lt hid hlt)
  have hnew {id : UInt64} (hid : id ≤ tm.nextId) : tm.nextId + 1 ≠ id := by
    intro heq
    rw [← heq] at hid
    exact absurd hid (UInt64.not_le.mpr hlt)
  refine ⟨Timers.start_manager h.manager _ _, h.marks.startTimer hfresh timeout event,
    fun entry hentry => ?_, ?_, fun s id hid => ?_, fun s id hid entry hentry hentryId => ?_⟩
  · rcases List.mem_cons.mp hentry with rfl | hentry
    · exact UInt64.le_refl _
    · exact hle (h.heap entry hentry)
  · refine List.nodup_cons.mpr ⟨fun hmem => ?_, h.unique⟩
    obtain ⟨entry, hentry, hid⟩ := List.mem_map.mp hmem
    exact hnew (h.heap entry hentry) hid.symm
  · by_cases hs : s = event.slot
    · rw [hs, Timers.start_held_same h.manager] at hid
      exact Option.some.inj hid ▸ UInt64.le_refl _
    · rw [Timers.start_held_other timeout hs] at hid
      exact hle (h.issued s id hid)
  · by_cases hs : s = event.slot
    · rw [hs, Timers.start_held_same h.manager] at hid
      rcases List.mem_cons.mp hentry with rfl | hentry
      · exact hs.symm
      · exact absurd ((Option.some.inj hid).trans hentryId.symm) (hnew (h.heap entry hentry))
    · rw [Timers.start_held_other timeout hs] at hid
      rcases List.mem_cons.mp hentry with rfl | hentry
      · exact absurd hentryId (hnew (h.issued s id hid))
      · exact h.slots s id hid entry hentry hentryId

/-- Cancelling a slot stops the timer whose id is in it. -/
theorem cancel (h : Indexed t tm) (s : TimerSlot) :
    ∃ tm', Indexed (t.cancel s) tm' ∧ tm'.nextId = tm.nextId ∧ tm'.now = tm.now ∧ ∀ entry,
      tm'.Outstanding entry ↔ tm.Outstanding entry ∧ t.held s ≠ some entry.timerId := by
  cases hheld : t.held s with
  | none =>
      rw [Timers.cancel_of_none hheld]
      exact ⟨tm, h, rfl, rfl, fun entry => (and_iff_left nofun).symm⟩
  | some id =>
      have hkept {s' : TimerSlot} {id' : UInt64} (hid : (t.cancel s).held s' = some id') :
          t.held s' = some id' := by
        by_cases hs : s' = s
        · rw [hs, Timers.cancel_held_same] at hid
          cases hid
        · rwa [Timers.cancel_held_other hs] at hid
      refine ⟨tm.cancelTimer id, ⟨Timers.cancel_manager h.manager hheld,
        h.marks.cancelTimer (h.issued s id hheld), h.heap, h.unique,
        fun s' id' hid => h.issued s' id' (hkept hid),
        fun s' id' hid => h.slots s' id' (hkept hid)⟩, rfl, rfl, fun entry => ⟨fun hout => ?_, ?_⟩⟩
      · refine ⟨⟨hout.1, fun hmark => hout.2 (Finset.mem_insert_of_mem hmark)⟩, fun heq => ?_⟩
        exact hout.2 (Finset.mem_insert.mpr (.inl (Option.some.inj heq).symm))
      · intro hout
        exact hout.1.cancelTimer fun heq => hout.2 (congrArg some heq.symm)

/-- Popping an entry takes that one out, and stops no other. -/
theorem popEntry (h : Indexed t tm) {entry : TimerEntry} (hentry : entry ∈ tm.heap) :
    Indexed { t with manager := some (tm.popEntry entry).1 } (tm.popEntry entry).1 ∧
      (tm.popEntry entry).1.nextId = tm.nextId ∧
      ∀ other, (tm.popEntry entry).1.Outstanding other ↔ tm.Outstanding other ∧ other ≠ entry := by
  have hnext : (tm.popEntry entry).1.nextId = tm.nextId := by
    rw [TimerManager.popEntry]
    split <;> rfl
  have hheap : (tm.popEntry entry).1.heap = tm.heap.erase entry := by
    rw [TimerManager.popEntry]
    split <;> rfl
  have hmem {other : TimerEntry} (hother : other ∈ (tm.popEntry entry).1.heap) :
      other ∈ tm.heap := by
    rw [hheap] at hother
    exact List.mem_of_mem_erase hother
  refine ⟨⟨rfl, h.marks.popEntry entry, fun other hother => hnext ▸ h.heap other (hmem hother), ?_,
    fun s id hid => hnext ▸ h.issued s id hid,
    fun s id hid other hother => h.slots s id hid other (hmem hother)⟩, hnext,
    fun other => ⟨fun hout => ?_, fun hout => hout.1.popEntry hout.2⟩⟩
  · rw [hheap]
    exact h.unique.sublist (List.erase_sublist.map _)
  · have hne : other ≠ entry := by
      have hin := hout.1
      rw [hheap] at hin
      exact ((List.Nodup.of_map _ h.unique).mem_erase_iff.mp hin).1
    refine ⟨⟨hmem hout.1, fun hmark => hout.2 ?_⟩, hne⟩
    -- ids are unique, so the mark that goes with the popped entry is another
    have hids : other.timerId ≠ entry.timerId :=
      fun heq => hne (List.inj_on_of_nodup_map h.unique (hmem hout.1) hentry heq)
    rw [TimerManager.popEntry]
    split
    · exact Finset.mem_erase.mpr ⟨hids, hmark⟩
    · exact hmark

end Indexed

/-- What runs after a turn: all but the timer in the cancelled slot, and the
new one. -/
theorem Indexed.turn {t : Timers} {tm : TimerManager} (h : Indexed t tm) (hfresh : tm.HasFreshId)
    (timeout : Nat) (cancelled started : Option TimerEvent) :
    ∃ tm', Indexed (t.turn timeout cancelled started) tm' ∧ ∀ entry, tm'.Outstanding entry ↔
      (tm.Outstanding entry ∧
        ∀ event, cancelled = some event → t.held event.slot ≠ some entry.timerId) ∨
      ∃ event, started = some event ∧ entry = ⟨tm.nextId + 1, tm.now + timeout, event⟩ := by
  obtain ⟨tm₁, h₁, hnext, hnow, hout₁⟩ :
      ∃ tm₁, Indexed (t.turn timeout cancelled none) tm₁ ∧ tm₁.nextId = tm.nextId ∧
        tm₁.now = tm.now ∧ ∀ entry, tm₁.Outstanding entry ↔ tm.Outstanding entry ∧
          ∀ event, cancelled = some event → t.held event.slot ≠ some entry.timerId := by
    cases cancelled with
    | none => exact ⟨tm, h, rfl, rfl, fun entry => (and_iff_left nofun).symm⟩
    | some event =>
        obtain ⟨tm₁, h₁, hnext, hnow, hout₁⟩ := h.cancel event.slot
        refine ⟨tm₁, h₁, hnext, hnow, fun entry => (hout₁ entry).trans (and_congr_right fun _ => ?_)⟩
        exact ⟨fun h e he => Option.some.inj he ▸ h, fun h => h event rfl⟩
  cases started with
  | none =>
      refine ⟨tm₁, h₁, fun entry => ?_⟩
      rw [hout₁ entry]
      refine ⟨.inl, fun hor => hor.resolve_right ?_⟩
      rintro ⟨event, hnone, -⟩
      cases hnone
  | some event =>
      have hfresh₁ : tm₁.HasFreshId := by
        rw [TimerManager.HasFreshId, hnext]
        exact hfresh
      refine ⟨(tm₁.startTimer timeout event).1, h₁.start hfresh₁ timeout event, fun entry => ?_⟩
      rw [← hout₁ entry, ← hnext, ← hnow]
      refine ⟨fun hout => ?_, fun hor => ?_⟩
      · rcases List.mem_cons.mp hout.1 with rfl | hmem
        · exact .inr ⟨event, rfl, rfl⟩
        · exact .inl ⟨hmem, hout.2⟩
      · rcases hor with hout | ⟨new, hnew, rfl⟩
        · exact hout.startTimer timeout event
        · cases hnew
          -- the new id carries no mark
          refine ⟨List.mem_cons_self, fun hmark => ?_⟩
          exact absurd (h₁.marks _ hmark) (UInt64.not_le.mpr hfresh₁.lt_add_one)

/-- Starting a timer takes the slot from a timer that shares it. -/
theorem Indexed.turn_slotted {t : Timers} {tm tm' : TimerManager} (h : Indexed t tm)
    (hfresh : tm.HasFreshId) (hslotted : Slotted t tm) {timeout : Nat} {cancelled started : Option TimerEvent}
    (hout : ∀ entry, tm'.Outstanding entry ↔
      (tm.Outstanding entry ∧
        ∀ event, cancelled = some event → t.held event.slot ≠ some entry.timerId) ∨
      ∃ event, started = some event ∧ entry = ⟨tm.nextId + 1, tm.now + timeout, event⟩)
    (hdistinct : tm'.Distinct) : Slotted (t.turn timeout cancelled started) tm' := by
  intro entry hentry
  rcases (hout entry).mp hentry with ⟨hold, hkept⟩ | ⟨event, rfl, rfl⟩
  · have hheld := hslotted entry hold
    rw [← hheld]
    refine Timers.held_turn_other timeout (fun event hevent heq => ?_) fun event hevent heq => ?_
    · exact hkept event hevent (heq ▸ hheld)
    · -- the new timer runs beside it
      have hnew := (hout _).mpr (.inr ⟨event, hevent, rfl⟩)
      exact h.ne_next hfresh hold.1 (congrArg TimerEntry.timerId (hdistinct _ _ hentry hnew heq))
  · exact Timers.held_turn_started h.manager timeout cancelled event

namespace LtpEngine

variable {e e' : LtpEngine} {key : SessionKey}

/-- From `e` to `e'` the timers turned as the acts of one call do. -/
def TurnsTo (e e' : LtpEngine) (cancelled : Option TimerEvent) : Prop :=
  ∃ started, e'.timers =
    e.timers.turn e.config.retransmissionTimeoutMs.toNat cancelled started

theorem Left.turnsTo {f : Footprint} (h : Left e e' key f) : e.TurnsTo e' f.cancelled :=
  ⟨f.started, h.timers⟩

/-- A segment stops the timer it acknowledges, if it acknowledges one. -/
theorem receiveSegment_turnsTo (hw : e.WellStored) {seg : LtpSegment}
    (h : e.receiveSegment seg = .ok e') : e.TurnsTo e' (e.acknowledged seg) := by
  rw [← segmentFootprint_cancelled]
  exact (receiveSegment_left hw h).turnsTo

/-! ## Runs -/

/-- The runs of an engine with a timer manager set. -/
def timerCalls (config : LtpEngineConfig) : System LtpEngine Call where
  init e := ∃ now, e = create config (some { now := now })
  step e c e' := e.call c = .ok e'

/-- Running timers have slots of their own and so has what the segment
acknowledges; the timer ids have not run out. -/
structure DistinctKeys (e : LtpEngine) (c : Call) : Prop where
  fresh : ∀ tm, e.timerManager = some tm → tm.HasFreshId
  running : ∀ a b, e.TimerRuns a → e.TimerRuns b → a.event.slot = b.event.slot → a = b
  acknowledged : ∀ seg event, c = .receiveSegment seg → e.acknowledged seg = some event →
    ∀ entry, e.TimerRuns entry → entry.event.slot = event.slot → entry.event = event

/-- From `e` to `e'`, at one segment: no session changed but the one it is
addressed to, no timer of another session was cancelled, and of all
running timers exactly those were that it acknowledges. -/
structure Isolates (e : LtpEngine) (seg : LtpSegment) (e' : LtpEngine) : Prop where
  sessions : ∀ key, key ≠ e.addressed seg → e'.sessions.lookup key = e.sessions.lookup key
  others : ∀ entry, e.TimerRuns entry → eventKey entry.event ≠ e.addressed seg →
    e'.TimerRuns entry
  exactly : ∀ entry, e.TimerRuns entry →
    (¬ e'.TimerRuns entry ↔ e.acknowledged seg = some entry.event)

/-- Every running timer is found in its slot, as far as they are distinct. -/
structure TimersKept (e : LtpEngine) (tm : TimerManager) : Prop where
  stored : e.WellStored
  indexed : Indexed e.timers tm
  slotted : tm.Distinct → Slotted e.timers tm

variable {tm : TimerManager}

theorem DistinctKeys.distinct {c : Call} (hg : e.DistinctKeys c) (h : e.timerManager = some tm) :
    tm.Distinct :=
  fun a b ha hb => hg.running a b ⟨tm, h, ha⟩ ⟨tm, h, hb⟩

theorem TimersKept.slotted_of {c : Call} (hk : e.TimersKept tm) (hg : e.DistinctKeys c) :
    Slotted e.timers tm :=
  hk.slotted (hg.distinct hk.indexed.manager)

theorem timersKept_turnsTo (hi : Indexed e.timers tm) (hs : Slotted e.timers tm)
    (hfresh : tm.HasFreshId) (hw : e'.WellStored) {cancelled : Option TimerEvent}
    (h : e.TurnsTo e' cancelled) :
    ∃ tm', e'.TimersKept tm' ∧ ∀ entry, tm.Outstanding entry → (tm'.Outstanding entry ↔
      ∀ event, cancelled = some event → e.timers.held event.slot ≠ some entry.timerId) := by
  obtain ⟨started, htimers⟩ := h
  obtain ⟨tm', hindexed, hout⟩ :=
    hi.turn hfresh e.config.retransmissionTimeoutMs.toNat cancelled started
  have hslotted := hi.turn_slotted hfresh hs hout
  rw [← htimers] at hindexed hslotted
  refine ⟨tm', ⟨hw, hindexed, hslotted⟩, fun entry hentry => ?_⟩
  rw [hout entry]
  refine ⟨fun hor => ?_, fun hkept => .inl ⟨hentry, hkept⟩⟩
  rcases hor with hold | ⟨event, -, hnew⟩
  · exact hold.2
  · exact absurd (congrArg TimerEntry.timerId hnew) (hi.ne_next hfresh hentry.1)

theorem held_popped (c : Call) (s : TimerSlot) :
    (c.popped e).timers.held s = e.timers.held s := by
  obtain ⟨manager, heq⟩ := c.popped_eq e
  rw [heq]
  rfl

/-- Before the call's handler runs, an entry that expires is taken out. -/
theorem indexed_popped (hi : Indexed e.timers tm) (c : Call) :
    ∃ tm₀, Indexed (c.popped e).timers tm₀ ∧ tm₀.nextId = tm.nextId ∧
      ∀ entry, tm₀.Outstanding entry ↔ tm.Outstanding entry ∧ c ≠ .expire entry := by
  cases c with
  | expire entry =>
      rw [Call.popped, show e.timerManager = some tm from hi.manager]
      dsimp only
      by_cases hentry : entry ∈ tm.heap
      · rw [if_pos hentry]
        obtain ⟨hindexed, hnext, hout⟩ := hi.popEntry hentry
        refine ⟨_, hindexed, hnext, fun other => (hout other).trans (and_congr_right fun _ => ?_)⟩
        exact not_congr ⟨fun heq => heq ▸ rfl, fun heq => (Call.expire.inj heq).symm⟩
      · rw [if_neg hentry]
        refine ⟨tm, hi, rfl, fun other => ⟨fun hout => ⟨hout, fun heq => ?_⟩, And.left⟩⟩
        exact hentry (Call.expire.inj heq ▸ hout.1)
  | startSession | cancelSession | receiveSegment | handleTimerExpiry =>
      exact ⟨tm, hi, rfl, fun other => (and_iff_left fun heq => by cases heq).symm⟩

theorem TimersKept.call (hk : e.TimersKept tm) {c : Call} (hg : e.DistinctKeys c)
    (h : e.call c = .ok e') : ∃ tm', e'.TimersKept tm' := by
  obtain ⟨tm₀, hi, hnext, hout⟩ := indexed_popped hk.indexed c
  have hfresh : tm₀.HasFreshId := by
    rw [TimerManager.HasFreshId, hnext]
    exact hg.fresh tm hk.indexed.manager
  have hslotted : Slotted (c.popped e).timers tm₀ := by
    intro entry hentry
    rw [held_popped]
    exact hk.slotted_of hg entry ((hout entry).mp hentry).1
  obtain ⟨tm', hkept, -⟩ := timersKept_turnsTo hi hslotted hfresh (hk.stored.call h)
    (call_left hk.stored h).turnsTo
  exact ⟨tm', hkept⟩

theorem timersKept_create (config : LtpEngineConfig) (now : Nat) :
    (create config (some { now := now })).TimersKept { now := now } where
  stored := wellStored_create _ _
  indexed :=
    { manager := rfl
      marks := fun id hid => absurd hid (Finset.notMem_empty id)
      heap := fun _ h => nomatch h
      unique := List.nodup_nil
      issued := by
        intro s id hid
        rw [Timers.held] at hid
        split at hid <;> cases hid
      slots := fun _ _ _ _ h => nomatch h }
  slotted := fun _ _ hout => nomatch hout.1

theorem timersKept_of_reachable {config : LtpEngineConfig}
    (h : (timerCalls config).Reachable DistinctKeys e) : ∃ tm, e.TimersKept tm := by
  refine h.invariant (P := fun e => ∃ tm, TimersKept e tm) (fun e₀ hinit => ?_)
    fun e₁ c e₂ hk hg hstep => ?_
  · obtain ⟨now, rfl⟩ := hinit
    exact ⟨_, timersKept_create config now⟩
  · obtain ⟨tm, hk⟩ := hk
    exact hk.call hg hstep

theorem eventKey_acknowledged {seg : LtpSegment} {event : TimerEvent}
    (h : e.acknowledged seg = some event) : eventKey event = e.addressed seg := by
  rw [acknowledged] at h
  split at h
  · split at h
    · next htype =>
      rw [addressed_report htype.1, ← Option.some.inj h]
      rfl
    · cases h
  · split at h
    · next htype =>
      rw [addressed_of_ne (by rw [htype.1]; decide), ← Option.some.inj h]
      rfl
    · cases h
  · cases h

/-- **Timer isolation.** In every run in which running timers have slots of
their own, a segment changes no session but the one it is addressed to, and
cancels the timer it acknowledges and no other. -/
theorem segments_isolated (config : LtpEngineConfig) (e e' : LtpEngine) (seg : LtpSegment)
    (hreach : (timerCalls config).Reachable DistinctKeys e)
    (hdistinct : e.DistinctKeys (.receiveSegment seg)) (h : e.receiveSegment seg = .ok e') :
    e.Isolates seg e' := by
  obtain ⟨tm, hk⟩ := timersKept_of_reachable hreach
  have hslotted := hk.slotted_of hdistinct
  obtain ⟨tm', hk', hout⟩ := timersKept_turnsTo hk.indexed hslotted
    (hdistinct.fresh tm hk.indexed.manager) (hk.stored.receiveSegment h)
    (receiveSegment_turnsTo hk.stored h)
  have hbefore {entry : TimerEntry} (hruns : e.TimerRuns entry) : tm.Outstanding entry :=
    (timerRuns_iff hk.indexed.manager entry).mp hruns
  have hafter := timerRuns_iff hk'.indexed.manager
  have hexactly : ∀ entry, e.TimerRuns entry →
      (¬ e'.TimerRuns entry ↔ e.acknowledged seg = some entry.event) := by
    intro entry hruns
    rw [hafter, hout entry (hbefore hruns)]
    constructor
    · intro hstopped
      push Not at hstopped
      obtain ⟨event, hevent, hheld⟩ := hstopped
      -- the slot of the acknowledged timer holds this entry's id
      have hslot : entry.event.slot = event.slot :=
        hk.indexed.slots event.slot _ hheld entry (hbefore hruns).1 rfl
      rw [hevent, hdistinct.acknowledged seg event rfl hevent entry hruns hslot]
    · intro hevent hkept
      exact hkept _ hevent (hslotted entry (hbefore hruns))
  refine ⟨(receiveSegment_affects hk.stored h).confined.frame, fun entry hruns hne => ?_, hexactly⟩
  by_contra hstopped
  exact hne (eventKey_acknowledged ((hexactly entry hruns).mp hstopped))

/-- `DistinctKeys`, decided. -/
def keysCheck (e : LtpEngine) (c : Call) : Bool :=
  (e.timerManager.all fun tm => tm.nextId.toNat + 1 < 2 ^ 64) &&
  (e.runningTimers.all fun a => e.runningTimers.all fun b => a.event.slot ≠ b.event.slot || a = b) &&
  match c with
  | .receiveSegment seg => (e.acknowledged seg).all fun event =>
    e.runningTimers.all fun entry => entry.event.slot ≠ event.slot || entry.event = event
  | _ => true

theorem distinctKeys_of_check (e : LtpEngine) (c : Call) (h : e.keysCheck c = true) :
    e.DistinctKeys c := by
  unfold keysCheck at h
  rw [Bool.and_eq_true, Bool.and_eq_true] at h
  obtain ⟨⟨hfresh, hrunning⟩, hack⟩ := h
  refine ⟨fun tm htm => ?_, fun a b ha hb hslot => ?_,
    fun seg event hc hevent entry hentry hslot => ?_⟩
  · rw [htm] at hfresh
    have hnext : decide (tm.nextId.toNat + 1 < 2 ^ 64) = true := hfresh
    rw [decide_eq_true_eq] at hnext
    exact hnext
  · have hpair := List.all_eq_true.mp
      (List.all_eq_true.mp hrunning a (mem_runningTimers.mpr ha)) b (mem_runningTimers.mpr hb)
    simpa [hslot] using hpair
  · subst hc
    dsimp only at hack
    rw [hevent] at hack
    have hentry := List.all_eq_true.mp hack entry (mem_runningTimers.mpr hentry)
    simpa [hslot] using hentry

/-- A checkpoint of one byte, from the engine with this id. -/
def byteFrom (engineId sessionNumber : UInt64) : LtpSegment :=
  { segmentType := SegType.redDataCp, engineId := engineId, sessionNumber := sessionNumber
    content := .data
      { clientServiceId := 1, offset := 0, length := 1, data := [9], checkpointSerial := some 1,
        reportSerial := some 0 } }

/-- The acknowledgment of the first report of a session. -/
def firstReportAck (engineId sessionNumber : UInt64) : LtpSegment :=
  { segmentType := SegType.reportAck, engineId := engineId, sessionNumber := sessionNumber
    content := .rptAck { reportSerial := 1 } }

theorem segments_isolated_twoPeers : ∃ e e' : LtpEngine, e.runningTimers.length = 2 ∧
    e.Isolates (firstReportAck 2 1) e' := by
  have hrun : ((create {} (some { now := 0 })).callEach keysCheck
      [.receiveSegment (byteFrom 2 1), .receiveSegment (byteFrom 3 2)]).any (fun e =>
        e.runningTimers.length = 2 && e.keysCheck (.receiveSegment (firstReportAck 2 1)) &&
          (e.receiveSegment (firstReportAck 2 1)).isOk) = true := by decide +kernel
  obtain ⟨e, hrun, hcheck⟩ := (Option.any_eq_true _ _).mp hrun
  rw [Bool.and_eq_true, Bool.and_eq_true] at hcheck
  obtain ⟨⟨hlength, hkeys⟩, hok⟩ := hcheck
  cases hcall : e.receiveSegment (firstReportAck 2 1) with
  | error ex =>
      rw [hcall] at hok
      cases hok
  | ok e' =>
      have hinit : (timerCalls {}).Reachable DistinctKeys (create {} (some { now := 0 })) :=
        .init ⟨0, rfl⟩
      have hreach := hinit.path (path_of_callEach (fun _ _ _ hstep => hstep)
        distinctKeys_of_check hrun)
      exact ⟨e, e', of_decide_eq_true hlength, segments_isolated {} e e' _ hreach
        (distinctKeys_of_check e _ hkeys) hcall⟩

/-- Two peers whose sessions have the same number: the acknowledgment of one
report cancels the timer of the other. -/
theorem segments_not_isolated : ¬ ∀ (config : LtpEngineConfig) (e e' : LtpEngine)
    (seg : LtpSegment), (timerCalls config).Reachable System.free e →
      e.receiveSegment seg = .ok e' → e.Isolates seg e' := by
  intro h
  have hrun : ((create {} (some { now := 0 })).callEach (fun _ _ => true)
      [.receiveSegment (byteFrom 2 1), .receiveSegment (byteFrom 3 1)]).any (fun e =>
        (e.receiveSegment (firstReportAck 2 1)).toOption.any fun e' =>
          e.runningTimers.any fun entry =>
            eventKey entry.event = ⟨3, 1⟩ && !e'.TimerRuns entry) = true := by decide +kernel
  obtain ⟨e, hrun, hcheck⟩ := (Option.any_eq_true _ _).mp hrun
  obtain ⟨e', hcall, hcheck⟩ := (Option.any_eq_true _ _).mp hcheck
  obtain ⟨entry, hentry, hcheck⟩ := List.any_eq_true.mp hcheck
  rw [Bool.and_eq_true, decide_eq_true_eq, Bool.not_eq_true', decide_eq_false_iff_not] at hcheck
  obtain ⟨hkey, hstopped⟩ := hcheck
  have hinit : (timerCalls {}).Reachable System.free (create {} (some { now := 0 })) :=
    .init ⟨0, rfl⟩
  have hreach := hinit.path (path_of_callEach (fun _ _ _ hstep => hstep)
    (fun _ _ _ => trivial) hrun)
  apply hstopped
  apply (h {} e e' _ hreach (eq_ok_of_toOption hcall)).others entry (mem_runningTimers.mp hentry)
  rw [hkey, addressed_of_ne (by decide)]
  decide

end LtpEngine

end QpskB210.Ltp
