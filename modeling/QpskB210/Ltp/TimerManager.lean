import Mathlib.Data.Finset.Insert
import Mathlib.Data.Finset.Basic
import QpskB210.Ltp.Basic

/-!
# LTP — TimerManager

The timer queue behind the engine. Each call runs under the manager's lock,
so a call is one step. The heap is kept as the list of its entries: every
result here holds whichever entry the clock lets expire next.
-/

namespace QpskB210.Ltp

inductive TimerType where
  | checkpoint
  | reportSegment
  | cancelSegment
deriving DecidableEq, Repr

structure TimerEvent where
  type : TimerType
  engineId : UInt64 := 0
  sessionNumber : UInt64 := 0
  serialNumber : UInt64 := 0
deriving DecidableEq, Repr

/-- `expiry` is a reading of the steady clock, in milliseconds. -/
structure TimerEntry where
  timerId : UInt64 := 0
  expiry : Nat
  event : TimerEvent
deriving DecidableEq, Repr

/-- `now` is the steady clock. A cancelled entry stays in the heap, with its
id in `cancelled`, until it is popped. -/
structure TimerManager where
  nextId : UInt64 := 0
  heap : List TimerEntry := []
  cancelled : Finset UInt64 := ∅
  now : Nat := 0

namespace TimerManager

/-- `start_timer`, with the id it returns. -/
def startTimer (tm : TimerManager) (timeout : Nat) (event : TimerEvent) :
    TimerManager × UInt64 :=
  let id := tm.nextId + 1
  let entry : TimerEntry := { timerId := id, expiry := tm.now + timeout, event := event }
  ({ tm with nextId := id, heap := entry :: tm.heap }, id)

/-- `cancel_timer`. -/
def cancelTimer (tm : TimerManager) (timerId : UInt64) : TimerManager :=
  { tm with cancelled := insert timerId tm.cancelled }

/-- One expired entry of `thread_func`: popped, then dropped together with
its cancellation mark, or its event handed to the callback. -/
def popEntry (tm : TimerManager) (entry : TimerEntry) : TimerManager × Option TimerEvent :=
  let popped := { tm with heap := tm.heap.erase entry }
  if entry.timerId ∈ tm.cancelled then
    ({ popped with cancelled := tm.cancelled.erase entry.timerId }, none)
  else (popped, some entry.event)

/-! ## Outstanding timers -/

/-- Started, and neither fired nor cancelled. -/
def Outstanding (tm : TimerManager) (entry : TimerEntry) : Prop :=
  entry ∈ tm.heap ∧ entry.timerId ∉ tm.cancelled

/-- Every cancellation mark is on an id that was issued. -/
def MarksIssued (tm : TimerManager) : Prop := ∀ id ∈ tm.cancelled, id ≤ tm.nextId

/-- The id counter has not reached its last value. -/
def HasFreshId (tm : TimerManager) : Prop := tm.nextId.toNat + 1 < 2 ^ 64

theorem HasFreshId.lt_add_one {tm : TimerManager} (h : tm.HasFreshId) :
    tm.nextId < tm.nextId + 1 := by
  have hnext : (tm.nextId + 1).toNat = tm.nextId.toNat + 1 := toNat_add_of_lt h
  rw [UInt64.lt_iff_toNat_lt, hnext]
  omega

theorem MarksIssued.startTimer {tm : TimerManager} (hm : tm.MarksIssued) (h : tm.HasFreshId)
    (timeout : Nat) (event : TimerEvent) : (tm.startTimer timeout event).1.MarksIssued :=
  fun id hid => UInt64.le_of_lt (UInt64.lt_of_le_of_lt (hm id hid) h.lt_add_one)

theorem MarksIssued.cancelTimer {tm : TimerManager} (hm : tm.MarksIssued) {timerId : UInt64}
    (h : timerId ≤ tm.nextId) : (tm.cancelTimer timerId).MarksIssued := by
  intro id hid
  rcases Finset.mem_insert.mp hid with rfl | hid
  · exact h
  · exact hm id hid

theorem MarksIssued.popEntry {tm : TimerManager} (hm : tm.MarksIssued) (entry : TimerEntry) :
    (tm.popEntry entry).1.MarksIssued := by
  rw [TimerManager.popEntry]
  split
  · exact fun id hid => hm id (Finset.mem_of_mem_erase hid)
  · exact hm

theorem Outstanding.startTimer {tm : TimerManager} {entry : TimerEntry} (h : tm.Outstanding entry)
    (timeout : Nat) (event : TimerEvent) : (tm.startTimer timeout event).1.Outstanding entry :=
  ⟨List.mem_cons_of_mem _ h.1, h.2⟩

/-- A new timer is outstanding, as its id carries no mark. -/
theorem outstanding_startTimer {tm : TimerManager} (hm : tm.MarksIssued) (h : tm.HasFreshId)
    (timeout : Nat) (event : TimerEvent) :
    ∃ entry, (tm.startTimer timeout event).1.Outstanding entry ∧ entry.event = event := by
  refine ⟨⟨tm.nextId + 1, tm.now + timeout, event⟩, ⟨List.mem_cons_self, fun hid => ?_⟩, rfl⟩
  exact absurd (hm _ hid) (UInt64.not_le.mpr h.lt_add_one)

theorem Outstanding.cancelTimer {tm : TimerManager} {entry : TimerEntry} (h : tm.Outstanding entry)
    {timerId : UInt64} (hne : entry.timerId ≠ timerId) :
    (tm.cancelTimer timerId).Outstanding entry := by
  refine ⟨h.1, fun hid => ?_⟩
  rcases Finset.mem_insert.mp hid with rfl | hid
  · exact hne rfl
  · exact h.2 hid

/-- Popping one entry leaves every other one outstanding. -/
theorem Outstanding.popEntry {tm : TimerManager} {entry popped : TimerEntry}
    (h : tm.Outstanding entry) (hne : entry ≠ popped) :
    (tm.popEntry popped).1.Outstanding entry := by
  have hmem : entry ∈ tm.heap.erase popped := (List.mem_erase_of_ne hne).mpr h.1
  rw [TimerManager.popEntry]
  split
  · exact ⟨hmem, fun hid => h.2 (Finset.mem_of_mem_erase hid)⟩
  · exact ⟨hmem, h.2⟩

end TimerManager

end QpskB210.Ltp
