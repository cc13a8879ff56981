import Mathlib.Data.List.Nodup
import QpskB210.Lib.Transition
import QpskB210.Ltp.TimerManager

/-!
# LTP — TimerDiscipline

Which timers fire, and when. Each call, and each iteration of the timer
thread, is one step under the lock, and the clock may read anything at each.
Cancelling is lazy: the mark waits in `cancelled` until the entry reaches the
top of the heap. It waits there for an id that is still to be issued, too, and
then takes a timer that nobody has cancelled since its start. What `Tracks`
says of every reachable state is that neither the heap nor the marks have
forgotten anything, as long as no id is issued twice or cancelled ahead.
-/

namespace QpskB210.Ltp

open Lib

/-! ## What has happened -/

/-- What has happened to a timer. -/
inductive TimerAct where
  | started (entry : TimerEntry)
  | cancelled (timerId : UInt64)
  /-- The callback got the event of this entry. -/
  | fired (entry : TimerEntry) (now : Nat)
deriving DecidableEq, Repr

namespace TimerAct

def started? : TimerAct → Option TimerEntry
  | .started entry => some entry
  | _ => none

def fired? : TimerAct → Option TimerEntry
  | .fired entry _ => some entry
  | _ => none

/-- The timers started, in a history with the latest act first. -/
def starts (history : List TimerAct) : List TimerEntry := history.filterMap started?

/-- The timers fired. -/
def fires (history : List TimerAct) : List TimerEntry := history.filterMap fired?

variable {history earlier : List TimerAct} {entry other : TimerEntry} {id : UInt64} {now : Nat}

@[simp]
theorem starts_started : starts (.started entry :: history) = entry :: starts history := rfl

@[simp]
theorem starts_cancelled : starts (.cancelled id :: history) = starts history := rfl

@[simp]
theorem starts_fired : starts (.fired entry now :: history) = starts history := rfl

@[simp]
theorem fires_started : fires (.started entry :: history) = fires history := rfl

@[simp]
theorem fires_cancelled : fires (.cancelled id :: history) = fires history := rfl

@[simp]
theorem fires_fired : fires (.fired entry now :: history) = entry :: fires history := rfl

/-- `cancel_timer` has been called with the timer's id since it was started. -/
def CancelledSince (history : List TimerAct) (entry : TimerEntry) : Prop :=
  [.cancelled entry.timerId, .started entry].Sublist history

/-- Started, not fired, and not cancelled since. -/
def Pending (history : List TimerAct) (entry : TimerEntry) : Prop :=
  entry ∈ starts history ∧ entry ∉ fires history ∧ ¬ CancelledSince history entry

theorem mem_starts : entry ∈ starts history ↔ .started entry ∈ history := by
  rw [starts, List.mem_filterMap]
  constructor
  · rintro ⟨act, hact, hsome⟩
    cases act with
    | started other =>
        cases hsome
        exact hact
    | cancelled id => cases hsome
    | fired other now => cases hsome
  · exact fun h => ⟨_, h, rfl⟩

theorem CancelledSince.cons (h : CancelledSince history entry) (act : TimerAct) :
    CancelledSince (act :: history) entry :=
  List.Sublist.cons act h

theorem CancelledSince.mem (h : CancelledSince history entry) :
    .cancelled entry.timerId ∈ history :=
  List.Sublist.subset h List.mem_cons_self

/-- A timer that was started is cancelled by its id. -/
theorem cancelledSince_cancelled (h : entry ∈ starts history) :
    CancelledSince (.cancelled entry.timerId :: history) entry :=
  List.Sublist.cons_cons _ (List.singleton_sublist.mpr (mem_starts.mp h))

/-- No act wipes out what is left of a timer. -/
theorem left_cons {heap : List TimerEntry} (act : TimerAct)
    (h : entry ∈ heap ∨ entry ∈ fires history ∨ CancelledSince history entry) :
    entry ∈ heap ∨ entry ∈ fires (act :: history) ∨ CancelledSince (act :: history) entry := by
  rcases h with hin | hfired | hcancelled
  · exact .inl hin
  · exact .inr (.inl (((List.sublist_cons_self act history).filterMap fired?).subset hfired))
  · exact .inr (.inr (hcancelled.cons act))

/-- `entry` may fire at `now`, after what happened earlier. -/
structure FiresRightly (entry : TimerEntry) (now : Nat) (earlier : List TimerAct) : Prop where
  due : entry.expiry ≤ now
  not_cancelled : ¬ CancelledSince earlier entry
  first : ∀ other, Pending earlier other → entry.expiry ≤ other.expiry

/-- Every fire came rightly, after what was then the history. -/
def Rightly (history : List TimerAct) : Prop :=
  ∀ entry now earlier, .fired entry now :: earlier <:+ history → FiresRightly entry now earlier

structure Disciplined (history : List TimerAct) : Prop where
  /-- A callback for each start at most. -/
  once : ∀ entry, (fires history).count entry ≤ (starts history).count entry
  rightly : Rightly history

theorem Rightly.nil : Rightly [] := by
  intro entry now earlier hsuffix
  exact absurd (List.suffix_nil.mp hsuffix) (List.cons_ne_nil _ _)

theorem Rightly.cons {act : TimerAct} (h : Rightly history)
    (hact : ∀ entry now, act = .fired entry now → FiresRightly entry now history) :
    Rightly (act :: history) := by
  intro entry now earlier hsuffix
  rcases List.suffix_cons_iff.mp hsuffix with heq | hsuffix
  · obtain ⟨hfired, rfl⟩ := List.cons.inj heq
    exact hact entry now hfired.symm
  · exact h entry now earlier hsuffix

end TimerAct

/-! ## Runs -/

namespace TimerManager

/-- The entry that `start_timer` puts on the heap. -/
def newEntry (tm : TimerManager) (timeout : Nat) (event : TimerEvent) : TimerEntry :=
  { timerId := tm.nextId + 1, expiry := tm.now + timeout, event := event }

@[simp]
theorem startTimer_heap (tm : TimerManager) (timeout : Nat) (event : TimerEvent) :
    (tm.startTimer timeout event).1.heap = tm.newEntry timeout event :: tm.heap :=
  rfl

/-- What `heap_.top()` may be. Entries with the same expiry come in any order. -/
def IsTop (tm : TimerManager) (top : TimerEntry) : Prop :=
  top ∈ tm.heap ∧ ∀ entry ∈ tm.heap, top.expiry ≤ entry.expiry

end TimerManager

open TimerManager TimerAct

/-- A timer manager, and what has happened so far, the latest first. -/
structure TimerRun where
  tm : TimerManager := {}
  history : List TimerAct := []

namespace TimerRun

/-- The clock reads `now`. -/
def clock (s : TimerRun) (now : Nat) : TimerManager := { s.tm with now := now }

def start (s : TimerRun) (now timeout : Nat) (event : TimerEvent) : TimerRun :=
  { tm := ((s.clock now).startTimer timeout event).1
    history := .started ((s.clock now).newEntry timeout event) :: s.history }

def cancel (s : TimerRun) (timerId : UInt64) : TimerRun :=
  { tm := s.tm.cancelTimer timerId, history := .cancelled timerId :: s.history }

/-- One iteration of `thread_func` with this entry at the top of the heap. It
waits when the entry has not expired. -/
def iterate (s : TimerRun) (now : Nat) (top : TimerEntry) : TimerRun :=
  if top.expiry ≤ now then
    match (s.clock now).popEntry top with
    | (tm, some _) => { tm := tm, history := .fired top now :: s.history }
    | (tm, none) => { tm := tm, history := s.history }
  else { s with tm := s.clock now }

end TimerRun

/-- A call, or an iteration of the timer thread, which has no entry to look at
when the heap is empty. The clock need not go forward, so a timeout below zero
is a start at an earlier reading. -/
inductive TimerCall where
  | start (now timeout : Nat) (event : TimerEvent)
  | cancel (timerId : UInt64)
  | iterate (now : Nat) (top : Option TimerEntry)

/-- Runs without a stop. -/
def timerRuns : System TimerRun TimerCall where
  init s := s = {}
  step s call s' :=
    match call with
    | .start now timeout event => s' = s.start now timeout event
    | .cancel timerId => s' = s.cancel timerId
    | .iterate now (some top) => s.tm.IsTop top ∧ s' = s.iterate now top
    | .iterate _ none => s.tm.heap = [] ∧ s' = s

namespace TimerRun

/-- No timer is started at the last value of the id counter, and no id is
cancelled that is still to be issued. -/
def Orderly (s : TimerRun) : TimerCall → Prop
  | .start .. => s.tm.HasFreshId
  | .cancel timerId => timerId ≤ s.tm.nextId
  | .iterate .. => True

/-- Neither the heap nor the marks have forgotten anything. -/
structure Tracks (s : TimerRun) : Prop where
  heap_ids : (s.tm.heap.map (·.timerId)).Nodup
  start_ids : ((starts s.history).map (·.timerId)).Nodup
  issued : ∀ entry ∈ starts s.history, entry.timerId ≤ s.tm.nextId
  once : ∀ entry, (fires s.history).count entry + s.tm.heap.count entry ≤
    (starts s.history).count entry
  kept : ∀ entry ∈ starts s.history,
    entry ∈ s.tm.heap ∨ entry ∈ fires s.history ∨ CancelledSince s.history entry
  marks_issued : s.tm.MarksIssued
  /-- No mark was there before its timer. -/
  called : ∀ entry ∈ starts s.history,
    entry.timerId ∈ s.tm.cancelled → CancelledSince s.history entry
  /-- A mark stays until the entry is popped, and its id does not come back. -/
  marked : ∀ id, .cancelled id ∈ s.history →
    id ∈ s.tm.cancelled ∨ id ≤ s.tm.nextId ∧ id ∉ s.tm.heap.map (·.timerId)

variable {s : TimerRun} {top : TimerEntry}

section Reachable

variable {guard : TimerRun → TimerCall → Prop}

theorem start_reachable (h : timerRuns.Reachable guard s) (now timeout : Nat)
    (event : TimerEvent) (hguard : guard s (.start now timeout event)) :
    timerRuns.Reachable guard (s.start now timeout event) :=
  h.step hguard rfl

theorem cancel_reachable (h : timerRuns.Reachable guard s) (timerId : UInt64)
    (hguard : guard s (.cancel timerId)) :
    timerRuns.Reachable guard (s.cancel timerId) :=
  h.step hguard rfl

theorem iterate_reachable (h : timerRuns.Reachable guard s) (now : Nat) (top : TimerEntry)
    (hguard : guard s (.iterate now (some top))) (htop : s.tm.IsTop top) :
    timerRuns.Reachable guard (s.iterate now top) :=
  h.step hguard ⟨htop, rfl⟩

end Reachable

theorem Tracks.mem_starts (h : Tracks s) {entry : TimerEntry} (hentry : entry ∈ s.tm.heap) :
    entry ∈ starts s.history := by
  have hcount : 0 < s.tm.heap.count entry := List.count_pos_iff.mpr hentry
  have honce := h.once entry
  exact List.count_pos_iff.mp (by omega)

theorem Tracks.heap_issued (h : Tracks s) :
    ∀ id ∈ s.tm.heap.map (·.timerId), id ≤ s.tm.nextId := by
  intro id hid
  obtain ⟨entry, hentry, rfl⟩ := List.mem_map.mp hid
  exact h.issued entry (h.mem_starts hentry)

theorem Tracks.initial : Tracks {} where
  heap_ids := .nil
  start_ids := .nil
  issued := by simp [starts]
  once := by simp [starts, fires]
  kept := by simp [starts]
  marks_issued := by simp [MarksIssued]
  called := by simp
  marked := by simp

theorem Tracks.start (h : Tracks s) (hfresh : s.tm.HasFreshId) (now timeout : Nat)
    (event : TimerEvent) : Tracks (s.start now timeout event) := by
  have hlt : s.tm.nextId < s.tm.nextId + 1 := hfresh.lt_add_one
  have hnew : ∀ id ≤ s.tm.nextId, id ≠ s.tm.nextId + 1 :=
    fun id hid => UInt64.ne_of_lt (UInt64.lt_of_le_of_lt hid hlt)
  constructor
  · simp only [TimerRun.start, startTimer_heap, List.map_cons, List.nodup_cons]
    exact ⟨fun hid => hnew _ (h.heap_issued _ hid) rfl, h.heap_ids⟩
  · simp only [TimerRun.start, starts_started, List.map_cons, List.nodup_cons]
    refine ⟨fun hid => ?_, h.start_ids⟩
    obtain ⟨entry, hentry, hid⟩ := List.mem_map.mp hid
    exact hnew _ (h.issued entry hentry) hid
  · intro entry hentry
    rw [TimerRun.start, starts_started] at hentry
    rcases List.mem_cons.mp hentry with rfl | hentry
    · exact UInt64.le_refl _
    · exact UInt64.le_of_lt (UInt64.lt_of_le_of_lt (h.issued entry hentry) hlt)
  · intro entry
    have honce := h.once entry
    simp only [TimerRun.start, starts_started, fires_started, startTimer_heap, List.count_cons]
    rw [← Nat.add_assoc]
    exact Nat.add_le_add_right honce _
  · intro entry hentry
    rw [TimerRun.start, starts_started] at hentry
    rcases List.mem_cons.mp hentry with rfl | hentry
    · exact .inl List.mem_cons_self
    · exact (left_cons _ (h.kept entry hentry)).imp_left (List.mem_cons_of_mem _)
  · exact @MarksIssued.startTimer (s.clock now) h.marks_issued hfresh timeout event
  · intro entry hentry hmark
    rw [TimerRun.start, starts_started] at hentry
    rcases List.mem_cons.mp hentry with rfl | hentry
    · -- the new id carries no mark
      exact absurd rfl (hnew _ (h.marks_issued _ hmark))
    · exact (h.called entry hentry hmark).cons _
  · intro id hid
    have hid : .cancelled id ∈ s.history := by simpa [TimerRun.start] using hid
    rcases h.marked id hid with hmark | ⟨hle, hgone⟩
    · exact .inl hmark
    · refine .inr ⟨UInt64.le_of_lt (UInt64.lt_of_le_of_lt hle hlt), fun hin => ?_⟩
      rcases List.mem_cons.mp hin with rfl | hin
      · exact hnew _ hle rfl
      · exact hgone hin

theorem Tracks.cancel (h : Tracks s) {timerId : UInt64} (hissued : timerId ≤ s.tm.nextId) :
    Tracks (s.cancel timerId) := by
  constructor
  · exact h.heap_ids
  · simpa only [TimerRun.cancel, starts_cancelled] using h.start_ids
  · simpa only [TimerRun.cancel, starts_cancelled, cancelTimer] using h.issued
  · simpa only [TimerRun.cancel, starts_cancelled, fires_cancelled, cancelTimer] using h.once
  · intro entry hentry
    rw [TimerRun.cancel, starts_cancelled] at hentry
    exact left_cons _ (h.kept entry hentry)
  · exact h.marks_issued.cancelTimer hissued
  · intro entry hentry hmark
    rw [TimerRun.cancel, starts_cancelled] at hentry
    rcases Finset.mem_insert.mp hmark with rfl | hmark
    · exact cancelledSince_cancelled hentry
    · exact (h.called entry hentry hmark).cons _
  · intro id hid
    rcases List.mem_cons.mp hid with heq | hid
    · obtain rfl : id = timerId := TimerAct.cancelled.inj heq
      exact .inl (Finset.mem_insert_self ..)
    · rcases h.marked id hid with hmark | hgone
      · exact .inl (Finset.mem_insert_of_mem hmark)
      · exact .inr hgone

/-! ## One iteration of the thread -/

/-- The heap without an entry that it has popped. -/
def popped (s : TimerRun) (now : Nat) (top : TimerEntry) : TimerManager :=
  { s.clock now with heap := s.tm.heap.erase top }

theorem iterate_waits {now : Nat} (hdue : now < top.expiry) :
    s.iterate now top = { s with tm := s.clock now } := by
  simp [iterate, Nat.not_le.mpr hdue]

theorem iterate_drops {now : Nat} (hdue : top.expiry ≤ now)
    (hmark : top.timerId ∈ s.tm.cancelled) :
    s.iterate now top =
      { tm := { s.popped now top with cancelled := s.tm.cancelled.erase top.timerId }
        history := s.history } := by
  simp [iterate, popEntry, hdue, clock, hmark, popped]

theorem iterate_fires {now : Nat} (hdue : top.expiry ≤ now)
    (hmark : top.timerId ∉ s.tm.cancelled) :
    s.iterate now top = { tm := s.popped now top, history := .fired top now :: s.history } := by
  simp [iterate, popEntry, hdue, clock, hmark, popped]

theorem Tracks.wait (h : Tracks s) (now : Nat) : Tracks { s with tm := s.clock now } where
  heap_ids := h.heap_ids
  start_ids := h.start_ids
  issued := h.issued
  once := h.once
  kept := h.kept
  marks_issued := h.marks_issued
  called := h.called
  marked := h.marked

/-- No other entry of the heap has the id of the one popped. -/
theorem Tracks.popped_ids (h : Tracks s) (htop : top ∈ s.tm.heap) :
    (top.timerId :: (s.tm.heap.erase top).map (·.timerId)).Nodup := by
  have hperm := (List.perm_cons_erase htop).map (·.timerId)
  exact hperm.nodup_iff.mp h.heap_ids

/-- An entry of the heap that carries no mark was never cancelled. -/
theorem Tracks.not_cancelled (h : Tracks s) (htop : top ∈ s.tm.heap)
    (hmark : top.timerId ∉ s.tm.cancelled) : .cancelled top.timerId ∉ s.history := by
  intro hcancelled
  rcases h.marked _ hcancelled with hin | ⟨-, hgone⟩
  · exact hmark hin
  · exact hgone (List.mem_map_of_mem htop)

theorem Tracks.drop (h : Tracks s) (now : Nat) (htop : top ∈ s.tm.heap)
    (hmark : top.timerId ∈ s.tm.cancelled) :
    Tracks
      { tm := { s.popped now top with cancelled := s.tm.cancelled.erase top.timerId }
        history := s.history } := by
  have hids := h.popped_ids htop
  constructor
  · exact hids.of_cons
  · exact h.start_ids
  · exact h.issued
  · intro entry
    have hsub := (List.erase_sublist (a := top) (l := s.tm.heap)).count_le entry
    exact le_trans (Nat.add_le_add_left hsub _) (h.once entry)
  · intro entry hentry
    by_cases heq : entry = top
    · subst heq
      exact .inr (.inr (h.called _ hentry hmark))
    · exact (h.kept entry hentry).imp_left (List.mem_erase_of_ne heq).mpr
  · exact fun id hid => h.marks_issued id (Finset.mem_of_mem_erase hid)
  · exact fun entry hentry hid => h.called entry hentry (Finset.mem_of_mem_erase hid)
  · intro id hid
    by_cases heq : id = top.timerId
    · subst heq
      exact .inr ⟨h.issued top (h.mem_starts htop), (List.nodup_cons.mp hids).1⟩
    · rcases h.marked id hid with hin | ⟨hle, hgone⟩
      · exact .inl (Finset.mem_erase.mpr ⟨heq, hin⟩)
      · refine .inr ⟨hle, fun hin => hgone ?_⟩
        exact List.map_subset _ List.erase_subset hin

theorem Tracks.fire (h : Tracks s) (now : Nat) (htop : top ∈ s.tm.heap) :
    Tracks { tm := s.popped now top, history := .fired top now :: s.history } := by
  constructor
  · exact (h.popped_ids htop).of_cons
  · exact h.start_ids
  · exact h.issued
  · intro entry
    have honce := h.once entry
    have hperm := (List.perm_cons_erase htop).count_eq entry
    simp only [popped, starts_fired, fires_fired, List.count_cons] at hperm ⊢
    omega
  · intro entry hentry
    by_cases heq : entry = top
    · subst heq
      exact .inr (.inl List.mem_cons_self)
    · exact (left_cons _ (h.kept entry hentry)).imp_left (List.mem_erase_of_ne heq).mpr
  · exact h.marks_issued
  · exact fun entry hentry hid => (h.called entry hentry hid).cons _
  · intro id hid
    have hid : .cancelled id ∈ s.history := by simpa using hid
    rcases h.marked id hid with hin | ⟨hle, hgone⟩
    · exact .inl hin
    · refine .inr ⟨hle, fun hin => hgone ?_⟩
      exact List.map_subset _ List.erase_subset hin

/-- What the thread fires is due, was not cancelled, and comes first. -/
theorem Tracks.fires_rightly (h : Tracks s) {now : Nat} (htop : s.tm.IsTop top)
    (hdue : top.expiry ≤ now) (hmark : top.timerId ∉ s.tm.cancelled) :
    FiresRightly top now s.history where
  due := hdue
  not_cancelled := fun hsince => h.not_cancelled htop.1 hmark hsince.mem
  first := by
    intro other hother
    obtain ⟨hstarted, hfired, hcancelled⟩ := hother
    rcases h.kept other hstarted with hin | hgone | hgone
    · exact htop.2 other hin
    · exact absurd hgone hfired
    · exact absurd hgone hcancelled

/-! ## Whole runs -/

theorem Tracks.step (h : Tracks s) (hrightly : Rightly s.history) {call : TimerCall}
    (horderly : s.Orderly call) {s' : TimerRun} (hstep : timerRuns.step s call s') :
    Tracks s' ∧ Rightly s'.history := by
  cases call with
  | start now timeout event =>
      cases hstep
      refine ⟨h.start horderly now timeout event, ?_⟩
      exact hrightly.cons fun _ _ hact => TimerAct.noConfusion hact
  | cancel timerId =>
      cases hstep
      exact ⟨h.cancel horderly, hrightly.cons fun _ _ hact => TimerAct.noConfusion hact⟩
  | iterate now top =>
      cases top with
      | none =>
          obtain ⟨-, rfl⟩ := hstep
          exact ⟨h, hrightly⟩
      | some top =>
          obtain ⟨htop, rfl⟩ := hstep
          by_cases hdue : top.expiry ≤ now
          · by_cases hmark : top.timerId ∈ s.tm.cancelled
            · rw [iterate_drops hdue hmark]
              exact ⟨h.drop now htop.1 hmark, hrightly⟩
            · rw [iterate_fires hdue hmark]
              refine ⟨h.fire now htop.1, hrightly.cons fun entry clock hact => ?_⟩
              cases hact
              exact h.fires_rightly htop hdue hmark
          · rw [iterate_waits (Nat.not_le.mp hdue)]
            exact ⟨h.wait now, hrightly⟩

theorem Tracks.of_reachable (h : timerRuns.Reachable Orderly s) :
    Tracks s ∧ Rightly s.history := by
  refine h.invariant (P := fun s => Tracks s ∧ Rightly s.history) (fun s hs => ?_) ?_
  · cases hs
    exact ⟨.initial, .nil⟩
  · exact fun s call s' hs horderly hstep => hs.1.step hs.2 horderly hstep

end TimerRun

open TimerRun

/-- **The firing discipline**, in every run without a stop that issues no
timer id twice and cancels none ahead. -/
theorem timers_disciplined {s : TimerRun} (h : timerRuns.Reachable Orderly s) :
    Disciplined s.history ∧ ((starts s.history).map (·.timerId)).Nodup := by
  obtain ⟨htracks, hrightly⟩ := Tracks.of_reachable h
  refine ⟨⟨fun entry => ?_, hrightly⟩, htracks.start_ids⟩
  have honce := htracks.once entry
  omega

/-- Of two timers the later one fires first, and the other one is dropped. -/
theorem timers_disciplined_two :
    let event : TimerEvent := { type := .checkpoint }
    let first : TimerEntry := { timerId := 1, expiry := 5, event := event }
    let second : TimerEntry := { timerId := 2, expiry := 4, event := event }
    let history : List TimerAct :=
      [.fired second 4, .cancelled 1, .started second, .started first]
    Disciplined history ∧ ((starts history).map (·.timerId)).Nodup := by
  intro event first second history
  have h₀ : timerRuns.Reachable Orderly {} := .init rfl
  have h₁ := start_reachable h₀ 0 5 event (show 0 + 1 < 2 ^ 64 by decide)
  have h₂ := start_reachable h₁ 1 3 event (show 1 + 1 < 2 ^ 64 by decide)
  have h₃ := cancel_reachable h₂ 1 (show (1 : UInt64) ≤ 2 by decide)
  have h₄ := iterate_reachable h₃ 4 second trivial (by constructor <;> decide)
  have h₅ := iterate_reachable h₄ 5 first trivial (by constructor <;> decide)
  exact timers_disciplined h₅

/-- The id 1 is cancelled before it is issued. The timer that gets it is
dropped when it expires, though nobody has cancelled it since its start, and a
later one fires. -/
theorem timers_undisciplined :
    ¬ ∀ s, timerRuns.Reachable System.free s → Disciplined s.history := by
  intro h
  let event : TimerEvent := { type := .checkpoint }
  let first : TimerEntry := { timerId := 1, expiry := 5, event := event }
  let second : TimerEntry := { timerId := 2, expiry := 10, event := event }
  have h₀ : timerRuns.Reachable System.free {} := .init rfl
  have h₁ := cancel_reachable h₀ 1 trivial
  have h₂ := start_reachable h₁ 0 5 event trivial
  have h₃ := start_reachable h₂ 0 10 event trivial
  have h₄ := iterate_reachable h₃ 5 first trivial (by constructor <;> decide)
  have h₅ := iterate_reachable h₄ 10 second trivial (by constructor <;> decide)
  have hfires := (h _ h₅).rightly second 10
    [.started second, .started first, .cancelled 1] List.suffix_rfl
  have hpending : Pending [.started second, .started first, .cancelled 1] first := by
    refine ⟨?_, ?_, ?_⟩
    · decide
    · decide
    · unfold CancelledSince
      decide
  exact absurd (hfires.first first hpending) (by decide)

end QpskB210.Ltp
