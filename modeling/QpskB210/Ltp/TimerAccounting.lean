import Mathlib.Data.Finset.Card
import Mathlib.Data.List.Perm.Basic
import QpskB210.Ltp.TimerDiscipline

/-!
# LTP — TimerAccounting

`pending_count` and `stop`, over runs in which the thread is started and
stopped again. A ledger keeps the timers that were started and are neither
fired, cancelled nor discarded by a stop. The manager agrees with it as long as
every cancellation mark is that of one entry of the heap (`Accounts`): a mark
on any other id stays, and counts.
-/

namespace QpskB210.Ltp

open Lib

/-- What has happened to the timers. -/
inductive LedgerAct where
  | started (entry : TimerEntry)
  | cancelled (timerId : UInt64)
  | fired (entry : TimerEntry)
  | stopped
deriving DecidableEq, Repr

namespace LedgerAct

def started? : LedgerAct → Option TimerEntry
  | .started entry => some entry
  | _ => none

def fired? : LedgerAct → Option TimerEntry
  | .fired entry => some entry
  | _ => none

/-- Started and neither fired, cancelled nor discarded by a stop. The latest
act comes first. -/
def pending : List LedgerAct → List TimerEntry
  | [] => []
  | .started entry :: ledger => entry :: pending ledger
  | .cancelled timerId :: ledger => (pending ledger).filter (·.timerId ≠ timerId)
  | .fired entry :: ledger => (pending ledger).erase entry
  | .stopped :: _ => []

/-- How often this timer was started. -/
def startCount (ledger : List LedgerAct) (entry : TimerEntry) : Nat :=
  (ledger.filterMap started?).count entry

def fireCount (ledger : List LedgerAct) (entry : TimerEntry) : Nat :=
  (ledger.filterMap fired?).count entry

end LedgerAct

namespace TimerManager

/-- `pending_count`. -/
def pendingCount (tm : TimerManager) : Nat :=
  if tm.heap.length ≤ tm.cancelled.card then 0 else tm.heap.length - tm.cancelled.card

/-- How many entries of the heap have this id. -/
def idCount (tm : TimerManager) (timerId : UInt64) : Nat :=
  (tm.heap.map (·.timerId)).count timerId

/-- The entries of the heap that carry no mark. -/
def unmarked (tm : TimerManager) : List TimerEntry := tm.heap.filter (·.timerId ∉ tm.cancelled)

end TimerManager

/-- A timer manager with its thread. -/
structure TimerService where
  tm : TimerManager := {}
  running : Bool := false
  ledger : List LedgerAct := []

inductive ServiceCall where
  | run
  | stop
  | start (now timeout : Nat) (event : TimerEvent)
  | cancel (timerId : UInt64)
  /-- An iteration of the thread with this entry at the top of the heap. -/
  | iterate (now : Nat) (top : TimerEntry)

namespace TimerService

/-- `run`. -/
def run (s : TimerService) : TimerService := { s with running := true }

/-- `stop`, which returns at once if the thread does not run. -/
def stop (s : TimerService) : TimerService :=
  { s with running := false, ledger := .stopped :: s.ledger }

/-- `start_timer`. -/
def start (s : TimerService) (now timeout : Nat) (event : TimerEvent) : TimerService :=
  let tm : TimerManager := { s.tm with now := now }
  { s with
    tm := (tm.startTimer timeout event).1
    ledger := .started (tm.newEntry timeout event) :: s.ledger }

/-- `cancel_timer`. -/
def cancel (s : TimerService) (timerId : UInt64) : TimerService :=
  { s with tm := s.tm.cancelTimer timerId, ledger := .cancelled timerId :: s.ledger }

/-- One iteration of `thread_func`. -/
def iterate (s : TimerService) (now : Nat) (top : TimerEntry) : TimerService :=
  let tm : TimerManager := { s.tm with now := now }
  if top.expiry ≤ now then
    match tm.popEntry top with
    | (tm, some _) => { s with tm := tm, ledger := .fired top :: s.ledger }
    | (tm, none) => { s with tm := tm }
  else { s with tm := tm }

end TimerService

/-- Any calls, and the thread while it runs. -/
def timerService : System TimerService ServiceCall where
  init s := s = {}
  step s call s' :=
    match call with
    | .run => s' = s.run
    | .stop => s' = s.stop
    | .start now timeout event => s' = s.start now timeout event
    | .cancel timerId => s' = s.cancel timerId
    | .iterate now top => s.running = true ∧ s.tm.IsTop top ∧ s' = s.iterate now top

open LedgerAct

namespace TimerService

/-! ## What is accounted for -/

/-- A new id carries no mark, a cancelled id is that of one entry of the heap,
and nothing is pending at a stop. -/
def Sound (s : TimerService) : ServiceCall → Prop
  | .start .. => s.tm.nextId + 1 ∉ s.tm.cancelled
  | .cancel timerId => s.tm.idCount timerId = 1
  | .stop => ∀ entry ∈ s.tm.heap, entry.timerId ∈ s.tm.cancelled
  | _ => True

/-- The count, the cancellations and the fires of the manager are those of the
ledger. -/
structure Accounted (s : TimerService) : Prop where
  pendingCount : s.tm.pendingCount = (pending s.ledger).length
  /-- To cancel what is not pending changes nothing at all. -/
  cancel : ∀ timerId, timerId ∉ (pending s.ledger).map (·.timerId) →
    s.Sound (.cancel timerId) → s.tm.cancelTimer timerId = s.tm
  /-- After a stop no timer fires more often than it was started since. -/
  stopped : ∀ later earlier, s.ledger = later ++ .stopped :: earlier →
    ∀ entry, fireCount later entry ≤ startCount later entry

/-- The manager and the ledger agree. -/
structure Accounts (s : TimerService) : Prop where
  marks : ∀ timerId ∈ s.tm.cancelled, s.tm.idCount timerId = 1
  ledger : (pending s.ledger).Perm s.tm.unmarked
  stopped : ∀ later earlier, s.ledger = later ++ .stopped :: earlier → ∀ entry,
    fireCount later entry + (pending s.ledger).count entry ≤ startCount later entry

end TimerService

/-! ## The heap -/

namespace TimerManager

variable {tm : TimerManager} {top : TimerEntry} {timerId : UInt64}

theorem idCount_pop (htop : top ∈ tm.heap) (timerId : UInt64) :
    tm.idCount timerId = ((tm.heap.erase top).map (·.timerId)).count timerId +
      if top.timerId = timerId then 1 else 0 := by
  have hperm := ((List.perm_cons_erase htop).map (·.timerId)).count_eq timerId
  rw [idCount, hperm, List.map_cons, List.count_cons]
  simp

/-- As many marks as entries that carry one. -/
theorem length_heap (hmarks : ∀ timerId ∈ tm.cancelled, tm.idCount timerId = 1) :
    tm.heap.length = tm.unmarked.length + tm.cancelled.card := by
  let marked := (tm.heap.filter (·.timerId ∈ tm.cancelled)).map (·.timerId)
  have hcount (timerId : UInt64) (hid : timerId ∈ tm.cancelled) : marked.count timerId = 1 := by
    rw [← hmarks timerId hid, idCount]
    have hfilter : marked = (tm.heap.map (·.timerId)).filter (· ∈ tm.cancelled) := by
      rw [List.filter_map]
      rfl
    rw [hfilter, List.count_filter (by simpa using hid)]
  have hmem (timerId : UInt64) : timerId ∈ marked ↔ timerId ∈ tm.cancelled := by
    constructor
    · intro hid
      obtain ⟨entry, hentry, rfl⟩ := List.mem_map.mp hid
      simpa using (List.mem_filter.mp hentry).2
    · intro hid
      exact List.count_pos_iff.mp (by rw [hcount timerId hid]; exact Nat.one_pos)
  have hnodup : marked.Nodup := by
    rw [List.nodup_iff_count_le_one]
    intro timerId
    by_cases hid : timerId ∈ tm.cancelled
    · exact (hcount timerId hid).le
    · rw [List.count_eq_zero_of_not_mem fun h => hid ((hmem timerId).mp h)]
      exact Nat.zero_le 1
  have hset : marked.toFinset = tm.cancelled := by
    ext timerId
    rw [List.mem_toFinset, hmem]
  have hcard : tm.cancelled.card = (tm.heap.filter (·.timerId ∈ tm.cancelled)).length :=
    calc tm.cancelled.card = marked.toFinset.card := by rw [hset]
      _ = marked.length := List.toFinset_card_of_nodup hnodup
      _ = _ := List.length_map _
  have hsplit := List.length_eq_length_filter_add (l := tm.heap) (·.timerId ∉ tm.cancelled)
  simp only [decide_not, Bool.not_not] at hsplit
  rw [hsplit, unmarked, hcard]
  simp

end TimerManager

open TimerManager

namespace TimerService

variable {s : TimerService} {top : TimerEntry}

/-! ## Steps -/

theorem Accounts.accounted (h : s.Accounts) : s.Accounted where
  pendingCount := by
    have hlength := length_heap h.marks
    rw [TimerManager.pendingCount, h.ledger.length_eq]
    split <;> omega
  cancel := by
    intro timerId hnot hid
    -- the entry of this id is in the heap, so it must be a marked one
    have hmark : timerId ∈ s.tm.cancelled := by
      by_contra hunmarked
      have hin : timerId ∈ s.tm.heap.map (·.timerId) := by
        have hone : s.tm.idCount timerId = 1 := hid
        exact List.count_pos_iff.mp (by rw [idCount] at hone; omega)
      obtain ⟨entry, hentry, rfl⟩ := List.mem_map.mp hin
      refine hnot (List.mem_map_of_mem (h.ledger.mem_iff.mpr ?_))
      exact List.mem_filter.mpr ⟨hentry, by simpa using hunmarked⟩
    rw [cancelTimer, Finset.insert_eq_of_mem hmark]
  stopped := by
    intro later earlier hledger entry
    have hcount := h.stopped later earlier hledger entry
    omega

/-- The acts after a stop, when there is one more. -/
theorem stopped_cons {P : List LedgerAct → Prop} {act : LedgerAct} {ledger : List LedgerAct}
    (hold : ∀ later earlier, ledger = later ++ .stopped :: earlier → P (act :: later))
    (hnew : act = .stopped → P []) :
    ∀ later earlier, act :: ledger = later ++ .stopped :: earlier → P later := by
  intro later earlier hledger
  cases later with
  | nil =>
      obtain ⟨hact, -⟩ := List.cons.inj hledger
      exact hnew hact
  | cons head later =>
      obtain ⟨rfl, hrest⟩ := List.cons.inj hledger
      exact hold later earlier hrest

theorem Accounts.initial : Accounts {} where
  marks := by simp
  ledger := List.Perm.refl _
  stopped := by simp

theorem Accounts.run (h : s.Accounts) : s.run.Accounts := ⟨h.marks, h.ledger, h.stopped⟩

theorem Accounts.stop (h : s.Accounts)
    (hmarked : ∀ entry ∈ s.tm.heap, entry.timerId ∈ s.tm.cancelled) : s.stop.Accounts where
  marks := h.marks
  ledger := by
    have hnone : s.tm.unmarked = [] := by
      rw [unmarked, List.filter_eq_nil_iff]
      simpa using hmarked
    show List.Perm [] s.tm.unmarked
    rw [hnone]
  stopped := by
    refine stopped_cons (fun later earlier hledger entry => ?_) fun _ entry => ?_
    · have hcount := h.stopped later earlier hledger entry
      show fireCount later entry + 0 ≤ startCount later entry
      omega
    · exact Nat.le_refl 0

theorem Accounts.start (h : s.Accounts) (hfresh : s.tm.nextId + 1 ∉ s.tm.cancelled)
    (now timeout : Nat) (event : TimerEvent) : (s.start now timeout event).Accounts where
  marks := by
    intro timerId hid
    have hne : s.tm.nextId + 1 ≠ timerId := fun heq => hfresh (heq ▸ hid)
    show ((_ :: s.tm.heap).map (·.timerId)).count timerId = 1
    rw [List.map_cons, List.count_cons_of_ne hne]
    exact h.marks timerId hid
  ledger := by
    show List.Perm (_ :: pending s.ledger) ((_ :: s.tm.heap).filter _)
    have hunmarked : s.tm.nextId + 1 ∉ (s.start now timeout event).tm.cancelled := hfresh
    rw [List.filter_cons_of_pos (by simpa using hunmarked)]
    exact h.ledger.cons _
  stopped := by
    refine stopped_cons (fun later earlier hledger entry => ?_) fun hact => LedgerAct.noConfusion hact
    have hcount := h.stopped later earlier hledger entry
    show fireCount later entry + (_ :: pending s.ledger).count entry ≤
      (_ :: later.filterMap started?).count entry
    rw [List.count_cons, List.count_cons, ← Nat.add_assoc]
    exact Nat.add_le_add_right hcount _

theorem Accounts.cancel (h : s.Accounts) {timerId : UInt64} (hid : s.tm.idCount timerId = 1) :
    (s.cancel timerId).Accounts where
  marks := by
    intro id hmark
    rcases Finset.mem_insert.mp hmark with rfl | hold
    · exact hid
    · exact h.marks id hold
  ledger := by
    have hfilter : (s.cancel timerId).tm.unmarked =
        s.tm.unmarked.filter (·.timerId ≠ timerId) := by
      rw [unmarked, unmarked, List.filter_filter]
      refine List.filter_congr fun entry _ => ?_
      simp [TimerService.cancel, cancelTimer]
    rw [hfilter]
    exact h.ledger.filter _
  stopped := by
    refine stopped_cons (fun later earlier hledger entry => ?_) fun hact => LedgerAct.noConfusion hact
    have hcount := h.stopped later earlier hledger entry
    have hsub := (List.filter_sublist (l := pending s.ledger) (p := (·.timerId ≠ timerId))).count_le
      entry
    show fireCount later entry + ((pending s.ledger).filter _).count entry ≤ startCount later entry
    omega

/-! ## The thread -/

theorem Accounts.clock (h : s.Accounts) (now : Nat) :
    Accounts { s with tm := { s.tm with now := now } } := ⟨h.marks, h.ledger, h.stopped⟩

/-- A marked entry is dropped, with its mark. -/
theorem Accounts.drop (h : s.Accounts) (htop : top ∈ s.tm.heap)
    (hmark : top.timerId ∈ s.tm.cancelled) :
    Accounts { s with
      tm := { s.tm with
        heap := s.tm.heap.erase top, cancelled := s.tm.cancelled.erase top.timerId } } := by
  have hgone : top.timerId ∉ (s.tm.heap.erase top).map (·.timerId) := by
    have hone := h.marks _ hmark
    rw [idCount_pop htop, if_pos rfl] at hone
    exact List.count_eq_zero.mp (by omega)
  refine ⟨?_, ?_, h.stopped⟩
  · intro timerId hid
    obtain ⟨hne, hold⟩ := Finset.mem_erase.mp hid
    have hone := h.marks timerId hold
    rwa [idCount_pop htop, if_neg hne.symm] at hone
  · refine h.ledger.trans ?_
    have hperm := (List.perm_cons_erase htop).filter (·.timerId ∉ s.tm.cancelled)
    rw [List.filter_cons_of_neg (by simpa using hmark)] at hperm
    refine hperm.trans (List.Perm.of_eq (List.filter_congr fun entry hentry => ?_))
    have hne : entry.timerId ≠ top.timerId :=
      fun heq => hgone (heq ▸ List.mem_map_of_mem hentry)
    simp [hne]

/-- A timer that fires is a pending one. -/
theorem Accounts.fire (h : s.Accounts) (htop : top ∈ s.tm.heap)
    (hmark : top.timerId ∉ s.tm.cancelled) :
    Accounts { s with
      tm := { s.tm with heap := s.tm.heap.erase top }, ledger := .fired top :: s.ledger } := by
  have hpending : top ∈ pending s.ledger :=
    h.ledger.mem_iff.mpr (List.mem_filter.mpr ⟨htop, by simpa using hmark⟩)
  refine ⟨?_, ?_, ?_⟩
  · intro timerId hid
    have hone := h.marks timerId hid
    have hne : top.timerId ≠ timerId := fun heq => hmark (heq ▸ hid)
    rwa [idCount_pop htop, if_neg hne] at hone
  · have hperm := (List.perm_cons_erase htop).filter (·.timerId ∉ s.tm.cancelled)
    rw [List.filter_cons_of_pos (by simpa using hmark)] at hperm
    have hrest := (h.ledger.trans hperm).erase top
    rwa [List.erase_cons_head] at hrest
  · refine stopped_cons (fun later earlier hledger entry => ?_) fun hact => LedgerAct.noConfusion hact
    have hcount := h.stopped later earlier hledger entry
    have hsplit := (List.perm_cons_erase hpending).count_eq entry
    show (top :: later.filterMap fired?).count entry + ((pending s.ledger).erase top).count entry ≤
      startCount later entry
    rw [fireCount] at hcount
    rw [List.count_cons] at hsplit ⊢
    omega

theorem Accounts.iterate (h : s.Accounts) (now : Nat) (htop : top ∈ s.tm.heap) :
    (s.iterate now top).Accounts := by
  have hclock := h.clock now
  unfold TimerService.iterate
  dsimp only
  split
  · by_cases hmark : top.timerId ∈ s.tm.cancelled
    · rw [popEntry, if_pos hmark]
      exact hclock.drop htop hmark
    · rw [popEntry, if_neg hmark]
      exact hclock.fire htop hmark
  · exact hclock

/-! ## Runs -/

theorem accounts_of_reachable (h : timerService.Reachable Sound s) : s.Accounts := by
  refine h.invariant (fun s₀ hinit => ?_) fun s call s' hacc hsound hstep => ?_
  · cases hinit
    exact .initial
  · cases call with
    | run =>
        cases hstep
        exact hacc.run
    | stop =>
        cases hstep
        exact hacc.stop hsound
    | start now timeout event =>
        cases hstep
        exact hacc.start hsound now timeout event
    | cancel timerId =>
        cases hstep
        exact hacc.cancel hsound
    | iterate now top =>
        obtain ⟨-, htop, rfl⟩ := hstep
        exact hacc.iterate now htop.1

/-- **Timer accounting**, in every run of sound calls. -/
theorem timers_accounted (h : timerService.Reachable Sound s) : s.Accounted :=
  (accounts_of_reachable h).accounted

section Reachable

variable {guard : TimerService → ServiceCall → Prop}

theorem run_reachable (h : timerService.Reachable guard s) (hguard : guard s .run) :
    timerService.Reachable guard s.run :=
  h.step hguard rfl

theorem stop_reachable (h : timerService.Reachable guard s) (hguard : guard s .stop) :
    timerService.Reachable guard s.stop :=
  h.step hguard rfl

theorem start_reachable (h : timerService.Reachable guard s) (now timeout : Nat)
    (event : TimerEvent) (hguard : guard s (.start now timeout event)) :
    timerService.Reachable guard (s.start now timeout event) :=
  h.step hguard rfl

theorem cancel_reachable (h : timerService.Reachable guard s) (timerId : UInt64)
    (hguard : guard s (.cancel timerId)) : timerService.Reachable guard (s.cancel timerId) :=
  h.step hguard rfl

theorem iterate_reachable (h : timerService.Reachable guard s) (now : Nat) (top : TimerEntry)
    (hguard : guard s (.iterate now top)) (hrunning : s.running = true) (htop : s.tm.IsTop top) :
    timerService.Reachable guard (s.iterate now top) :=
  h.step hguard ⟨hrunning, htop, rfl⟩

end Reachable

/-- A timer is cancelled, the thread stopped and run again, and a second timer
started. -/
theorem timers_accounted_restart :
    ((({} : TimerService).run.start 0 5 ⟨.checkpoint, 0, 0, 0⟩).cancel 1
      |>.stop.run.start 6 5 ⟨.checkpoint, 0, 0, 0⟩).Accounted := by
  have h₀ : timerService.Reachable Sound {} := .init rfl
  have h₁ := run_reachable h₀ trivial
  have h₂ := start_reachable h₁ 0 5 ⟨.checkpoint, 0, 0, 0⟩ (Finset.notMem_empty _)
  have h₃ := cancel_reachable h₂ 1 rfl
  have h₄ := stop_reachable h₃ (by simp [Sound, start, cancel, run, startTimer, cancelTimer])
  have h₅ := run_reachable h₄ trivial
  have h₆ := start_reachable h₅ 6 5 ⟨.checkpoint, 0, 0, 0⟩ (show (2 : UInt64) ∉ {1} by decide)
  exact timers_accounted h₆

/-- The mark on a timer that has fired is counted against the next one. -/
theorem fired_timer_cancelled :
    ¬∀ s, timerService.Reachable System.free s → s.Accounted := by
  intro hevery
  let event : TimerEvent := ⟨.checkpoint, 0, 0, 0⟩
  have h₀ : timerService.Reachable System.free {} := .init rfl
  have h₁ := run_reachable h₀ trivial
  have h₂ := start_reachable h₁ 0 5 event trivial
  have h₃ := iterate_reachable h₂ 5 ⟨1, 5, event⟩ trivial rfl (by constructor <;> decide)
  have h₄ := cancel_reachable h₃ 1 trivial
  have h₅ := start_reachable h₄ 6 5 event trivial
  exact absurd (hevery _ h₅).pendingCount (by decide)

end TimerService

end QpskB210.Ltp
