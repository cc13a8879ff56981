import Mathlib.Data.List.Perm.Basic
import QpskB210.Ltp.EngineProgress
import QpskB210.Ltp.SessionLedger

/-!
# LTP — Session table

What holds of the table after every call: its size, where and in which state
its sessions are kept, what its originator sessions look like, and that the
counters of begun and ended sessions account for every session in it.
-/

namespace QpskB210.Ltp

open QpskB210.Lib

namespace LtpEngine

/-- A session as `start_session` keeps it. -/
structure OwnBlock (e : LtpEngine) (key : SessionKey) (session : LtpSession) : Prop where
  red : session.isRed = true
  own : key.engineId = e.config.localEngineId
  numbered : 1 ≤ session.sessionNumber ∧ session.sessionNumber ≤ e.sessionCounter
  total : session.totalDataLength.toNat = session.clientData.length

/-- The session table and the counters agree. -/
structure TableInv (e : LtpEngine) : Prop where
  size : e.sessionCount ≤ e.config.maxConcurrentSessions.toNat
  stored : e.WellStored
  originators : ∀ key session, e.sessions.lookup key = some session →
    session.role = .originator → e.OwnBlock key session
  conserved : e.diagnostics.sessionsOriginated + e.diagnostics.sessionsReceived =
    e.diagnostics.sessionsCompleted + e.diagnostics.sessionsCancelled +
      UInt64.ofNat e.sessionCount

/-- Data comes from other engines. -/
def RemoteData (e : LtpEngine) (c : Call) : Prop :=
  ∀ seg, c = .receiveSegment seg → SegType.isData seg.segmentType = true →
    seg.engineId ≠ e.config.localEngineId

/-- ... and the session counter is not at its last value when a session is
started. -/
structure Remote (e : LtpEngine) (c : Call) : Prop where
  data : e.RemoteData c
  counter : ∀ data reliable, c = .startSession data reliable → e.sessionCounter.toNat + 1 < 2 ^ 64

/-! ## Counting the sessions -/

variable {e e' : LtpEngine} {key : SessionKey} {session : LtpSession}

/-- The number of sessions under other keys. -/
def otherSessions (e : LtpEngine) (key : SessionKey) : Nat := (e.sessions.erase key).keys.length

theorem sessionCount_eq (e : LtpEngine) (key : SessionKey) :
    e.sessionCount = e.otherSessions key + if (e.sessions.lookup key).isSome then 1 else 0 := by
  rw [otherSessions, AList.keys_erase, sessionCount]
  by_cases hmem : key ∈ e.sessions
  · have hpos := List.length_pos_of_mem (AList.mem_keys.mp hmem)
    rw [if_pos (AList.lookup_isSome.mpr hmem), List.length_erase_of_mem (AList.mem_keys.mp hmem)]
    omega
  · rw [if_neg fun h => hmem (AList.lookup_isSome.mp h),
      List.erase_of_not_mem fun h => hmem (AList.mem_keys.mpr h), Nat.add_zero]

theorem otherSessions_eq (h : ∀ k, k ≠ key → e'.sessions.lookup k = e.sessions.lookup k) :
    e'.otherSessions key = e.otherSessions key := by
  apply List.Perm.length_eq
  apply (List.perm_ext_iff_of_nodup (AList.keys_nodup _) (AList.keys_nodup _)).mpr
  intro k
  rw [← AList.mem_keys, ← AList.mem_keys, AList.mem_erase, AList.mem_erase]
  apply and_congr_right
  intro hne
  rw [← AList.lookup_isSome, ← AList.lookup_isSome, h k hne]

/-- What the counters owe for the other sessions is their number. -/
theorem conserved_iff (e : LtpEngine) (key : SessionKey) :
    (e.diagnostics.sessionsOriginated + e.diagnostics.sessionsReceived =
      e.diagnostics.sessionsCompleted + e.diagnostics.sessionsCancelled +
        UInt64.ofNat e.sessionCount) ↔ e.owed key = UInt64.ofNat (e.otherSessions key) := by
  have hcount : UInt64.ofNat e.sessionCount =
      UInt64.ofNat (e.otherSessions key) + present (e.sessions.lookup key) := by
    rw [e.sessionCount_eq key, UInt64.ofNat_add, present]
    split <;> rfl
  rw [hcount, owed, LtpDiagnostics.balance]
  constructor <;> intro h <;> grind

/-! ## Preservation -/

/-- ... and the sessions under the engine's own id are its originators. -/
structure LocalTable (e : LtpEngine) : Prop extends e.TableInv where
  mine : ∀ key session, e.sessions.lookup key = some session →
    key.engineId = e.config.localEngineId → session.role = .originator

theorem toNat_next (h : e.sessionCounter.toNat + 1 < 2 ^ 64) :
    (e.sessionCounter + 1).toNat = e.sessionCounter.toNat + 1 :=
  toNat_add_of_lt h

/-- No session is under the key that `start_session` takes next. -/
theorem LocalTable.free (ht : e.LocalTable) (hcounter : e.sessionCounter.toNat + 1 < 2 ^ 64) :
    e.sessions.lookup (e.localKey (e.sessionCounter + 1)) = none := by
  cases hlookup : e.sessions.lookup (e.localKey (e.sessionCounter + 1)) with
  | none => rfl
  | some session =>
      have hown := ht.originators _ _ hlookup (ht.mine _ _ hlookup rfl)
      have hnumber : session.sessionNumber = e.sessionCounter + 1 :=
        (ht.stored _ _ hlookup).sessionNumber
      have hle := UInt64.le_iff_toNat_le.mp hown.numbered.2
      rw [hnumber, toNat_next hcounter] at hle
      omega

/-- An originator session keeps its block, and its number stays in range. -/
theorem OwnBlock.succeeds {session' : LtpSession} {data : Prop} (h : e.OwnBlock key session)
    (hs : Succeeds session session' data) (hdata : ¬ data)
    (hstored : Stored key session) (hstored' : Stored key session')
    (hconfig : e'.config = e.config) (hcounter : e.sessionCounter ≤ e'.sessionCounter) :
    e'.OwnBlock key session' := by
  obtain ⟨hbytes, htotal⟩ := hs.block.resolve_right hdata
  have hnumber : session'.sessionNumber = session.sessionNumber :=
    hstored'.sessionNumber.trans hstored.sessionNumber.symm
  refine ⟨hs.isRed.trans h.red, h.own.trans (by rw [hconfig]), ?_, by rw [htotal, hbytes, h.total]⟩
  rw [hnumber]
  exact ⟨h.numbered.1, UInt64.le_trans h.numbered.2 hcounter⟩

theorem ownBlock_started {data : Block} {cpSerial : UInt64}
    (hconfig : e'.config = e.config) (hcounter : e'.sessionCounter = e.sessionCounter + 1)
    (hnext : e.sessionCounter.toNat + 1 < 2 ^ 64) :
    e'.OwnBlock (e.localKey (e.sessionCounter + 1))
      { e.originatorSession (e.sessionCounter + 1) data.bytes true with
        checkpointSerialCounter := cpSerial } where
  red := rfl
  own := by rw [hconfig]; rfl
  numbered := by
    refine ⟨?_, ?_⟩
    · apply UInt64.le_iff_toNat_le.mpr
      show (1 : UInt64).toNat ≤ (e.sessionCounter + 1).toNat
      rw [toNat_next hnext]
      exact Nat.le_add_left _ _
    · rw [hcounter]
      exact UInt64.le_refl _
  total := data.toNat_size

theorem counter_le (hw : e.WellStored) {c : Call} (hg : e.Remote c) (h : e.call c = .ok e') :
    e.sessionCounter ≤ e'.sessionCounter := by
  rw [call_sessionCounter hw h]
  cases c with
  | startSession data reliable =>
      rw [Call.counter]
      split
      · exact UInt64.le_refl _
      · rw [UInt64.le_iff_toNat_le, toNat_next (hg.counter _ _ rfl)]
        exact Nat.le_succ _
  | _ => exact UInt64.le_refl _

/-- The session that a call leaves under its key is as it should be. -/
theorem LocalTable.held (ht : e.LocalTable) {c : Call} (hg : e.Remote c) (h : e.call c = .ok e')
    (hlookup : e'.sessions.lookup (c.key e) = some session) :
    (session.role = .originator → e'.OwnBlock (c.key e) session) ∧
      ((c.key e).engineId = e.config.localEngineId → session.role = .originator) := by
  have hconfined := call_confined ht.stored h
  cases call_holds ht.stored h hlookup with
  | same before hbefore hs =>
      have hrole := hs.role
      refine ⟨fun horiginator => ?_, fun hmine => hrole.trans (ht.mine _ _ hbefore hmine)⟩
      have hown := ht.originators _ _ hbefore (hrole.symm.trans horiginator)
      refine hown.succeeds hs ?_ (ht.stored _ _ hbefore) (ht.stored.call h _ _ hlookup)
        hconfined.config (counter_le ht.stored hg h)
      -- data segments are addressed to keys that are not the engine's own
      intro hdata
      obtain ⟨seg, rfl, htype⟩ := hdata
      rw [Call.key, addressed_data htype] at hown
      exact hg.data seg rfl htype hown.own
  | received seg hc htype hfree hrole =>
      subst hc
      refine ⟨fun horiginator => ?_, fun hmine => ?_⟩
      · rw [hrole] at horiginator
        cases horiginator
      · rw [Call.key, addressed_data htype] at hmine
        exact absurd hmine (hg.data seg rfl htype)
  | started data cpSerial hc hfree hs =>
      subst hc hs
      have hcounter := call_sessionCounter ht.stored h
      rw [Call.counter, if_neg (by simp [hfree])] at hcounter
      exact ⟨fun _ => ownBlock_started hconfined.config hcounter (hg.counter _ _ rfl),
        fun _ => rfl⟩

theorem LocalTable.sessionCount_le (ht : e.LocalTable) {c : Call} (h : e.call c = .ok e') :
    e'.sessionCount ≤ e'.config.maxConcurrentSessions.toNat := by
  have hconfined := call_confined ht.stored h
  have hsize := ht.size
  rw [hconfined.config, e'.sessionCount_eq (c.key e), otherSessions_eq hconfined.frame]
  rw [e.sessionCount_eq (c.key e)] at hsize
  cases hlookup : e'.sessions.lookup (c.key e) with
  | none =>
      rw [if_neg (by decide)]
      omega
  | some session =>
      rw [if_pos (by rfl)]
      have hfull : e.isFull = false →
          e.otherSessions (c.key e) + 1 ≤ e.config.maxConcurrentSessions.toNat := by
        intro hfree
        have hlt : ¬ e.config.maxConcurrentSessions.toNat ≤ e.sessionCount := by
          simpa [isFull] using hfree
        rw [e.sessionCount_eq (c.key e)] at hlt
        omega
      cases call_holds ht.stored h hlookup with
      | same before hbefore hs =>
          rw [hbefore] at hsize
          exact hsize
      | received _ _ _ hfree _ => exact hfull hfree
      | started _ _ _ hfree _ => exact hfull hfree

theorem LocalTable.call (ht : e.LocalTable) {c : Call} (hg : e.Remote c)
    (h : e.call c = .ok e') : e'.LocalTable where
  size := ht.sessionCount_le h
  stored := ht.stored.call h
  originators := by
    intro k session hlookup hrole
    by_cases hk : k = c.key e
    · subst hk
      exact (ht.held hg h hlookup).1 hrole
    · have hconfined := call_confined ht.stored h
      rw [hconfined.frame k hk] at hlookup
      have hown := ht.originators k session hlookup hrole
      exact ⟨hown.red, hown.own.trans (by rw [hconfined.config]),
        ⟨hown.numbered.1, UInt64.le_trans hown.numbered.2 (counter_le ht.stored hg h)⟩, hown.total⟩
  conserved := by
    apply (e'.conserved_iff (c.key e)).mpr
    rw [booked_call ht.stored h, otherSessions_eq (call_confined ht.stored h).frame]
    · exact (e.conserved_iff (c.key e)).mp ht.conserved
    · intro data reliable hc
      subst hc
      exact ht.free (hg.counter _ _ rfl)
  mine := by
    intro k session hlookup hmine
    have hconfined := call_confined ht.stored h
    rw [hconfined.config] at hmine
    by_cases hk : k = c.key e
    · subst hk
      exact (ht.held hg h hlookup).2 hmine
    · exact ht.mine k session ((hconfined.frame k hk).symm.trans hlookup) hmine

theorem localTable_create (config : LtpEngineConfig) (timerManager : Option TimerManager) :
    (create config timerManager).LocalTable where
  size := Nat.zero_le _
  stored := wellStored_create _ _
  originators := nofun
  conserved := rfl
  mine := nofun

/-- **The session table.** After every call of every run in which data comes
from other engines and the session counter does not wrap, the table keeps its
size and its sessions, and every session begun is accounted for. -/
theorem session_table (config : LtpEngineConfig) (e : LtpEngine)
    (h : (calls config).Reachable Remote e) : e.TableInv := by
  have htable : e.LocalTable :=
    h.invariant (fun _ ⟨_, hcreate⟩ => hcreate ▸ localTable_create _ _)
      fun _ _ _ ht hg hstep => ht.call hg hstep
  exact htable.toTableInv

theorem length_sentBytes : ([7, 8] : List UInt8).length < 2 ^ 57 := by decide

/-- A red block at the engine's own end, and data of a peer at the other. -/
def twoSessions : List Call :=
  [.startSession ⟨[7, 8], length_sentBytes⟩ true,
    .receiveSegment
      { segmentType := SegType.redData, engineId := 2, sessionNumber := 1
        content := .data { clientServiceId := 1, offset := 0, length := 1, data := [9] } }]

/-- `Remote`, decided. -/
def remoteCheck (e : LtpEngine) : Call → Bool
  | .receiveSegment seg =>
    !SegType.isData seg.segmentType || seg.engineId ≠ e.config.localEngineId
  | .startSession _ _ => e.sessionCounter.toNat + 1 < 2 ^ 64
  | _ => true

theorem remote_of_check (e : LtpEngine) (c : Call) (h : e.remoteCheck c = true) : e.Remote c := by
  constructor
  · intro seg hc htype
    subst hc
    simpa [remoteCheck, htype] using h
  · intro data reliable hc
    subst hc
    simpa [remoteCheck] using h

theorem session_table_twoSessions : ∃ e : LtpEngine, e.TableInv ∧ e.sessionCount = 2 := by
  have hcheck : ((create {} none).callEach remoteCheck twoSessions).map sessionCount = some 2 := by
    decide +kernel
  obtain ⟨e, hrun, hcount⟩ := Option.map_eq_some_iff.mp hcheck
  exact ⟨e, session_table {} e (reachable_of_callEach remote_of_check (.init ⟨none, rfl⟩) hrun),
    hcount⟩

/-! ## When the counter wraps -/

theorem remoteData_startSession (e : LtpEngine) (data : Block) (reliable : Bool) :
    e.RemoteData (.startSession data reliable) := by
  intro seg hc
  cases hc

/-- Empty green blocks move the counter to any value, and leave the table
empty. -/
theorem exists_counter (n : Nat) : ∃ e, (calls {}).Reachable RemoteData e ∧ e.config = {} ∧
    e.sessions.keys = [] ∧ e.sessionCounter = UInt64.ofNat n := by
  induction n with
  | zero => exact ⟨create {} none, .init ⟨none, rfl⟩, rfl, rfl, rfl⟩
  | succ n ih =>
      obtain ⟨e, hreach, hconfig, hempty, hcounter⟩ := ih
      obtain ⟨e', segments, cpSerial, hcall, heffect⟩ :=
        @startSession_of_empty e hempty (by rw [hconfig]; decide) (by rw [hconfig]; decide)
          emptyBlock false
      have hstep : e.call (.startSession emptyBlock false) = .ok e' :=
        bind_eq_ok.mpr ⟨_, hcall, rfl⟩
      refine ⟨e', hreach.step (remoteData_startSession _ _ _) hstep, heffect.config.trans hconfig,
        keys_of_lookup fun key => ?_, ?_⟩
      · by_cases hk : key = e.localKey (e.sessionCounter + 1)
        · rw [hk]
          exact heffect.lookup
        · exact (heffect.frame key hk).trans (lookup_of_keys hempty key)
      · rw [heffect.sessionCounter, hcounter, UInt64.ofNat_add]
        rfl

/-- After `2 ^ 64 - 1` sessions the next one gets number 0. -/
theorem session_table_wraps : ¬ ∀ (config : LtpEngineConfig) (e : LtpEngine),
    (calls config).Reachable RemoteData e → e.TableInv := by
  intro h
  obtain ⟨e, hreach, hconfig, hempty, hcounter⟩ := exists_counter (2 ^ 64 - 1)
  obtain ⟨e', segments, cpSerial, hcall, heffect⟩ :=
    @startSession_of_empty e hempty (by rw [hconfig]; decide) (by rw [hconfig]; decide)
      emptyBlock true
  have hstep : e.call (.startSession emptyBlock true) = .ok e' := bind_eq_ok.mpr ⟨_, hcall, rfl⟩
  have htable := h {} e' (hreach.step (remoteData_startSession _ _ _) hstep)
  have hown := htable.originators _ _ heffect.lookup rfl
  have hnumber : e.sessionCounter + 1 = 0 := by
    rw [hcounter]
    rfl
  have hle : (1 : UInt64) ≤ e.sessionCounter + 1 := hown.numbered.1
  rw [hnumber] at hle
  exact absurd hle (by decide)

end LtpEngine

end QpskB210.Ltp
