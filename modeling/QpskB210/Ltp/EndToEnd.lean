import Mathlib.Data.List.Perm.Subperm
import QpskB210.Ltp.AtMostOnce
import QpskB210.Ltp.ClaNetwork

/-!
# LTP — End to end

From the clients of A's ingress server to the clients of B's egress server.
What B's engine delivers are blocks of A's sessions, each session's once; A's
sessions are of messages that clients handed in, one for each; and B's egress
server writes whole frames of what was delivered.
-/

namespace QpskB210.Ltp

open QpskB210.Lib

/-- The session number of an `on_data_arrival` call. -/
def Event.arrivalNumber : Event → Option UInt64
  | .dataArrival key _ => some key.sessionNumber
  | _ => none

/-- The guard: A's session numbers do not wrap, and at B no report is
acknowledged early and no session comes back. -/
def CarefulNet (n : Net) (step : Side × Action) : Prop := NetGuard True n step ∧ NoRevivalAtB n step

section Arrivals

variable {configA configB : LtpEngineConfig} {n : Net}

/-- What B delivered, session by session. -/
theorem exists_starts {trace : List Event} (hsound : NetSound configA configB True n)
    (htrace : ∀ event ∈ trace, event ∈ n.b.engine.trace)
    (hred : ∀ start ∈ n.a.journal.started, start.reliable = true) :
    ∃ starts : List Start, (∀ start ∈ starts, start ∈ n.a.journal.started) ∧
      starts.map Start.data = arrivals trace ∧
      starts.map Start.sessionNumber = trace.filterMap Event.arrivalNumber := by
  induction trace with
  | nil => exact ⟨[], by simp, rfl, rfl⟩
  | cons event trace ih =>
      rw [List.forall_mem_cons] at htrace
      obtain ⟨starts, hmem, hdata, hnumbers⟩ := ih htrace.2
      cases event with
      | dataArrival key data =>
          obtain ⟨-, start, hstart, hnumber, harrived⟩ :=
            hsound.b.events _ htrace.1 trivial trivial
          refine ⟨start :: starts, List.forall_mem_cons.mpr ⟨hstart, hmem⟩, ?_, ?_⟩
          · rw [List.map_cons, hdata, ← harrived (hred start hstart)]
            rfl
          · rw [List.map_cons, hnumbers, hnumber]
            rfl
      | sendSegment bytes => exact ⟨starts, hmem, hdata, hnumbers⟩
      | sessionComplete key sn => exact ⟨starts, hmem, hdata, hnumbers⟩
      | sessionFailure key sn reason => exact ⟨starts, hmem, hdata, hnumbers⟩

/-- A session number arrives as often as the session with it. -/
theorem count_arrivalNumber {trace : List Event} {id : UInt64}
    (hid : ∀ key data, .dataArrival key data ∈ trace → key.engineId = id) (sn : UInt64) :
    (trace.filterMap Event.arrivalNumber).count sn ≤ endings trace ⟨id, sn⟩ := by
  induction trace with
  | nil => exact Nat.zero_le _
  | cons event trace ih =>
      have hrest := ih fun key data hmem => hid key data (List.mem_cons_of_mem _ hmem)
      cases event with
      | dataArrival key data =>
          have hkey := hid key data List.mem_cons_self
          rw [List.filterMap_cons, endings, List.countP_cons, Event.arrivalNumber,
            List.count_cons, ← endings]
          refine Nat.add_le_add hrest ?_
          by_cases hsn : key.sessionNumber = sn
          · have hsame : key = ⟨id, sn⟩ := by rw [← hkey, ← hsn]
            simp [hsame, Event.endsAt]
          · simp [hsn]
      | sendSegment bytes => exact hrest.trans (List.sublist_cons_self _ _).countP_le
      | sessionComplete key sn' => exact hrest.trans (List.sublist_cons_self _ _).countP_le
      | sessionFailure key sn' reason => exact hrest.trans (List.sublist_cons_self _ _).countP_le

/-- B delivers blocks of A's sessions, none more often than it was started. -/
theorem arrivals_subperm (hsound : NetSound configA configB True n) (honce : n.b.engine.Once)
    (hid : configA.localEngineId ≠ n.b.engine.config.localEngineId)
    (hred : ∀ start ∈ n.a.journal.started, start.reliable = true) :
    (arrivals n.b.engine.trace).Subperm (n.a.journal.started.map Start.data) := by
  obtain ⟨starts, hmem, hdata, hnumbers⟩ := exists_starts hsound (fun _ h => h) hred
  have harrived : ∀ key data, .dataArrival key data ∈ n.b.engine.trace →
      key.engineId = configA.localEngineId := by
    intro key data harrival
    exact (hsound.b.events _ harrival trivial trivial).1.trans hsound.idA
  have hnodup : (starts.map Start.sessionNumber).Nodup := by
    rw [hnumbers, List.nodup_iff_count_le_one]
    intro sn
    exact (count_arrivalNumber harrived sn).trans (honce.once ⟨_, sn⟩ hid)
  obtain ⟨sessions, hperm, hsub⟩ := List.subperm_of_subset hnodup.of_map hmem
  rw [← hdata]
  exact ⟨sessions.map Start.data, hperm.map Start.data, hsub.map Start.data⟩

end Arrivals

/-! ## A client of the egress server -/

/-- What is written to a client are whole frames of what was delivered, and
then at most one that is cut short. -/
theorem stream_carries (maxBufferBytes : UInt64) (calls : List EgressCall) (client : Nat) :
    let t := (TcpEgress.create maxBufferBytes).run calls
    ∃ messages, Transmitter.Carries (t.delivered.map Frame.data) (t.stream client) messages ∧
      messages.Sublist (t.delivered.map Frame.data) := by
  intro t
  have hidle : (TcpEgress.create maxBufferBytes).Idle := fun _ => rfl
  have hinv : t.StreamsInv [] :=
    TcpEgress.streamsInv_run (TcpEgress.streamsInv_create maxBufferBytes) hidle calls
  have hframed : t.Framed := TcpEgress.framed_run (t := TcpEgress.create maxBufferBytes)
    (fun _ h => by cases h) calls
  obtain ⟨whole, cut, hintact⟩ := (hinv.streams client).intact
  have horder : whole.Sublist t.delivered :=
    (List.sublist_append_left whole _).trans hintact.order
  refine ⟨whole.map Frame.data, ⟨TcpEgress.cutBytes cut, ?_, ?_⟩, horder.map Frame.data⟩
  · rw [hintact.stream_eq, List.flatMap_map]
    congr 1
    exact List.flatMap_congr fun frame hframe => hframed frame (horder.subset hframe)
  · cases cut with
    | none => exact .inl rfl
    | some write =>
        have hmem : write.1 ∈ t.delivered := by
          refine hintact.order.subset (List.mem_append_right _ ?_)
          simp
        have hshort := (hintact.short write rfl).1
        have hframe := hframed write.1 hmem
        refine .inr ⟨write.1.data, List.mem_map_of_mem hmem, ?_, ?_⟩
        · simp [TcpEgress.cutBytes, ← hframe, List.take_prefix]
        · simp [TcpEgress.cutBytes, ← hframe, hshort]

/-! ## The theorem -/

/-- **End to end.** Two processes run with frames kept whole and careful
engines, and A starts reliable sessions. Whatever a client of B's egress
server reads are whole frames, and then at most one that is cut short, of
messages that clients of A's ingress server handed in; no message comes more
often than it was handed in. -/
theorem end_to_end (configA configB : LtpClaConfig) (n : ClaNet)
    (hids : configA.ltp.localEngineId ≠ configB.ltp.localEngineId)
    (hreliable : configA.ingress.defaultReliable = true)
    (h : (claNetwork configA configB).Reachable (LinkGuard CarefulNet) n) (client : Nat) :
    ∃ messages,
      Transmitter.Carries (n.a.ingress.handed.map Prod.snd) (n.b.egress.stream client) messages ∧
      messages.Subperm (n.a.ingress.handed.map Prod.snd) := by
  have hinv := ClaNet.inv_of_reachable h
  have hnet := ClaNet.net_reachable h
  have hsound : NetSound configA.ltp configB.ltp True n.net :=
    netSound_of_reachable hids (hnet.weaken fun _ _ hcareful => hcareful.1)
  obtain ⟨hconfig, honce⟩ := once_of_reachable (hnet.weaken fun _ _ hcareful => hcareful.2)
  have hblocks := arrivals_subperm hsound honce (by rwa [hconfig])
    fun start hstart => (hinv.a.alike start hstart).trans (hinv.a.reliable.trans hreliable)
  have hhanded : (n.b.egress.delivered.map Frame.data).Subperm
      (n.a.ingress.handed.map Prod.snd) := by
    rw [hinv.b.delivered]
    exact hblocks.trans (hinv.a.started.trans (List.take_sublist _ _)).subperm
  obtain ⟨calls, hcalls⟩ := hinv.b.egress
  rw [hcalls] at hhanded ⊢
  obtain ⟨messages, hcarries, hsub⟩ := stream_carries _ calls client
  exact ⟨messages, hcarries.mono hhanded.subset, hsub.subperm.trans hhanded⟩

/-- A check of the guard. -/
def carefulCheck (n : Net) (step : Side × Action) : Bool := timelyCheck n step && revivalCheck n step

theorem careful_of_check (n : Net) (step : Side × Action) (h : carefulCheck n step = true) :
    CarefulNet n step := by
  rw [carefulCheck, Bool.and_eq_true] at h
  exact ⟨netGuard_of_check n step h.1, noRevivalAtB_of_check n step h.2⟩

/-- Two bytes that a client handed in reach a client. -/
theorem end_to_end_delivery : ∃ n,
    System.run ClaNet.exec (linkCheck carefulCheck) twoProcesses delivery = some n ∧
      n.b.egress.stream 0 = frameMessage [7, 8] ∧
      ∃ messages, Transmitter.Carries [[7, 8]] (frameMessage [7, 8]) messages ∧
        messages.Subperm [[7, 8]] := by
  have hcheck : (System.run ClaNet.exec (linkCheck carefulCheck) twoProcesses delivery).map
      (fun n => decide (n.b.egress.stream 0 = frameMessage [7, 8]) &&
        decide (n.a.ingress.handed.map Prod.snd = [[7, 8]])) = some true := by
    decide +kernel
  obtain ⟨n, hrun, hn⟩ := Option.map_eq_some_iff.mp hcheck
  rw [Bool.and_eq_true, decide_eq_true_eq, decide_eq_true_eq] at hn
  have hstream := end_to_end (processConfig 1) (processConfig 2) n (by decide) rfl
    (reachable_of_delivery careful_of_check hrun) 0
  rw [hn.1, hn.2] at hstream
  exact ⟨n, hrun, hn.1, hstream⟩

end QpskB210.Ltp
