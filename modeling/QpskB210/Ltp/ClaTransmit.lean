import Mathlib.Data.List.Forall2
import QpskB210.Lib.Transition
import QpskB210.Ltp.Framing

/-!
# LTP — Convergence layer, transmit side

`ConvergenceLayerAdapter::run_tx` as steps: what `send_segment`, a connection
attempt, the queue and each `::write` do to it. A segment whose connection is
lost is written again from its first byte on the next one.

The bytes that went out on each connection, the segments ever enqueued and
those completed are not in the source: they are there to speak about.
-/

namespace QpskB210.Ltp

open QpskB210.Lib

/-- Where `run_tx` is, with the bytes that went out on the open connection. -/
inductive TxPhase where
  /-- In `reconnect_loop`, at the start or in the middle of a segment. -/
  | connecting (segment : Option (List UInt8))
  /-- Waiting for the queue. -/
  | waiting (sent : List UInt8)
  /-- In the write loop, at its head. -/
  | writing (sent segment : List UInt8) (written : Nat)
deriving DecidableEq, Repr

structure Transmitter where
  queue : List (List UInt8) := []
  phase : TxPhase := .connecting none
  closed : List (List UInt8) := []
  enqueued : List (List UInt8) := []
  completed : List (List UInt8) := []
deriving DecidableEq, Repr

inductive TxEvent where
  | sendSegment (encodedSegment : List UInt8)
  /-- A connection attempt. -/
  | connect (connected : Bool)
  /-- `run_tx` takes the front of the queue. -/
  | take
  /-- What `::write` returns. -/
  | write (n : Int)
deriving DecidableEq, Repr

namespace Transmitter

def sendSegment (s : Transmitter) (encodedSegment : List UInt8) : Transmitter :=
  { s with queue := s.queue ++ [encodedSegment], enqueued := s.enqueued ++ [encodedSegment] }

/-- One round of `reconnect_loop`. -/
def reconnect (s : Transmitter) (connected : Bool) : Option Transmitter :=
  match s.phase with
  | .connecting segment =>
    if connected then
      match segment with
      | none => some { s with phase := .waiting [] }
      | some segment => some { s with phase := .writing [] segment 0 }
    else some s
  | _ => none

/-- `tx_queue_.front()` and `pop()`. -/
def takeFront (s : Transmitter) : Option Transmitter :=
  match s.phase, s.queue with
  | .waiting sent, segment :: queue =>
    some { s with queue := queue, phase := .writing sent segment 0 }
  | _, _ => none

/-- One round of the write loop. `::write` returns no more than it is offered. -/
def writeRound (s : Transmitter) (n : Int) : Option Transmitter :=
  match s.phase with
  | .writing sent segment written =>
    let framed := frameMessage segment
    if n ≤ 0 then
      some { s with closed := s.closed ++ [sent], phase := .connecting (some segment) }
    else if n ≤ framed.length - written then
      let sent := sent ++ (framed.drop written).take n.toNat
      let written := written + n.toNat
      if written < framed.length then
        some { s with phase := .writing sent segment written }
      else some { s with phase := .waiting sent, completed := s.completed ++ [segment] }
    else none
  | _ => none

/-- A step of the adapter, unless `run_tx` is somewhere else. -/
def step (s : Transmitter) : TxEvent → Option Transmitter
  | .sendSegment encodedSegment => some (s.sendSegment encodedSegment)
  | .connect connected => s.reconnect connected
  | .take => s.takeFront
  | .write n => s.writeRound n

end Transmitter

/-- `run_tx`, as long as it runs. -/
def transmitter : System Transmitter TxEvent where
  init s := s = {}
  step s event s' := s.step event = some s'

/-! ## Order and framing -/

/-- The segment that was taken from the queue and is not completed. -/
def TxPhase.segment : TxPhase → Option (List UInt8)
  | .connecting segment => segment
  | .waiting _ => none
  | .writing _ segment _ => some segment

/-- What went out on the open connection. -/
def TxPhase.sent : TxPhase → Option (List UInt8)
  | .connecting _ => none
  | .waiting sent => some sent
  | .writing sent _ _ => some sent

namespace Transmitter

/-- What went out on all connections, the oldest first. -/
def connections (s : Transmitter) : List (List UInt8) := s.closed ++ s.phase.sent.toList

/-- These whole frames, and then perhaps an incomplete one. -/
def Carries (segments : List (List UInt8)) (sent : List UInt8) (whole : List (List UInt8)) : Prop :=
  ∃ cut, sent = whole.flatMap frameMessage ++ cut ∧
    (cut = [] ∨ ∃ segment ∈ segments,
      cut <+: frameMessage segment ∧ cut.length < (frameMessage segment).length)

/-- What went out, on all connections, is the segments of the queue in order,
each whole one once. -/
structure InOrder (s : Transmitter) : Prop where
  connections : ∃ wholes, List.Forall₂ (Carries s.enqueued) s.connections wholes ∧
    wholes.flatten = s.completed
  enqueued : s.enqueued = s.completed ++ s.phase.segment.toList ++ s.queue

/-- What is on the open connection, after these whole frames. -/
def OpenWith (whole : List (List UInt8)) : TxPhase → Prop
  | .connecting _ => whole = []
  | .waiting sent => sent = whole.flatMap frameMessage
  | .writing sent segment written => written < (frameMessage segment).length ∧
      sent = whole.flatMap frameMessage ++ (frameMessage segment).take written

structure TxInv (s : Transmitter) : Prop where
  carried : ∃ wholes last, List.Forall₂ (Carries s.enqueued) s.closed wholes ∧
    OpenWith last s.phase ∧ wholes.flatten ++ last = s.completed
  enqueued : s.enqueued = s.completed ++ s.phase.segment.toList ++ s.queue

variable {s s' : Transmitter} {segments : List (List UInt8)} {sent : List UInt8}
  {whole : List (List UInt8)}

theorem Carries.mono {segments' : List (List UInt8)} (h : Carries segments sent whole)
    (hsub : segments ⊆ segments') : Carries segments' sent whole := by
  obtain ⟨cut, hsent, hcut⟩ := h
  refine ⟨cut, hsent, hcut.imp_right fun hpart => ?_⟩
  obtain ⟨segment, hsegment, hprefix⟩ := hpart
  exact ⟨segment, hsub hsegment, hprefix⟩

/-- The open connection carries the frames before the current one. -/
theorem OpenWith.carries {phase : TxPhase} (h : OpenWith whole phase)
    (hsent : phase.sent = some sent) (hsegment : ∀ segment ∈ phase.segment, segment ∈ segments) :
    Carries segments sent whole := by
  cases phase with
  | connecting segment => cases hsent
  | waiting sent' =>
      cases hsent
      exact ⟨[], by rw [List.append_nil]; exact h, .inl rfl⟩
  | writing sent' segment written =>
      cases hsent
      obtain ⟨hlt, hbytes⟩ := h
      refine ⟨_, hbytes, .inr ⟨segment, hsegment segment rfl, List.take_prefix _ _, ?_⟩⟩
      rw [List.length_take]
      omega

theorem TxInv.segment_mem (h : s.TxInv) : ∀ segment ∈ s.phase.segment, segment ∈ s.enqueued := by
  intro segment hsegment
  rw [h.enqueued]
  refine List.mem_append_left _ (List.mem_append_right _ ?_)
  rw [hsegment]
  exact List.mem_singleton_self _

theorem TxInv.inOrder (h : s.TxInv) : s.InOrder := by
  obtain ⟨wholes, last, hclosed, hopen, hflat⟩ := h.carried
  refine ⟨?_, h.enqueued⟩
  cases hsent : s.phase.sent with
  | none =>
      have hlast : last = [] := by
        cases hphase : s.phase with
        | connecting segment =>
            rw [hphase] at hopen
            exact hopen
        | waiting sent => rw [hphase] at hsent; cases hsent
        | writing sent segment written => rw [hphase] at hsent; cases hsent
      rw [hlast, List.append_nil] at hflat
      refine ⟨wholes, ?_, hflat⟩
      rwa [connections, hsent, Option.toList_none, List.append_nil]
  | some sent =>
      refine ⟨wholes ++ [last], ?_, ?_⟩
      · rw [connections, hsent]
        exact List.rel_append hclosed (.cons (hopen.carries hsent h.segment_mem) .nil)
      · rw [List.flatten_append, List.flatten_singleton, hflat]

/-! ## Steps -/

theorem TxInv.sendSegment (h : s.TxInv) (encodedSegment : List UInt8) :
    (s.sendSegment encodedSegment).TxInv := by
  obtain ⟨wholes, last, hclosed, hopen, hflat⟩ := h.carried
  refine ⟨⟨wholes, last, ?_, hopen, hflat⟩, ?_⟩
  · exact hclosed.imp fun _ _ hcarries => hcarries.mono (List.subset_append_left _ _)
  · show s.enqueued ++ [encodedSegment] = _ ++ (s.queue ++ [encodedSegment])
    rw [h.enqueued, List.append_assoc]
    rfl

theorem TxInv.reconnect {connected : Bool} (h : s.TxInv) (hstep : s.reconnect connected = some s') :
    s'.TxInv := by
  obtain ⟨wholes, last, hclosed, hopen, hflat⟩ := h.carried
  have henqueued := h.enqueued
  unfold Transmitter.reconnect at hstep
  split at hstep
  · rename_i segment hphase
    rw [hphase] at hopen henqueued
    have hlast : last = [] := hopen
    subst hlast
    split at hstep
    · cases segment with
      | none =>
          cases hstep
          exact ⟨⟨wholes, [], hclosed, rfl, hflat⟩, henqueued⟩
      | some segment =>
          cases hstep
          have hframe : 0 < (frameMessage segment).length := by simp
          exact ⟨⟨wholes, [], hclosed, ⟨hframe, rfl⟩, hflat⟩, henqueued⟩
    · cases hstep
      exact h
  · cases hstep

theorem TxInv.takeFront (h : s.TxInv) (hstep : s.takeFront = some s') : s'.TxInv := by
  obtain ⟨wholes, last, hclosed, hopen, hflat⟩ := h.carried
  have henqueued := h.enqueued
  unfold Transmitter.takeFront at hstep
  split at hstep
  · rename_i sent segment queue hphase hqueue
    rw [hphase] at hopen henqueued
    rw [hqueue] at henqueued
    cases hstep
    have hframe : 0 < (frameMessage segment).length := by simp
    have hsent : sent = last.flatMap frameMessage := hopen
    refine ⟨⟨wholes, last, hclosed, ⟨hframe, ?_⟩, hflat⟩, ?_⟩
    · rw [hsent, List.take_zero, List.append_nil]
    · rw [henqueued]
      simp [TxPhase.segment]
  · cases hstep

/-- One round of the write loop goes on with the frame, completes it, or
leaves it cut short on a connection that is closed. -/
theorem TxInv.writeRound {n : Int} (h : s.TxInv) (hstep : s.writeRound n = some s') :
    s'.TxInv := by
  obtain ⟨wholes, last, hclosed, hopen, hflat⟩ := h.carried
  have henqueued := h.enqueued
  have hmem := h.segment_mem
  unfold Transmitter.writeRound at hstep
  split at hstep
  · rename_i sent segment written hphase
    rw [hphase] at hopen henqueued hmem
    obtain ⟨hwritten, hsent⟩ := hopen
    have hopen : OpenWith last (.writing sent segment written) := ⟨hwritten, hsent⟩
    have hcarries : Carries s.enqueued sent last := hopen.carries rfl hmem
    dsimp only at hstep
    split at hstep
    · cases hstep
      refine ⟨⟨wholes ++ [last], [], ?_, rfl, ?_⟩, henqueued⟩
      · exact List.rel_append hclosed (.cons hcarries .nil)
      · rw [List.flatten_append, List.flatten_singleton, List.append_nil, hflat]
    · split at hstep
      · rename_i hpositive hoffered
        have hmore : sent ++ ((frameMessage segment).drop written).take n.toNat =
            last.flatMap frameMessage ++ (frameMessage segment).take (written + n.toNat) := by
          rw [hsent, List.append_assoc, List.take_add]
        split at hstep
        · rename_i hpart
          cases hstep
          exact ⟨⟨wholes, last, hclosed, ⟨hpart, hmore⟩, hflat⟩, henqueued⟩
        · rename_i hall
          cases hstep
          refine ⟨⟨wholes, last ++ [segment], hclosed, ?_, ?_⟩, ?_⟩
          · show _ = (last ++ [segment]).flatMap frameMessage
            rw [hmore, List.take_of_length_le (Nat.le_of_not_lt hall)]
            simp
          · rw [← List.append_assoc, hflat]
          · rw [henqueued]
            simp [TxPhase.segment]
      · cases hstep
  · cases hstep

theorem TxInv.step {event : TxEvent} (h : s.TxInv) (hstep : s.step event = some s') : s'.TxInv := by
  cases event with
  | sendSegment encodedSegment =>
      cases hstep
      exact h.sendSegment encodedSegment
  | connect connected => exact h.reconnect hstep
  | take => exact h.takeFront hstep
  | write n => exact h.writeRound hstep

/-- A closed connection stays as it is, and a completed segment completed. -/
theorem prefix_step {event : TxEvent} (hstep : s.step event = some s') :
    s.closed <+: s'.closed ∧ s.completed <+: s'.completed := by
  cases event with
  | sendSegment encodedSegment =>
      cases hstep
      exact ⟨List.prefix_rfl, List.prefix_rfl⟩
  | connect connected =>
      rw [step, reconnect] at hstep
      grind
  | take =>
      rw [step, takeFront] at hstep
      grind
  | write n =>
      rw [step, writeRound] at hstep
      grind

/-! ## Runs -/

theorem txInv_of_reachable (h : transmitter.Reachable System.free s) : s.TxInv := by
  refine h.invariant (fun s₀ hinit => ?_) fun _ _ _ hinv _ hstep => hinv.step hstep
  have hempty : s₀ = {} := hinit
  subst hempty
  exact ⟨⟨[], [], .nil, rfl, rfl⟩, rfl⟩

/-- **Transmit stream.** Every connection has whole frames and then at most
one that is incomplete; all together these are the completed segments, in the
order of the queue, each on one connection. What is on a closed connection
stays so. -/
theorem transmit_in_order (h : transmitter.Reachable System.free s) :
    s.InOrder ∧ ∀ s', transmitter.Path System.free s s' →
      s.closed <+: s'.closed ∧ s.completed <+: s'.completed := by
  refine ⟨(txInv_of_reachable h).inOrder, fun s' hpath => ?_⟩
  refine hpath.preserves (P := fun s' => s.closed <+: s'.closed ∧ s.completed <+: s'.completed) ?_
    ⟨List.prefix_rfl, List.prefix_rfl⟩
  intro s₁ event s₂ hbefore _ hstep
  have hnext := prefix_step hstep
  exact ⟨hbefore.1.trans hnext.1, hbefore.2.trans hnext.2⟩

/-- A segment whose first connection is lost after three of its five bytes. -/
def interrupted : Transmitter where
  phase := .waiting (frameMessage [7])
  closed := [[0, 0, 0]]
  enqueued := [[7]]
  completed := [[7]]

theorem transmit_in_order_interrupted :
    interrupted.InOrder ∧ ∀ s', transmitter.Path System.free interrupted s' →
      interrupted.closed <+: s'.closed ∧ interrupted.completed <+: s'.completed := by
  refine transmit_in_order ?_
  have hstart : transmitter.Reachable System.free {} := .init rfl
  refine .step (a := .write 5) (.step (a := .connect true) (.step (a := .write 0)
    (.step (a := .write 3) (.step (a := .take) (.step (a := .sendSegment [7])
      (.step (a := .connect true) hstart trivial rfl) trivial rfl) trivial rfl)
        trivial rfl) trivial rfl) trivial rfl) trivial rfl

end Transmitter

end QpskB210.Ltp
