import QpskB210.Ltp.Cla
import QpskB210.Ltp.RedTransfer

/-!
# LTP — Two processes

Two processes joined by a byte stream in each direction, which may lose whole
frames. What one of them writes may be cut into reads in any way by the other.
As long as no connection breaks inside a frame, the receive side hands over
segments that the peer's engine sent, in their order, and so the two engines
behave as over the network of segments (`refines_network`): what holds there
of every run holds of the processes, down to the bytes of their clients.
-/

namespace QpskB210.Ltp

open QpskB210.Lib

/-! ## The system -/

/-- What the event reads of the stream to the process. -/
def ClaEvent.chunk : ClaEvent → List UInt8
  | .rx (.read chunk) => chunk
  | _ => []

/-- What of the current frame has gone out. -/
def TxPhase.part : TxPhase → List UInt8
  | .writing _ segment written => (frameMessage segment).take written
  | _ => []

namespace Cla

/-- What the event puts on the stream from the process. -/
def output (p : Cla) : ClaEvent → List UInt8
  | .tx (.write n) =>
    match p.tx.phase with
    | .writing _ segment written => ((frameMessage segment).drop written).take n.toNat
    | _ => []
  | _ => []

/-- The event does not break a connection inside a frame. A read of no bytes
is the end of the stream. -/
def Unbroken (p : Cla) : ClaEvent → Prop
  | .tx (.write n) => n ≤ 0 → p.tx.phase.part = []
  | .rx (.read chunk) => chunk = [] → p.rx.left = .ok []
  | .rx .lost => p.rx.left = .ok []
  | _ => True

end Cla

/-- Two processes, and the bytes on the way to each. -/
structure ClaNet where
  a : Cla
  b : Cla
  toA : List UInt8 := []
  toB : List UInt8 := []

inductive ClaStep where
  | process (side : Side) (event : ClaEvent)
  /-- The stream to this side loses a frame. -/
  | lose (side : Side) (segment : List UInt8)

namespace ClaNet

/-- One step. A read takes at most the size of `read_buf` off the front of the
stream. A frame is lost when it is next in line, behind a whole one. -/
def exec (n : ClaNet) : ClaStep → Option ClaNet
  | .process .a event =>
    if event.chunk <+: n.toA ∧ event.chunk.length ≤ 4096 then
      (n.a.exec event).map fun p =>
        { n with a := p, toA := n.toA.drop event.chunk.length, toB := n.toB ++ n.a.output event }
    else none
  | .process .b event =>
    if event.chunk <+: n.toB ∧ event.chunk.length ≤ 4096 then
      (n.b.exec event).map fun p =>
        { n with b := p, toB := n.toB.drop event.chunk.length, toA := n.toA ++ n.b.output event }
    else none
  | .lose .a segment =>
    match n.a.rx.left with
    | .ok [] =>
      if frameMessage segment <+: n.toA then
        some { n with toA := n.toA.drop (frameMessage segment).length }
      else none
    | _ => none
  | .lose .b segment =>
    match n.b.rx.left with
    | .ok [] =>
      if frameMessage segment <+: n.toB then
        some { n with toB := n.toB.drop (frameMessage segment).length }
      else none
    | _ => none

/-- The engines, as nodes of the network of segments. -/
def net (n : ClaNet) : Net := { a := n.a.node, b := n.b.node }

/-- The step of the network that a step of a process makes. -/
def action (n : ClaNet) : ClaStep → Option (Side × Action)
  | .process .a event => (n.a.action event).map fun action => (.a, action)
  | .process .b event => (n.b.action event).map fun action => (.b, action)
  | .lose _ _ => none

/-- The step keeps frames whole, and the segments are short enough for their
length prefix. -/
def Whole (n : ClaNet) (step : ClaStep) : Prop :=
  (∀ segment ∈ n.a.tx.enqueued ++ n.b.tx.enqueued, FitsFrame segment) ∧
    match step with
    | .process .a event => n.a.Unbroken event
    | .process .b event => n.b.Unbroken event
    | .lose _ segment => FitsFrame segment

end ClaNet

/-- The runs of two processes. -/
def claNetwork (configA configB : LtpClaConfig) : System ClaNet ClaStep where
  init n := ∃ nowA nowB, n = { a := Cla.create configA nowA, b := Cla.create configB nowB }
  step n step n' := n.exec step = some n'

/-- Frames stay whole, and the engines' calls meet a guard of the network. -/
def LinkGuard (guard : Net → Side × Action → Prop) (n : ClaNet) (step : ClaStep) : Prop :=
  n.Whole step ∧ ∀ action, n.action step = some action → guard n.net action

/-! ## The stream -/

/-- What `rx` has not taken of what `tx` wrote: whole frames, and a part of
the one that is being written. What was taken, and what is on the way, is in
the order of the transmit queue. -/
def Joined (tx : Transmitter) (rx : RxState) (stream : List UInt8) : Prop :=
  ∃ buffer onWay, rx.left = .ok buffer ∧
    buffer ++ stream = onWay.flatMap frameMessage ++ tx.phase.part ∧
    (rx.taken ++ onWay).Sublist tx.completed

namespace Joined

variable {tx tx' : Transmitter} {rx : RxState} {stream : List UInt8}

theorem start : Joined {} {} [] := ⟨[], [], rfl, rfl, List.Sublist.refl _⟩

/-- What is taken has been enqueued. -/
theorem subset (h : Joined tx rx stream) (htx : tx.TxInv) {segment : List UInt8}
    (hsegment : segment ∈ rx.taken) : segment ∈ tx.enqueued := by
  obtain ⟨buffer, onWay, -, -, hsub⟩ := h
  have hcompleted := hsub.subset (List.mem_append_left _ hsegment)
  rw [htx.enqueued]
  simp [hcompleted]

/-- The part of the current frame is not all of it. -/
theorem part_short (htx : tx.TxInv) (hfits : ∀ segment ∈ tx.enqueued, FitsFrame segment) :
    tx.phase.part = [] ∨ ∃ segment, FitsFrame segment ∧
      tx.phase.part <+: frameMessage segment ∧
      tx.phase.part.length < (frameMessage segment).length := by
  obtain ⟨wholes, last, -, hopen, -⟩ := htx.carried
  have hmem := htx.segment_mem
  cases hphase : tx.phase with
  | connecting segment => exact .inl rfl
  | waiting sent => exact .inl rfl
  | writing sent segment written =>
      rw [hphase] at hopen hmem
      refine .inr ⟨segment, hfits segment (hmem segment rfl), List.take_prefix _ _, ?_⟩
      rw [TxPhase.part, List.length_take]
      exact min_lt_of_left_lt hopen.1

/-! ### Steps of the sender -/

/-- More in the queue changes nothing, nor does a connection. -/
theorem same (h : Joined tx rx stream) (hpart : tx'.phase.part = tx.phase.part)
    (hcompleted : tx'.completed = tx.completed) : Joined tx' rx stream := by
  rwa [Joined, hpart, hcompleted]

theorem enqueue (h : Joined tx rx stream) (segments : List (List UInt8)) :
    Joined (segments.foldl Transmitter.sendSegment tx) rx stream := by
  rw [Cla.foldl_sendSegment]
  exact h.same rfl rfl

theorem connect {connected : Bool} (h : Joined tx rx stream)
    (hstep : tx.reconnect connected = some tx') : Joined tx' rx stream := by
  rw [Transmitter.reconnect] at hstep
  have hsame : tx'.phase.part = tx.phase.part ∧ tx'.completed = tx.completed := by
    grind [TxPhase.part]
  exact h.same hsame.1 hsame.2

theorem take (h : Joined tx rx stream) (hstep : tx.takeFront = some tx') :
    Joined tx' rx stream := by
  rw [Transmitter.takeFront] at hstep
  have hsame : tx'.phase.part = tx.phase.part ∧ tx'.completed = tx.completed := by
    grind [TxPhase.part]
  exact h.same hsame.1 hsame.2

/-- What `::write` takes is on the way, and so is a frame that it completes. -/
theorem write {sent segment : List UInt8} {written : Nat} {n : Int} (h : Joined tx rx stream)
    (hphase : tx.phase = .writing sent segment written) (hbreak : n ≤ 0 → tx.phase.part = [])
    (hstep : tx.writeRound n = some tx') :
    Joined tx' rx (stream ++ ((frameMessage segment).drop written).take n.toNat) := by
  obtain ⟨buffer, onWay, hleft, hbytes, hsub⟩ := h
  rw [Transmitter.writeRound, hphase] at hstep
  rw [hphase] at hbytes hbreak
  dsimp only [TxPhase.part] at hstep hbytes hbreak
  split at hstep
  · rename_i hn
    cases hstep
    refine ⟨buffer, onWay, hleft, ?_, hsub⟩
    rw [hbreak hn] at hbytes
    rw [Int.toNat_of_nonpos hn, List.take_zero, List.append_nil]
    exact hbytes
  · have hmore : buffer ++ (stream ++ ((frameMessage segment).drop written).take n.toNat) =
        onWay.flatMap frameMessage ++ (frameMessage segment).take (written + n.toNat) := by
      rw [← List.append_assoc, hbytes, List.append_assoc, List.take_add]
    split at hstep
    · split at hstep
      · cases hstep
        exact ⟨buffer, onWay, hleft, hmore, hsub⟩
      · rename_i hall
        cases hstep
        refine ⟨buffer, onWay ++ [segment], hleft, ?_, ?_⟩
        · rw [hmore, List.take_of_length_le (Nat.le_of_not_lt hall)]
          simp [TxPhase.part]
        · rw [← List.append_assoc]
          exact hsub.append (List.Sublist.refl _)
    · cases hstep

/-! ### Steps of the receiver -/

theorem onWay_fits {onWay : List (List UInt8)} (htx : tx.TxInv)
    (hfits : ∀ segment ∈ tx.enqueued, FitsFrame segment)
    (hsub : (rx.taken ++ onWay).Sublist tx.completed) : ∀ segment ∈ onWay, FitsFrame segment := by
  intro segment hsegment
  have hcompleted := hsub.subset (List.mem_append_right _ hsegment)
  refine hfits segment ?_
  rw [htx.enqueued]
  simp [hcompleted]

/-- A read takes whole frames off the front of what is on the way. -/
theorem read {chunk : List UInt8} (h : Joined tx rx stream) (htx : tx.TxInv)
    (hfits : ∀ segment ∈ tx.enqueued, FitsFrame segment) (hchunk : chunk <+: stream) :
    Joined tx (framing.feed rx chunk) (stream.drop chunk.length) := by
  obtain ⟨buffer, onWay, hleft, hbytes, hsub⟩ := h
  obtain ⟨more, rfl⟩ := hchunk
  rw [← List.append_assoc] at hbytes
  obtain ⟨front, rest, left, rfl, hsplit, hrest⟩ :=
    framing_reads.split_part (onWay_fits htx hfits hsub) (part_short htx hfits) hbytes
  refine ⟨left, rest, ?_, ?_, ?_⟩
  · rw [Splitter.feed_ok hleft, hsplit]
    rfl
  · rwa [List.drop_left]
  · rw [Splitter.feed_ok hleft, hsplit, Splitting.after, List.append_assoc]
    exact hsub

theorem clearBuffer_of_empty (hempty : rx.left = .ok []) : clearBuffer rx = rx := by
  obtain ⟨taken, left⟩ := rx
  cases hempty
  rfl

theorem runRx {event : RxEvent} (h : Joined tx rx stream) (htx : tx.TxInv)
    (hfits : ∀ segment ∈ tx.enqueued, FitsFrame segment)
    (hbreak : event = .lost ∨ event = .read [] → rx.left = .ok [])
    (hchunk : (ClaEvent.rx event).chunk <+: stream) :
    Joined tx (Ltp.runRx rx event) (stream.drop (ClaEvent.rx event).chunk.length) := by
  cases event with
  | lost =>
      rw [Ltp.runRx, clearBuffer_of_empty (hbreak (.inl rfl))]
      exact h
  | read chunk =>
      rw [Ltp.runRx]
      split
      · rename_i hempty
        have hnil : chunk = [] := by simpa using hempty
        subst hnil
        rw [clearBuffer_of_empty (hbreak (.inr rfl))]
        exact h
      · exact h.read htx hfits hchunk

/-- A frame that is lost is one that was on the way. -/
theorem lose {segment : List UInt8} (h : Joined tx rx stream) (htx : tx.TxInv)
    (hfits : ∀ segment ∈ tx.enqueued, FitsFrame segment) (hsegment : FitsFrame segment)
    (hempty : rx.left = .ok []) (hpre : frameMessage segment <+: stream) :
    Joined tx rx (stream.drop (frameMessage segment).length) := by
  obtain ⟨buffer, onWay, hleft, hbytes, hsub⟩ := h
  obtain ⟨more, rfl⟩ := hpre
  cases hempty.symm.trans hleft
  rw [List.nil_append] at hbytes
  obtain ⟨rest, rfl, hrest⟩ := framing_reads.head_of_append (onWay_fits htx hfits hsub)
    (part_short htx hfits) hsegment hbytes
  refine ⟨[], rest, hempty, ?_, ?_⟩
  · rwa [List.nil_append, List.drop_left]
  · exact ((List.sublist_cons_self segment rest).append_left rx.taken).trans hsub

end Joined

/-! ## Steps of a process -/

namespace Cla

variable {p p' q : Cla} {event : ClaEvent} {rx : RxState} {tx : Transmitter} {stream : List UInt8}
  {config : LtpClaConfig}

/-- A call of the engine neither reads nor writes. -/
theorem silent_of_action {action : Action} (h : p.action event = some action) :
    p.output event = [] ∧ event.chunk = [] := by
  cases event with
  | onData answers => exact ⟨rfl, rfl⟩
  | onSegment answers => exact ⟨rfl, rfl⟩
  | expire entry answers => exact ⟨rfl, rfl⟩
  | ingress e => cases h
  | rx e => cases h
  | tx e => cases h
  | accept answers => cases h

/-- A step keeps the stream that it writes on. -/
theorem Steps.send (hsteps : p.Steps event p') (h : Joined p.tx rx stream)
    (hunbroken : p.Unbroken event) : Joined p'.tx rx (stream ++ p.output event) := by
  cases hsteps with
  | call action answers node haction hnode _ hp =>
      rw [(silent_of_action haction).1, List.append_nil, hp]
      exact h.enqueue _
  | ingress e hevent hp =>
      subst hevent hp
      simpa [output] using h
  | rx e hevent hp =>
      subst hevent hp
      simpa [output] using h
  | accept answers hevent hp =>
      subst hevent hp
      simpa [output] using h
  | tx e tx hevent hqueue hstep hp =>
      subst hevent hp
      cases e with
      | sendSegment segment => exact absurd rfl (hqueue segment)
      | connect connected => simpa [output] using h.connect hstep
      | take => simpa [output] using h.take hstep
      | write n =>
          rw [output]
          cases hphase : p.tx.phase with
          | connecting segment =>
              rw [Transmitter.step, Transmitter.writeRound, hphase] at hstep
              cases hstep
          | waiting sent =>
              rw [Transmitter.step, Transmitter.writeRound, hphase] at hstep
              cases hstep
          | writing sent segment written => exact h.write hphase hunbroken hstep

/-- A step keeps the stream that it reads. -/
theorem Steps.receive (hsteps : p.Steps event p') (h : Joined tx p.rx stream) (htx : tx.TxInv)
    (hfits : ∀ segment ∈ tx.enqueued, FitsFrame segment) (hunbroken : p.Unbroken event)
    (hchunk : event.chunk <+: stream) : Joined tx p'.rx (stream.drop event.chunk.length) := by
  cases hsteps with
  | call action answers node haction hnode _ hp =>
      rw [(silent_of_action haction).2, hp]
      exact h
  | ingress e hevent hp =>
      subst hevent hp
      exact h
  | tx e tx hevent _ _ hp =>
      subst hevent hp
      exact h
  | accept answers hevent hp =>
      subst hevent hp
      exact h
  | rx e hevent hp =>
      subst hevent hp
      refine h.runRx htx hfits (fun hbreak => ?_) hchunk
      rcases hbreak with rfl | rfl
      · exact hunbroken
      · exact hunbroken rfl

/-- A call of the engine is a step of the network, for what is received was
sent. -/
theorem Steps.simulates (hsteps : p.Steps event p') (h : Joined q.tx p.rx stream)
    (hq : q.Inv config) :
    p'.node = p.node ∨ ∃ action, p.action event = some action ∧
      p.node.exec q.node.engine.trace action = some p'.node := by
  cases hsteps with
  | call action answers node haction hnode _ hp =>
      refine .inr ⟨action, haction, ?_⟩
      rw [hp]
      refine Node.exec_of_perform hnode fun bytes hbytes => ?_
      subst hbytes
      have hsent : bytes ∈ sends q.node.engine.trace := by
        rw [← hq.enqueued]
        exact h.subset hq.tx (action_receive haction)
      obtain ⟨e, he, hbytes⟩ := List.mem_filterMap.mp hsent
      cases e with
      | sendSegment segment =>
          cases hbytes
          exact he
      | dataArrival key data => cases hbytes
      | sessionComplete key sn => cases hbytes
      | sessionFailure key sn reason => cases hbytes
  | ingress e _ hp => exact .inl (by rw [hp])
  | rx e _ hp => exact .inl (by rw [hp])
  | tx e tx _ _ _ hp => exact .inl (by rw [hp])
  | accept answers _ hp => exact .inl (by rw [hp])

end Cla

/-! ## Runs -/

/-- The invariant of two processes. -/
structure ClaNet.Inv (configA configB : LtpClaConfig) (n : ClaNet) : Prop where
  a : n.a.Inv configA
  b : n.b.Inv configB
  toA : Joined n.b.tx n.a.rx n.toA
  toB : Joined n.a.tx n.b.rx n.toB

namespace ClaNet

variable {configA configB : LtpClaConfig} {n n' : ClaNet} {step : ClaStep}
  {guard : Net → Side × Action → Prop}

theorem inv_init (h : (claNetwork configA configB).init n) : n.Inv configA configB := by
  obtain ⟨nowA, nowB, rfl⟩ := h
  exact ⟨Cla.inv_create _ _, Cla.inv_create _ _, .start, .start⟩

/-- **One step.** It keeps the invariant, and is one step of the network of
segments or none. -/
theorem Inv.exec (h : n.Inv configA configB) (hwhole : n.Whole step)
    (hstep : n.exec step = some n') :
    n'.Inv configA configB ∧ (n'.net = n.net ∨
      ∃ action, n.action step = some action ∧ n.net.exec action = some n'.net) := by
  obtain ⟨hfits, hwhole⟩ := hwhole
  rw [List.forall_mem_append] at hfits
  cases step with
  | process side event =>
      cases side with
      | a =>
          rw [ClaNet.exec] at hstep
          split at hstep
          · rename_i hread
            obtain ⟨p, hp, rfl⟩ := Option.map_eq_some_iff.mp hstep
            have hsteps := Cla.steps_of_exec hp
            refine ⟨⟨h.a.steps hsteps, h.b, ?_, ?_⟩, ?_⟩
            · exact hsteps.receive h.toA h.b.tx hfits.2 hwhole hread.1
            · exact hsteps.send h.toB hwhole
            · rcases hsteps.simulates h.toA h.b with hsame | ⟨action, haction, hnode⟩
              · exact .inl (by rw [net, net]; dsimp only; rw [hsame])
              · refine .inr ⟨(.a, action), by rw [ClaNet.action, haction]; rfl, ?_⟩
                exact Option.map_eq_some_iff.mpr ⟨_, hnode, rfl⟩
          · cases hstep
      | b =>
          rw [ClaNet.exec] at hstep
          split at hstep
          · rename_i hread
            obtain ⟨p, hp, rfl⟩ := Option.map_eq_some_iff.mp hstep
            have hsteps := Cla.steps_of_exec hp
            refine ⟨⟨h.a, h.b.steps hsteps, ?_, ?_⟩, ?_⟩
            · exact hsteps.send h.toA hwhole
            · exact hsteps.receive h.toB h.a.tx hfits.1 hwhole hread.1
            · rcases hsteps.simulates h.toB h.a with hsame | ⟨action, haction, hnode⟩
              · exact .inl (by rw [net, net]; dsimp only; rw [hsame])
              · refine .inr ⟨(.b, action), by rw [ClaNet.action, haction]; rfl, ?_⟩
                exact Option.map_eq_some_iff.mpr ⟨_, hnode, rfl⟩
          · cases hstep
  | lose side segment =>
      cases side with
      | a =>
          rw [ClaNet.exec] at hstep
          split at hstep
          · rename_i hempty
            split at hstep
            · rename_i hpre
              cases hstep
              exact ⟨{ h with toA := h.toA.lose h.b.tx hfits.2 hwhole hempty hpre }, .inl rfl⟩
            · cases hstep
          · cases hstep
      | b =>
          rw [ClaNet.exec] at hstep
          split at hstep
          · rename_i hempty
            split at hstep
            · rename_i hpre
              cases hstep
              exact ⟨{ h with toB := h.toB.lose h.a.tx hfits.1 hwhole hempty hpre }, .inl rfl⟩
            · cases hstep
          · cases hstep

theorem inv_of_reachable (h : (claNetwork configA configB).Reachable (LinkGuard guard) n) :
    n.Inv configA configB :=
  h.invariant (fun _ hinit => inv_init hinit) fun _ _ _ hinv hguard hstep =>
    (hinv.exec hguard.1 hstep).1

end ClaNet

/-- The engines are in a state that they can reach over the network. -/
theorem ClaNet.net_reachable {configA configB : LtpClaConfig} {n : ClaNet}
    {guard : Net → Side × Action → Prop}
    (h : (claNetwork configA configB).Reachable (LinkGuard guard) n) :
    (network configA.ltp configB.ltp).Reachable guard n.net := by
  refine h.refines (fun n₀ hinit => ?_) fun n₁ step n₂ hreach hguard hstep => ?_
  · obtain ⟨nowA, nowB, rfl⟩ := hinit
    exact ⟨nowA, nowB, rfl⟩
  · have hinv := ClaNet.inv_of_reachable hreach
    rcases (hinv.exec hguard.1 hstep).2 with hsame | ⟨action, haction, hnext⟩
    · exact .inl hsame
    · exact .inr ⟨action, hguard.2 action haction, hnext⟩

/-- What was taken is in the order in which the engine sent it. -/
theorem Joined.in_order {tx : Transmitter} {rx : RxState} {stream : List UInt8}
    (h : Joined tx rx stream) (htx : tx.TxInv) : rx.taken.Sublist tx.enqueued := by
  obtain ⟨buffer, onWay, -, -, hsub⟩ := h
  rw [htx.enqueued, List.append_assoc]
  exact (List.sublist_append_left _ _).trans (hsub.trans (List.sublist_append_left _ _))

/-- **Refinement.** In every run of two processes in which frames stay whole
and the engines' calls meet the guard, the engines are in a state that they
can reach over the network of segments under that guard, and what each
receives are segments of the other in the order in which they were sent. -/
theorem refines_network (configA configB : LtpClaConfig) (guard : Net → Side × Action → Prop)
    (n : ClaNet) (h : (claNetwork configA configB).Reachable (LinkGuard guard) n) :
    (network configA.ltp configB.ltp).Reachable guard n.net ∧
      n.b.rx.taken.Sublist (sends n.a.node.engine.trace) ∧
      n.a.rx.taken.Sublist (sends n.b.node.engine.trace) := by
  have hinv := ClaNet.inv_of_reachable h
  refine ⟨ClaNet.net_reachable h, ?_, ?_⟩
  · rw [← hinv.a.enqueued]
    exact hinv.toB.in_order hinv.a.tx
  · rw [← hinv.b.enqueued]
    exact hinv.toA.in_order hinv.b.tx

/-! ## A run -/

/-- A check of `Unbroken`. -/
def Cla.unbroken (p : Cla) : ClaEvent → Bool
  | .tx (.write n) => 0 < n || p.tx.phase.part.isEmpty
  | .rx (.read chunk) => !chunk.isEmpty
  | .rx .lost => false
  | _ => true

theorem Cla.unbroken_of_check {p : Cla} {event : ClaEvent} (h : p.unbroken event = true) :
    p.Unbroken event := by
  cases event with
  | tx e =>
      cases e with
      | write n =>
          intro hn
          have hpart : 0 < n ∨ p.tx.phase.part = [] := by simpa [unbroken] using h
          exact hpart.resolve_left (not_lt.mpr hn)
      | sendSegment segment => trivial
      | connect connected => trivial
      | take => trivial
  | rx e =>
      cases e with
      | lost => cases h
      | read chunk =>
          intro hnil
          rw [hnil] at h
          cases h
  | ingress e => trivial
  | onData answers => trivial
  | onSegment answers => trivial
  | expire entry answers => trivial
  | accept answers => trivial

/-- A check of `LinkGuard`. -/
def linkCheck (check : Net → Side × Action → Bool) (n : ClaNet) (step : ClaStep) : Bool :=
  ((n.a.tx.enqueued ++ n.b.tx.enqueued).all fun segment => decide (FitsFrame segment)) &&
    (match step with
      | .process .a event => n.a.unbroken event
      | .process .b event => n.b.unbroken event
      | .lose _ segment => decide (FitsFrame segment)) &&
    match n.action step with
    | some action => check n.net action
    | none => true

theorem linkGuard_of_check {check : Net → Side × Action → Bool}
    {guard : Net → Side × Action → Prop} (hcheck : ∀ n step, check n step = true → guard n step)
    (n : ClaNet) (step : ClaStep) (h : linkCheck check n step = true) : LinkGuard guard n step := by
  unfold linkCheck at h
  rw [Bool.and_eq_true, Bool.and_eq_true, List.all_eq_true] at h
  obtain ⟨⟨hfits, hwhole⟩, haction⟩ := h
  refine ⟨⟨fun segment hsegment => of_decide_eq_true (hfits segment hsegment), ?_⟩,
    fun action hstep => ?_⟩
  · cases step with
    | process side event =>
        cases side with
        | a => exact Cla.unbroken_of_check hwhole
        | b => exact Cla.unbroken_of_check hwhole
    | lose side segment => exact of_decide_eq_true hwhole
  · rw [hstep] at haction
    exact hcheck _ _ haction

def processConfig (id : UInt64) : LtpClaConfig := { ltp := nodeConfig id 1400 }

/-- Processes 1 and 2, before anything happened. -/
def twoProcesses : ClaNet :=
  { a := Cla.create (processConfig 1) 0, b := Cla.create (processConfig 2) 0 }

/-- The segment goes from `side` to the other, in two reads. -/
def carried (side other : Side) (segment : LtpSegment) : List ClaStep :=
  [.process side (.tx .take), .process side (.tx (.write (frameMessage segment.wire).length)),
    .process other (.rx (.read ((frameMessage segment.wire).take 9))),
    .process other (.rx (.read ((frameMessage segment.wire).drop 9))),
    .process other (.onSegment fun _ _ => [])]

/-- Two bytes from a client of A to a client of B. -/
def delivery : List ClaStep :=
  [.process .a (.tx (.connect true)), .process .b (.tx (.connect true)),
    .process .a (.ingress (.accept 3)), .process .a (.ingress (.read 3 (frameMessage [7, 8]))),
    .process .a (.onData fun _ _ => [])] ++
  carried .a .b wholeBlock ++ carried .b .a fullReport ++ carried .a .b ackOfReport ++
  [.process .b (.accept fun frame _ => [frame.bytes.length])]

theorem reachable_of_delivery {check : Net → Side × Action → Bool}
    {guard : Net → Side × Action → Prop} (hcheck : ∀ n step, check n step = true → guard n step)
    {n : ClaNet} (h : System.run ClaNet.exec (linkCheck check) twoProcesses delivery = some n) :
    (claNetwork (processConfig 1) (processConfig 2)).Reachable (LinkGuard guard) n :=
  ⟨_, ⟨0, 0, rfl⟩, System.path_of_run (fun _ _ _ hstep => hstep) (linkGuard_of_check hcheck) h⟩

theorem refines_network_delivery : ∃ n,
    System.run ClaNet.exec (linkCheck timelyCheck) twoProcesses delivery = some n ∧
      n.b.rx.taken = [wholeBlock.wire, ackOfReport.wire] ∧
      (network (nodeConfig 1 1400) (nodeConfig 2 1400)).Reachable (NetGuard True) n.net := by
  have hcheck : (System.run ClaNet.exec (linkCheck timelyCheck) twoProcesses delivery).map
      (fun n => decide (n.b.rx.taken = [wholeBlock.wire, ackOfReport.wire])) = some true := by
    decide +kernel
  obtain ⟨n, hrun, hn⟩ := Option.map_eq_some_iff.mp hcheck
  exact ⟨n, hrun, of_decide_eq_true hn, (refines_network (processConfig 1) (processConfig 2)
    (NetGuard True) n (reachable_of_delivery netGuard_of_check hrun)).1⟩

end QpskB210.Ltp
