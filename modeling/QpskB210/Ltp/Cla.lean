import QpskB210.Ltp.ClaTransmit
import QpskB210.Ltp.Config
import QpskB210.Ltp.EgressStreams
import QpskB210.Ltp.Link
import QpskB210.Ltp.NetworkRuns

/-!
# LTP — The process

What `main` puts together: the ingress server starts sessions, the transmit
and the receive side of the convergence layer carry the engine's segments,
the timer manager lets timers expire, and the egress server hands out what
arrived. Each of the threads is at one place at a time.

A call into the engine is one step, and so is the expiry of a timer: the pop
and the callback. In the source nothing makes them so: the engine has no lock
of its own, and `thread_func` runs a callback after it has let go of its lock.
A thread that has more messages to hand over calls the engine once for each of
them, with other threads in between.

`send_segment` and `on_data_arrival` are called during a call of the engine:
the events that it adds to its trace say with what.
-/

namespace QpskB210.Ltp

open QpskB210.Lib

/-- The block of an `on_data_arrival` call. -/
def Event.arrival : Event → Option (List UInt8)
  | .dataArrival _ data => some data
  | _ => none

/-- The blocks delivered, in order. -/
def arrivals (trace : List Event) : List (List UInt8) := trace.filterMap Event.arrival

@[simp] theorem arrivals_append (trace trace' : List Event) :
    arrivals (trace ++ trace') = arrivals trace ++ arrivals trace' :=
  List.filterMap_append

/-- A message as a block. -/
def toBlock (bytes : List UInt8) : Option Block :=
  if h : bytes.length < 2 ^ 57 then some ⟨bytes, h⟩ else none

theorem toBlock_eq_some {bytes : List UInt8} {data : Block} :
    toBlock bytes = some data ↔ data.bytes = bytes := by
  obtain ⟨bytes', hsize⟩ := data
  rw [toBlock]
  split
  · simp [eq_comm]
  · rename_i hlong
    refine iff_of_false (by simp) fun heq => hlong ?_
    rwa [← show bytes' = bytes from heq]

namespace Node

/-- The segment callback: what can be decoded goes to the engine. -/
def receive (node : Node) (bytes : List UInt8) : Option Node :=
  match node.engine.receiveBytes bytes with
  | .ok e =>
    some { engine := e,
           journal := { node.journal with received := node.journal.received ++ decoded bytes } }
  | .error _ => none

/-- The call of a callback, if it returns. -/
def perform (node : Node) : Action → Option Node
  | .receive bytes => node.receive bytes
  | action => node.exec [] action

/-- It is a step of the network if the peer has sent what is received. -/
theorem exec_of_perform {node node' : Node} {action : Action} {peer : List Event}
    (h : node.perform action = some node')
    (hsent : ∀ bytes, action = .receive bytes → .sendSegment bytes ∈ peer) :
    node.exec peer action = some node' := by
  cases action with
  | receive bytes => exact (if_pos (hsent bytes rfl)).trans h
  | startSession data reliable => exact h
  | cancelSession engineId sessionNumber reason => exact h
  | expire entry => exact h
  | handleTimerExpiry event => exact h

theorem engine_of_perform {node node' : Node} {action : Action}
    (h : node.perform action = some node') : node.engine.exec action = .ok node'.engine := by
  cases action with
  | receive bytes => exact node_exec (@exec_of_perform _ _ _ [.sendSegment bytes] h (by simp))
  | startSession data reliable => exact node_exec (@exec_of_perform _ _ _ [] h (by simp))
  | cancelSession engineId sessionNumber reason =>
      exact node_exec (@exec_of_perform _ _ _ [] h (by simp))
  | expire entry => exact node_exec (@exec_of_perform _ _ _ [] h (by simp))
  | handleTimerExpiry event => cases h

/-- What is noted of a call that starts a session. -/
theorem started_of_perform {node node' : Node} {action : Action}
    (h : node.perform action = some node') :
    node'.journal.started = node.journal.started ∨
      ∃ sn data reliable, action = .startSession data reliable ∧
        node'.journal.started = node.journal.started ++ [⟨sn, data.bytes, reliable⟩] := by
  cases action with
  | startSession data reliable =>
      replace h : node.exec [] (.startSession data reliable) = some node' := h
      rw [exec] at h
      split at h
      · rename_i sn _
        cases h
        rw [noteStart]
        split
        · exact .inl rfl
        · exact .inr ⟨sn, data, reliable, rfl, rfl⟩
      · cases h
  | cancelSession engineId sessionNumber reason =>
      replace h : node.exec [] (.cancelSession engineId sessionNumber reason) = some node' := h
      rw [exec] at h
      split at h
      · cases h
        exact .inl rfl
      · cases h
  | receive bytes =>
      replace h : node.receive bytes = some node' := h
      rw [receive] at h
      split at h
      · cases h
        exact .inl rfl
      · cases h
  | expire entry =>
      replace h : node.exec [] (.expire entry) = some node' := h
      rw [exec] at h
      split at h
      · cases h
        exact .inl rfl
      · cases h
  | handleTimerExpiry event => cases h

end Node

/-! ## The process -/

/-- The counters say how many of the messages that a thread took off its
buffer the engine has been called with. -/
structure Cla where
  reliable : Bool
  node : Node
  ingress : TcpIngress := {}
  tx : Transmitter := {}
  rx : RxState := {}
  egress : TcpEgress
  started : Nat := 0
  received : Nat := 0

/-- What a thread of the process does next. `answers` is what `::write`
answers to the egress server. -/
inductive ClaEvent where
  | ingress (event : IngressEvent)
  | onData (answers : Answers)
  | rx (event : RxEvent)
  | onSegment (answers : Answers)
  | expire (entry : TimerEntry) (answers : Answers)
  | tx (event : TxEvent)
  | accept (answers : Answers)

namespace Cla

/-- The components as `main` constructs them. -/
def create (config : LtpClaConfig) (now : Nat) : Cla :=
  { reliable := config.ingress.defaultReliable
    node := Node.create config.ltp now
    egress := TcpEgress.create config.egress.maxBufferBytes }

/-- After a call of the engine: the segments are in the transmit queue, and
the blocks at the egress server. -/
def after (p : Cla) (answers : Answers) (node : Node) : Cla :=
  let events := node.engine.trace.drop p.node.engine.trace.length
  { p with
    node := node
    tx := (sends events).foldl Transmitter.sendSegment p.tx
    egress := (arrivals events).foldl (fun egress data => egress.deliver data answers) p.egress }

/-- The call of the engine that the event makes. -/
def action (p : Cla) : ClaEvent → Option Action
  | .onData _ =>
    match p.ingress.handed[p.started]? with
    | some (_, msg) => (toBlock msg).map fun data => .startSession data p.reliable
    | none => none
  | .onSegment _ => (p.rx.taken[p.received]?).map .receive
  | .expire entry _ => some (.expire entry)
  | _ => none

/-- One step. A thread goes on when it has handed over all it took. -/
def exec (p : Cla) (event : ClaEvent) : Option Cla :=
  match event with
  | .ingress event =>
    if p.started < p.ingress.handed.length then none
    else some { p with ingress := p.ingress.run event }
  | .rx event =>
    if p.received < p.rx.taken.length then none else some { p with rx := runRx p.rx event }
  | .tx (.sendSegment _) => none
  | .tx event => (p.tx.step event).map fun tx => { p with tx := tx }
  | .accept answers => some { p with egress := p.egress.connect answers }
  | .onData answers =>
    (p.action event).bind fun action =>
      (p.node.perform action).map fun node =>
        { p.after answers node with started := p.started + 1 }
  | .onSegment answers =>
    (p.action event).bind fun action =>
      (p.node.perform action).map fun node =>
        { p.after answers node with received := p.received + 1 }
  | .expire _ answers =>
    (p.action event).bind fun action => (p.node.perform action).map (p.after answers)

/-- A message is counted when a session is started with it. -/
def Counts (p : Cla) (action : Action) (started : Nat) : Prop :=
  match action with
  | .startSession data reliable =>
    reliable = p.reliable ∧ (p.ingress.handed.map Prod.snd)[p.started]? = some data.bytes ∧
      started = p.started + 1
  | _ => started = p.started

/-- What a step is: a call of the engine, or a step of one component. -/
inductive Steps (p : Cla) (event : ClaEvent) (p' : Cla) : Prop where
  | call (action : Action) (answers : Answers) (node : Node) (haction : p.action event = some action)
      (hnode : p.node.perform action = some node) (hcount : p.Counts action p'.started)
      (h : p' = { p.after answers node with started := p'.started, received := p'.received })
  | ingress (e : IngressEvent) (hevent : event = .ingress e)
      (h : p' = { p with ingress := p.ingress.run e })
  | rx (e : RxEvent) (hevent : event = .rx e) (h : p' = { p with rx := runRx p.rx e })
  | tx (e : TxEvent) (tx : Transmitter) (hevent : event = .tx e)
      (hqueue : ∀ segment, e ≠ .sendSegment segment) (hstep : p.tx.step e = some tx)
      (h : p' = { p with tx := tx })
  | accept (answers : Answers) (hevent : event = .accept answers)
      (h : p' = { p with egress := p.egress.connect answers })

variable {p p' : Cla} {event : ClaEvent}

/-- The data callback starts a session with the next message. -/
theorem action_onData {answers : Answers} {action : Action}
    (h : p.action (.onData answers) = some action) :
    ∃ data, action = .startSession data p.reliable ∧
      (p.ingress.handed.map Prod.snd)[p.started]? = some data.bytes := by
  rw [Cla.action] at h
  split at h
  · rename_i fd msg hmsg
    obtain ⟨data, hdata, rfl⟩ := Option.map_eq_some_iff.mp h
    refine ⟨data, rfl, ?_⟩
    rw [List.getElem?_map, hmsg, toBlock_eq_some.mp hdata]
    rfl
  · cases h

theorem steps_of_exec (h : p.exec event = some p') : p.Steps event p' := by
  cases event with
  | ingress e =>
      rw [exec] at h
      split at h
      · cases h
      · exact .ingress e rfl (Option.some.inj h).symm
  | rx e =>
      rw [exec] at h
      split at h
      · cases h
      · exact .rx e rfl (Option.some.inj h).symm
  | tx e =>
      cases e with
      | sendSegment segment => cases h
      | connect connected =>
          obtain ⟨tx, hstep, rfl⟩ := Option.map_eq_some_iff.mp h
          exact .tx _ tx rfl (by simp) hstep rfl
      | take =>
          obtain ⟨tx, hstep, rfl⟩ := Option.map_eq_some_iff.mp h
          exact .tx _ tx rfl (by simp) hstep rfl
      | write n =>
          obtain ⟨tx, hstep, rfl⟩ := Option.map_eq_some_iff.mp h
          exact .tx _ tx rfl (by simp) hstep rfl
  | accept answers => exact .accept answers rfl (Option.some.inj h).symm
  | onData answers =>
      obtain ⟨action, haction, h⟩ := Option.bind_eq_some_iff.mp h
      obtain ⟨node, hnode, rfl⟩ := Option.map_eq_some_iff.mp h
      obtain ⟨data, rfl, hdata⟩ := action_onData haction
      exact .call _ answers node haction hnode ⟨rfl, hdata, rfl⟩ rfl
  | onSegment answers =>
      obtain ⟨action, haction, h⟩ := Option.bind_eq_some_iff.mp h
      obtain ⟨node, hnode, rfl⟩ := Option.map_eq_some_iff.mp h
      obtain ⟨bytes, -, rfl⟩ := Option.map_eq_some_iff.mp haction
      exact .call _ answers node haction hnode rfl rfl
  | expire entry answers =>
      obtain ⟨node, hnode, rfl⟩ := Option.map_eq_some_iff.mp h
      exact .call (.expire entry) answers node rfl hnode rfl rfl

/-! ## What the components have in common -/

section Components

variable {tx : Transmitter} {segments : List (List UInt8)}

theorem foldl_sendSegment (tx : Transmitter) (segments : List (List UInt8)) :
    segments.foldl Transmitter.sendSegment tx =
      { tx with queue := tx.queue ++ segments, enqueued := tx.enqueued ++ segments } := by
  induction segments generalizing tx with
  | nil => simp
  | cons segment segments ih => simp [ih, Transmitter.sendSegment]

theorem txInv_foldl (h : tx.TxInv) (segments : List (List UInt8)) :
    (segments.foldl Transmitter.sendSegment tx).TxInv := by
  induction segments generalizing tx with
  | nil => exact h
  | cons segment segments ih => exact ih (h.sendSegment segment)

/-- Only `send_segment` puts a segment into the queue. -/
theorem enqueued_step {tx' : Transmitter} {e : TxEvent}
    (hqueue : ∀ segment, e ≠ .sendSegment segment) (h : tx.step e = some tx') :
    tx'.enqueued = tx.enqueued := by
  cases e with
  | sendSegment segment => exact absurd rfl (hqueue segment)
  | connect connected =>
      rw [Transmitter.step, Transmitter.reconnect] at h
      grind
  | take =>
      rw [Transmitter.step, Transmitter.takeFront] at h
      grind
  | write n =>
      rw [Transmitter.step, Transmitter.writeRound] at h
      grind

theorem foldl_deliver (egress : TcpEgress) (answers : Answers) (blocks : List (List UInt8)) :
    blocks.foldl (fun egress data => egress.deliver data answers) egress =
      egress.run (blocks.map fun data => .deliver data answers) := by
  induction blocks generalizing egress with
  | nil => rfl
  | cons data blocks ih => exact ih _

theorem run_append (egress : TcpEgress) (calls calls' : List EgressCall) :
    egress.run (calls ++ calls') = (egress.run calls).run calls' :=
  List.foldl_append

theorem delivered_deliver (egress : TcpEgress) (data : List UInt8) (answers : Answers) :
    (egress.deliver data answers).delivered = egress.delivered ++ [egress.nextFrame data] := by
  by_cases hclients : egress.clients = []
  · rw [TcpEgress.deliver_of_noClients hclients]
    rfl
  · rw [TcpEgress.deliver_of_clients hclients]
    rfl

theorem delivered_connect (egress : TcpEgress) (answers : Answers) :
    (egress.connect answers).delivered = egress.delivered :=
  @TcpEgress.flushLoop_induction egress.joined answers
    (fun t => t.delivered = egress.delivered) (fun _ _ _ _ _ h => h) egress.buffer rfl rfl

theorem delivered_foldl (egress : TcpEgress) (answers : Answers) (blocks : List (List UInt8)) :
    (blocks.foldl (fun egress data => egress.deliver data answers) egress).delivered.map Frame.data =
      egress.delivered.map Frame.data ++ blocks := by
  induction blocks generalizing egress with
  | nil => simp
  | cons data blocks ih =>
      rw [List.foldl_cons, ih, delivered_deliver]
      simp [TcpEgress.nextFrame, Frame.data, frameMessage, lengthPrefix]

theorem handed_run (ingress : TcpIngress) (event : IngressEvent) :
    ingress.handed <+: (ingress.run event).handed := by
  rw [TcpIngress.run]
  split
  · exact List.prefix_refl _
  · cases event with
    | accept fd => exact List.prefix_refl _
    | closed fd => exact List.prefix_refl _
    | read fd chunk =>
        dsimp only
        split
        · exact List.prefix_refl _
        · exact List.prefix_append _ _

end Components

/-- What is known of a process by itself. -/
structure Inv (config : LtpClaConfig) (p : Cla) : Prop where
  reliable : p.reliable = config.ingress.defaultReliable
  stored : p.node.engine.WellStored
  tx : p.tx.TxInv
  enqueued : p.tx.enqueued = sends p.node.engine.trace
  egress : ∃ calls, p.egress = (TcpEgress.create config.egress.maxBufferBytes).run calls
  delivered : p.egress.delivered.map Frame.data = arrivals p.node.engine.trace
  started : (p.node.journal.started.map Start.data).Sublist
    ((p.ingress.handed.map Prod.snd).take p.started)
  alike : ∀ start ∈ p.node.journal.started, start.reliable = p.reliable

theorem inv_create (config : LtpClaConfig) (now : Nat) : (create config now).Inv config where
  reliable := rfl
  stored := LtpEngine.wellStored_create _ _
  tx := ⟨⟨[], [], .nil, rfl, rfl⟩, rfl⟩
  enqueued := rfl
  egress := ⟨[], rfl⟩
  delivered := rfl
  started := List.nil_sublist _
  alike := by
    intro start hstart
    cases hstart

/-- What the engine receives was taken off the receive buffer. -/
theorem action_receive {bytes : List UInt8} (h : p.action event = some (.receive bytes)) :
    bytes ∈ p.rx.taken := by
  cases event with
  | onSegment answers =>
      obtain ⟨msg, hmsg, h⟩ := Option.map_eq_some_iff.mp h
      cases h
      exact List.mem_of_getElem? hmsg
  | onData answers =>
      rw [action] at h
      split at h
      · obtain ⟨data, -, h⟩ := Option.map_eq_some_iff.mp h
        cases h
      · cases h
  | expire entry answers => cases h
  | ingress e => cases h
  | rx e => cases h
  | tx e => cases h
  | accept answers => cases h

/-- The sessions that were started are, in order, of messages handed over. -/
theorem Inv.started_after {config : LtpClaConfig} (hinv : p.Inv config) {action : Action} {node : Node}
    {started : Nat} (hnode : p.node.perform action = some node) (hcount : p.Counts action started) :
    (node.journal.started.map Start.data).Sublist
        ((p.ingress.handed.map Prod.snd).take started) ∧
      ∀ start ∈ node.journal.started, start.reliable = p.reliable := by
  have hle : p.started ≤ started := by
    cases action with
    | startSession data reliable => exact hcount.2.2 ▸ Nat.le_succ _
    | cancelSession engineId sessionNumber reason => exact hcount.ge
    | receive bytes => exact hcount.ge
    | expire entry => exact hcount.ge
    | handleTimerExpiry event => exact hcount.ge
  rcases Node.started_of_perform hnode with hsame | ⟨sn, data, reliable, rfl, hnew⟩
  · rw [hsame]
    exact ⟨hinv.started.trans (List.take_sublist_take_left hle), hinv.alike⟩
  · obtain ⟨rfl, hdata, rfl⟩ := hcount
    rw [hnew]
    constructor
    · rw [List.map_append, List.take_add_one, hdata]
      exact hinv.started.append (List.Sublist.refl _)
    · intro start hstart
      rcases List.mem_append.mp hstart with hold | hstart
      · exact hinv.alike start hold
      · rw [List.mem_singleton.mp hstart]

theorem Inv.steps {config : LtpClaConfig} (hinv : p.Inv config) (h : p.Steps event p') :
    p'.Inv config := by
  cases h with
  | call action answers node haction hnode hcount h =>
      have hexec := Node.engine_of_perform hnode
      obtain ⟨_, hconfined⟩ := LtpEngine.exec_confined hinv.stored hexec
      obtain ⟨events, htrace⟩ := hconfined.trace
      have hdrop : node.engine.trace.drop p.node.engine.trace.length = events := by
        rw [← htrace, List.drop_left]
      rw [h]
      exact
        { reliable := hinv.reliable
          stored := hinv.stored.exec hexec
          tx := txInv_foldl hinv.tx _
          enqueued := by
            dsimp only [after]
            rw [foldl_sendSegment, hdrop, hinv.enqueued, ← htrace, sends_append]
          egress := by
            obtain ⟨calls, hcalls⟩ := hinv.egress
            dsimp only [after]
            rw [foldl_deliver, hcalls, ← run_append]
            exact ⟨_, rfl⟩
          delivered := by
            dsimp only [after]
            rw [delivered_foldl, hdrop, hinv.delivered, ← htrace, arrivals_append]
          started := (hinv.started_after hnode hcount).1
          alike := (hinv.started_after hnode hcount).2 }
  | ingress e _ h =>
      rw [h]
      exact { hinv with
        started := hinv.started.trans (((handed_run p.ingress e).map Prod.snd).take _).sublist }
  | rx e _ h =>
      rw [h]
      exact { hinv with }
  | tx e tx _ hqueue hstep h =>
      rw [h]
      exact { hinv with
        tx := hinv.tx.step hstep
        enqueued := (enqueued_step hqueue hstep).trans hinv.enqueued }
  | accept answers _ h =>
      rw [h]
      refine { hinv with egress := ?_, delivered := ?_ }
      · obtain ⟨calls, hcalls⟩ := hinv.egress
        exact ⟨calls ++ [.connect answers], by rw [run_append, ← hcalls]; rfl⟩
      · exact (congrArg _ (delivered_connect p.egress answers)).trans hinv.delivered

end Cla

end QpskB210.Ltp
