import QpskB210.Modem.RxThread
import QpskB210.Modem.SpscQueue

/-!
# Modem — RxQueue

The receive thread and the output thread over the ring between them, at the
steps of `try_push` and `try_pop`, interleaved in any way. `RxRun` takes a push
as part of the round that makes it, and a pop as one event. It loses nothing:
each state of the two threads shows one of its states, which steps where the
ring answers (`exists_shown`).
-/

namespace QpskB210.Modem

open QpskB210.Lib QpskB210.Lib.Fifo

/-! ## The two threads -/

/-- The receive thread is in a call of `try_push` or between two rounds. -/
structure RxThreads where
  thread : RxThread
  ring : Observed (List UInt8) := {}
  pushing : Option (List UInt8) := none
  stream : List (Sample ℚ) := []
  attempts : List Attempt := []

inductive RxTurn where
  | receive (packets : List RxPacket)
  /-- The next step of `try_push`. -/
  | push
  /-- The next step of the output thread's `try_pop`. -/
  | pop

namespace RxThreads

/-- What is noted of a round, whose payload is now to be pushed. -/
def note (s : RxThreads) (samples : List (Sample ℚ))
    (next : RxThread × Option (Option (List UInt8))) : RxThreads where
  thread := next.1
  ring := s.ring
  pushing := next.2.bind queued
  stream := s.stream ++ samples
  attempts := s.attempts ++ next.2.toList.map fun decoded =>
    { start := s.stream.length - s.thread.rxBuffer.length
      stop := (s.stream ++ samples).length
      decoded := decoded }

def exec (m : MathFunctions) (fuel : ℕ) (s : RxThreads) : RxTurn → Option RxThreads
  | .receive packets =>
    match s.pushing with
    | some _ => none
    | none =>
      match recv rxBatchSize packets with
      | none => none
      | some (.error _) => some s
      | some (.ok samples) => (s.thread.round m fuel samples).map (s.note samples)
  | .push =>
    match s.pushing with
    | none => none
    | some payload =>
      -- the call ends with its answer
      let returned := (s.ring.ring.producerStep rxQueueCapacity payload).2.isSome
      some
        { s with
          ring := s.ring.turn rxQueueCapacity (.producer payload)
          pushing := if returned then none else some payload }
  | .pop => some { s with ring := s.ring.turn rxQueueCapacity .consumer }

end RxThreads

/-- The two threads of a program that has just started. -/
def rxThreads (m : MathFunctions) (config : Config) (shaper : PulseShaper (Sample ℚ)) :
    System RxThreads RxTurn where
  init s := ∃ receiver, Receiver.create m config shaper = .ok receiver ∧
    s = { thread := { receiver := receiver } }
  step s turn s' := ∃ fuel, s.exec m fuel turn = some s'

/-! ## What a call of `try_push` answers -/

/-- The producer is not in a call, or in one with this item. -/
def Producer.In {T : Type} (item : T) : Producer T → Prop
  | .idle => True
  | .loadedHead held _ _ | .hasRoom held _ _ | .writing held _ _ | .written held _ => held = item

namespace Ring

variable {T : Type} {capacity : ℕ} {r : Ring T} {item : T}

/-- The call goes on with its item, until it answers that it has pushed it or
that the queue is full. -/
theorem producerStep_in (h : r.producer.In item) :
    match (r.producerStep capacity item).2 with
    | none => (r.producerStep capacity item).1.producer.In item
    | some event => (r.producerStep capacity item).1.producer = .idle ∧
        (event = .pushed (some item) ∨ event = .full) := by
  unfold producerStep
  cases hpc : r.producer with
  | idle => rfl
  | loadedHead held curHead nextHead =>
      rw [hpc] at h
      dsimp only
      split
      · rename_i event hanswer
        split at hanswer
        · cases hanswer
        · rename_i hroom
          rw [if_neg hroom]
          exact h
      · rename_i event hanswer
        split at hanswer
        · rename_i hfull
          cases hanswer
          rw [if_pos hfull]
          exact ⟨rfl, .inr rfl⟩
        · cases hanswer
  | hasRoom held curHead nextHead | writing held curHead nextHead =>
      rw [hpc] at h
      exact h
  | written held nextHead =>
      rw [hpc] at h
      cases h
      exact ⟨rfl, .inl rfl⟩

theorem producer_consumerStep : (r.consumerStep capacity).1.producer = r.producer := by
  unfold consumerStep
  split <;> try rfl
  split <;> rfl

end Ring

/-! ## The simulation -/

/-- The receive thread's part: it is where `r` is, or in the push of a round
that `r` has not made yet. -/
def RxThreads.Ahead (m : MathFunctions) (s : RxThreads) (r : RxRun) : Prop :=
  match s.pushing with
  | none => s.ring.ring.producer = .idle ∧
      s.thread = r.thread ∧ s.stream = r.stream ∧ s.attempts = r.attempts
  | some payload => s.ring.ring.producer.In payload ∧
      ∃ packets samples fuel next, recv rxBatchSize packets = some (.ok samples) ∧
        r.thread.round m fuel samples = some next ∧ next.2.bind queued = some payload ∧
        s.thread = next.1 ∧ s.stream = r.stream ++ samples ∧
        s.attempts = (r.note samples next).attempts

/-- What the two threads show: the ring holds the list, and what has come out
of it was taken. -/
structure RxThreads.Shows (m : MathFunctions) (s : RxThreads) (r : RxRun) : Prop where
  holds : s.ring.ring.Holds rxQueueCapacity (r.rxToOutput.map some)
  taken : pops s.ring.events = r.taken.map some
  ahead : s.Ahead m r

namespace RxThreads

variable {m : MathFunctions} {fuel : ℕ} {s s' : RxThreads} {r : RxRun}

/-- A round that goes on without a push is one of `r`. -/
theorem Shows.receive {packets : List RxPacket} (h : s.Shows m r)
    (hexec : s.exec m fuel (.receive packets) = some s') :
    ∃ r', (r' = r ∨ r.exec m fuel (.receive packets) = some r') ∧ s'.Shows m r' := by
  have hahead := h.ahead
  unfold Ahead at hahead
  rw [exec] at hexec
  cases hpushing : s.pushing with
  | some payload =>
      rw [hpushing] at hexec
      cases hexec
  | none =>
      rw [hpushing] at hexec hahead
      obtain ⟨hidle, hthread, hstream, hattempts⟩ := hahead
      dsimp only at hexec
      cases hrecv : recv rxBatchSize packets with
      | none =>
          rw [hrecv] at hexec
          cases hexec
      | some received =>
          rw [hrecv] at hexec
          cases received with
          | error code =>
              cases hexec
              exact ⟨r, .inl rfl, h⟩
          | ok samples =>
              obtain ⟨next, hround, rfl⟩ := Option.map_eq_some_iff.mp hexec
              rw [hthread] at hround
              have hnote : (s.note samples next).attempts = (r.note samples next).attempts := by
                simp only [note, RxRun.note, RxRun.start, hthread, hstream, hattempts]
              have hmore : (s.note samples next).stream = r.stream ++ samples := by
                simp only [note, hstream]
              cases hpayload : next.2.bind queued with
              | some payload =>
                  -- `r` makes the round when the push is answered
                  refine ⟨r, .inl rfl, ⟨h.holds, h.taken, ?_⟩⟩
                  unfold Ahead
                  rw [show (s.note samples next).pushing = some payload from hpayload]
                  refine ⟨?_, packets, samples, fuel, next, hrecv, hround, hpayload, rfl, hmore,
                    hnote⟩
                  show s.ring.ring.producer.In payload
                  rw [hidle]
                  trivial
              | none =>
                  refine ⟨r.note samples next, .inr ?_, ⟨?_, h.taken, ?_⟩⟩
                  · rw [RxRun.exec, hrecv]
                    dsimp only
                    rw [hround, Option.map_some]
                  · show s.ring.ring.Holds rxQueueCapacity
                      (((next.2.bind queued).toList.foldl tryPush r.rxToOutput).map some)
                    rw [hpayload]
                    exact h.holds
                  · unfold Ahead
                    rw [show (s.note samples next).pushing = none from hpayload]
                    exact ⟨hidle, rfl, hmore, hnote⟩

/-- Where the ring answers a push, `tryPush` does to the list what it does. -/
theorem tryPush_of_step {queue : List (List UInt8)} {payload : List UInt8}
    {event : Event (Option (List UInt8))} {q' : List (Option (List UInt8))}
    (hstep : Step (rxQueueCapacity - 1) (queue.map some) event q')
    (hevent : event = .pushed (some payload) ∨ event = .full) :
    q' = (tryPush queue payload).map some := by
  generalize hcells : queue.map some = cells at hstep
  have hlength : cells.length = queue.length := by
    rw [← hcells, List.length_map]
  rw [tryPush]
  rcases hevent with rfl | rfl
  · cases hstep with
    | pushed a hroom =>
        rw [if_pos (by unfold rxQueueCapacity at *; omega), List.map_append, hcells]
        rfl
  · cases hstep with
    | full hfull => rw [if_neg (by unfold rxQueueCapacity at *; omega), hcells]

/-- A step of a push, which `r` makes with its round when it is answered. -/
theorem Shows.push (h : s.Shows m r) (hexec : s.exec m fuel .push = some s') :
    ∃ r', (r' = r ∨ ∃ fuel packets, r.exec m fuel (.receive packets) = some r') ∧
      s'.Shows m r' := by
  have hahead := h.ahead
  unfold Ahead at hahead
  rw [exec] at hexec
  cases hpushing : s.pushing with
  | none =>
      rw [hpushing] at hexec
      cases hexec
  | some payload =>
      rw [hpushing] at hexec hahead
      obtain ⟨hin, packets, samples, fuel', next, hrecv, hround, hpayload, hthread, hstream,
        hattempts⟩ := hahead
      cases hexec
      obtain ⟨q', hstep, hholds⟩ := h.holds.producerStep payload
      have hanswer := @Ring.producerStep_in _ rxQueueCapacity _ _ hin
      cases hevent : (s.ring.ring.producerStep rxQueueCapacity payload).2 with
      | none =>
          rw [hevent] at hstep hanswer
          obtain rfl : q' = _ := hstep
          refine ⟨r, .inl rfl, ⟨hholds, ?_, ?_⟩⟩
          · show pops (s.ring.turn rxQueueCapacity (.producer payload)).events = _
            rw [Observed.turn_producer_events, hevent, Option.toList_none, List.append_nil, h.taken]
          · unfold Ahead
            simp only [Option.isSome_none]
            exact ⟨hanswer, packets, samples, fuel', next, hrecv, hround, hpayload, hthread,
              hstream, hattempts⟩
      | some event =>
          rw [hevent] at hstep hanswer
          obtain ⟨hidle, hevents⟩ := hanswer
          have hqueue := tryPush_of_step hstep hevents
          have hnone : pops [event] = [] := by
            rcases hevents with rfl | rfl <;> rfl
          refine ⟨r.note samples next, .inr ⟨fuel', packets, ?_⟩, ⟨?_, ?_, ?_⟩⟩
          · rw [RxRun.exec, hrecv]
            dsimp only
            rw [hround, Option.map_some]
          · show Ring.Holds rxQueueCapacity _
              (((next.2.bind queued).toList.foldl tryPush r.rxToOutput).map some)
            rw [hpayload]
            exact hqueue ▸ hholds
          · show pops (s.ring.turn rxQueueCapacity (.producer payload)).events = _
            rw [Observed.turn_producer_events, hevent, Option.toList_some, pops_concat, hnone,
              List.append_nil, h.taken]
            rfl
          · unfold Ahead
            simp only [Option.isSome_some, if_true]
            exact ⟨hidle, hthread, hstream, hattempts⟩

/-- The receive thread does not see a pop. -/
theorem Ahead.of_same (h : s.Ahead m r) {ring : Observed (List UInt8)} {r' : RxRun}
    (hproducer : ring.ring.producer = s.ring.ring.producer) (hthread : r'.thread = r.thread)
    (hstream : r'.stream = r.stream) (hattempts : r'.attempts = r.attempts) :
    Ahead m { s with ring := ring } r' := by
  unfold Ahead at h ⊢
  dsimp only
  rw [hproducer, hthread, hstream, hattempts]
  split at h
  · exact h
  · obtain ⟨hin, packets, samples, fuel, next, hrecv, hround, hpayload, hthread', hstream',
      hattempts'⟩ := h
    refine ⟨hin, packets, samples, fuel, next, hrecv, hround, hpayload, hthread', hstream', ?_⟩
    simp only [hattempts', RxRun.note, RxRun.start, hthread, hstream, hattempts]

/-- A step of a pop, which `r` makes when it is answered. -/
theorem Shows.pop (h : s.Shows m r) (hexec : s.exec m fuel .pop = some s') :
    ∃ r', (r' = r ∨ r.exec m fuel .take = some r') ∧ s'.Shows m r' := by
  cases hexec
  obtain ⟨q', hstep, hholds⟩ := h.holds.consumerStep
  have hproducer := @Ring.producer_consumerStep _ rxQueueCapacity s.ring.ring
  have hsame : ∀ r' : RxRun, r'.thread = r.thread → r'.stream = r.stream →
      r'.attempts = r.attempts →
        Ahead m { s with ring := s.ring.turn rxQueueCapacity .consumer } r' :=
    fun r' => h.ahead.of_same hproducer
  cases hevent : (s.ring.ring.consumerStep rxQueueCapacity).2 with
  | none =>
      rw [hevent] at hstep
      obtain rfl : q' = _ := hstep
      refine ⟨r, .inl rfl, ⟨hholds, ?_, hsame r rfl rfl rfl⟩⟩
      show pops (s.ring.turn rxQueueCapacity .consumer).events = _
      rw [Observed.turn_consumer_events, hevent, Option.toList_none, List.append_nil, h.taken]
  | some event =>
      rw [hevent] at hstep
      have hpops : ∀ taken, pops [event] = taken →
          pops (s.ring.turn rxQueueCapacity .consumer).events = r.taken.map some ++ taken := by
        rintro taken rfl
        rw [Observed.turn_consumer_events, hevent, Option.toList_some, pops_concat, h.taken]
      generalize hcells : r.rxToOutput.map some = cells at hstep
      cases hstep with
      | pushed a hroom => exact absurd hevent Ring.not_pushed_consumerStep
      | full hfull =>
          refine ⟨r, .inl rfl, ⟨hcells ▸ hholds, ?_, hsame r rfl rfl rfl⟩⟩
          rw [hpops [] rfl, List.append_nil]
      | popped cell rest =>
          cases hqueue : r.rxToOutput with
          | nil =>
              rw [hqueue] at hcells
              cases hcells
          | cons payload queue =>
              rw [hqueue] at hcells
              cases hcells
              refine ⟨{ r with rxToOutput := queue, taken := r.taken ++ [payload] }, .inr ?_,
                ⟨hholds, ?_, hsame _ rfl rfl rfl⟩⟩
              · rw [RxRun.exec, hqueue]
              · rw [hpops [some payload] rfl, List.map_append]
                rfl
      | empty =>
          refine ⟨r, .inl rfl, ⟨hcells ▸ hholds, ?_, hsame r rfl rfl rfl⟩⟩
          rw [hpops [] rfl, List.append_nil]

/-- **The list stands for the ring.** Whatever the order of the steps, the two
threads show a state that a run with the list gets to. -/
theorem exists_shown {config : Config} {shaper : PulseShaper (Sample ℚ)}
    (h : (rxThreads m config shaper).Reachable System.free s) :
    ∃ r, (rxRuns m config shaper).Reachable System.free r ∧ s.Shows m r := by
  refine h.invariant (P := fun s => ∃ r, (rxRuns m config shaper).Reachable System.free r ∧
    s.Shows m r) (fun s hinit => ?_) fun s turn s' hs _ hstep => ?_
  · obtain ⟨receiver, hcreate, rfl⟩ := hinit
    exact ⟨{ thread := { receiver := receiver } }, .init ⟨receiver, hcreate, rfl⟩,
      ⟨Ring.Holds.initial (by decide), rfl, rfl, rfl, rfl, rfl⟩⟩
  · obtain ⟨r, hr, hshows⟩ := hs
    obtain ⟨fuel, hexec⟩ := hstep
    cases turn with
    | receive packets =>
        obtain ⟨r', hnext, hshows'⟩ := hshows.receive hexec
        rcases hnext with rfl | hnext
        · exact ⟨r', hr, hshows'⟩
        · exact ⟨r', hr.step (a := .receive packets) trivial ⟨fuel, hnext⟩, hshows'⟩
    | push =>
        obtain ⟨r', hnext, hshows'⟩ := hshows.push hexec
        rcases hnext with rfl | ⟨fuel', packets, hnext⟩
        · exact ⟨r', hr, hshows'⟩
        · exact ⟨r', hr.step (a := .receive packets) trivial ⟨fuel', hnext⟩, hshows'⟩
    | pop =>
        obtain ⟨r', hnext, hshows'⟩ := hshows.pop hexec
        rcases hnext with rfl | hnext
        · exact ⟨r', hr, hshows'⟩
        · exact ⟨r', hr.step (a := .take) trivial ⟨0, hnext⟩, hshows'⟩

/-- With the round that it is in the push of, `r` has made all attempts. -/
theorem Shows.exists_done {config : Config} {shaper : PulseShaper (Sample ℚ)} (h : s.Shows m r)
    (hr : (rxRuns m config shaper).Reachable System.free r) :
    ∃ r', (rxRuns m config shaper).Reachable System.free r' ∧ r'.attempts = s.attempts ∧
      r'.stream = s.stream ∧ r'.taken = r.taken := by
  have hahead := h.ahead
  unfold Ahead at hahead
  split at hahead
  · obtain ⟨-, -, hstream, hattempts⟩ := hahead
    exact ⟨r, hr, hattempts.symm, hstream.symm, rfl⟩
  · obtain ⟨-, packets, samples, fuel, next, hrecv, hround, -, -, hstream, hattempts⟩ := hahead
    refine ⟨r.note samples next, hr.step (a := .receive packets) trivial ⟨fuel, ?_⟩,
      hattempts.symm, hstream.symm, rfl⟩
    rw [RxRun.exec, hrecv]
    dsimp only
    rw [hround, Option.map_some]

/-- So the attempts are what they are there, and what the output thread gets
out of the ring are their payloads, whole, in order and none twice. -/
theorem attempts_of_threads {config : Config} {shaper : PulseShaper (Sample ℚ)} {r₀ : Receiver}
    (h₀ : Receiver.create m config shaper = .ok r₀)
    (h : (rxThreads m config shaper).Reachable System.free s) :
    (∀ a ∈ s.attempts, a.Sound m r₀ s.stream) ∧ s.attempts.Pairwise Attempt.Before ∧
      (pops s.ring.events).Sublist
        ((s.attempts.filterMap fun a => queued a.decoded).map some) := by
  obtain ⟨r, hr, hshows⟩ := exists_shown h
  obtain ⟨r', hr', hattempts, hstream, htaken⟩ := hshows.exists_done hr
  have hinv := RxRun.inv_of_reachable h₀ hr'
  have hordered : r'.Ordered := RxRun.ordered_of_reachable hr'
  rw [hshows.taken, ← hattempts, ← hstream, ← htaken]
  exact ⟨hinv.sound, hinv.ordered,
    ((List.sublist_append_left _ _).trans hordered).map some⟩

end RxThreads

end QpskB210.Modem
