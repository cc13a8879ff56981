import QpskB210.Modem.Receiver

/-!
# Modem — RxThread

The receive thread. It collects samples, and every so many new ones it makes
the decoder look at all that it has: an attempt. A payload empties the buffer;
without one, the buffer is cut to its last half when it has grown too long.
So no sample takes part in two payloads, and the attempts are those of a new
decoder at stretches of what was received (`RxRun.attempts_sound`); and every
stretch of half a buffer is offered to the decoder whole, unless a payload is
found while it comes in (`RxRun.offered`).
-/

namespace QpskB210.Modem

open QpskB210.Lib

/-! ## The driver -/

/-- What one call of the driver's `recv` comes to. -/
inductive RxPacket where
  | samples (received : List (Sample ℚ))
  | timeout
  /-- Samples were lost before these. -/
  | overflow (received : List (Sample ℚ))
  | error (code : Int)

/-- The loop of `B200Interface::recv`. The driver writes no more samples than
there is room for. It waits where the packets end. -/
def recvLoop (numSamples : ℕ) : List RxPacket → List (Sample ℚ) →
    Option (Except Int (List (Sample ℚ)))
  | [], buffer => if buffer.length < numSamples then none else some (.ok buffer)
  | packet :: packets, buffer =>
    if buffer.length < numSamples then
      match packet with
      -- a timeout is only logged, and what is there already stays
      | .timeout => recvLoop numSamples packets buffer
      | .samples received =>
        recvLoop numSamples packets (buffer ++ received.take (numSamples - buffer.length))
      | .overflow received =>
        recvLoop numSamples packets (buffer ++ received.take (numSamples - buffer.length))
      | .error code => some (.error code)
    else some (.ok buffer)

/-- `B200Interface::recv`, on the packets that come. -/
def recv (numSamples : ℕ) (packets : List RxPacket) : Option (Except Int (List (Sample ℚ))) :=
  recvLoop numSamples packets []

/-! ## The thread -/

/-- `RX_BATCH_SIZE`. -/
def rxBatchSize : ℕ := 4096

/-- `MIN_DECODE_SAMPLES`. -/
def minDecodeSamples : ℕ := 16384

/-- `MAX_BUFFER_SIZE`. -/
def maxBufferSize : ℕ := 262144

/-- The capacity of `rx_to_output`. -/
def rxQueueCapacity : ℕ := 64

/-- `try_push`, where it is not interrupted. One slot of the ring stays free. -/
def tryPush (queue : List (List UInt8)) (item : List UInt8) : List (List UInt8) :=
  if queue.length + 1 < rxQueueCapacity then queue ++ [item] else queue

structure RxThread where
  receiver : Receiver
  rxBuffer : List (Sample ℚ) := []
  samplesSinceLastDecode : ℕ := 0

/-- What goes into the queue of what was decoded: a payload that is not empty. -/
def queued (decoded : Option (List UInt8)) : Option (List UInt8) :=
  decoded.filter fun payload => !payload.isEmpty

namespace RxThread

/-- The buffer after an attempt. -/
def settle (t : RxThread) (decoded : Option (List UInt8)) : RxThread :=
  if (queued decoded).isSome then { t with rxBuffer := [] }
  else if t.rxBuffer.length > maxBufferSize then
    -- the last half may hold the start of a frame
    let discard := t.rxBuffer.length - maxBufferSize / 2
    { t with rxBuffer := t.rxBuffer.drop discard }
  else t

/-- A round of the loop with the samples of `recv`, and what was decoded if
there was an attempt. -/
def round (m : MathFunctions) (fuel : ℕ) (t : RxThread) (samples : List (Sample ℚ)) :
    Option (RxThread × Option (Option (List UInt8))) :=
  if samples.isEmpty then some (t, none)
  else
    let rxBuffer := t.rxBuffer ++ samples
    let samplesSinceLastDecode := t.samplesSinceLastDecode + samples.length
    if samplesSinceLastDecode < minDecodeSamples then
      some ({ t with rxBuffer := rxBuffer, samplesSinceLastDecode := samplesSinceLastDecode }, none)
    else
      (t.receiver.reset.decode m fuel rxBuffer).map fun outcome =>
        (settle { receiver := outcome.2, rxBuffer := rxBuffer } outcome.1, some outcome.1)

end RxThread

/-! ## Runs -/

/-- An attempt: where its window begins and ends in what was received, and
what was decoded. -/
structure Attempt where
  start : ℕ
  stop : ℕ
  decoded : Option (List UInt8)

/-- The thread and its queue, with all samples that `recv` has returned, the
attempts, and what the output thread has taken. -/
structure RxRun where
  thread : RxThread
  rxToOutput : List (List UInt8) := []
  stream : List (Sample ℚ) := []
  attempts : List Attempt := []
  taken : List (List UInt8) := []

inductive RxEvent where
  /-- A round of the receive thread, with the packets that come meanwhile. -/
  | receive (packets : List RxPacket)
  /-- The output thread calls `try_pop`. -/
  | take

namespace RxRun

/-- Where the buffer begins. -/
def start (s : RxRun) : ℕ := s.stream.length - s.thread.rxBuffer.length

/-- What is noted of a round. -/
def note (s : RxRun) (samples : List (Sample ℚ))
    (next : RxThread × Option (Option (List UInt8))) : RxRun where
  thread := next.1
  rxToOutput := (next.2.bind queued).toList.foldl tryPush s.rxToOutput
  stream := s.stream ++ samples
  attempts := s.attempts ++ next.2.toList.map fun decoded =>
    { start := s.start, stop := (s.stream ++ samples).length, decoded := decoded }
  taken := s.taken

/-- An event. When `recv` throws, the round ends. -/
def exec (m : MathFunctions) (fuel : ℕ) (s : RxRun) : RxEvent → Option RxRun
  | .receive packets =>
    match recv rxBatchSize packets with
    | none => none
    | some (.error _) => some s
    | some (.ok samples) => (s.thread.round m fuel samples).map (s.note samples)
  | .take =>
    match s.rxToOutput with
    | [] => some s
    | payload :: rest => some { s with rxToOutput := rest, taken := s.taken ++ [payload] }

end RxRun

/-- The receive thread of a program that has just started. -/
def rxRuns (m : MathFunctions) (config : Config) (shaper : PulseShaper (Sample ℚ)) :
    System RxRun RxEvent where
  init s := ∃ receiver, Receiver.create m config shaper = .ok receiver ∧
    s = { thread := { receiver := receiver } }
  step s event s' := ∃ fuel, s.exec m fuel event = some s'

/-! ## What is stated -/

/-- The attempt found a payload. -/
def Attempt.Delivers (a : Attempt) : Prop := (queued a.decoded).isSome

/-- What a new receiver makes of the window. -/
structure Attempt.Sound (m : MathFunctions) (r₀ : Receiver) (stream : List (Sample ℚ))
    (a : Attempt) : Prop where
  lt : a.start < a.stop
  size : a.stop ≤ a.start + (maxBufferSize + minDecodeSamples)
  within : a.stop ≤ stream.length
  decodes : ∃ fuel, (r₀.decode m fuel (window stream a.start (a.stop - a.start))).map Prod.fst =
    some a.decoded

/-- One attempt ends before the other, and begins no later; if it finds a
payload, it ends before the other begins. -/
structure Attempt.Before (a b : Attempt) : Prop where
  stop : a.stop < b.stop
  start : a.start ≤ b.start
  apart : a.Delivers → a.stop ≤ b.start

/-! ## One round -/

theorem length_recvLoop {numSamples : ℕ} {packets : List RxPacket}
    {buffer samples : List (Sample ℚ)} (hroom : buffer.length ≤ numSamples)
    (h : recvLoop numSamples packets buffer = some (.ok samples)) :
    samples.length = numSamples := by
  induction packets generalizing buffer with
  | nil =>
      rw [recvLoop] at h
      split at h
      · cases h
      · cases h
        omega
  | cons packet packets ih =>
      have hmore : ∀ received : List (Sample ℚ),
          (buffer ++ received.take (numSamples - buffer.length)).length ≤ numSamples := by
        intro received
        have htake := List.length_take_le (numSamples - buffer.length) received
        rw [List.length_append]
        omega
      unfold recvLoop at h
      split at h
      · cases packet with
        | timeout => exact ih hroom h
        | samples received => exact ih (hmore received) h
        | overflow received => exact ih (hmore received) h
        | error code => cases h
      · cases h
        omega

/-- A batch is whole. -/
theorem length_recv {numSamples : ℕ} {packets : List RxPacket} {samples : List (Sample ℚ)}
    (h : recv numSamples packets = some (.ok samples)) : samples.length = numSamples :=
  length_recvLoop (Nat.zero_le _) h

variable {m : MathFunctions} {fuel : ℕ}

/-- The buffer after an attempt: empty, its last half or as it was. -/
theorem RxThread.settle_cases (t : RxThread) (decoded : Option (List UInt8)) :
    ((queued decoded).isSome ∧ (t.settle decoded).rxBuffer = []) ∨
    (¬(queued decoded).isSome ∧ maxBufferSize < t.rxBuffer.length ∧
      (t.settle decoded).rxBuffer =
        t.rxBuffer.drop (t.rxBuffer.length - maxBufferSize / 2)) ∨
    (¬(queued decoded).isSome ∧ t.rxBuffer.length ≤ maxBufferSize ∧
      (t.settle decoded).rxBuffer = t.rxBuffer) := by
  by_cases hsome : (queued decoded).isSome
  · exact .inl ⟨hsome, by rw [settle, if_pos hsome]⟩
  · rcases Nat.lt_or_ge maxBufferSize t.rxBuffer.length with hlong | hshort
    · exact .inr (.inl ⟨hsome, hlong, by rw [settle, if_neg hsome, if_pos hlong]⟩)
    · exact .inr (.inr ⟨hsome, hshort, by rw [settle, if_neg hsome, if_neg (not_lt.mpr hshort)]⟩)

@[simp] theorem RxThread.receiver_settle (t : RxThread) (decoded : Option (List UInt8)) :
    (t.settle decoded).receiver = t.receiver := by
  unfold settle
  split
  · rfl
  · split <;> rfl

@[simp] theorem RxThread.samplesSinceLastDecode_settle (t : RxThread)
    (decoded : Option (List UInt8)) :
    (t.settle decoded).samplesSinceLastDecode = t.samplesSinceLastDecode := by
  unfold settle
  split
  · rfl
  · split <;> rfl

namespace RxRun

variable {s s' : RxRun} {samples : List (Sample ℚ)} {receiver r₀ : Receiver}
  {answer : Option (List UInt8)}

/-- A round without an attempt. -/
def collect (s : RxRun) (samples : List (Sample ℚ)) : RxRun :=
  { s with
    thread :=
      { s.thread with
        rxBuffer := s.thread.rxBuffer ++ samples
        samplesSinceLastDecode := s.thread.samplesSinceLastDecode + samples.length }
    stream := s.stream ++ samples }

/-- The attempt of a round. -/
def attemptOn (s : RxRun) (samples : List (Sample ℚ)) (answer : Option (List UInt8)) : Attempt where
  start := s.start
  stop := (s.stream ++ samples).length
  decoded := answer

/-- A round with an attempt. -/
def attempt (s : RxRun) (samples : List (Sample ℚ)) (receiver : Receiver)
    (answer : Option (List UInt8)) : RxRun where
  thread := RxThread.settle
    { receiver := receiver, rxBuffer := s.thread.rxBuffer ++ samples } answer
  rxToOutput := (queued answer).toList.foldl tryPush s.rxToOutput
  stream := s.stream ++ samples
  attempts := s.attempts ++ [s.attemptOn samples answer]
  taken := s.taken

/-- What an event can do. -/
theorem exec_cases {event : RxEvent} (h : s.exec m fuel event = some s') :
    s' = s ∨
    (∃ payload rest, s.rxToOutput = payload :: rest ∧
      s' = { s with rxToOutput := rest, taken := s.taken ++ [payload] }) ∨
    (∃ samples, samples.length = rxBatchSize ∧
      s.thread.samplesSinceLastDecode + samples.length < minDecodeSamples ∧
      s' = s.collect samples) ∨
    ∃ samples receiver answer, samples.length = rxBatchSize ∧
      minDecodeSamples ≤ s.thread.samplesSinceLastDecode + samples.length ∧
      s.thread.receiver.reset.decode m fuel (s.thread.rxBuffer ++ samples) =
        some (answer, receiver) ∧
      s' = s.attempt samples receiver answer := by
  cases event with
  | take =>
      rw [exec] at h
      split at h
      · cases h
        exact .inl rfl
      · rename_i payload rest hqueue
        cases h
        exact .inr (.inl ⟨payload, rest, hqueue, rfl⟩)
  | receive packets =>
      rw [exec] at h
      split at h
      · cases h
      · cases h
        exact .inl rfl
      · rename_i samples hrecv
        have hlength := length_recv hrecv
        have hne : samples.isEmpty = false := by
          cases samples with
          | nil => cases hlength
          | cons sample samples => rfl
        obtain ⟨next, hround, rfl⟩ := Option.map_eq_some_iff.mp h
        rw [RxThread.round, if_neg (by rw [hne]; decide)] at hround
        dsimp only at hround
        split at hround
        · rename_i hfew
          cases hround
          refine .inr (.inr (.inl ⟨samples, hlength, hfew, ?_⟩))
          simp [note, collect]
        · rename_i hmany
          obtain ⟨outcome, hdecode, rfl⟩ := Option.map_eq_some_iff.mp hround
          refine .inr (.inr (.inr ⟨samples, outcome.2, outcome.1, hlength, not_lt.mp hmany,
            hdecode, ?_⟩))
          simp [note, attempt, attemptOn]

/-! ## The invariant -/

/-- Why the buffer begins here: nothing has been taken off it, an attempt has
emptied it, or one has cut it to its last half. -/
def Begun (attempts : List Attempt) (start : ℕ) : Prop :=
  start = 0 ∨ ∃ a ∈ attempts, (a.Delivers ∧ start = a.stop) ∨ start + maxBufferSize / 2 = a.stop

/-- What holds of the samples and the attempts between two rounds. -/
structure Inv (m : MathFunctions) (r₀ : Receiver) (s : RxRun) : Prop where
  tuned : s.thread.receiver.SameTuning r₀
  buffer : s.thread.rxBuffer <:+ s.stream
  rounds : ∃ n, s.stream.length = rxBatchSize * n ∧
    s.thread.samplesSinceLastDecode = rxBatchSize * (n % 4) ∧
    s.attempts.map Attempt.stop = (List.range (n / 4)).map fun k => minDecodeSamples * (k + 1)
  size : s.thread.rxBuffer.length ≤ maxBufferSize + s.thread.samplesSinceLastDecode
  sound : ∀ a ∈ s.attempts, a.Sound m r₀ s.stream
  ordered : s.attempts.Pairwise Attempt.Before
  apart : ∀ a ∈ s.attempts, a.start ≤ s.start ∧ (a.Delivers → a.stop ≤ s.start)
  begun : Begun s.attempts s.start
  begunBefore : ∀ a ∈ s.attempts, Begun (s.attempts.filter fun b => b.stop < a.stop) a.start

/-- A window of what was received stays as it is. -/
theorem window_append {stream more : List (Sample ℚ)} {start stop : ℕ} (h : stop ≤ stream.length) :
    window (stream ++ more) start (stop - start) = window stream start (stop - start) := by
  rw [window, window, ← List.drop_take, ← List.drop_take, List.take_append_of_le_length h]

end RxRun

theorem Attempt.Sound.append {a : Attempt} {r₀ : Receiver} {stream : List (Sample ℚ)}
    (h : a.Sound m r₀ stream) (more : List (Sample ℚ)) : a.Sound m r₀ (stream ++ more) where
  lt := h.lt
  size := h.size
  within := by
    rw [List.length_append]
    exact h.within.trans (Nat.le_add_right ..)
  decodes := by
    rw [RxRun.window_append h.within]
    exact h.decodes

namespace RxRun

variable {s s' : RxRun} {samples : List (Sample ℚ)} {receiver r₀ : Receiver}
  {answer : Option (List UInt8)}

theorem Inv.start_add (h : s.Inv m r₀) :
    s.start + s.thread.rxBuffer.length = s.stream.length :=
  Nat.sub_add_cancel h.buffer.length_le

/-- The buffer with new samples begins where it did. -/
theorem Inv.buffer_append (h : s.Inv m r₀) (samples : List (Sample ℚ)) :
    s.thread.rxBuffer ++ samples = (s.stream ++ samples).drop s.start := by
  have hsuffix : s.thread.rxBuffer ++ samples <:+ s.stream ++ samples :=
    List.suffix_append_self_iff.mpr h.buffer
  have hdrop := List.suffix_iff_eq_drop.mp hsuffix
  rwa [List.length_append, List.length_append, Nat.add_sub_add_right] at hdrop

theorem start_collect (s : RxRun) (samples : List (Sample ℚ)) :
    (s.collect samples).start = s.start := by
  simp only [start, collect, List.length_append]
  omega

theorem Inv.collect (h : s.Inv m r₀) (hlength : samples.length = rxBatchSize)
    (hfew : s.thread.samplesSinceLastDecode + samples.length < minDecodeSamples) :
    (s.collect samples).Inv m r₀ where
  tuned := h.tuned
  buffer := List.suffix_append_self_iff.mpr h.buffer
  rounds := by
    obtain ⟨n, hstream, hsince, hstops⟩ := h.rounds
    refine ⟨n + 1, ?_, ?_, ?_⟩
    · simp only [RxRun.collect, List.length_append]
      rw [hstream, hlength, Nat.mul_add_one]
    · simp only [RxRun.collect]
      unfold rxBatchSize minDecodeSamples at *
      omega
    · -- a fourth round would have had samples enough for an attempt
      have hsame : (n + 1) / 4 = n / 4 := by
        unfold rxBatchSize minDecodeSamples at *
        omega
      rw [hsame]
      exact hstops
  size := by
    have hsize := h.size
    simp only [RxRun.collect, List.length_append]
    omega
  sound := fun a ha => (h.sound a ha).append samples
  ordered := h.ordered
  apart := by
    rw [start_collect]
    exact h.apart
  begun := by
    rw [start_collect]
    exact h.begun
  begunBefore := h.begunBefore

/-- Where the buffer begins after an attempt. -/
theorem start_attempt (h : s.Inv m r₀) :
    ((queued answer).isSome ∧
      (s.attempt samples receiver answer).start = (s.stream ++ samples).length) ∨
    (¬(queued answer).isSome ∧ s.start ≤ (s.attempt samples receiver answer).start ∧
      (s.attempt samples receiver answer).start + maxBufferSize / 2 =
        (s.stream ++ samples).length) ∨
    (¬(queued answer).isSome ∧ (s.attempt samples receiver answer).start = s.start) := by
  have hadd := h.start_add
  have hsettled := RxThread.settle_cases
    { receiver := receiver, rxBuffer := s.thread.rxBuffer ++ samples } answer
  simp only [start, attempt, List.length_append] at hadd hsettled ⊢
  rcases hsettled with ⟨hsome, hbuffer⟩ | ⟨hnone, hlong, hbuffer⟩ | ⟨hnone, hshort, hbuffer⟩
  · rw [hbuffer, List.length_nil]
    exact .inl ⟨hsome, rfl⟩
  · rw [hbuffer, List.length_drop, List.length_append]
    refine .inr (.inl ⟨hnone, ?_, ?_⟩) <;> unfold maxBufferSize at * <;> omega
  · rw [hbuffer, List.length_append]
    refine .inr (.inr ⟨hnone, ?_⟩)
    omega

/-- What is new of an attempt. -/
theorem Inv.sound_attemptOn (h : s.Inv m r₀) {config : Config} {shaper : PulseShaper (Sample ℚ)}
    (h₀ : Receiver.create m config shaper = .ok r₀) (hlength : samples.length = rxBatchSize)
    (hmany : minDecodeSamples ≤ s.thread.samplesSinceLastDecode + samples.length)
    (hdecode : s.thread.receiver.reset.decode m fuel (s.thread.rxBuffer ++ samples) =
      some (answer, receiver)) :
    (s.attemptOn samples answer).Sound m r₀ (s.stream ++ samples) where
  lt := by
    have hle : s.start ≤ s.stream.length := Nat.sub_le ..
    simp only [attemptOn, List.length_append]
    unfold rxBatchSize at hlength
    omega
  size := by
    obtain ⟨n, -, hsince, -⟩ := h.rounds
    have hadd := h.start_add
    have hsize := h.size
    simp only [attemptOn, List.length_append]
    unfold rxBatchSize minDecodeSamples at *
    omega
  within := le_rfl
  decodes := by
    have hwindow : window (s.stream ++ samples) (s.attemptOn samples answer).start
        ((s.attemptOn samples answer).stop - (s.attemptOn samples answer).start) =
          s.thread.rxBuffer ++ samples := by
      rw [h.buffer_append samples, window]
      refine List.take_of_length_le ?_
      simp only [attemptOn, List.length_drop]
      exact le_rfl
    rw [hwindow]
    refine ⟨fuel, ?_⟩
    rw [← h.tuned.fst_decode_reset h₀, hdecode]
    rfl

/-- An attempt ends after all that came before it. -/
theorem Inv.before_attemptOn (h : s.Inv m r₀) (hlength : samples.length = rxBatchSize) :
    ∀ a ∈ s.attempts, a.Before (s.attemptOn samples answer) := by
  intro a ha
  have hwithin := (h.sound a ha).within
  refine ⟨?_, (h.apart a ha).1, (h.apart a ha).2⟩
  simp only [attemptOn, List.length_append]
  unfold rxBatchSize at hlength
  omega

theorem Begun.mono {attempts attempts' : List Attempt} {start : ℕ} (h : Begun attempts start)
    (hsubset : attempts ⊆ attempts') : Begun attempts' start := by
  rcases h with hzero | ⟨a, ha, hwhy⟩
  · exact .inl hzero
  · exact .inr ⟨a, hsubset ha, hwhy⟩

theorem Inv.attempt (h : s.Inv m r₀) {config : Config} {shaper : PulseShaper (Sample ℚ)}
    (h₀ : Receiver.create m config shaper = .ok r₀) (hlength : samples.length = rxBatchSize)
    (hmany : minDecodeSamples ≤ s.thread.samplesSinceLastDecode + samples.length)
    (hdecode : s.thread.receiver.reset.decode m fuel (s.thread.rxBuffer ++ samples) =
      some (answer, receiver)) : (s.attempt samples receiver answer).Inv m r₀ := by
  have hstart := @start_attempt m s samples receiver r₀ answer h
  have hbefore := @Inv.before_attemptOn m s samples r₀ answer h hlength
  have hsettled := RxThread.settle_cases
    { receiver := receiver, rxBuffer := s.thread.rxBuffer ++ samples } answer
  have hle : s.start ≤ (s.attempt samples receiver answer).start := by
    have hin : s.start ≤ s.stream.length := Nat.sub_le ..
    have hgrown := @List.length_append _ s.stream samples
    rcases hstart with ⟨-, hstart⟩ | ⟨-, hle, -⟩ | ⟨-, hstart⟩ <;> omega
  refine
    { tuned := ?tuned, buffer := ?buffer, rounds := ?rounds, size := ?size, sound := ?sound
      ordered := ?ordered, apart := ?apart, begun := ?begun, begunBefore := ?begunBefore }
  case tuned =>
    simp only [RxRun.attempt, RxThread.receiver_settle]
    exact (Receiver.sameTuning_decode hdecode).trans
      ((Receiver.sameTuning_reset _).trans h.tuned)
  case buffer =>
    -- what is left of the buffer after a payload, a cut and neither is an end of it
    have hsuffix : s.thread.rxBuffer ++ samples <:+ s.stream ++ samples :=
      List.suffix_append_self_iff.mpr h.buffer
    rcases hsettled with ⟨-, hbuffer⟩ | ⟨-, -, hbuffer⟩ | ⟨-, -, hbuffer⟩ <;>
      simp only [RxRun.attempt, hbuffer]
    · exact List.nil_suffix
    · exact (List.drop_suffix ..).trans hsuffix
    · exact hsuffix
  case rounds =>
    obtain ⟨n, hstream, hsince, hstops⟩ := h.rounds
    refine ⟨n + 1, ?_, ?_, ?_⟩
    · simp only [RxRun.attempt, List.length_append]
      rw [hstream, hlength, Nat.mul_add_one]
    · simp only [RxRun.attempt, RxThread.samplesSinceLastDecode_settle]
      unfold rxBatchSize minDecodeSamples at *
      omega
    · have hnext : (n + 1) / 4 = n / 4 + 1 := by
        unfold rxBatchSize minDecodeSamples at *
        omega
      have hstop : (s.stream ++ samples).length = minDecodeSamples * (n / 4 + 1) := by
        rw [List.length_append]
        unfold rxBatchSize minDecodeSamples at *
        omega
      simp only [RxRun.attempt, attemptOn, List.map_append, List.map_cons, List.map_nil, hstops,
        hstop, hnext, List.range_succ]
  case size =>
    simp only [RxRun.attempt, RxThread.samplesSinceLastDecode_settle, Nat.add_zero]
    rcases hsettled with ⟨-, hbuffer⟩ | ⟨-, -, hbuffer⟩ | ⟨-, hshort, hbuffer⟩ <;> rw [hbuffer]
    · exact Nat.zero_le _
    · rw [List.length_drop]
      unfold maxBufferSize
      omega
    · exact hshort
  case sound =>
    intro a ha
    rcases List.mem_append.mp ha with ha | ha
    · exact (h.sound a ha).append samples
    · rw [List.mem_singleton.mp ha]
      exact h.sound_attemptOn h₀ hlength hmany hdecode
  case ordered =>
    refine List.pairwise_append.mpr ⟨h.ordered, List.pairwise_singleton .., fun a ha b hb => ?_⟩
    rw [List.mem_singleton.mp hb]
    exact hbefore a ha
  case apart =>
    intro a ha
    rcases List.mem_append.mp ha with ha | ha
    · exact ⟨(h.apart a ha).1.trans hle, fun hdelivers => ((h.apart a ha).2 hdelivers).trans hle⟩
    · rw [List.mem_singleton.mp ha]
      refine ⟨hle, fun hdelivers => ?_⟩
      rcases hstart with ⟨-, hstart⟩ | ⟨hnone, -⟩ | ⟨hnone, -⟩
      · rw [hstart]
        exact le_rfl
      · exact absurd hdelivers hnone
      · exact absurd hdelivers hnone
  case begun =>
    -- this attempt says why the buffer begins here, but where it left the buffer alone
    have hmem : s.attemptOn samples answer ∈ (s.attempt samples receiver answer).attempts :=
      List.mem_append_right _ List.mem_cons_self
    rcases hstart with ⟨hsome, hstart⟩ | ⟨-, -, hcut⟩ | ⟨-, hstart⟩
    · exact .inr ⟨_, hmem, .inl ⟨hsome, hstart⟩⟩
    · exact .inr ⟨_, hmem, .inr hcut⟩
    · rw [hstart]
      exact h.begun.mono (List.subset_append_left ..)
  case begunBefore =>
    -- the attempt began where the buffer did, and all attempts before it ended earlier
    intro a ha
    rcases List.mem_append.mp ha with ha | ha
    · exact (h.begunBefore a ha).mono
        ((List.sublist_append_left s.attempts _).filter _).subset
    · rw [List.mem_singleton.mp ha]
      refine h.begun.mono fun b hb => List.mem_filter.mpr ⟨List.mem_append_left _ hb, ?_⟩
      exact decide_eq_true (hbefore b hb).stop

/-! ## Runs of the thread -/

theorem Inv.exec (h : s.Inv m r₀) {config : Config} {shaper : PulseShaper (Sample ℚ)}
    (h₀ : Receiver.create m config shaper = .ok r₀) {event : RxEvent}
    (hexec : s.exec m fuel event = some s') : s'.Inv m r₀ := by
  rcases exec_cases hexec with rfl | ⟨payload, rest, -, rfl⟩ | ⟨samples, hlength, hfew, rfl⟩ |
    ⟨samples, receiver, answer, hlength, hmany, hdecode, rfl⟩
  · exact h
  · exact ⟨h.tuned, h.buffer, h.rounds, h.size, h.sound, h.ordered, h.apart, h.begun,
      h.begunBefore⟩
  · exact h.collect hlength hfew
  · exact h.attempt h₀ hlength hmany hdecode

theorem inv_of_reachable {config : Config} {shaper : PulseShaper (Sample ℚ)}
    (h₀ : Receiver.create m config shaper = .ok r₀)
    (h : (rxRuns m config shaper).Reachable System.free s) : s.Inv m r₀ := by
  refine h.invariant (fun s hinit => ?_) fun s event s' hs _ hstep => ?_
  · obtain ⟨receiver, hcreate, rfl⟩ := hinit
    obtain rfl := Except.ok.inj (hcreate.symm.trans h₀)
    exact
      { tuned := .refl _
        buffer := List.nil_suffix
        rounds := ⟨0, rfl, rfl, rfl⟩
        size := Nat.zero_le _
        sound := by simp
        ordered := .nil
        apart := by simp
        begun := .inl rfl
        begunBefore := by simp }
  · obtain ⟨fuel, hexec⟩ := hstep
    exact hs.exec h₀ hexec

/-- What has gone to the output thread are payloads of attempts, in order. -/
def Ordered (s : RxRun) : Prop :=
  (s.taken ++ s.rxToOutput).Sublist (s.attempts.filterMap fun a => queued a.decoded)

theorem Ordered.attempt (h : s.Ordered) : (s.attempt samples receiver answer).Ordered := by
  unfold Ordered at h ⊢
  simp only [RxRun.attempt, List.filterMap_append, List.filterMap_cons, List.filterMap_nil,
    attemptOn]
  cases queued answer with
  | none => simpa using h
  | some payload =>
      simp only [Option.toList_some, List.foldl_cons, List.foldl_nil, tryPush]
      split
      · rw [← List.append_assoc]
        exact h.append (.refl _)
      · exact h.trans (List.sublist_append_left ..)

theorem ordered_of_reachable {config : Config} {shaper : PulseShaper (Sample ℚ)}
    (h : (rxRuns m config shaper).Reachable System.free s) : s.Ordered := by
  refine h.invariant (fun s hinit => ?_) fun s event s' hs _ hstep => ?_
  · obtain ⟨receiver, -, rfl⟩ := hinit
    exact .slnil
  · obtain ⟨fuel, hexec⟩ := hstep
    rcases exec_cases hexec with rfl | ⟨payload, rest, hqueue, rfl⟩ | ⟨samples, -, -, rfl⟩ |
      ⟨samples, receiver, answer, -, -, -, rfl⟩
    · exact hs
    · unfold Ordered at hs ⊢
      rw [hqueue] at hs
      simpa using hs
    · exact hs
    · exact hs.attempt

/-! ## A run in silence -/

open Receiver (coarseFunctions oneTapOfTwo)

/-- A round with samples that come at once. -/
theorem exec_samples (m : MathFunctions) (fuel : ℕ) (s : RxRun) {samples : List (Sample ℚ)}
    (hlength : samples.length = rxBatchSize) : s.exec m fuel (.receive [.samples samples]) =
      (s.thread.round m fuel samples).map (s.note samples) := by
  have hrecv : recv rxBatchSize [.samples samples] = some (.ok samples) := by
    have hwhole : [] ++ samples.take (rxBatchSize - 0) = samples :=
      List.take_of_length_le hlength.le
    unfold recv recvLoop
    rw [if_pos (by decide)]
    dsimp only
    rw [List.length_nil, hwhole, recvLoop, if_neg (by omega)]
  rw [exec, hrecv]

/-- One batch of silence. -/
def silentBatch : List (Sample ℚ) := List.replicate rxBatchSize 0

theorem length_silentBatch : silentBatch.length = rxBatchSize := List.length_replicate

theorem silence_append {before : List (Sample ℚ)} (h : Silence before) :
    Silence (before ++ silentBatch) := by
  intro x hx
  rcases List.mem_append.mp hx with hx | hx
  · exact h x hx
  · exact List.eq_of_mem_replicate hx

/-- The length of the buffer after so many batches of silence. -/
def silentLength : ℕ → ℕ
  | 0 => 0
  | n + 1 =>
    if (n + 1) % 4 = 0 ∧ silentLength n + rxBatchSize > maxBufferSize then maxBufferSize / 2
    else silentLength n + rxBatchSize

/-- The attempts in silence. -/
def silentAttempt (k : ℕ) : Attempt where
  start := rxBatchSize * (4 * k + 3) - silentLength (4 * k + 3)
  stop := minDecodeSamples * (k + 1)
  decoded := none

/-- A run in silence, after so many batches. -/
structure Silent (n : ℕ) (s : RxRun) : Prop where
  reachable : (rxRuns coarseFunctions {} oneTapOfTwo).Reachable System.free s
  silent : Silence s.thread.rxBuffer
  stream : s.stream.length = rxBatchSize * n
  since : s.thread.samplesSinceLastDecode = rxBatchSize * (n % 4)
  buffer : s.thread.rxBuffer.length = silentLength n
  attempts : s.attempts = (List.range (n / 4)).map silentAttempt

/-- One more batch, without an attempt. -/
theorem Silent.collect {n : ℕ} (h : s.Silent n) (hn : n % 4 < 3) :
    (s.collect silentBatch).Silent (n + 1) := by
  have hround : s.thread.round coarseFunctions 0 silentBatch =
      some ((s.collect silentBatch).thread, none) := by
    rw [RxThread.round, if_neg (by decide +kernel), if_pos]
    · rfl
    · rw [h.since, length_silentBatch]
      unfold rxBatchSize minDecodeSamples
      omega
  have hexec : s.exec coarseFunctions 0 (.receive [.samples silentBatch]) =
      some (s.collect silentBatch) := by
    rw [exec_samples _ _ _ length_silentBatch, hround, Option.map_some]
    simp [note, RxRun.collect]
  refine ⟨h.reachable.step (a := .receive [.samples silentBatch]) trivial ⟨0, hexec⟩,
    silence_append h.silent, ?_, ?_, ?_, ?_⟩
  · simp only [RxRun.collect, List.length_append, h.stream, length_silentBatch, Nat.mul_add_one]
  · have hmod : (n + 1) % 4 = n % 4 + 1 := by omega
    simp only [RxRun.collect, h.since, length_silentBatch, hmod, Nat.mul_add_one]
  · have hno : ¬((n + 1) % 4 = 0 ∧ silentLength n + rxBatchSize > maxBufferSize) :=
      fun hcut => by omega
    rw [silentLength, if_neg hno]
    simp only [RxRun.collect, List.length_append, h.buffer, length_silentBatch]
  · have hdiv : (n + 1) / 4 = n / 4 := by omega
    rw [hdiv]
    exact h.attempts

/-- One more batch, with an attempt that finds nothing. -/
theorem Silent.attempt {n : ℕ} (h : s.Silent n) (hn : n % 4 = 3) :
    ∃ receiver, (s.attempt silentBatch receiver none).Silent (n + 1) := by
  obtain ⟨r₀, h₀⟩ := Receiver.exists_create
  have hall := silence_append h.silent
  obtain ⟨fuel, receiver, hdecode⟩ : ∃ fuel receiver,
      s.thread.receiver.reset.decode coarseFunctions fuel (s.thread.rxBuffer ++ silentBatch) =
        some (none, receiver) := by
    obtain ⟨fuel, answer, receiver, hdecode⟩ := Receiver.decode_silence
      (m := coarseFunctions) (by norm_num [coarseFunctions]) (Receiver.tuned_of_create h₀) hall
    have htuned := (inv_of_reachable h₀ h.reachable).tuned
    have hfst := (htuned.fst_decode_reset h₀ fuel (s.thread.rxBuffer ++ silentBatch)).trans
      ((Receiver.SameTuning.refl r₀).fst_decode_reset h₀ fuel _).symm
    rw [hdecode] at hfst
    obtain ⟨⟨answer', receiver'⟩, hdecode', -⟩ := Option.map_eq_some_iff.mp hfst
    have hnone := Receiver.decode_silence_none (by norm_num [coarseFunctions]) hall hdecode'
    exact ⟨fuel, receiver', hnone ▸ hdecode'⟩
  have hround : s.thread.round coarseFunctions fuel silentBatch =
      some ((s.attempt silentBatch receiver none).thread, some none) := by
    rw [RxThread.round, if_neg (by decide +kernel), if_neg, hdecode]
    · rfl
    · rw [h.since, length_silentBatch, hn]
      unfold rxBatchSize minDecodeSamples
      omega
  have hexec : s.exec coarseFunctions fuel (.receive [.samples silentBatch]) =
      some (s.attempt silentBatch receiver none) := by
    rw [exec_samples _ _ _ length_silentBatch, hround, Option.map_some]
    simp [note, RxRun.attempt, attemptOn]
  have hlength : (s.thread.rxBuffer ++ silentBatch).length = silentLength n + rxBatchSize := by
    rw [List.length_append, h.buffer, length_silentBatch]
  have hmod : (n + 1) % 4 = 0 := by omega
  refine ⟨receiver, h.reachable.step (a := .receive [.samples silentBatch]) trivial ⟨fuel, hexec⟩,
    ?_, ?_, ?_, ?_, ?_⟩
  · rcases RxThread.settle_cases ⟨receiver, s.thread.rxBuffer ++ silentBatch, 0⟩ none with
      ⟨hsome, -⟩ | ⟨-, -, hcut⟩ | ⟨-, -, hkept⟩
    · cases hsome
    · exact fun x hx => hall x (List.mem_of_mem_drop (hcut ▸ hx))
    · intro x hx
      rw [RxRun.attempt, hkept] at hx
      exact hall x hx
  · simp only [RxRun.attempt, List.length_append, h.stream, length_silentBatch, Nat.mul_add_one]
  · simp only [RxRun.attempt, RxThread.samplesSinceLastDecode_settle, hmod, Nat.mul_zero]
  · rw [silentLength]
    rcases RxThread.settle_cases ⟨receiver, s.thread.rxBuffer ++ silentBatch, 0⟩ none with
      ⟨hsome, -⟩ | ⟨-, hlong, hcut⟩ | ⟨-, hshort, hkept⟩
    · cases hsome
    · dsimp only at hlong hcut
      rw [hlength] at hlong hcut
      rw [if_pos ⟨hmod, hlong⟩, RxRun.attempt, hcut, List.length_drop, hlength]
      unfold maxBufferSize at *
      omega
    · dsimp only at hshort hkept
      rw [hlength] at hshort
      rw [if_neg fun hcut => absurd hcut.2 (not_lt.mpr hshort), RxRun.attempt, hkept, hlength]
  · have hdiv : (n + 1) / 4 = n / 4 + 1 := by omega
    have hbatch : n = 4 * (n / 4) + 3 := by omega
    have hstop : rxBatchSize * n + rxBatchSize = minDecodeSamples * (n / 4 + 1) := by
      unfold rxBatchSize minDecodeSamples
      omega
    have hattempt : s.attemptOn silentBatch none = silentAttempt (n / 4) := by
      rw [attemptOn, silentAttempt, start, h.stream, h.buffer, List.length_append, h.stream,
        length_silentBatch, ← hbatch, hstop]
    rw [hdiv, List.range_succ, List.map_append, ← h.attempts]
    show s.attempts ++ [s.attemptOn silentBatch none] = _
    rw [hattempt]
    rfl

/-- Any number of batches of silence. -/
theorem exists_silent (n : ℕ) : ∃ s : RxRun, s.Silent n := by
  induction n with
  | zero =>
      obtain ⟨r₀, h₀⟩ := Receiver.exists_create
      exact ⟨{ thread := { receiver := r₀ } },
        ⟨.init ⟨r₀, h₀, rfl⟩, fun _ hx => (nomatch hx), rfl, rfl, rfl, rfl⟩⟩
  | succ n ih =>
      obtain ⟨s, h⟩ := ih
      rcases Nat.lt_or_ge (n % 4) 3 with hfew | hmany
      · exact ⟨_, h.collect hfew⟩
      · obtain ⟨receiver, hsilent⟩ := h.attempt (by omega)
        exact ⟨_, hsilent⟩

/-! ## The attempts -/

/-- **Attempts.** Each attempt answers what a new receiver answers to a
stretch of the samples; a stretch that gave a payload ends before every later
one begins; and what the output thread is given are these payloads, in order
and none twice. -/
theorem attempts_sound {config : Config} {shaper : PulseShaper (Sample ℚ)}
    (h₀ : Receiver.create m config shaper = .ok r₀)
    (h : (rxRuns m config shaper).Reachable System.free s) :
    (∀ a ∈ s.attempts, a.Sound m r₀ s.stream) ∧ s.attempts.Pairwise Attempt.Before ∧ s.Ordered :=
  have hinv := inv_of_reachable h₀ h
  ⟨hinv.sound, hinv.ordered, ordered_of_reachable h⟩

/-- Nineteen attempts in silence. The first seventeen look at all that has been
received; then the buffer is cut to its last half. -/
theorem attempts_sound_silence : ∃ (r₀ : Receiver) (s : RxRun),
    Receiver.create coarseFunctions {} oneTapOfTwo = .ok r₀ ∧
      s.attempts.map (fun a => (a.start, a.stop)) =
        (List.range 17).map (fun k => (0, 16384 * (k + 1))) ++
          [(147456, 294912), (147456, 311296)] ∧
      (∀ a ∈ s.attempts, a.Sound coarseFunctions r₀ s.stream) ∧
      s.attempts.Pairwise Attempt.Before ∧ s.Ordered := by
  obtain ⟨r₀, h₀⟩ := Receiver.exists_create
  obtain ⟨s, h⟩ := exists_silent 76
  refine ⟨r₀, s, h₀, ?_, attempts_sound h₀ h.reachable⟩
  rw [h.attempts]
  decide +kernel

/-- There is an attempt after every so many samples. -/
theorem Inv.exists_attempt (h : s.Inv m r₀) {k : ℕ}
    (hk : minDecodeSamples * (k + 1) ≤ s.stream.length) :
    ∃ a ∈ s.attempts, a.stop = minDecodeSamples * (k + 1) := by
  obtain ⟨n, hstream, -, hstops⟩ := h.rounds
  have hmem : minDecodeSamples * (k + 1) ∈ s.attempts.map Attempt.stop := by
    rw [hstops]
    refine List.mem_map.mpr ⟨k, List.mem_range.mpr ?_, rfl⟩
    unfold rxBatchSize minDecodeSamples at *
    omega
  exact List.mem_map.mp hmem

theorem Inv.dvd_stop (h : s.Inv m r₀) {a : Attempt} (ha : a ∈ s.attempts) :
    minDecodeSamples ∣ a.stop := by
  obtain ⟨n, -, -, hstops⟩ := h.rounds
  have hmem := List.mem_map_of_mem (f := Attempt.stop) ha
  rw [hstops] at hmem
  obtain ⟨k, -, hk⟩ := List.mem_map.mp hmem
  exact ⟨k + 1, hk.symm⟩

/-- **Nothing is missed.** Every stretch of up to half a buffer is whole in
the window of the first attempt after its end, which is not later than
`MIN_DECODE_SAMPLES`; unless a payload was found while it came in. -/
theorem offered {config : Config} {shaper : PulseShaper (Sample ℚ)}
    (h₀ : Receiver.create m config shaper = .ok r₀)
    (h : (rxRuns m config shaper).Reachable System.free s) {i j : ℕ} (hlt : i < j)
    (hsize : j ≤ i + maxBufferSize / 2) (hin : j + minDecodeSamples ≤ s.stream.length + 1) :
    ∃ a ∈ s.attempts, j ≤ a.stop ∧ a.stop < j + minDecodeSamples ∧
      (a.start ≤ i ∨ ∃ b ∈ s.attempts, b.Delivers ∧ i < b.stop ∧ b.stop < j) := by
  have hinv := inv_of_reachable h₀ h
  -- the attempts end at the multiples, and this is the first that is not before `j`
  have hlast : minDecodeSamples * ((j - 1) / minDecodeSamples + 1) ≤ s.stream.length := by
    unfold minDecodeSamples at *
    omega
  obtain ⟨a, ha, hstop⟩ := hinv.exists_attempt hlast
  have hbetween : j ≤ a.stop ∧ a.stop < j + minDecodeSamples := by
    rw [hstop]
    unfold minDecodeSamples
    omega
  refine ⟨a, ha, hbetween.1, hbetween.2, ?_⟩
  rcases hinv.begunBefore a ha with hzero | ⟨b, hb, hwhy⟩
  · exact .inl (hzero ▸ Nat.zero_le i)
  · obtain ⟨hb, hearlier⟩ := List.mem_filter.mp hb
    have hearlier := of_decide_eq_true hearlier
    have hbefore : b.stop < j := by
      obtain ⟨k, hk⟩ := hinv.dvd_stop hb
      rw [hstop, hk] at hearlier
      rw [hk]
      have hle := Nat.lt_of_mul_lt_mul_left hearlier
      unfold minDecodeSamples at *
      omega
    rcases hwhy with ⟨hdelivers, hstart⟩ | hcut
    · rcases Nat.lt_or_ge i b.stop with hinside | houtside
      · exact .inr ⟨b, hb, hdelivers, hinside, hbefore⟩
      · exact .inl (hstart ▸ houtside)
    · refine .inl ?_
      omega

/-- In silence, half a buffer that comes in around the cut is in the window of
an attempt, as nothing is found. -/
theorem offered_silence : ∃ s : RxRun, s.stream.length = 311296 ∧
    ∃ a ∈ s.attempts, 294912 ≤ a.stop ∧ a.stop < 294912 + minDecodeSamples ∧
      a.start ≤ 163840 := by
  obtain ⟨r₀, h₀⟩ := Receiver.exists_create
  obtain ⟨s, h⟩ := exists_silent 76
  have hlength : s.stream.length = 311296 := h.stream
  obtain ⟨a, ha, hstop, hsoon, hwhole⟩ := offered (i := 163840) (j := 294912) h₀ h.reachable
    (by decide) (by decide) (by rw [hlength]; decide)
  refine ⟨s, hlength, a, ha, hstop, hsoon, hwhole.resolve_right ?_⟩
  rintro ⟨b, hb, hdelivers, -⟩
  rw [h.attempts] at hb
  obtain ⟨k, -, rfl⟩ := List.mem_map.mp hb
  cases hdelivers

end RxRun

end QpskB210.Modem
