import QpskB210.Ltp.Framing

/-!
# LTP — TcpEgress

The server that hands delivered blocks to its clients. `deliver` and the
accept loop hold one lock for a whole call, so a call is one step; what
`::write` answers is an argument of the step.

A client stands under the number of its connection instead of under its
descriptor: the descriptors in `client_fds_` are open, so no two are equal.
A frame carries the number of the `deliver` call that it belongs to. That
number, the frames delivered and the trace are not in the source: they are
there to speak about.
-/

namespace QpskB210.Ltp

/-- A framed block. -/
structure Frame where
  number : Nat
  bytes : List UInt8
deriving DecidableEq, Repr

def Frame.size (frame : Frame) : UInt64 := UInt64.ofNat frame.bytes.length

/-- What becomes of frames: the write loop of one client ended, with so many
bytes of the frame written, or the capacity loop discarded one. -/
inductive EgressEvent where
  | wrote (client : Nat) (frame : Frame) (count : Nat)
  | discarded (frame : Frame)
deriving DecidableEq, Repr

structure TcpEgress where
  maxBufferBytes : UInt64
  clients : List Nat := []
  buffer : List Frame := []
  bufferBytes : UInt64 := 0
  accepted : Nat := 0
  delivered : List Frame := []
  trace : List EgressEvent := []

/-- What the calls of `::write` return that offer a client the bytes of a
frame, one after the other. 0 stands for every failure, and so does the end
of the list. -/
abbrev Answers : Type := Frame → Nat → List Nat

/-- `while (written < framed.size())`: how much of what remains is written.
`::write` takes at most what it is offered. -/
def writeLoop : List Nat → Nat → Nat
  | [], _ => 0
  | n :: answers, remaining =>
    if remaining = 0 then 0
    else if n = 0 then 0
    else
      let n := min n remaining
      n + writeLoop answers (remaining - n)

/-- The capacity loop of `deliver`: the discarded blocks, and what is left in
the buffer and of `buffer_bytes_`. -/
def discardLoop (maxBufferBytes framedSize : UInt64) :
    List Frame → UInt64 → List Frame × List Frame × UInt64
  | [], bufferBytes => ([], [], bufferBytes)
  | front :: buffer, bufferBytes =>
    if bufferBytes + framedSize > maxBufferBytes then
      let (discarded, rest) :=
        discardLoop maxBufferBytes framedSize buffer (bufferBytes - front.size)
      (front :: discarded, rest)
    else ([], front :: buffer, bufferBytes)

namespace TcpEgress

/-- `write_to_clients`. -/
def writeToClients (t : TcpEgress) (answers : Answers) (frame : Frame) : TcpEgress :=
  let written (client : Nat) := writeLoop (answers frame client) frame.bytes.length
  let dead := t.clients.filter fun client => written client < frame.bytes.length
  { t with
    clients := t.clients.filter fun client => client ∉ dead
    trace := t.trace ++ t.clients.map fun client => .wrote client frame (written client) }

/-- The frame that the next `deliver` makes of its data. -/
def nextFrame (t : TcpEgress) (data : List UInt8) : Frame :=
  { number := t.delivered.length, bytes := frameMessage data }

/-- Keep a frame until a client connects. -/
def bufferFrame (t : TcpEgress) (framed : Frame) : TcpEgress :=
  let (discarded, buffer, bufferBytes) :=
    discardLoop t.maxBufferBytes framed.size t.buffer t.bufferBytes
  { t with
    buffer := buffer ++ [framed]
    bufferBytes := bufferBytes + framed.size
    trace := t.trace ++ discarded.map .discarded }

/-- `deliver`. -/
def deliver (t : TcpEgress) (data : List UInt8) (answers : Answers) : TcpEgress :=
  let framed := t.nextFrame data
  let t := { t with delivered := t.delivered ++ [framed] }
  if t.clients.isEmpty then t.bufferFrame framed else t.writeToClients answers framed

/-- The loop of `flush_buffer_to_clients`, over what is in `buffer_`. -/
def flushLoop (answers : Answers) : List Frame → TcpEgress → TcpEgress
  | [], t => t
  | front :: buffer, t =>
    if t.clients.isEmpty then t
    else
      let t := t.writeToClients answers front
      flushLoop answers buffer
        { t with buffer := buffer, bufferBytes := t.bufferBytes - front.size }

/-- `flush_buffer_to_clients`. -/
def flushBufferToClients (t : TcpEgress) (answers : Answers) : TcpEgress :=
  flushLoop answers t.buffer t

/-- The accept loop takes in a client. -/
def connect (t : TcpEgress) (answers : Answers) : TcpEgress :=
  flushBufferToClients
    { t with clients := t.clients ++ [t.accepted], accepted := t.accepted + 1 } answers

end TcpEgress

inductive EgressCall where
  | deliver (data : List UInt8) (answers : Answers)
  | connect (answers : Answers)

namespace TcpEgress

def exec (t : TcpEgress) : EgressCall → TcpEgress
  | .deliver data answers => t.deliver data answers
  | .connect answers => t.connect answers

/-- Some calls, one after the other. -/
def run (t : TcpEgress) (calls : List EgressCall) : TcpEgress := calls.foldl exec t

/-- A newly constructed server. -/
def create (maxBufferBytes : UInt64) : TcpEgress := { maxBufferBytes := maxBufferBytes }

end TcpEgress

/-! ## The write loop -/

/-- How much a client takes: the answers up to the first failure. -/
def accepts (answers : List Nat) : Nat := (answers.takeWhile (0 < ·)).sum

theorem accepts_cons (n : Nat) (answers : List Nat) :
    accepts (n :: answers) = if n = 0 then 0 else n + accepts answers := by
  cases n with
  | zero => rfl
  | succ n => simp [accepts]

theorem writeLoop_eq (answers : List Nat) (remaining : Nat) :
    writeLoop answers remaining = min (accepts answers) remaining := by
  induction answers generalizing remaining with
  | nil => exact (Nat.zero_min remaining).symm
  | cons n answers ih =>
      rw [writeLoop, accepts_cons]
      split
      · next hzero => rw [hzero, Nat.min_zero]
      · split
        · exact (Nat.zero_min remaining).symm
        · dsimp only
          rw [ih]
          omega

/-- The client takes the whole frame. -/
def Takes (answers : Answers) (frame : Frame) (client : Nat) : Prop :=
  frame.bytes.length ≤ accepts (answers frame client)

instance (answers : Answers) (frame : Frame) (client : Nat) :
    Decidable (Takes answers frame client) := Nat.decLe ..

theorem takes_iff {answers : Answers} {frame : Frame} {client : Nat} :
    Takes answers frame client ↔
      writeLoop (answers frame client) frame.bytes.length = frame.bytes.length := by
  rw [Takes, writeLoop_eq]
  omega

theorem discardLoop_append (maxBufferBytes framedSize : UInt64) (buffer : List Frame)
    (bufferBytes : UInt64) :
    (discardLoop maxBufferBytes framedSize buffer bufferBytes).1 ++
      (discardLoop maxBufferBytes framedSize buffer bufferBytes).2.1 = buffer := by
  induction buffer generalizing bufferBytes with
  | nil => rfl
  | cons front buffer ih =>
      rw [discardLoop]
      split
      · exact congrArg (front :: ·) (ih _)
      · rfl

namespace TcpEgress

variable {t : TcpEgress} {answers : Answers} {frame : Frame}

/-- The clients that stay are those that took the whole frame. -/
theorem mem_clients_writeToClients {client : Nat} :
    client ∈ (t.writeToClients answers frame).clients ↔
      client ∈ t.clients ∧ Takes answers frame client := by
  rw [takes_iff, writeLoop_eq]
  simp only [writeToClients, List.mem_filter, decide_eq_true_eq, writeLoop_eq, not_and, not_lt]
  constructor
  · intro h
    exact ⟨h.1, Nat.le_antisymm (Nat.min_le_right _ _) (h.2 h.1)⟩
  · intro h
    exact ⟨h.1, fun _ => h.2.ge⟩

end TcpEgress

end QpskB210.Ltp
