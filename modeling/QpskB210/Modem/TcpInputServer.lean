import Mathlib.Data.List.Basic

/-!
# Modem — TcpInputServer

The byte buffer in front of the modulator. The input thread takes whole
frames out of it, and flushes what is left when the client has gone or has
been idle; when it does which is left open here. Whatever it does, the
payloads it queues are the received bytes, cut somewhere.
-/

namespace QpskB210.Modem

structure TcpInputServer where
  frameSize : Nat := 1024
  buffer : List UInt8 := []
deriving DecidableEq, Repr

namespace TcpInputServer

def hasFrame (s : TcpInputServer) : Bool := s.frameSize ≤ s.buffer.length

/-- `read_frame`, with the server after it. -/
def readFrame (s : TcpInputServer) : List UInt8 × TcpInputServer :=
  if s.buffer.length < s.frameSize then ([], s)
  else (s.buffer.take s.frameSize, { s with buffer := s.buffer.drop s.frameSize })

def flush (s : TcpInputServer) : List UInt8 × TcpInputServer :=
  (s.buffer, { s with buffer := [] })

/-- What `tcp_input_thread_fn` does with the server: bytes received from the
client, a frame taken because there is one, or a flush. -/
inductive InputOp where
  | recv (bytes : List UInt8)
  | readFrame
  | flush
deriving DecidableEq, Repr

/-- The bytes an operation brings in. -/
def InputOp.received : InputOp → List UInt8
  | .recv bytes => bytes
  | .readFrame => []
  | .flush => []

/-- One operation, with the data that goes to the modulator. -/
def apply (s : TcpInputServer) : InputOp → List UInt8 × TcpInputServer
  | .recv bytes => ([], { s with buffer := s.buffer ++ bytes })
  | .readFrame => if s.hasFrame then s.readFrame else ([], s)
  | .flush => s.flush

/-- The payloads queued by a list of operations. Empty data is not queued. -/
def payloads (s : TcpInputServer) : List InputOp → List (List UInt8)
  | [] => []
  | op :: ops =>
    let (data, s') := s.apply op
    if data.isEmpty then payloads s' ops else data :: payloads s' ops

/-- An operation moves bytes and changes none. -/
theorem apply_append (s : TcpInputServer) (op : InputOp) :
    (s.apply op).1 ++ (s.apply op).2.buffer = s.buffer ++ op.received := by
  cases op with
  | recv bytes => rfl
  | readFrame =>
      rw [apply, InputOp.received, List.append_nil]
      split
      · rw [readFrame]
        split
        · rfl
        · exact List.take_append_drop _ _
      · rfl
  | flush => rfl

/-- **Cutting.** The payloads are what was received, up to what the buffer
still holds. -/
theorem flatten_payloads_prefix (s : TcpInputServer) (ops : List InputOp) :
    (s.payloads ops).flatten <+: s.buffer ++ ops.flatMap InputOp.received := by
  induction ops generalizing s with
  | nil => exact List.nil_prefix
  | cons op ops ih =>
      have hrest := ih (s.apply op).2
      have hdata : (s.payloads (op :: ops)).flatten =
          (s.apply op).1 ++ ((s.apply op).2.payloads ops).flatten := by
        rw [payloads]
        dsimp only
        split
        · next hempty => rw [List.isEmpty_iff.mp hempty, List.nil_append]
        · rw [List.flatten_cons]
      rw [hdata, List.flatMap_cons, ← List.append_assoc, ← apply_append, List.append_assoc]
      exact (List.prefix_append_right_inj _).mpr hrest

end TcpInputServer

end QpskB210.Modem
