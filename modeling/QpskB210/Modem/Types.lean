import Mathlib.Data.List.Basic

/-!
# Modem — Types

The records that the transmit and the receive side share. Of the
configuration and the counters, only what the bit pipeline uses is here.
-/

namespace QpskB210.Modem

inductive CodeRate where
  | rate12
  | rate34
deriving DecidableEq, Repr

/-- `static_cast<uint8_t>`. -/
def CodeRate.toUInt8 : CodeRate → UInt8
  | .rate12 => 0
  | .rate34 => 1

/-- `static_cast<CodeRate>`, where it gives one of the two rates. -/
def CodeRate.ofUInt8? (value : UInt8) : Option CodeRate :=
  if value = 0 then some .rate12 else if value = 1 then some .rate34 else none

/-- A piece of an error text. How a number is printed is left open. -/
inductive MessagePart where
  | text (s : String)
  | int (n : Int)
  | real (x : Rat)
deriving DecidableEq, Repr

/-- `std::invalid_argument`. -/
structure InvalidArgument where
  message : List MessagePart
deriving DecidableEq, Repr

structure Config where
  preamble : List Bool :=
    [true, true, true, true, true, false, false, true, true, false, true, false, true]
  fecEnabled : Bool := true
  fecCodeRate : CodeRate := .rate12
deriving DecidableEq, Repr

/-- `fecCodeRate` is the number that was on the wire: two bits, of which
`CodeRate` names two values. -/
structure FrameHeader where
  payloadLength : UInt16 := 0
  paddingBits : UInt8 := 0
  sequenceNumber : UInt16 := 0
  fecEnabled : Bool := false
  fecCodeRate : UInt8 := 0
deriving DecidableEq, Repr

structure Frame where
  header : FrameHeader
  payload : List UInt8
  crc : UInt32
  crcValid : Bool
deriving DecidableEq, Repr

structure RxDiagnostics where
  framesReceived : UInt64 := 0
  fecErrorsCorrected : UInt64 := 0
deriving DecidableEq, Repr

/-- The Barker sequence of the configuration, twice. -/
def makeDoubledPreamble (preamble : List Bool) : List Bool := preamble ++ preamble

theorem length_makeDoubledPreamble (preamble : List Bool) :
    (makeDoubledPreamble preamble).length = preamble.length * 2 := by
  rw [makeDoubledPreamble, List.length_append, Nat.mul_two]

end QpskB210.Modem
