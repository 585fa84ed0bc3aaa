import OpenHalfLife.Lib.Bytes
import OpenHalfLife.Lib.Machine
import OpenHalfLife.Protocol.Frame

/-! # Payload fields

Little-endian readers and writers over one bounded payload. Both are sticky:
the first failure is kept and returned again by every later operation.
-/

namespace OpenHalfLife.Protocol

set_option autoImplicit false

inductive ProtocolStatus
  | ok
  | unsupported
  | invalidRequest
  | parserRejected
  | budgetExceeded
  | cancelled
  | sourceChanged
  | sourceReadFailed
  | resultValidationFailed
  | internalFailure
  deriving DecidableEq, Repr

namespace ProtocolStatus

def fromWire (value : UInt16) : Except ProtocolError ProtocolStatus :=
  match value.toNat with
  | 0 => .ok .ok
  | 1 => .ok .unsupported
  | 2 => .ok .invalidRequest
  | 3 => .ok .parserRejected
  | 4 => .ok .budgetExceeded
  | 5 => .ok .cancelled
  | 6 => .ok .sourceChanged
  | 7 => .ok .sourceReadFailed
  | 8 => .ok .resultValidationFailed
  | 9 => .ok .internalFailure
  | _ => .error .noncanonicalValue

def toWire : ProtocolStatus → UInt16
  | ok => 0
  | unsupported => 1
  | invalidRequest => 2
  | parserRejected => 3
  | budgetExceeded => 4
  | cancelled => 5
  | sourceChanged => 6
  | sourceReadFailed => 7
  | resultValidationFailed => 8
  | internalFailure => 9

end ProtocolStatus

inductive ProtocolPhase
  | handshake
  | enumerate
  | stream
  | sourceRead
  | complete
  deriving DecidableEq, Repr

namespace ProtocolPhase

def fromWire (value : UInt16) : Except ProtocolError ProtocolPhase :=
  match value.toNat with
  | 0 => .ok .handshake
  | 1 => .ok .enumerate
  | 2 => .ok .stream
  | 3 => .ok .sourceRead
  | 4 => .ok .complete
  | _ => .error .noncanonicalValue

def toWire : ProtocolPhase → UInt16
  | handshake => 0
  | enumerate => 1
  | stream => 2
  | sourceRead => 3
  | complete => 4

end ProtocolPhase

structure PayloadReader where
  payload : List UInt8
  position : Nat
  error : Option ProtocolError
  position_le : position ≤ payload.length

namespace PayloadReader

abbrev Read := Machine ProtocolError PayloadReader

def new (payload : List UInt8) : PayloadReader where
  payload := payload
  position := 0
  error := if payload.length > maximumFramePayloadBytes then some .payloadTooLarge else none
  position_le := Nat.zero_le _

def reject {α : Type} (error : ProtocolError) : Read α :=
  .ofFun fun reader => (.error error, { reader with error := some error })

def take (size : Nat) : Read (List UInt8) := .ofFun fun reader =>
  match reader.error with
  | some error => (.error error, reader)
  | none =>
    if h : size > reader.payload.length - reader.position then
      (.error .payloadUnderflow, { reader with error := some .payloadUnderflow })
    else
      (.ok ((reader.payload.drop reader.position).take size), { reader with
        position := reader.position + size
        position_le := by have := reader.position_le; omega })

def readU16 : Read UInt16 := do
  let bytes ← take 2
  return UInt16.ofNat (fromLe bytes)

def readU32 : Read UInt32 := do
  let bytes ← take 4
  return UInt32.ofNat (fromLe bytes)

def readU64 : Read UInt64 := do
  let bytes ← take 8
  return UInt64.ofNat (fromLe bytes)

def readStatus : Read ProtocolStatus := do
  let encoded ← readU16
  match ProtocolStatus.fromWire encoded with
  | .ok status => return status
  | .error error => reject error

def readPhase : Read ProtocolPhase := do
  let encoded ← readU16
  match ProtocolPhase.fromWire encoded with
  | .ok phase => return phase
  | .error error => reject error

def readBytes (size : Nat) : Read (List UInt8) := take size

def remaining (reader : PayloadReader) : Nat := reader.payload.length - reader.position

def finish : Read Unit := .ofFun fun reader =>
  match reader.error with
  | some error => (.error error, reader)
  | none =>
    if reader.position ≠ reader.payload.length then
      (.error .payloadTrailingBytes, { reader with error := some .payloadTrailingBytes })
    else (.ok (), reader)

def decode {α : Type} (payload : List UInt8) (schema : Read α) : Except ProtocolError α :=
  (schema.exec (new payload)).1

end PayloadReader

/-- The destination is the encoder's own prefix of the caller's buffer, so only
what was written so far matters. -/
structure PayloadWriter where
  capacity : Nat
  written : List UInt8
  error : Option ProtocolError
  written_le : written.length ≤ capacity

namespace PayloadWriter

abbrev Write := Machine ProtocolError PayloadWriter

def new (destination : Nat) : PayloadWriter where
  capacity := min destination maximumFramePayloadBytes
  written := []
  error := none
  written_le := Nat.zero_le _

def writeBytes (value : List UInt8) : Write Unit := .ofFun fun writer =>
  match writer.error with
  | some error => (.error error, writer)
  | none =>
    if h : value.length > writer.capacity - writer.written.length then
      (.error .outputTooSmall, { writer with error := some .outputTooSmall })
    else
      (.ok (), { writer with
        written := writer.written ++ value
        written_le := by have := writer.written_le; rw [List.length_append]; omega })

def writeU16 (value : UInt16) : Write Unit := writeBytes (toLe 2 value.toNat)

def writeU32 (value : UInt32) : Write Unit := writeBytes (toLe 4 value.toNat)

def writeU64 (value : UInt64) : Write Unit := writeBytes (toLe 8 value.toNat)

def writeStatus (value : ProtocolStatus) : Write Unit := writeU16 value.toWire

def writePhase (value : ProtocolPhase) : Write Unit := writeU16 value.toWire

/-- The first `size` bytes of a buffer of `destination` bytes, filled by a schema. -/
def encode (destination size : Nat) (schema : Write Unit) : Except ProtocolError (List UInt8) :=
  if destination < size then .error .outputTooSmall
  else match schema.exec (new size) with
    | (.ok (), writer) => .ok writer.written
    | (.error error, _) => .error error

end PayloadWriter

end OpenHalfLife.Protocol
