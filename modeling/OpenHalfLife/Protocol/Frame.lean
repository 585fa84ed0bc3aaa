import Mathlib.Data.UInt
import OpenHalfLife.Lib.Machine

/-! # OWP/1 frames

The message kinds, the closed error set, the fixed header and its validation.
Header fields keep their wire width; every counter that the code computes
with is a natural number.
-/

namespace OpenHalfLife.Protocol

open Result

set_option autoImplicit false

/-- `FRAME_HEADER_BYTES`. -/
def frameHeaderBytes : Nat := 32

/-- `FRAME_MAGIC`, the bytes of `OHLP`. -/
def frameMagic : List UInt8 := [0x4f, 0x48, 0x4c, 0x50]

def protocolMajorVersion : UInt16 := 1

def protocolMinorVersion : UInt16 := 0

/-- `MAXIMUM_FRAME_PAYLOAD_BYTES`, 1 MiB. -/
def maximumFramePayloadBytes : Nat := 2 ^ 20

def maximumProtocolMessages : Nat := 2 ^ 20

/-- `MAXIMUM_CUMULATIVE_PAYLOAD_BYTES`, 64 GiB. -/
def maximumCumulativePayloadBytes : Nat := 64 * 1024 * 1024 * 1024

inductive ProtocolError
  | truncatedHeader
  | invalidMagic
  | unsupportedVersion
  | unknownMessageType
  | reservedFlags
  | payloadTooLarge
  | truncatedPayload
  | trailingBytes
  | invalidSessionId
  | invalidRequestId
  | wrongSessionId
  | wrongRequestId
  | requestIdNotMonotonic
  | unexpectedMessage
  | requestAlreadyActive
  | readAlreadyActive
  | noReadInFlight
  | messageBudgetExceeded
  | byteBudgetExceeded
  | invalidBudget
  | outputTooSmall
  | payloadUnderflow
  | payloadTrailingBytes
  | noncanonicalValue
  | terminalState
  deriving DecidableEq, Repr

inductive MessageType
  | hello
  | ready
  | enumerate
  | streamEntry
  | readRequest
  | readReply
  | entryBatch
  | dataChunk
  | complete
  | cancel
  | cancelAck
  | shutdown
  deriving DecidableEq, Repr

namespace MessageType

def fromWire (value : UInt16) : Except ProtocolError MessageType :=
  match value.toNat with
  | 0x0001 => .ok .hello
  | 0x0002 => .ok .ready
  | 0x0010 => .ok .enumerate
  | 0x0011 => .ok .streamEntry
  | 0x0020 => .ok .readRequest
  | 0x0021 => .ok .readReply
  | 0x0030 => .ok .entryBatch
  | 0x0031 => .ok .dataChunk
  | 0x0032 => .ok .complete
  | 0x0040 => .ok .cancel
  | 0x0041 => .ok .cancelAck
  | 0x0042 => .ok .shutdown
  | _ => .error .unknownMessageType

def toWire : MessageType → UInt16
  | hello => 0x0001
  | ready => 0x0002
  | enumerate => 0x0010
  | streamEntry => 0x0011
  | readRequest => 0x0020
  | readReply => 0x0021
  | entryBatch => 0x0030
  | dataChunk => 0x0031
  | complete => 0x0032
  | cancel => 0x0040
  | cancelAck => 0x0041
  | shutdown => 0x0042

def requiresZeroRequestId : MessageType → Bool
  | hello | ready | shutdown => true
  | _ => false

theorem fromWire_toWire (kind : MessageType) : fromWire kind.toWire = .ok kind := by
  cases kind <;> rfl

end MessageType

structure FrameHeader where
  majorVersion : UInt16
  minorVersion : UInt16
  messageType : MessageType
  flags : UInt16
  payloadLength : UInt32
  sessionId : UInt64
  requestId : UInt64
  deriving DecidableEq, Repr

namespace FrameHeader

def new (messageType : MessageType) (sessionId requestId : UInt64) (payloadLength : UInt32) :
    FrameHeader where
  majorVersion := protocolMajorVersion
  minorVersion := protocolMinorVersion
  messageType := messageType
  flags := 0
  payloadLength := payloadLength
  sessionId := sessionId
  requestId := requestId

/-- The first failing rule, in the order version, flags, payload ceiling,
session id, request id. -/
def validate (header : FrameHeader) : Except ProtocolError Unit :=
  if header.majorVersion ≠ protocolMajorVersion ∨ header.minorVersion ≠ protocolMinorVersion then
    .error .unsupportedVersion
  else if header.flags ≠ 0 then .error .reservedFlags
  else if header.payloadLength.toNat > maximumFramePayloadBytes then .error .payloadTooLarge
  else if header.sessionId = 0 then .error .invalidSessionId
  else
    let zeroRequest := header.messageType.requiresZeroRequestId
    if (zeroRequest ∧ header.requestId ≠ 0) ∨ (¬ zeroRequest ∧ header.requestId = 0) then
      .error .invalidRequestId
    else .ok ()

def Valid (header : FrameHeader) : Prop := header.validate = .ok ()

instance (header : FrameHeader) : Decidable header.Valid :=
  inferInstanceAs (Decidable (_ = _))

theorem validate_eq_ok_iff (header : FrameHeader) : header.validate = .ok () ↔
    header.majorVersion = protocolMajorVersion ∧ header.minorVersion = protocolMinorVersion ∧
    header.flags = 0 ∧ header.payloadLength.toNat ≤ maximumFramePayloadBytes ∧
    header.sessionId ≠ 0 ∧
    (header.messageType.requiresZeroRequestId = true ↔ header.requestId = 0) := by
  simp only [validate, ite_error_eq_ok]
  cases header.messageType.requiresZeroRequestId <;> simp [and_assoc]

theorem Valid.payloadLength_le {header : FrameHeader} (h : header.Valid) :
    header.payloadLength.toNat ≤ maximumFramePayloadBytes :=
  ((validate_eq_ok_iff header).mp h).2.2.2.1

theorem Valid.requestId_eq_zero_iff {header : FrameHeader} (h : header.Valid) :
    header.messageType.requiresZeroRequestId = true ↔ header.requestId = 0 :=
  ((validate_eq_ok_iff header).mp h).2.2.2.2.2

end FrameHeader

end OpenHalfLife.Protocol
