import OpenHalfLife.Protocol.Frame

/-! # The OWP/1 session-ordering validator

Both peers feed their own validator every header they send and receive. The
validator keeps its state through a rejection: the first failure is sticky.
-/

namespace OpenHalfLife.Protocol

set_option autoImplicit false

structure SessionId where
  value : UInt64
  ne_zero : value ≠ 0

def SessionId.new (value : UInt64) : Option SessionId :=
  if h : value = 0 then none else some ⟨value, h⟩

structure ProtocolBudgets where
  maximumMessages : Nat
  maximumPayloadBytes : Nat
  messages_pos : 0 < maximumMessages
  messages_le : maximumMessages ≤ maximumProtocolMessages
  bytes_pos : 0 < maximumPayloadBytes
  bytes_le : maximumPayloadBytes ≤ maximumCumulativePayloadBytes

namespace ProtocolBudgets

def new (maximumMessages maximumPayloadBytes : Nat) : Except ProtocolError ProtocolBudgets :=
  if h : maximumMessages = 0 ∨ maximumMessages > maximumProtocolMessages ∨
      maximumPayloadBytes = 0 ∨ maximumPayloadBytes > maximumCumulativePayloadBytes then
    .error .invalidBudget
  else
    .ok ⟨maximumMessages, maximumPayloadBytes, by omega, by omega, by omega, by omega⟩

def default : ProtocolBudgets where
  maximumMessages := maximumProtocolMessages
  maximumPayloadBytes := maximumCumulativePayloadBytes
  messages_pos := by decide
  messages_le := Nat.le_refl _
  bytes_pos := by decide
  bytes_le := Nat.le_refl _

end ProtocolBudgets

inductive Direction
  | parentToWorker
  | workerToParent
  deriving DecidableEq, Repr

inductive SessionState
  | awaitingHello
  | awaitingReady
  | idle
  | enumerating
  | streaming
  | cancelling
  | cancelled
  | closed
  | failed
  deriving DecidableEq, Repr

/-- The counters never pass their budgets, so the remaining-bytes subtraction
of `charge` never underflows. -/
structure SessionValidator where
  sessionId : SessionId
  budgets : ProtocolBudgets
  state : SessionState
  error : Option ProtocolError
  activeRequestId : UInt64
  lastRequestId : UInt64
  completedRequestId : UInt64
  lateReadReplyRequestId : UInt64
  messageCount : Nat
  payloadBytes : Nat
  activeResultType : MessageType
  readInFlight : Bool
  acceptLateCancel : Bool
  crossedReadRequestSeen : Bool
  messageCount_le : messageCount ≤ budgets.maximumMessages
  payloadBytes_le : payloadBytes ≤ budgets.maximumPayloadBytes

namespace SessionValidator

abbrev Observed := Except ProtocolError Unit × SessionValidator

def new (sessionId : SessionId) (budgets : ProtocolBudgets) : SessionValidator where
  sessionId := sessionId
  budgets := budgets
  state := .awaitingHello
  error := none
  activeRequestId := 0
  lastRequestId := 0
  completedRequestId := 0
  lateReadReplyRequestId := 0
  messageCount := 0
  payloadBytes := 0
  activeResultType := .complete
  readInFlight := false
  acceptLateCancel := false
  crossedReadRequestSeen := false
  messageCount_le := Nat.zero_le _
  payloadBytes_le := Nat.zero_le _

def fail (v : SessionValidator) (error : ProtocolError) : Observed :=
  (.error error, { v with lateReadReplyRequestId := 0, error := some error, state := .failed })

def charge (v : SessionValidator) (header : FrameHeader) : Observed :=
  if hCount : v.messageCount ≥ v.budgets.maximumMessages then v.fail .messageBudgetExceeded
  else
    let v := { v with
      messageCount := v.messageCount + 1
      messageCount_le := Nat.lt_of_not_le hCount }
    if hBytes : header.payloadLength.toNat > v.budgets.maximumPayloadBytes - v.payloadBytes then
      v.fail .byteBudgetExceeded
    else
      (.ok (), { v with
        payloadBytes := v.payloadBytes + header.payloadLength.toNat
        payloadBytes_le := by have := v.payloadBytes_le; omega })

def beginRequest (v : SessionValidator) (header : FrameHeader) (state : SessionState) : Observed :=
  if header.requestId ≤ v.lastRequestId then v.fail .requestIdNotMonotonic
  else
    (.ok (), { v with
      lastRequestId := header.requestId
      activeRequestId := header.requestId
      completedRequestId := 0
      lateReadReplyRequestId := 0
      acceptLateCancel := false
      readInFlight := false
      crossedReadRequestSeen := false
      activeResultType := if state = .enumerating then .entryBatch else .dataChunk
      state := state })

def completeRequest (v : SessionValidator) (acceptLateCancel : Bool) : SessionValidator :=
  { v with
    completedRequestId := v.activeRequestId
    activeRequestId := 0
    lateReadReplyRequestId := 0
    readInFlight := false
    crossedReadRequestSeen := false
    acceptLateCancel := acceptLateCancel
    state := .idle }

def observeActive (v : SessionValidator) (direction : Direction) (header : FrameHeader)
    (resultType : MessageType) : Observed :=
  if header.messageType = .enumerate ∨ header.messageType = .streamEntry then
    v.fail .requestAlreadyActive
  else if header.requestId = 0 then v.fail .unexpectedMessage
  else if header.requestId ≠ v.activeRequestId then v.fail .wrongRequestId
  else match header.messageType, direction with
    | .readRequest, .workerToParent =>
      if v.readInFlight then v.fail .readAlreadyActive
      else (.ok (), { v with readInFlight := true })
    | .readReply, .parentToWorker =>
      if !v.readInFlight then v.fail .noReadInFlight
      else (.ok (), { v with readInFlight := false })
    | messageType, .workerToParent =>
      if messageType = resultType then
        if v.readInFlight then v.fail .unexpectedMessage else (.ok (), v)
      else if messageType = .complete then
        -- Completion wins the race with a cancel, which may still be consumed as stale.
        if v.readInFlight then v.fail .unexpectedMessage else (.ok (), v.completeRequest true)
      else v.fail .unexpectedMessage
    | .cancel, .parentToWorker =>
      (.ok (), { v with crossedReadRequestSeen := false, state := .cancelling })
    | _, _ => v.fail .unexpectedMessage

def observeIdle (v : SessionValidator) (direction : Direction) (header : FrameHeader) : Observed :=
  if direction ≠ .parentToWorker then v.fail .unexpectedMessage
  else match header.messageType with
    | .enumerate => v.beginRequest header .enumerating
    | .streamEntry => v.beginRequest header .streaming
    | .shutdown => (.ok (), { v with state := .closed })
    | .cancel =>
      if v.acceptLateCancel then
        if header.requestId ≠ v.completedRequestId then v.fail .wrongRequestId
        else (.ok (), { v with acceptLateCancel := false })
      else v.fail .unexpectedMessage
    | _ => v.fail .unexpectedMessage

def observeCancelling (v : SessionValidator) (direction : Direction) (header : FrameHeader) :
    Observed :=
  if header.requestId ≠ v.activeRequestId then v.fail .wrongRequestId
  else
    let resultType := v.activeResultType
    match header.messageType, direction with
    | .cancelAck, .workerToParent =>
      (.ok (), { v with
        lateReadReplyRequestId := if v.readInFlight then v.activeRequestId else 0
        activeRequestId := 0
        readInFlight := false
        crossedReadRequestSeen := false
        state := .cancelled })
    | .complete, .workerToParent =>
      if v.readInFlight || v.crossedReadRequestSeen then v.fail .unexpectedMessage
      else (.ok (), v.completeRequest false)
    | .readRequest, .workerToParent =>
      if v.readInFlight || v.crossedReadRequestSeen then v.fail .readAlreadyActive
      else (.ok (), { v with crossedReadRequestSeen := true })
    | .readReply, .parentToWorker =>
      -- Only a reply to a read that preceded the cancel can still resolve it.
      if !v.readInFlight then v.fail .noReadInFlight
      else (.ok (), { v with readInFlight := false })
    | messageType, .workerToParent =>
      if messageType = resultType then
        if v.readInFlight || v.crossedReadRequestSeen then v.fail .unexpectedMessage
        else (.ok (), v)
      else v.fail .unexpectedMessage
    | _, _ => v.fail .unexpectedMessage

def observeCancelled (v : SessionValidator) (direction : Direction) (header : FrameHeader) :
    Observed :=
  match direction, header.messageType with
  | .parentToWorker, .shutdown => (.ok (), { v with lateReadReplyRequestId := 0, state := .closed })
  | .parentToWorker, .readReply =>
    if v.lateReadReplyRequestId ≠ 0 then
      if header.requestId ≠ v.lateReadReplyRequestId then v.fail .wrongRequestId
      else (.ok (), { v with lateReadReplyRequestId := 0 })
    else v.fail .terminalState
  | _, _ => v.fail .terminalState

/-- The ordering rules of `observe`, after the header checks and the charge. -/
def observeCharged (v : SessionValidator) (direction : Direction) (header : FrameHeader) :
    Observed :=
  match v.state with
  | .awaitingHello =>
    if direction ≠ .parentToWorker ∨ header.messageType ≠ .hello then v.fail .unexpectedMessage
    else (.ok (), { v with state := .awaitingReady })
  | .awaitingReady =>
    if direction ≠ .workerToParent ∨ header.messageType ≠ .ready then v.fail .unexpectedMessage
    else (.ok (), { v with state := .idle })
  | .idle => v.observeIdle direction header
  | .enumerating => v.observeActive direction header .entryBatch
  | .streaming => v.observeActive direction header .dataChunk
  | .cancelling => v.observeCancelling direction header
  | .cancelled => v.observeCancelled direction header
  | .closed | .failed => v.fail .terminalState

def observe (v : SessionValidator) (direction : Direction) (header : FrameHeader) : Observed :=
  match v.error with
  | some error => (.error error, v)
  | none =>
    if v.state = .closed then v.fail .terminalState
    else match header.validate with
      | .error error => v.fail error
      | .ok () =>
        if header.sessionId ≠ v.sessionId.value then v.fail .wrongSessionId
        else match v.charge header with
          | (.error error, v) => (.error error, v)
          | (.ok (), v) => v.observeCharged direction header

end SessionValidator

end OpenHalfLife.Protocol
